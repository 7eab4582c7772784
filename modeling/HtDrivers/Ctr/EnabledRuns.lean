import HtDrivers.Ctr.InterruptEnable

/-! The interrupts that are enabled over the runs of the calls. Connections keep the enable bits equal to what is
connected; disconnections do where they spare what the client, or another one, still has on the same counter. -/
namespace HtDrivers.Ctr
open HtDrivers.Lib.Tables HtDrivers.Lib.Masks HtDrivers.Lib.Transition
set_option autoImplicit false

/-! ## DisConnect on a module -/

section Modules
variable {beyond : ℕ → BitVec 32} {client : Fin ctrDrvrClientContexts} {conx : CtrDrvrConnection}
  {mcon : CtrDrvrModuleContext}

/-- The slots that a client leaves by `DisConnect`. -/
def Left (conx : CtrDrvrConnection) (slot : TrigSlot) : Prop := slot.matches conx = true ∧ conx.eqpClass.isObject = true

/-- The slots that a client leaves by `DisConnectAll`. -/
def Occupied (slot : TrigSlot) : Prop := slot.eqpNum ≠ 0

theorem isObject_iff {clss : CtrDrvrConnectionClass} : clss.isObject = true ↔ clss = .ctim ∨ clss = .ptim := by
  cases clss <;> simp [CtrDrvrConnectionClass.isObject]

theorem disConnectOne_object {clss : CtrDrvrConnectionClass} (hclass : clss.isObject = true)
    (i : Fin ctrDrvrRamTableSize) : disConnectOne beyond client clss mcon i = leaveSlot beyond client clss mcon i := by
  obtain rfl | rfl := isObject_iff.mp hclass
  · rfl
  · rfl

theorem isObject_ne_hard {clss : CtrDrvrConnectionClass} (hclass : clss.isObject = true) : clss ≠ .hard := by
  rintro rfl
  cases hclass

/-- The loop of `DisConnect` over the slots of an object. -/
theorem objectLoop_enabled (hclass : conx.eqpClass ≠ .hard) :
    (∀ b, (forEach (disConnectObject beyond client conx) mcon).interruptEnable.getLsbD b = true ↔
      mcon.interruptEnable.getLsbD b = true ∧ ¬∃ i, Left conx (mcon.slots i) ∧ Clears beyond client mcon i b) ∧
    ((forEach (disConnectObject beyond client conx) mcon).pastEnd = true ↔
      mcon.pastEnd = true ∨ ∃ i, Left conx (mcon.slots i) ∧ Strays beyond client mcon i) := by
  refine (slotLoop_enabled (p := Left conx) (fun s i hi hleft => ⟨conx.eqpClass, hclass, ?_⟩)
    (fun s i hi hleft => ?_)).2.2
  · unfold disConnectObject
    rw [hi, if_pos hleft.1, disConnectOne_object hleft.2]
  · unfold disConnectObject
    rw [hi]
    by_cases hmatch : (mcon.slots i).matches conx = true
    · rw [if_pos hmatch]
      have hobject : conx.eqpClass.isObject ≠ true := fun hobject => hleft ⟨hmatch, hobject⟩
      cases hother : conx.eqpClass with
      | other value => rfl
      | hard => exact absurd hother hclass
      | ctim => exact absurd (hother ▸ rfl) hobject
      | ptim => exact absurd (hother ▸ rfl) hobject
    · rw [if_neg hmatch]

theorem Wired.disConnectFrom (h : Wired mcon)
    (hspared : Spared beyond client mcon (Left conx) (conx.eqpClass = .hard)) :
    Wired (disConnectFrom beyond client conx mcon) := by
  refine h.left hspared ⟨fun i hleft => ?_, fun i hleft => ?_, fun hhard k => ?_, fun hhard k => ?_⟩ (fun b => ?_) ?_
  · rw [disConnectFrom_slots, hleft.1, hleft.2]
    rfl
  · rw [disConnectFrom_slots, if_neg fun hboth => hleft (Bool.and_eq_true_iff.mp hboth)]
  · rw [disConnectFrom_hardClients, if_pos hhard]
  · rw [disConnectFrom_hardClients, if_neg hhard]
  · unfold Ctr.disConnectFrom
    by_cases hhard : conx.eqpClass = .hard
    · have hnone : ∀ slot, ¬Left conx slot := fun slot hleft => isObject_ne_hard hleft.2 hhard
      rw [if_neg (not_not.mpr hhard), sourceLoop_enabled.2.1 b]
      simp [hnone, hhard]
    · rw [if_pos hhard, (objectLoop_enabled hhard).1 b]
      simp [hhard]
  · unfold Ctr.disConnectFrom
    by_cases hhard : conx.eqpClass = .hard
    · have hnone : ∀ slot, ¬Left conx slot := fun slot hleft => isObject_ne_hard hleft.2 hhard
      rw [if_neg (not_not.mpr hhard), sourceLoop_enabled.2.2]
      simp [hnone]
    · rw [if_pos hhard, (objectLoop_enabled hhard).2]

/-- The loop of `DisConnectAll` over the slots in use. -/
theorem anyLoop_enabled (beyond : ℕ → BitVec 32) (client : Fin ctrDrvrClientContexts)
    (hobject : ∀ i, Occupied (mcon.slots i) → (mcon.slots i).eqpClass.isObject = true) :
    Thinned client mcon (forEach (disConnectAny beyond client) mcon) ∧
      (forEach (disConnectAny beyond client) mcon).hardClients = mcon.hardClients ∧
      (∀ b, (forEach (disConnectAny beyond client) mcon).interruptEnable.getLsbD b = true ↔
        mcon.interruptEnable.getLsbD b = true ∧ ¬∃ i, Occupied (mcon.slots i) ∧ Clears beyond client mcon i b) ∧
      ((forEach (disConnectAny beyond client) mcon).pastEnd = true ↔
        mcon.pastEnd = true ∨ ∃ i, Occupied (mcon.slots i) ∧ Strays beyond client mcon i) := by
  refine slotLoop_enabled (fun s i hi hused => ⟨(mcon.slots i).eqpClass, isObject_ne_hard (hobject i hused), ?_⟩)
    (fun s i hi hused => ?_)
  · have hnum : (mcon.slots i).eqpNum ≠ 0 := hused
    unfold disConnectAny
    rw [hi, if_pos hnum, disConnectOne_object (hobject i hused)]
  · have hnum : ¬(mcon.slots i).eqpNum ≠ 0 := hused
    unfold disConnectAny
    rw [hi, if_neg hnum]

theorem Wired.disConnectModule (h : Wired mcon)
    (hobject : ∀ i, Occupied (mcon.slots i) → (mcon.slots i).eqpClass.isObject = true)
    (hspared : Spared beyond client mcon Occupied True) : Wired (disConnectModule beyond client mcon) := by
  obtain ⟨hthin, hhard, henable, hpast⟩ := anyLoop_enabled beyond client hobject
  have hfinal : Ctr.disConnectModule beyond client mcon =
      forEach (disConnectSource beyond client) (forEach (disConnectAny beyond client) mcon) := rfl
  refine h.left hspared ⟨fun i hused => ?_, fun i hused => ?_, fun _ k => ?_, fun hnot => absurd trivial hnot⟩
    (fun b => ?_) ?_
  · rw [disConnectModule_slots, bne_iff_ne.mpr hused, hobject i hused]
    rfl
  · have hfree : (mcon.slots i).eqpNum = 0 := not_not.mp hused
    rw [disConnectModule_slots, hfree]
    rfl
  · rw [hfinal]
    refine Eq.trans (forEach_local CtrDrvrModuleContext.hardClients (fun _ clients => clients &&& ~~~clientMask client)
      (disConnectSource beyond client) (fun mcon i => disConnectSource_hardClients i) _ k) ?_
    rw [hhard]
  · rw [hfinal, sourceLoop_enabled.2.1 b, henable b]
    have hclears : ∀ k, ClearsSource beyond client (forEach (disConnectAny beyond client) mcon) k b ↔
        ClearsSource beyond client mcon k b := fun k => ClearsSource.thinned hthin (congrFun hhard k) b
    simp only [hclears, true_and, and_assoc]
  · rw [hfinal, sourceLoop_enabled.2.2, hpast]

end Modules

/-! ## Calls -/

section Calls
variable {wa : CtrDrvrWorkingArea} {client : Fin ctrDrvrClientContexts} {conx : CtrDrvrConnection}
  {beyond : Fin ctrDrvrModuleContexts → ℕ → BitVec 32}

/-- The interrupts of all modules match the connections. -/
structure AllWired (wa : CtrDrvrWorkingArea) : Prop where
  allocated : Allocated wa
  wired : ∀ m, Wired (wa.moduleContexts m)

/-- `DisConnectAll` spares what remains on the modules. -/
def SparedAll (beyond : Fin ctrDrvrModuleContexts → ℕ → BitVec 32) (wa : CtrDrvrWorkingArea)
    (client : Fin ctrDrvrClientContexts) : Prop :=
  ∀ m : Fin ctrDrvrModuleContexts, (m : ℕ) < wa.modules →
    Spared (beyond m) client (wa.moduleContexts m) Occupied True

/-- `DisConnect` spares what remains on the module that it names. -/
def SparedFrom (beyond : Fin ctrDrvrModuleContexts → ℕ → BitVec 32) (wa : CtrDrvrWorkingArea)
    (client : Fin ctrDrvrClientContexts) (conx : CtrDrvrConnection) : Prop :=
  ∀ m : Fin ctrDrvrModuleContexts, conx.module = m + 1 →
    Spared (beyond m) client (wa.moduleContexts m) (Left conx) (conx.eqpClass = .hard)

/-- New objects have a number, PTIM objects a counter of 0..8, and connections are made and ended on installed modules.
-/
def Proper (wa : CtrDrvrWorkingArea) (step : CtrStep) : Prop :=
  Numbered wa step ∧
    match step.call with
    | .ioctl (.createPtim ptim) => ptim.counter < ctrDrvrCounters
    | .ioctl (.connect conx) => conx.module ≤ wa.modules
    | .ioctl (.disConnect conx) => conx.eqpNum ≠ 0 → 1 ≤ conx.module ∧ conx.module ≤ wa.modules
    | _ => True

/-- The ends of connections spare what remains. -/
def Sparing (wa : CtrDrvrWorkingArea) (step : CtrStep) : Prop :=
  Proper wa step ∧
    match step.call with
    | .ioctl (.disConnect conx) =>
      if conx.eqpNum ≠ 0 then SparedFrom step.beyond wa step.client conx else SparedAll step.beyond wa step.client
    | .closes => SparedAll step.beyond wa step.client
    | _ => True

theorem setModule_wired (h : ∀ m, Wired (wa.moduleContexts m)) {midx : Fin ctrDrvrModuleContexts}
    {mcon : CtrDrvrModuleContext} (hmcon : Wired mcon) (m : Fin ctrDrvrModuleContexts) :
    Wired ((wa.setModule midx mcon).moduleContexts m) := by
  unfold CtrDrvrWorkingArea.setModule
  dsimp only
  by_cases hm : m = midx
  · rw [hm, Function.update_self]
    exact hmcon
  · rw [Function.update_of_ne hm]
    exact h m

theorem connected_wired (h : ∀ m, Wired (wa.moduleContexts m)) {midx : Fin ctrDrvrModuleContexts}
    {result : CtrDrvrModuleContext × ℕ} (hresult : Wired result.1) (m : Fin ctrDrvrModuleContexts) :
    Wired ((connected wa midx result).1.moduleContexts m) := by
  unfold connected
  split
  · exact setModule_wired h hresult m
  · exact setModule_wired h hresult.enabledAgain m

theorem AllWired.connectCtim (h : AllWired wa) (client : Fin ctrDrvrClientContexts) (hclass : conx.eqpClass = .ctim)
    (midx : Fin ctrDrvrModuleContexts) : Wired (connectCtim wa client conx (wa.moduleContexts midx)).1 := by
  unfold Ctr.connectCtim
  cases hexisting : firstPlace fun i => ((wa.moduleContexts midx).slots i).matches conx with
  | some i =>
    have hmatch := (firstPlace_eq_some.mp hexisting).1
    have hctim : ((wa.moduleContexts midx).slots i).eqpClass = .ctim := (matches_iff.mp hmatch).2.symm.trans hclass
    exact (h.wired midx).joinSlot (h.allocated.matches_used (by rw [hclass]; decide) hmatch)
      ((h.wired midx).ctim i hctim)
  | none =>
    cases hframe : ctimFrame wa conx.eqpNum with
    | none => exact h.wired midx
    | some frame =>
      cases hempty : firstPlace fun i => ((wa.moduleContexts midx).slots i).eqpNum == 0 with
      | none => exact h.wired midx
      | some i =>
        obtain ⟨object, hobject, hnum⟩ := ctimFrame_number hframe
        have hfree : ((wa.moduleContexts midx).slots i).eqpNum = 0 := beq_iff_eq.mp (firstPlace_eq_some.mp hempty).1
        exact (h.wired midx).newCtim (hnum ▸ h.allocated.ctimNumber object hobject)
          (h.allocated.clients_free midx i hfree)

theorem AllWired.connect (h : AllWired wa) (m : Fin ctrDrvrModuleContexts) :
    Wired ((connect wa client conx).1.moduleContexts m) := by
  unfold Ctr.connect
  dsimp only
  cases hclass : conx.eqpClass with
  | ptim =>
    dsimp only
    split
    · refine connected_wired h.wired ((h.wired _).connectPtim fun i hmatch => ?_) m
      exact h.allocated.matches_used (by rw [hclass]; decide) hmatch
    · exact h.wired m
  | ctim =>
    have hmodule := h.connectCtim client hclass (connectModule wa client conx)
    dsimp only
    split
    · exact setModule_wired h.wired hmodule.enabledAgain m
    · exact setModule_wired h.wired hmodule m
  | hard => exact connected_wired h.wired (h.wired _).connectHard m
  | other value => exact connected_wired h.wired (h.wired _).connectHard m

theorem AllWired.disConnect (h : AllWired wa) (hspared : SparedFrom beyond wa client conx)
    (m : Fin ctrDrvrModuleContexts) :
    Wired ((disConnect beyond wa client conx).moduleContexts m) := by
  unfold Ctr.disConnect
  split
  · rename_i hin
    have hmodule : conx.module = conx.module - 1 + 1 := by omega
    exact setModule_wired h.wired ((h.wired _).disConnectFrom (hspared ⟨conx.module - 1, hin.1⟩ hmodule)) m
  · exact h.wired m

theorem AllWired.disConnectAll (h : AllWired wa) (hspared : SparedAll beyond wa client)
    (m : Fin ctrDrvrModuleContexts) :
    Wired ((disConnectAll beyond wa client).moduleContexts m) := by
  unfold Ctr.disConnectAll
  dsimp only
  split
  · rename_i hm
    refine (h.wired m).disConnectModule (fun i hused => isObject_iff.mpr ?_) (hspared m hm)
    exact h.allocated.occupied m i hused
  · exact h.wired m

/-! ### Objects -/

theorem AllWired.setAction (h : AllWired wa) (midx : Fin ctrDrvrModuleContexts) (act : CtrDrvrAction)
    (m : Fin ctrDrvrModuleContexts) : Wired ((setAction wa midx act).1.moduleContexts m) := by
  unfold Ctr.setAction
  split
  · rename_i hnumber
    dsimp only
    generalize (⟨act.triggerNumber - 1, hnumber.1⟩ : Fin ctrDrvrRamTableSize) = i
    by_cases hhard : ((wa.moduleContexts midx).slots i).eqpClass = .hard
    · rw [if_pos hhard]
      exact h.wired m
    · have hused : ((wa.moduleContexts midx).slots i).eqpNum ≠ 0 :=
        fun hzero => hhard (h.allocated.free midx i hzero).1
      rw [if_neg hhard, if_pos hused]
      split
      · rename_i hsame
        have hslot :
          Wired ((wa.moduleContexts midx).setSlot i { (wa.moduleContexts midx).slots i with trig := act.trigger }) :=
          (h.wired midx).setSlot (.same rfl hsame.2.2.symm rfl rfl)
        exact setModule_wired h.wired hslot m
      · exact h.wired m
  · exact h.wired m

theorem AllWired.createPtim (h : AllWired wa) {ptim : CtrDrvrPtimBinding} (hcounter : ptim.counter < ctrDrvrCounters)
    (m : Fin ctrDrvrModuleContexts) : Wired ((createPtimObject wa ptim).1.moduleContexts m) := by
  unfold createPtimObject
  split
  · exact h.wired m
  split
  · exact h.wired m
  split
  · rename_i hmodule
    dsimp only
    split
    · rename_i start hsearch
      have hfree := searchSlots_finds hsearch
      have hclaimed :
        Wired (claimSlots ptim start (wa.moduleContexts ⟨ptim.moduleIndex, hmodule.trans_le wa.modules_le⟩)) := by
        refine (h.wired _).reshaped (fun i => ?_) rfl rfl rfl
        unfold claimSlots
        dsimp only
        split
        · rename_i hrange
          have hidle := h.allocated.clients_free _ i (hfree.2 i hrange.1 hrange.2)
          refine .idle hidle hidle (fun _ => hcounter) ?_
          rintro ⟨⟩
        · exact .same rfl rfl rfl rfl
      exact setModule_wired h.wired hclaimed m
    · exact h.wired m
  · exact h.wired m

theorem AllWired.destroyPtimOn (h : AllWired wa) (midx : Fin ctrDrvrModuleContexts) (ptim : CtrDrvrPtimBinding)
    (m : Fin ctrDrvrModuleContexts) : Wired ((destroyPtimOn wa midx ptim).1.moduleContexts m) := by
  rw [Ctr.destroyPtimOn]
  by_cases hbusy : ptimBusy (wa.moduleContexts midx) ptim.eqpNum
  · rw [if_pos hbusy]
    exact h.wired m
  rw [if_neg hbusy]
  split
  · have hreleased : Wired (releaseSlots ptim.eqpNum (wa.moduleContexts midx)) := by
      refine (h.wired midx).reshaped (fun i => ?_) rfl rfl rfl
      unfold releaseSlots
      dsimp only
      split
      · rename_i hptim
        have hidle : ((wa.moduleContexts midx).slots i).clients = 0 := by
          by_contra hne
          exact hbusy ⟨i, hptim, hne⟩
        exact .idle hidle hidle (fun hne => absurd rfl hne) (by rintro ⟨⟩)
      · exact .same rfl rfl rfl rfl
    exact setModule_wired h.wired hreleased m
  · exact h.wired m

theorem AllWired.selectModule (h : AllWired wa) (lav : ℤ) (m : Fin ctrDrvrModuleContexts) :
    Wired ((selectModule wa client lav).1.moduleContexts m) := by
  unfold Ctr.selectModule
  split
  · have hselected : ∀ midx : Fin ctrDrvrModuleContexts,
        Wired { wa.moduleContexts midx with moduleIndex := midx } :=
      fun midx => (h.wired midx).reshaped (fun _ => .same rfl rfl rfl rfl) rfl rfl rfl
    exact setModule_wired h.wired (hselected _) m
  · exact h.wired m

/-! ### Steps -/

/-- An ioctl call of an open client whose module was found. -/
theorem ctrCall_ioctl {cm : CtrControl} (hopen : (wa.clientContexts client).inUse = true)
    (hmodule : (wa.moduleContexts (wa.clientContexts client).moduleIndex).inUse = true) :
    ctrCall wa ⟨client, .ioctl cm, beyond⟩ = control beyond wa client (wa.clientContexts client).moduleIndex cm := by
  unfold ctrCall ctrDrvrIoctl
  dsimp only
  rw [hopen, hmodule]
  rfl

theorem ioctl_reach {ok : CtrDrvrWorkingArea → CtrStep → Prop} {start s : CtrDrvrWorkingArea}
    {cm : CtrControl} (h : Reach ctrNext ok start s)
    (hok : ok s ⟨client, .ioctl cm, beyond⟩) (hopen : (s.clientContexts client).inUse = true)
    (hmodule : (s.moduleContexts (s.clientContexts client).moduleIndex).inUse = true)
    (hinside : pastContexts s ⟨client, .ioctl cm, beyond⟩ = false) :
    Reach ctrNext ok start (control beyond s client (s.clientContexts client).moduleIndex cm).1 := by
  refine h.step hok ?_
  unfold ctrNext
  rw [hinside, ctrCall_ioctl hopen hmodule]
  rfl

theorem AllWired.control (h : AllWired wa) {midx : Fin ctrDrvrModuleContexts} {cm : CtrControl}
    (hok : Sparing wa ⟨client, .ioctl cm, beyond⟩) (m : Fin ctrDrvrModuleContexts) :
    Wired ((control beyond wa client midx cm).1.moduleContexts m) := by
  cases cm with
  | setModule lav => exact h.selectModule lav m
  | connect conx => exact h.connect m
  | disConnect conx =>
    have hspared := hok.2
    unfold Ctr.control
    dsimp only at hspared ⊢
    split
    · rename_i hnum
      rw [if_pos hnum] at hspared
      exact h.disConnect hspared m
    · rename_i hnum
      rw [if_neg hnum] at hspared
      exact h.disConnectAll hspared m
  | setAction act => exact h.setAction midx act m
  | createCtim ctim =>
    unfold Ctr.control createCtimObject
    dsimp only
    split
    · exact h.wired m
    · split <;> exact h.wired m
  | destroyCtim ctim =>
    unfold Ctr.control destroyCtimObject
    dsimp only
    split
    · split <;> exact h.wired m
    · exact h.wired m
  | changeCtim ctim =>
    unfold Ctr.control changeCtimFrame
    dsimp only
    split
    · split <;> exact h.wired m
    · exact h.wired m
  | createPtim ptim => exact h.createPtim hok.1.2 m
  | destroyPtim ptim =>
    unfold Ctr.control destroyPtimObject
    dsimp only
    split
    · exact h.destroyPtimOn _ ptim m
    · exact h.wired m

theorem AllWired.call (h : AllWired wa) {step : CtrStep} (hok : Sparing wa step) : AllWired (ctrCall wa step).1 := by
  refine ⟨h.allocated.call hok.1.1, fun m => ?_⟩
  obtain ⟨client, call, beyond⟩ := step
  unfold ctrCall
  cases call with
  | opens =>
    dsimp only
    unfold ctrDrvrOpen
    split
    · exact h.wired m
    · exact h.wired m
  | closes =>
    dsimp only
    unfold ctrDrvrClose
    dsimp only
    split
    · exact h.wired m
    · refine AllWired.disConnectAll ⟨?_, h.wired⟩ hok.2 m
      exact h.allocated.sameSlots (fun _ _ => rfl) rfl rfl h.allocated.ctimNumber
  | ioctl cm =>
    dsimp only
    unfold ctrDrvrIoctl
    dsimp only
    split
    · exact h.wired m
    · split
      · exact h.wired m
      · exact h.control hok m

theorem wired_install (modules : ℕ) (hmodules : modules ≤ ctrDrvrModuleContexts) (found : ℕ → Bool) :
    AllWired (ctrDrvrInstall modules hmodules found) := by
  refine ⟨allocated_install modules hmodules found, fun m => ⟨fun b => ?_, ?_, ?_, ?_, rfl⟩⟩
  · unfold InUse
    simp [ctrDrvrInstall, freeSlot]
  · exact fun i hi => absurd rfl hi
  · exact fun i hi => absurd rfl hi
  · rintro i ⟨⟩

/-- In every state of a run in which the ends of connections spare what remains, the interrupts that are enabled are
those in use, and no subscript went past the end of `HardClients`. -/
theorem enabled_reach (modules : ℕ) (hmodules : modules ≤ ctrDrvrModuleContexts) (found : ℕ → Bool)
    (s : CtrDrvrWorkingArea) (h : Reach ctrNext Sparing (ctrDrvrInstall modules hmodules found) s)
    (m : Fin ctrDrvrModuleContexts) :
    (∀ b : Fin ctrDrvrInterruptSources, (s.moduleContexts m).interruptEnable.getLsbD b = true ↔
      InUse (s.moduleContexts m) b) ∧ (s.moduleContexts m).pastEnd = false := by
  have hwired : AllWired s := by
    refine h.invariant (wired_install modules hmodules found) ?_
    intro s step s' hs hok hnext
    obtain rfl := ctrCall_of_next hnext
    exact hs.call hok
  exact ⟨(hwired.wired m).enabled, (hwired.wired m).inside⟩

end Calls

/-! ## A shared counter -/

section Example

/-- One module is found, client 0 opens it and creates the CTIM object 10. -/
def soloStart : CtrDrvrWorkingArea :=
  (createCtimObject (ctrDrvrOpen (ctrDrvrInstall 1 (by decide) fun _ => true) 0).1 ⟨10, ⟨1, 0, 0⟩⟩).1

/-- The client is connected to source 0. -/
def soloHard : CtrDrvrWorkingArea := (connect soloStart 0 ⟨1, .hard, 1⟩).1

/-- The client is connected to source 0 and to the object, whose counter is 0. -/
def soloBoth : CtrDrvrWorkingArea := (connect soloHard 0 ⟨1, .ctim, 10⟩).1

theorem soloHard_slot (m : Fin ctrDrvrModuleContexts) (i : Fin ctrDrvrRamTableSize) : soloHard.slot m i = freeSlot := by
  unfold soloHard
  rw [connect_hard_slot rfl]
  rfl

theorem soloHard_frame : ctimFrame soloHard 10 = some ⟨1, 0, 0⟩ := by
  unfold ctimFrame
  rw [soloHard, connect_frame]
  rfl

theorem soloHard_modules : soloHard.modules = 1 := connect_modules

theorem soloBoth_modules : soloBoth.modules = 1 := connect_modules.trans soloHard_modules

theorem soloHard_open : (soloHard.clientContexts 0).inUse = true :=
  congrArg ClientModule.inUse (connect_clientContexts 0)

theorem soloBoth_open : (soloBoth.clientContexts 0).inUse = true :=
  (congrArg ClientModule.inUse (connect_clientContexts 0)).trans soloHard_open

theorem soloHard_present : (soloHard.moduleContexts (soloHard.clientContexts 0).moduleIndex).inUse = true :=
  connect_clientModule 0

theorem soloBoth_present : (soloBoth.moduleContexts (soloBoth.clientContexts 0).moduleIndex).inUse = true :=
  (connect_clientModule 0).trans soloHard_present

theorem soloBoth_slot (i : Fin ctrDrvrRamTableSize) : soloBoth.slot 0 i =
    if i = 0 then { clients := 1, trig := ⟨10, ⟨1, 0, 0⟩, 0⟩, eqpNum := 10, eqpClass := .ctim } else freeSlot := by
  rw [soloBoth, connect_ctim_first_slot rfl rfl (soloHard_slot 0) soloHard_frame, if_pos rfl]
  rfl

theorem soloBoth_free {m : Fin ctrDrvrModuleContexts} (hm : m ≠ 0) (i : Fin ctrDrvrRamTableSize) :
    soloBoth.slot m i = freeSlot := by
  have hmodule : (1 : ℕ) = ((0 : Fin ctrDrvrModuleContexts) : ℕ) + 1 := rfl
  rw [soloBoth, connect_ctim_first_slot hmodule rfl (soloHard_slot 0) soloHard_frame, if_neg hm, soloHard_slot]

theorem soloStart_reach : Reach ctrNext Sparing (ctrDrvrInstall 1 (by decide) fun _ => true) soloStart := by
  have hopened : Reach ctrNext Sparing (ctrDrvrInstall 1 (by decide) fun _ => true)
      (ctrDrvrOpen (ctrDrvrInstall 1 (by decide) fun _ => true) 0).1 :=
    Reach.refl.step (a := ⟨0, .opens, fun _ _ => 0⟩) ⟨⟨trivial, trivial⟩, trivial⟩ rfl
  have hproper : Sparing (ctrDrvrOpen (ctrDrvrInstall 1 (by decide) fun _ => true) 0).1
      ⟨0, .ioctl (.createCtim ⟨10, ⟨1, 0, 0⟩⟩), fun _ _ => 0⟩ := by
    refine ⟨⟨?_, trivial⟩, trivial⟩
    show (10 : BitVec 32) ≠ 0
    decide
  exact ioctl_reach hopened hproper rfl rfl rfl

theorem soloHard_reach : Reach ctrNext Sparing (ctrDrvrInstall 1 (by decide) fun _ => true) soloHard := by
  have hproper : Sparing soloStart ⟨0, .ioctl (.connect ⟨1, .hard, 1⟩), fun _ _ => 0⟩ :=
    ⟨⟨trivial, Nat.le_refl 1⟩, trivial⟩
  exact ioctl_reach soloStart_reach hproper rfl rfl rfl

theorem soloBoth_reach : Reach ctrNext Sparing (ctrDrvrInstall 1 (by decide) fun _ => true) soloBoth := by
  have hproper : Sparing soloHard ⟨0, .ioctl (.connect ⟨1, .ctim, 10⟩), fun _ _ => 0⟩ := by
    refine ⟨⟨trivial, ?_⟩, trivial⟩
    exact soloHard_modules.ge
  exact ioctl_reach soloHard_reach hproper soloHard_open soloHard_present rfl

/-- Client 0 has left source 0 again. -/
theorem enabled_soloLeft : ∃ s, Reach ctrNext Sparing (ctrDrvrInstall 1 (by decide) fun _ => true) s ∧
    (s.moduleContexts 0).hardClients 0 = 0 ∧
    (∀ b : Fin ctrDrvrInterruptSources, (s.moduleContexts 0).interruptEnable.getLsbD b = true ↔
      InUse (s.moduleContexts 0) b) ∧ (s.moduleContexts 0).pastEnd = false := by
  have hleft : ∀ slot, ¬Left ⟨1, .hard, 1⟩ slot := fun slot hleft => absurd hleft.2 (by decide)
  have hspared : ∀ m, Spared (fun _ => 0) 0 (soloHard.moduleContexts m) (Left ⟨1, .hard, 1⟩)
      (CtrDrvrConnectionClass.hard = .hard) := by
    intro m
    refine ⟨fun i hi => absurd hi (hleft _), fun _ k _ _ => ?_⟩
    rintro (⟨hne, -⟩ | ⟨i, -, hin, -⟩)
    · exact hne rfl
    · have hslot : (soloHard.moduleContexts m).slots i = freeSlot := soloHard_slot m i
      rw [hslot] at hin
      cases hin
  have hproper : Sparing soloHard ⟨0, .ioctl (.disConnect ⟨1, .hard, 1⟩), fun _ _ => 0⟩ := by
    refine ⟨⟨trivial, fun _ => ⟨Nat.le_refl 1, ?_⟩⟩, ?_⟩
    · exact soloHard_modules.ge
    · dsimp only
      rw [if_pos (by decide)]
      exact fun m _ => hspared m
  have hreach := ioctl_reach soloHard_reach hproper soloHard_open soloHard_present rfl
  refine ⟨_, hreach, ?_, enabled_reach 1 (by decide) _ _ hreach 0⟩
  rw [control_disConnect soloHard 0 _ 0 rfl (by decide), disConnectFrom_hardClients]
  decide +kernel

/-- Client 0 leaves the object and stays at source 0, where it was the only one. -/
theorem not_enabled_soloBoth : ¬∀ s, Reach ctrNext Proper (ctrDrvrInstall 1 (by decide) fun _ => true) s →
    ∀ m, (∀ b : Fin ctrDrvrInterruptSources, (s.moduleContexts m).interruptEnable.getLsbD b = true ↔
      InUse (s.moduleContexts m) b) ∧ (s.moduleContexts m).pastEnd = false := by
  intro h
  have hproper : Proper soloBoth ⟨0, .ioctl (.disConnect ⟨1, .ctim, 10⟩), fun _ _ => 0⟩ := by
    refine ⟨trivial, fun _ => ⟨Nat.le_refl 1, ?_⟩⟩
    exact soloBoth_modules.ge
  have hbefore : Reach ctrNext Proper (ctrDrvrInstall 1 (by decide) fun _ => true) soloBoth :=
    soloBoth_reach.weaken fun _ _ hsparing => hsparing.1
  have hreach := ioctl_reach hbefore hproper soloBoth_open soloBoth_present rfl
  have hbit := (h _ hreach 0).1 0
  rw [control_disConnect soloBoth 0 _ 0 rfl (by decide)] at hbit
  have hsource : (disConnectFrom (fun _ => 0) 0 ⟨1, .ctim, 10⟩ (soloBoth.moduleContexts 0)).hardClients 0 ≠ 0 := by
    rw [disConnectFrom_hardClients]
    decide +kernel
  have hslots : ∀ i, (soloBoth.moduleContexts 0).slots i =
      if i = 0 then { clients := 1, trig := ⟨10, ⟨1, 0, 0⟩, 0⟩, eqpNum := 10, eqpClass := .ctim } else freeSlot :=
    soloBoth_slot
  have halone : sharedCounter (fun _ => 0) 0 (soloBoth.moduleContexts 0) 0 = false := by
    rw [← Bool.not_eq_true]
    have hnone : otherClients 0 ((soloBoth.moduleContexts 0).hardClients 0) = false := by decide +kernel
    refine fun hshared => ?_
    obtain hother | ⟨i, -, hother⟩ := (sharedCounter_iff (b := 0)).mp hshared
    · rw [hnone] at hother
      cases hother
    · rw [hslots i] at hother
      split at hother
      · cases hother
      · cases hother
  have hcleared := (hbit.mpr (.inl hsource))
  unfold disConnectFrom at hcleared
  rw [if_pos (by decide), (objectLoop_enabled (by decide)).1] at hcleared
  refine hcleared.2 ⟨0, ⟨?_, rfl⟩, ⟨?_, ?_⟩, ?_, halone, ?_⟩
  · rw [hslots 0]
    rfl
  · rw [hslots 0]
    rfl
  · rw [hslots 0]
    rfl
  · rw [hslots 0]
    rfl
  · decide +kernel

end Example

end HtDrivers.Ctr
