import HtDrivers.Ctr.Ioctl

/-! What connecting and disconnecting do to the slots and to the clients of the sources of a module, place by place.
The loops of the calls touch each slot once, so that their effect on it is that of one turn. -/
namespace HtDrivers.Ctr
open HtDrivers.Lib.Tables HtDrivers.Lib.Masks
set_option autoImplicit false

/-- The classes that `DisConnectOne` treats as objects. -/
def CtrDrvrConnectionClass.isObject : CtrDrvrConnectionClass → Bool
  | .ctim | .ptim => true
  | .hard | .other _ => false

/-- The slot with the client added. -/
def joinedSlot (client : Fin ctrDrvrClientContexts) (slot : TrigSlot) : TrigSlot :=
  { slot with clients := slot.clients ||| clientMask client }

/-- The slot without the client; an instance of a CTIM object is freed with its last client. -/
def leftSlot (client : Fin ctrDrvrClientContexts) (slot : TrigSlot) : TrigSlot :=
  if slot.clients.getLsbD client then
    let clients := slot.clients &&& ~~~clientMask client
    if clients = 0 ∧ slot.eqpClass = .ctim then { slot with clients := clients, eqpNum := 0, eqpClass := .hard }
    else { slot with clients := clients }
  else slot

section Slots
variable {client : Fin ctrDrvrClientContexts} {slot : TrigSlot}

theorem clientMask_bit {clients : BitVec 32} {i : ℕ} :
    (clients ||| clientMask client).getLsbD i = true ↔ clients.getLsbD i = true ∨ i = client :=
  or_twoPow_bit (client.isLt.trans (by decide))

theorem leftSlot_clients : (leftSlot client slot).clients = slot.clients &&& ~~~clientMask client := by
  unfold leftSlot
  split
  · dsimp only
    split <;> rfl
  · rename_i hout
    refine BitVec.eq_of_getLsbD_eq fun i _ => ?_
    rw [Bool.eq_iff_iff, clientMask, and_not_twoPow_bit]
    refine ⟨fun hbit => ⟨hbit, ?_⟩, fun h => h.1⟩
    rintro rfl
    exact hout hbit

theorem leftSlot_trig : (leftSlot client slot).trig = slot.trig := by
  unfold leftSlot
  dsimp only
  split
  · split <;> rfl
  · rfl

/-- A slot keeps its object, or it was an instance of a CTIM object and is free without clients. -/
theorem leftSlot_object (client : Fin ctrDrvrClientContexts) (slot : TrigSlot) :
    (leftSlot client slot).eqpNum = slot.eqpNum ∧ (leftSlot client slot).eqpClass = slot.eqpClass ∨
      slot.eqpClass = .ctim ∧ (leftSlot client slot).eqpNum = 0 ∧ (leftSlot client slot).eqpClass = .hard ∧
        (leftSlot client slot).clients = 0 := by
  unfold leftSlot
  dsimp only
  split
  · split
    · rename_i hfreed
      exact .inr ⟨hfreed.2, rfl, rfl, hfreed.1⟩
    · exact .inl ⟨rfl, rfl⟩
  · exact .inl ⟨rfl, rfl⟩

end Slots

/-! ## Connect -/

section Connect
variable {wa : CtrDrvrWorkingArea} {client : Fin ctrDrvrClientContexts} {conx : CtrDrvrConnection}
  {mcon : CtrDrvrModuleContext}

@[simp] theorem joinSlot_slots (i : Fin ctrDrvrRamTableSize) (enable : BitVec 32) :
    (joinSlot client mcon i enable).slots = Function.update mcon.slots i (joinedSlot client (mcon.slots i)) := rfl

@[simp] theorem joinSlot_hardClients (i : Fin ctrDrvrRamTableSize) (enable : BitVec 32) :
    (joinSlot client mcon i enable).hardClients = mcon.hardClients := rfl

@[simp] theorem enableInterrupts_slots (msk : BitVec 32) : (enableInterrupts mcon msk).slots = mcon.slots := rfl

@[simp] theorem enableInterrupts_hardClients (msk : BitVec 32) :
    (enableInterrupts mcon msk).hardClients = mcon.hardClients := rfl

theorem connectPtimAt_slots (s : CtrDrvrModuleContext × ℕ) (i : Fin ctrDrvrRamTableSize) :
    (connectPtimAt client conx s i).1.slots = Function.update s.1.slots i
      (if (s.1.slots i).matches conx then joinedSlot client (s.1.slots i) else s.1.slots i) := by
  unfold connectPtimAt
  by_cases hmatch : (s.1.slots i).matches conx = true
  · rw [if_pos hmatch, if_pos hmatch]
    rfl
  · rw [if_neg hmatch, if_neg hmatch, Function.update_eq_self]

theorem connectPtim_slots (i : Fin ctrDrvrRamTableSize) : (connectPtim client conx mcon).1.slots i =
    if (mcon.slots i).matches conx then joinedSlot client (mcon.slots i) else mcon.slots i := by
  rw [connectPtim]
  exact forEach_local (fun s : CtrDrvrModuleContext × ℕ => s.1.slots)
    (fun _ slot => if slot.matches conx then joinedSlot client slot else slot) (connectPtimAt client conx)
    connectPtimAt_slots (mcon, 0) i

theorem connectPtim_hardClients : (connectPtim client conx mcon).1.hardClients = mcon.hardClients := by
  rw [connectPtim]
  refine forEach_frame (fun s : CtrDrvrModuleContext × ℕ => s.1.hardClients) (connectPtimAt client conx)
    (fun s i => ?_) (mcon, 0)
  unfold connectPtimAt
  split <;> rfl

/-- What no connection changes on a module. -/
def CtrDrvrModuleContext.fixed (mcon : CtrDrvrModuleContext) : ℕ × Bool := (mcon.moduleIndex, mcon.inUse)

theorem connectPtim_fixed : (connectPtim client conx mcon).1.fixed = mcon.fixed := by
  rw [connectPtim]
  refine forEach_frame (fun s : CtrDrvrModuleContext × ℕ => s.1.fixed) (connectPtimAt client conx) (fun s i => ?_)
    (mcon, 0)
  unfold connectPtimAt
  split
  · rfl
  · rfl

theorem connectHard_fixed : (connectHard client conx mcon).1.fixed = mcon.fixed := by
  rw [connectHard]
  refine forEach_frame (fun s : CtrDrvrModuleContext × ℕ => s.1.fixed) (connectHardAt client conx) (fun s i => ?_)
    (mcon, 0)
  unfold connectHardAt
  split
  · rfl
  · rfl

theorem connectCtim_fixed (wa : CtrDrvrWorkingArea) : (connectCtim wa client conx mcon).1.fixed = mcon.fixed := by
  unfold connectCtim
  split
  · rfl
  · split
    · rfl
    · split
      · rfl
      · rfl

/-- A visit changes neither the objects of the slots nor their counters. -/
theorem connectPtimAt_same (s : CtrDrvrModuleContext × ℕ) (i j : Fin ctrDrvrRamTableSize) :
    ((connectPtimAt client conx s i).1.slots j).matches conx = (s.1.slots j).matches conx ∧
      ((connectPtimAt client conx s i).1.slots j).trig = (s.1.slots j).trig := by
  rw [connectPtimAt_slots]
  by_cases hj : j = i
  · subst hj
    rw [Function.update_self]
    split
    · exact ⟨rfl, rfl⟩
    · exact ⟨rfl, rfl⟩
  · rw [Function.update_of_ne hj]
    exact ⟨rfl, rfl⟩

/-- There is a connection where a slot of the object is. -/
theorem connectPtim_count : (connectPtim client conx mcon).2 ≠ 0 ↔ ∃ i, (mcon.slots i).matches conx = true := by
  rw [connectPtim]
  have hloop := forEach_collect (fun _ s => ∀ j, (s.1.slots j).matches conx = (mcon.slots j).matches conx)
    (fun s : CtrDrvrModuleContext × ℕ => s.2 ≠ 0) (fun i => (mcon.slots i).matches conx = true)
    (connectPtimAt client conx) (mcon, 0) (fun _ => rfl)
    (fun i s hs j => (connectPtimAt_same s i j).1.trans (hs j)) (fun i s hs => by
      unfold connectPtimAt
      rw [hs i]
      by_cases hmatch : (mcon.slots i).matches conx = true
      · simp [hmatch]
      · simp [hmatch])
  rw [hloop]
  simp

theorem newCtim_slots (eqpNum : BitVec 32) (frame : CtrDrvrEventFrame) (i j : Fin ctrDrvrRamTableSize) :
    (newCtim client eqpNum frame mcon i).slots j =
      if j = i then
        joinedSlot client { mcon.slots i with eqpNum := eqpNum, eqpClass := .ctim, trig := ⟨eqpNum, frame, 0⟩ }
      else mcon.slots j := by
  unfold newCtim
  rw [joinSlot_slots]
  unfold CtrDrvrModuleContext.setSlot
  dsimp only
  by_cases hj : j = i
  · rw [if_pos hj, hj, Function.update_self, Function.update_self]
  · rw [if_neg hj, Function.update_of_ne hj, Function.update_of_ne hj]

/-- An instance of a CTIM object that has none on the module goes into the first free slot. -/
theorem connectCtim_new {frame : CtrDrvrEventFrame} {i : Fin ctrDrvrRamTableSize}
    (hnew : ∀ j, (mcon.slots j).matches conx = false) (hframe : ctimFrame wa conx.eqpNum = some frame)
    (hfree : (mcon.slots i).eqpNum = 0) (hfirst : ∀ j < i, (mcon.slots j).eqpNum ≠ 0) :
    connectCtim wa client conx mcon = (newCtim client conx.eqpNum frame mcon i, .ok) := by
  unfold connectCtim
  have hnone : (firstPlace fun i => (mcon.slots i).matches conx) = none := firstPlace_eq_none.mpr hnew
  have hempty : (firstPlace fun i => (mcon.slots i).eqpNum == 0) = some i :=
    firstPlace_eq_some.mpr ⟨beq_iff_eq.mpr hfree, fun j hj => beq_eq_false_iff_ne.mpr (hfirst j hj)⟩
  rw [hnone, hframe, hempty]

theorem connectHardAt_slots (s : CtrDrvrModuleContext × ℕ) (i : Fin ctrDrvrInterruptSources) :
    (connectHardAt client conx s i).1.slots = s.1.slots := by
  unfold connectHardAt
  split <;> rfl

theorem connectHardAt_hardClients (s : CtrDrvrModuleContext × ℕ) (i : Fin ctrDrvrInterruptSources) :
    (connectHardAt client conx s i).1.hardClients = Function.update s.1.hardClients i
      (if conx.eqpNum.getLsbD i then s.1.hardClients i ||| clientMask client else s.1.hardClients i) := by
  unfold connectHardAt
  by_cases hbit : conx.eqpNum.getLsbD i = true
  · rw [if_pos hbit, if_pos hbit]
    rfl
  · rw [if_neg hbit, if_neg hbit, Function.update_eq_self]

theorem connectHard_slots : (connectHard client conx mcon).1.slots = mcon.slots := by
  rw [connectHard]
  exact forEach_frame (fun s : CtrDrvrModuleContext × ℕ => s.1.slots) (connectHardAt client conx)
    connectHardAt_slots (mcon, 0)

theorem connectHard_hardClients (i : Fin ctrDrvrInterruptSources) : (connectHard client conx mcon).1.hardClients i =
    if conx.eqpNum.getLsbD i then mcon.hardClients i ||| clientMask client else mcon.hardClients i := by
  rw [connectHard]
  exact forEach_local (fun s : CtrDrvrModuleContext × ℕ => s.1.hardClients)
    (fun i clients => if conx.eqpNum.getLsbD i then clients ||| clientMask client else clients)
    (connectHardAt client conx) connectHardAt_hardClients (mcon, 0) i

/-- There is a connection where the mask has a bit of a source. -/
theorem connectHard_count : (connectHard client conx mcon).2 ≠ 0 ↔
    ∃ i : Fin ctrDrvrInterruptSources, conx.eqpNum.getLsbD i = true := by
  rw [connectHard]
  have hloop := forEach_collect (fun _ _ => True) (fun s : CtrDrvrModuleContext × ℕ => s.2 ≠ 0)
    (fun i => conx.eqpNum.getLsbD i = true) (connectHardAt client conx) (mcon, 0) trivial (fun _ _ _ => trivial)
    (fun i s _ => by
      unfold connectHardAt
      by_cases hbit : conx.eqpNum.getLsbD i = true
      · simp [hbit]
      · simp [hbit])
  rw [hloop]
  simp

end Connect

/-! ## DisConnect -/

section DisConnect
variable {beyond : ℕ → BitVec 32} {client : Fin ctrDrvrClientContexts} {conx : CtrDrvrConnection}
  {clss : CtrDrvrConnectionClass} {mcon : CtrDrvrModuleContext}

theorem disableInterrupts_slots (tndx : Fin ctrDrvrRamTableSize) :
    (disableInterrupts beyond client clss mcon tndx).slots = mcon.slots := by
  unfold disableInterrupts
  dsimp only
  split
  · rfl
  · split <;> rfl

theorem disableInterrupts_hardClients (tndx : Fin ctrDrvrRamTableSize) :
    (disableInterrupts beyond client clss mcon tndx).hardClients = mcon.hardClients := by
  unfold disableInterrupts
  dsimp only
  split
  · rfl
  · split <;> rfl

theorem leaveSlot_slots (tndx : Fin ctrDrvrRamTableSize) : (leaveSlot beyond client clss mcon tndx).slots =
    Function.update mcon.slots tndx (leftSlot client (mcon.slots tndx)) := by
  unfold leaveSlot leftSlot
  dsimp only
  by_cases hin : (mcon.slots tndx).clients.getLsbD client = true
  · rw [if_pos hin, if_pos hin]
    by_cases hlast : (mcon.slots tndx).clients &&& ~~~clientMask client = 0
    · by_cases hctim : (mcon.slots tndx).eqpClass = .ctim
      · rw [if_pos hlast, if_pos hctim, if_pos ⟨hlast, hctim⟩]
        unfold CtrDrvrModuleContext.setSlot
        dsimp only
        rw [disableInterrupts_slots, Function.update_idem]
        dsimp only
        rw [Function.update_self]
      · rw [if_pos hlast, if_neg hctim, if_neg fun h => hctim h.2, disableInterrupts_slots]
        rfl
    · rw [if_neg hlast, if_neg fun h => hlast h.1]
      rfl
  · rw [if_neg hin, if_neg hin, Function.update_eq_self]

theorem leaveSlot_hardClients (tndx : Fin ctrDrvrRamTableSize) :
    (leaveSlot beyond client clss mcon tndx).hardClients = mcon.hardClients := by
  unfold leaveSlot
  dsimp only
  split
  · split
    · split
      · exact disableInterrupts_hardClients tndx
      · exact disableInterrupts_hardClients tndx
    · rfl
  · rfl

theorem leaveSource_slots (source : Fin ctrDrvrInterruptSources) :
    (leaveSource beyond client mcon source).slots = mcon.slots := by
  unfold leaveSource
  dsimp only
  split
  · split
    · exact disableInterrupts_slots _
    · rfl
  · rfl

theorem leaveSource_hardClients (source : Fin ctrDrvrInterruptSources) :
    (leaveSource beyond client mcon source).hardClients =
      Function.update mcon.hardClients source (mcon.hardClients source &&& ~~~clientMask client) := by
  unfold leaveSource
  by_cases hnone : mcon.hardClients source = 0
  · have hsame : mcon.hardClients source &&& ~~~clientMask client = mcon.hardClients source := by
      rw [hnone]
      simp
    rw [if_neg (not_not.mpr hnone), hsame, Function.update_eq_self]
  · rw [if_pos hnone]
    dsimp only
    split
    · exact disableInterrupts_hardClients _
    · rfl

theorem disConnectOne_slots (tndx : Fin ctrDrvrRamTableSize) : (disConnectOne beyond client clss mcon tndx).slots =
    Function.update mcon.slots tndx
      (if clss.isObject then leftSlot client (mcon.slots tndx) else mcon.slots tndx) := by
  unfold disConnectOne
  cases clss with
  | ctim => exact leaveSlot_slots tndx
  | ptim => exact leaveSlot_slots tndx
  | hard =>
    rw [if_neg (by decide), Function.update_eq_self]
    dsimp only
    split
    · exact leaveSource_slots _
    · rfl
  | other value =>
    rw [if_neg (by simp [CtrDrvrConnectionClass.isObject]), Function.update_eq_self]

theorem disConnectSource_slots (i : Fin ctrDrvrInterruptSources) :
    (disConnectSource beyond client mcon i).slots = mcon.slots := by
  unfold disConnectSource
  rw [disConnectOne_slots, if_neg (by decide), Function.update_eq_self]

theorem disConnectSource_hardClients (i : Fin ctrDrvrInterruptSources) :
    (disConnectSource beyond client mcon i).hardClients =
      Function.update mcon.hardClients i (mcon.hardClients i &&& ~~~clientMask client) := by
  unfold disConnectSource disConnectOne
  have hi : ((i.castLE (by decide) : Fin ctrDrvrRamTableSize) : ℕ) < ctrDrvrInterruptSources := i.isLt
  rw [dif_pos hi]
  exact leaveSource_hardClients i

/-- What a visit by `DisConnect` or `DisConnectAll` does to the slots. -/
theorem disConnectObject_slots (i : Fin ctrDrvrRamTableSize) : (disConnectObject beyond client conx mcon i).slots =
    Function.update mcon.slots i
      (if (mcon.slots i).matches conx && conx.eqpClass.isObject then leftSlot client (mcon.slots i)
        else mcon.slots i) := by
  unfold disConnectObject
  by_cases hmatch : (mcon.slots i).matches conx = true
  · rw [if_pos hmatch, hmatch, Bool.true_and, disConnectOne_slots]
  · rw [if_neg hmatch, Bool.eq_false_iff.mpr hmatch, Bool.false_and, if_neg (by decide), Function.update_eq_self]

theorem disConnectAny_slots (i : Fin ctrDrvrRamTableSize) : (disConnectAny beyond client mcon i).slots =
    Function.update mcon.slots i
      (if (mcon.slots i).eqpNum != 0 && (mcon.slots i).eqpClass.isObject then leftSlot client (mcon.slots i)
        else mcon.slots i) := by
  unfold disConnectAny
  by_cases hfree : (mcon.slots i).eqpNum = 0
  · rw [if_neg (not_not.mpr hfree), hfree, bne_self_eq_false, Bool.false_and, if_neg (by decide),
      Function.update_eq_self]
  · rw [if_pos hfree, bne_iff_ne.mpr hfree, Bool.true_and, disConnectOne_slots]

/-- The objects' part of `DisConnectOne` leaves the clients of the sources alone. -/
theorem disConnectObject_hardClients (hclass : conx.eqpClass ≠ .hard) (i : Fin ctrDrvrRamTableSize) :
    (disConnectObject beyond client conx mcon i).hardClients = mcon.hardClients := by
  unfold disConnectObject
  split
  · unfold disConnectOne
    split
    · exact leaveSlot_hardClients i
    · exact leaveSlot_hardClients i
    · rename_i hhard
      exact absurd hhard hclass
    · rfl
  · rfl

/-! ### The loops -/

theorem disConnectFrom_slots (i : Fin ctrDrvrRamTableSize) : (disConnectFrom beyond client conx mcon).slots i =
    if (mcon.slots i).matches conx && conx.eqpClass.isObject then leftSlot client (mcon.slots i) else mcon.slots i := by
  unfold disConnectFrom
  by_cases hhard : conx.eqpClass = .hard
  · rw [if_neg (not_not.mpr hhard), hhard, if_neg (by simp [CtrDrvrConnectionClass.isObject])]
    have hframe := forEach_frame CtrDrvrModuleContext.slots (disConnectSource beyond client)
      (fun mcon i => disConnectSource_slots i) mcon
    rw [hframe]
  · rw [if_pos hhard]
    exact forEach_local CtrDrvrModuleContext.slots
      (fun _ slot => if slot.matches conx && conx.eqpClass.isObject then leftSlot client slot else slot)
      (disConnectObject beyond client conx) (fun mcon i => disConnectObject_slots i) mcon i

theorem disConnectModule_slots (i : Fin ctrDrvrRamTableSize) : (disConnectModule beyond client mcon).slots i =
    if (mcon.slots i).eqpNum != 0 && (mcon.slots i).eqpClass.isObject then leftSlot client (mcon.slots i)
    else mcon.slots i := by
  rw [disConnectModule]
  have hframe := forEach_frame CtrDrvrModuleContext.slots (disConnectSource beyond client)
    (fun mcon i => disConnectSource_slots i) (forEach (disConnectAny beyond client) mcon)
  rw [hframe]
  exact forEach_local CtrDrvrModuleContext.slots
    (fun _ slot => if slot.eqpNum != 0 && slot.eqpClass.isObject then leftSlot client slot else slot)
    (disConnectAny beyond client) (fun mcon i => disConnectAny_slots i) mcon i

theorem disConnectFrom_hardClients (i : Fin ctrDrvrInterruptSources) :
    (disConnectFrom beyond client conx mcon).hardClients i =
      if conx.eqpClass = .hard then mcon.hardClients i &&& ~~~clientMask client else mcon.hardClients i := by
  unfold disConnectFrom
  by_cases hhard : conx.eqpClass = .hard
  · rw [if_neg (not_not.mpr hhard), if_pos hhard]
    exact forEach_local CtrDrvrModuleContext.hardClients (fun _ clients => clients &&& ~~~clientMask client)
      (disConnectSource beyond client) (fun mcon i => disConnectSource_hardClients i) mcon i
  · rw [if_pos hhard, if_neg hhard]
    have hframe := forEach_frame CtrDrvrModuleContext.hardClients (disConnectObject beyond client conx)
      (fun mcon i => disConnectObject_hardClients hhard i) mcon
    rw [hframe]

end DisConnect

end HtDrivers.Ctr
