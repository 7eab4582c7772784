import HtDrivers.Ctr.EnabledRuns

/-! What a connection designates, and when `DisConnect` with the same descriptor undoes it: the places that are
connected afterwards are those from before, and none of them is one that the descriptor does not name. -/
namespace HtDrivers.Ctr
open HtDrivers.Lib.Tables HtDrivers.Lib.Masks HtDrivers.Lib.Transition
set_option autoImplicit false

/-- Where a client is connected on a module. -/
inductive Place
  | source (k : Fin ctrDrvrInterruptSources)
  | slot (i : Fin ctrDrvrRamTableSize)

def CtrDrvrModuleContext.clientsAt (mcon : CtrDrvrModuleContext) : Place → BitVec 32
  | .source k => mcon.hardClients k
  | .slot i => (mcon.slots i).clients

def ConnectedAt (wa : CtrDrvrWorkingArea) (m : Fin ctrDrvrModuleContexts) (place : Place)
    (client : Fin ctrDrvrClientContexts) : Prop :=
  ((wa.moduleContexts m).clientsAt place).getLsbD client = true

/-- The instance of a CTIM object, or the slot for a new one. -/
def ctimPlace (mcon : CtrDrvrModuleContext) (conx : CtrDrvrConnection) : Option (Fin ctrDrvrRamTableSize) :=
  (firstPlace fun i => (mcon.slots i).matches conx).or (firstPlace fun i => (mcon.slots i).eqpNum == 0)

/-- The places that a connection of a client stands for. -/
def Designates (wa : CtrDrvrWorkingArea) (client : Fin ctrDrvrClientContexts) (conx : CtrDrvrConnection)
    (m : Fin ctrDrvrModuleContexts) : Place → Prop
  | .source k => conx.eqpClass = .hard ∧ m = connectModule wa client conx ∧ conx.eqpNum.getLsbD k = true
  | .slot i =>
    conx.eqpClass = .ptim ∧ getPtimModule wa conx.eqpNum = m + 1 ∧ ((wa.moduleContexts m).slots i).matches conx = true ∨
      conx.eqpClass = .ctim ∧ m = connectModule wa client conx ∧ ctimPlace (wa.moduleContexts m) conx = some i

/-- The subscript of `ModuleContexts` in `DisConnect`. -/
def disConnectIndex (conx : CtrDrvrConnection) : ℤ := conx.module - 1

/-- `DisConnect` behind a connection takes the client from the places of the connection and changes no other connection,
and its subscript is that of an installed module. -/
def Undone (beyond : Fin ctrDrvrModuleContexts → ℕ → BitVec 32) (wa : CtrDrvrWorkingArea)
    (client : Fin ctrDrvrClientContexts) (midx : Fin ctrDrvrModuleContexts) (conx : CtrDrvrConnection) : Prop :=
  let wa' := (control beyond wa client midx (.connect conx)).1
  let wa'' := (control beyond wa' client midx (.disConnect conx)).1
  (conx.eqpNum ≠ 0 → 0 ≤ disConnectIndex conx ∧ disConnectIndex conx < wa.modules) ∧
    ∀ m place c, ConnectedAt wa'' m place c ↔
      ConnectedAt wa' m place c ∧ ¬(c = client ∧ Designates wa client conx m place)

/-- The connection names a module and an object or a source. A hardware connection is to all sources where the client
is; the module of a PTIM object is the one that is named; and the client is in no other slot of the CTIM object. -/
structure Undoable (wa : CtrDrvrWorkingArea) (client : Fin ctrDrvrClientContexts) (conx : CtrDrvrConnection) :
    Prop where
  named : conx.module ≠ 0
  number : conx.eqpNum ≠ 0
  hard : conx.eqpClass = .hard → ∀ k : Fin ctrDrvrInterruptSources,
    ConnectedAt wa (connectModule wa client conx) (.source k) client → conx.eqpNum.getLsbD k = true
  ptim : conx.eqpClass = .ptim → getPtimModule wa conx.eqpNum = conx.module
  ctim : conx.eqpClass = .ctim → ∀ i, ((wa.moduleContexts (connectModule wa client conx)).slots i).matches conx = true →
    ConnectedAt wa (connectModule wa client conx) (.slot i) client →
      ctimPlace (wa.moduleContexts (connectModule wa client conx)) conx = some i

section Places
variable {mcon : CtrDrvrModuleContext}

@[simp] theorem clientsAt_source (k : Fin ctrDrvrInterruptSources) : mcon.clientsAt (.source k) = mcon.hardClients k :=
  rfl

@[simp] theorem clientsAt_slot (i : Fin ctrDrvrRamTableSize) : mcon.clientsAt (.slot i) = (mcon.slots i).clients := rfl

end Places

section Bits
variable {client c : Fin ctrDrvrClientContexts} {clients : BitVec 32}

theorem joined_bit : (clients ||| clientMask client).getLsbD c = true ↔ clients.getLsbD c = true ∨ c = client := by
  rw [clientMask_bit, Fin.ext_iff]

theorem left_bit : (clients &&& ~~~clientMask client).getLsbD c = true ↔ clients.getLsbD c = true ∧ c ≠ client := by
  unfold clientMask
  rw [and_not_twoPow_bit, ← Fin.ext_iff.ne]

end Bits

/-! ## Connect -/

section Connect
variable {wa : CtrDrvrWorkingArea} {client : Fin ctrDrvrClientContexts} {conx : CtrDrvrConnection}
  {mcon : CtrDrvrModuleContext}

/-- A connection to a CTIM object changes one slot, which is the object's then. -/
theorem connectCtim_ok (hclass : conx.eqpClass = .ctim) (h : (connectCtim wa client conx mcon).2 = .ok) :
    (connectCtim wa client conx mcon).1.hardClients = mcon.hardClients ∧ ∃ i, ctimPlace mcon conx = some i ∧
      (∀ j ≠ i, (connectCtim wa client conx mcon).1.slots j = mcon.slots j) ∧
      ((connectCtim wa client conx mcon).1.slots i).clients = (mcon.slots i).clients ||| clientMask client ∧
      ((connectCtim wa client conx mcon).1.slots i).matches conx = true := by
  unfold ctimPlace
  unfold connectCtim at h ⊢
  cases hexisting : firstPlace fun i => (mcon.slots i).matches conx with
  | some i =>
    refine ⟨rfl, i, rfl, fun j hj => ?_, ?_, ?_⟩
    · dsimp only
      rw [joinSlot_slots, Function.update_of_ne hj]
    · dsimp only
      rw [joinSlot_slots, Function.update_self]
      rfl
    · dsimp only
      rw [joinSlot_slots, Function.update_self]
      exact (firstPlace_eq_some.mp hexisting).1
  | none =>
    rw [hexisting] at h
    cases hframe : ctimFrame wa conx.eqpNum with
    | none =>
      rw [hframe] at h
      cases h
    | some frame =>
      rw [hframe] at h
      cases hempty : firstPlace fun i => (mcon.slots i).eqpNum == 0 with
      | none =>
        rw [hempty] at h
        cases h
      | some i =>
        refine ⟨rfl, i, rfl, fun j hj => ?_, ?_, ?_⟩
        · dsimp only
          rw [newCtim_slots, if_neg hj]
        · dsimp only
          rw [newCtim_slots, if_pos rfl]
          rfl
        · dsimp only
          rw [newCtim_slots, if_pos rfl]
          exact matches_iff.mpr ⟨rfl, hclass⟩

/-- What a connection that succeeds does: it joins the places that it designates, all on one module. -/
structure Joins (wa : CtrDrvrWorkingArea) (client : Fin ctrDrvrClientContexts) (conx : CtrDrvrConnection)
    (m : Fin ctrDrvrModuleContexts) (mcon' : CtrDrvrModuleContext) : Prop where
  result : (connect wa client conx).1 = wa.setModule m mcon'
  somewhere : ∃ place, Designates wa client conx m place
  only : ∀ m' place, Designates wa client conx m' place → m' = m
  bits : ∀ place (c : Fin ctrDrvrClientContexts), (mcon'.clientsAt place).getLsbD c = true ↔
    ((wa.moduleContexts m).clientsAt place).getLsbD c = true ∨ c = client ∧ Designates wa client conx m place
  matched : ∀ i, (mcon'.slots i).matches conx = true ↔
    ((wa.moduleContexts m).slots i).matches conx = true ∨ Designates wa client conx m (.slot i)

theorem connected_ok {midx : Fin ctrDrvrModuleContexts} {result : CtrDrvrModuleContext × ℕ}
    (h : (connected wa midx result).2 = .ok) :
    result.2 ≠ 0 ∧ (connected wa midx result).1 = wa.setModule midx
    (enableInterrupts result.1 result.1.interruptEnable) := by
  unfold connected at h ⊢
  by_cases hcount : result.2 = 0
  · rw [if_pos hcount] at h
    cases h
  · rw [if_neg hcount]
    exact ⟨hcount, rfl⟩

theorem connect_hard_joins (hclass : conx.eqpClass = .hard) (h : (connect wa client conx).2 = .ok) :
    ∃ mcon', Joins wa client conx (connectModule wa client conx) mcon' := by
  have hconnect : connect wa client conx = connected wa (connectModule wa client conx)
      (connectHard client conx (wa.moduleContexts (connectModule wa client conx))) := by
    unfold connect
    rw [hclass]
  rw [hconnect] at h
  obtain ⟨hcount, hresult⟩ := connected_ok h
  obtain ⟨k, hk⟩ := connectHard_count.mp hcount
  have hslot : ∀ m i, ¬Designates wa client conx m (.slot i) := by
    rintro m i (⟨hptim, -⟩ | ⟨hctim, -⟩)
    · rw [hclass] at hptim
      cases hptim
    · rw [hclass] at hctim
      cases hctim
  refine ⟨_, ⟨hconnect ▸ hresult, ⟨.source k, hclass, rfl, hk⟩, ?_, ?_, fun i => ?_⟩⟩
  · rintro m (k | i) hdes
    · exact hdes.2.1
    · exact absurd hdes (hslot m i)
  · rintro (k | i) c
    · rw [clientsAt_source, clientsAt_source, enableInterrupts_hardClients, connectHard_hardClients]
      by_cases hk : conx.eqpNum.getLsbD k = true
      · rw [if_pos hk, joined_bit]
        exact or_congr_right ⟨fun hc => ⟨hc, hclass, rfl, hk⟩, fun hc => hc.1⟩
      · rw [if_neg hk]
        exact ⟨.inl, fun hor => hor.resolve_right fun hdes => hk hdes.2.2.2⟩
    · rw [clientsAt_slot, clientsAt_slot, enableInterrupts_slots, connectHard_slots]
      exact ⟨.inl, fun hor => hor.resolve_right fun hdes => hslot _ i hdes.2⟩
  · rw [enableInterrupts_slots, connectHard_slots]
    exact ⟨.inl, fun hor => hor.resolve_right (hslot _ i)⟩

theorem connect_ptim_joins (hclass : conx.eqpClass = .ptim) (h : (connect wa client conx).2 = .ok) :
    ∃ (m : Fin ctrDrvrModuleContexts) (mcon' : CtrDrvrModuleContext), getPtimModule wa conx.eqpNum = m + 1 ∧
      Joins wa client conx m mcon' := by
  by_cases hnumber : getPtimModule wa conx.eqpNum - 1 < ctrDrvrModuleContexts ∧ getPtimModule wa conx.eqpNum ≠ 0
  · have hconnect : connect wa client conx = connected wa ⟨getPtimModule wa conx.eqpNum - 1, hnumber.1⟩
        (connectPtim client conx (wa.moduleContexts ⟨getPtimModule wa conx.eqpNum - 1, hnumber.1⟩)) := by
      unfold connect
      rw [hclass]
      dsimp only
      rw [dif_pos hnumber]
    have hm : ((⟨getPtimModule wa conx.eqpNum - 1, hnumber.1⟩ : Fin ctrDrvrModuleContexts) : ℕ) + 1 =
        getPtimModule wa conx.eqpNum := by
      show getPtimModule wa conx.eqpNum - 1 + 1 = _
      omega
    generalize (⟨getPtimModule wa conx.eqpNum - 1, hnumber.1⟩ : Fin ctrDrvrModuleContexts) = m at hconnect hm
    rw [hconnect] at h
    obtain ⟨hcount, hresult⟩ := connected_ok h
    rw [← hconnect] at hresult
    obtain ⟨i, hi⟩ := connectPtim_count.mp hcount
    have hhard : (connectPtim client conx (wa.moduleContexts m)).1.hardClients = (wa.moduleContexts m).hardClients :=
      connectPtim_hardClients
    have hslots : ∀ j, (connectPtim client conx (wa.moduleContexts m)).1.slots j =
        if ((wa.moduleContexts m).slots j).matches conx then joinedSlot client ((wa.moduleContexts m).slots j)
        else (wa.moduleContexts m).slots j := connectPtim_slots
    generalize connectPtim client conx (wa.moduleContexts m) = r at hresult hhard hslots
    have hsource : ∀ m k, ¬Designates wa client conx m (.source k) := by
      rintro m k ⟨hhard, -⟩
      rw [hclass] at hhard
      cases hhard
    have hslot : ∀ m' j, Designates wa client conx m' (.slot j) ↔
        m' = m ∧ ((wa.moduleContexts m).slots j).matches conx = true := by
      intro m' j
      constructor
      · rintro (⟨-, hm', hmatch⟩ | ⟨hctim, -⟩)
        · obtain rfl : m' = m := Fin.ext (by omega)
          exact ⟨rfl, hmatch⟩
        · rw [hclass] at hctim
          cases hctim
      · rintro ⟨rfl, hmatch⟩
        exact .inl ⟨hclass, hm.symm, hmatch⟩
    refine ⟨m, _, hm.symm, ⟨hresult, ⟨.slot i, (hslot m i).mpr ⟨rfl, hi⟩⟩, ?_, ?_, fun j => ?_⟩⟩
    · rintro m' (k | j) hdes
      · exact absurd hdes (hsource m' k)
      · exact ((hslot m' j).mp hdes).1
    · rintro (k | j) c
      · rw [clientsAt_source, clientsAt_source, enableInterrupts_hardClients, hhard]
        exact ⟨.inl, fun hor => hor.resolve_right fun hdes => hsource m k hdes.2⟩
      · rw [clientsAt_slot, clientsAt_slot, enableInterrupts_slots, hslots, hslot]
        by_cases hmatch : ((wa.moduleContexts m).slots j).matches conx = true
        · rw [if_pos hmatch]
          refine joined_bit.trans (or_congr_right ⟨fun hc => ⟨hc, rfl, hmatch⟩, fun hc => hc.1⟩)
        · rw [if_neg hmatch]
          exact ⟨.inl, fun hor => hor.resolve_right fun hdes => hmatch hdes.2.2⟩
    · rw [enableInterrupts_slots, hslots, hslot]
      have hsame : (if ((wa.moduleContexts m).slots j).matches conx
        then joinedSlot client ((wa.moduleContexts m).slots j)
          else (wa.moduleContexts m).slots j).matches conx = ((wa.moduleContexts m).slots j).matches conx := by
        split <;> rfl
      rw [hsame]
      exact ⟨.inl, fun hor => hor.elim id fun hdes => hdes.2⟩
  · have hconnect : connect wa client conx = (wa, .error .enxio) := by
      unfold connect
      rw [hclass]
      dsimp only
      rw [dif_neg hnumber]
    rw [hconnect] at h
    cases h

theorem connect_ctim_joins (hclass : conx.eqpClass = .ctim) (h : (connect wa client conx).2 = .ok) :
    ∃ mcon', Joins wa client conx (connectModule wa client conx) mcon' := by
  generalize hm : connectModule wa client conx = m
  cases hreply : (connectCtim wa client conx (wa.moduleContexts m)).2 with
  | error errno =>
    unfold connect at h
    rw [hclass, hm] at h
    dsimp only at h
    rw [hreply] at h
    cases h
  | ok =>
    have hresult : (connect wa client conx).1 =
        wa.setModule m (enableInterrupts (connectCtim wa client conx (wa.moduleContexts m)).1
          (connectCtim wa client conx (wa.moduleContexts m)).1.interruptEnable) := by
      unfold connect
      rw [hclass, hm]
      dsimp only
      rw [hreply]
    obtain ⟨hhard, i, hplace, hother, hclients, hmatch⟩ := connectCtim_ok hclass hreply
    generalize connectCtim wa client conx (wa.moduleContexts m) = r at hresult hhard hother hclients hmatch
    have hsource : ∀ m k, ¬Designates wa client conx m (.source k) := by
      rintro m k ⟨hhard, -⟩
      rw [hclass] at hhard
      cases hhard
    have hslot : ∀ m' j, Designates wa client conx m' (.slot j) ↔ m' = m ∧ j = i := by
      intro m' j
      constructor
      · rintro (⟨hptim, -⟩ | ⟨-, hm', hj⟩)
        · rw [hclass] at hptim
          cases hptim
        · obtain rfl := hm'.trans hm
          exact ⟨rfl, Option.some.inj (hj.symm.trans hplace)⟩
      · rintro ⟨rfl, rfl⟩
        exact .inr ⟨hclass, hm.symm, hplace⟩
    refine ⟨_, ⟨hresult, ⟨.slot i, (hslot m i).mpr ⟨rfl, rfl⟩⟩, ?_, ?_, fun j => ?_⟩⟩
    · rintro m' (k | j) hdes
      · exact absurd hdes (hsource m' k)
      · exact ((hslot m' j).mp hdes).1
    · rintro (k | j) c
      · rw [clientsAt_source, clientsAt_source, enableInterrupts_hardClients, hhard]
        exact ⟨.inl, fun hor => hor.resolve_right fun hdes => hsource m k hdes.2⟩
      · rw [clientsAt_slot, clientsAt_slot, enableInterrupts_slots, hslot]
        by_cases hj : j = i
        · rw [hj, hclients, joined_bit]
          exact or_congr_right ⟨fun hc => ⟨hc, rfl, rfl⟩, fun hc => hc.1⟩
        · rw [hother j hj]
          exact ⟨.inl, fun hor => hor.resolve_right fun hdes => hj hdes.2.2⟩
    · rw [enableInterrupts_slots, hslot]
      by_cases hj : j = i
      · rw [hj]
        exact ⟨fun _ => .inr ⟨rfl, rfl⟩, fun _ => hmatch⟩
      · rw [hother j hj]
        exact ⟨.inl, fun hor => hor.resolve_right fun hdes => hj hdes.2⟩

theorem connect_joins (hclass : ∀ value, conx.eqpClass ≠ .other value) (h : (connect wa client conx).2 = .ok) :
    ∃ m mcon', Joins wa client conx m mcon' := by
  cases hc : conx.eqpClass with
  | hard => exact ⟨_, connect_hard_joins hc h⟩
  | ctim => exact ⟨_, connect_ctim_joins hc h⟩
  | ptim =>
    obtain ⟨m, mcon', -, hjoins⟩ := connect_ptim_joins hc h
    exact ⟨m, mcon', hjoins⟩
  | other value => exact absurd hc (hclass value)

end Connect

/-! ## DisConnect -/

section DisConnect
variable {beyond : Fin ctrDrvrModuleContexts → ℕ → BitVec 32} {wa : CtrDrvrWorkingArea}
  {client : Fin ctrDrvrClientContexts} {midx : Fin ctrDrvrModuleContexts} {conx : CtrDrvrConnection}

/-- The places that `DisConnect` takes a client from. -/
def Leaves (conx : CtrDrvrConnection) (mcon : CtrDrvrModuleContext) : Place → Prop
  | .source _ => conx.eqpClass = .hard
  | .slot i => Left conx (mcon.slots i)

theorem disConnectFrom_bit {beyond : ℕ → BitVec 32} {mcon : CtrDrvrModuleContext} (place : Place)
    (c : Fin ctrDrvrClientContexts) : ((disConnectFrom beyond client conx mcon).clientsAt place).getLsbD c = true ↔
      (mcon.clientsAt place).getLsbD c = true ∧ ¬(c = client ∧ Leaves conx mcon place) := by
  cases place with
  | source k =>
    rw [clientsAt_source, clientsAt_source, disConnectFrom_hardClients]
    unfold Leaves
    by_cases hhard : conx.eqpClass = .hard
    · rw [if_pos hhard, left_bit]
      exact and_congr_right fun _ => ⟨fun hne hboth => hne hboth.1, fun hnot heq => hnot ⟨heq, hhard⟩⟩
    · rw [if_neg hhard]
      exact ⟨fun hbit => ⟨hbit, fun hboth => hhard hboth.2⟩, fun h => h.1⟩
  | slot i =>
    rw [clientsAt_slot, clientsAt_slot, disConnectFrom_slots]
    unfold Leaves Left
    by_cases hleft : (mcon.slots i).matches conx = true ∧ conx.eqpClass.isObject = true
    · rw [if_pos (Bool.and_eq_true_iff.mpr hleft), leftSlot_clients, left_bit]
      exact and_congr_right fun _ => ⟨fun hne hboth => hne hboth.1, fun hnot heq => hnot ⟨heq, hleft⟩⟩
    · rw [if_neg fun hboth => hleft (Bool.and_eq_true_iff.mp hboth)]
      exact ⟨fun hbit => ⟨hbit, fun hboth => hleft hboth.2⟩, fun h => h.1⟩

theorem disConnect_bit (m : Fin ctrDrvrModuleContexts) (hmodule : conx.module = m + 1) (m' : Fin ctrDrvrModuleContexts)
    (place : Place) (c : Fin ctrDrvrClientContexts) : ConnectedAt (disConnect beyond wa client conx) m' place c ↔
      ConnectedAt wa m' place c ∧ ¬(c = client ∧ m' = m ∧ Leaves conx (wa.moduleContexts m) place) := by
  unfold ConnectedAt
  rw [disConnect_named wa client m hmodule]
  unfold CtrDrvrWorkingArea.setModule
  dsimp only
  by_cases hm : m' = m
  · rw [hm, Function.update_self, disConnectFrom_bit]
    simp only [true_and]
  · rw [Function.update_of_ne hm]
    exact ⟨fun hbit => ⟨hbit, fun hboth => hm hboth.2.1⟩, fun h => h.1⟩

/-- `DisConnectAll` passes over the slots without a number. -/
theorem disConnectAll_zero (beyond : Fin ctrDrvrModuleContexts → ℕ → BitVec 32) (client : Fin ctrDrvrClientContexts)
    {m : Fin ctrDrvrModuleContexts} {i : Fin ctrDrvrRamTableSize}
    (hzero : (wa.slot m i).eqpNum = 0) : (disConnectAll beyond wa client).slot m i = wa.slot m i := by
  have hslot : ((wa.moduleContexts m).slots i).eqpNum = 0 := hzero
  unfold disConnectAll CtrDrvrWorkingArea.slot
  dsimp only
  split
  · rw [disConnectModule_slots, hslot]
    rfl
  · rfl

end DisConnect

/-! ## Both -/

section Both
variable {beyond : Fin ctrDrvrModuleContexts → ℕ → BitVec 32} {wa : CtrDrvrWorkingArea}
  {client : Fin ctrDrvrClientContexts} {midx : Fin ctrDrvrModuleContexts} {conx : CtrDrvrConnection}
  {m : Fin ctrDrvrModuleContexts} {mcon' : CtrDrvrModuleContext}

theorem Joins.connectedAt (h : Joins wa client conx m mcon') (m' : Fin ctrDrvrModuleContexts) (place : Place)
    (c : Fin ctrDrvrClientContexts) : ConnectedAt (connect wa client conx).1 m' place c ↔
      ConnectedAt wa m' place c ∨ c = client ∧ Designates wa client conx m' place := by
  unfold ConnectedAt
  rw [h.result]
  unfold CtrDrvrWorkingArea.setModule
  dsimp only
  by_cases hm : m' = m
  · rw [hm, Function.update_self]
    exact h.bits place c
  · rw [Function.update_of_ne hm]
    exact ⟨.inl, fun hor => hor.resolve_right fun hdes => hm (h.only m' place hdes.2)⟩

/-- The slots that match behind the connection. -/
theorem Joins.matches_after (h : Joins wa client conx m mcon') (m' : Fin ctrDrvrModuleContexts)
    (i : Fin ctrDrvrRamTableSize) : ((((connect wa client conx).1.moduleContexts m').slots i).matches conx = true) ↔
      ((wa.moduleContexts m').slots i).matches conx = true ∨ Designates wa client conx m' (.slot i) := by
  rw [h.result]
  unfold CtrDrvrWorkingArea.setModule
  dsimp only
  by_cases hm : m' = m
  · rw [hm, Function.update_self]
    exact h.matched i
  · rw [Function.update_of_ne hm]
    exact ⟨.inl, fun hor => hor.resolve_right fun hdes => hm (h.only m' _ hdes)⟩

theorem designates_source {k : Fin ctrDrvrInterruptSources} (h : Designates wa client conx m (.source k)) :
    conx.eqpClass = .hard := h.1

theorem designates_slot {i : Fin ctrDrvrRamTableSize} (h : Designates wa client conx m (.slot i)) :
    conx.eqpClass.isObject = true := by
  obtain ⟨hptim, -⟩ | ⟨hctim, -⟩ := h
  · exact isObject_iff.mpr (.inr hptim)
  · exact isObject_iff.mpr (.inl hctim)

/-- Where the client is connected behind the connection, `DisConnect` takes it from the places of the connection and
from no other. -/
theorem Joins.leaves_iff (h : Joins wa client conx m mcon') {m₀ : Fin ctrDrvrModuleContexts}
    (hmodule : conx.module = m₀ + 1) (hu : Undoable wa client conx) (m' : Fin ctrDrvrModuleContexts) (place : Place)
    (hin : ConnectedAt (connect wa client conx).1 m' place client) :
    m' = m₀ ∧ Leaves conx ((connect wa client conx).1.moduleContexts m₀) place ↔
    Designates wa client conx m' place := by
  have hnamed : connectModule wa client conx = m₀ := connectModule_named hmodule
  have hbefore := (h.connectedAt m' place client).mp hin
  cases place with
  | source k =>
    constructor
    · rintro ⟨rfl, hhard⟩
      obtain hold | ⟨-, hdes⟩ := hbefore
      · exact ⟨hhard, hnamed.symm, hu.hard hhard k (hnamed.symm ▸ hold)⟩
      · exact hdes
    · rintro ⟨hhard, hm', -⟩
      exact ⟨hm'.trans hnamed, hhard⟩
  | slot i =>
    constructor
    · rintro ⟨rfl, hmatch, hobject⟩
      obtain hold | hdes := (h.matches_after m' i).mp hmatch
      · obtain hctim | hptim := isObject_iff.mp hobject
        · obtain hconnected | ⟨-, hdes⟩ := hbefore
          · have hplace := hu.ctim hctim i (hnamed.symm ▸ hold) (hnamed.symm ▸ hconnected)
            rw [hnamed] at hplace
            exact .inr ⟨hctim, hnamed.symm, hplace⟩
          · exact hdes
        · exact .inl ⟨hptim, (hu.ptim hptim).trans hmodule, hold⟩
      · exact hdes
    · intro hdes
      have hm' : m' = m₀ := by
        obtain ⟨hptim, hnumber, -⟩ | ⟨-, hm', -⟩ := hdes
        · have := hu.ptim hptim
          exact Fin.ext (by omega)
        · exact hm'.trans hnamed
      obtain rfl := hm'
      exact ⟨rfl, (h.matches_after m' i).mpr (.inr hdes), designates_slot hdes⟩

theorem control_number (beyond : Fin ctrDrvrModuleContexts → ℕ → BitVec 32) (wa : CtrDrvrWorkingArea)
    (client : Fin ctrDrvrClientContexts) (midx : Fin ctrDrvrModuleContexts) (hnum : conx.eqpNum ≠ 0) :
    (control beyond wa client midx (.disConnect conx)).1 = disConnect beyond wa client conx := by
  unfold control
  dsimp only
  rw [if_pos hnum]

theorem control_zero (beyond : Fin ctrDrvrModuleContexts → ℕ → BitVec 32) (wa : CtrDrvrWorkingArea)
    (client : Fin ctrDrvrClientContexts) (midx : Fin ctrDrvrModuleContexts) (hzero : conx.eqpNum = 0) :
    (control beyond wa client midx (.disConnect conx)).1 = disConnectAll beyond wa client := by
  unfold control
  dsimp only
  rw [if_neg (not_not.mpr hzero)]

theorem Joins.number_of_undone (h : Joins wa client conx m mcon') (hu : Undone beyond wa client midx conx) :
    conx.eqpNum ≠ 0 := by
  intro hzero
  obtain ⟨place, hdes⟩ := h.somewhere
  have hin := (h.connectedAt m place client).mpr (.inr ⟨rfl, hdes⟩)
  have hafter : ¬ConnectedAt (disConnectAll beyond (connect wa client conx).1 client) m place client := by
    rw [← control_zero beyond _ client midx hzero]
    exact fun hstill => ((hu.2 m place client).mp hstill).2 ⟨rfl, hdes⟩
  cases place with
  | source k =>
    have hbit := hdes.2.2
    rw [hzero] at hbit
    simp at hbit
  | slot i =>
    have hmatch := (h.matches_after m i).mpr (.inr hdes)
    have hnum : ((connect wa client conx).1.slot m i).eqpNum = 0 := (matches_iff.mp hmatch).1.symm.trans hzero
    have hstays := congrArg TrigSlot.clients (disConnectAll_zero beyond client hnum)
    refine hafter ?_
    unfold ConnectedAt at hin ⊢
    rw [clientsAt_slot] at hin ⊢
    exact (congrArg (fun clients => clients.getLsbD client = true) hstays).mpr hin

/-- After a connection that succeeds, `DisConnect` with the same descriptor undoes it exactly where it is undoable. -/
theorem undone_iff (beyond : Fin ctrDrvrModuleContexts → ℕ → BitVec 32) (wa : CtrDrvrWorkingArea)
    (client : Fin ctrDrvrClientContexts) (midx : Fin ctrDrvrModuleContexts) (conx : CtrDrvrConnection)
    (hclass : ∀ value, conx.eqpClass ≠ .other value) (hmodule : conx.module ≤ wa.modules)
    (h : (control beyond wa client midx (.connect conx)).2 = .ok) :
    Undone beyond wa client midx conx ↔ Undoable wa client conx := by
  obtain ⟨m, mcon', hjoins⟩ := connect_joins hclass h
  have hmodules := wa.modules_le
  constructor
  · intro hu
    have hnum := hjoins.number_of_undone hu
    have hnamed : conx.module ≠ 0 := by
      have hindex := (hu.1 hnum).1
      unfold disConnectIndex at hindex
      omega
    obtain ⟨m₀, hm₀⟩ : ∃ m₀ : Fin ctrDrvrModuleContexts, conx.module = m₀ + 1 :=
      ⟨⟨conx.module - 1, by omega⟩, by show conx.module = conx.module - 1 + 1; omega⟩
    have hcurrent : connectModule wa client conx = m₀ := connectModule_named hm₀
    -- what `DisConnect` takes the client from is what the connection designates
    have hkey : ∀ m' place, ConnectedAt (connect wa client conx).1 m' place client →
        (m' = m₀ ∧ Leaves conx ((connect wa client conx).1.moduleContexts m₀) place ↔
          Designates wa client conx m' place) := by
      intro m' place hin
      have hafter : ConnectedAt (disConnect beyond (connect wa client conx).1 client conx) m' place client ↔
          ConnectedAt (connect wa client conx).1 m' place client ∧
            ¬(client = client ∧ Designates wa client conx m' place) := by
        rw [← control_number beyond _ client midx hnum]
        exact hu.2 m' place client
      rw [disConnect_bit m₀ hm₀] at hafter
      have hnot := (and_congr_right_iff.mp hafter) hin
      simpa using not_iff_not.mp hnot
    refine ⟨hnamed, hnum, fun hhard k hin => ?_, fun hptim => ?_, fun hctim i hmatch hin => ?_⟩
    · rw [hcurrent] at hin
      have hconnected := (hjoins.connectedAt m₀ _ client).mpr (.inl hin)
      exact ((hkey m₀ _ hconnected).mp ⟨rfl, hhard⟩).2.2
    · obtain ⟨place, hdes⟩ := hjoins.somewhere
      have hconnected := (hjoins.connectedAt m place client).mpr (.inr ⟨rfl, hdes⟩)
      obtain ⟨rfl, -⟩ := (hkey m place hconnected).mpr hdes
      cases place with
      | source k =>
        have hhard := designates_source hdes
        rw [hptim] at hhard
        cases hhard
      | slot i =>
        obtain ⟨-, hnumber, -⟩ | ⟨hctim, -⟩ := hdes
        · exact hnumber.trans hm₀.symm
        · rw [hptim] at hctim
          cases hctim
    · rw [hcurrent] at hmatch hin ⊢
      have hconnected := (hjoins.connectedAt m₀ _ client).mpr (.inl hin)
      have hleaves : Leaves conx ((connect wa client conx).1.moduleContexts m₀) (.slot i) :=
        ⟨(hjoins.matches_after m₀ i).mpr (.inl hmatch), isObject_iff.mpr (.inl hctim)⟩
      obtain ⟨hptim, -⟩ | ⟨-, -, hplace⟩ := (hkey m₀ _ hconnected).mp ⟨rfl, hleaves⟩
      · rw [hctim] at hptim
        cases hptim
      · exact hplace
  · intro hu
    have hnamed := hu.named
    obtain ⟨m₀, hm₀⟩ : ∃ m₀ : Fin ctrDrvrModuleContexts, conx.module = m₀ + 1 :=
      ⟨⟨conx.module - 1, by omega⟩, by show conx.module = conx.module - 1 + 1; omega⟩
    refine ⟨fun _ => ?_, fun m' place c => ?_⟩
    · unfold disConnectIndex
      omega
    · have hcontrol := control_number beyond (connect wa client conx).1 client midx hu.number
      show ConnectedAt (control beyond (connect wa client conx).1 client midx (.disConnect conx)).1 m' place c ↔
        ConnectedAt (connect wa client conx).1 m' place c ∧ _
      rw [hcontrol, disConnect_bit m₀ hm₀]
      refine and_congr_right fun hin => not_congr (and_congr_right ?_)
      rintro rfl
      exact hjoins.leaves_iff hm₀ hu m' place hin

end Both

section Example

/-- Client 0 connects to source 0 and is at no other source. -/
theorem undone_soloStart : (control (fun _ _ => 0) soloStart 0 0 (.connect ⟨1, .hard, 1⟩)).2 = .ok ∧
    Undone (fun _ _ => 0) soloStart 0 0 ⟨1, .hard, 1⟩ := by
  have hok : (control (fun _ _ => 0) soloStart 0 0 (.connect ⟨1, .hard, 1⟩)).2 = .ok := by decide +kernel
  refine ⟨hok, (undone_iff _ soloStart 0 0 ⟨1, .hard, 1⟩ (fun _ hother => by cases hother) (by decide) hok).mpr ?_⟩
  have hsources : ∀ m k, (soloStart.moduleContexts m).hardClients k = 0 := fun _ _ => rfl
  refine ⟨by decide, by decide, fun _ k hin => ?_, ?_, ?_⟩
  · unfold ConnectedAt at hin
    rw [clientsAt_source, hsources] at hin
    cases hin
  · rintro ⟨⟩
  · rintro ⟨⟩

/-- At source 0 it connects to source 1 besides, and loses both. -/
theorem not_undone_soloHard : Reach ctrNext Proper (ctrDrvrInstall 1 (by decide) fun _ => true) soloHard ∧
    (control (fun _ _ => 0) soloHard 0 0 (.connect ⟨1, .hard, 2⟩)).2 = .ok ∧
    ¬Undone (fun _ _ => 0) soloHard 0 0 ⟨1, .hard, 2⟩ := by
  refine ⟨soloHard_reach.weaken fun _ _ hsparing => hsparing.1, by decide +kernel, fun hu => ?_⟩
  have hsource : ConnectedAt (connect soloHard 0 ⟨1, .hard, 2⟩).1 0 (.source 0) 0 := by
    show (((connect soloHard 0 ⟨1, .hard, 2⟩).1.moduleContexts 0).hardClients 0).getLsbD 0 = true
    decide +kernel
  have hkept := (hu.2 0 (.source 0) 0).mpr ⟨hsource, fun hboth => by
    have hbit : (2 : BitVec 32).getLsbD 0 = true := hboth.2.2.2
    cases hbit⟩
  have hnumber : (control (fun _ _ => 0) (connect soloHard 0 ⟨1, .hard, 2⟩).1 0 0 (.disConnect ⟨1, .hard, 2⟩)).1 =
      disConnect (fun _ _ => 0) (connect soloHard 0 ⟨1, .hard, 2⟩).1 0 ⟨1, .hard, 2⟩ :=
    control_number _ _ 0 0 (by decide)
  have hleft : ConnectedAt (disConnect (fun _ _ => 0) (connect soloHard 0 ⟨1, .hard, 2⟩).1 0 ⟨1, .hard, 2⟩) 0
    (.source 0) 0 :=
    hnumber ▸ hkept
  exact ((disConnect_bit 0 rfl 0 (.source 0) 0).mp hleft).2 ⟨rfl, rfl, rfl⟩

end Example

end HtDrivers.Ctr
