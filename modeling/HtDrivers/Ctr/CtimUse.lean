import HtDrivers.Ctr.ConnectUndone

/-! When a CTIM object counts as in use, and which objects the occupied slots refer to. The test looks at the triggers
of all slots of one module, the occupied and the free ones. -/
namespace HtDrivers.Ctr
open HtDrivers.Lib.Tables HtDrivers.Lib.Masks HtDrivers.Lib.Transition
set_option autoImplicit false

/-! ## The test -/

section Use
variable (wa : CtrDrvrWorkingArea) (midx : Fin ctrDrvrModuleContexts) (ctim : CtrDrvrCtimBinding)

def DefinedCtim : Prop := ∃ object ∈ wa.ctim, object.eqpNum = ctim.eqpNum

/-- An occupied slot of a module has a trigger that refers to the CTIM. -/
def UsesCtim (eqpNum : BitVec 32) : Prop := ∃ m i, (wa.slot m i).eqpNum ≠ 0 ∧ (wa.slot m i).trig.ctim = eqpNum

def DestroysUnused : Prop := (destroyCtimObject wa midx ctim).2 = .ok ↔ ¬UsesCtim wa ctim.eqpNum

def ChangesUnused : Prop := (changeCtimFrame wa midx ctim).2 = .ok ↔ ¬UsesCtim wa ctim.eqpNum

/-- The triggers of the module, those of its free slots among them, refer to the CTIM where occupied slots do. -/
def SeesUse : Prop := refersCtim (wa.moduleContexts midx) ctim.eqpNum ↔ UsesCtim wa ctim.eqpNum

variable {wa midx ctim}

theorem definedCtim_any : DefinedCtim wa ctim ↔ (wa.ctim.any fun object => ctim.eqpNum == object.eqpNum) = true := by
  unfold DefinedCtim
  rw [List.any_eq_true]
  refine exists_congr fun object => and_congr_right fun _ => ?_
  rw [beq_iff_eq, eq_comm]

theorem destroyCtim_ok (h : DefinedCtim wa ctim) :
    (destroyCtimObject wa midx ctim).2 = .ok ↔ ¬refersCtim (wa.moduleContexts midx) ctim.eqpNum := by
  rw [destroyCtimObject, if_pos (definedCtim_any.mp h)]
  by_cases hrefers : refersCtim (wa.moduleContexts midx) ctim.eqpNum
  · rw [if_pos hrefers]
    exact ⟨fun hfalse => (by cases hfalse), fun hnot => absurd hrefers hnot⟩
  · rw [if_neg hrefers]
    exact ⟨fun _ => hrefers, fun _ => rfl⟩

theorem changeCtim_ok (h : DefinedCtim wa ctim) :
    (changeCtimFrame wa midx ctim).2 = .ok ↔ ¬refersCtim (wa.moduleContexts midx) ctim.eqpNum := by
  rw [changeCtimFrame, if_pos (definedCtim_any.mp h)]
  by_cases hrefers : refersCtim (wa.moduleContexts midx) ctim.eqpNum
  · rw [if_pos hrefers]
    exact ⟨fun hfalse => (by cases hfalse), fun hnot => absurd hrefers hnot⟩
  · rw [if_neg hrefers]
    exact ⟨fun _ => hrefers, fun _ => rfl⟩

theorem destroysUnused_iff (h : DefinedCtim wa ctim) : DestroysUnused wa midx ctim ↔ SeesUse wa midx ctim := by
  unfold DestroysUnused SeesUse
  rw [destroyCtim_ok h, not_iff_not]

theorem changesUnused_iff (h : DefinedCtim wa ctim) : ChangesUnused wa midx ctim ↔ SeesUse wa midx ctim := by
  unfold ChangesUnused SeesUse
  rw [changeCtim_ok h, not_iff_not]

end Use

/-! ## References -/

section References
variable {wa wa' : CtrDrvrWorkingArea} {client : Fin ctrDrvrClientContexts} {midx : Fin ctrDrvrModuleContexts}
  {beyond : Fin ctrDrvrModuleContexts → ℕ → BitVec 32} {fresh : BitVec 32 → Prop}

/-- The references of occupied slots were there before, or they are among the fresh ones. -/
def Sourced (wa wa' : CtrDrvrWorkingArea) (fresh : BitVec 32 → Prop) : Prop :=
  ∀ m i, (wa'.slot m i).eqpNum ≠ 0 →
    (wa.slot m i).eqpNum ≠ 0 ∧ (wa'.slot m i).trig.ctim = (wa.slot m i).trig.ctim ∨ fresh (wa'.slot m i).trig.ctim

/-- The references that a call may make. -/
def Fresh (wa : CtrDrvrWorkingArea) (cm : CtrControl) (eqpNum : BitVec 32) : Prop :=
  match cm with
  | .connect _ => ∃ object ∈ wa.ctim, object.eqpNum = eqpNum
  | .setAction act => act.trigger.ctim = eqpNum
  | .createPtim ptim => ∃ (m : Fin ctrDrvrModuleContexts) (i : Fin ctrDrvrRamTableSize) (start : ℕ),
      ptim.moduleIndex = m ∧
      searchSlots (wa.moduleContexts m) ptim.size (List.finRange _) 0 0 = some start ∧
      start ≤ (i : ℕ) ∧ (i : ℕ) < start + ptim.size ∧ (wa.slot m i).trig.ctim = eqpNum
  | _ => False

theorem Sourced.refl : Sourced wa wa fresh := fun _ _ hused => .inl ⟨hused, rfl⟩

theorem Sourced.sameSlots (h : ∀ m i, wa'.slot m i = wa.slot m i) : Sourced wa wa' fresh := by
  intro m i hused
  rw [h] at hused ⊢
  exact .inl ⟨hused, rfl⟩

theorem Sourced.module {mcon : CtrDrvrModuleContext}
    (h : ∀ i, (mcon.slots i).eqpNum ≠ 0 → (wa.slot midx i).eqpNum ≠ 0 ∧
      (mcon.slots i).trig.ctim = (wa.slot midx i).trig.ctim ∨ fresh (mcon.slots i).trig.ctim) :
    Sourced wa (wa.setModule midx mcon) fresh := by
  intro m i hused
  rw [setModule_slot] at hused ⊢
  by_cases hm : m = midx
  · rw [if_pos hm] at hused ⊢
    rw [hm]
    exact h i hused
  · rw [if_neg hm] at hused ⊢
    exact .inl ⟨hused, rfl⟩

theorem leftSlot_refers {slot : TrigSlot} (hused : (leftSlot client slot).eqpNum ≠ 0) :
    slot.eqpNum ≠ 0 ∧ (leftSlot client slot).trig.ctim = slot.trig.ctim := by
  obtain ⟨hnum, -⟩ | ⟨-, hnum, -⟩ := leftSlot_object client slot
  · rw [leftSlot_trig]
    exact ⟨hnum ▸ hused, rfl⟩
  · exact absurd hnum hused

theorem connectCtim_sourced {conx : CtrDrvrConnection} (i : Fin ctrDrvrRamTableSize)
    (hused : ((connectCtim wa client conx (wa.moduleContexts midx)).1.slots i).eqpNum ≠ 0) :
    (wa.slot midx i).eqpNum ≠ 0 ∧
      ((connectCtim wa client conx (wa.moduleContexts midx)).1.slots i).trig.ctim = (wa.slot midx i).trig.ctim ∨
    ∃ object ∈ wa.ctim, object.eqpNum =
    ((connectCtim wa client conx (wa.moduleContexts midx)).1.slots i).trig.ctim := by
  unfold connectCtim at hused ⊢
  cases hexisting : firstPlace fun i => ((wa.moduleContexts midx).slots i).matches conx with
  | some j =>
    rw [hexisting] at hused
    dsimp only at hused ⊢
    rw [joinSlot_slots] at hused ⊢
    by_cases hi : i = j
    · rw [hi, Function.update_self] at hused ⊢
      exact .inl ⟨hused, rfl⟩
    · rw [Function.update_of_ne hi] at hused ⊢
      exact .inl ⟨hused, rfl⟩
  | none =>
    rw [hexisting] at hused
    cases hframe : ctimFrame wa conx.eqpNum with
    | none =>
      rw [hframe] at hused
      exact .inl ⟨hused, rfl⟩
    | some frame =>
      rw [hframe] at hused
      cases hempty : firstPlace fun i => ((wa.moduleContexts midx).slots i).eqpNum == 0 with
      | none =>
        rw [hempty] at hused
        exact .inl ⟨hused, rfl⟩
      | some j =>
        rw [hempty] at hused
        dsimp only at hused ⊢
        rw [newCtim_slots] at hused ⊢
        by_cases hi : i = j
        · rw [if_pos hi]
          exact .inr (ctimFrame_number hframe)
        · rw [if_neg hi] at hused ⊢
          exact .inl ⟨hused, rfl⟩

theorem connected_sourced {result : CtrDrvrModuleContext × ℕ}
    (h : ∀ i, (result.1.slots i).eqpNum ≠ 0 → (wa.slot midx i).eqpNum ≠ 0 ∧
      (result.1.slots i).trig.ctim = (wa.slot midx i).trig.ctim ∨ fresh (result.1.slots i).trig.ctim) :
    Sourced wa (connected wa midx result).1 fresh := by
  unfold connected
  split
  · exact .module h
  · exact .module h

theorem connect_sourced (conx : CtrDrvrConnection) :
    Sourced wa (connect wa client conx).1 (fun n => ∃ object ∈ wa.ctim, object.eqpNum = n) := by
  have hhard : ∀ midx, Sourced wa (connected wa midx (connectHard client conx (wa.moduleContexts midx))).1
      (fun n => ∃ object ∈ wa.ctim, object.eqpNum = n) := by
    refine fun midx => connected_sourced fun i hused => ?_
    rw [connectHard_slots] at hused ⊢
    exact .inl ⟨hused, rfl⟩
  unfold connect
  dsimp only
  cases conx.eqpClass with
  | ptim =>
    dsimp only
    split
    · refine connected_sourced fun i hused => ?_
      rw [connectPtim_slots] at hused ⊢
      split at hused
      · rename_i hmatch
        rw [if_pos hmatch]
        exact .inl ⟨hused, rfl⟩
      · rename_i hmatch
        rw [if_neg hmatch]
        exact .inl ⟨hused, rfl⟩
    · exact .refl
  | ctim =>
    dsimp only
    split
    · exact .module connectCtim_sourced
    · exact .module connectCtim_sourced
  | hard => exact hhard _
  | other value => exact hhard _

theorem disConnect_sourced (conx : CtrDrvrConnection) : Sourced wa (disConnect beyond wa client conx) fresh := by
  unfold disConnect
  split
  · refine .module fun i hused => ?_
    rw [disConnectFrom_slots] at hused ⊢
    split at hused
    · rename_i hleft
      rw [if_pos hleft]
      exact .inl (leftSlot_refers hused)
    · rename_i hleft
      rw [if_neg hleft]
      exact .inl ⟨hused, rfl⟩
  · exact .refl

theorem disConnectAll_sourced : Sourced wa (disConnectAll beyond wa client) fresh := by
  intro m i hused
  unfold CtrDrvrWorkingArea.slot disConnectAll at hused ⊢
  dsimp only at hused ⊢
  split at hused
  · rename_i hm
    rw [if_pos hm]
    rw [disConnectModule_slots] at hused ⊢
    split at hused
    · rename_i hleft
      rw [if_pos hleft]
      exact .inl (leftSlot_refers hused)
    · rename_i hleft
      rw [if_neg hleft]
      exact .inl ⟨hused, rfl⟩
  · rename_i hm
    rw [if_neg hm]
    exact .inl ⟨hused, rfl⟩

theorem setAction_sourced (act : CtrDrvrAction) :
    Sourced wa (setAction wa midx act).1 (fun n => act.trigger.ctim = n) := by
  have hset : ∀ i slot, slot.trig = act.trigger →
      Sourced wa (wa.setModule midx ((wa.moduleContexts midx).setSlot i slot)) (fun n => act.trigger.ctim = n) := by
    refine fun i slot htrig => .module fun j hused => ?_
    unfold CtrDrvrModuleContext.setSlot at hused ⊢
    dsimp only at hused ⊢
    by_cases hj : j = i
    · rw [hj, Function.update_self, htrig]
      exact .inr rfl
    · rw [Function.update_of_ne hj] at hused ⊢
      exact .inl ⟨hused, rfl⟩
  unfold setAction
  dsimp only
  split
  · split
    · exact .refl
    · split
      · split
        · exact hset _ _ rfl
        · exact .refl
      · exact hset _ _ rfl
  · exact .refl

theorem createPtim_sourced (ptim : CtrDrvrPtimBinding) :
    Sourced wa (createPtimObject wa ptim).1 (Fresh wa (.createPtim ptim)) := by
  unfold createPtimObject
  split
  · exact .refl
  split
  · exact .refl
  split
  · rename_i hmodule
    dsimp only
    split
    · rename_i start hsearch
      have hclaimed : Sourced wa (wa.setModule ⟨ptim.moduleIndex, hmodule.trans_le wa.modules_le⟩
          (claimSlots ptim start (wa.moduleContexts ⟨ptim.moduleIndex, hmodule.trans_le wa.modules_le⟩)))
          (Fresh wa (.createPtim ptim)) := by
        refine .module fun i hused => ?_
        unfold claimSlots at hused ⊢
        dsimp only at hused ⊢
        by_cases hrange : start ≤ (i : ℕ) ∧ (i : ℕ) < start + ptim.size
        · rw [if_pos hrange]
          exact .inr ⟨_, i, start, rfl, hsearch, hrange.1, hrange.2, rfl⟩
        · rw [if_neg hrange] at hused ⊢
          exact .inl ⟨hused, rfl⟩
      exact hclaimed
    · exact .refl
  · exact .refl

theorem destroyPtim_sourced (ptim : CtrDrvrPtimBinding) : Sourced wa (destroyPtimObject wa ptim).1 fresh := by
  unfold destroyPtimObject
  split
  · rename_i hmodule
    rw [destroyPtimOn]
    split
    · exact .refl
    split
    · have hreleased : Sourced wa (wa.setModule ⟨ptim.moduleIndex, hmodule.trans_le wa.modules_le⟩
          (releaseSlots ptim.eqpNum (wa.moduleContexts ⟨ptim.moduleIndex, hmodule.trans_le wa.modules_le⟩))) fresh := by
        refine .module fun i hused => ?_
        unfold releaseSlots at hused ⊢
        dsimp only at hused ⊢
        split at hused
        · exact absurd rfl hused
        · rename_i hptim
          rw [if_neg hptim]
          exact .inl ⟨hused, rfl⟩
      exact hreleased
    · exact .refl
  · exact .refl

theorem selectModule_sourced (lav : ℤ) : Sourced wa (selectModule wa client lav).1 fresh := by
  unfold selectModule
  split
  · have hselected : ∀ midx : Fin ctrDrvrModuleContexts,
        Sourced wa (wa.setModule midx { wa.moduleContexts midx with moduleIndex := midx }) fresh :=
      fun midx => .module fun i hused => .inl ⟨hused, rfl⟩
    exact hselected _
  · exact .refl

theorem control_sourced (cm : CtrControl) : Sourced wa (control beyond wa client midx cm).1 (Fresh wa cm) := by
  cases cm with
  | setModule lav => exact selectModule_sourced lav
  | connect conx => exact connect_sourced conx
  | disConnect conx =>
    unfold control
    dsimp only
    split
    · exact disConnect_sourced conx
    · exact disConnectAll_sourced
  | setAction act => exact setAction_sourced act
  | createCtim ctim =>
    unfold control createCtimObject
    dsimp only
    split
    · exact .refl
    · split <;> exact .sameSlots fun _ _ => rfl
  | destroyCtim ctim =>
    unfold control destroyCtimObject
    dsimp only
    split
    · split <;> exact .sameSlots fun _ _ => rfl
    · exact .refl
  | changeCtim ctim =>
    unfold control changeCtimFrame
    dsimp only
    split
    · split <;> exact .sameSlots fun _ _ => rfl
    · exact .refl
  | createPtim ptim => exact createPtim_sourced ptim
  | destroyPtim ptim => exact destroyPtim_sourced ptim

end References

/-! ## Runs -/

section Runs
variable {wa wa' : CtrDrvrWorkingArea} {client : Fin ctrDrvrClientContexts} {midx : Fin ctrDrvrModuleContexts}
  {beyond : Fin ctrDrvrModuleContexts → ℕ → BitVec 32} {fresh : BitVec 32 → Prop}
  {destroyed destroyed' : List (BitVec 32)}

/-- The numbers of the CTIM objects that were destroyed and not created again. -/
def destroyedAfter (destroyed : List (BitVec 32)) : CtrCall → CtrReply → List (BitVec 32)
  | .ioctl (.destroyCtim ctim), .ok => ctim.eqpNum :: destroyed
  | .ioctl (.createCtim ctim), .ok => destroyed.filter fun n => n != ctim.eqpNum
  | _, _ => destroyed

structure CtimHistory where
  wa : CtrDrvrWorkingArea
  destroyed : List (BitVec 32)

def ctimNext (s : CtimHistory) (step : CtrStep) : Option CtimHistory :=
  (ctrNext s.wa step).map fun wa => ⟨wa, destroyedAfter s.destroyed step.call (ctrCall s.wa step).2⟩

/-- No occupied slot refers to a destroyed CTIM. -/
def NoDangling (wa : CtrDrvrWorkingArea) (destroyed : List (BitVec 32)) : Prop :=
  ∀ m i, (wa.slot m i).eqpNum ≠ 0 → (wa.slot m i).trig.ctim ∉ destroyed

/-- New triggers and slots do not bring back the number of a destroyed CTIM, and a CTIM that occupied slots refer to is
destroyed only by clients whose module has a trigger for it. -/
def Fitting (s : CtimHistory) (step : CtrStep) : Prop :=
  match step.call with
  | .ioctl (.setAction act) => act.trigger.ctim ∉ s.destroyed
  | .ioctl (.createPtim ptim) => ∀ n, Fresh s.wa (.createPtim ptim) n → n ∉ s.destroyed
  | .ioctl (.destroyCtim ctim) => UsesCtim s.wa ctim.eqpNum →
      refersCtim (s.wa.moduleContexts (s.wa.clientContexts step.client).moduleIndex) ctim.eqpNum
  | _ => True

theorem NoDangling.step (h : NoDangling wa destroyed) (hsourced : Sourced wa wa' fresh)
    (hfresh : ∀ n, fresh n → n ∉ destroyed') (hold : ∀ n ∈ destroyed', n ∈ destroyed ∨ ¬UsesCtim wa n) :
    NoDangling wa' destroyed' := by
  intro m i hused hgone
  obtain ⟨hbefore, hctim⟩ | hnew := hsourced m i hused
  · rw [hctim] at hgone
    obtain hdestroyed | hunused := hold _ hgone
    · exact h m i hbefore hdestroyed
    · exact hunused ⟨m, i, hbefore, rfl⟩
  · exact hfresh _ hnew hgone

/-- The numbers in the table of CTIM objects. -/
def ctimNumbers (wa : CtrDrvrWorkingArea) : List (BitVec 32) := wa.ctim.map CtrDrvrCtimBinding.eqpNum

theorem mem_ctimNumbers {n : BitVec 32} : n ∈ ctimNumbers wa ↔ ∃ object ∈ wa.ctim, object.eqpNum = n := List.mem_map

theorem disConnect_ctim (conx : CtrDrvrConnection) : (disConnect beyond wa client conx).ctim = wa.ctim := by
  unfold disConnect
  split <;> rfl

/-- A call that neither creates nor destroys CTIM objects keeps their numbers. -/
theorem control_ctimNumbers {cm : CtrControl} (hcreate : ∀ ctim, cm ≠ .createCtim ctim)
    (hdestroy : ∀ ctim, cm ≠ .destroyCtim ctim) : ctimNumbers (control beyond wa client midx cm).1 =
    ctimNumbers wa := by
  have hconnected : ∀ midx result, (connected wa midx result).1.ctim = wa.ctim := by
    intro midx result
    unfold connected
    split <;> rfl
  unfold ctimNumbers
  cases cm with
  | createCtim ctim => exact absurd rfl (hcreate ctim)
  | destroyCtim ctim => exact absurd rfl (hdestroy ctim)
  | setModule lav =>
    unfold control selectModule
    dsimp only
    split <;> rfl
  | connect conx =>
    have hctim : (connect wa client conx).1.ctim = wa.ctim := by
      unfold connect
      dsimp only
      cases conx.eqpClass with
      | ptim =>
        dsimp only
        split
        · exact hconnected _ _
        · rfl
      | ctim =>
        dsimp only
        split <;> rfl
      | hard => exact hconnected _ _
      | other value => exact hconnected _ _
    exact congrArg (List.map CtrDrvrCtimBinding.eqpNum) hctim
  | disConnect conx =>
    unfold control
    dsimp only
    split
    · exact congrArg (List.map CtrDrvrCtimBinding.eqpNum) (disConnect_ctim conx)
    · rfl
  | setAction act =>
    unfold control setAction
    dsimp only
    split
    · split
      · rfl
      · split
        · split <;> rfl
        · rfl
    · rfl
  | changeCtim ctim =>
    unfold control changeCtimFrame
    dsimp only
    split
    · split
      · rfl
      · exact changeFrame_numbers ctim wa.ctim
    · rfl
  | createPtim ptim =>
    unfold control createPtimObject
    dsimp only
    split
    · rfl
    split
    · rfl
    split
    · split <;> rfl
    · rfl
  | destroyPtim ptim =>
    unfold control destroyPtimObject
    dsimp only
    split
    · rw [destroyPtimOn]
      split
      · rfl
      split <;> rfl
    · rfl

structure CtimSound (s : CtimHistory) : Prop where
  once : (ctimNumbers s.wa).Nodup
  gone : ∀ n ∈ s.destroyed, n ∉ ctimNumbers s.wa
  noDangling : NoDangling s.wa s.destroyed

theorem createCtim_created {ctim : CtrDrvrCtimBinding} (h : (createCtimObject wa ctim).2 = .ok) :
    ctim.eqpNum ∉ ctimNumbers wa ∧ (createCtimObject wa ctim).1 = { wa with ctim := wa.ctim ++ [ctim] } := by
  have hdefined : ¬(wa.ctim.any fun object => ctim.eqpNum == object.eqpNum) = true := by
    intro hany
    rw [createCtimObject, if_pos hany] at h
    cases h
  refine ⟨fun hmem => hdefined (definedCtim_any.mp (mem_ctimNumbers.mp hmem)), ?_⟩
  rw [createCtimObject, if_neg hdefined] at h ⊢
  split
  · rfl
  · rename_i hfull
    rw [if_neg hfull] at h
    cases h

theorem destroyCtim_destroyed {ctim : CtrDrvrCtimBinding} (h : (destroyCtimObject wa midx ctim).2 = .ok) :
    ¬refersCtim (wa.moduleContexts midx) ctim.eqpNum ∧ (destroyCtimObject wa midx ctim).1 =
      { wa with ctim := moveLast (fun object => ctim.eqpNum == object.eqpNum) wa.ctim } := by
  rw [destroyCtimObject] at h ⊢
  by_cases hdefined : (wa.ctim.any fun object => ctim.eqpNum == object.eqpNum) = true
  · rw [if_pos hdefined] at h ⊢
    by_cases hrefers : refersCtim (wa.moduleContexts midx) ctim.eqpNum
    · rw [if_pos hrefers] at h
      cases h
    · rw [if_neg hrefers]
      exact ⟨hrefers, rfl⟩
  · rw [if_neg hdefined] at h
    cases h

theorem destroyCtim_failed {ctim : CtrDrvrCtimBinding} (h : (destroyCtimObject wa midx ctim).2 ≠ .ok) :
    (destroyCtimObject wa midx ctim).1 = wa := by
  rw [destroyCtimObject] at h ⊢
  split
  · rename_i hdefined
    rw [if_pos hdefined] at h
    split
    · rfl
    · rename_i hrefers
      rw [if_neg hrefers] at h
      exact absurd rfl h
  · rfl

theorem CtimSound.create {s : CtimHistory} (h : CtimSound s) (ctim : CtrDrvrCtimBinding) :
    CtimSound ⟨(createCtimObject s.wa ctim).1,
      destroyedAfter s.destroyed (.ioctl (.createCtim ctim)) (createCtimObject s.wa ctim).2⟩ := by
  cases hreply : (createCtimObject s.wa ctim).2 with
  | error errno =>
    have hsame : (createCtimObject s.wa ctim).1 = s.wa := createCtim_failed (by rw [hreply]; rintro ⟨⟩)
    rw [hsame]
    exact h
  | ok =>
    obtain ⟨hnew, hresult⟩ := createCtim_created hreply
    have hdestroyed : ∀ n, n ∈ destroyedAfter s.destroyed (.ioctl (.createCtim ctim)) .ok ↔
        n ∈ s.destroyed ∧ n ≠ ctim.eqpNum := by
      intro n
      rw [destroyedAfter, List.mem_filter, bne_iff_ne]
    have hnumbers : ctimNumbers { s.wa with ctim := s.wa.ctim ++ [ctim] } = ctimNumbers s.wa ++ [ctim.eqpNum] :=
      List.map_append ..
    rw [hresult]
    refine ⟨?_, fun n hn => ?_, fun m i hused hgone => ?_⟩
    · rw [hnumbers]
      exact List.nodup_append.mpr ⟨h.once, by simp, fun a ha b hb => by
        rw [List.mem_singleton.mp hb]
        rintro rfl
        exact hnew ha⟩
    · obtain ⟨hn, hne⟩ := (hdestroyed n).mp hn
      rw [hnumbers, List.mem_append, List.mem_singleton, not_or]
      exact ⟨h.gone n hn, hne⟩
    · exact h.noDangling m i hused ((hdestroyed _).mp hgone).1

theorem CtimSound.destroy {s : CtimHistory} (h : CtimSound s) (ctim : CtrDrvrCtimBinding)
    (hfitting : UsesCtim s.wa ctim.eqpNum → refersCtim (s.wa.moduleContexts midx) ctim.eqpNum) :
    CtimSound ⟨(destroyCtimObject s.wa midx ctim).1,
      destroyedAfter s.destroyed (.ioctl (.destroyCtim ctim)) (destroyCtimObject s.wa midx ctim).2⟩ := by
  cases hreply : (destroyCtimObject s.wa midx ctim).2 with
  | error errno =>
    have hsame : (destroyCtimObject s.wa midx ctim).1 = s.wa := destroyCtim_failed (by rw [hreply]; rintro ⟨⟩)
    rw [hsame]
    exact h
  | ok =>
    obtain ⟨hunseen, hresult⟩ := destroyCtim_destroyed hreply
    have hunused : ¬UsesCtim s.wa ctim.eqpNum := fun huses => hunseen (hfitting huses)
    have hdestroyed : ∀ n, n ∈ destroyedAfter s.destroyed (.ioctl (.destroyCtim ctim)) .ok ↔
        n = ctim.eqpNum ∨ n ∈ s.destroyed := fun n => List.mem_cons
    have hmem : ∀ n, n ∈ ctimNumbers
      { s.wa with ctim := moveLast (fun object => ctim.eqpNum == object.eqpNum) s.wa.ctim } ↔
        n ∈ ctimNumbers s.wa ∧ n ≠ ctim.eqpNum := by
      intro n
      rw [mem_ctimNumbers, mem_ctimNumbers]
      constructor
      · rintro ⟨object, hobject, rfl⟩
        obtain ⟨hold, hne⟩ := (mem_moveLast_key h.once ctim.eqpNum object).mp hobject
        exact ⟨⟨object, hold, rfl⟩, hne⟩
      · rintro ⟨⟨object, hobject, rfl⟩, hne⟩
        exact ⟨object, (mem_moveLast_key h.once ctim.eqpNum object).mpr ⟨hobject, hne⟩, rfl⟩
    rw [hresult]
    refine ⟨nodup_moveLast h.once, fun n hn hin => ?_, fun m i hused hgone => ?_⟩
    · obtain ⟨hin, hne⟩ := (hmem n).mp hin
      obtain rfl | hn := (hdestroyed n).mp hn
      · exact hne rfl
      · exact h.gone n hn hin
    · obtain heq | hn := (hdestroyed _).mp hgone
      · exact hunused ⟨m, i, hused, heq⟩
      · exact h.noDangling m i hused hn

/-- The calls that neither create nor destroy. -/
theorem CtimSound.other {s : CtimHistory} (h : CtimSound s) (hnumbers : ctimNumbers wa' = ctimNumbers s.wa)
    (hsourced : Sourced s.wa wa' fresh) (hfresh : ∀ n, fresh n → n ∉ s.destroyed) : CtimSound ⟨wa', s.destroyed⟩ := by
  refine ⟨?_, ?_, h.noDangling.step hsourced hfresh fun n hn => .inl hn⟩
  · show (ctimNumbers wa').Nodup
    rw [hnumbers]
    exact h.once
  · show ∀ n ∈ s.destroyed, n ∉ ctimNumbers wa'
    rw [hnumbers]
    exact h.gone

theorem CtimSound.control {s : CtimHistory} (h : CtimSound s) {cm : CtrControl}
    (hfitting : Fitting s ⟨client, .ioctl cm, beyond⟩) :
    CtimSound ⟨(control beyond s.wa client (s.wa.clientContexts client).moduleIndex cm).1,
      destroyedAfter s.destroyed (.ioctl cm)
      (control beyond s.wa client (s.wa.clientContexts client).moduleIndex cm).2⟩ := by
  have hother : ∀ cm, (∀ ctim, cm ≠ .createCtim ctim) → (∀ ctim, cm ≠ .destroyCtim ctim) →
      (∀ n, Fresh s.wa cm n → n ∉ s.destroyed) →
      CtimSound ⟨(Ctr.control beyond s.wa client (s.wa.clientContexts client).moduleIndex cm).1, s.destroyed⟩ :=
    fun cm hcreate hdestroy hfresh =>
      h.other (control_ctimNumbers hcreate hdestroy) (control_sourced cm) hfresh
  cases cm with
  | createCtim ctim => exact h.create ctim
  | destroyCtim ctim => exact h.destroy ctim hfitting
  | connect conx =>
    refine hother (.connect conx) (fun _ => by rintro ⟨⟩) (fun _ => by rintro ⟨⟩) fun n hn hgone => ?_
    exact h.gone n hgone (mem_ctimNumbers.mpr hn)
  | setAction act =>
    refine hother (.setAction act) (fun _ => by rintro ⟨⟩) (fun _ => by rintro ⟨⟩) ?_
    rintro n rfl
    exact hfitting
  | createPtim ptim => exact hother (.createPtim ptim) (fun _ => by rintro ⟨⟩) (fun _ => by rintro ⟨⟩) hfitting
  | setModule lav => exact hother (.setModule lav) (fun _ => by rintro ⟨⟩) (fun _ => by rintro ⟨⟩) fun _ => False.elim
  | disConnect conx =>
    exact hother (.disConnect conx) (fun _ => by rintro ⟨⟩) (fun _ => by rintro ⟨⟩) fun _ => False.elim
  | changeCtim ctim =>
    exact hother (.changeCtim ctim) (fun _ => by rintro ⟨⟩) (fun _ => by rintro ⟨⟩) fun _ => False.elim
  | destroyPtim ptim =>
    exact hother (.destroyPtim ptim) (fun _ => by rintro ⟨⟩) (fun _ => by rintro ⟨⟩) fun _ => False.elim

theorem CtimSound.call {s : CtimHistory} (h : CtimSound s) {step : CtrStep} (hfitting : Fitting s step) :
    CtimSound ⟨(ctrCall s.wa step).1, destroyedAfter s.destroyed step.call (ctrCall s.wa step).2⟩ := by
  obtain ⟨client, call, beyond⟩ := step
  unfold ctrCall
  cases call with
  | opens =>
    have hopened : CtimSound ⟨(ctrDrvrOpen s.wa client).1, s.destroyed⟩ := by
      unfold ctrDrvrOpen
      split
      · exact h
      · exact h.other rfl (.sameSlots fun _ _ => rfl) fun _ => False.elim
    exact hopened
  | closes =>
    have hclosed : CtimSound ⟨(ctrDrvrClose beyond s.wa client).1, s.destroyed⟩ := by
      unfold ctrDrvrClose
      dsimp only
      split
      · exact h
      · let contexts := Function.update s.wa.clientContexts client { s.wa.clientContexts client with inUse := false }
        have hleft : CtimSound ⟨{ s.wa with clientContexts := contexts }, s.destroyed⟩ :=
          h.other rfl (.sameSlots fun _ _ => rfl) fun _ => False.elim
        exact hleft.other rfl disConnectAll_sourced fun _ => False.elim
    exact hclosed
  | ioctl cm =>
    have hfailed : ∀ errno, destroyedAfter s.destroyed (.ioctl cm) (.error errno) = s.destroyed := by
      intro errno
      cases cm <;> rfl
    dsimp only
    unfold ctrDrvrIoctl
    dsimp only
    split
    · rw [hfailed]
      exact h
    · split
      · rw [hfailed]
        exact h
      · exact h.control hfitting

/-- The calls on an existing CTIM succeed exactly where no occupied slot refers to it, when the client's module has a
trigger for it exactly then; and over the runs of fitting calls no occupied slot refers to a destroyed CTIM. -/
theorem ctimUse_exact (modules : ℕ) (hmodules : modules ≤ ctrDrvrModuleContexts) (found : ℕ → Bool) :
    (∀ (wa : CtrDrvrWorkingArea) (midx : Fin ctrDrvrModuleContexts) (ctim : CtrDrvrCtimBinding), DefinedCtim wa ctim →
      (DestroysUnused wa midx ctim ↔ SeesUse wa midx ctim) ∧ (ChangesUnused wa midx ctim ↔ SeesUse wa midx ctim)) ∧
    ∀ s, Reach ctimNext Fitting ⟨ctrDrvrInstall modules hmodules found, []⟩ s → NoDangling s.wa s.destroyed := by
  refine ⟨fun wa midx ctim hdefined => ⟨destroysUnused_iff hdefined, changesUnused_iff hdefined⟩, fun s h => ?_⟩
  have hsound : CtimSound s := by
    have hstart : CtimSound ⟨ctrDrvrInstall modules hmodules found, []⟩ :=
      ⟨List.nodup_nil, fun n hn => absurd hn List.not_mem_nil, fun m i hused => absurd rfl hused⟩
    refine h.invariant hstart ?_
    intro s step s' hs hok hnext
    obtain ⟨wa, hwa, rfl⟩ := Option.map_eq_some_iff.mp hnext
    obtain rfl := ctrCall_of_next hwa
    exact hs.call hok
  exact hsound.noDangling

end Runs

section Example

/-- The object 10 exists, no slot refers to it, and it can be destroyed. -/
theorem ctimUse_soloStart : DestroysUnused soloStart 0 ⟨10, ⟨1, 0, 0⟩⟩ ∧ ∃ s,
    Reach ctimNext Fitting ⟨ctrDrvrInstall 1 (by decide) fun _ => true, []⟩ s ∧ NoDangling s.wa s.destroyed ∧
      s.destroyed = [10] := by
  have hdefined : DefinedCtim soloStart ⟨10, ⟨1, 0, 0⟩⟩ := ⟨⟨10, ⟨1, 0, 0⟩⟩, List.mem_singleton.mpr rfl, rfl⟩
  have hfree : ∀ m i, soloStart.slot m i = freeSlot := fun _ _ => rfl
  have hunused : ¬UsesCtim soloStart 10 := by
    rintro ⟨m, i, hused, -⟩
    exact hused rfl
  have hunseen : ¬refersCtim (soloStart.moduleContexts 0) 10 := by
    rintro ⟨i, hi⟩
    cases hi
  refine ⟨((ctimUse_exact 1 (by decide) fun _ => true).1 soloStart 0 _ hdefined).1.mpr ?_, ?_⟩
  · exact ⟨fun hsees => absurd hsees hunseen, fun huses => absurd huses hunused⟩
  · have hopened : Reach ctimNext Fitting ⟨ctrDrvrInstall 1 (by decide) fun _ => true, []⟩
        ⟨(ctrDrvrOpen (ctrDrvrInstall 1 (by decide) fun _ => true) 0).1, []⟩ :=
      Reach.refl.step (a := ⟨0, .opens, fun _ _ => 0⟩) trivial rfl
    have hcreated : Reach ctimNext Fitting ⟨ctrDrvrInstall 1 (by decide) fun _ => true, []⟩ ⟨soloStart, []⟩ :=
      hopened.step (a := ⟨0, .ioctl (.createCtim ⟨10, ⟨1, 0, 0⟩⟩), fun _ _ => 0⟩) trivial rfl
    have hok : (ctrCall soloStart ⟨0, .ioctl (.destroyCtim ⟨10, ⟨1, 0, 0⟩⟩), fun _ _ => 0⟩).2 = .ok := by
      rw [ctrCall_ioctl rfl rfl]
      exact (destroyCtim_ok hdefined).mpr hunseen
    have hfitting : Fitting ⟨soloStart, []⟩ ⟨0, .ioctl (.destroyCtim ⟨10, ⟨1, 0, 0⟩⟩), fun _ _ => 0⟩ :=
      fun huses => absurd huses hunused
    have hdestroyed : Reach ctimNext Fitting ⟨ctrDrvrInstall 1 (by decide) fun _ => true, []⟩
        ⟨(ctrCall soloStart ⟨0, .ioctl (.destroyCtim ⟨10, ⟨1, 0, 0⟩⟩), fun _ _ => 0⟩).1, [10]⟩ := by
      refine hcreated.step hfitting ?_
      unfold ctimNext
      dsimp only
      rw [hok]
      rfl
    exact ⟨_, hdestroyed, (ctimUse_exact 1 (by decide) fun _ => true).2 _ hdestroyed, rfl⟩

/-- The last client has left the object 10, whose trigger is still in the table. -/
theorem not_ctimUse_soloBoth : ¬∀ s, Reach ctrNext Proper (ctrDrvrInstall 1 (by decide) fun _ => true) s →
    ∀ midx ctim, DefinedCtim s ctim → DestroysUnused s midx ctim := by
  intro h
  have hproper : Proper soloBoth ⟨0, .ioctl (.disConnect ⟨1, .ctim, 10⟩), fun _ _ => 0⟩ := by
    refine ⟨trivial, fun _ => ⟨Nat.le_refl 1, ?_⟩⟩
    exact soloBoth_modules.ge
  have hreach := ioctl_reach (soloBoth_reach.weaken fun _ _ hsparing => hsparing.1) hproper
    soloBoth_open soloBoth_present rfl
  rw [control_number _ soloBoth 0 _ (by decide)] at hreach
  have hslot : ∀ m i, (disConnect (fun _ _ => 0) soloBoth 0 ⟨1, .ctim, 10⟩).slot m i =
      if m = 0 ∧ i = 0 then { freeSlot with trig := ⟨10, ⟨1, 0, 0⟩, 0⟩ } else freeSlot := by
    intro m i
    rw [disConnect_named soloBoth 0 0 rfl, setModule_slot]
    by_cases hm : m = 0
    · rw [if_pos hm, disConnectFrom_slots]
      have hold : (soloBoth.moduleContexts 0).slots i = _ := soloBoth_slot i
      rw [hold]
      by_cases hi : i = 0
      · rw [if_pos hi, if_pos (by decide), if_pos ⟨hm, hi⟩]
        rfl
      · rw [if_neg hi, if_neg (by decide), if_neg fun h => hi h.2]
    · rw [if_neg hm, if_neg fun h => hm h.1]
      exact soloBoth_free hm i
  have hdefined : DefinedCtim (disConnect (fun _ _ => 0) soloBoth 0 ⟨1, .ctim, 10⟩) ⟨10, ⟨1, 0, 0⟩⟩ := by
    have hbefore : DefinedCtim soloBoth ⟨10, ⟨1, 0, 0⟩⟩ := definedCtim_any.mpr (by decide +kernel)
    unfold DefinedCtim at hbefore ⊢
    rw [disConnect_ctim]
    exact hbefore
  have hunused : ¬UsesCtim (disConnect (fun _ _ => 0) soloBoth 0 ⟨1, .ctim, 10⟩) 10 := by
    rintro ⟨m, i, hused, -⟩
    rw [hslot] at hused
    split at hused
    · exact hused rfl
    · exact hused rfl
  have hrefers : refersCtim ((disConnect (fun _ _ => 0) soloBoth 0 ⟨1, .ctim, 10⟩).moduleContexts 0) 10 := by
    refine ⟨0, ?_⟩
    rw [← slot_eq, hslot, if_pos ⟨rfl, rfl⟩]
  exact (destroyCtim_ok hdefined).mp ((h _ hreach 0 _ hdefined).mpr hunused) hrefers

end Example

end HtDrivers.Ctr
