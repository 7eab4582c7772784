import HtDrivers.Vmod.Vmodio

/-! When the load of the VMOD/IO driver succeeds, and the tables it leaves then. The loops over the boards and over
their slots stop at the first request that is refused. -/
namespace HtDrivers.Vmod
set_option autoImplicit false

/-! ## Requests -/

/-- A vector with the device and the slot that it is requested for. -/
def slotRequests (device : ℕ) (board : Board) (is : List ℕ) : List (ℤ × ℕ × ℕ) :=
  is.map fun i => (vmodioIrqShift board.irq i, device, i)

def requestsOf : ℕ → List Board → List (ℤ × ℕ × ℕ)
  | _, [] => []
  | device, board :: boards => slotRequests device board (List.range vmodioSlots) ++ requestsOf (device + 1) boards

def grantTo (table : ℕ → Option VmeHandler) (r : ℤ × ℕ × ℕ) : ℕ → Option VmeHandler :=
  Function.update table r.1.toNat (some (.vmodio r.2.1 r.2.2))

/-- The bridge grants the request. -/
def Grantable (ans : Answers) (table : ℕ → Option VmeHandler) (r : ℤ × ℕ × ℕ) : Prop :=
  0 ≤ r.1 ∧ r.1 < vmeNumVectors ∧ ans.interrupted r.2.1 r.2.2 = false ∧ table r.1.toNat = none

/-- It grants all of them, one after the other. -/
def Granted (ans : Answers) (table : ℕ → Option VmeHandler) (rs : List (ℤ × ℕ × ℕ)) : Prop :=
  (∀ r ∈ rs, Grantable ans table r) ∧ (rs.map Prod.fst).Nodup

section Requests
variable {ans : Answers} {table : ℕ → Option VmeHandler} {r : ℤ × ℕ × ℕ} {rs : List (ℤ × ℕ × ℕ)}

theorem vmeRequestIrq_eq_some {table' : ℕ → Option VmeHandler}
    (h : vmeRequestIrq table r.1 (.vmodio r.2.1 r.2.2) (ans.interrupted r.2.1 r.2.2) = some table') :
    Grantable ans table r ∧ table' = grantTo table r := by
  unfold vmeRequestIrq at h
  obtain ⟨hrange, h⟩ := Option.ite_none_left_eq_some.mp h
  obtain ⟨hinterrupted, h⟩ := Option.ite_none_left_eq_some.mp h
  obtain ⟨hfree, h⟩ := Option.ite_none_left_eq_some.mp h
  rw [not_or, not_lt, not_le] at hrange
  exact ⟨⟨hrange.1, hrange.2, Bool.eq_false_iff.mpr hinterrupted, by simpa using hfree⟩, (Option.some.inj h).symm⟩

theorem vmeRequestIrq_eq_none
    (h : vmeRequestIrq table r.1 (.vmodio r.2.1 r.2.2) (ans.interrupted r.2.1 r.2.2) = none) :
    ¬ Grantable ans table r := by
  rintro ⟨hnonneg, hlt, hinterrupted, hfree⟩
  unfold vmeRequestIrq at h
  rw [if_neg (by omega), hinterrupted, hfree] at h
  cases h

theorem granted_cons : Granted ans table (r :: rs) ↔ Grantable ans table r ∧ Granted ans (grantTo table r) rs := by
  unfold Granted
  rw [List.map_cons, List.nodup_cons, List.forall_mem_cons]
  constructor
  · rintro ⟨⟨hr, hrs⟩, hnot, hnodup⟩
    refine ⟨hr, fun q hq => ?_, hnodup⟩
    obtain ⟨hnonneg, hlt, hinterrupted, hfree⟩ := hrs q hq
    refine ⟨hnonneg, hlt, hinterrupted, ?_⟩
    have hne : q.1 ≠ r.1 := by
      intro heq
      rw [← heq] at hnot
      exact hnot (List.mem_map_of_mem hq)
    have hr' := hr.1
    unfold grantTo
    rw [Function.update_of_ne (by omega)]
    exact hfree
  · rintro ⟨hr, hrs, hnodup⟩
    have hother : ∀ q ∈ rs, q.1.toNat ≠ r.1.toNat := by
      intro q hq heq
      have hfree := (hrs q hq).2.2.2
      unfold grantTo at hfree
      rw [heq, Function.update_self] at hfree
      cases hfree
    refine ⟨⟨hr, fun q hq => ?_⟩, ?_, hnodup⟩
    · obtain ⟨hnonneg, hlt, hinterrupted, hfree⟩ := hrs q hq
      unfold grantTo at hfree
      rw [Function.update_of_ne (hother q hq)] at hfree
      exact ⟨hnonneg, hlt, hinterrupted, hfree⟩
    · intro hmem
      obtain ⟨q, hq, heq⟩ := List.mem_map.mp hmem
      exact hother q hq (by rw [heq])

theorem granted_append {qs : List (ℤ × ℕ × ℕ)} :
    Granted ans table (qs ++ rs) ↔ Granted ans table qs ∧ Granted ans (qs.foldl grantTo table) rs := by
  induction qs generalizing table with
  | nil => simp [Granted]
  | cons q qs ih => rw [List.cons_append, granted_cons, ih, granted_cons, List.foldl_cons, and_assoc]

/-- The table after all requests. -/
theorem grants_other {v : ℕ} (hv : ∀ r ∈ rs, r.1.toNat ≠ v) : rs.foldl grantTo table v = table v := by
  induction rs generalizing table with
  | nil => rfl
  | cons r rs ih =>
    rw [List.forall_mem_cons] at hv
    rw [List.foldl_cons, ih hv.2, grantTo, Function.update_of_ne hv.1.symm]

theorem grants_mem (h : Granted ans table rs) (hr : r ∈ rs) :
    rs.foldl grantTo table r.1.toNat = some (.vmodio r.2.1 r.2.2) := by
  induction rs generalizing table with
  | nil => cases hr
  | cons q rs ih =>
    rw [granted_cons] at h
    rw [List.foldl_cons]
    rcases List.mem_cons.mp hr with rfl | hmem
    · rw [grants_other]
      · exact Function.update_self ..
      · intro p hp heq
        have hfree := (h.2.1 p hp).2.2.2
        unfold grantTo at hfree
        rw [heq, Function.update_self] at hfree
        cases hfree
    · exact ih h.2 hmem

end Requests

/-! ## The slots of one device -/

section Load
variable {C D : Type} {ans : Answers} {s t : VmodioDriver C D} {device : ℕ} {board : Board}

/-- What the load never touches. -/
structure SameRest (s t : VmodioDriver C D) : Prop where
  carrier : t.carrier = s.carrier
  freed : t.freed = s.freed
  callbacks : t.mezzaninesCallback = s.mezzaninesCallback

theorem SameRest.refl (s : VmodioDriver C D) : SameRest s s := ⟨rfl, rfl, rfl⟩

theorem SameRest.trans {u : VmodioDriver C D} (h : SameRest s t) (h' : SameRest t u) : SameRest s u :=
  ⟨h'.carrier.trans h.carrier, h'.freed.trans h.freed, h'.callbacks.trans h.callbacks⟩

structure SlotsDone (device : ℕ) (board : Board) (is : List ℕ) (s t : VmodioDriver C D) : Prop where
  table : t.vmeIrqTable = (slotRequests device board is).foldl grantTo s.vmeIrqTable
  requested : t.requested = s.requested ++ (slotRequests device board is).map (·.1.toNat)
  entries : ∀ l j, t.lunSlotToIrq (l, j) = if l = board.lun ∧ j ∈ is then vmodioIrqShift board.irq j
    else s.lunSlotToIrq (l, j)
  lun : (t.deviceTable device).lun = (s.deviceTable device).lun
  irqs : ∀ j, (t.deviceTable device).irq j = if j ∈ is then vmodioIrqShift board.irq j else (s.deviceTable device).irq j
  others : ∀ d, d ≠ device → t.deviceTable d = s.deviceTable d
  irqToLun : t.irqToLun = s.irqToLun
  devices : t.devices = s.devices

theorem requestSlots_rest (is : List ℕ) : SameRest s (requestSlots ans device board is s).1 := by
  induction is generalizing s with
  | nil => exact .refl s
  | cons i is ih =>
    rw [requestSlots]
    dsimp only
    split
    · exact ⟨rfl, rfl, rfl⟩
    · refine SameRest.trans ?_ ih
      exact ⟨rfl, rfl, rfl⟩

/-- The loop goes through exactly when all its requests are granted. -/
theorem requestSlots_true (is : List ℕ) : (requestSlots ans device board is s).2 = true ↔
    Granted ans s.vmeIrqTable (slotRequests device board is) := by
  induction is generalizing s with
  | nil => simp [requestSlots, slotRequests, Granted]
  | cons i is ih =>
    rw [requestSlots, slotRequests, List.map_cons, granted_cons]
    dsimp only
    split
    · rename_i hnone
      have hnot := vmeRequestIrq_eq_none (r := (vmodioIrqShift board.irq i, device, i)) hnone
      simp [hnot]
    · rename_i table hsome
      obtain ⟨hgrant, rfl⟩ := vmeRequestIrq_eq_some (r := (vmodioIrqShift board.irq i, device, i)) hsome
      rw [ih]
      exact (and_iff_right hgrant).symm

theorem requestSlots_done (is : List ℕ) (h : (requestSlots ans device board is s).2 = true) :
    SlotsDone device board is s (requestSlots ans device board is s).1 := by
  induction is generalizing s with
  | nil =>
    exact ⟨rfl,
      by
  simp [requestSlots, slotRequests], by simp [requestSlots], rfl, by simp [requestSlots], fun _ _ => rfl, rfl, rfl⟩
  | cons i is ih =>
    rw [requestSlots] at h ⊢
    dsimp only at h ⊢
    split at h
    · cases h
    · rename_i table hsome
      obtain ⟨-, rfl⟩ := vmeRequestIrq_eq_some (r := (vmodioIrqShift board.irq i, device, i)) hsome
      obtain ⟨htable, hrequested, hentries, hlun, hirqs, hothers, hirqToLun, hdevices⟩ := ih h
      refine ⟨htable, ?_, fun l j => ?_, ?_, fun j => ?_, fun d hd => ?_, hirqToLun, hdevices⟩
      · rw [hrequested]
        simp [slotRequests]
      · rw [hentries l j]
        dsimp only
        simp only [Function.update_apply, Prod.mk.injEq, List.mem_cons]
        by_cases hl : l = board.lun
        · by_cases hj : j ∈ is
          · simp [hl, hj]
          · by_cases hji : j = i
            · simp [hl, hji]
            · simp [hl, hj, hji]
        · simp [hl]
      · rw [hlun]
        dsimp only
        rw [Function.update_self]
      · rw [hirqs j]
        dsimp only
        simp only [Function.update_self, Function.update_apply, List.mem_cons]
        by_cases hj : j ∈ is
        · simp [hj]
        · by_cases hji : j = i
          · simp [hji]
          · simp [hj, hji]
      · rw [hothers d hd]
        exact Function.update_of_ne hd ..

/-- The vectors that the driver has are those it was given, whatever the load comes to. -/
def Owns (s : VmodioDriver C D) : Prop := ∀ v, (∃ d i, s.vmeIrqTable v = some (.vmodio d i)) ↔ v ∈ s.requested

theorem Owns.granted (h : Owns s) {r : ℤ × ℕ × ℕ} (htable : t.vmeIrqTable = grantTo s.vmeIrqTable r)
    (hrequested : t.requested = s.requested ++ [r.1.toNat]) : Owns t := by
  intro v
  rw [htable, hrequested, grantTo, Function.update_apply, List.mem_append, List.mem_singleton, ← h v]
  by_cases hv : v = r.1.toNat
  · simp [hv]
  · simp [hv]

theorem requestSlots_owns (is : List ℕ) (h : Owns s) :
    Owns (requestSlots ans device board is s).1 ∧ s.requested <+: (requestSlots ans device board is s).1.requested := by
  induction is generalizing s with
  | nil => exact ⟨h, List.prefix_refl _⟩
  | cons i is ih =>
    rw [requestSlots]
    dsimp only
    split
    · exact ⟨h, List.prefix_refl _⟩
    · rename_i table hsome
      obtain ⟨-, rfl⟩ := vmeRequestIrq_eq_some (r := (vmodioIrqShift board.irq i, device, i)) hsome
      refine ⟨(ih ?_).1, List.IsPrefix.trans ?_ (ih ?_).2⟩
      · exact h.granted (r := (vmodioIrqShift board.irq i, device, i)) rfl rfl
      · exact List.prefix_append _ _
      · exact h.granted (r := (vmodioIrqShift board.irq i, device, i)) rfl rfl

/-! ## All devices -/

/-- The last board with a key is the one whose entry stays. -/
def LastBoard {K : Type} (key : Board → K) (boards : List Board) (x : K) (k : ℕ) (b : Board) : Prop :=
  boards[k]? = some b ∧ key b = x ∧ ∀ k' b', k < k' → boards[k']? = some b' → key b' ≠ x

theorem LastBoard.cons {K : Type} {key : Board → K} {boards : List Board} {x : K} {k : ℕ} {b b' : Board}
    (h : LastBoard key boards x k b) : LastBoard key (b' :: boards) x (k + 1) b := by
  obtain ⟨hk, hx, hlater⟩ := h
  refine ⟨by rwa [List.getElem?_cons_succ], hx, fun k' c hlt hc => ?_⟩
  obtain ⟨m, rfl⟩ := Nat.exists_eq_succ_of_ne_zero (by omega : k' ≠ 0)
  rw [Nat.succ_eq_add_one, List.getElem?_cons_succ] at hc
  exact hlater m c (by omega) hc

theorem lastBoard_head {K : Type} {key : Board → K} {boards : List Board} {b : Board}
    (h : ∀ b' ∈ boards, key b' ≠ key b) : LastBoard key (b :: boards) (key b) 0 b := by
  refine ⟨rfl, rfl, fun k' c hlt hc => ?_⟩
  obtain ⟨m, rfl⟩ := Nat.exists_eq_succ_of_ne_zero (by omega : k' ≠ 0)
  rw [Nat.succ_eq_add_one, List.getElem?_cons_succ] at hc
  exact h c (List.mem_of_getElem? hc)

structure BoardsDone (device : ℕ) (boards : List Board) (s t : VmodioDriver C D) : Prop where
  table : t.vmeIrqTable = (requestsOf device boards).foldl grantTo s.vmeIrqTable
  requested : t.requested = s.requested ++ (requestsOf device boards).map (·.1.toNat)
  entries : ∀ l, ∀ j < vmodioSlots,
    (∃ k b, LastBoard Board.lun boards l k b ∧ t.lunSlotToIrq (l, j) = vmodioIrqShift b.irq j) ∨
      ((∀ b ∈ boards, b.lun ≠ l) ∧ t.lunSlotToIrq (l, j) = s.lunSlotToIrq (l, j))
  nibbles : ∀ n,
    (∃ k b, LastBoard (fun b => upperNibbleOf b.irq) boards n k b ∧ t.irqToLun n = b.lun) ∨
      ((∀ b ∈ boards, upperNibbleOf b.irq ≠ n) ∧ t.irqToLun n = s.irqToLun n)
  placed : ∀ k b, boards[k]? = some b → (t.deviceTable (device + k)).lun = b.lun ∧
    ∀ i < vmodioSlots, (t.deviceTable (device + k)).irq i = vmodioIrqShift b.irq i
  before : ∀ d < device, t.deviceTable d = s.deviceTable d
  devices : t.devices = s.devices + boards.length

theorem deviceInit_rest : SameRest s (deviceInit ans device board s).1 := by
  unfold deviceInit
  dsimp only
  split
  · exact ⟨rfl, rfl, rfl⟩
  · refine SameRest.trans ?_ (requestSlots_rest _)
    exact ⟨rfl, rfl, rfl⟩

theorem deviceInit_true : (deviceInit ans device board s).2 = true ↔
    ans.vaddr device ≠ -1 ∧ Granted ans s.vmeIrqTable (slotRequests device board (List.range vmodioSlots)) := by
  unfold deviceInit
  dsimp only
  split
  · rename_i hmap
    simp [hmap]
  · rename_i hmap
    rw [requestSlots_true]
    exact (and_iff_right hmap).symm

theorem deviceInit_owns (h : Owns s) :
    Owns (deviceInit ans device board s).1 ∧ s.requested <+: (deviceInit ans device board s).1.requested := by
  unfold deviceInit
  dsimp only
  split
  · exact ⟨h, List.prefix_refl _⟩
  · refine requestSlots_owns _ ?_
    exact h

theorem initDevices_rest (boards : List Board) : SameRest s (initDevices ans device boards s).1 := by
  induction boards generalizing device s with
  | nil => exact .refl s
  | cons b boards ih =>
    rw [initDevices]
    dsimp only
    split
    · have hfirst : SameRest s (deviceInit ans device b s).1 := deviceInit_rest
      refine SameRest.trans ?_ ih
      exact ⟨hfirst.carrier, hfirst.freed, hfirst.callbacks⟩
    · exact deviceInit_rest

theorem initDevices_owns (boards : List Board) (h : Owns s) :
    Owns (initDevices ans device boards s).1 ∧ s.requested <+: (initDevices ans device boards s).1.requested := by
  induction boards generalizing device s with
  | nil => exact ⟨h, List.prefix_refl _⟩
  | cons b boards ih =>
    have hfirst : Owns (deviceInit ans device b s).1 ∧ s.requested <+: (deviceInit ans device b s).1.requested :=
      deviceInit_owns h
    rw [initDevices]
    dsimp only
    split
    · refine ⟨(ih ?_).1, List.IsPrefix.trans ?_ (ih ?_).2⟩
      · exact hfirst.1
      · exact hfirst.2
      · exact hfirst.1
    · exact hfirst

theorem deviceInit_done (h : (deviceInit ans device board s).2 = true) :
    (deviceInit ans device board s).1.vmeIrqTable =
        (slotRequests device board (List.range vmodioSlots)).foldl grantTo s.vmeIrqTable ∧
      (deviceInit ans device board s).1.requested =
        s.requested ++ (slotRequests device board (List.range vmodioSlots)).map (·.1.toNat) ∧
      (∀ l, ∀ j < vmodioSlots, (deviceInit ans device board s).1.lunSlotToIrq (l, j) =
        if l = board.lun then vmodioIrqShift board.irq j else s.lunSlotToIrq (l, j)) ∧
      (deviceInit ans device board s).1.irqToLun = Function.update s.irqToLun (upperNibbleOf board.irq) board.lun ∧
      (((deviceInit ans device board s).1.deviceTable device).lun = board.lun ∧ ∀ i < vmodioSlots,
        ((deviceInit ans device board s).1.deviceTable device).irq i = vmodioIrqShift board.irq i) ∧
      (∀ d, d ≠ device → (deviceInit ans device board s).1.deviceTable d = s.deviceTable d) ∧
      (deviceInit ans device board s).1.devices = s.devices := by
  unfold deviceInit at *
  dsimp only at *
  split at h
  · cases h
  · rename_i hmap
    rw [if_neg hmap]
    obtain ⟨htable, hrequested, hentries, hlun, hirqs, hothers, hirqToLun, hdevices⟩ := requestSlots_done _ h
    refine ⟨htable, hrequested, fun l j hj => ?_, hirqToLun, ⟨?_, fun i hi => ?_⟩, fun d hd => ?_, hdevices⟩
    · rw [hentries l j]
      simp only [List.mem_range.mpr hj, and_true]
    · rw [hlun]
      dsimp only
      rw [Function.update_self]
    · rw [hirqs i, if_pos (List.mem_range.mpr hi)]
    · rw [hothers d hd]
      exact Function.update_of_ne hd ..

theorem initDevices_true (boards : List Board) : (initDevices ans device boards s).2 = true ↔
    (∀ k < boards.length, ans.vaddr (device + k) ≠ -1) ∧ Granted ans s.vmeIrqTable (requestsOf device boards) := by
  induction boards generalizing device s with
  | nil => simp [initDevices, requestsOf, Granted]
  | cons b boards ih =>
    have hmaps : (∀ k < (b :: boards).length, ans.vaddr (device + k) ≠ -1) ↔
        ans.vaddr device ≠ -1 ∧ ∀ k < boards.length, ans.vaddr (device + 1 + k) ≠ -1 := by
      rw [List.length_cons]
      constructor
      · intro h
        exact ⟨h 0 (by omega), fun k hk => by rw [Nat.add_assoc, Nat.add_comm 1 k]; exact h (k + 1) (by omega)⟩
      · rintro ⟨hfirst, hrest⟩ k hk
        cases k with
        | zero => exact hfirst
        | succ k =>
          rw [Nat.add_comm k 1, ← Nat.add_assoc]
          exact hrest k (by omega)
    rw [initDevices, requestsOf, granted_append, hmaps]
    dsimp only
    split
    · rename_i hok
      obtain ⟨hmap, hgranted⟩ := deviceInit_true.mp hok
      rw [ih, (deviceInit_done hok).1, and_iff_right hmap, and_iff_right hgranted]
    · rename_i hok
      have hnot : ¬ (ans.vaddr device ≠ -1 ∧
        Granted ans s.vmeIrqTable (slotRequests device b (List.range vmodioSlots))) := by
        rw [← deviceInit_true]
        exact hok
      constructor
      · intro hfalse
        cases hfalse
      · rintro ⟨⟨hmap, -⟩, hgranted, -⟩
        exact absurd ⟨hmap, hgranted⟩ hnot

theorem initDevices_done (boards : List Board) (h : (initDevices ans device boards s).2 = true) :
    BoardsDone device boards s (initDevices ans device boards s).1 := by
  induction boards generalizing device s with
  | nil =>
    refine ⟨rfl, by simp [initDevices, requestsOf], fun _ _ _ => .inr ⟨by simp, rfl⟩, fun _ => .inr ⟨by simp, rfl⟩, ?_,
      fun _ _ => rfl, rfl⟩
    intro k b hk
    cases hk
  | cons b boards ih =>
    rw [initDevices] at h ⊢
    dsimp only at h ⊢
    split at h
    swap
    · cases h
    rename_i hok
    rw [if_pos hok]
    obtain ⟨ftable, frequested, fentries, fnibbles, fplaced, fothers, fdevices⟩ := deviceInit_done hok
    obtain ⟨htable, hrequested, hentries, hnibbles, hplaced, hbefore, hdevices⟩ := ih h
    dsimp only at htable hrequested hentries hnibbles hbefore hdevices
    refine ⟨?_, ?_, fun l j hj => ?_, fun n => ?_, fun k c hc => ?_, fun d hd => ?_, ?_⟩
    · rw [htable, ftable, requestsOf, List.foldl_append]
    · rw [hrequested, frequested, requestsOf, List.map_append, List.append_assoc]
    · rcases hentries l j hj with ⟨k, c, hlast, hval⟩ | ⟨hnone, hval⟩
      · exact .inl ⟨k + 1, c, hlast.cons, hval⟩
      · have hval := hval.trans (fentries l j hj)
        by_cases hl : l = b.lun
        · subst hl
          rw [if_pos rfl] at hval
          exact .inl ⟨0, b, lastBoard_head hnone, hval⟩
        · rw [if_neg hl] at hval
          exact .inr ⟨List.forall_mem_cons.mpr ⟨fun heq => hl heq.symm, hnone⟩, hval⟩
    · rcases hnibbles n with ⟨k, c, hlast, hval⟩ | ⟨hnone, hval⟩
      · exact .inl ⟨k + 1, c, hlast.cons, hval⟩
      · have hval := hval.trans (congrFun fnibbles n)
        rw [Function.update_apply] at hval
        by_cases hn : n = upperNibbleOf b.irq
        · subst hn
          rw [if_pos rfl] at hval
          exact .inl ⟨0, b, lastBoard_head hnone, hval⟩
        · rw [if_neg hn] at hval
          exact .inr ⟨List.forall_mem_cons.mpr ⟨fun heq => hn heq.symm, hnone⟩, hval⟩
    · cases k with
      | zero =>
        obtain rfl : b = c := Option.some.inj hc
        rw [show device + 0 = device from rfl, hbefore device (by omega)]
        exact fplaced
      | succ k =>
        rw [Nat.add_comm k 1, ← Nat.add_assoc]
        exact hplaced k c (by rwa [List.getElem?_cons_succ] at hc)
    · rw [hbefore d (by omega), fothers d (by omega)]
    · rw [hdevices, fdevices, List.length_cons]
      omega

/-! ## The whole load -/

/-- The parameters that `init` goes on with. -/
def Accepted (lun : List ℤ) (baseAddress : List (BitVec 64)) (irq : List ℤ) : Prop :=
  lun.length < maxDevices ∧ lun.length = baseAddress.length ∧ lun.length = irq.length

/-- The driver before its loop over the devices. -/
def registered (s : VmodioDriver C D) : VmodioDriver C D :=
  { s with irqToLun := fun _ => -1, lunSlotToIrq := fun _ => -1, carrier := true, devices := 0 }

variable {lun irq : List ℤ} {baseAddress : List (BitVec 64)}

theorem init_cases (ans : Answers) (lun : List ℤ) (baseAddress : List (BitVec 64)) (irq : List ℤ)
    (s : VmodioDriver C D) : ((¬ Accepted lun baseAddress irq ∨ ans.registered = false) ∧
      init ans lun baseAddress irq s = ({ s with irqToLun := fun _ => -1, lunSlotToIrq := fun _ => -1 }, false)) ∨
    (Accepted lun baseAddress irq ∧ ans.registered = true ∧ init ans lun baseAddress irq s =
      if (initDevices ans 0 (boardsOf lun baseAddress irq) (registered s)).2 = true then
        ((initDevices ans 0 (boardsOf lun baseAddress irq) (registered s)).1, true)
      else ({ (initDevices ans 0 (boardsOf lun baseAddress irq) (registered s)).1 with carrier := false }, false)) := by
  unfold init Accepted
  dsimp only
  by_cases hmany : maxDevices ≤ lun.length
  · rw [if_pos hmany]
    exact .inl ⟨.inl fun h => absurd h.1 (not_lt.mpr hmany), rfl⟩
  rw [if_neg hmany]
  by_cases hlengths : lun.length ≠ baseAddress.length ∨ lun.length ≠ irq.length
  · rw [if_pos hlengths]
    exact .inl ⟨.inl fun h => hlengths.elim (fun hne => hne h.2.1) fun hne => hne h.2.2, rfl⟩
  rw [if_neg hlengths]
  rw [not_or, not_not, not_not] at hlengths
  by_cases hname : ans.registered = true
  · rw [if_neg (not_not.mpr hname)]
    exact .inr ⟨⟨not_le.mp hmany, hlengths.1, hlengths.2⟩, hname, rfl⟩
  · rw [if_pos hname]
    exact .inl ⟨.inr (Bool.eq_false_iff.mpr hname), rfl⟩

theorem init_true : (init ans lun baseAddress irq s).2 = true ↔ Accepted lun baseAddress irq ∧ ans.registered = true ∧
    (initDevices ans 0 (boardsOf lun baseAddress irq) (registered s)).2 = true := by
  rcases init_cases ans lun baseAddress irq s with ⟨hnot, hinit⟩ | ⟨haccepted, hname, hinit⟩
  · rw [hinit]
    constructor
    · intro hfalse
      cases hfalse
    · rintro ⟨haccepted, hname, -⟩
      rcases hnot with hnot | hnot
      · exact absurd haccepted hnot
      · rw [hname] at hnot
        cases hnot
  · rw [hinit, and_iff_right haccepted, and_iff_right hname]
    split
    · rename_i hok
      exact iff_of_true rfl hok
    · rename_i hok
      exact iff_of_false (fun hfalse => by cases hfalse) hok

theorem init_done (h : (init ans lun baseAddress irq s).2 = true) :
    (init ans lun baseAddress irq s).1 = (initDevices ans 0 (boardsOf lun baseAddress irq) (registered s)).1 := by
  obtain ⟨haccepted, hname, hok⟩ := init_true.mp h
  rcases init_cases ans lun baseAddress irq s with ⟨hnot, hinit⟩ | ⟨-, -, hinit⟩
  · rw [hinit] at h
    cases h
  · rw [hinit, if_pos hok]

theorem init_boards (h : (init ans lun baseAddress irq s).2 = true) :
    BoardsDone 0 (boardsOf lun baseAddress irq) (registered s) (init ans lun baseAddress irq s).1 := by
  rw [init_done h]
  exact initDevices_done _ (init_true.mp h).2.2

theorem boardsOf_lun (h : Accepted lun baseAddress irq) : (boardsOf lun baseAddress irq).map Board.lun = lun := by
  obtain ⟨-, hbase, hirq⟩ := h
  unfold boardsOf
  rw [List.map_map]
  have hfst : (Board.lun ∘ fun p : ℤ × BitVec 64 × ℤ => (⟨p.1, p.2.1, p.2.2⟩ : Board)) = Prod.fst := rfl
  rw [hfst, List.map_fst_zip]
  rw [List.length_zip]
  omega

theorem boardsOf_irq (h : Accepted lun baseAddress irq) : (boardsOf lun baseAddress irq).map Board.irq = irq := by
  obtain ⟨-, hbase, hirq⟩ := h
  unfold boardsOf
  rw [List.map_map]
  have hsnd : (Board.irq ∘ fun p : ℤ × BitVec 64 × ℤ => (⟨p.1, p.2.1, p.2.2⟩ : Board)) = Prod.snd ∘ Prod.snd := rfl
  rw [hsnd, ← List.map_map, List.map_snd_zip, List.map_snd_zip]
  · omega
  · rw [List.length_zip]
    omega

/-- A request is the one of a slot of some board. -/
theorem mem_requestsOf {boards : List Board} {r : ℤ × ℕ × ℕ} : r ∈ requestsOf device boards ↔
    ∃ k b i, boards[k]? = some b ∧ i < vmodioSlots ∧ r = (vmodioIrqShift b.irq i, device + k, i) := by
  induction boards generalizing device with
  | nil => simp [requestsOf]
  | cons b boards ih =>
    rw [requestsOf, List.mem_append, ih, slotRequests, List.mem_map]
    constructor
    · rintro (⟨i, hi, rfl⟩ | ⟨k, c, i, hk, hi, rfl⟩)
      · exact ⟨0, b, i, rfl, List.mem_range.mp hi, rfl⟩
      · refine ⟨k + 1, c, i, by rwa [List.getElem?_cons_succ], hi, ?_⟩
        rw [Nat.add_assoc, Nat.add_comm 1 k]
    · rintro ⟨k, c, i, hk, hi, rfl⟩
      cases k with
      | zero =>
        obtain rfl : b = c := Option.some.inj hk
        exact .inl ⟨i, List.mem_range.mpr hi, rfl⟩
      | succ k =>
        refine .inr ⟨k, c, i, by rwa [List.getElem?_cons_succ] at hk, hi, ?_⟩
        rw [Nat.add_assoc, Nat.add_comm 1 k]

end Load

/-! ## A first load -/

/-- The driver before its first load, on a bridge without handlers. -/
def unloaded : VmodioDriver ℕ ℕ where
  irqToLun := fun _ => 0
  lunSlotToIrq := fun _ => 0
  deviceTable := fun _ => ⟨0, 0, 0, fun _ => 0⟩
  devices := 0
  mezzaninesCallback := fun _ => ⟨none, none⟩
  vmeIrqTable := fun _ => none
  carrier := false
  requested := []
  freed := []

/-- All calls of the load succeed. -/
def willing : Answers := ⟨fun _ => 0, fun _ _ => false, fun _ => false, true⟩

end HtDrivers.Vmod
