import HtDrivers.Vmod.VmodioInit

/-! What the VMOD/IO driver leaves in the table of the bridge when its load fails, and after its unload. -/
namespace HtDrivers.Vmod
set_option autoImplicit false

/-! ## The loops of `exit` -/

section Exit
variable {C D : Type} {ans : Answers} {s : VmodioDriver C D}

/-- The loops come to the release of the vector, and it is not interrupted. -/
def Releases (ans : Answers) (s : VmodioDriver C D) (e : ℤ × ℕ) : Prop :=
  0 ≤ s.lunSlotToIrq e ∧ ans.freeInterrupted e = false

instance (ans : Answers) (s : VmodioDriver C D) (e : ℤ × ℕ) : Decidable (Releases ans s e) :=
  inferInstanceAs (Decidable (_ ∧ _))

/-- The vectors of the entries that are released. -/
def vectorsOf (ans : Answers) (s : VmodioDriver C D) (es : List (ℤ × ℕ)) : List ℕ :=
  (es.filter fun e => Releases ans s e).map fun e => (s.lunSlotToIrq e).toNat

theorem mem_vectorsOf {es : List (ℤ × ℕ)} {v : ℕ} :
    v ∈ vectorsOf ans s es ↔ ∃ e ∈ es, Releases ans s e ∧ (s.lunSlotToIrq e).toNat = v := by
  simp only [vectorsOf, List.mem_map, List.mem_filter, decide_eq_true_iff, and_assoc]

theorem mem_lunSlots {e : ℤ × ℕ} : e ∈ lunSlots ↔ (0 ≤ e.1 ∧ e.1 < maxDevices) ∧ e.2 < vmodioSlots := by
  obtain ⟨l, j⟩ := e
  unfold lunSlots
  simp only [List.mem_flatMap, List.mem_map, List.mem_range, Prod.mk.injEq]
  constructor
  · rintro ⟨i, hi, j', hj, rfl, rfl⟩
    exact ⟨⟨by omega, by omega⟩, hj⟩
  · rintro ⟨⟨hnonneg, hlt⟩, hj⟩
    exact ⟨l.toNat, by omega, j, hj, by omega, rfl⟩

theorem lunSlots_nodup : lunSlots.Nodup := by decide

theorem freeEntry_entries (s : VmodioDriver C D) (e : ℤ × ℕ) : (freeEntry ans s e).lunSlotToIrq = s.lunSlotToIrq := by
  unfold freeEntry
  split
  · split
    · rfl
    · rfl
  · rfl

theorem releases_freeEntry (e e' : ℤ × ℕ) : Releases ans (freeEntry ans s e) e' ↔ Releases ans s e' := by
  unfold Releases
  rw [freeEntry_entries]

theorem vectorsOf_freeEntry (e : ℤ × ℕ) (es : List (ℤ × ℕ)) :
    vectorsOf ans (freeEntry ans s e) es = vectorsOf ans s es := by
  unfold vectorsOf
  simp only [releases_freeEntry, freeEntry_entries]

theorem freeEntry_free {e : ℤ × ℕ} (hreleases : Releases ans s e) (hlt : s.lunSlotToIrq e < vmeNumVectors)
    (hsome : (s.vmeIrqTable (s.lunSlotToIrq e).toNat).isSome) : freeEntry ans s e =
      { s with vmeIrqTable := Function.update s.vmeIrqTable (s.lunSlotToIrq e).toNat none
               freed := s.freed ++ [(s.lunSlotToIrq e).toNat] } := by
  have hnonneg := hreleases.1
  have hfree : vmeFreeIrq s.vmeIrqTable (s.lunSlotToIrq e) (ans.freeInterrupted e) =
      some (Function.update s.vmeIrqTable (s.lunSlotToIrq e).toNat none) := by
    unfold vmeFreeIrq
    rw [if_neg (by omega), if_neg (by simp [hreleases.2]), if_neg (by simpa using Option.isSome_iff_ne_none.mp hsome)]
  unfold freeEntry
  rw [if_pos hnonneg, hfree]

theorem freeEntry_skip {e : ℤ × ℕ} (hskip : ¬Releases ans s e) : freeEntry ans s e = s := by
  unfold freeEntry
  split
  · rename_i hnonneg
    have hinterrupted : ans.freeInterrupted e = true := by
      rw [← Bool.not_eq_false]
      exact fun hnot => hskip ⟨hnonneg, hnot⟩
    have hnone : vmeFreeIrq s.vmeIrqTable (s.lunSlotToIrq e) (ans.freeInterrupted e) = none := by
      unfold vmeFreeIrq
      rw [hinterrupted, if_pos rfl, ite_self]
    rw [hnone]
  · rfl

theorem freeEntry_other {e : ℤ × ℕ} {v : ℕ} (hv : Releases ans s e → (s.lunSlotToIrq e).toNat ≠ v) :
    (freeEntry ans s e).vmeIrqTable v = s.vmeIrqTable v := by
  by_cases hreleases : Releases ans s e
  · unfold freeEntry
    rw [if_pos hreleases.1]
    split
    · rename_i table hfree
      unfold vmeFreeIrq at hfree
      obtain ⟨-, hfree⟩ := Option.ite_none_left_eq_some.mp hfree
      obtain ⟨-, hfree⟩ := Option.ite_none_left_eq_some.mp hfree
      obtain ⟨-, hfree⟩ := Option.ite_none_left_eq_some.mp hfree
      rw [← Option.some.inj hfree]
      exact Function.update_of_ne (hv hreleases).symm ..
    · rfl
  · rw [freeEntry_skip hreleases]

theorem freeEntries_other {es : List (ℤ × ℕ)} {v : ℕ} (hv : v ∉ vectorsOf ans s es) :
    (es.foldl (freeEntry ans) s).vmeIrqTable v = s.vmeIrqTable v := by
  induction es generalizing s with
  | nil => rfl
  | cons e es ih =>
    have hhead : Releases ans s e → (s.lunSlotToIrq e).toNat ≠ v := by
      intro hreleases heq
      exact hv (mem_vectorsOf.mpr ⟨e, List.mem_cons_self, hreleases, heq⟩)
    have htail : v ∉ vectorsOf ans (freeEntry ans s e) es := by
      rw [vectorsOf_freeEntry]
      intro hmem
      obtain ⟨e', he', hval⟩ := mem_vectorsOf.mp hmem
      exact hv (mem_vectorsOf.mpr ⟨e', List.mem_cons_of_mem _ he', hval⟩)
    rw [List.foldl_cons, ih htail, freeEntry_other hhead]

/-- Distinct vectors that are all in use are freed one by one. -/
theorem freeEntries_free {es : List (ℤ × ℕ)} (hused : ∀ e ∈ es, Releases ans s e →
    s.lunSlotToIrq e < vmeNumVectors ∧ (s.vmeIrqTable (s.lunSlotToIrq e).toNat).isSome)
    (hnodup : (vectorsOf ans s es).Nodup) :
    (es.foldl (freeEntry ans) s).freed = s.freed ++ vectorsOf ans s es ∧
      ∀ v ∈ vectorsOf ans s es, (es.foldl (freeEntry ans) s).vmeIrqTable v = none := by
  induction es generalizing s with
  | nil => exact ⟨(List.append_nil _).symm, fun v hv => by cases hv⟩
  | cons e es ih =>
    rw [List.forall_mem_cons] at hused
    rw [List.foldl_cons]
    have hsame : vectorsOf ans (freeEntry ans s e) es = vectorsOf ans s es := vectorsOf_freeEntry e es
    by_cases hreleases : Releases ans s e
    · obtain ⟨hlt, hsome⟩ := hused.1 hreleases
      have hvectors : vectorsOf ans s (e :: es) = (s.lunSlotToIrq e).toNat :: vectorsOf ans s es := by
        unfold vectorsOf
        rw [List.filter_cons_of_pos (by simpa using hreleases), List.map_cons]
      rw [hvectors, List.nodup_cons] at hnodup
      have hfree := freeEntry_free hreleases hlt hsome
      have hrest : ∀ e' ∈ es, Releases ans (freeEntry ans s e) e' →
          (freeEntry ans s e).lunSlotToIrq e' < vmeNumVectors ∧
            ((freeEntry ans s e).vmeIrqTable ((freeEntry ans s e).lunSlotToIrq e').toNat).isSome := by
        intro e' he' hreleases'
        rw [releases_freeEntry] at hreleases'
        obtain ⟨hlt', hsome'⟩ := hused.2 e' he' hreleases'
        rw [freeEntry_entries]
        refine ⟨hlt', ?_⟩
        rw [freeEntry_other]
        · exact hsome'
        · intro _ heq
          exact hnodup.1 (mem_vectorsOf.mpr ⟨e', he', hreleases', heq.symm⟩)
      obtain ⟨hfreed, htable⟩ := ih hrest (hsame.symm ▸ hnodup.2)
      rw [hsame] at hfreed htable
      rw [hvectors]
      constructor
      · rw [hfreed, hfree, List.append_assoc]
        rfl
      · rw [List.forall_mem_cons]
        refine ⟨?_, htable⟩
        rw [freeEntries_other (hsame.symm ▸ hnodup.1), hfree]
        exact Function.update_self ..
    · have hvectors : vectorsOf ans s (e :: es) = vectorsOf ans s es := by
        unfold vectorsOf
        rw [List.filter_cons_of_neg (by simpa using hreleases)]
      rw [hvectors] at hnodup ⊢
      rw [freeEntry_skip hreleases]
      exact ih hused.2 hnodup

theorem exit_freed (s : VmodioDriver C D) : (exit ans s).freed = (lunSlots.foldl (freeEntry ans) s).freed := by
  unfold exit
  dsimp only

theorem exit_table (s : VmodioDriver C D) :
    (exit ans s).vmeIrqTable = (lunSlots.foldl (freeEntry ans) s).vmeIrqTable := by
  unfold exit
  dsimp only

end Exit

/-! ## Unload after a load -/

section Unload
variable {C D : Type} {ans : Answers} {s : VmodioDriver C D} {lun irq : List ℤ} {baseAddress : List (BitVec 64)}

theorem init_granted (h : (init ans lun baseAddress irq s).2 = true) :
    Granted ans s.vmeIrqTable (requestsOf 0 (boardsOf lun baseAddress irq)) :=
  ((initDevices_true _).mp (init_true.mp h).2.2).2

theorem init_requested (h : (init ans lun baseAddress irq s).2 = true) (hnone : s.requested = []) :
    (init ans lun baseAddress irq s).1.requested = (requestsOf 0 (boardsOf lun baseAddress irq)).map (·.1.toNat) := by
  rw [(init_boards h).requested]
  exact (congrArg (· ++ _) hnone).trans (List.nil_append _)

/-- What `exit` finds in an entry is the vector of the last board with the lun. -/
theorem init_entry (h : (init ans lun baseAddress irq s).2 = true) {e : ℤ × ℕ} (he : e ∈ lunSlots)
    (hnonneg : 0 ≤ (init ans lun baseAddress irq s).1.lunSlotToIrq e) :
    ∃ k b, LastBoard Board.lun (boardsOf lun baseAddress irq) e.1 k b ∧
      (init ans lun baseAddress irq s).1.lunSlotToIrq e = vmodioIrqShift b.irq e.2 ∧
      (vmodioIrqShift b.irq e.2, 0 + k, e.2) ∈ requestsOf 0 (boardsOf lun baseAddress irq) := by
  have hslot := (mem_lunSlots.mp he).2
  rcases (init_boards h).entries e.1 e.2 hslot with ⟨k, b, hlast, hval⟩ | ⟨-, hval⟩
  · exact ⟨k, b, hlast, hval, mem_requestsOf.mpr ⟨k, b, e.2, hlast.1, hslot, rfl⟩⟩
  · have hminus : (init ans lun baseAddress irq s).1.lunSlotToIrq e = -1 := hval
    omega

/-- Requests of one vector are the same request. -/
theorem granted_inj {table : ℕ → Option VmeHandler} {rs : List (ℤ × ℕ × ℕ)} (h : Granted ans table rs) {r q : ℤ × ℕ × ℕ}
    (hr : r ∈ rs) (hq : q ∈ rs) (heq : r.1.toNat = q.1.toNat) : r = q := by
  have hnonneg := (h.1 r hr).1
  have hnonneg' := (h.1 q hq).1
  exact List.inj_on_of_nodup_map h.2 hr hq (by omega)

theorem granted_place {table : ℕ → Option VmeHandler} {rs : List (ℤ × ℕ × ℕ)} (h : Granted ans table rs) {x y : ℤ}
    {k k' j j' : ℕ} (hr : (x, 0 + k, j) ∈ rs) (hq : (y, 0 + k', j') ∈ rs) (heq : x.toNat = y.toNat) : k = k' ∧
    j = j' := by
  have hsame := granted_inj h hr hq heq
  rw [Prod.mk.injEq, Prod.mk.injEq] at hsame
  exact ⟨by omega, hsame.2.2⟩

theorem init_vectors_nodup (h : (init ans lun baseAddress irq s).2 = true) :
    (vectorsOf ans (init ans lun baseAddress irq s).1 lunSlots).Nodup := by
  refine List.Nodup.map_on (fun e he e' he' heq => ?_) (lunSlots_nodup.filter _)
  obtain ⟨hmem, hreleases⟩ := List.mem_filter.mp he
  obtain ⟨hmem', hreleases'⟩ := List.mem_filter.mp he'
  obtain ⟨k, b, hlast, hval, hrequest⟩ := init_entry h hmem (of_decide_eq_true hreleases).1
  obtain ⟨k', b', hlast', hval', hrequest'⟩ := init_entry h hmem' (of_decide_eq_true hreleases').1
  rw [hval, hval'] at heq
  obtain ⟨hk, hj⟩ := granted_place (init_granted h) hrequest hrequest' heq
  have hb : b = b' := Option.some.inj (hlast.1.symm.trans (hk ▸ hlast'.1))
  exact Prod.ext (hlast.2.1.symm.trans ((congrArg Board.lun hb).trans hlast'.2.1)) hj

/-- What `exit` frees after a load. -/
theorem exit_done (h : (init ans lun baseAddress irq s).2 = true) (hfreed : s.freed = []) :
    (exit ans (init ans lun baseAddress irq s).1).freed = vectorsOf ans (init ans lun baseAddress irq s).1 lunSlots ∧
      (∀ v ∈ vectorsOf ans (init ans lun baseAddress irq s).1 lunSlots,
        (exit ans (init ans lun baseAddress irq s).1).vmeIrqTable v = none) ∧
      ∀ v ∉ vectorsOf ans (init ans lun baseAddress irq s).1 lunSlots,
        (exit ans (init ans lun baseAddress irq s).1).vmeIrqTable v =
        (init ans lun baseAddress irq s).1.vmeIrqTable v := by
  have hused : ∀ e ∈ lunSlots, Releases ans (init ans lun baseAddress irq s).1 e →
      (init ans lun baseAddress irq s).1.lunSlotToIrq e < vmeNumVectors ∧
        ((init ans lun baseAddress irq s).1.vmeIrqTable
          ((init ans lun baseAddress irq s).1.lunSlotToIrq e).toNat).isSome := by
    intro e he hreleases
    obtain ⟨k, b, -, hval, hrequest⟩ := init_entry h he hreleases.1
    rw [hval]
    refine ⟨((init_granted h).1 _ hrequest).2.1, ?_⟩
    have htable := grants_mem (init_granted h) hrequest
    rw [(init_boards h).table]
    exact Option.isSome_iff_exists.mpr ⟨_, htable⟩
  obtain ⟨hlist, htable⟩ := freeEntries_free hused (init_vectors_nodup h)
  have hnone : (init ans lun baseAddress irq s).1.freed = [] := by
    rw [init_done h, (initDevices_rest _).freed]
    exact hfreed
  rw [hnone, List.nil_append] at hlist
  rw [exit_freed, exit_table]
  exact ⟨hlist, htable, fun v hv => freeEntries_other hv⟩

/-- With distinct luns in range, and no release of theirs interrupted, `exit` frees every vector that was requested. -/
theorem mem_vectorsOf_init (h : (init ans lun baseAddress irq s).2 = true) (hnone : s.requested = []) :
    (∀ v ∈ (init ans lun baseAddress irq s).1.requested,
      v ∈ vectorsOf ans (init ans lun baseAddress irq s).1 lunSlots) ↔ lun.Nodup ∧ (∀ l ∈ lun, 0 ≤ l ∧ l < maxDevices) ∧
        ∀ l ∈ lun, ∀ slot < vmodioSlots, ans.freeInterrupted (l, slot) = false := by
  have hlun := boardsOf_lun (init_true.mp h).1
  rw [init_requested h hnone]
  constructor
  · intro hall
    -- a board whose vectors are found is the last one with its lun
    have hlast : ∀ k b, (boardsOf lun baseAddress irq)[k]? = some b → ∀ slot < vmodioSlots,
        LastBoard Board.lun (boardsOf lun baseAddress irq) b.lun k b ∧ (0 ≤ b.lun ∧ b.lun < maxDevices) ∧
          ans.freeInterrupted (b.lun, slot) = false := by
      intro k b hk slot hslot
      have hrequest : (vmodioIrqShift b.irq slot, 0 + k, slot) ∈ requestsOf 0 (boardsOf lun baseAddress irq) :=
        mem_requestsOf.mpr ⟨k, b, slot, hk, hslot, rfl⟩
      obtain ⟨⟨l, j⟩, he, hreleases, hv⟩ := mem_vectorsOf.mp (hall _ (List.mem_map_of_mem hrequest))
      obtain ⟨k', b', hlast, hval, hrequest'⟩ := init_entry h he hreleases.1
      rw [hval] at hv
      obtain ⟨rfl, rfl⟩ := granted_place (init_granted h) hrequest' hrequest hv
      obtain rfl : b' = b := Option.some.inj (hlast.1.symm.trans hk)
      rw [hlast.2.1]
      exact ⟨hlast, (mem_lunSlots.mp he).1, hreleases.2⟩
    have hboard : ∀ l ∈ lun, ∃ (k : ℕ) (b : Board), (boardsOf lun baseAddress irq)[k]? = some b ∧ b.lun = l := by
      intro l hl
      rw [← hlun] at hl
      obtain ⟨b, hb, rfl⟩ := List.mem_map.mp hl
      obtain ⟨k, hk⟩ := List.mem_iff_getElem?.mp hb
      exact ⟨k, b, hk, rfl⟩
    constructor
    · rw [← hlun, List.Nodup, List.pairwise_map, List.pairwise_iff_getElem]
      intro i j hi hj hij heq
      have hi' := List.getElem?_eq_getElem hi
      exact (hlast i _ hi' 0 (Nat.succ_pos 3)).1.2.2 j _ hij (List.getElem?_eq_getElem hj) heq.symm
    · constructor
      · intro l hl
        obtain ⟨k, b, hk, rfl⟩ := hboard l hl
        exact (hlast k b hk 0 (Nat.succ_pos 3)).2.1
      · intro l hl slot hslot
        obtain ⟨k, b, hk, rfl⟩ := hboard l hl
        exact (hlast k b hk slot hslot).2.2
  · rintro ⟨hnodup, hrange, hreleased⟩ v hv
    obtain ⟨r, hr, rfl⟩ := List.mem_map.mp hv
    obtain ⟨k, b, i, hk, hi, rfl⟩ := mem_requestsOf.mp hr
    have hb := List.mem_of_getElem? hk
    have hbl : b.lun ∈ lun := by
      rw [← hlun]
      exact List.mem_map_of_mem hb
    rw [← hlun] at hnodup
    have hentry : (init ans lun baseAddress irq s).1.lunSlotToIrq (b.lun, i) = vmodioIrqShift b.irq i := by
      rcases (init_boards h).entries b.lun i hi with ⟨k', b', hlast, hval⟩ | ⟨hno, -⟩
      · rw [List.inj_on_of_nodup_map hnodup (List.mem_of_getElem? hlast.1) hb hlast.2.1] at hval
        exact hval
      · exact absurd rfl (hno b hb)
    have hnonneg := ((init_granted h).1 _ hr).1
    refine mem_vectorsOf.mpr ⟨(b.lun, i), mem_lunSlots.mpr ⟨hrange _ hbl, hi⟩, ⟨?_, hreleased _ hbl i hi⟩, ?_⟩
    · rw [hentry]
      exact hnonneg
    · rw [hentry]

/-! ## A load that stops -/

/-- The first call of the first board fails. -/
def FirstCallFails (ans : Answers) (table : ℕ → Option VmeHandler) (boards : List Board) : Prop :=
  ∃ b, boards.head? = some b ∧ (ans.vaddr 0 = -1 ∨ ¬ Grantable ans table (vmodioIrqShift b.irq 0, 0, 0))

theorem range_slots : List.range vmodioSlots = 0 :: [1, 2, 3] := rfl

theorem deviceInit_refused {board : Board}
    (h : ans.vaddr 0 = -1 ∨ ¬ Grantable ans s.vmeIrqTable (vmodioIrqShift board.irq 0, 0, 0)) :
    (deviceInit ans 0 board s).2 = false ∧ (deviceInit ans 0 board s).1.requested = s.requested := by
  unfold deviceInit
  dsimp only
  split
  · exact ⟨rfl, rfl⟩
  · rename_i hmap
    rw [range_slots, requestSlots]
    dsimp only
    split
    · exact ⟨rfl, rfl⟩
    · rename_i table hsome
      have hgrant := (vmeRequestIrq_eq_some (r := (vmodioIrqShift board.irq 0, 0, 0)) hsome).1
      exact absurd hgrant (h.resolve_left hmap)

theorem deviceInit_granted {board : Board} (howns : Owns s) (hmap : ans.vaddr 0 ≠ -1)
    (hgrant : Grantable ans s.vmeIrqTable (vmodioIrqShift board.irq 0, 0, 0)) :
    (vmodioIrqShift board.irq 0).toNat ∈ (deviceInit ans 0 board s).1.requested := by
  unfold deviceInit
  dsimp only
  rw [if_neg hmap, range_slots, requestSlots]
  dsimp only
  split
  · rename_i hnone
    exact absurd hgrant (vmeRequestIrq_eq_none (r := (vmodioIrqShift board.irq 0, 0, 0)) hnone)
  · rename_i table hsome
    obtain ⟨-, rfl⟩ := vmeRequestIrq_eq_some (r := (vmodioIrqShift board.irq 0, 0, 0)) hsome
    refine List.IsPrefix.mem ?_ (requestSlots_owns _ ?_).2
    · exact List.mem_append_right _ List.mem_cons_self
    · exact howns.granted (r := (vmodioIrqShift board.irq 0, 0, 0)) rfl rfl

/-- A load that stops has asked for nothing, or it keeps what it was given. -/
theorem initDevices_requested {boards : List Board} (howns : Owns s) (hnone : s.requested = [])
    (hfail : (initDevices ans 0 boards s).2 = false) :
    (initDevices ans 0 boards s).1.requested = [] ↔ FirstCallFails ans s.vmeIrqTable boards := by
  cases boards with
  | nil => cases hfail
  | cons b boards =>
    constructor
    · intro hempty
      refine ⟨b, rfl, ?_⟩
      by_contra hgood
      rw [not_or, not_not] at hgood
      have hfirst := deviceInit_granted howns hgood.1 hgood.2
      have hkept : ∀ t : VmodioDriver C D, Owns t → (vmodioIrqShift b.irq 0).toNat ∈ t.requested →
          (vmodioIrqShift b.irq 0).toNat ∈ (initDevices ans (0 + 1) boards t).1.requested :=
        fun t ht hv => List.IsPrefix.mem hv (initDevices_owns boards ht).2
      have hmem : (vmodioIrqShift b.irq 0).toNat ∈ (initDevices ans 0 (b :: boards) s).1.requested := by
        rw [initDevices]
        dsimp only
        split
        · apply hkept
          · exact (deviceInit_owns howns).1
          · exact hfirst
        · exact hfirst
      rw [hempty] at hmem
      cases hmem
    · rintro ⟨b', hb', hrefused⟩
      obtain rfl : b = b' := Option.some.inj hb'
      obtain ⟨hok, hrequested⟩ := deviceInit_refused hrefused
      rw [initDevices]
      dsimp only
      rw [hok, if_neg Bool.false_ne_true, hrequested]
      exact hnone

/-! ## What stays -/

/-- The driver has no vector and the carrier no name. -/
structure NothingLeft (s : VmodioDriver C D) : Prop where
  vectors : ∀ v d i, s.vmeIrqTable v ≠ some (.vmodio d i)
  name : s.carrier = false

/-- Before its load the driver has nothing. -/
structure Fresh (s : VmodioDriver C D) : Prop where
  left : NothingLeft s
  requested : s.requested = []
  freed : s.freed = []

theorem Fresh.owns (h : Fresh s) : Owns (registered s) := by
  intro v
  refine iff_of_false ?_ ?_
  · rintro ⟨d, i, htable⟩
    exact h.left.vectors v d i htable
  · intro hmem
    have hempty : v ∈ s.requested := hmem
    rw [h.requested] at hempty
    cases hempty

theorem nothingLeft_iff (howns : Owns s) (hname : s.carrier = false) : NothingLeft s ↔ s.requested = [] := by
  constructor
  · intro h
    apply List.eq_nil_iff_forall_not_mem.mpr
    intro v hv
    obtain ⟨d, i, htable⟩ := (howns v).mpr hv
    exact h.vectors v d i htable
  · intro h
    refine ⟨fun v d i htable => ?_, hname⟩
    have hv := (howns v).mp ⟨d, i, htable⟩
    rw [h] at hv
    cases hv

structure LeavesNothing (ans : Answers) (lun : List ℤ) (baseAddress : List (BitVec 64)) (irq : List ℤ)
    (s : VmodioDriver C D) : Prop where
  failed : (init ans lun baseAddress irq s).2 = false → NothingLeft (init ans lun baseAddress irq s).1
  left : (init ans lun baseAddress irq s).2 = true → NothingLeft (exit ans (init ans lun baseAddress irq s).1)
  once : (init ans lun baseAddress irq s).2 = true →
    (exit ans (init ans lun baseAddress irq s).1).freed.Perm (init ans lun baseAddress irq s).1.requested
  others : (init ans lun baseAddress irq s).2 = true → ∀ v owner, s.vmeIrqTable v = some (.other owner) →
    (exit ans (init ans lun baseAddress irq s).1).vmeIrqTable v = some (.other owner)

/-- All calls of the load succeed. -/
def NoCallFails (ans : Answers) (table : ℕ → Option VmeHandler) (boards : List Board) : Prop :=
  (∀ k < boards.length, ans.vaddr k ≠ -1) ∧ Granted ans table (requestsOf 0 boards)

theorem init_succeeds (haccepted : Accepted lun baseAddress irq) (hname : ans.registered = true) :
    (init ans lun baseAddress irq s).2 = true ↔ NoCallFails ans s.vmeIrqTable (boardsOf lun baseAddress irq) := by
  rw [init_true, and_iff_right haccepted, and_iff_right hname, initDevices_true]
  simp only [Nat.zero_add]
  rfl

theorem init_owns (hfresh : Fresh s) : Owns (init ans lun baseAddress irq s).1 := by
  rcases init_cases ans lun baseAddress irq s with ⟨-, hinit⟩ | ⟨-, -, hinit⟩
  · rw [hinit]
    exact hfresh.owns
  · rw [hinit]
    split
    · exact (initDevices_owns _ hfresh.owns).1
    · exact (initDevices_owns _ hfresh.owns).1

/-- After a failed load. -/
theorem nothingLeft_failed (hfresh : Fresh s) (haccepted : Accepted lun baseAddress irq) (hname : ans.registered = true)
    (hfail : (init ans lun baseAddress irq s).2 = false) :
    NothingLeft (init ans lun baseAddress irq s).1 ↔
    FirstCallFails ans s.vmeIrqTable (boardsOf lun baseAddress irq) := by
  rcases init_cases ans lun baseAddress irq s with ⟨hnot, -⟩ | ⟨-, -, hinit⟩
  · rcases hnot with hnot | hnot
    · exact absurd haccepted hnot
    · rw [hname] at hnot
      cases hnot
  · have howns : Owns (init ans lun baseAddress irq s).1 := init_owns hfresh
    by_cases hok : (initDevices ans 0 (boardsOf lun baseAddress irq) (registered s)).2 = true
    · rw [hinit, if_pos hok] at hfail
      cases hfail
    · rw [if_neg hok] at hinit
      rw [hinit] at howns ⊢
      rw [nothingLeft_iff howns rfl]
      exact initDevices_requested hfresh.owns hfresh.requested (Bool.eq_false_iff.mpr hok)

/-- After the unload. -/
theorem nothingLeft_exit (hfresh : Fresh s) (h : (init ans lun baseAddress irq s).2 = true) :
    NothingLeft (exit ans (init ans lun baseAddress irq s).1) ↔
      ∀ v ∈ (init ans lun baseAddress irq s).1.requested, v ∈ vectorsOf ans (init ans lun baseAddress irq s).1
      lunSlots := by
  obtain ⟨-, hfree, hkeep⟩ := exit_done h hfresh.freed
  have howns : Owns (init ans lun baseAddress irq s).1 := init_owns hfresh
  constructor
  · intro hleft v hv
    by_contra hnot
    obtain ⟨d, i, htable⟩ := (howns v).mpr hv
    exact hleft.vectors v d i ((hkeep v hnot).trans htable)
  · intro hall
    refine ⟨fun v d i htable => ?_, ?_⟩
    · by_cases hv : v ∈ vectorsOf ans (init ans lun baseAddress irq s).1 lunSlots
      · rw [hfree v hv] at htable
        cases htable
      · rw [hkeep v hv] at htable
        exact hv (hall v ((howns v).mp ⟨d, i, htable⟩))
    · unfold exit
      dsimp only

theorem vectorsOf_requested (h : (init ans lun baseAddress irq s).2 = true) (hnone : s.requested = []) {v : ℕ}
    (hv : v ∈ vectorsOf ans (init ans lun baseAddress irq s).1 lunSlots) :
    v ∈ (init ans lun baseAddress irq s).1.requested := by
  obtain ⟨e, he, hreleases, rfl⟩ := mem_vectorsOf.mp hv
  obtain ⟨k, b, -, hval, hrequest⟩ := init_entry h he hreleases.1
  rw [init_requested h hnone, hval]
  exact List.mem_map_of_mem hrequest

theorem requested_nodup (h : (init ans lun baseAddress irq s).2 = true) (hnone : s.requested = []) :
    (init ans lun baseAddress irq s).1.requested.Nodup := by
  rw [init_requested h hnone]
  have hgranted := init_granted h
  refine List.Nodup.map_on (fun r hr q hq heq => granted_inj hgranted hr hq heq) ?_
  exact List.Nodup.of_map _ hgranted.2

/-- The vectors of other drivers are not those that this one was given. -/
theorem others_kept (hfresh : Fresh s) (h : (init ans lun baseAddress irq s).2 = true) {v owner : ℕ}
    (hother : s.vmeIrqTable v = some (.other owner)) :
    (exit ans (init ans lun baseAddress irq s).1).vmeIrqTable v = some (.other owner) := by
  have hgranted := init_granted h
  have hnot : ∀ r ∈ requestsOf 0 (boardsOf lun baseAddress irq), r.1.toNat ≠ v := by
    intro r hr heq
    have hfree := (hgranted.1 r hr).2.2.2
    rw [heq, hother] at hfree
    cases hfree
  have hv : v ∉ vectorsOf ans (init ans lun baseAddress irq s).1 lunSlots := by
    intro hmem
    have hrequested := vectorsOf_requested h hfresh.requested hmem
    rw [init_requested h hfresh.requested] at hrequested
    obtain ⟨r, hr, heq⟩ := List.mem_map.mp hrequested
    exact hnot r hr heq
  rw [(exit_done h hfresh.freed).2.2 v hv, (init_boards h).table]
  exact (grants_other hnot).trans hother

end Unload

section Claims
variable {C D : Type} (ans : Answers) (s : VmodioDriver C D) (lun irq : List ℤ) (baseAddress : List (BitVec 64))

/-- The driver leaves nothing behind exactly when its name is refused, its very first call fails, or no call of the load
fails, the luns are distinct and in range, and no release of their vectors is interrupted. -/
theorem vmodio_leavesNothing (hfresh : Fresh s) (haccepted : Accepted lun baseAddress irq) :
    LeavesNothing ans lun baseAddress irq s ↔
      ans.registered = false ∨ FirstCallFails ans s.vmeIrqTable (boardsOf lun baseAddress irq) ∨
        (NoCallFails ans s.vmeIrqTable (boardsOf lun baseAddress irq) ∧ lun.Nodup ∧
          (∀ l ∈ lun, 0 ≤ l ∧ l < maxDevices) ∧
            ∀ l ∈ lun, ∀ slot < vmodioSlots, ans.freeInterrupted (l, slot) = false) := by
  by_cases hname : ans.registered = true
  swap
  · -- the load ends before its first request
    rw [Bool.not_eq_true] at hname
    refine iff_of_true ?_ (.inl hname)
    have hinit : init ans lun baseAddress irq s =
      ({ s with irqToLun := fun _ => -1, lunSlotToIrq := fun _ => -1 }, false) := by
      rcases init_cases ans lun baseAddress irq s with ⟨-, hinit⟩ | ⟨-, htrue, -⟩
      · exact hinit
      · rw [hname] at htrue
        cases htrue
    have hfalse : (init ans lun baseAddress irq s).2 = true → False := by
      rw [hinit]
      exact Bool.false_ne_true
    refine ⟨fun _ => ?_, fun h => (hfalse h).elim, fun h => (hfalse h).elim, fun h => (hfalse h).elim⟩
    rw [hinit]
    exact ⟨hfresh.left.vectors, hfresh.left.name⟩
  have hsucceeds := init_succeeds (s := s) haccepted hname
  by_cases hok : (init ans lun baseAddress irq s).2 = true
  · have hcalls := hsucceeds.mp hok
    have hall := mem_vectorsOf_init hok hfresh.requested
    constructor
    · intro h
      exact .inr (.inr ⟨hcalls, hall.mp ((nothingLeft_exit hfresh hok).mp (h.left hok))⟩)
    · intro h
      have hluns : lun.Nodup ∧ (∀ l ∈ lun, 0 ≤ l ∧ l < maxDevices) ∧
          ∀ l ∈ lun, ∀ slot < vmodioSlots, ans.freeInterrupted (l, slot) = false := by
        rcases h with h | ⟨b, hb, hfails⟩ | ⟨-, hluns⟩
        · rw [hname] at h
          cases h
        · exfalso
          have hmem : (boardsOf lun baseAddress irq)[0]? = some b := by rw [← List.head?_eq_getElem?, hb]
          have hlt := (List.getElem?_eq_some_iff.mp hmem).1
          rcases hfails with hmap | hgrant
          · exact hcalls.1 0 hlt hmap
          · exact hgrant (hcalls.2.1 _ (mem_requestsOf.mpr ⟨0, b, 0, hmem, Nat.succ_pos 3, rfl⟩))
        · exact hluns
      refine ⟨fun hfalse => ?_, fun _ => (nothingLeft_exit hfresh hok).mpr (hall.mpr hluns), fun _ => ?_,
        fun _ v owner hother => others_kept hfresh hok hother⟩
      · rw [hok] at hfalse
        cases hfalse
      · rw [(exit_done hok hfresh.freed).1]
        refine (List.perm_ext_iff_of_nodup (init_vectors_nodup hok) (requested_nodup hok hfresh.requested)).mpr fun v =>
          ?_
        exact ⟨vectorsOf_requested hok hfresh.requested, hall.mpr hluns v⟩
  · have hcalls : ¬ NoCallFails ans s.vmeIrqTable (boardsOf lun baseAddress irq) := fun h => hok (hsucceeds.mpr h)
    rw [Bool.not_eq_true] at hok
    have hleft := nothingLeft_failed hfresh haccepted hname hok
    have hfalse : (init ans lun baseAddress irq s).2 = true → False := by
      rw [hok]
      exact Bool.false_ne_true
    constructor
    · intro h
      exact .inr (.inl (hleft.mp (h.failed hok)))
    · intro h
      have hfirst : FirstCallFails ans s.vmeIrqTable (boardsOf lun baseAddress irq) := by
        rcases h with h | h | ⟨h, -⟩
        · rw [hname] at h
          cases h
        · exact h
        · exact absurd h hcalls
      exact ⟨fun _ => hleft.mpr hfirst, fun h => (hfalse h).elim, fun h => (hfalse h).elim, fun h => (hfalse h).elim⟩

end Claims

theorem unloaded_fresh : Fresh unloaded :=
  ⟨⟨(fun _ _ _ h => by cases h), rfl⟩, rfl, rfl⟩

/-- A load of two boards and its unload. -/
theorem twoBoards_leaveNothing : LeavesNothing willing [5, 1] [0x1200, 0xA800] [126, 142] unloaded := by
  have haccepted : Accepted [5, 1] [0x1200, 0xA800] [126, 142] := ⟨by decide, rfl, rfl⟩
  have hok : (init willing [5, 1] [0x1200, 0xA800] [126, 142] unloaded).2 = true := by decide
  exact (vmodio_leavesNothing willing unloaded [5, 1] [126, 142] [0x1200, 0xA800] unloaded_fresh haccepted).mpr
    (.inr (.inr ⟨(init_succeeds haccepted rfl).mp hok, by decide, by decide, fun _ _ _ _ => rfl⟩))

/-- Another driver has the vector 125. -/
def otherAt125 : VmodioDriver ℕ ℕ := { unloaded with vmeIrqTable := fun v => if v = 125 then some (.other 0) else none }

/-- The request for the second slot of the only board is refused, and the vector of the first one stays. -/
theorem secondVector_refused :
    (init willing [0] [0x1200] [126] otherAt125).2 = false ∧
      (init willing [0] [0x1200] [126] otherAt125).1.vmeIrqTable 126 = some (.vmodio 0 0) ∧
      ¬ LeavesNothing willing [0] [0x1200] [126] otherAt125 := by
  have hfail : (init willing [0] [0x1200] [126] otherAt125).2 = false := by decide
  have htable : (init willing [0] [0x1200] [126] otherAt125).1.vmeIrqTable 126 = some (.vmodio 0 0) := by decide
  exact ⟨hfail, htable, fun h => (h.failed hfail).vectors 126 0 0 htable⟩

end HtDrivers.Vmod
