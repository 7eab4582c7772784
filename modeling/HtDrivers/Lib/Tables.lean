import Mathlib.Tactic

/-! Loops over the places of a table of fixed size, and tables from which an entry is removed by moving the last one
into its place. -/
namespace HtDrivers.Lib.Tables
set_option autoImplicit false

/-! ## Loops -/

section Loops
variable {n : ℕ} {S : Type}

/-- Visit the places in their order. -/
@[irreducible] def forEach (body : S → Fin n → S) (s : S) : S := (List.finRange n).foldl body s

theorem forEach_eq_foldl (body : S → Fin n → S) (s : S) : forEach body s = Fin.foldl n body s := by
  unfold forEach
  exact (Fin.foldl_eq_finRange_foldl body s).symm

/-- What holds before a loop and is carried from each place to the next holds behind it. -/
theorem forEach_rule (I : ℕ → S → Prop) (body : S → Fin n → S) (s : S) (hstart : I 0 s)
    (hstep : ∀ (i : Fin n) s, I i s → I (i + 1) (body s i)) : I n (forEach body s) := by
  rw [forEach_eq_foldl]
  induction n with
  | zero => exact hstart
  | succ n ih =>
    rw [Fin.foldl_succ_last]
    exact hstep (Fin.last n) _ (ih (fun s i => body s i.castSucc) fun i s hs => hstep i.castSucc s hs)

/-- What no place changes is as it was before the loop. -/
theorem forEach_frame {V : Type} (f : S → V) (body : S → Fin n → S) (hbody : ∀ s i, f (body s i) = f s) (s : S) :
    f (forEach body s) = f s :=
  forEach_rule (fun _ s' => f s' = f s) body s rfl fun i s' hs => (hbody s' i).trans hs

/-- A loop that at each place changes only the entry of the table there changes every entry once. -/
theorem forEach_local {V : Type} (get : S → Fin n → V) (g : Fin n → V → V) (body : S → Fin n → S)
    (hbody : ∀ s i, get (body s i) = Function.update (get s) i (g i (get s i))) (s : S) (j : Fin n) :
    get (forEach body s) j = g j (get s j) := by
  have hall : ∀ j : Fin n, get (forEach body s) j = if (j : ℕ) < n then g j (get s j) else get s j := by
    apply forEach_rule (fun k s' => ∀ j : Fin n, get s' j = if (j : ℕ) < k then g j (get s j) else get s j)
    · intro j
      rw [if_neg (Nat.not_lt_zero _)]
    · intro i s' hs j
      rw [hbody]
      by_cases hj : j = i
      · subst hj
        rw [Function.update_self, hs j, if_neg (Nat.lt_irrefl _), if_pos (Nat.lt_succ_self _)]
      · have hne : (j : ℕ) ≠ i := fun h => hj (Fin.ext h)
        rw [Function.update_of_ne hj, hs j]
        by_cases hlt : (j : ℕ) < i
        · rw [if_pos hlt, if_pos (by omega)]
        · rw [if_neg hlt, if_neg (by omega)]
  rw [hall j, if_pos j.isLt]

/-- A fact that each place may make true holds behind the loop when it held before or some place made it true. -/
theorem forEach_collect (I : ℕ → S → Prop) (f : S → Prop) (q : Fin n → Prop) (body : S → Fin n → S) (s : S)
    (hstart : I 0 s) (hstep : ∀ (i : Fin n) s, I i s → I (i + 1) (body s i))
    (hf : ∀ (i : Fin n) s, I i s → (f (body s i) ↔ f s ∨ q i)) : f (forEach body s) ↔ f s ∨ ∃ i, q i := by
  have hall : I n (forEach body s) ∧ (f (forEach body s) ↔ f s ∨ ∃ i : Fin n, (i : ℕ) < n ∧ q i) := by
    apply forEach_rule (fun k s' => I k s' ∧ (f s' ↔ f s ∨ ∃ i : Fin n, (i : ℕ) < k ∧ q i))
    · exact ⟨hstart, by simp⟩
    · rintro i s' ⟨hs, hfs⟩
      refine ⟨hstep i s' hs, ?_⟩
      rw [hf i s' hs, hfs, or_assoc]
      refine or_congr_right ⟨?_, ?_⟩
      · rintro (⟨j, hj, hq⟩ | hq)
        · exact ⟨j, by omega, hq⟩
        · exact ⟨i, by omega, hq⟩
      · rintro ⟨j, hj, hq⟩
        by_cases hji : j = i
        · subst hji
          exact .inr hq
        · have hne : (j : ℕ) ≠ i := fun h => hji (Fin.ext h)
          exact .inl ⟨j, by omega, hq⟩
  rw [hall.2]
  refine or_congr_right ⟨?_, ?_⟩
  · rintro ⟨i, -, hq⟩
    exact ⟨i, hq⟩
  · rintro ⟨i, hq⟩
    exact ⟨i, i.isLt, hq⟩

/-- A loop that changes nothing but at one place. -/
theorem forEach_only (body : S → Fin n → S) (k : Fin n) (hbody : ∀ s i, i ≠ k → body s i = s) (s : S) :
    forEach body s = body s k := by
  have hall : forEach body s = if (k : ℕ) < n then body s k else s := by
    apply forEach_rule (fun j s' => s' = if (k : ℕ) < j then body s k else s)
    · rw [if_neg (Nat.not_lt_zero _)]
    · rintro i s' rfl
      by_cases hi : i = k
      · subst hi
        rw [if_neg (Nat.lt_irrefl _), if_pos (Nat.lt_succ_self _)]
      · have hne : (i : ℕ) ≠ k := fun h => hi (Fin.ext h)
        rw [hbody _ i hi]
        by_cases hlt : (k : ℕ) < i
        · rw [if_pos hlt, if_pos (by omega)]
        · rw [if_neg hlt, if_neg (by omega)]
  rw [hall, if_pos k.isLt]

/-- The first place that a loop stops at. -/
@[irreducible] def firstPlace (p : Fin n → Bool) : Option (Fin n) := (List.finRange n).find? p

theorem firstPlace_eq_some {p : Fin n → Bool} {i : Fin n} :
    firstPlace p = some i ↔ p i = true ∧ ∀ j < i, p j = false := by
  unfold firstPlace
  rw [← Fin.find?_eq_find?_finRange, Fin.find?_eq_some_iff]

theorem firstPlace_eq_none {p : Fin n → Bool} : firstPlace p = none ↔ ∀ i, p i = false := by
  unfold firstPlace
  rw [← Fin.find?_eq_find?_finRange, Fin.find?_eq_none_iff]

end Loops

/-- The number of the places in use, when one more comes to be used. -/
theorem countP_used {α : Type} {l : List α} (hnodup : l.Nodup) {p q : α → Bool} {a : α} (ha : a ∈ l) (hp : p a = false)
    (hq : q a = true) (hsame : ∀ b, b ≠ a → p b = q b) : l.countP q = l.countP p + 1 := by
  induction l with
  | nil => cases ha
  | cons b l ih =>
    rw [List.nodup_cons] at hnodup
    by_cases hba : b = a
    · subst hba
      have hrest : l.countP q = l.countP p := by
        apply List.countP_congr
        intro c hc
        rw [hsame c fun h => hnodup.1 (h ▸ hc)]
      rw [List.countP_cons_of_pos hq, List.countP_cons_of_neg (by simp [hp]), hrest]
    · have hmem : a ∈ l := (List.mem_cons.mp ha).resolve_left fun h => hba h.symm
      rw [List.countP_cons, List.countP_cons, ih hnodup.2 hmem, hsame b hba]
      omega

/-! ## Removal by the last entry -/

section Removal
variable {α : Type}

/-- The first entry that satisfies `p` is overwritten by the last one, and the table gets shorter by one. -/
def moveLast (p : α → Bool) (entries : List α) : List α :=
  match entries.findIdx? p, entries.getLast? with
  | some i, some last => (entries.set i last).dropLast
  | _, _ => entries

theorem set_last_perm {entries : List α} {i : ℕ} {last : α} (hi : i < entries.length)
    (hlast : entries.getLast? = some last) : (entries.set i last).dropLast.Perm (entries.eraseIdx i) := by
  obtain ⟨front, rfl⟩ := List.getLast?_eq_some_iff.mp hlast
  by_cases hfront : i < front.length
  · rw [List.set_append_left _ _ hfront, List.dropLast_concat, List.eraseIdx_append_of_lt_length hfront]
    exact (List.set_perm_cons_eraseIdx hfront last).trans (List.perm_append_singleton ..).symm
  · have hat : i = front.length := by
      rw [List.length_append, List.length_singleton] at hi
      omega
    subst hat
    rw [List.set_append_right _ _ (Nat.le_refl _), Nat.sub_self, List.set_cons_zero, List.dropLast_concat,
      List.eraseIdx_append_of_length_le (Nat.le_refl _), Nat.sub_self, List.eraseIdx_cons_zero, List.append_nil]

theorem moveLast_perm (p : α → Bool) (entries : List α) : (moveLast p entries).Perm (entries.eraseP p) := by
  unfold moveLast
  cases hfind : entries.findIdx? p with
  | none =>
    have hnone := List.findIdx?_eq_none_iff.mp hfind
    rw [List.eraseP_of_forall_not fun a ha => by simp [hnone a ha]]
  | some i =>
    obtain ⟨hi, -⟩ := List.findIdx?_eq_some_iff_getElem.mp hfind
    have hne : entries ≠ [] := List.ne_nil_of_length_pos (by omega)
    rw [List.getLast?_eq_some_getLast hne]
    rw [List.eraseP_eq_eraseIdx, hfind]
    exact set_last_perm hi (List.getLast?_eq_some_getLast hne)

/-- Where the keys differ, the removal of a key leaves the entries with the other keys. -/
theorem mem_moveLast_key {K : Type} [BEq K] [LawfulBEq K] {key : α → K} {entries : List α}
    (hnodup : (entries.map key).Nodup) (k : K) (entry : α) :
    entry ∈ moveLast (fun e => k == key e) entries ↔ entry ∈ entries ∧ key entry ≠ k := by
  rw [(moveLast_perm _ entries).mem_iff]
  induction entries with
  | nil => simp
  | cons e entries ih =>
    rw [List.map_cons, List.nodup_cons] at hnodup
    by_cases hkey : k = key e
    · rw [List.eraseP_cons_of_pos (by simpa using hkey), List.mem_cons]
      constructor
      · intro hmem
        refine ⟨.inr hmem, fun heq => hnodup.1 ?_⟩
        rw [← hkey, ← heq]
        exact List.mem_map_of_mem hmem
      · rintro ⟨rfl | hmem, hne⟩
        · exact absurd hkey.symm hne
        · exact hmem
    · rw [List.eraseP_cons_of_neg (by simpa using hkey), List.mem_cons, List.mem_cons, ih hnodup.2]
      constructor
      · rintro (rfl | ⟨hmem, hne⟩)
        · exact ⟨.inl rfl, fun heq => hkey heq.symm⟩
        · exact ⟨.inr hmem, hne⟩
      · rintro ⟨rfl | hmem, hne⟩
        · exact .inl rfl
        · exact .inr ⟨hmem, hne⟩

theorem mem_of_mem_moveLast {p : α → Bool} {entries : List α} {entry : α} (h : entry ∈ moveLast p entries) :
    entry ∈ entries := List.mem_of_mem_eraseP ((moveLast_perm p entries).mem_iff.mp h)

theorem nodup_moveLast {K : Type} {key : α → K} {p : α → Bool} {entries : List α} (hnodup : (entries.map key).Nodup) :
    ((moveLast p entries).map key).Nodup := by
  rw [((moveLast_perm p entries).map key).nodup_iff]
  exact hnodup.sublist (List.eraseP_sublist.map key)

end Removal

end HtDrivers.Lib.Tables
