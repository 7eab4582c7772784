import Mathlib.Tactic

/-! A loop over the places of a mask: the body runs at every place that the mask selects, and the first error ends the
loop. -/
namespace HtDrivers.Lib.MaskLoop
set_option autoImplicit false

section Loop
variable {σ ε α : Type} [DecidableEq ε]

/-- The outcome is `success` where no turn failed, and the state is that of the last turn. -/
def forMask (success : ε) (sel : ℕ → Bool) (body : ℕ → σ → ε × σ) : List ℕ → σ → ε × σ
  | [], s => (success, s)
  | i :: is, s =>
    if sel i then
      if (body i s).1 = success then forMask success sel body is (body i s).2 else body i s
    else forMask success sel body is s

variable {success : ε} {sel : ℕ → Bool} {body : ℕ → σ → ε × σ} {is : List ℕ} {s s' : σ}

theorem forMask_cons_success {i : ℕ} (h : forMask success sel body (i :: is) s = (success, s')) :
    sel i = true ∧ (∃ t, body i s = (success, t) ∧ forMask success sel body is t = (success, s')) ∨
      sel i = false ∧ forMask success sel body is s = (success, s') := by
  rw [forMask] at h
  split_ifs at h with hsel hbody
  · exact .inl ⟨hsel, (body i s).2, Prod.ext hbody rfl, h⟩
  · exact absurd (congrArg Prod.fst h) hbody
  · exact .inr ⟨by simpa using hsel, h⟩

/-- What every successful turn keeps, a successful loop keeps. -/
theorem forMask_keeps {P : σ → Prop} (hbody : ∀ i ∈ is, ∀ s s', body i s = (success, s') → P s → P s')
    (h : forMask success sel body is s = (success, s')) (hs : P s) : P s' := by
  induction is generalizing s with
  | nil =>
    obtain rfl := congrArg Prod.snd h
    exact hs
  | cons i is ih =>
    have hlater := fun j hj => hbody j (List.mem_cons_of_mem i hj)
    obtain ⟨-, t, ht, hrest⟩ | ⟨-, hrest⟩ := forMask_cons_success h
    · exact ih hlater hrest (hbody i List.mem_cons_self s t ht hs)
    · exact ih hlater hrest hs

/-- Where turn `i` changes place `i` only, a successful loop has changed every selected place by its own turn, and no
other place. -/
theorem forMask_places {v : σ → ℕ → α} {R : ℕ → α → α → Prop} {P : σ → Prop}
    (hkeep : ∀ i ∈ is, ∀ s s', body i s = (success, s') → P s → P s')
    (hat : ∀ i ∈ is, ∀ s s', body i s = (success, s') → P s → R i (v s i) (v s' i))
    (hother : ∀ i ∈ is, ∀ s s', body i s = (success, s') → P s → ∀ k, k ≠ i → v s' k = v s k)
    (hnodup : is.Nodup) (hs : P s) (h : forMask success sel body is s = (success, s')) (k : ℕ) :
    (k ∈ is ∧ sel k = true → R k (v s k) (v s' k)) ∧ (¬(k ∈ is ∧ sel k = true) → v s' k = v s k) := by
  induction is generalizing s with
  | nil =>
    have hstay : s = s' := congrArg Prod.snd h
    subst hstay
    simp
  | cons i is ih =>
    obtain ⟨hi, hnodup⟩ := List.nodup_cons.mp hnodup
    have hrec := fun {u} => ih (s := u) (fun j hj => hkeep j (List.mem_cons_of_mem i hj))
      (fun j hj => hat j (List.mem_cons_of_mem i hj)) (fun j hj => hother j (List.mem_cons_of_mem i hj)) hnodup
    obtain ⟨hsel, t, ht, hrest⟩ | ⟨hsel, hrest⟩ := forMask_cons_success h
    · obtain ⟨hin, hout⟩ := hrec (hkeep i List.mem_cons_self s t ht hs) hrest
      by_cases hk : k = i
      · subst hk
        have hlater : v s' k = v t k := hout fun hk => hi hk.1
        rw [hlater]
        exact ⟨fun _ => hat k List.mem_cons_self s t ht hs, fun hnot => absurd ⟨List.mem_cons_self, hsel⟩ hnot⟩
      · rw [← hother i List.mem_cons_self s t ht hs k hk]
        refine ⟨fun hmem => hin ⟨(List.mem_cons.mp hmem.1).resolve_left hk, hmem.2⟩, fun hnot => ?_⟩
        exact hout fun hmem => hnot ⟨List.mem_cons_of_mem i hmem.1, hmem.2⟩
    · obtain ⟨hin, hout⟩ := hrec hs hrest
      have hk : k ∈ i :: is ∧ sel k = true ↔ k ∈ is ∧ sel k = true := by
        rw [List.mem_cons]
        constructor
        · rintro ⟨rfl | hmem, hsel'⟩
          · rw [hsel] at hsel'
            exact absurd hsel' Bool.false_ne_true
          · exact ⟨hmem, hsel'⟩
        · rintro ⟨hmem, hsel'⟩
          exact ⟨.inr hmem, hsel'⟩
      rw [hk]
      exact ⟨hin, hout⟩

theorem forMask_none (hnone : is.filter sel = []) : forMask success sel body is s = (success, s) := by
  induction is with
  | nil => rfl
  | cons i is ih =>
    have hsel : ¬sel i = true := by
      intro hsel
      rw [List.filter_cons_of_pos hsel] at hnone
      exact List.cons_ne_nil _ _ hnone
    rw [List.filter_cons_of_neg hsel] at hnone
    rw [forMask, if_neg hsel]
    exact ih hnone

/-- Where a turn establishes its postcondition from every state, the last turn's holds in the end. -/
theorem forMask_last {Q : ℕ → σ → Prop} {P : σ → Prop}
    (hkeep : ∀ i ∈ is, ∀ s s', body i s = (success, s') → P s → P s')
    (hbody : ∀ i ∈ is, ∀ s s', body i s = (success, s') → P s → Q i s') (hs : P s)
    (h : forMask success sel body is s = (success, s')) {last : ℕ}
    (hlast : (is.filter sel).getLast? = some last) : Q last s' := by
  induction is generalizing s with
  | nil => simp at hlast
  | cons i is ih =>
    have hrec := fun {u} => ih (s := u) (fun j hj => hkeep j (List.mem_cons_of_mem i hj))
      (fun j hj => hbody j (List.mem_cons_of_mem i hj))
    obtain ⟨hsel, t, ht, hrest⟩ | ⟨hsel, hrest⟩ := forMask_cons_success h
    · rw [List.filter_cons_of_pos hsel, List.getLast?_cons] at hlast
      cases htail : (is.filter sel).getLast? with
      | none =>
        rw [htail, Option.getD_none] at hlast
        obtain rfl := Option.some.inj hlast
        -- No later place is selected, so nothing follows this turn.
        have hnone : is.filter sel = [] := List.getLast?_eq_none_iff.mp htail
        have hq : Q i t ∧ t = s' := by
          refine ⟨hbody i List.mem_cons_self s t ht hs, ?_⟩
          rw [forMask_none hnone] at hrest
          exact congrArg Prod.snd hrest
        exact hq.2 ▸ hq.1
      | some k =>
        rw [htail, Option.getD_some] at hlast
        exact hrec (hkeep i List.mem_cons_self s t ht hs) hrest (htail.trans hlast)
    · rw [List.filter_cons_of_neg (by rw [hsel]; simp)] at hlast
      exact hrec hs hrest hlast

end Loop
end HtDrivers.Lib.MaskLoop
