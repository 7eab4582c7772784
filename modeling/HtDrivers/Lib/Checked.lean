import Mathlib.Tactic

/-! Computations that can fault: what they return or fault with, and loops whose turns can fault. -/
namespace HtDrivers.Lib.Checked
set_option autoImplicit false

theorem bind_eq_ok {ε α β : Type} {x : Except ε α} {f : α → Except ε β} {b : β} :
    (x >>= f) = .ok b ↔ ∃ a, x = .ok a ∧ f a = .ok b := by
  cases x with
  | error fault =>
    constructor
    · intro h
      cases h
    · rintro ⟨a, ha, -⟩
      cases ha
  | ok a =>
    constructor
    · intro h
      exact ⟨a, rfl, h⟩
    · rintro ⟨a', ha, h⟩
      cases ha
      exact h

theorem ok_bind {ε α β : Type} (a : α) (f : α → Except ε β) : (Except.ok a >>= f) = f a := rfl

theorem exists_bind_ok {ε α β : Type} {x : Except ε α} {f : α → Except ε β} {a : α} (hx : x = .ok a)
    (hf : ∃ b, f a = .ok b) : ∃ b, (x >>= f) = .ok b := by
  rw [hx]
  exact hf

/-! ## Outcomes -/

/-- What is returned is good, and what is faulted with is allowed. -/
def Outcome {ε α : Type} (good : α → Prop) (allowed : ε → Prop) : Except ε α → Prop
  | .ok a => good a
  | .error e => allowed e

section Outcome
variable {ε α β : Type} {x : Except ε α} {f : α → Except ε β} {P P' : α → Prop} {Q : β → Prop} {E E' : ε → Prop}

theorem Outcome.bind (hx : Outcome P E x) (hf : ∀ a, P a → Outcome Q E (f a)) : Outcome Q E (x >>= f) := by
  cases x with
  | error e => exact hx
  | ok a => exact hf a hx

theorem Outcome.mono (hx : Outcome P E x) (hgood : ∀ a, P a → P' a) (hallowed : ∀ e, E e → E' e) : Outcome P' E' x := by
  cases x with
  | error e => exact hallowed e hx
  | ok a => exact hgood a hx

theorem Outcome.of_ok {a : α} (h : Outcome P E x) (hx : x = .ok a) : P a := by
  rw [hx] at h
  exact h

theorem Outcome.of_error {e : ε} (h : Outcome P E x) (hx : x = .error e) : E e := by
  rw [hx] at h
  exact h

end Outcome

/-! ## Loops -/

section Loop
variable {ε σ α : Type} {turn : σ → α → Except ε σ} {I : σ → Prop} {good : α → Prop} {is : List α} {s : σ}

theorem foldlM_cons_ok {i : α} : (∃ t, (i :: is).foldlM turn s = .ok t) ↔ ∃ u, turn s i = .ok u ∧
    ∃ t, is.foldlM turn u = .ok t := by
  rw [List.foldlM_cons]
  cases turn s i with
  | error fault =>
    constructor
    · rintro ⟨t, ht⟩
      cases ht
    · rintro ⟨u, hu, -⟩
      cases hu
  | ok u =>
    constructor
    · intro h
      exact ⟨u, rfl, h⟩
    · rintro ⟨v, hv, h⟩
      cases hv
      exact h

/-- A loop has an outcome if and only if every turn has one, where this does not depend on the state. -/
theorem foldlM_ok_iff (hturn : ∀ i ∈ is, ∀ s, I s → ((∃ t, turn s i = .ok t) ↔ good i))
    (hkeep : ∀ i ∈ is, ∀ s t, I s → turn s i = .ok t → I t) (hs : I s) :
    (∃ t, is.foldlM turn s = .ok t) ↔ ∀ i ∈ is, good i := by
  induction is generalizing s with
  | nil => exact ⟨fun _ i hi => absurd hi List.not_mem_nil, fun _ => ⟨s, rfl⟩⟩
  | cons i is ih =>
    have hrest {u : σ} (hu : I u) := ih (fun j hj => hturn j (List.mem_cons_of_mem i hj))
      (fun j hj => hkeep j (List.mem_cons_of_mem i hj)) hu
    rw [foldlM_cons_ok, List.forall_mem_cons, ← hturn i List.mem_cons_self s hs]
    constructor
    · rintro ⟨u, hu, hlater⟩
      exact ⟨⟨u, hu⟩, (hrest (hkeep i List.mem_cons_self s u hs hu)).mp hlater⟩
    · rintro ⟨⟨u, hu⟩, hlater⟩
      exact ⟨u, hu, (hrest (hkeep i List.mem_cons_self s u hs hu)).mpr hlater⟩

/-- A turn whose outcome does not depend on the state at all. -/
theorem foldlM_ok_iff_forall (hturn : ∀ i ∈ is, ∀ s, (∃ t, turn s i = .ok t) ↔ good i) :
    (∃ t, is.foldlM turn s = .ok t) ↔ ∀ i ∈ is, good i :=
  foldlM_ok_iff (I := fun _ => True) (fun i hi s _ => hturn i hi s) (fun _ _ _ _ _ _ => trivial) trivial

/-- What every turn keeps is kept by the loop. -/
theorem foldlM_keeps {t : σ} (hkeep : ∀ i ∈ is, ∀ s t, I s → turn s i = .ok t → I t) (hs : I s)
    (h : is.foldlM turn s = .ok t) : I t := by
  induction is generalizing s with
  | nil =>
    cases h
    exact hs
  | cons i is ih =>
    rw [List.foldlM_cons, bind_eq_ok] at h
    obtain ⟨u, hturn, hrest⟩ := h
    exact ih (fun j hj => hkeep j (List.mem_cons_of_mem i hj)) (hkeep i List.mem_cons_self s u hs hturn) hrest

end Loop
end HtDrivers.Lib.Checked
