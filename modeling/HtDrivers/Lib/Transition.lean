import Mathlib.Algebra.BigOperators.Ring.Finset
import Mathlib.Algebra.Order.BigOperators.Group.Finset
import Mathlib.Data.Fintype.Basic
import Mathlib.Tactic

/-! Transition systems with an executable step function. `next s a` is the state after action `a`, or
`none` where `a` cannot be taken. `Reach` collects the states of all runs whose steps satisfy `ok`. -/
namespace HtDrivers.Lib.Transition
set_option autoImplicit false

section Runs
variable {S A : Type} {next : S → A → Option S} {ok : S → A → Prop} {start s s' : S}

inductive Reach (next : S → A → Option S) (ok : S → A → Prop) (start : S) : S → Prop
  | refl : Reach next ok start start
  | step {s s' : S} {a : A} : Reach next ok start s → ok s a → next s a = some s' → Reach next ok start s'

/-- What holds at the start and is kept by every step holds in every state of a run. -/
theorem Reach.invariant {I : S → Prop} (hstart : I start)
    (hstep : ∀ s a s', I s → ok s a → next s a = some s' → I s') (h : Reach next ok start s) : I s := by
  induction h with
  | refl => exact hstart
  | step _ hok hnext ih => exact hstep _ _ _ ih hok hnext

/-- A run is one of the runs with fewer demands on its steps. -/
theorem Reach.weaken {ok' : S → A → Prop} (h : Reach next ok start s) (hok : ∀ s a, ok s a → ok' s a) :
    Reach next ok' start s := by
  induction h with
  | refl => exact .refl
  | step _ hstep hnext ih => exact ih.step (hok _ _ hstep) hnext

/-- A run together with its actions. -/
inductive Path (next : S → A → Option S) (ok : S → A → Prop) : S → List A → S → Prop
  | nil (s : S) : Path next ok s [] s
  | cons {s s' t : S} {a : A} {as : List A} : ok s a → next s a = some s' → Path next ok s' as t →
  Path next ok s (a :: as) t

/-- Take the actions one after the other. -/
def replay (next : S → A → Option S) (ok : S → A → Prop) [∀ s a, Decidable (ok s a)] : S → List A → Option S
  | s, [] => some s
  | s, a :: as => if ok s a then (next s a).bind fun s' => replay next ok s' as else none

theorem Reach.of_replay [∀ s a, Decidable (ok s a)] {as : List A} (h : Reach next ok start s)
    (hrun : replay next ok s as = some s') : Reach next ok start s' := by
  induction as generalizing s with
  | nil =>
    obtain rfl : s = s' := by simpa [replay] using hrun
    exact h
  | cons a as ih =>
    rw [replay] at hrun
    split at hrun
    · rename_i hok
      obtain ⟨t, hnext, hrest⟩ := Option.bind_eq_some_iff.mp hrun
      exact ih (h.step hok hnext) hrest
    · cases hrun

/-- What is asked of the actions alone is not checked on the way. -/
theorem Reach.of_replay_and {P : A → Prop} [∀ s a, Decidable (ok s a)] {as : List A}
    (h : Reach next (fun s a => P a ∧ ok s a) start s) (hall : ∀ a ∈ as, P a) (hrun : replay next ok s as = some s') :
    Reach next (fun s a => P a ∧ ok s a) start s' := by
  induction as generalizing s with
  | nil =>
    obtain rfl : s = s' := by simpa [replay] using hrun
    exact h
  | cons a as ih =>
    rw [replay] at hrun
    rw [List.forall_mem_cons] at hall
    split at hrun
    · rename_i hok
      obtain ⟨t, hnext, hrest⟩ := Option.bind_eq_some_iff.mp hrun
      exact ih (h.step ⟨hall.1, hok⟩ hnext) hall.2 hrest
    · cases hrun

/-- Actions that satisfy `ok` in every state need no check on the way. -/
theorem Reach.of_foldlM {as : List A} (h : Reach next ok start s) (hok : ∀ a ∈ as, ∀ t, ok t a)
    (hrun : as.foldlM next s = some s') : Reach next ok start s' := by
  induction as generalizing s with
  | nil =>
    obtain rfl : s = s' := Option.some.inj hrun
    exact h
  | cons a as ih =>
    rw [List.foldlM_cons] at hrun
    obtain ⟨t, hnext, hrest⟩ := Option.bind_eq_some_iff.mp hrun
    exact ih (h.step (hok a (List.mem_cons_self ..) s) hnext) (fun b hb => hok b (List.mem_cons_of_mem a hb)) hrest

end Runs

/-! ## Tallies

The sum of a quantity over all tasks, and how it changes when one task moves. -/

section Tally
variable {T P : Type} [Fintype T] [DecidableEq T]

def tally (f : P → ℕ) (pc : T → P) : ℕ := ∑ t, f (pc t)

theorem tally_update (f : P → ℕ) (pc : T → P) (t : T) (p : P) :
    tally f (Function.update pc t p) + f (pc t) = tally f pc + f p := by
  have hsplit : ∀ g : T → ℕ, ∑ u, g u = g t + ∑ u ∈ Finset.univ.erase t, g u :=
    fun g => (Finset.add_sum_erase _ _ (Finset.mem_univ t)).symm
  have hrest : ∑ u ∈ Finset.univ.erase t, f (Function.update pc t p u) =
      ∑ u ∈ Finset.univ.erase t, f (pc u) := by
    apply Finset.sum_congr rfl
    intro u hu
    rw [Function.update_of_ne (Finset.ne_of_mem_erase hu)]
  unfold tally
  rw [hsplit, hsplit fun u => f (pc u), hrest, Function.update_self]
  omega

omit [DecidableEq T] in
theorem le_tally (f : P → ℕ) (pc : T → P) (t : T) : f (pc t) ≤ tally f pc := by
  have hle : ∀ u ∈ Finset.univ, 0 ≤ f (pc u) := fun u _ => Nat.zero_le _
  exact Finset.single_le_sum hle (Finset.mem_univ t)

end Tally

end HtDrivers.Lib.Transition
