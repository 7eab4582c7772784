import Mathlib.Data.Multiset.Count
import Mathlib.Tactic

/-! Resource ledgers. A program's log of acquisitions and releases is settled when every resource
was given back as often as it was taken and never before it was taken. -/
namespace HtDrivers.Lib.Ledger
set_option autoImplicit false

inductive Entry (R : Type) where
  | acquire (r : R)
  | release (r : R)
  deriving DecidableEq, Repr

variable {R : Type} [DecidableEq R]

/-- The units of `r` still held after the log, as an integer: a release without an acquisition
counts as a debt. -/
def held (r : R) : List (Entry R) → Int
  | [] => 0
  | .acquire q :: log => (if q = r then 1 else 0) + held r log
  | .release q :: log => (if q = r then -1 else 0) + held r log

@[simp] theorem held_nil (r : R) : held r [] = 0 := rfl

@[simp] theorem held_acquire (r q : R) (log : List (Entry R)) :
    held r (.acquire q :: log) = (if q = r then 1 else 0) + held r log := rfl

@[simp] theorem held_release (r q : R) (log : List (Entry R)) :
    held r (.release q :: log) = (if q = r then -1 else 0) + held r log := rfl

@[simp] theorem held_append (r : R) (l m : List (Entry R)) : held r (l ++ m) = held r l + held r m := by
  induction l with
  | nil => simp
  | cons e l ih => cases e <;> simp [ih, Int.add_assoc]

theorem held_releases (r : R) (qs : List R) : held r (qs.map .release) = -(qs.count r : Int) := by
  induction qs with
  | nil => simp
  | cons q qs ih =>
    rw [List.map_cons, held_release, ih, List.count_cons]
    by_cases hq : q = r
    · simp [hq]
    · simp [hq]

/-- After the log exactly the resources `rs` are held, and nothing was given back that was not held
at the time. -/
structure Holds (log : List (Entry R)) (rs : Multiset R) : Prop where
  balance : ∀ r, held r log = rs.count r
  covered : ∀ r l, l <+: log → 0 ≤ held r l

/-- Nothing is held at the end. -/
def Settled (log : List (Entry R)) : Prop := Holds log 0

section Holds
variable {log : List (Entry R)} {rs : Multiset R} {r : R}

theorem Holds.nil : Holds ([] : List (Entry R)) 0 where
  balance := fun r => by simp
  covered := fun r l hl => by simp [List.prefix_nil.mp hl]

theorem Holds.acquire (h : Holds log rs) : Holds (log ++ [.acquire r]) (r ::ₘ rs) where
  balance := fun q => by
    rw [held_append, h.balance q]
    by_cases hq : r = q
    · subst hq
      simp
    · simp [hq, Multiset.count_cons_of_ne (Ne.symm hq)]
  covered := fun q l hl => by
    obtain rfl | hl := List.prefix_concat_iff.mp hl
    · have := h.covered q log (List.prefix_refl log)
      rw [held_append, held_acquire, held_nil]
      split <;> omega
    · exact h.covered q l hl

theorem Holds.release (h : Holds log (r ::ₘ rs)) : Holds (log ++ [.release r]) rs := by
  have hbal : ∀ q, held q (log ++ [.release r]) = rs.count q := by
    intro q
    rw [held_append, h.balance q]
    by_cases hq : r = q
    · subst hq
      simp
    · simp [hq, Multiset.count_cons_of_ne (Ne.symm hq)]
  refine ⟨hbal, fun q l hl => ?_⟩
  obtain rfl | hl := List.prefix_concat_iff.mp hl
  · rw [hbal q]
    exact Int.natCast_nonneg _
  · exact h.covered q l hl

theorem Holds.acquires (qs : List R) (h : Holds log rs) :
    Holds (log ++ qs.map .acquire) (rs + (qs : Multiset R)) := by
  induction qs generalizing log rs with
  | nil => simpa using h
  | cons q qs ih =>
    have := ih (h.acquire (r := q))
    rw [List.append_assoc] at this
    rwa [← Multiset.cons_coe, Multiset.add_cons, ← Multiset.cons_add]

theorem Holds.releases (qs : List R) (h : Holds log (rs + (qs : Multiset R))) :
    Holds (log ++ qs.map .release) rs := by
  induction qs generalizing log with
  | nil => simpa using h
  | cons q qs ih =>
    rw [← Multiset.cons_coe, Multiset.add_cons] at h
    have := ih h.release
    rwa [List.append_assoc] at this

end Holds

/-! ## What was taken and what was given back -/

/-- Every acquisition of the log. -/
def acquired : List (Entry R) → Multiset R
  | [] => 0
  | .acquire q :: log => q ::ₘ acquired log
  | .release _ :: log => acquired log

/-- Every release of the log. -/
def released : List (Entry R) → Multiset R
  | [] => 0
  | .acquire _ :: log => released log
  | .release q :: log => q ::ₘ released log

omit [DecidableEq R] in
theorem acquired_append (l m : List (Entry R)) : acquired (l ++ m) = acquired l + acquired m := by
  induction l with
  | nil => simp [acquired]
  | cons e l ih => cases e <;> simp [acquired, ih]

omit [DecidableEq R] in
theorem released_append (l m : List (Entry R)) : released (l ++ m) = released l + released m := by
  induction l with
  | nil => simp [released]
  | cons e l ih => cases e <;> simp [released, ih]

omit [DecidableEq R] in
theorem acquired_acquires (qs : List R) : acquired (qs.map .acquire) = qs := by
  induction qs with
  | nil => rfl
  | cons q qs ih => rw [List.map_cons, acquired, ih, Multiset.cons_coe]

omit [DecidableEq R] in
theorem acquired_releases (qs : List R) : acquired (qs.map .release) = 0 := by
  induction qs with
  | nil => rfl
  | cons q qs ih => rw [List.map_cons, acquired, ih]

omit [DecidableEq R] in
theorem released_acquires (qs : List R) : released (qs.map .acquire) = 0 := by
  induction qs with
  | nil => rfl
  | cons q qs ih => rw [List.map_cons, released, ih]

omit [DecidableEq R] in
theorem released_releases (qs : List R) : released (qs.map .release) = qs := by
  induction qs with
  | nil => rfl
  | cons q qs ih => rw [List.map_cons, released, ih, Multiset.cons_coe]

theorem held_eq (r : R) (log : List (Entry R)) :
    held r log = (acquired log).count r - (released log).count r := by
  induction log with
  | nil => simp [acquired, released]
  | cons e log ih =>
    cases e with
    | acquire q =>
      rw [held_acquire, acquired, released, ih, Multiset.count_cons]
      by_cases hq : q = r
      · simp [hq]
        ring
      · simp [hq, Ne.symm hq]
    | release q =>
      rw [held_release, acquired, released, ih, Multiset.count_cons]
      by_cases hq : q = r
      · simp [hq]
        ring
      · simp [hq, Ne.symm hq]

/-- A settled log gives back exactly what it took. -/
theorem Settled.released_eq {log : List (Entry R)} (h : Settled log) : released log = acquired log := by
  refine Multiset.ext.mpr fun r => ?_
  have hr := h.balance r
  rw [held_eq, Multiset.count_zero] at hr
  omega

end HtDrivers.Lib.Ledger
