import Mathlib.Data.List.Chain
import Mathlib.Tactic

/-! Walking a linked chain. `next a` is what a reader finds at `a`: nothing it can use (`none`),
the end of the chain (`some none`), or a link to another cell (`some (some b)`). -/
namespace HtDrivers.Lib.Chain
set_option autoImplicit false

variable {A : Type} {next : A → Option (Option A)}

/-- The walk from `a` visits exactly the cells of the list, in order, and stops at its last one. -/
inductive Walks (next : A → Option (Option A)) : A → List A → Prop
  | last {a : A} : next a = some none → Walks next a [a]
  | link {a b : A} {l : List A} : next a = some (some b) → Walks next b l → Walks next a (a :: l)

/-- One link of the chain. -/
def Links (next : A → Option (Option A)) (a b : A) : Prop := next a = some (some b)

/-- The cells a reader that starts at `a` can come to. -/
def Reaches (next : A → Option (Option A)) : A → A → Prop := Relation.ReflTransGen (Links next)

theorem Walks.of_isChain {a : A} {l : List A} (hl : (a :: l).IsChain (Links next))
    (hlast : next ((a :: l).getLast (List.cons_ne_nil a l)) = some none) : Walks next a (a :: l) := by
  induction l generalizing a with
  | nil => exact .last hlast
  | cons b l ih =>
    rw [List.isChain_cons_cons] at hl
    rw [List.getLast_cons (List.cons_ne_nil b l)] at hlast
    exact .link hl.1 (ih hl.2 hlast)

theorem Walks.unique {a : A} {l m : List A} (hl : Walks next a l) (hm : Walks next a m) : l = m := by
  induction hl generalizing m with
  | last h =>
    cases hm with
    | last h' => rfl
    | link h' _ => rw [h] at h'; cases h'
  | @link a b l h _ ih =>
    cases hm with
    | last h' => rw [h] at h'; cases h'
    | @link _ c m h' hm =>
      rw [h] at h'
      obtain rfl : b = c := by simpa using h'
      rw [ih hm]

theorem Walks.mem_of_reaches {a b : A} {l : List A} (hw : Walks next a l) (hr : Reaches next a b) :
    b ∈ l := by
  -- the walk is cut at the cell reached so far, so that its next link can be read off
  have hsuffix : ∃ m, Walks next b m ∧ m ⊆ l := by
    induction hr with
    | refl => exact ⟨l, hw, List.Subset.refl l⟩
    | @tail x y _ hxy ih =>
      obtain ⟨m, hm, hsub⟩ := ih
      unfold Links at hxy
      cases hm with
      | last h => rw [h] at hxy; cases hxy
      | @link _ z m h hm =>
        rw [h] at hxy
        obtain rfl : z = y := by simpa using hxy
        exact ⟨m, hm, fun c hc => hsub (List.mem_cons_of_mem x hc)⟩
  obtain ⟨m, hm, hsub⟩ := hsuffix
  cases hm with
  | last h => exact hsub (List.mem_singleton_self b)
  | link h hm => exact hsub (List.mem_cons_self ..)

theorem Reaches.of_isChain {a b : A} {l : List A} (hl : (a :: l).IsChain (Links next))
    (hlast : (a :: l).getLast (List.cons_ne_nil a l) = b) : Reaches next a b :=
  List.relationReflTransGen_of_exists_isChain_cons l hl hlast

end HtDrivers.Lib.Chain
