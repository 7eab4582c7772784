import Mathlib.Tactic

/-! # Heaps of linked blocks

A block is known by its number; the numbers of freed blocks are never given out again. Reading or freeing a freed
block is undefined. In a sound heap every block has at most one owner.
-/
namespace HtDrivers.Lib.OwnedHeap
set_option autoImplicit false

structure Heap (C : Type) where
  cells : ℕ → C
  next : ℕ
  freed : List ℕ

/-- The kind of a block with a given content, and the blocks it points to with the kind each is taken for. -/
structure Layout (C K : Type) where
  kind : C → K
  links : C → List (K × ℕ)

section Operations
variable {C : Type}

def Heap.read (m : Heap C) (p : ℕ) : Option C := if p ∈ m.freed then none else some (m.cells p)

def Heap.write (m : Heap C) (p : ℕ) (c : C) : Heap C := { m with cells := Function.update m.cells p c }

def Heap.alloc (m : Heap C) (c : C) : Heap C × ℕ :=
  ({ m with cells := Function.update m.cells m.next c, next := m.next + 1 }, m.next)

def Heap.free (m : Heap C) (p : ℕ) : Option (Heap C) :=
  if p ∈ m.freed then none else some { m with freed := m.freed ++ [p] }

def Heap.freeAll : Heap C → List ℕ → Option (Heap C)
  | m, [] => some m
  | m, p :: rest => m.free p >>= fun m => m.freeAll rest

variable {m m' : Heap C} {p : ℕ} {c : C}

theorem read_eq_some : m.read p = some c ↔ p ∉ m.freed ∧ m.cells p = c := by
  unfold Heap.read
  split_ifs with h
  · simp [h]
  · simp [h]

theorem read_of_live (h : p ∉ m.freed) : m.read p = some (m.cells p) := read_eq_some.mpr ⟨h, rfl⟩

theorem free_eq_some : m.free p = some m' ↔ p ∉ m.freed ∧ { m with freed := m.freed ++ [p] } = m' := by
  unfold Heap.free
  split_ifs with h
  · simp [h]
  · simp [h]

theorem alloc_cells_self (m : Heap C) (c : C) : (m.alloc c).1.cells m.next = c := by
  simp only [Heap.alloc, Function.update_self]

theorem alloc_cells_of_ne (c : C) (h : p ≠ m.next) : (m.alloc c).1.cells p = m.cells p := by
  simp only [Heap.alloc, Function.update_of_ne h]

theorem write_cells_self (m : Heap C) (p : ℕ) (c : C) : (m.write p c).cells p = c := by
  simp only [Heap.write, Function.update_self]

theorem write_cells_of_ne {q : ℕ} (c : C) (h : q ≠ p) : (m.write p c).cells q = m.cells q := by
  simp only [Heap.write, Function.update_of_ne h]

theorem freeAll_append (l l' : List ℕ) : m.freeAll (l ++ l') = m.freeAll l >>= fun m => m.freeAll l' := by
  induction l generalizing m with
  | nil => rfl
  | cons p l ih =>
    simp only [List.cons_append, Heap.freeAll, Option.bind_eq_bind, Option.bind_assoc]
    congr 1
    funext m'
    exact ih

theorem freeAll_singleton (p : ℕ) : m.freeAll [p] = m.free p := by
  simp only [Heap.freeAll, Option.bind_eq_bind]
  cases m.free p <;> rfl

/-- Blocks can be freed one after the other exactly if each is there and none comes twice. -/
theorem freeAll_eq_some (l : List ℕ) : m.freeAll l = some m' ↔
    l.Nodup ∧ (∀ p ∈ l, p ∉ m.freed) ∧ { m with freed := m.freed ++ l } = m' := by
  induction l generalizing m with
  | nil => simp [Heap.freeAll]
  | cons p l ih =>
    simp only [Heap.freeAll, Option.bind_eq_bind, Option.bind_eq_some_iff, free_eq_some, List.nodup_cons,
      List.forall_mem_cons]
    constructor
    · rintro ⟨m₁, ⟨hp, rfl⟩, h⟩
      obtain ⟨hnodup, hlive, rfl⟩ := ih.mp h
      simp only [List.mem_append, List.mem_singleton, not_or] at hlive
      refine ⟨⟨fun hmem => (hlive p hmem).2 rfl, hnodup⟩, ⟨hp, fun q hq => (hlive q hq).1⟩, ?_⟩
      rw [List.append_assoc]
      rfl
    · rintro ⟨⟨hmem, hnodup⟩, ⟨hp, hlive⟩, rfl⟩
      refine ⟨_, ⟨hp, rfl⟩, ih.mpr ⟨hnodup, fun q hq => ?_, ?_⟩⟩
      · rw [List.mem_append, List.mem_singleton, not_or]
        exact ⟨hlive q hq, fun h => hmem (h ▸ hq)⟩
      · rw [List.append_assoc]
        rfl

end Operations

/-! ## Sound heaps -/

section Sound
variable {C K : Type} (L : Layout C K)

inductive Reach (m : Heap C) (root : ℕ) : ℕ → Prop
  | root : Reach m root root
  | link {p q : ℕ} {k : K} : Reach m root p → (k, q) ∈ L.links (m.cells p) → Reach m root q

structure Sound (m : Heap C) : Prop where
  below : ∀ p, ∀ l ∈ L.links (m.cells p), p < m.next ∧ l.2 < m.next
  kinds : ∀ p, ∀ l ∈ L.links (m.cells p), L.kind (m.cells l.2) = l.1
  nodup : ∀ p, ((L.links (m.cells p)).map Prod.snd).Nodup
  owner : ∀ p q, ∀ l ∈ L.links (m.cells p), ∀ l' ∈ L.links (m.cells q), l.2 = l'.2 → p = q
  freed : ∀ p ∈ m.freed, p < m.next

/-- A part of the program that changes no block but `p` and those it allocates. -/
structure OnlyAt (p : ℕ) (m m' : Heap C) : Prop where
  next_le : m.next ≤ m'.next
  cells : ∀ q < m.next, q ≠ p → m'.cells q = m.cells q
  freed : ∀ q < m.next, q ∈ m'.freed ↔ q ∈ m.freed

variable {L} {m m' : Heap C} {p q : ℕ} {c d : C}

theorem OnlyAt.trans {m'' : Heap C} (h : OnlyAt p m m') (h' : OnlyAt p m' m'') : OnlyAt p m m'' where
  next_le := h.next_le.trans h'.next_le
  cells q hq hne := (h'.cells q (hq.trans_le h.next_le) hne).trans (h.cells q hq hne)
  freed q hq := (h'.freed q (hq.trans_le h.next_le)).trans (h.freed q hq)

theorem onlyAt_alloc (p : ℕ) (c : C) : OnlyAt p m (m.alloc c).1 where
  next_le := Nat.le_succ _
  cells _ hq _ := alloc_cells_of_ne c hq.ne
  freed _ _ := Iff.rfl

theorem onlyAt_write (p : ℕ) (c : C) : OnlyAt p m (m.write p c) where
  next_le := le_rfl
  cells _ _ hne := write_cells_of_ne c hne
  freed _ _ := Iff.rfl

/-- A block that points nowhere is allocated. -/
theorem Sound.alloc (h : Sound L m) (hc : L.links c = []) : Sound L (m.alloc c).1 := by
  have hlinks : ∀ q, ∀ l ∈ L.links ((m.alloc c).1.cells q), q ≠ m.next ∧ l ∈ L.links (m.cells q) := by
    intro q l hl
    by_cases hq : q = m.next
    · subst hq
      rw [alloc_cells_self, hc] at hl
      cases hl
    · rw [alloc_cells_of_ne c hq] at hl
      exact ⟨hq, hl⟩
  constructor
  · intro q l hl
    obtain ⟨hq, hl'⟩ := h.below q l (hlinks q l hl).2
    exact ⟨hq.trans (Nat.lt_succ_self _), hl'.trans (Nat.lt_succ_self _)⟩
  · intro q l hl
    have hne := (h.below q l (hlinks q l hl).2).2.ne
    rw [alloc_cells_of_ne c hne]
    exact h.kinds q l (hlinks q l hl).2
  · intro q
    by_cases hq : q = m.next
    · subst hq
      simp [Heap.alloc, hc]
    · simp only [Heap.alloc, Function.update_of_ne hq]
      exact h.nodup q
  · intro q r l hl l' hl'
    exact h.owner q r l (hlinks q l hl).2 l' (hlinks r l' hl').2
  · intro q hq
    exact (h.freed q hq).trans (Nat.lt_succ_self _)

/-- A block gets a new content that points to no other blocks than the old one, or to one that has no owner. -/
theorem Sound.write (h : Sound L m) (hp : p < m.next) (hkind : L.kind d = L.kind (m.cells p)) (q : ℕ)
    (hq : q < m.next) (hqp : q ≠ p) (hnone : ∀ r, ∀ l ∈ L.links (m.cells r), l.2 ≠ q)
    (hsub : ∀ l ∈ L.links d, l ∈ L.links (m.cells p) ∨ l = (L.kind (m.cells q), q))
    (hnodup : ((L.links d).map Prod.snd).Nodup) : Sound L (m.write p d) := by
  have hlinks : ∀ r, ∀ l ∈ L.links ((m.write p d).cells r), l ∈ L.links (m.cells r) ∨
      r = p ∧ l = (L.kind (m.cells q), q) := by
    intro r l hl
    by_cases hr : r = p
    · subst hr
      rw [write_cells_self] at hl
      exact (hsub l hl).imp id fun h => ⟨rfl, h⟩
    · rw [write_cells_of_ne d hr] at hl
      exact .inl hl
  have hkinds : ∀ r, L.kind ((m.write p d).cells r) = L.kind (m.cells r) := by
    intro r
    by_cases hr : r = p
    · subst hr
      rw [write_cells_self, hkind]
    · rw [write_cells_of_ne d hr]
  constructor
  · intro r l hl
    obtain hl | ⟨rfl, rfl⟩ := hlinks r l hl
    · exact h.below r l hl
    · exact ⟨hp, hq⟩
  · intro r l hl
    rw [hkinds]
    obtain hl | ⟨-, rfl⟩ := hlinks r l hl
    · exact h.kinds r l hl
    · rfl
  · intro r
    by_cases hr : r = p
    · subst hr
      rwa [write_cells_self]
    · rw [write_cells_of_ne d hr]
      exact h.nodup r
  · intro r s l hl l' hl' heq
    obtain hl | ⟨hr, hlq⟩ := hlinks r l hl
    · obtain hl' | ⟨hs, hlq'⟩ := hlinks s l' hl'
      · exact h.owner r s l hl l' hl' heq
      · rw [hlq'] at heq
        exact absurd heq (hnone r l hl)
    · obtain hl' | ⟨hs, hlq'⟩ := hlinks s l' hl'
      · rw [hlq] at heq
        exact absurd heq.symm (hnone s l' hl')
      · rw [hr, hs]
  · exact h.freed

/-- A new block with content `c` is linked to `p`, whose content becomes `d`. -/
def Heap.attach (m : Heap C) (p : ℕ) (c d : C) : Heap C := (m.alloc c).1.write p d

theorem attach_cells_self (m : Heap C) (p : ℕ) (c d : C) : (m.attach p c d).cells p = d := write_cells_self _ p d

theorem attach_cells_new (hp : p < m.next) : (m.attach p c d).cells m.next = c :=
  (write_cells_of_ne d hp.ne').trans (alloc_cells_self m c)

theorem onlyAt_attach (m : Heap C) (p : ℕ) (c d : C) : OnlyAt p m (m.attach p c d) :=
  (onlyAt_alloc p c).trans (onlyAt_write p d)

theorem Sound.attach (h : Sound L m) (hp : p < m.next) (hc : L.links c = []) (hkind : L.kind d = L.kind (m.cells p))
    (hsub : ∀ l ∈ L.links d, l ∈ L.links (m.cells p) ∨ l = (L.kind c, m.next))
    (hnodup : ((L.links d).map Prod.snd).Nodup) : Sound L (m.attach p c d) := by
  have hold : (m.alloc c).1.cells p = m.cells p := alloc_cells_of_ne c hp.ne
  have hnew : (m.alloc c).1.cells m.next = c := alloc_cells_self m c
  refine (h.alloc hc).write (hp.trans (Nat.lt_succ_self _)) ?_ m.next (Nat.lt_succ_self _) hp.ne' ?_ ?_ hnodup
  · rw [hold, hkind]
  · intro r l hl hl'
    by_cases hr : r = m.next
    · rw [hr, hnew, hc] at hl
      cases hl
    · simp only [Heap.alloc, Function.update_of_ne hr] at hl
      exact (h.below r l hl).2.ne hl'
  · rw [hold, hnew]
    exact hsub

/-- The new block is one more among the links of `p`. -/
theorem Sound.attach_of_perm (h : Sound L m) (hp : p < m.next) (hc : L.links c = [])
    (hkind : L.kind d = L.kind (m.cells p))
    (hperm : (L.links d).Perm ((L.kind c, m.next) :: L.links (m.cells p))) : Sound L (m.attach p c d) := by
  apply h.attach hp hc hkind
  · intro l hl
    exact (List.mem_cons.mp (hperm.mem_iff.mp hl)).symm
  · rw [(hperm.map Prod.snd).nodup_iff, List.map_cons, List.nodup_cons]
    refine ⟨fun hmem => ?_, h.nodup p⟩
    obtain ⟨l, hl, heq⟩ := List.mem_map.mp hmem
    exact (h.below p l hl).2.ne heq

end Sound

end HtDrivers.Lib.OwnedHeap
