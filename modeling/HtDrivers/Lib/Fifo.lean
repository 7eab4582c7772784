import Mathlib.Data.List.Nodup
import Mathlib.Data.List.Sublists
import Mathlib.Tactic

/-! A bounded queue in a ring of `n` slots that overwrites its oldest entry when it is full, and the account of
what was put into such a queue, read from it and overwritten in it. -/
namespace HtDrivers.Lib.Fifo
set_option autoImplicit false

/-! ## The ring -/

section Ring
variable {α : Type} {n : ℕ} {slots : ℕ → α} {rd size : ℕ}

/-- The `size` entries from slot `rd` on. -/
def contents (n : ℕ) (slots : ℕ → α) (rd size : ℕ) : List α :=
  (List.range size).map fun k => slots ((rd + k) % n)

/-- Slots less than a turn apart are different. -/
theorem slot_ne {j k : ℕ} (hjk : j < k) (hk : k < j + n) : (rd + j) % n ≠ (rd + k) % n := by
  intro heq
  have hmod : (k - j) % n = 0 := by
    have h := (Nat.modEq_iff_dvd' (by omega)).mp (show (rd + j) ≡ (rd + k) [MOD n] from heq)
    rw [Nat.add_sub_add_left] at h
    exact Nat.mod_eq_zero_of_dvd h
  rw [Nat.mod_eq_of_lt (by omega)] at hmod
  omega

theorem contents_succ : contents n slots rd (size + 1) = contents n slots rd size ++ [slots ((rd + size) % n)] := by
  rw [contents, List.range_succ, List.map_append]
  rfl

theorem contents_cons :
    contents n slots rd (size + 1) = slots (rd % n) :: contents n slots ((rd + 1) % n) size := by
  rw [contents, List.range_succ_eq_map, List.map_cons, List.map_map, Nat.add_zero]
  refine congrArg₂ List.cons rfl (List.map_congr_left ?_)
  intro k _
  change slots ((rd + (k + 1)) % n) = slots (((rd + 1) % n + k) % n)
  rw [Nat.mod_add_mod, Nat.add_assoc, Nat.add_comm 1 k]

/-- A slot outside of the entries can be written. -/
theorem contents_update {x : α} (hsize : size < n) :
    contents n (Function.update slots ((rd + size) % n) x) rd size = contents n slots rd size := by
  refine List.map_congr_left ?_
  intro k hk
  rw [Function.update_of_ne (slot_ne (List.mem_range.mp hk) (by omega))]

theorem contents_put {x : α} (hsize : size < n) :
    contents n (Function.update slots ((rd + size) % n) x) rd (size + 1) = contents n slots rd size ++ [x] := by
  rw [contents_succ, contents_update hsize, Function.update_self]

/-- In a full ring the slot behind the last entry is that of the first one. -/
theorem contents_overwrite {x : α} (hn : 0 < n) :
    contents n (Function.update slots (rd % n) x) ((rd + 1) % n) n = (contents n slots rd n).tail ++ [x] := by
  obtain ⟨m, rfl⟩ : ∃ m, n = m + 1 := ⟨n - 1, by omega⟩
  have hlast : ((rd + 1) % (m + 1) + m) % (m + 1) = rd % (m + 1) := by
    rw [Nat.mod_add_mod, Nat.add_assoc, Nat.add_comm 1 m, Nat.add_mod_right]
  have hold : contents (m + 1) slots rd (m + 1) = _ := contents_cons
  rw [hold, List.tail_cons, ← hlast]
  exact contents_put (Nat.lt_succ_self m)

end Ring

/-! ## The account -/

section Account
variable {α : Type} {puts : List α} {read queue : List (α × ℕ)} {lost : List ℕ} {x : α}

/-- Every entry with the number of its put. -/
abbrev numbered (puts : List α) : List (α × ℕ) := puts.zipIdx

theorem numbered_concat : numbered (puts ++ [x]) = numbered puts ++ [(x, puts.length)] := by
  rw [numbered, List.zipIdx_append]
  simp

theorem number_lt {p : α × ℕ} (h : p ∈ numbered puts) : p.2 < puts.length := by
  obtain ⟨y, i⟩ := p
  have hget := List.mk_mem_zipIdx_iff_getElem?.mp h
  exact (List.getElem?_eq_some_iff.mp hget).1

theorem nodup_numbers (puts : List α) : ((numbered puts).map Prod.snd).Nodup := by
  rw [numbered, List.zipIdx_map_snd]
  exact List.nodup_range'

/-- What was read and what is still queued are all entries except for the lost ones, in order. -/
structure Account (puts : List α) (read queue : List (α × ℕ)) (lost : List ℕ) : Prop where
  entries : read ++ queue = (numbered puts).filter fun p => decide (p.2 ∉ lost)
  bound : ∀ i ∈ lost, i < puts.length
  nodup : lost.Nodup

theorem Account.empty : Account ([] : List α) [] [] [] := ⟨rfl, by simp, List.nodup_nil⟩

theorem Account.put (h : Account puts read queue lost) :
    Account (puts ++ [x]) read (queue ++ [(x, puts.length)]) lost := by
  have hnew : puts.length ∉ lost := fun hmem => absurd (h.bound _ hmem) (lt_irrefl _)
  refine ⟨?_, ?_, h.nodup⟩
  · rw [← List.append_assoc, h.entries, numbered_concat, List.filter_append]
    congr 1
    simp [hnew]
  · intro i hi
    have hlt := h.bound i hi
    rw [List.length_append]
    omega

theorem Account.get {p : α × ℕ} (h : Account puts read (p :: queue) lost) : Account puts (read ++ [p]) queue lost := by
  refine ⟨?_, h.bound, h.nodup⟩
  rw [List.append_assoc, List.singleton_append]
  exact h.entries

/-- The oldest entry is lost. -/
theorem Account.drop {p : α × ℕ} (h : Account puts read (p :: queue) lost) :
    Account puts read queue (p.2 :: lost) := by
  have hnodup : ((read ++ p :: queue).map Prod.snd).Nodup := by
    rw [h.entries]
    exact (nodup_numbers puts).sublist (List.filter_sublist.map _)
  have hin : p ∈ read ++ p :: queue := by simp
  rw [h.entries, List.mem_filter] at hin
  obtain ⟨hmem, hkept⟩ := hin
  rw [List.map_append, List.map_cons, List.nodup_append, List.nodup_cons] at hnodup
  obtain ⟨-, ⟨hqueue, -⟩, hdisjoint⟩ := hnodup
  have hread : ∀ q ∈ read, q.2 ≠ p.2 := fun q hq =>
    hdisjoint q.2 (List.mem_map_of_mem hq) p.2 (List.mem_cons_self ..)
  have hrest : ∀ q ∈ queue, q.2 ≠ p.2 := fun q hq heq => hqueue (heq ▸ List.mem_map_of_mem hq)
  refine ⟨?_, ?_, List.nodup_cons.mpr ⟨of_decide_eq_true hkept, h.nodup⟩⟩
  · have hfilter : (numbered puts).filter (fun q => decide (q.2 ∉ p.2 :: lost)) =
        ((numbered puts).filter fun q => decide (q.2 ∉ lost)).filter fun q => decide (q.2 ≠ p.2) := by
      rw [List.filter_filter]
      refine List.filter_congr ?_
      intro q _
      simp
    rw [hfilter, ← h.entries, List.filter_append, List.filter_cons]
    simp only [ne_eq, not_true_eq_false, decide_false, Bool.false_eq_true, if_false]
    rw [List.filter_eq_self.mpr (fun q hq => by simpa using hread q hq),
      List.filter_eq_self.mpr (fun q hq => by simpa using hrest q hq)]
  · intro i hi
    obtain rfl | hi := List.mem_cons.mp hi
    · exact number_lt hmem
    · exact h.bound i hi

end Account

/-! ## In order and only once

A weaker account for queues that are also emptied: entries come out in the order of their puts, none twice. -/

section InOrder
variable {α : Type} {puts : List α} {read queue : List (α × ℕ)} {x : α}

def InOrder (puts : List α) (read queue : List (α × ℕ)) : Prop := (read ++ queue).Sublist (numbered puts)

theorem InOrder.empty : InOrder ([] : List α) [] [] := List.Sublist.refl _

theorem InOrder.put (h : InOrder puts read queue) : InOrder (puts ++ [x]) read (queue ++ [(x, puts.length)]) := by
  unfold InOrder
  rw [← List.append_assoc, numbered_concat]
  exact h.append (List.Sublist.refl _)

theorem InOrder.get {p : α × ℕ} (h : InOrder puts read (p :: queue)) : InOrder puts (read ++ [p]) queue := by
  unfold InOrder
  rw [List.append_assoc, List.singleton_append]
  exact h

theorem InOrder.drop {kept : List (α × ℕ)} (h : InOrder puts read queue) (hkept : kept.Sublist queue) :
    InOrder puts read kept :=
  ((List.Sublist.refl read).append hkept).trans h

end InOrder

end HtDrivers.Lib.Fifo
