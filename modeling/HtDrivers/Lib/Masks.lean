import Mathlib.Tactic

/-! Words as sets of bits: setting a bit, clearing one, and what remains. -/
namespace HtDrivers.Lib.Masks
set_option autoImplicit false

section Bits
variable {w : ℕ} {m : BitVec w} {k i : ℕ}

theorem or_twoPow_bit (hk : k < w) :
    (m ||| BitVec.twoPow w k).getLsbD i = true ↔ m.getLsbD i = true ∨ i = k := by
  rw [BitVec.getLsbD_or, BitVec.getLsbD_twoPow, Bool.or_eq_true]
  simp only [hk, decide_true, Bool.true_and, decide_eq_true_eq]
  rw [eq_comm (a := k)]

theorem or_twoPow_bit_of_lt (hi : i < w) :
    (m ||| BitVec.twoPow w k).getLsbD i = true ↔ m.getLsbD i = true ∨ i = k := by
  by_cases hk : k < w
  · exact or_twoPow_bit hk
  · have hne : i ≠ k := by omega
    rw [BitVec.getLsbD_or, BitVec.getLsbD_twoPow, decide_eq_false hk, Bool.false_and, Bool.or_false]
    simp [hne]

theorem and_not_twoPow_bit : (m &&& ~~~BitVec.twoPow w k).getLsbD i = true ↔ m.getLsbD i = true ∧ i ≠ k := by
  rw [BitVec.getLsbD_and, BitVec.getLsbD_not, BitVec.getLsbD_twoPow, Bool.and_eq_true]
  constructor
  · rintro ⟨hbit, hnot⟩
    refine ⟨hbit, ?_⟩
    rintro rfl
    have hlt := BitVec.lt_of_getLsbD hbit
    simp [hlt] at hnot
  · rintro ⟨hbit, hne⟩
    have hlt := BitVec.lt_of_getLsbD hbit
    refine ⟨hbit, ?_⟩
    simp [hlt, Ne.symm hne]

theorem ne_zero_iff : m ≠ 0 ↔ ∃ i, m.getLsbD i = true := by
  constructor
  · intro hne
    by_contra hnone
    simp only [not_exists, Bool.not_eq_true] at hnone
    refine hne (BitVec.eq_of_getLsbD_eq fun i _ => ?_)
    rw [hnone i]
    simp
  · rintro ⟨i, hbit⟩ rfl
    simp at hbit

/-- The test of one bit. -/
theorem twoPow_and_ne_zero (hk : k < w) : BitVec.twoPow w k &&& m ≠ 0 ↔ m.getLsbD k = true := by
  rw [ne_zero_iff]
  constructor
  · rintro ⟨i, hi⟩
    rw [BitVec.getLsbD_and, BitVec.getLsbD_twoPow, Bool.and_eq_true, Bool.and_eq_true, decide_eq_true_eq,
      decide_eq_true_eq] at hi
    obtain ⟨⟨-, rfl⟩, hbit⟩ := hi
    exact hbit
  · intro hbit
    refine ⟨k, ?_⟩
    rw [BitVec.getLsbD_and, BitVec.getLsbD_twoPow, hbit]
    simp [hk]

theorem and_not_twoPow_ne_zero_iff : m &&& ~~~BitVec.twoPow w k ≠ 0 ↔ ∃ i, m.getLsbD i = true ∧ i ≠ k := by
  rw [ne_zero_iff]
  simp only [and_not_twoPow_bit]

end Bits

end HtDrivers.Lib.Masks
