import Mathlib.Data.Nat.Bitwise
import Mathlib.Tactic

/-! Low-order masks of machine words. A mask of `k` ones keeps the residue modulo `2^k`;
its complement rounds down to a multiple of `2^k`. Two words make one of twice the width. -/
namespace HtDrivers.Lib.Words
set_option autoImplicit false

theorem toNat_and_low {w k : ℕ} (x m : BitVec w) (hm : m.toNat = 2^k - 1) :
    (x &&& m).toNat = x.toNat % 2^k := by
  rw [BitVec.toNat_and, hm, Nat.and_two_pow_sub_one_eq_mod]

theorem toNat_and_high {w k : ℕ} (x m : BitVec w) (hm : m.toNat = 2^k - 1) :
    (x &&& ~~~m).toNat = 2^k * (x.toNat / 2^k) := by
  have hbit : ∀ i, m.getLsbD i = decide (i < k) := by
    intro i
    rw [← BitVec.testBit_toNat, hm, Nat.testBit_two_pow_sub_one]
  apply Nat.eq_of_testBit_eq
  intro i
  rw [BitVec.testBit_toNat, BitVec.getLsbD_and, BitVec.getLsbD_not, hbit, Nat.testBit_two_pow_mul,
    Nat.testBit_div_two_pow, ← BitVec.testBit_toNat]
  by_cases hik : i < k
  · have hlow : ¬ i ≥ k := by omega
    simp [hik, hlow]
  · have hge : i ≥ k := by omega
    have hi : i - k + k = i := by omega
    by_cases hiw : i < w
    · simp [hik, hge, hi, hiw]
    · -- above the word both sides read a zero bit
      have hzero : x.toNat.testBit i = false := by
        rw [BitVec.testBit_toNat]
        exact BitVec.getLsbD_of_ge x i (by omega)
      simp [hi, hzero]

/-! ## Pairs of words -/

section Pairs
variable {w : ℕ}

/-- The word of twice the width with upper half `hi` and lower half `lo`. -/
def pair (hi lo : BitVec w) : BitVec (w + w) := hi ++ lo

theorem toNat_pair (hi lo : BitVec w) : (pair hi lo).toNat = 2^w * hi.toNat + lo.toNat := by
  unfold pair
  rw [BitVec.toNat_append, Nat.shiftLeft_eq, Nat.mul_comm, Nat.two_pow_add_eq_or_of_lt lo.isLt]

/-- A lower half that carried is smaller than either summand. -/
theorem add_lt_iff_carry (x y : BitVec w) : x + y < y ↔ 2^w ≤ x.toNat + y.toNat := by
  have hx := x.isLt
  have hy := y.isLt
  rw [BitVec.lt_def, BitVec.toNat_add]
  by_cases hc : 2^w ≤ x.toNat + y.toNat
  · rw [Nat.mod_eq_sub_mod hc, Nat.mod_eq_of_lt (by omega)]
    omega
  · rw [Nat.mod_eq_of_lt (by omega)]
    omega

end Pairs

end HtDrivers.Lib.Words
