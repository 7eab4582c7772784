import Mathlib.Data.Nat.Count
import Mathlib.Tactic

/-! Numbers whose words stand with the most significant first: their bits, and what a change of one word does. -/
namespace HtDrivers.Lib.BigEndian
set_option autoImplicit false

section Number
variable {w : ℕ} (val : ℕ → BitVec w)

/-- The number in the first `n` words. -/
def number : ℕ → ℕ
  | 0 => 0
  | n + 1 => number n * 2^w + (val n).toNat

/-- Its bit `p`, from the least significant on. -/
def bitAt (n p : ℕ) : Bool := (val (n - 1 - p / w)).getLsbD (p % w)

theorem number_congr {val' : ℕ → BitVec w} {n : ℕ} (h : ∀ i < n, val i = val' i) : number val n = number val' n := by
  induction n with
  | zero => rfl
  | succ n ih => rw [number, number, ih fun i hi => h i (by omega), h n (Nat.lt_succ_self n)]

theorem number_lt (n : ℕ) : number val n < (2^w)^n := by
  induction n with
  | zero => simp [number]
  | succ n ih =>
    have hword := (val n).isLt
    have hstep : number val n * 2^w + 2^w ≤ (2^w)^n * 2^w := by
      rw [← Nat.succ_mul]
      exact Nat.mul_le_mul_right _ ih
    rw [number, pow_succ]
    omega

theorem testBit_number (hw : 0 < w) {n p : ℕ} (hp : p < w * n) : (number val n).testBit p = bitAt val n p := by
  induction n generalizing p with
  | zero => omega
  | succ n ih =>
    rw [number, Nat.mul_comm, Nat.testBit_two_pow_mul_add _ (val n).isLt]
    split
    · rename_i hlow
      rw [bitAt, Nat.div_eq_of_lt hlow, Nat.mod_eq_of_lt hlow]
      rfl
    · rename_i hhigh
      have hle : w ≤ p := Nat.le_of_not_lt hhigh
      have hmul : w * (n + 1) = w * n + w := Nat.mul_succ w n
      have hdiv : p / w = (p - w) / w + 1 := by
        rw [← Nat.sub_add_cancel hle, Nat.add_div_right _ hw, Nat.add_sub_cancel]
      rw [ih (by omega), bitAt, bitAt, hdiv, Nat.mod_eq_sub_mod hle]
      congr 2
      omega

end Number
end HtDrivers.Lib.BigEndian
