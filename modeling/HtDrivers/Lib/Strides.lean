import Mathlib.Tactic

/-! Walks through words in equal strides. A walk that never has room to pass round the words above a bound stays
below it exactly when its last place does, with the stride taken as a number with a sign. -/
namespace HtDrivers.Lib.Strides
set_option autoImplicit false

section Walk
variable {w : ℕ} {o s : BitVec w} {m n i : ℕ}

/-- Place `i` of the walk from `o` in strides of `s`. -/
def place (o s : BitVec w) (i : ℕ) : BitVec w := o + BitVec.ofNat w i * s

/-- The same place without a bound. -/
def wide (o s : BitVec w) (i : ℕ) : ℤ := o.toNat + i * s.toInt

theorem place_zero : place o s 0 = o := by
  simp [place]

theorem wide_succ : wide o s (i + 1) = wide o s i + s.toInt := by
  unfold wide
  push_cast
  ring

theorem toNat_place : ((place o s i).toNat : ℤ) = wide o s i % (2 : ℤ)^w := by
  have hplace : place o s i = BitVec.ofInt w (wide o s i) := by
    unfold place wide
    rw [BitVec.ofInt_add, BitVec.ofInt_mul, BitVec.ofInt_toInt, BitVec.ofInt_natCast, BitVec.ofInt_natCast,
      BitVec.ofNat_toNat, BitVec.setWidth_eq]
  have hpos : (0 : ℤ) < (2 : ℤ)^w := by positivity
  rw [hplace, BitVec.toNat_ofInt]
  push_cast
  exact Int.toNat_of_nonneg (Int.emod_nonneg _ hpos.ne')

theorem place_le_of_wide (hm : m < 2^w) (h0 : 0 ≤ wide o s i) (hle : wide o s i ≤ m) : (place o s i).toNat ≤ m := by
  have hlt : wide o s i < (2 : ℤ)^w := by
    have hm' : (m : ℤ) < (2 : ℤ)^w := by exact_mod_cast hm
    omega
  have hplace := toNat_place (o := o) (s := s) (i := i)
  rw [Int.emod_eq_of_lt h0 hlt] at hplace
  omega

/-- A stride cannot lead from one side of the words above `m` to the other. -/
theorem wide_next (hgap : s.toInt.natAbs + m < 2^w) (h0 : 0 ≤ wide o s i) (hle : wide o s i ≤ m)
    (hnext : (place o s (i + 1)).toNat ≤ m) : 0 ≤ wide o s (i + 1) ∧ wide o s (i + 1) ≤ m := by
  have hplace := toNat_place (o := o) (s := s) (i := i + 1)
  have hsucc := wide_succ (o := o) (s := s) (i := i)
  have hgap' : (s.toInt.natAbs : ℤ) + m < (2 : ℤ)^w := by exact_mod_cast hgap
  generalize (2 : ℤ)^w = words at hplace hgap'
  generalize wide o s (i + 1) = z at hplace hsucc ⊢
  by_cases hneg : z < 0
  · rw [← Int.add_emod_right, Int.emod_eq_of_lt (by omega) (by omega)] at hplace
    omega
  · rw [Int.emod_eq_of_lt (by omega) (by omega)] at hplace
    omega

theorem walk_le_iff (ho : o.toNat ≤ m) (hgap : s.toInt.natAbs + m < 2^w) :
    (∀ i ≤ n, (place o s i).toNat ≤ m) ↔ 0 ≤ wide o s n ∧ wide o s n ≤ m := by
  have hfirst : wide o s 0 = o.toNat := by
    simp [wide]
  constructor
  · intro hall
    have hwide : ∀ i ≤ n, 0 ≤ wide o s i ∧ wide o s i ≤ m := by
      intro i hi
      induction i with
      | zero =>
        rw [hfirst]
        omega
      | succ i ih =>
        obtain ⟨h0, hle⟩ := ih (by omega)
        exact wide_next hgap h0 hle (hall (i + 1) hi)
    exact hwide n le_rfl
  · rintro ⟨h0, hle⟩ i hi
    have hbetween : min (o.toNat : ℤ) (wide o s n) ≤ wide o s i ∧ wide o s i ≤ max (o.toNat : ℤ) (wide o s n) := by
      unfold wide
      have hin : (i : ℤ) ≤ n := by exact_mod_cast hi
      obtain hs | hs := le_total 0 s.toInt
      · have hmul := mul_le_mul_of_nonneg_right hin hs
        have hpos := mul_nonneg (Int.natCast_nonneg i) hs
        omega
      · have hmul := mul_le_mul_of_nonpos_right hin hs
        have hneg := mul_nonpos_of_nonneg_of_nonpos (Int.natCast_nonneg i) hs
        omega
    apply place_le_of_wide <;> omega

end Walk

end HtDrivers.Lib.Strides
