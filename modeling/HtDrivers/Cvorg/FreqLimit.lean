import HtDrivers.Cvorg.LoadSeq
import Mathlib.Data.BitVec

/-! # The least number of points (`cvorg_invalid_freqlimit`)

The test of a waveform against the exact interpolation of the table, whose lines lie between its entries, the first and
the last of them extended. The driver takes the product of the repeats and the size in 32 bits, and cuts the slope of
every line to an integer: 4 for 44/9 up to 10 MHz, and 79 for 238/3 from there to 25 MHz. A waveform is accepted exactly
when it has the points (of two bytes) that its frequency takes, in whole MHz rounded up, but for one between the two
limits or with a product that wraps around.
-/
namespace HtDrivers.Cvorg
set_option autoImplicit false

/-! ## The limit -/

def lineThrough (p q : U32 × U32) (x : ℕ) : ℚ :=
  p.2.toNat + (q.2.toNat - p.2.toNat : ℚ) / (q.1.toNat - p.1.toNat) * (x - p.1.toNat)

def interpolate : List (U32 × U32) → ℕ → ℚ
  | [], _ => 0
  | [p], _ => p.2.toNat
  | p :: q :: table, x => if x ≤ q.1.toNat ∨ table = [] then lineThrough p q x else interpolate (q :: table) x

def mhzUp (hz : ℕ) : ℕ := (hz + 999999) / 1000000

def pointsPlayed (wv : UserWv) : ℕ := wv.recurr.toNat * (wv.size.toNat / 2)

def loosenedLimit (mhz : ℕ) : ℕ :=
  if mhz ≤ 10 then 4 * mhz + 12
  else if mhz ≤ 25 then 79 * mhz - 730
  else if mhz ≤ 50 then 82 * mhz - 800
  else if mhz ≤ 60 then 140 * mhz - 3700
  else if mhz ≤ 80 then 230 * mhz - 9100
  else 695 * mhz - 46300

/-- No waveform between the two limits, counted in bytes or in points, and none whose product is too small in 32
bits. -/
def LimitRight (mhz : ℕ) (wv : UserWv) : Prop :=
  if wv.recurr.toNat * wv.size.toNat < 2 ^ 32 then
    ¬(loosenedLimit mhz ≤ wv.recurr.toNat * wv.size.toNat / 2 ∧ pointsPlayed wv < interpolate cvorgFreqlimits mhz)
  else loosenedLimit mhz ≤ wv.recurr.toNat * wv.size.toNat % 2 ^ 32 / 2

section Limit
variable {mhz length hz : U32} {x k : ℕ} {wv : UserWv}

theorem lineThrough_le_iff {p q : U32 × U32} (h : p.1.toNat < q.1.toNat) (x k : ℕ) : lineThrough p q x ≤ k ↔
    (q.2.toNat - p.2.toNat : ℤ) * (x - p.1.toNat) ≤ (k - p.2.toNat) * (q.1.toNat - p.1.toNat) := by
  have hstep : (0 : ℚ) < q.1.toNat - p.1.toNat := by
    rw [sub_pos]
    exact_mod_cast h
  rw [lineThrough, ← le_sub_iff_add_le', div_mul_eq_mul_div, div_le_iff₀ hstep]
  exact_mod_cast Iff.rfl

theorem interpolate_cons {p q : U32 × U32} {table : List (U32 × U32)} (x : ℕ) :
    interpolate (p :: q :: table) x =
      if x ≤ q.1.toNat ∨ table = [] then lineThrough p q x else interpolate (q :: table) x := rfl

theorem interpolate_le_iff (x k : ℕ) : interpolate cvorgFreqlimits x ≤ k ↔
    if x ≤ 10 then 44 * x + 100 ≤ 9 * k
    else if x ≤ 25 then 238 * x ≤ 3 * k + 2200
    else if x ≤ 50 then 82 * x ≤ k + 800
    else if x ≤ 60 then 140 * x ≤ k + 3700
    else if x ≤ 80 then 230 * x ≤ k + 9100
    else 695 * x ≤ k + 46300 := by
  unfold cvorgFreqlimits
  simp only [interpolate_cons, reduceCtorEq, or_false, or_true, if_true, BitVec.ofNat_eq_ofNat, BitVec.toNat_ofNat]
  norm_num only
  split_ifs
  all_goals
    rw [lineThrough_le_iff (by decide)]
    norm_num
    omega

theorem toNat_mhz (hz : U32) : (hz / 1000000 + if hz % 1000000 ≠ 0 then 1 else 0).toNat = mhzUp hz.toNat := by
  have hlt := hz.isLt
  have hzero : hz % 1000000 ≠ 0 ↔ hz.toNat % 1000000 ≠ 0 := by
    rw [not_iff_not, ← BitVec.toNat_inj, BitVec.toNat_umod]
    rfl
  have hdiv : (hz / 1000000).toNat = hz.toNat / 1000000 := BitVec.toNat_udiv
  unfold mhzUp
  rw [BitVec.toNat_add, hdiv]
  by_cases h : hz.toNat % 1000000 = 0
  · rw [if_neg fun hne => hzero.mp hne h]
    change (_ + 0) % 2 ^ 32 = _
    omega
  · rw [if_pos (hzero.mpr h)]
    change (_ + 1) % 2 ^ 32 = _
    omega

theorem cvorgFreqlimitRange_eq (mhz : U32) : cvorgFreqlimitRange mhz =
    if mhz.toNat ≤ 10 then 0 else if mhz.toNat ≤ 25 then 1 else if mhz.toNat ≤ 50 then 2
    else if mhz.toNat ≤ 60 then 3 else if mhz.toNat ≤ 80 then 4 else 5 := by
  have hrange : List.range (cvorgFreqlimits.length - 1) = [0, 1, 2, 3, 4, 5] := rfl
  unfold cvorgFreqlimitRange
  simp only [hrange, List.find?_cons, List.find?_nil]
  simp only [cvorgFreqlimits, List.getD_cons_zero, List.getD_cons_succ, BitVec.le_def, BitVec.ofNat_eq_ofNat,
    BitVec.toNat_ofNat]
  norm_num only
  generalize mhz.toNat = n
  by_cases h10 : n ≤ 10
  · by_cases h1 : 1 ≤ n
    · simp [h1, h10]
    · simp [Nat.lt_one_iff.mp (not_le.mp h1)]
  · have hlow : 10 ≤ n := by omega
    by_cases h25 : n ≤ 25
    · simp [hlow, h10, h25]
    · by_cases h50 : n ≤ 50
      · have hnext : 25 ≤ n := by omega
        simp [hnext, h10, h25, h50]
      · by_cases h60 : n ≤ 60
        · have hnext : 50 ≤ n := by omega
          simp [hnext, h10, h25, h50, h60]
        · by_cases h80 : n ≤ 80
          · have hnext : 60 ≤ n := by omega
            simp [hnext, h10, h25, h50, h60, h80]
          · have hone : ¬n ≤ 1 := by omega
            by_cases h100 : n ≤ 100
            · have hnext : 80 ≤ n := by omega
              simp [hnext, h10, h25, h50, h60, h80, h100]
            · simp [hone, h10, h25, h50, h60, h80, h100]

/-- A line of the driver as numbers; below its start the difference wraps around, and the sum back again. -/
theorem line_eq (m x1 y1 : U32) {limit : ℕ} (hsmall : mhz.toNat ≤ 100) (hm : m.toNat * 100 + y1.toNat < 2 ^ 32)
    (hlimit : limit + m.toNat * x1.toNat = m.toNat * mhz.toNat + y1.toNat) :
    (m * (mhz - x1) + y1).toNat = limit := by
  have hlt : limit < 2 ^ 32 := by
    have hle := Nat.mul_le_mul_left m.toNat hsmall
    omega
  have hword : BitVec.ofNat 32 limit + m * x1 = m * mhz + y1 := by
    have hcast := congrArg (BitVec.ofNat 32) hlimit
    simpa only [BitVec.ofNat_add, BitVec.ofNat_mul, BitVec.ofNat_toNat, BitVec.setWidth_eq] using hcast
  have hline : m * (mhz - x1) + y1 = BitVec.ofNat 32 limit := by
    linear_combination -hword
  rw [hline, BitVec.toNat_ofNat, Nat.mod_eq_of_lt hlt]

theorem check_line (m x1 y1 : U32) {limit : ℕ} (hsmall : mhz.toNat ≤ 100) (hm : m.toNat * 100 + y1.toNat < 2 ^ 32)
    (hlimit : limit + m.toNat * x1.toNat = m.toNat * mhz.toNat + y1.toNat) (length : U32) :
    decide (length < m * (mhz - x1) + y1) = decide (length.toNat < limit) := by
  simp only [BitVec.lt_def, line_eq m x1 y1 hsmall hm hlimit]

theorem cvorgFreqlimitCheck_eq (length : U32) (h : hz.toNat ≤ 100000000) :
    cvorgFreqlimitCheck length hz = decide (length.toNat < loosenedLimit (mhzUp hz.toNat)) := by
  have hmhz := toNat_mhz hz
  have hsmall : mhzUp hz.toNat ≤ 100 := by
    unfold mhzUp
    omega
  unfold cvorgFreqlimitCheck
  simp only
  rw [cvorgFreqlimitRange_eq]
  generalize (hz / 1000000 + if hz % 1000000 ≠ 0 then 1 else 0) = mhz at hmhz ⊢
  rw [← hmhz] at hsmall ⊢
  unfold loosenedLimit
  by_cases h10 : mhz.toNat ≤ 10
  · simp only [h10, if_true]
    refine check_line 4 1 16 hsmall (by decide) ?_ length
    change _ + 4 * 1 = 4 * _ + 16
    omega
  · by_cases h25 : mhz.toNat ≤ 25
    · simp only [h10, h25, if_true, if_false]
      refine check_line 79 10 60 hsmall (by decide) ?_ length
      change _ + 79 * 10 = 79 * _ + 60
      omega
    · by_cases h50 : mhz.toNat ≤ 50
      · simp only [h10, h25, h50, if_true, if_false]
        refine check_line 82 25 1250 hsmall (by decide) ?_ length
        change _ + 82 * 25 = 82 * _ + 1250
        omega
      · by_cases h60 : mhz.toNat ≤ 60
        · simp only [h10, h25, h50, h60, if_true, if_false]
          refine check_line 140 50 3300 hsmall (by decide) ?_ length
          change _ + 140 * 50 = 140 * _ + 3300
          omega
        · by_cases h80 : mhz.toNat ≤ 80
          · simp only [h10, h25, h50, h60, h80, if_true, if_false]
            refine check_line 230 60 4700 hsmall (by decide) ?_ length
            change _ + 230 * 60 = 230 * _ + 4700
            omega
          · simp only [h10, h25, h50, h60, h80, if_false]
            refine check_line 695 80 9300 hsmall (by decide) ?_ length
            change _ + 695 * 80 = 695 * _ + 9300
            omega

/-! ## The waveforms that are judged right -/

theorem toNat_points (wv : UserWv) :
    (wv.recurr * wv.size / 2).toNat = wv.recurr.toNat * wv.size.toNat % 2 ^ 32 / 2 := by
  rw [BitVec.toNat_udiv, BitVec.toNat_mul]
  rfl

theorem pointsPlayed_le (wv : UserWv) : pointsPlayed wv ≤ wv.recurr.toNat * wv.size.toNat / 2 := by
  rw [pointsPlayed, Nat.le_div_iff_mul_le (by decide), Nat.mul_assoc]
  exact Nat.mul_le_mul_left _ (Nat.div_mul_le_self _ _)

theorem loosened_le {k : ℕ} (h : interpolate cvorgFreqlimits x ≤ k) : loosenedLimit x ≤ k := by
  rw [interpolate_le_iff] at h
  unfold loosenedLimit
  split_ifs at h ⊢
  all_goals omega

theorem interpolate_le_of_wraps (hx : x ≤ 100) (h : 2 ^ 32 ≤ wv.recurr.toNat * wv.size.toNat) :
    interpolate cvorgFreqlimits x ≤ pointsPlayed wv := by
  have hrecurr := wv.recurr.isLt
  have hsize : 2 ≤ wv.size.toNat := by
    by_contra hsmall
    have hle : wv.recurr.toNat * wv.size.toNat ≤ wv.recurr.toNat * 1 := Nat.mul_le_mul_left _ (by omega)
    omega
  have hthird : wv.recurr.toNat * wv.size.toNat ≤ pointsPlayed wv * 3 := by
    rw [pointsPlayed, Nat.mul_assoc]
    exact Nat.mul_le_mul_left _ (by omega)
  rw [interpolate_le_iff]
  split_ifs
  all_goals omega

end Limit

/-- A waveform is accepted exactly when it has the points that its frequency takes, but for one between the two limits
or with a product that wraps around. -/
theorem cvorgInvalidFreqlimit_right_iff (sampfreq : U32) (seq : UserSeq) (wv : UserWv)
    (hcheck : cvorgMustCheckFreqlimit seq = true) (hrecurr : wv.recurr ≠ 0) (hfreq : sampfreq.toNat ≤ 100000000) :
    (cvorgInvalidFreqlimit sampfreq seq wv = false ↔
      interpolate cvorgFreqlimits (mhzUp sampfreq.toNat) ≤ pointsPlayed wv) ↔ LimitRight (mhzUp sampfreq.toNat) wv := by
  have hmhz : mhzUp sampfreq.toNat ≤ 100 := by
    unfold mhzUp
    omega
  have haccepts : cvorgInvalidFreqlimit sampfreq seq wv = false ↔
      loosenedLimit (mhzUp sampfreq.toNat) ≤ wv.recurr.toNat * wv.size.toNat % 2 ^ 32 / 2 := by
    unfold cvorgInvalidFreqlimit
    rw [hcheck, decide_eq_false hrecurr, cvorgFreqlimitCheck_eq _ hfreq, toNat_points]
    simp
  rw [haccepts, LimitRight]
  split
  · rename_i hfits
    rw [Nat.mod_eq_of_lt hfits]
    constructor
    · rintro h ⟨hloose, hfew⟩
      exact absurd (h.mp hloose) (not_le.mpr hfew)
    · intro h
      constructor
      · intro hloose
        by_contra hfew
        exact h ⟨hloose, not_le.mp hfew⟩
      · intro hexact
        exact (loosened_le hexact).trans (pointsPlayed_le wv)
  · rename_i hwraps
    exact iff_true_right (interpolate_le_of_wraps hmhz (not_lt.mp hwraps))

/-- A waveform of `size` bytes that is played once. -/
def onceWv (size : U32) : UserWv := ⟨1, size, 0, 0, fun _ => 0⟩

/-- 100 points at 10 MHz, where 60 are needed. -/
theorem cvorgInvalidFreqlimit_right_once : cvorgInvalidFreqlimit 10000000 ⟨0, [onceWv 200]⟩ (onceWv 200) = false ↔
    interpolate cvorgFreqlimits (mhzUp (10000000 : U32).toNat) ≤ pointsPlayed (onceWv 200) := by
  have hright : LimitRight (mhzUp (10000000 : U32).toNat) (onceWv 200) := by
    have henough : interpolate cvorgFreqlimits 10 ≤ (100 : ℕ) := (interpolate_le_iff 10 100).mpr (by decide)
    exact fun h => absurd h.2 (not_lt.mpr henough)
  exact (cvorgInvalidFreqlimit_right_iff 10000000 ⟨0, [onceWv 200]⟩ (onceWv 200) (by decide) (by decide)
    (by decide)).mpr
    hright

/-- 52 points are accepted there. -/
theorem cvorgInvalidFreqlimit_loose : ¬∀ (sampfreq : U32) (seq : UserSeq) (wv : UserWv),
    cvorgMustCheckFreqlimit seq = true → wv.recurr ≠ 0 → sampfreq.toNat ≤ 100000000 →
      (cvorgInvalidFreqlimit sampfreq seq wv = false ↔
        interpolate cvorgFreqlimits (mhzUp sampfreq.toNat) ≤ pointsPlayed wv) := by
  intro h
  have henough := (h 10000000 ⟨0, [onceWv 104]⟩ (onceWv 104) (by decide) (by decide) (by decide)).mp (by decide)
  have hlimit : interpolate cvorgFreqlimits 10 ≤ (52 : ℕ) := henough
  rw [interpolate_le_iff] at hlimit
  revert hlimit
  decide

end HtDrivers.Cvorg
