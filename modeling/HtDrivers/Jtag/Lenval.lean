import HtDrivers.Lib.BigEndian
import HtDrivers.Lib.Masks

/-! The values of variable length of the JTAG player (`lenval.c`), and the compressed data words of `micro.c` that are
built from them. -/
namespace HtDrivers.Jtag
open HtDrivers.Lib.BigEndian HtDrivers.Lib.Masks
set_option autoImplicit false

def maxLen : ℕ := 7000

/-- The bytes with the most significant first, in an array of `maxLen + 1`; those behind `len` are what was there
before. -/
structure LenVal where
  len : ℕ
  val : ℕ → BitVec 8

def LenVal.toNat (x : LenVal) : ℕ := number x.val x.len

/-- The bits in the order in which they are shifted. -/
def LenVal.bit (x : LenVal) (p : ℕ) : Bool := bitAt x.val x.len p

/-! ## Operations -/

def value (x : LenVal) : BitVec 32 :=
  (List.range x.len).foldl (fun lValue sIndex => (lValue <<< 8) ||| (x.val sIndex).setWidth 32) 0

/-- There may be no mask. -/
def maskedByte (mask : Option LenVal) (sIndex : ℕ) (ucByteVal : BitVec 8) : BitVec 8 :=
  match mask with
  | some mask => ucByteVal &&& mask.val sIndex
  | none => ucByteVal

def equalLoop (expected captured : LenVal) (mask : Option LenVal) : ℕ → Bool
  | 0 => true
  | sIndex + 1 =>
    if maskedByte mask sIndex (expected.val sIndex) ≠ maskedByte mask sIndex (captured.val sIndex) then false
    else equalLoop expected captured mask sIndex

def equalLenVal (expected captured : LenVal) (mask : Option LenVal) : Bool :=
  equalLoop expected captured mask expected.len

def addLoop (val2 : ℕ → BitVec 8) : ℕ → Bool → (ℕ → BitVec 8) → ℕ → BitVec 8
  | 0, _, val => val
  | sIndex + 1, ucCarry, val =>
    let usSum := (val sIndex).setWidth 16 + (val2 sIndex).setWidth 16 + BitVec.ofNat 16 ucCarry.toNat
    addLoop val2 sIndex (255 < usSum.toNat) (Function.update val sIndex (usSum.setWidth 8))

/-- As it is called, with the result in the place of the first value. -/
def addVal (x y : LenVal) : LenVal := ⟨x.len, addLoop y.val x.len false x.val⟩

/-- The next data byte, the mask of its next bit, which is 0 when the byte is used up, and the bytes that are left. -/
structure NextData where
  ucNextData : BitVec 8
  ucNextMask : BitVec 8
  sNextData : ℕ

def NextData.fetched (next : NextData) (data : LenVal) : NextData :=
  if next.ucNextMask = 0 then ⟨data.val (next.sNextData - 1), 1, next.sNextData - 1⟩ else next

/-- The loop over the bits of one byte of the data mask; a byte is used up after eight shifts. -/
def maskBits (data : LenVal) : ℕ → BitVec 8 → BitVec 8 → BitVec 8 × NextData → BitVec 8 × NextData
  | 0, _, _, s => s
  | n + 1, ucDataMask, ucTdiMask, (ucTdi, next) =>
    if ucDataMask = 0 then (ucTdi, next)
    else if ucDataMask &&& 1 ≠ 0 then
      let next := next.fetched data
      let ucTdi := if next.ucNextData &&& next.ucNextMask ≠ 0 then ucTdi ||| ucTdiMask else ucTdi &&& ~~~ucTdiMask
      maskBits data n (ucDataMask >>> 1) (ucTdiMask <<< 1) (ucTdi, { next with ucNextMask := next.ucNextMask <<< 1 })
    else maskBits data n (ucDataMask >>> 1) (ucTdiMask <<< 1) (ucTdi, next)

/-- The loop over the bytes of the data mask, from the last one on. -/
def maskLoop (data dataMask : LenVal) : ℕ → (ℕ → BitVec 8) × NextData → (ℕ → BitVec 8) × NextData
  | 0, s => s
  | i + 1, (val, next) =>
    if dataMask.val i ≠ 0 then
      let s := maskBits data 8 (dataMask.val i) 1 (val i, next)
      maskLoop data dataMask i (Function.update val i s.1, s.2)
    else maskLoop data dataMask i (val, next)

def xsvfDoSDRMasking (tdi data addressMask dataMask : LenVal) : LenVal :=
  let tdi := addVal tdi addressMask
  ⟨tdi.len, (maskLoop data dataMask dataMask.len (tdi.val, ⟨0, 0, data.len⟩)).1⟩

/-! ## Values -/

theorem value_eq (x : LenVal) : value x = BitVec.ofNat 32 x.toNat := by
  rw [value, LenVal.toNat]
  induction x.len with
  | zero => rfl
  | succ n ih =>
    rw [List.range_succ, List.foldl_append, ih, number, Nat.mul_comm]
    apply BitVec.eq_of_getLsbD_eq
    intro i hi
    have hbyte := (x.val n).isLt
    rw [List.foldl_cons, List.foldl_nil, BitVec.getLsbD_or, BitVec.getLsbD_shiftLeft, BitVec.getLsbD_setWidth,
      BitVec.getLsbD_ofNat, BitVec.getLsbD_ofNat, Nat.testBit_two_pow_mul_add _ hbyte, BitVec.testBit_toNat]
    by_cases hlow : i < 8
    · simp [hi, hlow]
    · have hle : i - 8 < 32 := by omega
      have habove : (x.val n).getLsbD i = false := BitVec.getLsbD_of_ge _ _ (by omega)
      simp [hi, hlow, hle, habove]

/-! ## Comparison -/

theorem equalLenVal_iff {expected captured : LenVal} {mask : Option LenVal} :
    equalLenVal expected captured mask = true ↔ ∀ i < expected.len,
      maskedByte mask i (expected.val i) = maskedByte mask i (captured.val i) := by
  rw [equalLenVal]
  generalize expected.len = n
  induction n with
  | zero => simp [equalLoop]
  | succ n ih =>
    rw [equalLoop, Nat.forall_lt_succ_right]
    split
    · rename_i hne
      simp [hne]
    · rename_i heq
      rw [ih]
      exact (and_iff_left (not_not.mp heq)).symm

theorem maskedByte_bit (mask : Option LenVal) (i k : ℕ) (b : BitVec 8) :
    (maskedByte mask i b).getLsbD k = (b.getLsbD k && mask.all fun m => (m.val i).getLsbD k) := by
  cases mask <;> simp [maskedByte]

/-- The bits that the mask selects are compared, and no other ones. -/
theorem equalLenVal_bits {expected captured : LenVal} {mask : Option LenVal} :
    equalLenVal expected captured mask = true ↔ ∀ p < 8 * expected.len,
      (∀ m ∈ mask, bitAt m.val expected.len p = true) → expected.bit p = bitAt captured.val expected.len p := by
  have hall (i k : ℕ) : (mask.all fun m => (m.val i).getLsbD k) = true ↔ ∀ m ∈ mask, (m.val i).getLsbD k = true := by
    cases mask <;> simp
  rw [equalLenVal_iff]
  constructor
  · intro h p hp hmask
    have hbyte := congrArg (fun b => b.getLsbD (p % 8)) (h (expected.len - 1 - p / 8) (by omega))
    have hselected := (hall (expected.len - 1 - p / 8) (p % 8)).mpr hmask
    simp only [maskedByte_bit, hselected, Bool.and_true] at hbyte
    exact hbyte
  · intro h i hi
    apply BitVec.eq_of_getLsbD_eq
    intro k hk
    rw [maskedByte_bit, maskedByte_bit]
    by_cases hselected : (mask.all fun m => (m.val i).getLsbD k) = true
    · have hdiv : (8 * (expected.len - 1 - i) + k) / 8 = expected.len - 1 - i := by omega
      have hmod : (8 * (expected.len - 1 - i) + k) % 8 = k := by omega
      have hindex : expected.len - 1 - (expected.len - 1 - i) = i := by omega
      have hbit := h (8 * (expected.len - 1 - i) + k) (by omega)
      simp only [LenVal.bit, bitAt, hdiv, hmod, hindex] at hbit
      rw [hbit ((hall i k).mp hselected)]
    · rw [Bool.not_eq_true] at hselected
      rw [hselected, Bool.and_false, Bool.and_false]

/-! ## Addition -/

section Add
variable {n : ℕ} {carry : Bool} {val val2 : ℕ → BitVec 8}

theorem addLoop_of_le {i : ℕ} (h : n ≤ i) : addLoop val2 n carry val i = val i := by
  induction n generalizing carry val with
  | zero => rfl
  | succ n ih =>
    rw [addLoop, ih (by omega), Function.update_of_ne (by omega)]

theorem number_addLoop (val2 : ℕ → BitVec 8) (n : ℕ) (carry : Bool) (val : ℕ → BitVec 8) :
    ∃ out : ℕ, number (addLoop val2 n carry val) n + out * (2^8)^n = number val n + number val2 n + carry.toNat := by
  induction n generalizing carry val with
  | zero => exact ⟨carry.toNat, by simp [number]⟩
  | succ n ih =>
    have hx := (val n).isLt
    have hy := (val2 n).isLt
    have hc := Bool.toNat_le carry
    have hsum : ((val n).setWidth 16 + (val2 n).setWidth 16 + BitVec.ofNat 16 carry.toNat).toNat
        = (val n).toNat + (val2 n).toNat + carry.toNat := by
      simp only [BitVec.toNat_add, BitVec.toNat_setWidth, BitVec.toNat_ofNat]
      omega
    rw [addLoop]
    generalize hs : (val n).setWidth 16 + (val2 n).setWidth 16 + BitVec.ofNat 16 carry.toNat = sum at hsum
    obtain ⟨out, hout⟩ := ih (255 < sum.toNat) (Function.update val n (sum.setWidth 8))
    have hkept : number (Function.update val n (sum.setWidth 8)) n = number val n :=
      number_congr _ fun i hi => Function.update_of_ne (by omega) _ _
    have hlast : addLoop val2 n (decide (255 < sum.toNat)) (Function.update val n (sum.setWidth 8)) n =
      sum.setWidth 8 := by
      rw [addLoop_of_le (Nat.le_refl n), Function.update_self]
    have hlow : (sum.setWidth 8).toNat + (decide (255 < sum.toNat)).toNat * 2^8 = sum.toNat := by
      rw [BitVec.toNat_setWidth]
      by_cases hbig : 255 < sum.toNat
      · rw [decide_eq_true hbig, Bool.toNat_true]
        omega
      · rw [decide_eq_false hbig, Bool.toNat_false]
        omega
    refine ⟨out, ?_⟩
    rw [number, number, number, hlast, pow_succ (2^8) n]
    rw [hkept] at hout
    have hscaled : (number (addLoop val2 n (decide (255 < sum.toNat)) (Function.update val n (sum.setWidth 8))) n
        + out * (2^8)^n) * 2^8 = (number val n + number val2 n + (decide (255 < sum.toNat)).toNat) * 2^8 :=
      congrArg (· * 2^8) hout
    linarith

theorem addVal_toNat (x y : LenVal) : (addVal x y).toNat = (x.toNat + number y.val x.len) % (2^8)^x.len := by
  obtain ⟨out, hout⟩ := number_addLoop y.val x.len false x.val
  have hlt := number_lt (addLoop y.val x.len false x.val) x.len
  rw [Bool.toNat_false, Nat.add_zero] at hout
  change number (addLoop y.val x.len false x.val) x.len = (number x.val x.len + number y.val x.len) % (2^8)^x.len
  rw [← hout, Nat.add_mul_mod_self_right, Nat.mod_eq_of_lt hlt]

end Add
/-! ## The compressed data words -/

section Masking
variable {data dataMask : LenVal} {q j n : ℕ} {c : ℕ → ℕ} {m t : BitVec 8} {next : NextData} {val : ℕ → BitVec 8}

/-- After `q` bits: the mask stands on the next bit of the byte, or the byte is used up. -/
structure Taken (data : LenVal) (q : ℕ) (next : NextData) : Prop where
  mask : next.ucNextMask = if q % 8 = 0 then 0 else BitVec.twoPow 8 (q % 8)
  left : next.sNextData = data.len - (q + 7) / 8
  byte : q % 8 ≠ 0 → next.ucNextData = data.val next.sNextData

theorem twoPow_shiftLeft_one (k : ℕ) : BitVec.twoPow 8 k <<< 1 = BitVec.twoPow 8 (k + 1) := by
  rw [BitVec.twoPow, BitVec.twoPow, BitVec.shiftLeft_add]

theorem Taken.fetched (h : Taken data q next) : (next.fetched data).ucNextMask = BitVec.twoPow 8 (q % 8) ∧
    (next.fetched data).sNextData = data.len - 1 - q / 8 ∧
    (next.fetched data).ucNextData = data.val (data.len - 1 - q / 8) := by
  have hleft := h.left
  have hmask := h.mask
  by_cases hq : q % 8 = 0
  · rw [if_pos hq] at hmask
    have hindex : next.sNextData - 1 = data.len - 1 - q / 8 := by omega
    rw [NextData.fetched, if_pos hmask, hq]
    exact ⟨rfl, hindex, congrArg data.val hindex⟩
  · rw [if_neg hq] at hmask
    have hne : next.ucNextMask ≠ 0 := by
      rw [hmask, ne_zero_iff]
      exact ⟨q % 8, by simp [BitVec.getLsbD_twoPow]; omega⟩
    have hindex : next.sNextData = data.len - 1 - q / 8 := by omega
    rw [NextData.fetched, if_neg hne]
    exact ⟨hmask, hindex, (h.byte hq).trans (congrArg data.val hindex)⟩

/-- The bit that is taken next, and the state behind it. -/
theorem Taken.step (h : Taken data q next) :
    ((next.fetched data).ucNextData &&& (next.fetched data).ucNextMask ≠ 0 ↔ data.bit q = true) ∧
      Taken data (q + 1) { next.fetched data with ucNextMask := (next.fetched data).ucNextMask <<< 1 } := by
  obtain ⟨hmask, hleft, hbyte⟩ := h.fetched
  constructor
  · rw [hmask, hbyte, BitVec.and_comm]
    exact twoPow_and_ne_zero (Nat.mod_lt q (by decide))
  · refine ⟨?_, ?_, ?_⟩
    · change (next.fetched data).ucNextMask <<< 1 = _
      rw [hmask, twoPow_shiftLeft_one]
      split
      · have hlast : q % 8 + 1 = 8 := by omega
        rw [hlast]
        rfl
      · congr 1
        omega
    · change (next.fetched data).sNextData = _
      omega
    · intro _
      change (next.fetched data).ucNextData = data.val (next.fetched data).sNextData
      rw [hbyte, hleft]

theorem placed_bit {P : Prop} [Decidable P] {b : Bool} {i : ℕ} (hb : P ↔ b = true) (hi : i < 8) :
    (if P then t ||| BitVec.twoPow 8 j else t &&& ~~~BitVec.twoPow 8 j).getLsbD i = if i = j then b
    else t.getLsbD i := by
  rw [Bool.eq_iff_iff]
  split
  · rename_i hset
    rw [or_twoPow_bit_of_lt hi, hb.mp hset]
    split
    · rename_i hij
      simp [hij]
    · rename_i hij
      simp [hij]
  · rename_i hclear
    rw [and_not_twoPow_bit]
    have hfalse : b = false := by
      rw [← Bool.not_eq_true, ← hb]
      exact hclear
    split
    · rename_i hij
      simp [hij, hfalse]
    · rename_i hij
      simp [hij]

/-- `c` counts the ones of a byte of the data mask. -/
def Counts (m : BitVec 8) (c : ℕ → ℕ) : Prop := ∀ k < 8, c (k + 1) = c k + (m.getLsbD k).toNat

theorem Counts.of_zero (hc : Counts m c) (h : m >>> j = 0) (hj : j + n = 8) : c 8 = c j := by
  induction n generalizing j with
  | zero => rw [← hj, Nat.add_zero]
  | succ n ih =>
    have hbit : m.getLsbD j = false := by
      have hzero := congrArg (fun v => v.getLsbD 0) h
      simpa [BitVec.getLsbD_ushiftRight] using hzero
    have hnext : m >>> (j + 1) = 0 := by
      rw [BitVec.shiftRight_add, h]
      exact BitVec.zero_ushiftRight
    rw [ih hnext (by omega), hc j (by omega), hbit]
    rfl

/-- The bits of the mask from `j` on take their places from the next data bits; the others are left alone. -/
theorem maskBits_spec (hc : Counts m c) (hj : j + n = 8) (h : Taken data (c j) next) :
    Taken data (c 8) (maskBits data n (m >>> j) (BitVec.twoPow 8 j) (t, next)).2 ∧
      ∀ i < 8, (maskBits data n (m >>> j) (BitVec.twoPow 8 j) (t, next)).1.getLsbD i =
        if j ≤ i ∧ m.getLsbD i = true then data.bit (c i) else t.getLsbD i := by
  induction n generalizing j t next with
  | zero =>
    obtain rfl : j = 8 := hj
    refine ⟨h, fun i hi => ?_⟩
    rw [if_neg (by omega)]
    rfl
  | succ n ih =>
    rw [maskBits]
    split
    · rename_i hzero
      refine ⟨by rw [hc.of_zero hzero hj]; exact h, fun i hi => (if_neg fun hbit => ?_).symm⟩
      have hshift := congrArg (fun v => v.getLsbD (i - j)) hzero
      simp only [BitVec.getLsbD_ushiftRight, Nat.add_sub_of_le hbit.1, hbit.2] at hshift
      cases hshift.trans BitVec.getLsbD_zero
    have hfirst : (m >>> j) &&& 1 ≠ 0 ↔ m.getLsbD j = true := by
      rw [BitVec.and_comm]
      exact (twoPow_and_ne_zero (k := 0) (by decide)).trans (by simp)
    have hcount := hc j (by omega)
    have hshift : m >>> j >>> 1 = m >>> (j + 1) := (BitVec.shiftRight_add m j 1).symm
    rw [hshift, twoPow_shiftLeft_one]
    split
    · rename_i hone
      rw [hfirst] at hone
      obtain ⟨hbit, htaken⟩ := h.step
      rw [hone, Bool.toNat_true] at hcount
      rw [← hcount] at htaken
      obtain ⟨hlast, hbits⟩ := ih (t := if (next.fetched data).ucNextData &&& (next.fetched data).ucNextMask ≠ 0 then
        t ||| BitVec.twoPow 8 j else t &&& ~~~BitVec.twoPow 8 j) (by omega) htaken
      refine ⟨hlast, fun i hi => ?_⟩
      dsimp only
      rw [hbits i hi, placed_bit hbit hi]
      by_cases hij : i = j
      · rw [hij, if_pos rfl, if_neg (by omega), if_pos ⟨Nat.le_refl j, hone⟩]
      · have hle : j + 1 ≤ i ↔ j ≤ i := by omega
        simp only [hle, if_neg hij]
    · rename_i hone
      rw [hfirst, Bool.not_eq_true] at hone
      rw [hone] at hcount
      change c (j + 1) = c j at hcount
      rw [← hcount] at h
      obtain ⟨hlast, hbits⟩ := ih (t := t) (by omega) h
      refine ⟨hlast, fun i hi => ?_⟩
      rw [hbits i hi]
      by_cases hij : i = j
      · rw [hij, hone]
        simp
      · have hle : j + 1 ≤ i ↔ j ≤ i := by omega
        simp only [hle]

/-- The bytes of the mask in front of `n` take their bits in the order of the shift. -/
theorem maskLoop_spec (val : ℕ → BitVec 8) (hn : n ≤ dataMask.len)
    (h : Taken data (Nat.count (fun p => dataMask.bit p = true) (8 * (dataMask.len - n))) next) :
    (∀ i < n, ∀ k < 8, ((maskLoop data dataMask n (val, next)).1 i).getLsbD k =
        if (dataMask.val i).getLsbD k = true then
          data.bit (Nat.count (fun p => dataMask.bit p = true) (8 * (dataMask.len - 1 - i) + k))
        else (val i).getLsbD k) ∧
      ∀ i, n ≤ i → (maskLoop data dataMask n (val, next)).1 i = val i := by
  induction n generalizing val next with
  | zero => exact ⟨fun i hi => absurd hi (Nat.not_lt_zero i), fun i _ => rfl⟩
  | succ n ih =>
    have hcounts : Counts (dataMask.val n) fun k =>
        Nat.count (fun p => dataMask.bit p = true) (8 * (dataMask.len - (n + 1)) + k) := by
      intro k hk
      have hbit : dataMask.bit (8 * (dataMask.len - (n + 1)) + k) = (dataMask.val n).getLsbD k := by
        have hdiv : (8 * (dataMask.len - (n + 1)) + k) / 8 = dataMask.len - (n + 1) := by omega
        have hmod : (8 * (dataMask.len - (n + 1)) + k) % 8 = k := by omega
        have hindex : dataMask.len - 1 - (dataMask.len - (n + 1)) = n := by omega
        rw [LenVal.bit, bitAt, hdiv, hmod, hindex]
      dsimp only
      rw [← Nat.add_assoc, Nat.count_succ, hbit]
      cases (dataMask.val n).getLsbD k <;> rfl
    have hlast : 8 * (dataMask.len - n) = 8 * (dataMask.len - (n + 1)) + 8 := by omega
    have hsub : dataMask.len - 1 - n = dataMask.len - (n + 1) := by omega
    rw [maskLoop]
    split
    · obtain ⟨htaken, hbits⟩ := maskBits_spec (t := val n) hcounts (n := 8) (j := 0) rfl h
      have hfirst : BitVec.twoPow 8 0 = 1 := by decide
      rw [← hlast, BitVec.ushiftRight_zero, hfirst] at htaken
      rw [BitVec.ushiftRight_zero, hfirst] at hbits
      generalize maskBits data 8 (dataMask.val n) 1 (val n, next) = s at htaken hbits ⊢
      obtain ⟨hbelow, habove⟩ := ih (Function.update val n s.1) (by omega) htaken
      dsimp only
      refine ⟨fun i hi k hk => ?_, fun i hi => ?_⟩
      · by_cases hin : i = n
        · subst hin
          rw [habove i (Nat.le_refl i), Function.update_self]
          exact (hbits k hk).trans (by simp [hsub])
        · rw [hbelow i (by omega) k hk, Function.update_of_ne hin]
      · rw [habove i (by omega), Function.update_of_ne (by omega)]
    · rename_i hzero
      have hbyte : dataMask.val n = 0 := not_not.mp hzero
      have hnone := hcounts.of_zero (j := 0) (n := 8) (by rw [hbyte]; rfl) rfl
      rw [← hlast, Nat.add_zero] at hnone
      rw [← hnone] at h
      obtain ⟨hbelow, habove⟩ := ih val (by omega) h
      refine ⟨fun i hi k hk => ?_, fun i hi => habove i (by omega)⟩
      by_cases hin : i = n
      · subst hin
        rw [habove i (Nat.le_refl i), hbyte]
        simp
      · exact hbelow i (by omega) k hk

end Masking

end HtDrivers.Jtag
