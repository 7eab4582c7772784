import Mathlib.Tactic

/-! Bit fields of a word: what a field holds, values put into several fields, and words put together again from all
their fields. -/
namespace HtDrivers.Lib.Fields
set_option autoImplicit false

/-- A non-empty block of neighbouring bits. -/
structure Field (w : ℕ) where
  shift : ℕ
  width : ℕ
  pos : 0 < width
  fits : shift + width ≤ w

/-- The bit belongs to the field. -/
def Field.Has {w : ℕ} (f : Field w) (i : ℕ) : Prop := f.shift ≤ i ∧ i < f.shift + f.width

instance {w : ℕ} (f : Field w) (i : ℕ) : Decidable (f.Has i) := inferInstanceAs (Decidable (_ ∧ _))

def Field.mask {w : ℕ} (f : Field w) : BitVec w := BitVec.ofNat w (2 ^ f.width - 1) <<< f.shift

def Field.insert {w : ℕ} (f : Field w) (v : BitVec w) : BitVec w := (v <<< f.shift) &&& f.mask

def Field.extract {w : ℕ} (f : Field w) (x : BitVec w) : BitVec w := (x &&& f.mask) >>> f.shift

def Field.Disjoint {w : ℕ} (f g : Field w) : Prop := f.shift + f.width ≤ g.shift ∨ g.shift + g.width ≤ f.shift

instance {w : ℕ} (f g : Field w) : Decidable (f.Disjoint g) := inferInstanceAs (Decidable (_ ∨ _))

section One
variable {w : ℕ} {f g : Field w} {v x y : BitVec w} {i : ℕ}

theorem getLsbD_of_lt {k : ℕ} (hv : v.toNat < 2 ^ k) (hi : k ≤ i) : v.getLsbD i = false :=
  Nat.testBit_lt_two_pow (hv.trans_le (Nat.pow_le_pow_right Nat.two_pos hi))

theorem Field.has_zero : f.Has (f.shift + i) ↔ i < f.width := by
  unfold Field.Has
  omega

theorem Field.getLsbD_mask : f.mask.getLsbD i = decide (f.Has i) := by
  have hfits := f.fits
  rw [Field.mask, BitVec.getLsbD_shiftLeft, BitVec.getLsbD_ofNat, Nat.testBit_two_pow_sub_one]
  unfold Field.Has
  by_cases hi : i < f.shift
  · have hnot : ¬(f.shift ≤ i ∧ i < f.shift + f.width) := by omega
    simp [hi, hnot]
  · by_cases hin : i < f.shift + f.width
    · have hw : i < w := by omega
      have hsub : i - f.shift < w := by omega
      have hwidth : i - f.shift < f.width := by omega
      simp only [hw, hi, hsub, hwidth, hin, not_lt.mp hi, decide_true, decide_false, Bool.not_false, Bool.and_self,
        and_self]
    · have hwidth : ¬i - f.shift < f.width := by omega
      simp [hwidth, hin]

theorem Field.getLsbD_insert : (f.insert v).getLsbD i = (decide (f.Has i) && v.getLsbD (i - f.shift)) := by
  have hfits := f.fits
  rw [Field.insert, BitVec.getLsbD_and, BitVec.getLsbD_shiftLeft, Field.getLsbD_mask]
  by_cases hhas : f.Has i
  · have hw : i < w := hhas.2.trans_le hfits
    have hlow : ¬i < f.shift := not_lt.mpr hhas.1
    simp only [hhas, hw, hlow, decide_true, decide_false, Bool.not_false, Bool.true_and, Bool.and_true]
  · simp only [hhas, decide_false, Bool.and_false, Bool.false_and]

theorem Field.getLsbD_extract : (f.extract x).getLsbD i = (x.getLsbD (f.shift + i) && decide (i < f.width)) := by
  rw [Field.extract, BitVec.getLsbD_ushiftRight, BitVec.getLsbD_and, Field.getLsbD_mask]
  simp only [Field.has_zero]

/-- A value that fits is read back. -/
theorem Field.extract_insert (hv : v.toNat < 2 ^ f.width) : f.extract (f.insert v) = v := by
  refine BitVec.eq_of_getLsbD_eq fun i _ => ?_
  rw [Field.getLsbD_extract, Field.getLsbD_insert, Nat.add_sub_cancel_left]
  simp only [Field.has_zero]
  by_cases hi : i < f.width
  · simp only [hi, decide_true, Bool.true_and, Bool.and_true]
  · rw [getLsbD_of_lt hv (not_lt.mp hi)]
    simp only [Bool.and_false, Bool.false_and]

/-- Only bits of the field are set. -/
theorem Field.insert_and_not_mask : f.insert v &&& ~~~f.mask = 0 := by
  rw [Field.insert, BitVec.and_assoc, BitVec.and_not_self]
  exact BitVec.and_zero

theorem Field.extract_lt : (f.extract x).toNat < 2 ^ f.width := by
  refine Nat.lt_pow_two_of_testBit _ fun i hi => ?_
  change (f.extract x).getLsbD i = false
  rw [Field.getLsbD_extract, decide_eq_false (not_lt.mpr hi), Bool.and_false]

/-- No bit belongs to both. -/
theorem Field.Disjoint.not_has (h : f.Disjoint g) (hf : f.Has i) : ¬g.Has i := by
  rintro ⟨hlow, hhigh⟩
  obtain ⟨hlow', hhigh'⟩ := hf
  rcases h with h | h <;> omega

end One

/-! ## Several fields -/

section Several
variable {w : ℕ} {fs : List (Field w)} {ps : List (Field w × BitVec w)} {p : Field w × BitVec w} {x : BitVec w}

/-- The values, each in its field. -/
def packed (ps : List (Field w × BitVec w)) : BitVec w := ps.foldl (fun x p => x ||| p.1.insert p.2) 0

/-- The fields are apart from one another, and every bit belongs to one. -/
structure Tiles (fs : List (Field w)) : Prop where
  disjoint : fs.Pairwise Field.Disjoint
  covers : ∀ i < w, ∃ f ∈ fs, f.Has i

theorem getLsbD_foldl_insert (x : BitVec w) (i : ℕ) :
    (ps.foldl (fun x p => x ||| p.1.insert p.2) x).getLsbD i = true ↔
      x.getLsbD i = true ∨ ∃ p ∈ ps, (p.1.insert p.2).getLsbD i = true := by
  induction ps generalizing x with
  | nil => simp only [List.foldl_nil, List.not_mem_nil, false_and, exists_false, or_false]
  | cons p ps ih =>
    rw [List.foldl_cons, ih, BitVec.getLsbD_or, Bool.or_eq_true, or_assoc]
    simp only [List.mem_cons, exists_eq_or_imp]

theorem getLsbD_packed (i : ℕ) :
    (packed ps).getLsbD i = true ↔ ∃ p ∈ ps, p.1.Has i ∧ p.2.getLsbD (i - p.1.shift) = true := by
  have hzero : (0 : BitVec w).getLsbD i = false := BitVec.getLsbD_zero
  rw [packed, getLsbD_foldl_insert, hzero]
  simp only [Bool.false_eq_true, false_or, Field.getLsbD_insert, Bool.and_eq_true, decide_eq_true_eq]

/-- Each value is read back from its field. -/
theorem extract_packed (hdisjoint : (ps.map Prod.fst).Pairwise Field.Disjoint) (hp : p ∈ ps)
    (hv : p.2.toNat < 2 ^ p.1.width) : p.1.extract (packed ps) = p.2 := by
  have hsymm : Std.Symm fun p q : Field w × BitVec w => p.1.Disjoint q.1 := ⟨fun _ _ h => Or.symm h⟩
  have hapart := (List.pairwise_map.mp hdisjoint).forall
  refine BitVec.eq_of_getLsbD_eq_iff.mpr fun i _ => ?_
  rw [Bool.eq_iff_iff, Field.getLsbD_extract, Bool.and_eq_true, decide_eq_true_eq, getLsbD_packed]
  constructor
  · rintro ⟨⟨q, hq, hhas, hbit⟩, hi⟩
    have hsame : p = q := by
      by_contra hne
      exact (hapart hp hq hne).not_has (Field.has_zero.mpr hi) hhas
    rw [← hsame, Nat.add_sub_cancel_left] at hbit
    exact hbit
  · intro hbit
    have hi : i < p.1.width := by
      by_contra hlarge
      rw [getLsbD_of_lt hv (not_lt.mp hlarge)] at hbit
      cases hbit
    refine ⟨⟨p, hp, Field.has_zero.mpr hi, ?_⟩, hi⟩
    rwa [Nat.add_sub_cancel_left]

/-- A word is put together again from its fields. -/
theorem packed_extract (h : Tiles fs) : packed (fs.map fun f => (f, f.extract x)) = x := by
  refine BitVec.eq_of_getLsbD_eq_iff.mpr fun i hi => ?_
  rw [Bool.eq_iff_iff, getLsbD_packed]
  simp only [List.mem_map, exists_exists_and_eq_and, Field.getLsbD_extract, Bool.and_eq_true, decide_eq_true_eq]
  constructor
  · rintro ⟨f, _, hhas, hbit, _⟩
    rwa [Nat.add_sub_of_le hhas.1] at hbit
  · intro hbit
    obtain ⟨f, hf, hhas⟩ := h.covers i hi
    refine ⟨f, hf, hhas, ?_, ?_⟩
    · rwa [Nat.add_sub_of_le hhas.1]
    · have hupper := hhas.2
      have hlower := hhas.1
      omega

end Several
end HtDrivers.Lib.Fields
