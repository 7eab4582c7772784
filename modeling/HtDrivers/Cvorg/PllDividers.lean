import HtDrivers.Cvorg.Clkgen

/-! # The dividers of a configuration (`check_pll_dividers`)

The datasheet's two rules, which the comments of the source cite: if only one divider is bypassed, or if only one
divides by an even number, it must be the second.
-/
namespace HtDrivers.Cvorg
set_option autoImplicit false

/-- Both 0 and 1 stand for a divider that is bypassed. -/
def Bypassed (d : ℤ) : Prop := d = 0 ∨ d = 1

instance (d : ℤ) : Decidable (Bypassed d) := inferInstanceAs (Decidable (_ ∨ _))

def effectiveDivider (d : ℤ) : ℤ := if Bypassed d then 1 else d

/-- What the dividers of the result must be. -/
structure DividersOk (pll pll' : Ad9516Pll) : Prop where
  product : effectiveDivider pll'.d1 * effectiveDivider pll'.d2 = effectiveDivider pll.d1 * effectiveDivider pll.d2
  first : ¬(Bypassed pll'.d1 ∧ ¬Bypassed pll'.d2)
  even : ¬Bypassed pll.d1 → ¬Bypassed pll.d2 → Xor (Even pll.d1) (Even pll.d2) → Even pll'.d2
  again : checkPllDividers pll' = pll'

/-- A divider with one number for a bypass. -/
def bypassZero (d : ℤ) : ℤ := if d = 1 then 0 else d

/-- The order that the source gives two dividers. -/
def orderDividers (d1 d2 : ℤ) : ℤ × ℤ :=
  if d1 = 0 ∧ d2 = 0 then (d1, d2)
  else if d1 = 0 ∧ d2 ≠ 0 then (d2, 0)
  else if d1.tmod 2 ≠ 0 ∧ d2.tmod 2 = 0 then (d2, d1)
  else (d1, d2)

section Dividers
variable {pll : Ad9516Pll} {d d1 d2 : ℤ}

theorem checkPllDividers_eq (pll : Ad9516Pll) : checkPllDividers pll =
    { pll with
      r := bypassZero pll.r
      dvco := bypassZero pll.dvco
      d1 := (orderDividers (bypassZero pll.d1) (bypassZero pll.d2)).1
      d2 := (orderDividers (bypassZero pll.d1) (bypassZero pll.d2)).2 } := by
  have hbypass : ∀ d : ℤ, (if d = 1 then 0 else d) = bypassZero d := fun _ => rfl
  unfold checkPllDividers orderDividers
  simp only [hbypass]
  split
  · rfl
  · split
    · rfl
    · split
      · rfl
      · rfl

theorem bypassZero_ne_one (d : ℤ) : bypassZero d ≠ 1 := by
  unfold bypassZero
  split
  · decide
  · assumption

theorem bypassZero_of_ne (h : d ≠ 1) : bypassZero d = d := if_neg h

theorem bypassed_iff : Bypassed d ↔ bypassZero d = 0 := by
  unfold Bypassed bypassZero
  split
  · simp [*]
  · simp [*]

theorem bypassed_of_ne (h : d ≠ 1) : Bypassed d ↔ d = 0 := by
  rw [bypassed_iff, bypassZero_of_ne h]

theorem effectiveDivider_eq (d : ℤ) : effectiveDivider d = if bypassZero d = 0 then 1 else bypassZero d := by
  unfold effectiveDivider
  by_cases h : Bypassed d
  · rw [if_pos h, if_pos (bypassed_iff.mp h)]
  · have hne : d ≠ 1 := fun hone => h (.inr hone)
    rw [if_neg h, if_neg fun hzero => h (bypassed_iff.mpr hzero), bypassZero_of_ne hne]

theorem orderDividers_cases (d1 d2 : ℤ) : orderDividers d1 d2 = (d1, d2) ∨ orderDividers d1 d2 = (d2, d1) := by
  unfold orderDividers
  split
  · exact .inl rfl
  · split
    · rename_i h
      rw [h.1]
      exact .inr rfl
    · split
      · exact .inr rfl
      · exact .inl rfl

theorem orderDividers_same (hpos1 : 0 ≤ d1) (hpos2 : 0 ≤ d2) (h : Even d1 ↔ Even d2) :
    orderDividers d1 d2 = if d1 = 0 then (d2, 0) else (d1, d2) := by
  rw [Int.even_iff, Int.even_iff, ← Int.tmod_eq_emod_of_nonneg hpos1, ← Int.tmod_eq_emod_of_nonneg hpos2] at h
  unfold orderDividers
  by_cases hzero : d1 = 0
  · by_cases hzero2 : d2 = 0
    · simp [hzero, hzero2]
    · simp [hzero, hzero2]
  · have hparity : ¬(d1.tmod 2 ≠ 0 ∧ d2.tmod 2 = 0) := fun ⟨hodd, heven⟩ => hodd (h.mpr heven)
    simp [hzero, hparity]

theorem orderDividers_odd (hpos1 : 0 ≤ d1) (hpos2 : 0 ≤ d2) (hodd : ¬Even d1) (heven : Even d2) :
    orderDividers d1 d2 = (d2, d1) := by
  rw [Int.even_iff, ← Int.tmod_eq_emod_of_nonneg hpos1] at hodd
  rw [Int.even_iff, ← Int.tmod_eq_emod_of_nonneg hpos2] at heven
  have hne : d1 ≠ 0 := by
    rintro rfl
    exact hodd rfl
  unfold orderDividers
  simp [hne, hodd, heven]

theorem bypassZero_self (d : ℤ) : bypassZero (bypassZero d) = bypassZero d := bypassZero_of_ne (bypassZero_ne_one d)

theorem bypassZero_nonneg (h : 0 ≤ d) : 0 ≤ bypassZero d := by
  unfold bypassZero
  split
  · exact le_rfl
  · exact h

theorem effectiveDivider_bypassZero (d : ℤ) : effectiveDivider (bypassZero d) = effectiveDivider d := by
  rw [effectiveDivider_eq, effectiveDivider_eq d, bypassZero_self]

theorem bypassZero_active (h : ¬Bypassed d) : bypassZero d = d := bypassZero_of_ne fun hone => h (.inr hone)

theorem product_kept (pll : Ad9516Pll) :
    effectiveDivider (checkPllDividers pll).d1 * effectiveDivider (checkPllDividers pll).d2 =
      effectiveDivider pll.d1 * effectiveDivider pll.d2 := by
  rw [checkPllDividers_eq, ← effectiveDivider_bypassZero pll.d1, ← effectiveDivider_bypassZero pll.d2]
  obtain h | h := orderDividers_cases (bypassZero pll.d1) (bypassZero pll.d2)
  · simp only [h]
  · simp only [h]
    exact mul_comm _ _

theorem order_ne_one (h1 : d1 ≠ 1) (h2 : d2 ≠ 1) : (orderDividers d1 d2).1 ≠ 1 ∧ (orderDividers d1 d2).2 ≠ 1 := by
  obtain h | h := orderDividers_cases d1 d2
  · rw [h]
    exact ⟨h1, h2⟩
  · rw [h]
    exact ⟨h2, h1⟩

/-- A second application changes what it orders in another way. -/
theorem again_iff (pll : Ad9516Pll) : checkPllDividers (checkPllDividers pll) = checkPllDividers pll ↔
    orderDividers (checkPllDividers pll).d1 (checkPllDividers pll).d2 =
      ((checkPllDividers pll).d1, (checkPllDividers pll).d2) := by
  have hne := order_ne_one (bypassZero_ne_one pll.d1) (bypassZero_ne_one pll.d2)
  have hd1 : bypassZero (checkPllDividers pll).d1 = (checkPllDividers pll).d1 := by
    rw [checkPllDividers_eq]
    exact bypassZero_of_ne hne.1
  have hd2 : bypassZero (checkPllDividers pll).d2 = (checkPllDividers pll).d2 := by
    rw [checkPllDividers_eq]
    exact bypassZero_of_ne hne.2
  have hr : bypassZero (checkPllDividers pll).r = (checkPllDividers pll).r := by
    rw [checkPllDividers_eq]
    exact bypassZero_self _
  have hdvco : bypassZero (checkPllDividers pll).dvco = (checkPllDividers pll).dvco := by
    rw [checkPllDividers_eq]
    exact bypassZero_self _
  rw [checkPllDividers_eq (checkPllDividers pll), hd1, hd2, hr, hdvco, Ad9516Pll.ext_iff, Prod.ext_iff]
  simp

/-! ## Which dividers are in order -/

theorem DividersOk.not_odd_even (h : DividersOk pll (checkPllDividers pll)) (hd1 : 0 ≤ pll.d1) (hd2 : 0 ≤ pll.d2)
    (hodd : ¬Even (bypassZero pll.d1)) (heven : Even (bypassZero pll.d2)) : False := by
  have horder := orderDividers_odd (bypassZero_nonneg hd1) (bypassZero_nonneg hd2) hodd heven
  have hfirst := h.first
  have hrule := h.even
  rw [checkPllDividers_eq] at hfirst hrule
  simp only [horder] at hfirst hrule
  have hactive1 : ¬Bypassed pll.d1 := by
    rw [bypassed_iff]
    intro hzero
    rw [hzero] at hodd
    exact hodd Even.zero
  by_cases hbypassed : Bypassed pll.d2
  · refine hfirst ⟨?_, ?_⟩
    · rwa [bypassed_iff, bypassZero_self, ← bypassed_iff]
    · rwa [bypassed_iff, bypassZero_self, ← bypassed_iff]
  · rw [bypassZero_active hactive1] at hodd hrule
    rw [bypassZero_active hbypassed] at heven
    exact hodd (hrule hactive1 hbypassed (.inr ⟨heven, hodd⟩))

theorem DividersOk.not_even_odd (h : DividersOk pll (checkPllDividers pll)) (hd1 : 0 ≤ pll.d1) (hd2 : 0 ≤ pll.d2)
    (heven : Even (bypassZero pll.d1)) (hodd : ¬Even (bypassZero pll.d2)) : False := by
  have hpos2 := bypassZero_nonneg hd2
  have hne : bypassZero pll.d2 ≠ 0 := by
    intro hzero
    rw [hzero] at hodd
    exact hodd Even.zero
  by_cases hbypassed : bypassZero pll.d1 = 0
  · have horder : orderDividers (bypassZero pll.d1) (bypassZero pll.d2) = (bypassZero pll.d2, 0) := by
      simp [orderDividers, hbypassed, hne]
    have hagain := (again_iff pll).mp h.again
    rw [checkPllDividers_eq] at hagain
    simp only [horder] at hagain
    rw [orderDividers_odd hpos2 le_rfl hodd Even.zero] at hagain
    exact hne (Prod.ext_iff.mp hagain).2
  · have horder : orderDividers (bypassZero pll.d1) (bypassZero pll.d2) = (bypassZero pll.d1, bypassZero pll.d2) := by
      have htmod : (bypassZero pll.d1).tmod 2 = 0 := by
        rw [Int.tmod_eq_emod_of_nonneg (bypassZero_nonneg hd1)]
        exact Int.even_iff.mp heven
      simp [orderDividers, hbypassed, htmod]
    have hactive1 : ¬Bypassed pll.d1 := fun hd => hbypassed (bypassed_iff.mp hd)
    have hactive2 : ¬Bypassed pll.d2 := fun hd => hne (bypassed_iff.mp hd)
    have hrule := h.even hactive1 hactive2
    rw [checkPllDividers_eq] at hrule
    simp only [horder] at hrule
    rw [bypassZero_active hactive1] at heven
    rw [bypassZero_active hactive2] at hodd hrule
    exact hodd (hrule (.inl ⟨heven, hodd⟩))

theorem dividersOk_of_same (hd1 : 0 ≤ pll.d1) (hd2 : 0 ≤ pll.d2)
    (h : Even (bypassZero pll.d1) ↔ Even (bypassZero pll.d2)) : DividersOk pll (checkPllDividers pll) := by
  have hpos1 := bypassZero_nonneg hd1
  have hpos2 := bypassZero_nonneg hd2
  have horder := orderDividers_same hpos1 hpos2 h
  refine ⟨product_kept pll, ?_, ?_, (again_iff pll).mpr ?_⟩
  · rw [checkPllDividers_eq]
    simp only [horder]
    split
    · exact fun ⟨_, hactive⟩ => hactive (.inl rfl)
    · rename_i hne
      rintro ⟨hd, -⟩
      rw [bypassed_of_ne (bypassZero_ne_one _)] at hd
      exact hne hd
  · intro hactive1 hactive2 hxor
    rw [bypassZero_active hactive1, bypassZero_active hactive2] at h
    exact absurd h ((xor_iff_not_iff _ _).mp hxor)
  · rw [checkPllDividers_eq]
    simp only [horder]
    split
    · rename_i hzero
      have heven : Even (bypassZero pll.d2) := by
        rw [← h, hzero]
        exact Even.zero
      rw [orderDividers_same hpos2 le_rfl (iff_of_true heven Even.zero)]
      split
      · rename_i hzero2
        rw [hzero2]
      · rfl
    · rename_i hne
      rw [horder, if_neg hne]

end Dividers

/-- The rules are met exactly by dividers of one parity, with 0 for a bypass. -/
theorem checkPllDividers_ok_iff (pll : Ad9516Pll) (hd1 : 0 ≤ pll.d1) (hd2 : 0 ≤ pll.d2) :
    DividersOk pll (checkPllDividers pll) ↔ (Even (bypassZero pll.d1) ↔ Even (bypassZero pll.d2)) := by
  constructor
  · intro h
    by_cases heven1 : Even (bypassZero pll.d1)
    · by_cases heven2 : Even (bypassZero pll.d2)
      · exact iff_of_true heven1 heven2
      · exact (h.not_even_odd hd1 hd2 heven1 heven2).elim
    · by_cases heven2 : Even (bypassZero pll.d2)
      · exact (h.not_odd_even hd1 hd2 heven1 heven2).elim
      · exact iff_of_false heven1 heven2
  · exact dividersOk_of_same hd1 hd2

/-- Divide by 4 and 2. -/
theorem checkPllDividers_ok_even : DividersOk ⟨0, 1, 16, 1, 2, 4, 2, 0⟩ (checkPllDividers ⟨0, 1, 16, 1, 2, 4, 2, 0⟩) :=
  (checkPllDividers_ok_iff ⟨0, 1, 16, 1, 2, 4, 2, 0⟩ (by decide) (by decide)).mpr (by decide)

/-- With 3 and 2 the even divider is moved to the front. -/
theorem not_checkPllDividers_ok : ¬∀ pll : Ad9516Pll, 0 ≤ pll.d1 → 0 ≤ pll.d2 →
    DividersOk pll (checkPllDividers pll) := by
  intro h
  have heven := (h ⟨0, 1, 16, 1, 2, 3, 2, 0⟩ (by decide) (by decide)).even
  revert heven
  decide

end HtDrivers.Cvorg
