import HtDrivers.Cvorg.Clkgen

/-! What a PLL configuration reads back as after it was written. The second divider of a channel is read from the
register before its own. -/
namespace HtDrivers.Cvorg
set_option autoImplicit false

section Registers
variable {regs : Ad9516} {addr : ℕ}

/-! ## Single registers -/

theorem clkgenWr_self (regs : Ad9516) (addr : ℕ) (data : U8) : clkgenWr regs addr data addr = data :=
  Function.update_self ..

theorem clkgenWr_ne {addr' : ℕ} (h : addr' ≠ addr) (data : U8) : clkgenWr regs addr data addr' = regs addr' :=
  Function.update_of_ne h ..

/-- The low six bits of a number in `0..63` are the number. -/
theorem toNat_low6 {a : ℤ} (h0 : 0 ≤ a) (h63 : a ≤ 63) : ((BitVec.ofInt 8 a &&& 0x3f).toNat : ℤ) = a := by
  interval_cases a <;> rfl

/-- The upper byte of a number that has at most `k` more bits than a byte. -/
theorem toNat_upper {v : ℤ} {k : ℕ} (h0 : 0 ≤ v) (hv : v < 2 ^ (k + 8)) (hk : k ≤ 8) :
    (BitVec.ofInt 8 (v >>> (8 : ℕ))).toNat < 2 ^ k ∧
    (((BitVec.ofInt 8 v).toNat ||| (BitVec.ofInt 8 (v >>> (8 : ℕ))).toNat <<< 8 : ℕ) : ℤ) = v := by
  obtain ⟨n, rfl⟩ := Int.eq_ofNat_of_zero_le h0
  have hn : n < 2 ^ (k + 8) := by exact_mod_cast hv
  have hhigh : n / 256 < 2 ^ k := by
    rw [pow_add] at hn
    exact Nat.div_lt_of_lt_mul (by linarith)
  have hbyte : n / 256 < 256 := hhigh.trans_le (Nat.pow_le_pow_right (by decide) hk)
  have hshift : ((n : ℤ) >>> (8 : ℕ)) = ((n / 256 : ℕ) : ℤ) := by
    rw [Int.shiftRight_eq_div_pow]
    norm_num
  have hlow : (BitVec.ofInt 8 (n : ℤ)).toNat = n % 256 := by simp
  have hupper : (BitVec.ofInt 8 ((n / 256 : ℕ) : ℤ)).toNat = n / 256 := by
    rw [BitVec.ofInt_natCast, BitVec.toNat_ofNat, Nat.mod_eq_of_lt hbyte]
  rw [hshift, hupper, hlow, Nat.or_comm, ← Nat.shiftLeft_add_eq_or_of_lt (Nat.mod_lt _ (by decide)),
    Nat.shiftLeft_eq]
  have hdiv := Nat.div_add_mod n 256
  refine ⟨hhigh, ?_⟩
  omega

theorem and_of_lt_low6 : ∀ x : U8, x.toNat < 2 ^ 6 → x &&& 0x3f = x := by decide

theorem and_of_lt_low5 : ∀ x : U8, x.toNat < 2 ^ 5 → x &&& 0x3f &&& 0x1f = x := by decide

theorem readB_writeB {b : ℤ} (h0 : 0 ≤ b) (hb : b ≤ 8191) : clkgenReadB (clkgenWriteB regs b) = b := by
  obtain ⟨hupper, hbytes⟩ := toNat_upper (k := 5) h0 (by omega) (by decide)
  have hlsb : clkgenWriteB regs b ad9516BcountLsb = BitVec.ofInt 8 b := by
    rw [clkgenWriteB, clkgenWr_ne (by decide), clkgenWr_self]
  have hmsb : clkgenWriteB regs b ad9516BcountMsb = BitVec.ofInt 8 (b >>> (8 : ℕ)) &&& 0x3f := by
    rw [clkgenWriteB, clkgenWr_self]
  rw [clkgenReadB, clkgenRd, clkgenRd, hlsb, hmsb, and_of_lt_low5 _ hupper, hbytes]

theorem readR_writeR {r : ℤ} (h0 : 0 ≤ r) (hr : r ≤ 16383) : clkgenReadR (clkgenWriteR regs r) = r := by
  obtain ⟨hupper, hbytes⟩ := toNat_upper (k := 6) h0 (by omega) (by decide)
  have hlsb : clkgenWriteR regs r ad9516RcountLsb = BitVec.ofInt 8 r := by
    rw [clkgenWriteR, clkgenWr_ne (by decide), clkgenWr_self]
  have hmsb : clkgenWriteR regs r ad9516RcountMsb = BitVec.ofInt 8 (r >>> (8 : ℕ)) &&& 0x3f := by
    rw [clkgenWriteR, clkgenWr_self]
  rw [clkgenReadR, clkgenRd, clkgenRd, hlsb, hmsb, BitVec.and_assoc, BitVec.and_self, and_of_lt_low6 _ hupper, hbytes]

theorem readP_writeP {p : ℤ} (hp : p = 16 ∨ p = 32) : clkgenReadP (clkgenWriteP regs p) = p := by
  have hcode : ∀ x : U8, (x &&& ~~~0x07 ||| 0x5) &&& 0x7 = 5 ∧ (x &&& ~~~0x07 ||| 0x6) &&& 0x7 = 6 := by decide
  rw [clkgenReadP, clkgenRd, clkgenWriteP, clkgenOr, clkgenWr_self, clkgenRd, clkgenAnd, clkgenWr_self]
  obtain rfl | rfl := hp
  · rw [if_pos rfl, (hcode _).1, if_pos rfl]
  · simp only [Int.reduceEq, if_false, (hcode _).2]
    rfl

theorem readDvco_writeDvco {pll : Ad9516Pll} (hdvco : 2 ≤ pll.dvco ∧ pll.dvco ≤ 6) :
    (clkgenWriteDvco regs pll).2 = pll ∧ clkgenReadDvco (clkgenWriteDvco regs pll).1 = pll.dvco := by
  have hclear : ∀ x : U8, x &&& ~~~0x1 &&& 0x1 = 0 := by decide
  have hne : ¬pll.dvco = 0 := by omega
  have hwrite : clkgenWriteDvco regs pll = (clkgenAnd (clkgenWr regs ad9516VcoDivider
      (BitVec.ofInt 8 (pll.dvco - 2) &&& 0x7)) ad9516InputClks (~~~0x1), pll) := by
    simp only [clkgenWriteDvco, hne, false_and, if_false, if_pos hdvco]
  rw [hwrite]
  refine ⟨rfl, ?_⟩
  have hclks : (clkgenAnd (clkgenWr regs ad9516VcoDivider (BitVec.ofInt 8 (pll.dvco - 2) &&& 0x7)) ad9516InputClks
      (~~~0x1)) ad9516InputClks &&& 0x1 = 0 := by
    rw [clkgenAnd, clkgenWr_self, hclear]
  have hdiv : (clkgenAnd (clkgenWr regs ad9516VcoDivider (BitVec.ofInt 8 (pll.dvco - 2) &&& 0x7)) ad9516InputClks
      (~~~0x1)) ad9516VcoDivider = BitVec.ofInt 8 (pll.dvco - 2) &&& 0x7 := by
    rw [clkgenAnd, clkgenWr_ne (by decide), clkgenWr_self]
  simp only [clkgenReadDvco, clkgenRd, hclks, hdiv, ne_eq, not_true_eq_false, if_false]
  obtain ⟨hlow, hhigh⟩ := hdvco
  interval_cases pll.dvco <;> rfl

/-! ## Dividers -/

/-- The number that the two halves of a divider register stand for. -/
def halves (x : U8) : ℤ := ((x &&& 0xf0) >>> 4).toNat + (x &&& 0x0f).toNat + 2

def dividerData (d : ℤ) : U8 :=
  (BitVec.ofInt 8 ((d - 2).tdiv 2 + (d - 2).tmod 2) &&& 0xf) <<< 4 ||| (BitVec.ofInt 8 ((d - 2).tdiv 2) &&& 0xf)

theorem halves_dividerData {d : ℤ} (h2 : 2 ≤ d) (h32 : d ≤ 32) : halves (dividerData d) = d := by
  interval_cases d <;> rfl

/-- The bits of a bypass register that belong to the two dividers, after both were written. -/
theorem bypass_bits (x : U8) (b1 b2 : Bool) :
    let first := if b1 then x ||| 0x10 else x &&& ~~~0x10
    let second := if b2 then first ||| 0x20 else first &&& ~~~0x20
    (second &&& 0x10 ≠ 0 ↔ b1 = true) ∧ (second &&& 0x20 ≠ 0 ↔ b2 = true) := by
  revert x b1 b2
  decide

/-- The first register of a channel divider. -/
def dividerOffset (divider : ℕ) : ℕ := if divider = 3 then ad9516CmosDiv3_1 else ad9516CmosDiv4_1

/-- Both dividers of a channel, as `clkgen_apply_pll_conf` writes them. -/
def writeDividers (regs : Ad9516) (divider : ℕ) (d1 d2 : ℤ) : Ad9516 :=
  clkgenWriteD (clkgenWriteD regs divider 1 d1) divider 2 d2

theorem writeD_eq {divider nr : ℕ} (hdivider : divider = 3 ∨ divider = 4) (hnr : nr = 1 ∨ nr = 2) (d : ℤ) :
    clkgenWriteD regs divider nr d =
      if d = 0 then clkgenOr regs (dividerOffset divider + 3) (if nr = 1 then 0x10 else 0x20)
      else clkgenAnd (clkgenWr regs (dividerOffset divider + 2 * (nr - 1)) (dividerData d)) (dividerOffset divider + 3)
        (~~~if nr = 1 then 0x10 else 0x20) := by
  obtain rfl | rfl := hdivider <;> obtain rfl | rfl := hnr <;> rfl

theorem writeD_bypass {divider nr : ℕ} (hdivider : divider = 3 ∨ divider = 4) (hnr : nr = 1 ∨ nr = 2) (d : ℤ) :
    clkgenWriteD regs divider nr d (dividerOffset divider + 3) =
      if decide (d = 0) then regs (dividerOffset divider + 3) ||| (if nr = 1 then 0x10 else 0x20)
      else regs (dividerOffset divider + 3) &&& ~~~(if nr = 1 then 0x10 else 0x20) := by
  rw [writeD_eq hdivider hnr]
  by_cases hd : d = 0
  · rw [if_pos hd, if_pos (decide_eq_true hd), clkgenOr, clkgenWr_self, clkgenRd]
  · have hne : dividerOffset divider + 3 ≠ dividerOffset divider + 2 * (nr - 1) := by omega
    rw [if_neg hd, if_neg (mt of_decide_eq_true hd), clkgenAnd, clkgenWr_self, clkgenRd, clkgenWr_ne hne]

theorem writeD_ne {divider nr : ℕ} (hdivider : divider = 3 ∨ divider = 4) (hnr : nr = 1 ∨ nr = 2) (d : ℤ)
    (hbypass : addr ≠ dividerOffset divider + 3) (hdata : addr ≠ dividerOffset divider + 2 * (nr - 1)) :
    clkgenWriteD regs divider nr d addr = regs addr := by
  rw [writeD_eq hdivider hnr]
  split
  · exact clkgenWr_ne hbypass _
  · rw [clkgenAnd, clkgenWr_ne hbypass, clkgenWr_ne hdata]

theorem writeDividers_ne {divider : ℕ} (hdivider : divider = 3 ∨ divider = 4) (d1 d2 : ℤ)
    (hfirst : addr ≠ dividerOffset divider) (hsecond : addr ≠ dividerOffset divider + 2)
    (hbypass : addr ≠ dividerOffset divider + 3) : writeDividers regs divider d1 d2 addr = regs addr := by
  rw [writeDividers, writeD_ne hdivider (.inr rfl) d2 hbypass hsecond, writeD_ne hdivider (.inl rfl) d1 hbypass hfirst]

theorem readD_one (regs : Ad9516) (offset : ℕ) : clkgenReadD regs offset 1 =
    if regs (offset + 3) &&& 0x10 ≠ 0 then 1 else halves (regs offset) := rfl

theorem readD_two (regs : Ad9516) (offset : ℕ) : clkgenReadD regs offset 2 =
    if regs (offset + 3) &&& 0x20 ≠ 0 then 1 else halves (regs (offset + 1)) := rfl

/-- The first divider reads back; the second only if it is bypassed, and else as what its neighbour stands for. -/
theorem readD_writeDividers (regs : Ad9516) {divider : ℕ} (hdivider : divider = 3 ∨ divider = 4) {d1 : ℤ}
    (hd1 : d1 = 0 ∨ 2 ≤ d1 ∧ d1 ≤ 32) (d2 : ℤ) :
    clkgenReadD (writeDividers regs divider d1 d2) (dividerOffset divider) 1 = (if d1 = 0 then 1 else d1) ∧
    clkgenReadD (writeDividers regs divider d1 d2) (dividerOffset divider) 2 =
      if d2 = 0 then 1 else halves (regs (dividerOffset divider + 1)) := by
  obtain ⟨hbit1, hbit2⟩ := bypass_bits (regs (dividerOffset divider + 3)) (decide (d1 = 0)) (decide (d2 = 0))
  have hbypass : writeDividers regs divider d1 d2 (dividerOffset divider + 3) = _ :=
    (writeD_bypass hdivider (.inr rfl) d2).trans (by rw [writeD_bypass hdivider (.inl rfl) d1])
  have hphase : writeDividers regs divider d1 d2 (dividerOffset divider + 1) = regs (dividerOffset divider + 1) :=
    writeDividers_ne hdivider d1 d2 (by omega) (by omega) (by omega)
  rw [readD_one, readD_two, hbypass, hphase]
  constructor
  · by_cases h : d1 = 0
    · rw [if_pos h]
      exact if_pos (hbit1.mpr (decide_eq_true h))
    · have hdata : writeDividers regs divider d1 d2 (dividerOffset divider) = dividerData d1 := by
        rw [writeDividers, writeD_ne hdivider (.inr rfl) d2 (by omega) (by omega), writeD_eq hdivider (.inl rfl),
          if_neg h, clkgenAnd, clkgenWr_ne (by omega)]
        exact clkgenWr_self ..
      obtain ⟨h2, h32⟩ := hd1.resolve_left h
      rw [if_neg h, hdata, halves_dividerData h2 h32]
      exact if_neg fun hne => h (of_decide_eq_true (hbit1.mp hne))
  · by_cases h : d2 = 0
    · rw [if_pos h]
      exact if_pos (hbit2.mpr (decide_eq_true h))
    · rw [if_neg h]
      exact if_neg fun hne => h (of_decide_eq_true (hbit2.mp hne))

theorem readD_congr {regs' : Ad9516} {offset : ℕ} (hfirst : regs' offset = regs offset)
    (hsecond : regs' (offset + 1) = regs (offset + 1)) (hbypass : regs' (offset + 3) = regs (offset + 3)) :
    clkgenReadD regs' offset 1 = clkgenReadD regs offset 1 ∧
    clkgenReadD regs' offset 2 = clkgenReadD regs offset 2 := by
  simp only [readD_one, readD_two, hfirst, hsecond, hbypass, and_self]

end Registers

/-! ## Whole configurations -/

section Configurations
variable {regs : Ad9516} {pll : Ad9516Pll}

/-- What a divider divides by; zero stands for a bypassed one. -/
def divideBy (d : ℤ) : ℤ := if d = 0 then 1 else d

/-- The register fields are wide enough. -/
structure Fits (pll : Ad9516Pll) : Prop where
  a : 0 ≤ pll.a ∧ pll.a < 2 ^ 6
  b : 0 ≤ pll.b ∧ pll.b < 2 ^ 13
  r : 0 ≤ pll.r ∧ pll.r < 2 ^ 14
  p : pll.p = 16 ∨ pll.p = 32

/-- What is read after the configuration was written is the configuration, for channel dividers 3 and 4 alike. -/
structure RoundTrips (regs : Ad9516) (pll : Ad9516Pll) : Prop where
  fits : Fits pll
  a : (getPllConf (clkgenApplyPllConf regs pll).1 pll).a = pll.a
  b : (getPllConf (clkgenApplyPllConf regs pll).1 pll).b = pll.b
  p : (getPllConf (clkgenApplyPllConf regs pll).1 pll).p = pll.p
  r : divideBy (getPllConf (clkgenApplyPllConf regs pll).1 pll).r = divideBy pll.r
  dvco : divideBy (getPllConf (clkgenApplyPllConf regs pll).1 pll).dvco = divideBy pll.dvco
  d1 : divideBy (getPllConf (clkgenApplyPllConf regs pll).1 pll).d1 = divideBy (checkPllDividers pll).d1
  d2 : divideBy (getPllConf (clkgenApplyPllConf regs pll).1 pll).d2 = divideBy (checkPllDividers pll).d2
  d1' : divideBy (clkgenReadD (clkgenApplyPllConf regs pll).1 ad9516CmosDiv4_1 1) = divideBy (checkPllDividers pll).d1
  d2' : divideBy (clkgenReadD (clkgenApplyPllConf regs pll).1 ad9516CmosDiv4_1 2) = divideBy (checkPllDividers pll).d2

/-- What the second divider divides by: the requested dividers change places if only the first is odd, and one that
divides by 1 is the second if the other one is even. -/
def secondDivider (pll : Ad9516Pll) : ℤ :=
  if pll.d1 = 1 then 1 else if pll.d1 % 2 = 1 ∧ (pll.d2 = 1 ∨ pll.d2 % 2 = 0) then pll.d1 else pll.d2

/-- The domain of the configurations for the internal clock. -/
structure Internal (pll : Ad9516Pll) : Prop where
  accepted : clkgenCheckPll pll = 0
  external : pll.external = 0
  dvco : 2 ≤ pll.dvco ∧ pll.dvco ≤ 6
  d1 : 1 ≤ pll.d1 ∧ pll.d1 ≤ 32
  d2 : 1 ≤ pll.d2 ∧ pll.d2 ≤ 32

theorem checkPll_accepts (h : clkgenCheckPll pll = 0) : pll.a ≤ 63 ∧ (pll.p = 16 ∨ pll.p = 32) ∧
    (0 < pll.b ∧ pll.b ≤ 8191) ∧ 0 < pll.r ∧ pll.r ≤ 16383 := by
  unfold clkgenCheckPll at h
  split at h
  · cases h
  · omega

/-- What the normalised configuration has in common with the one that was asked for. -/
theorem checkPllDividers_spec (h : Internal pll) :
    (checkPllDividers pll).a = pll.a ∧ (checkPllDividers pll).b = pll.b ∧ (checkPllDividers pll).p = pll.p ∧
    (checkPllDividers pll).r = (if pll.r = 1 then 0 else pll.r) ∧ (checkPllDividers pll).dvco = pll.dvco ∧
    (checkPllDividers pll).external = 0 := by
  have hdvco : ¬pll.dvco = 1 := by
    have hlow := h.dvco.1
    omega
  unfold checkPllDividers
  refine ⟨?_, ?_, ?_, ?_, ?_, ?_⟩
  · simp only [apply_ite Ad9516Pll.a, ite_self]
  · simp only [apply_ite Ad9516Pll.b, ite_self]
  · simp only [apply_ite Ad9516Pll.p, ite_self]
  · simp only [apply_ite Ad9516Pll.r, ite_self]
  · simp only [apply_ite Ad9516Pll.dvco, ite_self, if_neg hdvco]
  · simp only [apply_ite Ad9516Pll.external, ite_self, h.external]

theorem checkPllDividers_dividers (h : Internal pll) :
    ((checkPllDividers pll).d1 = 0 ∨ 2 ≤ (checkPllDividers pll).d1 ∧ (checkPllDividers pll).d1 ≤ 32) ∧
    ((checkPllDividers pll).d2 = 0 ∨ 2 ≤ (checkPllDividers pll).d2) ∧
    divideBy (checkPllDividers pll).d2 = secondDivider pll := by
  obtain ⟨hd1, hd1'⟩ := h.d1
  obtain ⟨hd2, hd2'⟩ := h.d2
  have hmod : ∀ d : ℤ, 1 ≤ d → d.tmod 2 = d % 2 := fun d hd => Int.tmod_eq_emod_of_nonneg (by omega)
  unfold checkPllDividers secondDivider divideBy
  by_cases h1 : pll.d1 = 1
  · by_cases h2 : pll.d2 = 1
    · simp [h1, h2]
    · simp only [h1, h2, if_true, if_false, true_and, ne_eq]
      rw [if_neg (by omega), if_pos (by omega)]
      dsimp only
      omega
  · by_cases h2 : pll.d2 = 1
    · have h0 : ¬pll.d1 = 0 := by omega
      simp only [h1, h2, if_true, if_false, and_true, true_or, h0, ne_eq, not_true_eq_false, and_false, Int.zero_tmod,
        hmod _ hd1]
      by_cases hodd : pll.d1 % 2 = 1
      · rw [if_pos (by omega), if_pos hodd]
        dsimp only
        omega
      · rw [if_neg (by omega), if_neg hodd]
        dsimp only
        omega
    · have h0 : ¬pll.d1 = 0 := by omega
      simp only [h1, h2, if_false, false_or, h0, false_and, hmod _ hd1, hmod _ hd2]
      by_cases hodd : pll.d1 % 2 = 1 ∧ pll.d2 % 2 = 0
      · rw [if_pos (by omega), if_pos hodd]
        dsimp only
        omega
      · rw [if_neg (by omega), if_neg hodd]
        dsimp only
        omega

/-- The registers as the four write-backs at the end find them. -/
theorem applyPllConf_eq (h : Internal pll) : (clkgenApplyPllConf regs pll).1 =
    clkgenWr (clkgenWr (clkgenWr (clkgenWr
      (writeDividers (writeDividers
        (clkgenWriteDvco
          (clkgenWriteP (clkgenWriteR (clkgenWriteB (clkgenWriteA (clkgenWr regs ad9516InputClks 0x2)
            (checkPllDividers pll).a) (checkPllDividers pll).b) (checkPllDividers pll).r) (checkPllDividers pll).p)
          (checkPllDividers pll)).1
        3 (checkPllDividers pll).d1 (checkPllDividers pll).d2)
        4 (checkPllDividers pll).d1 (checkPllDividers pll).d2)
      ad9516Pll3 0x00) ad9516UpdateAll 0x01) ad9516Pll3 0x01) ad9516UpdateAll 0x01 := by
  obtain ⟨-, -, -, -, hdvco, hexternal⟩ := checkPllDividers_spec h
  have hkept : ∀ regs', (clkgenWriteDvco regs' (checkPllDividers pll)).2 = checkPllDividers pll :=
    fun _ => (readDvco_writeDvco (by rw [hdvco]; exact h.dvco)).1
  simp only [clkgenApplyPllConf, hexternal, ne_eq, not_true_eq_false, if_false, hkept]
  rfl

theorem writeDvco_ne {addr : ℕ} (hdiv : addr ≠ ad9516VcoDivider) (hclks : addr ≠ ad9516InputClks) :
    (clkgenWriteDvco regs pll).1 addr = regs addr := by
  unfold clkgenWriteDvco
  split
  · exact clkgenWr_ne hclks _
  · dsimp only
    rw [clkgenAnd, clkgenWr_ne hclks, clkgenWr_ne hdiv]

theorem writeP_ne {addr : ℕ} (h : addr ≠ ad9516Pll1) (p : ℤ) : clkgenWriteP regs p addr = regs addr := by
  rw [clkgenWriteP, clkgenOr, clkgenWr_ne h, clkgenAnd, clkgenWr_ne h]

theorem writeR_ne {addr : ℕ} (hlsb : addr ≠ ad9516RcountLsb) (hmsb : addr ≠ ad9516RcountMsb) (r : ℤ) :
    clkgenWriteR regs r addr = regs addr := by
  rw [clkgenWriteR, clkgenWr_ne hmsb, clkgenWr_ne hlsb]

theorem writeB_ne {addr : ℕ} (hlsb : addr ≠ ad9516BcountLsb) (hmsb : addr ≠ ad9516BcountMsb) (b : ℤ) :
    clkgenWriteB regs b addr = regs addr := by
  rw [clkgenWriteB, clkgenWr_ne hmsb, clkgenWr_ne hlsb]

/-- The registers when the counters are written. -/
def writeCounters (regs : Ad9516) (pll : Ad9516Pll) : Ad9516 :=
  clkgenWriteR (clkgenWriteB (clkgenWriteA (clkgenWr regs ad9516InputClks 0x2) pll.a) pll.b)
    (if pll.r = 1 then 0 else pll.r)

theorem writeCounters_ne {addr : ℕ} (haddr : 0x17 ≤ addr) (hclks : addr ≠ ad9516InputClks) :
    writeCounters regs pll addr = regs addr := by
  have hne : ∀ addr' : ℕ, addr' < 0x17 → addr ≠ addr' := fun addr' hlt => by omega
  rw [writeCounters, writeR_ne (hne _ (by decide)) (hne _ (by decide)),
    writeB_ne (hne _ (by decide)) (hne _ (by decide)), clkgenWriteA, clkgenWr_ne (hne _ (by decide)),
    clkgenWr_ne hclks]

/-- Nothing that is written after the dividers is read back. -/
theorem applyPllConf_high {addr : ℕ} (h : Internal pll) (hpll3 : addr ≠ ad9516Pll3) (hupdate : addr ≠ ad9516UpdateAll) :
    (clkgenApplyPllConf regs pll).1 addr =
    writeDividers (writeDividers
        (clkgenWriteDvco (clkgenWriteP (writeCounters regs pll) pll.p) (checkPllDividers pll)).1
        3 (checkPllDividers pll).d1 (checkPllDividers pll).d2)
        4 (checkPllDividers pll).d1 (checkPllDividers pll).d2 addr := by
  obtain ⟨ha, hb, hp, hr, -, -⟩ := checkPllDividers_spec h
  rw [applyPllConf_eq h, clkgenWr_ne hupdate, clkgenWr_ne hpll3, clkgenWr_ne hupdate, clkgenWr_ne hpll3, ha, hb, hp, hr,
    writeCounters]

/-- The registers below those of the dividers. -/
theorem applyPllConf_low {addr : ℕ} (h : Internal pll) (haddr : addr < 0x17) :
    (clkgenApplyPllConf regs pll).1 addr = clkgenWriteP (writeCounters regs pll) pll.p addr := by
  have hne : ∀ addr' : ℕ, 0x17 ≤ addr' → addr ≠ addr' := fun addr' hle => by omega
  rw [applyPllConf_high h (hne _ (by decide)) (hne _ (by decide)),
    writeDividers_ne (.inr rfl) _ _ (hne _ (by decide)) (hne _ (by decide)) (hne _ (by decide)),
    writeDividers_ne (.inl rfl) _ _ (hne _ (by decide)) (hne _ (by decide)) (hne _ (by decide)),
    writeDvco_ne (hne _ (by decide)) (hne _ (by decide))]

theorem getPllConf_counters (regs : Ad9516) (h : Internal pll) :
    (getPllConf (clkgenApplyPllConf regs pll).1 pll).a = (BitVec.ofInt 8 pll.a &&& 0x3f).toNat ∧
    (getPllConf (clkgenApplyPllConf regs pll).1 pll).b = pll.b ∧
    (getPllConf (clkgenApplyPllConf regs pll).1 pll).p = pll.p ∧
    divideBy (getPllConf (clkgenApplyPllConf regs pll).1 pll).r = divideBy pll.r := by
  obtain ⟨-, hp, ⟨hb, hb'⟩, hr, hr'⟩ := checkPll_accepts h.accepted
  have hlow : ∀ addr < 0x17, (clkgenApplyPllConf regs pll).1 addr = clkgenWriteP (writeCounters regs pll) pll.p addr :=
    fun addr haddr => applyPllConf_low h haddr
  generalize (clkgenApplyPllConf regs pll).1 = after at *
  unfold getPllConf
  refine ⟨?_, ?_, ?_, ?_⟩
  · dsimp only [clkgenReadA, clkgenRd]
    rw [hlow _ (by decide), writeP_ne (by decide), writeCounters, writeR_ne (by decide) (by decide),
      writeB_ne (by decide) (by decide), clkgenWriteA, clkgenWr_self, BitVec.and_assoc, BitVec.and_self]
  · have hread : clkgenReadB after =
        clkgenReadB (clkgenWriteB (clkgenWriteA (clkgenWr regs ad9516InputClks 0x2) pll.a) pll.b) := by
      unfold clkgenReadB clkgenRd
      rw [hlow _ (by decide), hlow _ (by decide), writeP_ne (by decide), writeP_ne (by decide), writeCounters,
        writeR_ne (by decide) (by decide), writeR_ne (by decide) (by decide)]
    exact hread.trans (readB_writeB hb.le hb')
  · have hread : clkgenReadP after = clkgenReadP (clkgenWriteP (writeCounters regs pll) pll.p) := by
      unfold clkgenReadP clkgenRd
      rw [hlow _ (by decide)]
    exact hread.trans (readP_writeP hp)
  · have hread : clkgenReadR after = clkgenReadR (writeCounters regs pll) := by
      unfold clkgenReadR clkgenRd
      rw [hlow _ (by decide), hlow _ (by decide), writeP_ne (by decide), writeP_ne (by decide)]
    have hwrite : clkgenReadR (writeCounters regs pll) = if pll.r = 1 then 0 else pll.r :=
      readR_writeR (by split <;> omega) (by split <;> omega)
    dsimp only
    rw [hread, hwrite]
    unfold divideBy
    split <;> omega

theorem getPllConf_dvco (regs : Ad9516) (h : Internal pll) : (getPllConf (clkgenApplyPllConf regs pll).1 pll).dvco =
    pll.dvco := by
  obtain ⟨-, -, -, -, hdvco, -⟩ := checkPllDividers_spec h
  have hread : clkgenReadDvco (clkgenApplyPllConf regs pll).1 = clkgenReadDvco
      (clkgenWriteDvco (clkgenWriteP (writeCounters regs pll) pll.p) (checkPllDividers pll)).1 := by
    unfold clkgenReadDvco clkgenRd
    rw [applyPllConf_high h (by decide) (by decide), applyPllConf_high h (by decide) (by decide),
      writeDividers_ne (.inr rfl) _ _ (by decide) (by decide) (by decide),
      writeDividers_ne (.inr rfl) _ _ (by decide) (by decide) (by decide),
      writeDividers_ne (.inl rfl) _ _ (by decide) (by decide) (by decide),
      writeDividers_ne (.inl rfl) _ _ (by decide) (by decide) (by decide)]
  exact hread.trans ((readDvco_writeDvco (by rw [hdvco]; exact h.dvco)).2.trans hdvco)

/-- A channel divider is written over registers of which the second was not touched before. -/
theorem applyPllConf_dividers (regs : Ad9516) (h : Internal pll) {divider : ℕ} (hdivider : divider = 3 ∨ divider = 4) :
    ∃ before : Ad9516, before (dividerOffset divider + 1) = regs (dividerOffset divider + 1) ∧
      ∀ k < 4, (clkgenApplyPllConf regs pll).1 (dividerOffset divider + k) =
        writeDividers before divider (checkPllDividers pll).d1 (checkPllDividers pll).d2
        (dividerOffset divider + k) := by
  have hbefore : ∀ addr, 0x199 ≤ addr → addr ≤ 0x1A1 →
      (clkgenWriteDvco (clkgenWriteP (writeCounters regs pll) pll.p) (checkPllDividers pll)).1 addr = regs addr := by
    intro addr hlow hhigh
    rw [writeDvco_ne (by unfold ad9516VcoDivider; omega) (by unfold ad9516InputClks; omega),
      writeP_ne (by unfold ad9516Pll1; omega), writeCounters_ne (by omega) (by unfold ad9516InputClks; omega)]
  have hoffset : dividerOffset 3 = 0x199 ∧ dividerOffset 4 = 0x19E := ⟨rfl, rfl⟩
  have hafter : ∀ addr, 0x199 ≤ addr → addr ≤ 0x1A1 → (clkgenApplyPllConf regs pll).1 addr = _ := fun addr hlow hhigh =>
    applyPllConf_high h (by unfold ad9516Pll3; omega) (by unfold ad9516UpdateAll; omega)
  obtain rfl | rfl := hdivider
  · refine ⟨_, hbefore _ (by omega) (by omega), fun k hk => ?_⟩
    rw [hafter _ (by omega) (by omega), writeDividers_ne (.inr rfl) _ _ (by omega) (by omega) (by omega)]
  · refine ⟨_, ?_, fun k hk => hafter _ (by omega) (by omega)⟩
    rw [writeDividers_ne (.inl rfl) _ _ (by omega) (by omega) (by omega), hbefore _ (by omega) (by omega)]

/-- The dividers of both channels read back the same way, each second one as what its neighbour stood for. -/
theorem readD_applyPllConf (regs : Ad9516) (h : Internal pll) {divider : ℕ} (hdivider : divider = 3 ∨ divider = 4) :
    divideBy (clkgenReadD (clkgenApplyPllConf regs pll).1 (dividerOffset divider) 1) =
      divideBy (checkPllDividers pll).d1 ∧
    divideBy (clkgenReadD (clkgenApplyPllConf regs pll).1 (dividerOffset divider) 2) =
      divideBy (if (checkPllDividers pll).d2 = 0 then 1 else halves (regs (dividerOffset divider + 1))) := by
  obtain ⟨hd1, -, -⟩ := checkPllDividers_dividers h
  obtain ⟨before, hphase, hafter⟩ := applyPllConf_dividers regs h hdivider
  obtain ⟨hread1, hread2⟩ := readD_congr (hafter 0 (by decide)) (hafter 1 (by decide)) (hafter 3 (by decide))
  obtain ⟨hwrite1, hwrite2⟩ := readD_writeDividers before hdivider hd1 (checkPllDividers pll).d2
  rw [Nat.add_zero] at hread1 hread2
  rw [hread1, hread2, hwrite1, hwrite2, hphase]
  refine ⟨?_, rfl⟩
  unfold divideBy
  split <;> omega

theorem two_le_halves (x : U8) : 2 ≤ halves x := by
  unfold halves
  omega

/-- The configuration reads back exactly if its A counter is not negative, and the second divider either is bypassed or
agrees with what the registers before its own happen to hold, the phase offsets of the channels. -/
theorem applyPllConf_roundTrips_iff (regs : Ad9516) (pll : Ad9516Pll) (h : Internal pll) :
    RoundTrips regs pll ↔ 0 ≤ pll.a ∧ (secondDivider pll = 1 ∨
      halves (regs ad9516CmosDiv3Pho) = secondDivider pll ∧ halves (regs ad9516CmosDiv4Pho) = secondDivider pll) := by
  obtain ⟨ha63, hp, ⟨hb, hb'⟩, hr, hr'⟩ := checkPll_accepts h.accepted
  obtain ⟨hreada, hreadb, hreadp, hreadr⟩ := getPllConf_counters regs h
  have hreaddvco := getPllConf_dvco regs h
  obtain ⟨hread31, hread32⟩ := readD_applyPllConf regs h (.inl rfl)
  obtain ⟨hread41, hread42⟩ := readD_applyPllConf regs h (.inr rfl)
  obtain ⟨-, hsecond, hnormal⟩ := checkPllDividers_dividers h
  -- a second divider that is not bypassed reads back if the neighbour agrees
  have hphase : ∀ x : U8, divideBy (if (checkPllDividers pll).d2 = 0 then 1 else halves x) =
      divideBy (checkPllDividers pll).d2 ↔ secondDivider pll = 1 ∨ halves x = secondDivider pll := by
    intro x
    have hx := two_le_halves x
    rw [← hnormal]
    unfold divideBy
    obtain hzero | hlarge := hsecond
    · simp [hzero]
    · have hne : ¬(checkPllDividers pll).d2 = 0 := by omega
      have hxne : ¬halves x = 0 := by omega
      have hone : ¬(checkPllDividers pll).d2 = 1 := by omega
      simp only [if_neg hne, if_neg hxne, hone, false_or]
  constructor
  · intro hround
    refine ⟨hround.fits.a.1, ?_⟩
    have h3 := (hphase _).mp (hread32.symm.trans hround.d2)
    have h4 := (hphase _).mp (hread42.symm.trans hround.d2')
    obtain hone | h3 := h3
    · exact .inl hone
    · obtain hone | h4 := h4
      · exact .inl hone
      · exact .inr ⟨h3, h4⟩
  · rintro ⟨ha, hcond⟩
    refine ⟨⟨⟨ha, by omega⟩, ⟨hb.le, by omega⟩, ⟨hr.le, by omega⟩, hp⟩, ?_, hreadb, hreadp, hreadr, ?_, hread31, ?_,
      hread41, ?_⟩
    · rw [hreada, toNat_low6 ha ha63]
    · rw [hreaddvco]
    · exact hread32.trans ((hphase _).mpr (hcond.imp_right And.left))
    · exact hread42.trans ((hphase _).mpr (hcond.imp_right And.right))

/-- The defaults of the driver have no second divider, and read back. -/
theorem roundTrips_defaults : RoundTrips (fun _ => 0) ⟨0, 4375, 16, 1000, 2, 14, 1, 0⟩ :=
  (applyPllConf_roundTrips_iff _ _ ⟨by decide, rfl, by decide, by decide, by decide⟩).mpr (by decide)

/-- With a second divider of 4, the phase offset 0 reads as a divider of 2. -/
theorem not_roundTrips_second : Internal ⟨0, 4375, 16, 1000, 2, 14, 4, 0⟩ ∧
    ¬RoundTrips (fun _ => 0) ⟨0, 4375, 16, 1000, 2, 14, 4, 0⟩ := by
  refine ⟨⟨by decide, rfl, by decide, by decide, by decide⟩, fun hround => ?_⟩
  have hd2 : divideBy (getPllConf (clkgenApplyPllConf (fun _ => 0) ⟨0, 4375, 16, 1000, 2, 14, 4, 0⟩).1
      ⟨0, 4375, 16, 1000, 2, 14, 4, 0⟩).d2 = 2 := by
    decide
  exact absurd (hd2.symm.trans hround.d2) (by decide)

end Configurations

end HtDrivers.Cvorg
