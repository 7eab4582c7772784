import Mathlib.Tactic

/-! The clock generator of the CVORG (`clkgen.c`), an AD9516 whose registers are bytes. Every transfer to it succeeds,
and what the source keeps in an `int` is an integer. -/
namespace HtDrivers.Cvorg
set_option autoImplicit false

/-! ## Registers -/

abbrev U8 := BitVec 8

/-- The registers by their addresses. -/
abbrev Ad9516 := ℕ → U8

def ad9516RcountLsb : ℕ := 0x11

def ad9516RcountMsb : ℕ := 0x12

def ad9516Acount : ℕ := 0x13

def ad9516BcountLsb : ℕ := 0x14

def ad9516BcountMsb : ℕ := 0x15

def ad9516Pll1 : ℕ := 0x16

def ad9516Pll3 : ℕ := 0x18

def ad9516PllReadback : ℕ := 0x1F

def ad9516CmosDiv3_1 : ℕ := 0x199

def ad9516CmosDiv3Pho : ℕ := 0x19A

def ad9516CmosDiv3_2 : ℕ := 0x19B

def ad9516CmosDiv3Bypass : ℕ := 0x19C

def ad9516CmosDiv4_1 : ℕ := 0x19E

def ad9516CmosDiv4Pho : ℕ := 0x19F

def ad9516CmosDiv4_2 : ℕ := 0x1A0

def ad9516CmosDiv4Bypass : ℕ := 0x1A1

def ad9516VcoDivider : ℕ := 0x1E0

def ad9516InputClks : ℕ := 0x1E1

def ad9516UpdateAll : ℕ := 0x232

def clkgenRd (regs : Ad9516) (addr : ℕ) : U8 := regs addr

def clkgenWr (regs : Ad9516) (addr : ℕ) (data : U8) : Ad9516 := Function.update regs addr data

def clkgenOr (regs : Ad9516) (addr : ℕ) (data : U8) : Ad9516 := clkgenWr regs addr (clkgenRd regs addr ||| data)

def clkgenAnd (regs : Ad9516) (addr : ℕ) (data : U8) : Ad9516 := clkgenWr regs addr (clkgenRd regs addr &&& data)

/-- `struct ad9516_pll`. -/
@[ext] structure Ad9516Pll where
  a : ℤ
  b : ℤ
  p : ℤ
  r : ℤ
  dvco : ℤ
  d1 : ℤ
  d2 : ℤ
  external : ℤ
deriving DecidableEq

/-! ## Reading a configuration -/

def clkgenReadDvco (regs : Ad9516) : ℤ :=
  let dvco := clkgenRd regs ad9516VcoDivider
  let inputclks := clkgenRd regs ad9516InputClks
  if inputclks &&& 0x1 ≠ 0 then 1
  else
    let retval : ℤ := (dvco &&& 0x7).toNat + 2
    if retval ≥ 7 then 1 else retval

/-- `nr` is the number of the divider, and a wrong number stands for 1. -/
def clkgenReadD (regs : Ad9516) (offset nr : ℕ) : ℤ :=
  let bypass := clkgenRd regs (offset + 3)
  let nr := if 1 ≤ nr ∧ nr ≤ 2 then nr else 1
  let val := clkgenRd regs (offset + (nr - 1))
  let m := (val &&& 0xf0) >>> 4
  let n := val &&& 0x0f
  if bypass &&& ((1 : U8) <<< (4 + (nr - 1))) ≠ 0 then 1 else m.toNat + n.toNat + 2

def clkgenReadA (regs : Ad9516) : ℤ := (clkgenRd regs ad9516Acount &&& 0x3f).toNat

def clkgenReadB (regs : Ad9516) : ℤ :=
  ((clkgenRd regs ad9516BcountLsb).toNat ||| (clkgenRd regs ad9516BcountMsb &&& 0x1f).toNat <<< 8 : ℕ)

def clkgenReadR (regs : Ad9516) : ℤ :=
  ((clkgenRd regs ad9516RcountLsb).toNat ||| (clkgenRd regs ad9516RcountMsb &&& 0x3f).toNat <<< 8 : ℕ)

def clkgenReadP (regs : Ad9516) : ℤ :=
  let prescaler := clkgenRd regs ad9516Pll1 &&& 0x7
  if prescaler = 5 then 16 else if prescaler = 6 then 32 else 1

/-- Fills in all fields but `external`. -/
def getPllConf (regs : Ad9516) (pll : Ad9516Pll) : Ad9516Pll :=
  { pll with
    a := clkgenReadA regs
    b := clkgenReadB regs
    r := clkgenReadR regs
    p := clkgenReadP regs
    dvco := clkgenReadDvco regs
    d1 := clkgenReadD regs ad9516CmosDiv3_1 1
    d2 := clkgenReadD regs ad9516CmosDiv3_1 2 }

/-! ## Writing a configuration -/

/-- Only zero stands for a bypassed divider after this. -/
def checkPllDividers (pll : Ad9516Pll) : Ad9516Pll :=
  let pll := { pll with
    r := if pll.r = 1 then 0 else pll.r
    dvco := if pll.dvco = 1 then 0 else pll.dvco
    d1 := if pll.d1 = 1 then 0 else pll.d1
    d2 := if pll.d2 = 1 then 0 else pll.d2 }
  if pll.d1 = 0 ∧ pll.d2 = 0 then pll
  else if pll.d1 = 0 ∧ pll.d2 ≠ 0 then { pll with d1 := pll.d2, d2 := 0 }
  else if pll.d1.tmod 2 ≠ 0 ∧ pll.d2.tmod 2 = 0 then { pll with d1 := pll.d2, d2 := pll.d1 }
  else pll

def clkgenWriteA (regs : Ad9516) (a : ℤ) : Ad9516 := clkgenWr regs ad9516Acount (BitVec.ofInt 8 a &&& 0x3f)

def clkgenWriteB (regs : Ad9516) (b : ℤ) : Ad9516 :=
  clkgenWr (clkgenWr regs ad9516BcountLsb (BitVec.ofInt 8 b)) ad9516BcountMsb (BitVec.ofInt 8 (b >>> (8 : ℕ)) &&& 0x3f)

def clkgenWriteR (regs : Ad9516) (r : ℤ) : Ad9516 :=
  clkgenWr (clkgenWr regs ad9516RcountLsb (BitVec.ofInt 8 r)) ad9516RcountMsb (BitVec.ofInt 8 (r >>> (8 : ℕ)) &&& 0x3f)

def clkgenWriteP (regs : Ad9516) (p : ℤ) : Ad9516 :=
  clkgenOr (clkgenAnd regs ad9516Pll1 (~~~0x07)) ad9516Pll1 (if p = 16 then 0x5 else 0x6)

/-- A divider that cannot be bypassed, or is not one, is set to 2 in the configuration as well. -/
def clkgenWriteDvco (regs : Ad9516) (pll : Ad9516Pll) : Ad9516 × Ad9516Pll :=
  if pll.dvco = 0 ∧ pll.external ≠ 0 then (clkgenOr regs ad9516InputClks 0x1, pll)
  else
    let pll := if pll.dvco = 0 then { pll with dvco := 2 } else pll
    let pll := if 2 ≤ pll.dvco ∧ pll.dvco ≤ 6 then pll else { pll with dvco := 2 }
    (clkgenAnd (clkgenWr regs ad9516VcoDivider (BitVec.ofInt 8 (pll.dvco - 2) &&& 0x7)) ad9516InputClks (~~~0x1), pll)

/-- Divider `nr`, 1 or 2, of channel divider 3 or 4; other numbers are ignored. -/
def clkgenWriteD (regs : Ad9516) (divider nr : ℕ) (d : ℤ) : Ad9516 :=
  if ¬ (3 ≤ divider ∧ divider ≤ 4) then regs
  else if ¬ (1 ≤ nr ∧ nr ≤ 2) then regs
  else
    let bypassAddr := if divider = 3 then ad9516CmosDiv3Bypass else ad9516CmosDiv4Bypass
    let dividerAddr :=
      if divider = 3 then if nr = 1 then ad9516CmosDiv3_1 else ad9516CmosDiv3_2
      else if nr = 1 then ad9516CmosDiv4_1 else ad9516CmosDiv4_2
    let bypassMask : U8 := if nr = 1 then 0x10 else 0x20
    if d = 0 then clkgenOr regs bypassAddr bypassMask
    else
      let d := d - 2
      let m := d.tdiv 2 + d.tmod 2
      let n := d.tdiv 2
      let data : U8 := (BitVec.ofInt 8 m &&& 0xf) <<< 4 ||| (BitVec.ofInt 8 n &&& 0xf)
      clkgenAnd (clkgenWr regs dividerAddr data) bypassAddr (~~~bypassMask)

/-- The registers, the configuration as it is kept, and the return value: whether the VCO is calibrated. -/
def clkgenApplyPllConf (regs : Ad9516) (pll : Ad9516Pll) : Ad9516 × Ad9516Pll × ℤ :=
  let pll := checkPllDividers pll
  let regs := clkgenWr regs ad9516InputClks (if pll.external ≠ 0 then 0x9 else 0x2)
  let regs := clkgenWriteA regs pll.a
  let regs := clkgenWriteB regs pll.b
  let regs := clkgenWriteR regs pll.r
  let regs := clkgenWriteP regs pll.p
  let (regs, pll) := clkgenWriteDvco regs pll
  let regs := clkgenWriteD regs 3 1 pll.d1
  let regs := clkgenWriteD regs 3 2 pll.d2
  let regs := clkgenWriteD regs 4 1 pll.d1
  let regs := clkgenWriteD regs 4 2 pll.d2
  let regs := clkgenWr regs ad9516Pll3 0x00
  let regs := clkgenWr regs ad9516UpdateAll 0x01
  let regs := clkgenWr regs ad9516Pll3 0x01
  let regs := clkgenWr regs ad9516UpdateAll 0x01
  (regs, pll, if clkgenRd regs ad9516PllReadback &&& 0x40 ≠ 0 then 0 else -1)

/-- Zero if the configuration is accepted. -/
def clkgenCheckPll (pll : Ad9516Pll) : ℤ :=
  if pll.a > pll.b ∨ pll.a > 63 ∨ (pll.p ≠ 16 ∧ pll.p ≠ 32) ∨ (pll.b ≤ 0 ∨ pll.b > 8191) ∨
      (pll.r ≤ 0 ∨ pll.r > 16383) then 1
  else 0

end HtDrivers.Cvorg
