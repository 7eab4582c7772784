import HtDrivers.Lib.Words
import HtDrivers.Vmebridge.Tsi148Attr

/-! # Outbound windows of the TSI148 (`tsi148.c`)

Each outbound window has a set of translation registers. `tsi148CreateWindow` programs them and
`tsi148RemoveWindow` wipes them. The start, the end and the offset of the translation are 64 bits wide
and written as two words, with the upper words computed by `add64hi` and `sub64hi`.
-/
namespace HtDrivers.Vmebridge
open HtDrivers.Lib.Words
set_option autoImplicit false

/-- `struct tsi148_otrans`: the translation registers of one window. -/
structure Otrans where
  otsau : U32
  otsal : U32
  oteau : U32
  oteal : U32
  otofu : U32
  otofl : U32
  otbs : U32
  otat : U32
  deriving DecidableEq, Repr

def tsi148LcsrOtsalM : U32 := 0xffff0000
def tsi148LcsrOtbsM : U32 := 0xfffff
def tsi148LcsrOtatEn : U32 := 1#32 <<< 31
def tsi148LcsrOtatMrpfd : U32 := 1#32 <<< 18
def tsi148LcsrOtatPfsShift : ℕ := 16
def tsi148LcsrOtatPfsM : U32 := 3#32 <<< 16

/-- The upper word of `hi0/lo0 - hi1/lo1`. -/
def sub64hi (lo0 hi0 lo1 hi1 : U32) : U32 := if lo0 < lo1 then hi0 - hi1 - 1 else hi0 - hi1

/-- The upper word of `hi0/lo0 + hi1/lo1`. -/
def add64hi (lo0 hi0 lo1 hi1 : U32) : U32 := if lo0 + lo1 < lo1 then hi0 + hi1 + 1 else hi0 + hi1

/-- The rounding of the address and the size at the head of `tsi148_create_window`. -/
def tsi148RoundWindow (desc : VmeMapping) : VmeMapping :=
  let addr := if desc.vmeAddrl &&& 0xffff ≠ 0 then desc.vmeAddrl &&& ~~~0xffff else desc.vmeAddrl
  let size := if desc.sizel &&& 0xffff ≠ 0 then (desc.vmeAddrl + desc.sizel + 0x10000) &&& ~~~0xffff else desc.sizel
  { desc with vmeAddrl := addr, sizel := size }

/-- The attribute word with the enable and prefetch bits. -/
def tsi148Otat (attrs : U32) (desc : VmeMapping) : U32 :=
  let otat := attrs ||| tsi148LcsrOtatEn
  if desc.readPrefetchEnabled ≠ 0 then
    (otat &&& ~~~tsi148LcsrOtatMrpfd) ||| ((desc.readPrefetchSize <<< tsi148LcsrOtatPfsShift) &&& tsi148LcsrOtatPfsM)
  else otat ||| tsi148LcsrOtatMrpfd

def tsi148WindowRegs (attrs : U32) (desc : VmeMapping) : Otrans :=
  { otbs := desc.bcastSelect &&& tsi148LcsrOtbsM
    otsal := desc.pciAddrl &&& tsi148LcsrOtsalM
    otsau := desc.pciAddru
    oteal := (desc.pciAddrl + desc.sizel - 1) &&& ~~~0xffff
    oteau := add64hi desc.pciAddrl desc.pciAddru desc.sizel desc.sizeu
    otofl := desc.vmeAddrl - desc.pciAddrl
    otofu := sub64hi desc.vmeAddrl desc.vmeAddru desc.pciAddrl desc.pciAddru
    otat := tsi148Otat attrs desc }

/-- The return value, the descriptor as the function leaves it, and the registers. -/
def tsi148CreateWindow (desc : VmeMapping) (trans : Otrans) : Int × VmeMapping × Otrans :=
  let desc := tsi148RoundWindow desc
  if desc.pciAddrl &&& 0xffff ≠ 0 then (-EINVAL, desc, trans)
  else match tsi148SetupWindowAttributes desc.v2esstMode desc.dataWidth desc.am with
    | none => (-EINVAL, desc, trans)
    | some attrs => (0, { desc with windowEnabled := 1 }, tsi148WindowRegs attrs desc)

def wipedOtrans : Otrans := ⟨0, 0, 0, 0, 0, 0, 0, 0⟩

def tsi148RemoveWindow (desc : VmeMapping) : VmeMapping × Otrans :=
  ({ desc with windowEnabled := 0 }, wipedOtrans)

def Otrans.enabled (trans : Otrans) : Bool := trans.otat &&& tsi148LcsrOtatEn ≠ 0

/-! ## What a call leaves -/

section Calls
variable {desc desc' : VmeMapping} {trans trans' : Otrans}

theorem tsi148RoundWindow_aligned (hvme : desc.vmeAddrl &&& 0xffff = 0) (hsize : desc.sizel &&& 0xffff = 0) :
    tsi148RoundWindow desc = desc := by
  unfold tsi148RoundWindow
  rw [if_neg (not_not.mpr hvme), if_neg (not_not.mpr hsize)]

theorem tsi148CreateWindow_cases {rc : Int} (h : tsi148CreateWindow desc trans = (rc, desc', trans')) :
    (rc = -EINVAL ∧ desc' = tsi148RoundWindow desc ∧ trans' = trans) ∨
    (rc = 0 ∧ desc' = { tsi148RoundWindow desc with windowEnabled := 1 } ∧ desc.pciAddrl &&& 0xffff = 0 ∧
      ∃ attrs, tsi148SetupWindowAttributes desc.v2esstMode desc.dataWidth desc.am = some attrs ∧
        trans' = tsi148WindowRegs attrs (tsi148RoundWindow desc)) := by
  unfold tsi148CreateWindow at h
  simp only at h
  split at h
  · obtain ⟨rfl, rfl, rfl⟩ := by simpa using h
    exact .inl ⟨rfl, rfl, rfl⟩
  · rename_i hpci
    split at h
    · obtain ⟨rfl, rfl, rfl⟩ := by simpa using h
      exact .inl ⟨rfl, rfl, rfl⟩
    · rename_i attrs hattrs
      obtain ⟨rfl, rfl, rfl⟩ := by simpa using h
      exact .inr ⟨rfl, rfl, not_not.mp hpci, attrs, hattrs, rfl⟩

theorem tsi148CreateWindow_ok {attrs : U32} (hpci : desc.pciAddrl &&& 0xffff = 0)
    (hattrs : tsi148SetupWindowAttributes desc.v2esstMode desc.dataWidth desc.am = some attrs) :
    (tsi148CreateWindow desc trans).1 = 0 := by
  have hround : (tsi148RoundWindow desc).pciAddrl &&& 0xffff = 0 := hpci
  have hsame : tsi148SetupWindowAttributes (tsi148RoundWindow desc).v2esstMode (tsi148RoundWindow desc).dataWidth
      (tsi148RoundWindow desc).am = some attrs := hattrs
  unfold tsi148CreateWindow
  simp only
  rw [if_neg (not_not.mpr hround), hsame]

/-- The prefetch bits do not touch the enable bit. -/
theorem tsi148Otat_bit (attrs : U32) (desc : VmeMapping) : (tsi148Otat attrs desc).getLsbD 31 = true := by
  unfold tsi148Otat
  split
  · simp [tsi148LcsrOtatEn, tsi148LcsrOtatMrpfd]
  · simp [tsi148LcsrOtatEn]

theorem tsi148WindowRegs_enabled (attrs : U32) (desc : VmeMapping) : (tsi148WindowRegs attrs desc).enabled = true := by
  apply decide_eq_true
  intro hzero
  have hbit : (tsi148Otat attrs desc &&& tsi148LcsrOtatEn).getLsbD 31 = true := by
    rw [BitVec.getLsbD_and, tsi148Otat_bit]
    decide
  change tsi148Otat attrs desc &&& tsi148LcsrOtatEn = 0 at hzero
  rw [hzero] at hbit
  cases hbit

theorem wipedOtrans_enabled : wipedOtrans.enabled = false := by decide

end Calls

/-! ## The translation

What the manual says about an enabled window: an address is decoded when its 64K block lies between
the start and the end register, and the offset register is added to it. -/

def Otrans.start (trans : Otrans) : BitVec 64 := pair trans.otsau trans.otsal

def Otrans.stop (trans : Otrans) : BitVec 64 := pair trans.oteau trans.oteal

def Otrans.offset (trans : Otrans) : BitVec 64 := pair trans.otofu trans.otofl

def Otrans.Decodes (trans : Otrans) (a : BitVec 64) : Prop :=
  trans.start ≤ a &&& ~~~0xffff ∧ a &&& ~~~0xffff ≤ trans.stop

def Otrans.emits (trans : Otrans) (a : BitVec 64) : BitVec 64 := a + trans.offset

def VmeMapping.pciAddr (desc : VmeMapping) : BitVec 64 := pair desc.pciAddru desc.pciAddrl

def VmeMapping.vmeAddr (desc : VmeMapping) : BitVec 64 := pair desc.vmeAddru desc.vmeAddrl

def VmeMapping.size (desc : VmeMapping) : BitVec 64 := pair desc.sizeu desc.sizel

/-- The address, the PCI address and the size are multiples of 64K. -/
def VmeMapping.Aligned (desc : VmeMapping) : Prop :=
  desc.pciAddrl &&& 0xffff = 0 ∧ desc.vmeAddrl &&& 0xffff = 0 ∧ desc.sizel &&& 0xffff = 0

/-- Exactly the range of the descriptor is decoded, and each address of it goes where it should. -/
def Translates (desc : VmeMapping) (trans : Otrans) : Prop :=
  ∀ a : BitVec 64,
    (trans.Decodes a ↔ desc.pciAddr ≤ a ∧ a.toNat < desc.pciAddr.toNat + desc.size.toNat) ∧
    (trans.Decodes a → trans.emits a = desc.vmeAddr + (a - desc.pciAddr))

section Translation
variable {desc : VmeMapping} {attrs : U32} {lo0 hi0 lo1 hi1 : U32}

theorem pair_add64hi : pair (add64hi lo0 hi0 lo1 hi1) (lo0 + lo1) = pair hi0 lo0 + pair hi1 lo1 := by
  have hcarry := add_lt_iff_carry lo0 lo1
  have := lo0.isLt
  have := lo1.isLt
  have := hi0.isLt
  have := hi1.isLt
  apply BitVec.eq_of_toNat_eq
  rw [BitVec.toNat_add, toNat_pair, toNat_pair, toNat_pair, BitVec.toNat_add]
  unfold add64hi
  by_cases hc : lo0 + lo1 < lo1
  · have hge := hcarry.mp hc
    rw [if_pos hc, BitVec.toNat_add, BitVec.toNat_add]
    change 2^32 * (((hi0.toNat + hi1.toNat) % 2^32 + 1) % 2^32) + _ = _
    omega
  · have hlt := mt hcarry.mpr hc
    rw [if_neg hc, BitVec.toNat_add]
    omega

theorem pair_sub64hi : pair (sub64hi lo0 hi0 lo1 hi1) (lo0 - lo1) = pair hi0 lo0 - pair hi1 lo1 := by
  have := lo0.isLt
  have := lo1.isLt
  have := hi0.isLt
  have := hi1.isLt
  apply BitVec.eq_of_toNat_eq
  rw [BitVec.toNat_sub, toNat_pair, toNat_pair, toNat_pair, BitVec.toNat_sub]
  unfold sub64hi
  by_cases hb : lo0 < lo1
  · have hlt := BitVec.lt_def.mp hb
    rw [if_pos hb, BitVec.toNat_sub, BitVec.toNat_sub]
    change 2^32 * ((2^32 - 1 + (2^32 - hi1.toNat + hi0.toNat) % 2^32) % 2^32) + _ = _
    omega
  · have hge := mt BitVec.lt_def.mpr hb
    rw [if_neg hb, BitVec.toNat_sub]
    omega

theorem toNat_block (a : BitVec 64) : (a &&& ~~~0xffff).toNat = 65536 * (a.toNat / 65536) :=
  toNat_and_high (k := 16) a 0xffff rfl

theorem toNat_mod_of_aligned {x : U32} (h : x &&& 0xffff = 0) : x.toNat % 65536 = 0 := by
  have hlow : (x &&& 0xffff).toNat = x.toNat % 65536 := toNat_and_low (k := 16) x 0xffff rfl
  rw [← hlow, h]
  rfl

theorem toNat_pciAddr (desc : VmeMapping) :
    desc.pciAddr.toNat = 2^32 * desc.pciAddru.toNat + desc.pciAddrl.toNat := toNat_pair _ _

theorem toNat_size (desc : VmeMapping) : desc.size.toNat = 2^32 * desc.sizeu.toNat + desc.sizel.toNat :=
  toNat_pair _ _

theorem tsi148WindowRegs_start (ha : desc.Aligned) : (tsi148WindowRegs attrs desc).start = desc.pciAddr := by
  have hmask : desc.pciAddrl &&& tsi148LcsrOtsalM = desc.pciAddrl := by
    apply BitVec.eq_of_toNat_eq
    have hround : (desc.pciAddrl &&& ~~~0xffff).toNat = 65536 * (desc.pciAddrl.toNat / 65536) :=
      toNat_and_high (k := 16) desc.pciAddrl 0xffff rfl
    have hmod := toNat_mod_of_aligned ha.1
    change (desc.pciAddrl &&& ~~~0xffff).toNat = _
    omega
  unfold Otrans.start tsi148WindowRegs VmeMapping.pciAddr
  rw [hmask]

theorem tsi148WindowRegs_offset : (tsi148WindowRegs attrs desc).offset = desc.vmeAddr - desc.pciAddr :=
  pair_sub64hi

/-- The lower word of the end register is that of the last block; the upper word is that of the address
behind the window. -/
theorem tsi148WindowRegs_stop (ha : desc.Aligned) :
    (tsi148WindowRegs attrs desc).stop.toNat =
      if desc.pciAddrl + desc.sizel = 0 then (desc.pciAddr.toNat + desc.size.toNat) % 2^64 + 0xffff0000
      else (desc.pciAddr.toNat + desc.size.toNat) % 2^64 - 0x10000 := by
  have hend : (pair (add64hi desc.pciAddrl desc.pciAddru desc.sizel desc.sizeu)
      (desc.pciAddrl + desc.sizel)).toNat = (desc.pciAddr.toNat + desc.size.toNat) % 2^64 := by
    rw [pair_add64hi, BitVec.toNat_add]
    rfl
  rw [toNat_pair] at hend
  have hlow : ((desc.pciAddrl + desc.sizel - 1) &&& ~~~0xffff).toNat =
      65536 * ((desc.pciAddrl + desc.sizel - 1).toNat / 65536) := toNat_and_high (k := 16) _ 0xffff rfl
  have hpci := toNat_mod_of_aligned ha.1
  have hsize := toNat_mod_of_aligned ha.2.2
  change (pair (add64hi desc.pciAddrl desc.pciAddru desc.sizel desc.sizeu)
    ((desc.pciAddrl + desc.sizel - 1) &&& ~~~0xffff)).toNat = _
  rw [toNat_pair, hlow]
  by_cases hzero : desc.pciAddrl + desc.sizel = 0
  · rw [if_pos hzero, ← hend, hzero]
    change _ + 65536 * ((2^32 - 1) / 65536) = _ + 0 + _
    omega
  · have hpos : (desc.pciAddrl + desc.sizel).toNat ≠ 0 := fun h => hzero (BitVec.eq_of_toNat_eq h)
    have hmod : (desc.pciAddrl + desc.sizel).toNat % 65536 = 0 := by
      rw [BitVec.toNat_add]
      omega
    have hone : (desc.pciAddrl + desc.sizel - 1).toNat = (desc.pciAddrl + desc.sizel).toNat - 1 := by
      have := (desc.pciAddrl + desc.sizel).isLt
      rw [BitVec.toNat_sub]
      change (2^32 - 1 + _) % 2^32 = _
      omega
    rw [if_neg hzero, ← hend, hone]
    omega

/-- The registers of an aligned descriptor translate its range unless the range ends on a multiple of
4G. -/
theorem tsi148WindowRegs_translates (ha : desc.Aligned) (hpos : 0 < desc.size.toNat)
    (hfits : desc.pciAddr.toNat + desc.size.toNat ≤ 2^64) :
    Translates desc (tsi148WindowRegs attrs desc) ↔ desc.pciAddrl + desc.sizel ≠ 0 := by
  have hstart : (tsi148WindowRegs attrs desc).start = desc.pciAddr := tsi148WindowRegs_start ha
  have hstop : (tsi148WindowRegs attrs desc).stop.toNat = _ := tsi148WindowRegs_stop ha
  have hpci : desc.pciAddr.toNat % 65536 = 0 := by
    have := toNat_mod_of_aligned ha.1
    rw [toNat_pciAddr]
    omega
  have hsize : desc.size.toNat % 65536 = 0 := by
    have := toNat_mod_of_aligned ha.2.2
    rw [toNat_size]
    omega
  have hdecodes : ∀ a, (tsi148WindowRegs attrs desc).Decodes a ↔ desc.pciAddr.toNat ≤ 65536 * (a.toNat / 65536) ∧
      65536 * (a.toNat / 65536) ≤ (tsi148WindowRegs attrs desc).stop.toNat := by
    intro a
    unfold Otrans.Decodes
    rw [BitVec.le_def, BitVec.le_def, toNat_block, hstart]
  constructor
  · intro htr hzero
    rw [if_pos hzero] at hstop
    by_cases htop : desc.pciAddr.toNat + desc.size.toNat < 2^64
    · -- the block behind the window is decoded as well
      have hbehind := (htr (desc.pciAddr + desc.size)).1
      rw [hdecodes, BitVec.toNat_add, Nat.mod_eq_of_lt htop, hstop, Nat.mod_eq_of_lt htop] at hbehind
      have := (hbehind.mp (by omega)).2
      omega
    · -- the end register has wrapped and the last address is not decoded
      have htopmost := (htr (BitVec.allOnes 64)).1
      have hones : (BitVec.allOnes 64).toNat = 2^64 - 1 := by decide
      rw [hdecodes, BitVec.le_def, hones, hstop] at htopmost
      have := (htopmost.mpr (by omega)).2
      omega
  · intro hne a
    rw [if_neg hne] at hstop
    have hend : desc.pciAddr.toNat + desc.size.toNat < 2^64 := by
      refine Nat.lt_of_le_of_ne hfits fun htop => hne (BitVec.eq_of_toNat_eq ?_)
      rw [toNat_pciAddr, toNat_size] at htop
      rw [BitVec.toNat_add]
      change _ = 0
      omega
    rw [Nat.mod_eq_of_lt hend] at hstop
    refine ⟨?_, fun _ => ?_⟩
    · rw [hdecodes, hstop, BitVec.le_def]
      omega
    · unfold Otrans.emits
      rw [tsi148WindowRegs_offset]
      grind

/-- The registers an accepted descriptor is programmed with implement its translation exactly when the
lower words of the PCI address and the size do not add up to a multiple of 4G. -/
theorem tsi148CreateWindow_translates_iff {trans : Otrans} (ha : desc.Aligned) (hpos : 0 < desc.size.toNat)
    (hfits : desc.pciAddr.toNat + desc.size.toNat ≤ 2^64) (hok : (tsi148CreateWindow desc trans).1 = 0) :
    Translates desc (tsi148CreateWindow desc trans).2.2 ↔ desc.pciAddrl + desc.sizel ≠ 0 := by
  rcases hcall : tsi148CreateWindow desc trans with ⟨rc, desc', trans'⟩
  rw [hcall] at hok
  obtain ⟨hrc, -, -⟩ | ⟨-, -, -, attrs, -, htrans⟩ := tsi148CreateWindow_cases hcall
  · subst hrc
    cases hok
  · change Translates desc trans' ↔ _
    rw [htrans, tsi148RoundWindow_aligned ha.2.1 ha.2.2]
    exact tsi148WindowRegs_translates ha hpos hfits

end Translation

/-! ## Two windows -/

/-- An A32 window of size `size` at VME address 0 and PCI address `pci`. -/
def windowAt (pci size : U32) : VmeMapping :=
  { windowNum := 0, kernelVa := 0, userVa := 0, fd := 0, windowEnabled := 0, dataWidth := vmeD32
    am := vmeA32UserDataSct, readPrefetchEnabled := 0, readPrefetchSize := 0, v2esstMode := vmeSst160
    bcastSelect := 0, pciAddru := 0, pciAddrl := pci, sizeu := 0, sizel := size, vmeAddru := 0, vmeAddrl := 0 }

theorem tsi148CreateWindow_translates_low :
    Translates (windowAt 0x80000000 0x10000) (tsi148CreateWindow (windowAt 0x80000000 0x10000) wipedOtrans).2.2 :=
  (tsi148CreateWindow_translates_iff ⟨rfl, rfl, rfl⟩ (by decide) (by decide) (by decide)).mpr (by decide)

/-- A window that ends at 4G: the end register lies 4G too high. -/
theorem tsi148CreateWindow_end_at_4g :
    (tsi148CreateWindow (windowAt 0xffff0000 0x10000) wipedOtrans).1 = 0 ∧
    (tsi148CreateWindow (windowAt 0xffff0000 0x10000) wipedOtrans).2.2.stop = 0x1ffff0000 ∧
    ¬ Translates (windowAt 0xffff0000 0x10000) (tsi148CreateWindow (windowAt 0xffff0000 0x10000) wipedOtrans).2.2 := by
  refine ⟨by decide, by decide, fun h => ?_⟩
  have hbehind := (h 0x100000000).1.mp (by unfold Otrans.Decodes; decide)
  exact absurd hbehind.2 (by decide)

end HtDrivers.Vmebridge
