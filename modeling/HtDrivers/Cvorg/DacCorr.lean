import HtDrivers.Cvorg.GainOffset
import HtDrivers.Cvorg.Ioctls
import HtDrivers.Lib.Words

/-! # The correction of the DAC (`cvorg_dac_gain_ioctl`, `cvorg_dac_offset_ioctl`)

One register holds a gain of 16 bits and, above it, an offset of 15 bits in two's complement.
-/
namespace HtDrivers.Cvorg
open HtDrivers.Lib.Words
set_option autoImplicit false

def cvorgDacCorrGainMask : U32 := 0xffff

def cvorgDacCorrOffsetMask : U32 := 0x7fff <<< 16

/-- `cvorg_dac_gain_ioctl` without `set`. -/
def getDacGain (channel : CvorgContext) : U16 :=
  (cvorgRchan channel.hw cvorgDacCorr &&& cvorgDacCorrGainMask).setWidth 16

/-- `cvorg_dac_offset_ioctl` without `set`: the value is taken before the sign is extended. -/
def getDacOffset (channel : CvorgContext) : ℤ :=
  let regval := (cvorgRchan channel.hw cvorgDacCorr &&& cvorgDacCorrOffsetMask) >>> 16
  let val : U16 := regval.setWidth 16
  let _regval := if val &&& 0x4000 ≠ 0 then regval ||| 0x8000 else regval
  val.toInt

def gainField (channel : CvorgContext) : U32 := channel.hw.regs cvorgDacCorr &&& cvorgDacCorrGainMask

def offsetField (channel : CvorgContext) : U32 := channel.hw.regs cvorgDacCorr &&& cvorgDacCorrOffsetMask

/-- What an offset of 15 bits is set to is read back, in either order, and neither field touches the other. -/
structure DacKept (channel : CvorgContext) (gain : U16) (offset : ℤ) : Prop where
  accepted : (dacOffset channel offset).2 = .ok ()
  gainFirst : getDacGain (dacOffset (dacGain channel gain) offset).1 = gain ∧
    getDacOffset (dacOffset (dacGain channel gain) offset).1 = offset
  offsetFirst : getDacGain (dacGain (dacOffset channel offset).1 gain) = gain ∧
    getDacOffset (dacGain (dacOffset channel offset).1 gain) = offset
  gainKeeps : offsetField (dacGain channel gain) = offsetField channel
  offsetKeeps : gainField (dacOffset channel offset).1 = gainField channel

def DacRoundTrip (channel : CvorgContext) (gain : U16) (offset : ℤ) : Prop :=
  if -2 ^ 14 ≤ offset ∧ offset ≤ 2 ^ 14 - 1 then DacKept channel gain offset
  else dacOffset channel offset = (channel, .error (.ioctl .einval))

section Fields
variable {channel : CvorgContext} {gain : U16} {offset : ℤ} {x m v : U32}

theorem masked_update_read : (x &&& ~~~m ||| v) &&& m = v &&& m := by
  have hcleared : x &&& ~~~m &&& m = 0#32 := by simp [BitVec.and_assoc]
  rw [BitVec.and_or_distrib_right, hcleared]
  exact BitVec.zero_or

theorem dacGain_reg (channel : CvorgContext) (gain : U16) : (dacGain channel gain).hw.regs cvorgDacCorr =
    channel.hw.regs cvorgDacCorr &&& ~~~cvorgDacCorrGainMask ||| gain.setWidth 32 := by
  have hset : (dacGain channel gain).hw = cvorgUchan channel.hw cvorgDacCorr (gain.setWidth 32) cvorgDacCorrGainMask :=
    rfl
  rw [hset, uchan_reg (by decide) (by decide), setReg_regs, if_pos rfl]

/-- The offset as the register holds it. -/
def offsetBits (offset : ℤ) : U32 := (BitVec.ofInt 32 offset &&& 0x7fff) <<< 16

theorem dacOffset_reg (hrange : -2 ^ 14 ≤ offset ∧ offset ≤ 2 ^ 14 - 1) (channel : CvorgContext) :
    (dacOffset channel offset).1.hw.regs cvorgDacCorr =
      channel.hw.regs cvorgDacCorr &&& ~~~cvorgDacCorrOffsetMask ||| offsetBits offset := by
  have hset : (dacOffset channel offset).1.hw =
      cvorgUchan channel.hw cvorgDacCorr (offsetBits offset) cvorgDacCorrOffsetMask := by
    unfold dacOffset
    rw [if_neg (not_not.mpr hrange)]
    rfl
  rw [hset, uchan_reg (by decide) (by decide), setReg_regs, if_pos rfl]

theorem toNat_offsetBits (offset : ℤ) : ((offsetBits offset).toNat : ℤ) = offset % 2 ^ 15 * 2 ^ 16 := by
  have hlow : (BitVec.ofInt 32 offset &&& 0x7fff).toNat = (BitVec.ofInt 32 offset).toNat % 2 ^ 15 :=
    toNat_and_low _ _ rfl
  rw [offsetBits, BitVec.toNat_shiftLeft, hlow, BitVec.toNat_ofInt, Nat.shiftLeft_eq]
  omega

theorem gain_and_mask (gain : U16) : gain.setWidth 32 &&& cvorgDacCorrGainMask = gain.setWidth 32 := by
  apply BitVec.eq_of_toNat_eq
  rw [toNat_and_low _ _ (k := 16) rfl, BitVec.toNat_setWidth]
  omega

theorem gain_and_offsetMask (gain : U16) : gain.setWidth 32 &&& cvorgDacCorrOffsetMask = 0 := by
  have hdisjoint : cvorgDacCorrGainMask &&& cvorgDacCorrOffsetMask = 0 := by decide
  rw [← gain_and_mask, BitVec.and_assoc, hdisjoint]
  exact BitVec.and_zero

theorem offsetBits_and_gainMask (offset : ℤ) : offsetBits offset &&& cvorgDacCorrGainMask = 0 := by
  have hbits := toNat_offsetBits offset
  apply BitVec.eq_of_toNat_eq
  rw [toNat_and_low _ _ (k := 16) rfl]
  change _ = 0
  omega

/-- Setting the gain keeps the offset. -/
theorem offsetField_dacGain (channel : CvorgContext) (gain : U16) :
    offsetField (dacGain channel gain) = offsetField channel := by
  rw [offsetField, dacGain_reg]
  exact masked_update_keeps (by decide) (gain_and_offsetMask gain)

theorem gainField_dacOffset (hrange : -2 ^ 14 ≤ offset ∧ offset ≤ 2 ^ 14 - 1) (channel : CvorgContext) :
    gainField (dacOffset channel offset).1 = gainField channel := by
  rw [gainField, dacOffset_reg hrange]
  exact masked_update_keeps (by decide) (offsetBits_and_gainMask offset)

theorem getDacGain_dacGain (channel : CvorgContext) (gain : U16) : getDacGain (dacGain channel gain) = gain := by
  rw [getDacGain, cvorgRchan, dacGain_reg, masked_update_read, gain_and_mask]
  exact BitVec.setWidth_setWidth_of_le _ (by decide)

theorem getDacGain_of_field {channel' : CvorgContext} (h : gainField channel' = gainField channel) :
    getDacGain channel' = getDacGain channel := by
  rw [getDacGain, getDacGain]
  exact congrArg _ h

theorem getDacOffset_of_field {channel' : CvorgContext} (h : offsetField channel' = offsetField channel) :
    getDacOffset channel' = getDacOffset channel := by
  simp only [getDacOffset]
  exact congrArg (fun field : U32 => (BitVec.setWidth 16 (field >>> 16)).toInt) h

/-- The offset is read back without its sign. -/
theorem getDacOffset_dacOffset (hrange : -2 ^ 14 ≤ offset ∧ offset ≤ 2 ^ 14 - 1) (channel : CvorgContext) :
    getDacOffset (dacOffset channel offset).1 = offset % 2 ^ 15 := by
  have hbits := toNat_offsetBits offset
  have hmask : cvorgDacCorrOffsetMask >>> 16 = 0x7fff := by decide
  have hread : (((offsetBits offset &&& cvorgDacCorrOffsetMask) >>> 16).setWidth 16).toNat =
      (offsetBits offset).toNat / 2 ^ 16 := by
    rw [BitVec.ushiftRight_and_distrib, hmask, BitVec.toNat_setWidth, toNat_and_low _ _ (k := 15) rfl,
      BitVec.toNat_ushiftRight, Nat.shiftRight_eq_div_pow]
    omega
  simp only [getDacOffset, cvorgRchan]
  rw [dacOffset_reg hrange, masked_update_read, BitVec.toInt_eq_toNat_of_lt, hread]
  · omega
  · rw [hread]
    omega

end Fields

/-- Gain and offset are kept but for negative offsets, which lose their sign. -/
theorem dacRoundTrip_iff (channel : CvorgContext) (gain : U16) (offset : ℤ) :
    DacRoundTrip channel gain offset ↔ ¬(-2 ^ 14 ≤ offset ∧ offset < 0) := by
  unfold DacRoundTrip
  split
  · rename_i hrange
    have hread : ∀ channel, getDacOffset (dacOffset channel offset).1 = offset % 2 ^ 15 :=
      getDacOffset_dacOffset hrange
    constructor
    · rintro h ⟨-, hneg⟩
      have hback := h.gainFirst.2
      rw [hread] at hback
      omega
    · intro hpos
      have hself : offset % 2 ^ 15 = offset := Int.emod_eq_of_lt (by omega) (by omega)
      refine ⟨?_, ⟨?_, ?_⟩, ⟨getDacGain_dacGain _ _, ?_⟩, offsetField_dacGain _ _, gainField_dacOffset hrange _⟩
      · unfold dacOffset
        rw [if_neg (not_not.mpr hrange)]
      · rw [getDacGain_of_field (gainField_dacOffset hrange _), getDacGain_dacGain]
      · rw [hread, hself]
      · rw [getDacOffset_of_field (offsetField_dacGain _ _), hread, hself]
  · rename_i hrange
    refine iff_of_true (if_pos hrange) ?_
    omega

/-- A channel whose registers are zero. -/
def clearedContext : CvorgContext := ⟨.positivePulse, 0, 14, true, ⟨fun _ => 0, fun _ => 0, 0, []⟩, 0⟩

/-- -1 is read back as 32767. -/
theorem not_dacRoundTrip : ¬∀ (channel : CvorgContext) (gain : U16) (offset : ℤ), DacRoundTrip channel gain offset := by
  intro h
  have hround := h clearedContext 0 (-1)
  rw [DacRoundTrip, if_pos (by decide)] at hround
  have hread := hround.gainFirst.2
  rw [getDacOffset_dacOffset (by decide)] at hread
  revert hread
  decide

end HtDrivers.Cvorg
