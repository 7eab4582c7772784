import HtDrivers.Lib.ByteMemory
import HtDrivers.Lib.Fields
import HtDrivers.Lib.Masks

/-! Triggers and counter configurations in the form of the hardware, two words each (`TriggerToHard`, `ConfigToHard` and
back). -/
namespace HtDrivers.Ctr.Packing
open HtDrivers.Lib.ByteMemory HtDrivers.Lib.Fields HtDrivers.Lib.Masks
set_option autoImplicit false

/-! ## Shifts by the place of a mask -/

/-- The loop of both shifts: the count, and what is left of the mask; `turns` are those still to go. -/
def autoShiftLoop : ℕ → ℕ → BitVec 32 → ℕ × BitVec 32
  | 0, i, m => (i, m)
  | turns + 1, i, m => if m &&& 1 ≠ 0 then (i, m) else autoShiftLoop turns (i + 1) (m.sshiftRight 1)

def autoShiftLeft (mask value : BitVec 32) : BitVec 32 := (value <<< (autoShiftLoop 32 0 mask).1) &&& mask

def autoShiftRight (mask value : BitVec 32) : BitVec 32 :=
  (value >>> (autoShiftLoop 32 0 mask).1) &&& (autoShiftLoop 32 0 mask).2

/-! ## Access to the module -/

/-- `iowrite32be` -/
def hWr (v : BitVec 32) (x : ℕ) (m : Memory) : Memory := store m x (bytesOf 4 v.toNat).reverse

/-- `ioread32be` -/
def hRd (m : Memory) (x : ℕ) : BitVec 32 := BitVec.ofNat 32 (valueOf (load m x 4).reverse)

/-- The words from `dst` on. -/
def io32Write (m : Memory) (dst : ℕ) : List (BitVec 32) → Memory
  | [] => m
  | v :: src => io32Write (hWr v dst m) (dst + 4) src

/-! ## Triggers -/

def ctrDrvrTrigConditionMask : BitVec 32 := 0xC0000000
def ctrDrvrTrigMachineMask : BitVec 32 := 0x38000000
def ctrDrvrTrigCounterMask : BitVec 32 := 0x07800000
def ctrDrvrTrigGroupNumberMask : BitVec 32 := 0x007F0000
def ctrDrvrTrigGroupValueMask : BitVec 32 := 0x0000FFFF

structure CtrDrvrTgmGroup where
  groupNumber : BitVec 16
  groupValue : BitVec 16
deriving DecidableEq

/-- The fields of `CtrDrvrTrigger` that are packed. -/
structure SoftTrigger where
  frame : BitVec 32
  triggerCondition : BitVec 32
  machine : BitVec 32
  counter : BitVec 32
  group : CtrDrvrTgmGroup
deriving DecidableEq

structure CtrDrvrHwTrigger where
  frame : BitVec 32
  trigger : BitVec 32
deriving DecidableEq

def CtrDrvrHwTrigger.words (htrg : CtrDrvrHwTrigger) : List (BitVec 32) := [htrg.frame, htrg.trigger]

def triggerToHard (strg : SoftTrigger) : CtrDrvrHwTrigger where
  frame := strg.frame
  trigger := autoShiftLeft ctrDrvrTrigGroupValueMask (strg.group.groupValue.setWidth 32) |||
    autoShiftLeft ctrDrvrTrigConditionMask strg.triggerCondition |||
    autoShiftLeft ctrDrvrTrigMachineMask strg.machine |||
    autoShiftLeft ctrDrvrTrigCounterMask strg.counter |||
    autoShiftLeft ctrDrvrTrigGroupNumberMask (strg.group.groupNumber.setWidth 32)

/-- The trigger at `htrg` in the module. -/
def hardToTrigger (m : Memory) (htrg : ℕ) : SoftTrigger :=
  let trigger := hRd m (htrg + 4)
  { frame := hRd m htrg
    triggerCondition := autoShiftRight ctrDrvrTrigConditionMask trigger
    machine := autoShiftRight ctrDrvrTrigMachineMask trigger
    counter := autoShiftRight ctrDrvrTrigCounterMask trigger
    group := {
      groupNumber := (autoShiftRight ctrDrvrTrigGroupNumberMask trigger).setWidth 16
      groupValue := (autoShiftRight ctrDrvrTrigGroupValueMask trigger).setWidth 16 } }

/-! ## Counter configurations -/

def ctrDrvrCounterConfigOnZeroMask : BitVec 32 := 0xC0000000
def ctrDrvrCounterConfigStartMask : BitVec 32 := 0x38000000
def ctrDrvrCounterConfigModeMask : BitVec 32 := 0x06000000
def ctrDrvrCounterConfigClockMask : BitVec 32 := 0x01C00000
def ctrDrvrCounterConfigPulseWidthMask : BitVec 32 := 0x003FFFFF

structure CtrDrvrCounterConfiguration where
  onZero : BitVec 32
  start : BitVec 32
  mode : BitVec 32
  clock : BitVec 32
  pulsWidth : BitVec 32
  delay : BitVec 32
deriving DecidableEq

structure CtrDrvrHwCounterConfiguration where
  config : BitVec 32
  delay : BitVec 32
deriving DecidableEq

def CtrDrvrHwCounterConfiguration.words (hcnf : CtrDrvrHwCounterConfiguration) : List (BitVec 32) :=
  [hcnf.config, hcnf.delay]

def configToHard (scnf : CtrDrvrCounterConfiguration) : CtrDrvrHwCounterConfiguration where
  config := autoShiftLeft ctrDrvrCounterConfigPulseWidthMask scnf.pulsWidth |||
    autoShiftLeft ctrDrvrCounterConfigClockMask scnf.clock |||
    autoShiftLeft ctrDrvrCounterConfigModeMask scnf.mode |||
    autoShiftLeft ctrDrvrCounterConfigStartMask scnf.start |||
    autoShiftLeft ctrDrvrCounterConfigOnZeroMask scnf.onZero
  delay := scnf.delay

/-- The configuration at `hcnf` in the module. -/
def hardToConfig (m : Memory) (hcnf : ℕ) : CtrDrvrCounterConfiguration :=
  let config := hRd m hcnf
  { onZero := autoShiftRight ctrDrvrCounterConfigOnZeroMask config
    start := autoShiftRight ctrDrvrCounterConfigStartMask config
    mode := autoShiftRight ctrDrvrCounterConfigModeMask config
    clock := autoShiftRight ctrDrvrCounterConfigClockMask config
    pulsWidth := autoShiftRight ctrDrvrCounterConfigPulseWidthMask config
    delay := hRd m (hcnf + 4) }

/-! ## The shifts on a field -/

section Shifts
variable {mask v x : BitVec 32} {k : ℕ} {f : Field 32}

/-- The loop stops at the lowest bit of the mask; the top bit has been kept by the signed shifts. -/
theorem autoShiftLoop_eq (hlow : ∀ i < k, mask.getLsbD i = false) (hbit : mask.getLsbD k = true) (turns : ℕ) {i : ℕ}
    (hle : i ≤ k) (hturns : k < i + turns) :
    autoShiftLoop turns i (mask.sshiftRight i) = (k, mask.sshiftRight k) := by
  have hk : k < 32 := BitVec.lt_of_getLsbD hbit
  have htest : ∀ j ≤ k, (mask.sshiftRight j &&& 1 ≠ 0 ↔ mask.getLsbD j = true) := by
    intro j hj
    have hsum : j + 0 < 32 := by omega
    rw [BitVec.and_comm]
    refine (twoPow_and_ne_zero (w := 32) (k := 0) (by decide)).trans ?_
    rw [BitVec.getLsbD_sshiftRight, if_pos hsum]
    simp
  induction turns generalizing i with
  | zero => omega
  | succ turns ih =>
    rw [autoShiftLoop]
    obtain rfl | hlt := hle.eq_or_lt
    · rw [if_pos ((htest i le_rfl).mpr hbit)]
    · have hclear : ¬mask.sshiftRight i &&& 1 ≠ 0 := by
        rw [htest i hle, hlow i hlt]
        exact Bool.false_ne_true
      rw [if_neg hclear, ← BitVec.sshiftRight_add]
      exact ih hlt (by omega)

theorem autoShiftLoop_mask : autoShiftLoop 32 0 f.mask = (f.shift, f.mask.sshiftRight f.shift) := by
  have hfits := f.fits
  have hpos := f.pos
  have hlow : ∀ i < f.shift, f.mask.getLsbD i = false := by
    intro i hi
    rw [Field.getLsbD_mask, decide_eq_false fun hhas => absurd hhas.1 (not_le.mpr hi)]
  have hbit : f.mask.getLsbD f.shift = true := by
    rw [Field.getLsbD_mask]
    exact decide_eq_true ⟨le_rfl, Nat.lt_add_of_pos_right hpos⟩
  have hstart : f.mask.sshiftRight 0 = f.mask := BitVec.sshiftRight_zero
  have hloop := autoShiftLoop_eq hlow hbit 32 (i := 0) (Nat.zero_le _) (by omega)
  rwa [hstart] at hloop

theorem autoShiftLeft_mask : autoShiftLeft f.mask v = f.insert v := by
  rw [autoShiftLeft, autoShiftLoop_mask, Field.insert]

/-- Behind the bits of a field the signed shift leaves ones, but the shifted value has zeros there. -/
theorem autoShiftRight_mask : autoShiftRight f.mask x = f.extract x := by
  rw [autoShiftRight, autoShiftLoop_mask]
  refine BitVec.eq_of_getLsbD_eq fun i hi => ?_
  rw [BitVec.getLsbD_and, BitVec.getLsbD_ushiftRight, BitVec.getLsbD_sshiftRight, Field.getLsbD_extract]
  by_cases hsum : f.shift + i < 32
  · rw [if_pos hsum, Field.getLsbD_mask]
    simp only [Field.has_zero, not_le.mpr hi, decide_false, Bool.not_false, Bool.true_and]
  · rw [BitVec.getLsbD_of_ge x _ (not_lt.mp hsum), Bool.false_and, Bool.false_and]

end Shifts

/-! ## Words in the module -/

section Words
variable {m : Memory} {x x' : ℕ} {v : BitVec 32}

theorem hRd_hWr : hRd (hWr v x m) x = v := by
  have hload : load (hWr v x m) x 4 = (bytesOf 4 v.toNat).reverse := by
    have hlength : (bytesOf 4 v.toNat).reverse.length = 4 := by rw [List.length_reverse, bytesOf_length]
    have hstored : load (store m x (bytesOf 4 v.toNat).reverse) x (bytesOf 4 v.toNat).reverse.length =
        (bytesOf 4 v.toNat).reverse := load_store
    rwa [hlength] at hstored
  have hv : v.toNat % 256 ^ 4 = v.toNat := Nat.mod_eq_of_lt v.isLt
  rw [hRd, hload, List.reverse_reverse, valueOf_bytesOf, hv, BitVec.ofNat_toNat, BitVec.setWidth_eq]

theorem hRd_hWr_apart (h : x' + 4 ≤ x ∨ x + 4 ≤ x') : hRd (hWr v x m) x' = hRd m x' := by
  rw [hRd, hWr, load_store_apart, hRd]
  rwa [List.length_reverse, bytesOf_length]

/-- Two words are read back as they were written. -/
theorem hRd_io32Write {v' : BitVec 32} :
    hRd (io32Write m x [v, v']) x = v ∧ hRd (io32Write m x [v, v']) (x + 4) = v' := by
  constructor
  · exact (hRd_hWr_apart (.inl le_rfl)).trans hRd_hWr
  · exact hRd_hWr

end Words

/-! ## The fields of both forms -/

def trigConditionField : Field 32 := ⟨30, 2, by decide, by decide⟩
def trigMachineField : Field 32 := ⟨27, 3, by decide, by decide⟩
def trigCounterField : Field 32 := ⟨23, 4, by decide, by decide⟩
def trigGroupNumberField : Field 32 := ⟨16, 7, by decide, by decide⟩
def trigGroupValueField : Field 32 := ⟨0, 16, by decide, by decide⟩

def configOnZeroField : Field 32 := ⟨30, 2, by decide, by decide⟩
def configStartField : Field 32 := ⟨27, 3, by decide, by decide⟩
def configModeField : Field 32 := ⟨25, 2, by decide, by decide⟩
def configClockField : Field 32 := ⟨22, 3, by decide, by decide⟩
def configPulseWidthField : Field 32 := ⟨0, 22, by decide, by decide⟩

/-- In the order in which they are packed. -/
def triggerFields : List (Field 32) :=
  [trigGroupValueField, trigConditionField, trigMachineField, trigCounterField, trigGroupNumberField]

def configFields : List (Field 32) :=
  [configPulseWidthField, configClockField, configModeField, configStartField, configOnZeroField]

/-- The values are those of a trigger that the hardware can hold. -/
structure SoftTrigger.Fits (strg : SoftTrigger) : Prop where
  condition : strg.triggerCondition.toNat < 4
  machine : strg.machine.toNat < 8
  counter : strg.counter.toNat < 16
  groupNumber : strg.group.groupNumber.toNat < 128

structure CtrDrvrCounterConfiguration.Fits (scnf : CtrDrvrCounterConfiguration) : Prop where
  onZero : scnf.onZero.toNat < 4
  start : scnf.start.toNat < 8
  mode : scnf.mode.toNat < 4
  clock : scnf.clock.toNat < 8
  pulsWidth : scnf.pulsWidth.toNat < 2 ^ 22

theorem triggerFields_tile : Tiles triggerFields := ⟨by decide, by decide⟩

theorem configFields_tile : Tiles configFields := ⟨by decide, by decide⟩

theorem packed_five {a b c d e : Field 32} {va vb vc vd ve : BitVec 32} :
    packed [(a, va), (b, vb), (c, vc), (d, vd), (e, ve)] =
      a.insert va ||| b.insert vb ||| c.insert vc ||| d.insert vd ||| e.insert ve := by
  have hzero : 0 ||| a.insert va = a.insert va := BitVec.zero_or
  simp only [packed, List.foldl_cons, List.foldl_nil, hzero]

/-- The values of a trigger with their fields. -/
def SoftTrigger.values (strg : SoftTrigger) : List (Field 32 × BitVec 32) :=
  [(trigGroupValueField, strg.group.groupValue.setWidth 32), (trigConditionField, strg.triggerCondition),
    (trigMachineField, strg.machine), (trigCounterField, strg.counter),
    (trigGroupNumberField, strg.group.groupNumber.setWidth 32)]

def CtrDrvrCounterConfiguration.values (scnf : CtrDrvrCounterConfiguration) : List (Field 32 × BitVec 32) :=
  [(configPulseWidthField, scnf.pulsWidth), (configClockField, scnf.clock), (configModeField, scnf.mode),
    (configStartField, scnf.start), (configOnZeroField, scnf.onZero)]

theorem triggerToHard_eq (strg : SoftTrigger) : triggerToHard strg = ⟨strg.frame, packed strg.values⟩ := by
  rw [SoftTrigger.values, packed_five]
  simp only [← autoShiftLeft_mask]
  rfl

theorem configToHard_eq (scnf : CtrDrvrCounterConfiguration) :
    configToHard scnf = ⟨packed scnf.values, scnf.delay⟩ := by
  rw [CtrDrvrCounterConfiguration.values, packed_five]
  simp only [← autoShiftLeft_mask]
  rfl

theorem hardToTrigger_eq (m : Memory) (htrg : ℕ) :
    hardToTrigger m htrg = ⟨hRd m htrg, trigConditionField.extract (hRd m (htrg + 4)),
      trigMachineField.extract (hRd m (htrg + 4)), trigCounterField.extract (hRd m (htrg + 4)),
      ⟨(trigGroupNumberField.extract (hRd m (htrg + 4))).setWidth 16,
        (trigGroupValueField.extract (hRd m (htrg + 4))).setWidth 16⟩⟩ := by
  simp only [← autoShiftRight_mask]
  rfl

theorem hardToConfig_eq (m : Memory) (hcnf : ℕ) :
    hardToConfig m hcnf = ⟨configOnZeroField.extract (hRd m hcnf), configStartField.extract (hRd m hcnf),
      configModeField.extract (hRd m hcnf), configClockField.extract (hRd m hcnf),
      configPulseWidthField.extract (hRd m hcnf), hRd m (hcnf + 4)⟩ := by
  simp only [← autoShiftRight_mask]
  rfl

/-! ## There and back -/

section RoundTrips
variable {strg : SoftTrigger} {scnf : CtrDrvrCounterConfiguration}

theorem toNat_setWidth_lt (v : BitVec 16) : (v.setWidth 32).toNat = v.toNat := by
  have hv := v.isLt
  rw [BitVec.toNat_setWidth]
  omega

theorem setWidth_narrow {x : BitVec 32} {k : ℕ} (hk : k ≤ 16) (hx : x.toNat < 2 ^ k) :
    (x.setWidth 16).setWidth 32 = x := by
  have hpow : x.toNat < 2 ^ 16 := hx.trans_le (Nat.pow_le_pow_right Nat.two_pos hk)
  apply BitVec.eq_of_toNat_eq
  rw [toNat_setWidth_lt, BitVec.toNat_setWidth, Nat.mod_eq_of_lt hpow]

theorem setWidth_back (v : BitVec 16) : (v.setWidth 32).setWidth 16 = v := by
  have hv := v.isLt
  apply BitVec.eq_of_toNat_eq
  rw [BitVec.toNat_setWidth, toNat_setWidth_lt, Nat.mod_eq_of_lt hv]

theorem SoftTrigger.Fits.value_lt (h : strg.Fits) : ∀ p ∈ strg.values, p.2.toNat < 2 ^ p.1.width := by
  have hvalue := strg.group.groupValue.isLt
  intro p hp
  simp only [SoftTrigger.values, List.mem_cons, List.not_mem_nil, or_false] at hp
  obtain rfl | rfl | rfl | rfl | rfl := hp
  · exact (toNat_setWidth_lt _).trans_lt hvalue
  · exact h.condition
  · exact h.machine
  · exact h.counter
  · exact (toNat_setWidth_lt _).trans_lt h.groupNumber

theorem CtrDrvrCounterConfiguration.Fits.value_lt (h : scnf.Fits) :
    ∀ p ∈ scnf.values, p.2.toNat < 2 ^ p.1.width := by
  intro p hp
  simp only [CtrDrvrCounterConfiguration.values, List.mem_cons, List.not_mem_nil, or_false] at hp
  obtain rfl | rfl | rfl | rfl | rfl := hp
  · exact h.pulsWidth
  · exact h.clock
  · exact h.mode
  · exact h.start
  · exact h.onZero

/-- Each value of a trigger that fits is found in its field. -/
theorem SoftTrigger.Fits.extract (h : strg.Fits) {p : Field 32 × BitVec 32} (hp : p ∈ strg.values) :
    p.1.extract (packed strg.values) = p.2 :=
  extract_packed triggerFields_tile.disjoint hp (h.value_lt p hp)

theorem CtrDrvrCounterConfiguration.Fits.extract (h : scnf.Fits) {p : Field 32 × BitVec 32} (hp : p ∈ scnf.values) :
    p.1.extract (packed scnf.values) = p.2 :=
  extract_packed configFields_tile.disjoint hp (h.value_lt p hp)

theorem hardToTrigger_io32Write (h : strg.Fits) (m : Memory) (htrg : ℕ) :
    hardToTrigger (io32Write m htrg (triggerToHard strg).words) htrg = strg := by
  have hcondition := h.extract (p := (trigConditionField, strg.triggerCondition)) (by simp [SoftTrigger.values])
  have hmachine := h.extract (p := (trigMachineField, strg.machine)) (by simp [SoftTrigger.values])
  have hcounter := h.extract (p := (trigCounterField, strg.counter)) (by simp [SoftTrigger.values])
  have hnumber := h.extract (p := (trigGroupNumberField, strg.group.groupNumber.setWidth 32))
    (by simp [SoftTrigger.values])
  have hvalue := h.extract (p := (trigGroupValueField, strg.group.groupValue.setWidth 32))
    (by simp [SoftTrigger.values])
  dsimp only at hcondition hmachine hcounter hnumber hvalue
  rw [triggerToHard_eq, CtrDrvrHwTrigger.words, hardToTrigger_eq, hRd_io32Write.1, hRd_io32Write.2, hcondition,
    hmachine, hcounter, hnumber, hvalue, setWidth_back, setWidth_back]

theorem hardToConfig_io32Write (h : scnf.Fits) (m : Memory) (hcnf : ℕ) :
    hardToConfig (io32Write m hcnf (configToHard scnf).words) hcnf = scnf := by
  have honZero := h.extract (p := (configOnZeroField, scnf.onZero)) (by simp [CtrDrvrCounterConfiguration.values])
  have hstart := h.extract (p := (configStartField, scnf.start)) (by simp [CtrDrvrCounterConfiguration.values])
  have hmode := h.extract (p := (configModeField, scnf.mode)) (by simp [CtrDrvrCounterConfiguration.values])
  have hclock := h.extract (p := (configClockField, scnf.clock)) (by simp [CtrDrvrCounterConfiguration.values])
  have hwidth := h.extract (p := (configPulseWidthField, scnf.pulsWidth))
    (by simp [CtrDrvrCounterConfiguration.values])
  dsimp only at honZero hstart hmode hclock hwidth
  rw [configToHard_eq, CtrDrvrHwCounterConfiguration.words, hardToConfig_eq, hRd_io32Write.1, hRd_io32Write.2,
    honZero, hstart, hmode, hclock, hwidth]

/-- Any two words of the module are packed again from what they unpack to. -/
theorem triggerToHard_hardToTrigger (m : Memory) (htrg : ℕ) :
    triggerToHard (hardToTrigger m htrg) = ⟨hRd m htrg, hRd m (htrg + 4)⟩ := by
  have hnumber := setWidth_narrow (k := 7) (by decide) (trigGroupNumberField.extract_lt (x := hRd m (htrg + 4)))
  have hvalue := setWidth_narrow (k := 16) le_rfl (trigGroupValueField.extract_lt (x := hRd m (htrg + 4)))
  have hpacked := packed_extract (x := hRd m (htrg + 4)) triggerFields_tile
  rw [triggerToHard_eq, hardToTrigger_eq, SoftTrigger.values]
  dsimp only
  rw [hnumber, hvalue]
  exact congrArg (CtrDrvrHwTrigger.mk _) hpacked

theorem configToHard_hardToConfig (m : Memory) (hcnf : ℕ) :
    configToHard (hardToConfig m hcnf) = ⟨hRd m hcnf, hRd m (hcnf + 4)⟩ := by
  have hpacked := packed_extract (x := hRd m hcnf) configFields_tile
  rw [configToHard_eq, hardToConfig_eq]
  exact congrArg (CtrDrvrHwCounterConfiguration.mk · _) hpacked

end RoundTrips

/-- Values in a mask are shifted there and back; triggers and configurations that fit are read as they were written to
the module; and any words of the module are packed again from what they unpack to. -/
theorem packing_roundTrip :
    (∀ (f : Field 32) (v : BitVec 32), (v.toNat < 2 ^ f.width → autoShiftRight f.mask (autoShiftLeft f.mask v) = v) ∧
      autoShiftLeft f.mask v &&& ~~~f.mask = 0) ∧
    (∀ m htrg strg, strg.Fits → hardToTrigger (io32Write m htrg (triggerToHard strg).words) htrg = strg) ∧
    (∀ m hcnf scnf, scnf.Fits → hardToConfig (io32Write m hcnf (configToHard scnf).words) hcnf = scnf) ∧
    (∀ m htrg, triggerToHard (hardToTrigger m htrg) = ⟨hRd m htrg, hRd m (htrg + 4)⟩) ∧
    ∀ m hcnf, configToHard (hardToConfig m hcnf) = ⟨hRd m hcnf, hRd m (hcnf + 4)⟩ := by
  refine ⟨fun f v => ⟨fun hv => ?_, ?_⟩, ?_, ?_, triggerToHard_hardToTrigger, configToHard_hardToConfig⟩
  · rw [autoShiftLeft_mask, autoShiftRight_mask, Field.extract_insert hv]
  · rw [autoShiftLeft_mask]
    exact Field.insert_and_not_mask
  · intro m htrg strg h
    exact hardToTrigger_io32Write h m htrg
  · intro m hcnf scnf h
    exact hardToConfig_io32Write h m hcnf

/-- The top field of a configuration, and a trigger with its highest values. -/
theorem packing_roundTrip_top :
    (3 : BitVec 32).toNat < 2 ^ configOnZeroField.width ∧ autoShiftRight 0xC0000000 (autoShiftLeft 0xC0000000 3) = 3 ∧
      hardToTrigger (io32Write (fun _ => 0) 8 (triggerToHard ⟨0x12345678, 3, 7, 15, ⟨127, 0xFFFF⟩⟩).words) 8 =
        ⟨0x12345678, 3, 7, 15, ⟨127, 0xFFFF⟩⟩ :=
  ⟨by decide, (packing_roundTrip.1 configOnZeroField 3).1 (by decide),
    packing_roundTrip.2.1 _ _ _ ⟨by decide, by decide, by decide, by decide⟩⟩

end HtDrivers.Ctr.Packing
