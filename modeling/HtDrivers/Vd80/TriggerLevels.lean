import HtDrivers.Lib.Masks
import HtDrivers.Vd80.Driver

/-! The analogue trigger levels of the VD80 (`SET_ANALOGUE_TRIGGER`, `vd80SetTriggerLevels`): the library sends one
request a channel, and every request clears the levels of all sixteen channels first. -/
namespace HtDrivers.Vd80
open HtDrivers.Lib.MaskLoop HtDrivers.Lib.Masks
set_option autoImplicit false

/-! ## The ioctls -/

structure Vd80DrvrAnalogTrig where
  channel : ℤ
  control : BitVec 32
  level : BitVec 16
deriving DecidableEq

def vd80TrigsourceMask : BitVec 32 := 0xf
def vd80TrigsourceAnalog : BitVec 32 := 9
def vd80AtrigChangeEdge : BitVec 32 := 1 <<< 3
def vd80AtrigWinMask : BitVec 32 := 7

/-- The register of the levels of a channel, counted from 0. -/
def atrigChan (i : ℕ) : ℕ := vd80AtrigChan1 + i * 4

/-- The first `n` channels. -/
def clearLevels : ℕ → SkelDrvrModuleContext → SkelDrvrModuleContext
  | 0, mcon => mcon
  | n + 1, mcon => setReg (atrigChan n) 0 (clearLevels n mcon)

/-- Above and below have the same level. -/
def levelWord (atrg : Vd80DrvrAnalogTrig) : BitVec 32 :=
  (atrg.level.signExtend 32 &&& 0xFFF) <<< 17 ||| (atrg.level.signExtend 32 &&& 0xFFF) <<< 5 |||
    (atrg.control &&& 0x007) ||| vd80AtrigChangeEdge

def setAnalogueTrigger : Command Vd80DrvrAnalogTrig := fun mcon atrg =>
  let mcon := clearLevels vd80CHANNELS mcon
  if atrg.channel < 1 ∨ atrg.channel > vd80CHANNELS then (.failed, mcon, atrg)
  else
    let i := (atrg.channel - 1).toNat
    let tval := getReg vd80TCR1 mcon &&& ~~~vd80TrigsourceMask
    let mcon := setReg vd80TCR1 (tval ||| vd80TrigsourceAnalog) mcon
    (.ok, setReg (atrigChan i) (levelWord atrg) mcon, atrg)

def getAnalogueTrigger : Command Vd80DrvrAnalogTrig := fun mcon atrg =>
  if atrg.channel < 1 ∨ atrg.channel > vd80CHANNELS then (.failed, mcon, atrg)
  else
    let tval := getReg (atrigChan (atrg.channel - 1).toNat) mcon
    (.ok, mcon,
      { atrg with control := tval &&& 0x007, level := (tval.sshiftRight 17 &&& 0xFFF).setWidth 16 })

/-! ## The library -/

structure Vd80AnalogTrig where
  aboveBelow : BitVec 32
  trigLevel : BitVec 32
deriving DecidableEq

/-- `Vd80ModNONE` and `Vd80ChnNONE` stand for the first module and the first channel. -/
def orFirst (mask : BitVec 32) : BitVec 32 := if mask = 0 then 1 else mask

/-- The request for the channel of bit `j`. -/
def levelRequest (atrg : Vd80AnalogTrig) (j : ℕ) : Vd80DrvrAnalogTrig :=
  { channel := j + 1, control := atrg.aboveBelow, level := atrg.trigLevel.setWidth 16 }

/-- The levels of one module, for every channel of the mask. -/
def setModuleLevels (chns : BitVec 32) (atrg : Vd80AnalogTrig) : Driver → Vd80Err × Driver :=
  forMask .success chns.getLsbD (fun j d => orIo (ioctl setAnalogueTrigger d (levelRequest atrg j)))
    (List.range vd80CHANNELS)

def vd80SetTriggerLevels (d : Driver) (mods chns : BitVec 32) (atrg : Vd80AnalogTrig) : Vd80Err × Driver :=
  forModules (orFirst mods) (setModuleLevels (orFirst chns) atrg) d

/-- `atrg` is the structure of the caller as it was. -/
def vd80GetTriggerLevels (d : Driver) (mod chn : ℤ) (atrg : Vd80AnalogTrig) : Vd80Err × Driver × Vd80AnalogTrig :=
  let set := setModule d (if mod = 0 then 1 else mod)
  if set.1 = .success then
    let reply := ioctl getAnalogueTrigger set.2 { channel := if chn = 0 then 1 else chn, control := 0, level := 0 }
    if reply.1 then
      (.success, reply.2.1, { aboveBelow := reply.2.2.control, trigLevel := reply.2.2.level.signExtend 32 })
    else (.io, reply.2.1, atrg)
  else (set.1, set.2, atrg)

/-! ## One request -/

section Request
variable {mcon : SkelDrvrModuleContext} {atrg : Vd80DrvrAnalogTrig} {emulation little : Bool} {n i offset : ℕ}

@[simp] theorem clearLevels_emulation : (clearLevels n mcon).emulation = mcon.emulation := by
  induction n with
  | zero => rfl
  | succ n ih => rw [clearLevels, setReg_emulation, ih]

@[simp] theorem clearLevels_noHardware : (clearLevels n mcon).noHardware = mcon.noHardware := by
  induction n with
  | zero => rfl
  | succ n ih => rw [clearLevels, setReg_noHardware, ih]

@[simp] theorem clearLevels_mapped : (clearLevels n mcon).mapped = mcon.mapped := by
  induction n with
  | zero => rfl
  | succ n ih => rw [clearLevels, setReg_mapped, ih]

theorem atrigChan_div : atrigChan i / 4 = 48 + i := by
  unfold atrigChan vd80AtrigChan1
  omega

theorem getReg_clearLevels :
    getReg offset (clearLevels n mcon) =
      if 48 ≤ offset / 4 ∧ offset / 4 < 48 + n then 0 else getReg offset mcon := by
  induction n with
  | zero => rw [clearLevels, if_neg (by omega)]
  | succ n ih =>
    rw [clearLevels, getReg_setReg, ih, atrigChan_div]
    by_cases hat : offset / 4 = 48 + n
    · rw [if_pos hat, if_pos (by omega)]
    · rw [if_neg hat]
      by_cases hin : 48 ≤ offset / 4 ∧ offset / 4 < 48 + n
      · rw [if_pos hin, if_pos (by omega)]
      · rw [if_neg hin, if_neg (by omega)]

/-- After a request only its own channel has a level. -/
structure LevelsAt (emulation : Bool) (c : ℕ) (word : BitVec 32) (mcon : SkelDrvrModuleContext) : Prop where
  same : mcon.emulation = emulation
  ready : Ready emulation mcon
  levels : ∀ j, j < vd80CHANNELS → getReg (atrigChan j) mcon = if j = c then word else 0

theorem setAnalogueTrigger_ok (hsame : mcon.emulation = emulation) (hready : Ready emulation mcon)
    (hi : i < vd80CHANNELS) (hchannel : atrg.channel = i + 1) :
    (setAnalogueTrigger mcon atrg).1 = .ok ∧
      LevelsAt emulation i (levelWord atrg) (setAnalogueTrigger mcon atrg).2.1 := by
  have hrange : ¬(atrg.channel < 1 ∨ atrg.channel > vd80CHANNELS) := by omega
  have hindex : (atrg.channel - 1).toNat = i := by omega
  simp only [setAnalogueTrigger, if_neg hrange, hindex]
  refine ⟨trivial, by simpa using hsame, ⟨by simpa using hready.hardware, by simpa using hready.space⟩, fun j hj => ?_⟩
  rw [getReg_setReg, atrigChan_div, atrigChan_div]
  by_cases hji : j = i
  · rw [if_pos (by rw [hji]), if_pos hji]
  · rw [if_neg (by omega), if_neg hji, getReg_setReg, atrigChan_div, if_neg (by unfold vd80TCR1; omega),
      getReg_clearLevels, atrigChan_div, if_pos (by omega)]

theorem levelWord_control (atrg : Vd80DrvrAnalogTrig) (h : atrg.control &&& 7 = atrg.control) :
    levelWord atrg &&& 7 = atrg.control := by
  rw [levelWord, h]
  apply BitVec.eq_of_getLsbD_eq
  intro k hk
  have hbit := congrArg (fun v => v.getLsbD k) h
  simp only [BitVec.getLsbD_and] at hbit
  by_cases hk3 : k < 3
  · interval_cases k <;> simp [vd80AtrigChangeEdge]
  · have hseven : (7 : BitVec 32).getLsbD k = false := by interval_cases k <;> first | omega | rfl
    rw [hseven, Bool.and_false] at hbit
    rw [BitVec.getLsbD_and, hseven, Bool.and_false, ← hbit]

theorem levelWord_level (atrg : Vd80DrvrAnalogTrig) (hlevel : atrg.level &&& 0xFFF = atrg.level) :
    ((levelWord atrg).sshiftRight 17 &&& 0xFFF).setWidth 16 = atrg.level := by
  apply BitVec.eq_of_getLsbD_eq
  intro k hk
  have hbit := congrArg (fun v => v.getLsbD k) hlevel
  simp only [BitVec.getLsbD_and] at hbit
  by_cases hk12 : k < 12
  · interval_cases k <;> simp [levelWord, vd80AtrigChangeEdge, BitVec.getElem_sshiftRight, BitVec.getElem_signExtend]
  · have hmask : (0xFFF : BitVec 16).getLsbD k = false := by interval_cases k <;> first | omega | rfl
    have hmask' : (0xFFF : BitVec 32).getLsbD k = false := by interval_cases k <;> first | omega | rfl
    rw [hmask, Bool.and_false] at hbit
    rw [BitVec.getLsbD_setWidth, BitVec.getLsbD_and, hmask', Bool.and_false, Bool.and_false, ← hbit]

end Request

/-! ## The requests of a call -/

section Calls
variable {d d' e : Driver} {mods chns : BitVec 32} {atrg : Vd80AnalogTrig} {mcon : SkelDrvrModuleContext}

/-- Between two requests to a module. -/
structure Selected (d e f : Driver) : Prop where
  host : SameHost d f
  number : f.moduleNumber = e.moduleNumber
  modules : ∃ mcon, f.modules = Function.update e.modules e.moduleNumber (some mcon)

theorem request_success {f g : Driver} {i : ℕ} (hi : i < vd80CHANNELS) (hf : Selected d e f)
    (h : orIo (ioctl setAnalogueTrigger f (levelRequest atrg i)) = (.success, g)) :
    Selected d e g ∧ ∃ mcon, g.modules = Function.update e.modules e.moduleNumber (some mcon) ∧
      LevelsAt d.emulation i (levelWord (levelRequest atrg 0)) mcon := by
  obtain ⟨mcon, -, hready, -, rfl⟩ := orIo_success h
  obtain ⟨-, hsame, hready⟩ := hready.entered f.little
  rw [hf.host.emulation] at hready hsame
  have hchannel : (levelRequest atrg i).channel = i + 1 := rfl
  have hok := setAnalogueTrigger_ok hsame hready hi hchannel
  have hmods : (f.put (setAnalogueTrigger (enter f.little f.emulation mcon).2 (levelRequest atrg i)).2.1).modules =
      Function.update e.modules e.moduleNumber
        (some (setAnalogueTrigger (enter f.little f.emulation mcon).2 (levelRequest atrg i)).2.1) := by
    obtain ⟨old, hold⟩ := hf.modules
    simp only [Driver.put, hold, hf.number, Function.update_idem]
  refine ⟨⟨⟨hf.host.1, hf.host.2, hf.host.3⟩, hf.number, _, hmods⟩, _, hmods, ?_⟩
  rw [hf.host.emulation]
  exact hok.2

/-- The selected channel with the highest number. -/
def lastChannel (chns : BitVec 32) : Option ℕ := ((List.range vd80CHANNELS).filter chns.getLsbD).getLast?

theorem setModuleLevels_success (hhost : SameHost d e) (hmcon : e.modules e.moduleNumber = some mcon)
    (h : setModuleLevels chns atrg e = (.success, d')) :
    ∃ mcon', (∀ last, lastChannel chns = some last →
        LevelsAt d.emulation last (levelWord (levelRequest atrg 0)) mcon') ∧
      SameHost d d' ∧ d'.modules = Function.update e.modules e.moduleNumber (some mcon') := by
  have hstart : Selected d e e := ⟨hhost, rfl, mcon, by rw [← hmcon, Function.update_eq_self]⟩
  have hturn : ∀ i ∈ List.range vd80CHANNELS, ∀ f g, orIo (ioctl setAnalogueTrigger f (levelRequest atrg i)) =
      (.success, g) → Selected d e f → Selected d e g ∧
        ∃ mcon, g.modules = Function.update e.modules e.moduleNumber (some mcon) ∧
          LevelsAt d.emulation i (levelWord (levelRequest atrg 0)) mcon :=
    fun i hi f g hg hf => request_success (List.mem_range.mp hi) hf hg
  have hkept := forMask_keeps (fun i hi f g hg hf => (hturn i hi f g hg hf).1) h hstart
  obtain ⟨mcon', hmods⟩ := hkept.modules
  refine ⟨mcon', fun last hlast => ?_, hkept.host, hmods⟩
  obtain ⟨mcon'', hmods', hlevels⟩ :=
    forMask_last (fun i hi f g hg hf => (hturn i hi f g hg hf).1) (fun i hi f g hg hf => (hturn i hi f g hg hf).2)
      hstart h hlast
  have hsame : mcon' = mcon'' := by
    have hupdate := congrFun (hmods.symm.trans hmods') e.moduleNumber
    rw [Function.update_self, Function.update_self] at hupdate
    exact Option.some.inj hupdate
  rw [hsame]
  exact hlevels

/-! ## What the next call sees -/

/-- The levels of the selected channels can be read back, and the other channels are disabled. -/
def LevelsHonoured (d : Driver) (mods chns : BitVec 32) (atrg : Vd80AnalogTrig) : Prop :=
  ∀ i < vd80MODULES, (orFirst mods).getLsbD i = true → ∀ j < vd80CHANNELS,
    if (orFirst chns).getLsbD j then
      ∀ old, ∃ d', vd80GetTriggerLevels d (i + 1) (j + 1) old = (.success, d', atrg)
    else ∃ mcon, d.modules (i + 1) = some mcon ∧ seen d.emulation mcon (atrigChan j) &&& vd80AtrigWinMask = 0

/-- What is read from a register. -/
def levelsOf (word : BitVec 32) : Vd80AnalogTrig :=
  { aboveBelow := word &&& 0x007, trigLevel := ((word.sshiftRight 17 &&& 0xFFF).setWidth 16).signExtend 32 }

theorem vd80GetTriggerLevels_eq {i j : ℕ} (hi : (i : ℤ) + 1 ≤ d.installedModules)
    (hmcon : d.modules (i + 1) = some mcon) (hready : Ready d.emulation mcon) (hj : j < vd80CHANNELS)
    (old : Vd80AnalogTrig) :
    ∃ d', vd80GetTriggerLevels d (i + 1) (j + 1) old =
      (.success, d', levelsOf (seen d.emulation mcon (atrigChan j))) := by
  have hmod : ¬(i : ℤ) + 1 = 0 := by omega
  have hchn : ¬(j : ℤ) + 1 = 0 := by omega
  have hrange : ¬((j : ℤ) + 1 < 1 ∨ (j : ℤ) + 1 > vd80CHANNELS) := by omega
  have hindex : ((j : ℤ) + 1 - 1).toNat = j := by omega
  have hreg : getReg (atrigChan j) (enter d.little d.emulation mcon).2 = seen d.emulation mcon (atrigChan j) := by
    refine hready.enter_getReg_ne ?_
    rw [atrigChan_div]
    unfold vd80GCR2
    omega
  have henter := (hready.entered d.little).1
  simp only [vd80GetTriggerLevels, if_neg hmod, if_neg hchn, setModule_eq (by omega) hi hmcon]
  have hfound : Driver.modules { d with moduleNumber := i + 1 } (i + 1) = some mcon := hmcon
  rw [if_pos trivial, ioctl_eq hfound]
  simp only [skelUserIoctls, henter, if_true, getAnalogueTrigger, if_neg hrange, hindex, hreg, decide_true]
  exact ⟨_, rfl⟩

/-- A window that is off, above or below, and a level of twelve bits. -/
structure Settable (atrg : Vd80AnalogTrig) : Prop where
  control : atrg.aboveBelow = 0 ∨ atrg.aboveBelow = 3 ∨ atrg.aboveBelow = 4
  level : atrg.trigLevel.toNat ≤ 4095

theorem Settable.levelsOf_word (h : Settable atrg) : levelsOf (levelWord (levelRequest atrg 0)) = atrg := by
  obtain ⟨hcontrol, hlevel⟩ := h
  have hctl : atrg.aboveBelow &&& 7 = atrg.aboveBelow := by rcases hcontrol with h | h | h <;> rw [h] <;> rfl
  have hsmall : atrg.trigLevel.setWidth 16 &&& 0xFFF = atrg.trigLevel.setWidth 16 := by
    apply BitVec.eq_of_toNat_eq
    have hmask : (0xFFF : BitVec 16).toNat = 2 ^ 12 - 1 := rfl
    rw [BitVec.toNat_and, hmask, Nat.and_two_pow_sub_one_eq_mod, BitVec.toNat_setWidth]
    omega
  have hwide : (atrg.trigLevel.setWidth 16).signExtend 32 = atrg.trigLevel := by
    have hmsb : (atrg.trigLevel.setWidth 16).msb = false := by
      rw [BitVec.msb_eq_false_iff_two_mul_lt, BitVec.toNat_setWidth]
      omega
    rw [BitVec.signExtend_eq_setWidth_of_msb_false hmsb]
    apply BitVec.eq_of_toNat_eq
    rw [BitVec.toNat_setWidth, BitVec.toNat_setWidth]
    omega
  have hread : levelsOf (levelWord (levelRequest atrg 0)) =
      { aboveBelow := levelWord (levelRequest atrg 0) &&& 7,
        trigLevel := ((levelWord (levelRequest atrg 0)).sshiftRight 17 &&& 0xFFF |>.setWidth 16).signExtend 32 } := rfl
  rw [hread, levelWord_control (levelRequest atrg 0) hctl, levelWord_level (levelRequest atrg 0) hsmall]
  exact congrArg (Vd80AnalogTrig.mk atrg.aboveBelow) hwide

theorem orFirst_bit {mask : BitVec 32} (h : mask.toNat < 2 ^ 16) : ∃ i, i < 16 ∧ (orFirst mask).getLsbD i = true := by
  have hne : orFirst mask ≠ 0 := by
    unfold orFirst
    split_ifs with hzero
    · decide
    · exact hzero
  obtain ⟨i, hi⟩ := ne_zero_iff.mp hne
  refine ⟨i, ?_, hi⟩
  by_contra hge
  have hsmall : (orFirst mask).toNat < 2 ^ 16 := by
    unfold orFirst
    split_ifs
    · decide
    · exact h
  have hlt := Nat.pow_le_pow_right (show 0 < 2 by decide) (show 16 ≤ i by omega)
  rw [BitVec.getLsbD, Nat.testBit_lt_two_pow (by omega)] at hi
  exact absurd hi Bool.false_ne_true

theorem exists_lastChannel {i : ℕ} (hi : i < vd80CHANNELS) (hsel : chns.getLsbD i = true) :
    ∃ last, lastChannel chns = some last ∧ last < vd80CHANNELS ∧ chns.getLsbD last = true := by
  have hmem : i ∈ (List.range vd80CHANNELS).filter chns.getLsbD := List.mem_filter.mpr ⟨List.mem_range.mpr hi, hsel⟩
  cases hlast : lastChannel chns with
  | none =>
    rw [lastChannel, List.getLast?_eq_none_iff] at hlast
    rw [hlast] at hmem
    exact absurd hmem List.not_mem_nil
  | some last =>
    have hin := List.mem_filter.mp (List.mem_of_getLast? hlast)
    exact ⟨last, rfl, List.mem_range.mp hin.1, hin.2⟩

/-- The levels are honoured for a mask of one channel, and for no other but where the trigger is switched off. -/
theorem levelsHonoured_iff (hmods : mods.toNat < 2 ^ 16) (hchns : chns.toNat < 2 ^ 16) (hatrg : Settable atrg)
    (h : vd80SetTriggerLevels d mods chns atrg = (.success, d')) :
    LevelsHonoured d' mods chns atrg ↔
      (∃! c, c < 16 ∧ (orFirst chns).getLsbD c = true) ∨ atrg.aboveBelow = 0 ∧ atrg.trigLevel = 0 := by
  obtain ⟨c, hc, hcsel⟩ := orFirst_bit hchns
  obtain ⟨last, hlast, hlastlt, hlastsel⟩ := exists_lastChannel hc hcsel
  -- Every selected module has the level at the last channel and at no other.
  have hmodule : ∀ i < vd80MODULES, (orFirst mods).getLsbD i = true → (i : ℤ) + 1 ≤ d'.installedModules ∧
      ∃ mcon, d'.modules (i + 1) = some mcon ∧
        LevelsAt d'.emulation last (levelWord (levelRequest atrg 0)) mcon := by
    intro i hi hsel
    obtain ⟨hhost, hle, mcon, mcon', -, hr, hmcon'⟩ := forModules_success
      (R := fun _ mcon' => ∀ last, lastChannel (orFirst chns) = some last →
        LevelsAt d.emulation last (levelWord (levelRequest atrg 0)) mcon')
      (fun e e' mcon hhost hmcon he => setModuleLevels_success hhost hmcon he) h hi hsel
    rw [hhost.installedModules, hhost.emulation]
    exact ⟨hle, mcon', hmcon', hr last hlast⟩
  have hreads : ∀ i < vd80MODULES, (orFirst mods).getLsbD i = true → ∀ j < vd80CHANNELS, ∀ old,
      ∃ d'', vd80GetTriggerLevels d' (i + 1) (j + 1) old = (.success, d'',
        if j = last then atrg else { aboveBelow := 0, trigLevel := 0 }) := by
    intro i hi hsel j hj old
    obtain ⟨hle, mcon, hmcon, hat⟩ := hmodule i hi hsel
    obtain ⟨d'', hget⟩ := vd80GetTriggerLevels_eq hle hmcon hat.ready hj old
    refine ⟨d'', ?_⟩
    rw [hget, seen_of_eq hat.same, hat.levels j hj]
    split_ifs
    · rw [hatrg.levelsOf_word]
    · rfl
  constructor
  · intro hall
    by_contra hnot
    rw [not_or] at hnot
    obtain ⟨i, hi, hisel⟩ := orFirst_bit hmods
    refine hnot.1 ⟨last, ⟨hlastlt, hlastsel⟩, fun j hj => ?_⟩
    by_contra hne
    have hgot := hall i hi hisel j hj.1
    rw [if_pos hj.2] at hgot
    obtain ⟨d₁, h₁⟩ := hgot atrg
    obtain ⟨d₂, h₂⟩ := hreads i hi hisel j hj.1 atrg
    rw [h₁, if_neg hne] at h₂
    have hzero := congrArg (fun r => r.2.2) h₂
    rw [show atrg = { aboveBelow := 0, trigLevel := 0 } from hzero] at hnot
    exact hnot.2 ⟨rfl, rfl⟩
  · intro hwhen i hi hisel j hj
    split_ifs with hjsel
    · intro old
      obtain ⟨d'', hget⟩ := hreads i hi hisel j hj old
      refine ⟨d'', ?_⟩
      rw [hget]
      rcases hwhen with honly | ⟨hoff, hlevel⟩
      · rw [if_pos (honly.unique ⟨hj, hjsel⟩ ⟨hlastlt, hlastsel⟩)]
      · have hzero : ({ aboveBelow := 0, trigLevel := 0 } : Vd80AnalogTrig) = atrg :=
          congrArg₂ Vd80AnalogTrig.mk hoff.symm hlevel.symm
        rw [hzero, ite_self]
    · obtain ⟨-, mcon, hmcon, hat⟩ := hmodule i hi hisel
      have hne : j ≠ last := by
        rintro rfl
        exact hjsel hlastsel
      refine ⟨mcon, hmcon, ?_⟩
      rw [seen_of_eq hat.same, hat.levels j hj, if_neg hne]
      rfl

end Calls

/-! ## A request that is rejected -/

theorem setAnalogueTrigger_rejected {little emulation : Bool} {mcon : SkelDrvrModuleContext} {atrg : Vd80DrvrAnalogTrig}
    (hready : Ready emulation mcon) (hchannel : atrg.channel < 1 ∨ atrg.channel > vd80CHANNELS) :
    skelUserIoctls little emulation setAnalogueTrigger mcon atrg =
      (.failed, clearLevels vd80CHANNELS (enter little emulation mcon).2, atrg) := by
  rw [skelUserIoctls, if_pos (hready.entered little).1, setAnalogueTrigger, if_pos hchannel]

/-- The requests that reach all registers alike before the channel number is looked at. -/
theorem rejected_unchanged_iff {little emulation : Bool} {mcon : SkelDrvrModuleContext}
    (hready : Ready emulation mcon) :
    (∀ offset, seen emulation (clearLevels vd80CHANNELS (enter little emulation mcon).2) offset =
        seen emulation mcon offset) ↔
      (∀ i < vd80CHANNELS, seen emulation mcon (atrigChan i) = 0) ∧
        setEndian little (seen emulation mcon vd80GCR2) = seen emulation mcon vd80GCR2 := by
  have hafter : ∀ offset, seen emulation (clearLevels vd80CHANNELS (enter little emulation mcon).2) offset =
      if 48 ≤ offset / 4 ∧ offset / 4 < 48 + vd80CHANNELS then 0
      else if offset / 4 = vd80GCR2 / 4 then setEndian little (seen emulation mcon vd80GCR2)
      else seen emulation mcon offset := by
    intro offset
    rw [seen_of_eq (by rw [clearLevels_emulation, (hready.entered little).2.1]), getReg_clearLevels,
      hready.enter_getReg]
  have hword : ∀ o o', o / 4 = o' / 4 → seen emulation mcon o = seen emulation mcon o' := by
    intro o o' heq
    unfold seen getReg
    rw [heq]
  constructor
  · intro hall
    constructor
    · intro i hi
      rw [← hall, hafter, atrigChan_div, if_pos (by omega)]
    · have hgcr := hall vd80GCR2
      rw [hafter, if_neg (by decide), if_pos rfl] at hgcr
      exact hgcr
  · rintro ⟨hlevels, hgcr⟩ offset
    rw [hafter]
    split_ifs with hin hat
    · rw [hword offset (atrigChan (offset / 4 - 48)) (by rw [atrigChan_div]; omega), hlevels _ (by omega)]
    · rw [hgcr, hword offset vd80GCR2 hat]
    · rfl

/-- Trigger levels are honoured for one channel at a time, or where they are switched off; a request with a bad channel
number leaves the registers alone where no level was set and the bus was already swapped as the host needs it. -/
theorem triggerLevels_iff {d d' : Driver} {mods chns : BitVec 32} {atrg : Vd80AnalogTrig} (little : Bool)
    {emulation : Bool} {mcon : SkelDrvrModuleContext} {request : Vd80DrvrAnalogTrig}
    (hmods : mods.toNat < 2 ^ 16) (hchns : chns.toNat < 2 ^ 16) (hatrg : Settable atrg)
    (h : vd80SetTriggerLevels d mods chns atrg = (.success, d'))
    (hready : Ready emulation mcon) (hchannel : request.channel < 1 ∨ request.channel > vd80CHANNELS) :
    (LevelsHonoured d' mods chns atrg ↔
      (∃! c, c < 16 ∧ (orFirst chns).getLsbD c = true) ∨ atrg.aboveBelow = 0 ∧ atrg.trigLevel = 0) ∧
    (skelUserIoctls little emulation setAnalogueTrigger mcon request).1 = .failed ∧
    ((∀ offset, seen emulation (skelUserIoctls little emulation setAnalogueTrigger mcon request).2.1 offset =
        seen emulation mcon offset) ↔
      (∀ i < vd80CHANNELS, seen emulation mcon (atrigChan i) = 0) ∧
        setEndian little (seen emulation mcon vd80GCR2) = seen emulation mcon vd80GCR2) := by
  rw [setAnalogueTrigger_rejected hready hchannel]
  exact ⟨levelsHonoured_iff hmods hchns hatrg h, rfl, rejected_unchanged_iff hready⟩

/-- A module whose registers are all zero. -/
def blankModule : SkelDrvrModuleContext :=
  { emulation := false, noHardware := false, registers := fun _ => 0, mapped := true, map := fun _ => 0 }

/-- Two modules on a little endian host. -/
def twoModules : Driver :=
  { modules := fun mod => if mod = 1 ∨ mod = 2 then some blankModule else none
    installedModules := 2, moduleNumber := 1, emulation := false, little := true }

theorem triggerLevels_oneChannel :
    LevelsHonoured (vd80SetTriggerLevels twoModules 3 4 ⟨3, 100⟩).2 3 4 ⟨3, 100⟩ ∧
      (skelUserIoctls true false setAnalogueTrigger blankModule ⟨17, 3, 100⟩).1 = .failed :=
  have honly : ∀ c < 16, (orFirst 4).getLsbD c = true → c = 2 := by decide
  have hrun : vd80SetTriggerLevels twoModules 3 4 ⟨3, 100⟩ =
      (.success, (vd80SetTriggerLevels twoModules 3 4 ⟨3, 100⟩).2) := Prod.ext (by decide +kernel) rfl
  have hready : Ready false blankModule := ⟨.inr rfl, .inr rfl⟩
  have hbad : (⟨17, 3, 100⟩ : Vd80DrvrAnalogTrig).channel < 1 ∨ (17 : ℤ) > vd80CHANNELS := .inr (by decide)
  have hall := triggerLevels_iff true (by decide) (by decide) ⟨.inr (.inl rfl), by decide⟩ hrun hready hbad
  ⟨hall.1.mpr (.inl ⟨2, by decide, fun c hc => honly c hc.1 hc.2⟩), hall.2.1⟩

/-- The first of two channels has lost its level. -/
theorem triggerLevels_twoChannels :
    (vd80SetTriggerLevels twoModules 1 3 ⟨3, 100⟩).1 = .success ∧
      ¬LevelsHonoured (vd80SetTriggerLevels twoModules 1 3 ⟨3, 100⟩).2 1 3 ⟨3, 100⟩ := by
  refine ⟨by decide +kernel, fun hall => ?_⟩
  obtain ⟨d', hget⟩ := hall 0 (by decide) (by decide) 0 (by decide) ⟨0, 0⟩
  have hread : (vd80GetTriggerLevels (vd80SetTriggerLevels twoModules 1 3 ⟨3, 100⟩).2 1 1 ⟨0, 0⟩).2.2 ≠ ⟨3, 100⟩ := by
    decide +kernel
  exact hread (congrArg (fun r => r.2.2) hget)

end HtDrivers.Vd80
