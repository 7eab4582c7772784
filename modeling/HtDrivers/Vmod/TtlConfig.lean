import HtDrivers.Vmod.Vmodttl

/-! When a configuration of the VMOD-TTL is read back as it was set, and what the other requests leave alone. -/
namespace HtDrivers.Vmod
set_option autoImplicit false

/-! ## Statements -/

inductive TtlCall
  | ioConfig (stack : Vmodttlconfig) (conf : VmodttlConfig)
  | ioChanConfig (chan : VmodttlChannel) (stack : Vmodttlconfig) (conf : VmodttlConfig)
  | config (conf : Vmodttlconfig)
  | pattern (buf : VmodttlPattern)

/-- The configuration `conf` is read back, with the patterns of the inputs. -/
structure ReadsBack (conf read : VmodttlConfig) : Prop where
  directions : read.dirA = conf.dirA ∧ read.dirB = conf.dirB
  modes : read.modeA = conf.modeA ∧ read.modeB = conf.modeB ∧ read.modeC = conf.modeC
  logic : read.invertingLogic = conf.invertingLogic
  pulse : read.usPulse = conf.usPulse
  patternModes : read.patternModeA = conf.patternModeA ∧ read.patternModeB = conf.patternModeB
  patternsA : conf.dirA = .chanIn → read.confPatternA = conf.confPatternA
  patternsB : conf.dirB = .chanIn → read.confPatternB = conf.confPatternB

/-- A configuration but for what it says of one channel. -/
def VmodttlConfig.others (conf : VmodttlConfig) : VmodttlChannel → VmodttlConfig
  | .a => { conf with dirA := .chanIn, modeA := .ttl, patternModeA := 0, confPatternA := fun _ => .off }
  | .b => { conf with dirB := .chanIn, modeB := .ttl, patternModeB := 0, confPatternB := fun _ => .off }
  | .ab => conf

/-- The entry that a port and a position name, if they name one. -/
def VmodttlPattern.names (buf : VmodttlPattern) : Option ℕ :=
  if buf.pos.toNat < nrBits then
    if buf.port = 0 then some buf.pos.toNat else if buf.port = 1 then some (nrBits + buf.pos.toNat) else none
  else none

/-- The numbers that the driver keeps. -/
def VmodttlDev.numbers (pd : VmodttlDev) : List (BitVec 32) :=
  [pd.ioFlag, pd.usPulse, pd.openCollector, pd.ioconfig.ioFlag, pd.ioconfig.usPulse, pd.ioconfig.openCollector,
    pd.ioconfig.invert, pd.ioconfig.patternModeA, pd.ioconfig.patternModeB]

/-- What a call may do. -/
def TtlCall.Right (pd : VmodttlDev) : TtlCall → Prop
  | ioConfig stack conf => (vmodttlIoConfig stack conf pd).1 = true →
    ReadsBack conf (vmodttlReadConfig (vmodttlIoConfig stack conf pd).2)
  | ioChanConfig chan stack conf => chan ≠ .ab →
    (vmodttlReadConfig (vmodttlIoChanConfig chan stack conf pd).2).others chan = (vmodttlReadConfig pd).others chan
  | config conf => (ioctlConfig conf pd).1 = false → vmodttlReadConfig (ioctlConfig conf pd).2 = vmodttlReadConfig pd
  | pattern buf => (ioctlPattern buf pd).numbers = pd.numbers ∧
    ∀ k, buf.names ≠ some k → (ioctlPattern buf pd).entry k = pd.entry k

/-- When it does. The patterns on the stack were never set. -/
def TtlCall.Condition (pd : VmodttlDev) : TtlCall → Prop
  | ioConfig stack conf => conf.dirB = .chanIn → ∀ i, (stack.bitPatternB i).shows = conf.confPatternB i
  | ioChanConfig .a stack _ => ∀ i, (stack.bitPatternB i).shows = (pd.ioconfig.bitPatternB i).shows
  | ioChanConfig .b stack conf => pd.ioconfig.ioFlag &&& 1 = 0 ∨ conf.dirB = .chanIn ∨
    ∀ i, (stack.bitPatternA i).shows = (pd.ioconfig.bitPatternA i).shows
  | ioChanConfig .ab _ _ => True
  | config conf => 0 ≤ conf.ioFlag.toInt ∧ conf.ioFlag.toInt ≤ 7 ∨ readConfig conf = readConfig pd.ioconfig
  | pattern buf => buf.port = 0 ∧ buf.pos.toNat < nrBits ∨ pd.entry buf.pos.toNat = buf

/-! ## The library -/

section Library
variable {pd : VmodttlDev} {stack : Vmodttlconfig} {conf : VmodttlConfig}

theorem shows_getBitPattern (port pos : BitVec 8) (bitPattern : ConfPattern) :
    VmodttlPattern.shows ⟨port, pos, (vmodttlGetBitPattern bitPattern).2.1, (vmodttlGetBitPattern bitPattern).1,
      (vmodttlGetBitPattern bitPattern).2.2⟩ = bitPattern := by
  cases bitPattern <;> rfl

theorem toInt_packDirections (dirA dirB : ChanConf) :
    0 ≤ (packDirections dirA dirB).toInt ∧ (packDirections dirA dirB).toInt ≤ 7 := by
  cases dirA <;> cases dirB <;> decide

theorem directions_packDirections (dirA dirB : ChanConf) :
    .ofBit (packDirections dirA dirB &&& 1) = dirA ∧ .ofBit ((packDirections dirA dirB >>> 1) &&& 1) = dirB := by
  cases dirA <;> cases dirB <;> decide

theorem modes_packModes (modeA modeB modeC : ChanMode) :
    .ofBit (packModes modeA modeB modeC &&& 1) = modeA ∧ .ofBit ((packModes modeA modeB modeC >>> 1) &&& 1) = modeB ∧
      .ofBit ((packModes modeA modeB modeC >>> 2) &&& 1) = modeC := by
  cases modeA <;> cases modeB <;> cases modeC <;> decide

/-- The same as `pd` but for patterns of channel A. -/
def SameButA (pd pd' : VmodttlDev) : Prop :=
  ∃ bitPatternA, pd' = { pd with ioconfig := { pd.ioconfig with bitPatternA := bitPatternA } }

theorem SameButA.trans {pd' pd'' : VmodttlDev} (h : SameButA pd pd') (h' : SameButA pd' pd'') : SameButA pd pd'' := by
  obtain ⟨_, rfl⟩ := h
  obtain ⟨bitPatternA, rfl⟩ := h'
  exact ⟨bitPatternA, rfl⟩

/-- A pattern of the library is stored for channel A, whatever the port. -/
theorem inputPattern_spec (pd : VmodttlDev) (dir : ChanConf) (port : BitVec 8) (i : Fin nrBits)
    (bitPattern : ConfPattern) : SameButA pd (inputPattern dir port i bitPattern pd) ∧
      ∀ j, ((inputPattern dir port i bitPattern pd).ioconfig.bitPatternA j).shows =
        if dir = .chanIn ∧ j = i then bitPattern else (pd.ioconfig.bitPatternA j).shows := by
  unfold inputPattern
  by_cases hdir : dir = .chanIn
  · have hi : (BitVec.ofNat 8 i.val).toNat = i.val := by
      rw [BitVec.toNat_ofNat, Nat.mod_eq_of_lt]
      exact lt_trans i.isLt (by decide)
    rw [if_pos hdir]
    unfold vmodttlPattern ioctlPattern
    simp only [hi]
    rw [dif_pos i.isLt]
    refine ⟨⟨_, rfl⟩, fun j => ?_⟩
    by_cases hj : j = i
    · rw [if_pos ⟨hdir, hj⟩, hj]
      dsimp only
      rw [Function.update_self, shows_getBitPattern]
    · rw [if_neg (fun hboth => hj hboth.2)]
      dsimp only
      rw [Function.update_of_ne hj]
  · rw [if_neg hdir]
    exact ⟨⟨_, rfl⟩, fun j => (if_neg fun hboth => hdir hboth.1).symm⟩

theorem patternStep_spec (conf : VmodttlConfig) (pd : VmodttlDev) (i : Fin nrBits) :
    SameButA pd (patternStep conf pd i) ∧ ∀ j, ((patternStep conf pd i).ioconfig.bitPatternA j).shows =
      if (conf.dirA = .chanIn ∨ conf.dirB = .chanIn) ∧ j = i then conf.confPatternA j
      else (pd.ioconfig.bitPatternA j).shows := by
  obtain ⟨hsameA, hshowsA⟩ := inputPattern_spec pd conf.dirA 0 i (conf.confPatternA i)
  obtain ⟨hsameB, hshowsB⟩ := inputPattern_spec (inputPattern conf.dirA 0 i (conf.confPatternA i) pd) conf.dirB 1 i
    (conf.confPatternA i)
  refine ⟨hsameA.trans hsameB, fun j => ?_⟩
  unfold patternStep
  rw [hshowsB, hshowsA]
  by_cases hj : j = i
  · rw [hj]
    simp only [and_true]
    by_cases hB : conf.dirB = .chanIn
    · rw [if_pos hB, if_pos (.inr hB)]
    · simp only [hB, if_false, or_false]
  · simp only [hj, and_false, if_false]

/-- The loop over the patterns. -/
theorem patternLoop_spec (conf : VmodttlConfig) (pd : VmodttlDev) (is : List (Fin nrBits)) :
    SameButA pd (is.foldl (patternStep conf) pd) ∧
    ∀ j, ((is.foldl (patternStep conf) pd).ioconfig.bitPatternA j).shows =
      if (conf.dirA = .chanIn ∨ conf.dirB = .chanIn) ∧ j ∈ is then conf.confPatternA j
      else (pd.ioconfig.bitPatternA j).shows := by
  induction is generalizing pd with
  | nil => exact ⟨⟨_, rfl⟩, fun j => (if_neg fun hboth => List.not_mem_nil hboth.2).symm⟩
  | cons i is ih =>
    obtain ⟨hstep, hshows⟩ := patternStep_spec conf pd i
    obtain ⟨hloop, hrest⟩ := ih (patternStep conf pd i)
    refine ⟨hstep.trans hloop, fun j => ?_⟩
    rw [List.foldl_cons, hrest, hshows]
    simp only [List.mem_cons]
    by_cases hin : conf.dirA = .chanIn ∨ conf.dirB = .chanIn
    · simp only [hin, true_and]
      by_cases hj : j ∈ is
      · rw [if_pos hj, if_pos (.inr hj)]
      · simp only [hj, if_false, or_false]
    · simp only [hin, false_and, if_false]

end Library

/-! ## The requests -/

section Requests
variable {pd : VmodttlDev} {stack : Vmodttlconfig} {conf : VmodttlConfig} {request : Vmodttlconfig}
    {buf : VmodttlPattern}

theorem ioctlConfig_taken (pd : VmodttlDev) (h : 0 ≤ request.ioFlag.toInt ∧ request.ioFlag.toInt ≤ 7) :
    ∃ kept, ioctlConfig request pd = (true, kept) ∧ kept.ioconfig = request := by
  have hlimit : (aChanOut + bChanOut + cChanOut).toInt = 7 := by decide
  have htaken : ¬ (7 < request.ioFlag.toInt ∨ request.ioFlag.toInt < 0) := by omega
  have hkept : ∃ kept, vmodttlConfig request { pd with ioconfig := request } = some kept ∧ kept.ioconfig = request := by
    unfold vmodttlConfig
    rw [hlimit, if_neg htaken]
    exact ⟨_, rfl, rfl⟩
  obtain ⟨kept, hconfig, hioconfig⟩ := hkept
  refine ⟨kept, ?_, hioconfig⟩
  unfold ioctlConfig
  dsimp only
  rw [hconfig]

theorem ioctlConfig_rejected (h : ¬ (0 ≤ request.ioFlag.toInt ∧ request.ioFlag.toInt ≤ 7)) :
    ioctlConfig request pd = (false, { pd with ioconfig := request }) := by
  have hlimit : (aChanOut + bChanOut + cChanOut).toInt = 7 := by decide
  have hrejected : 7 < request.ioFlag.toInt ∨ request.ioFlag.toInt < 0 := by omega
  have hconfig : vmodttlConfig request { pd with ioconfig := request } = none := by
    unfold vmodttlConfig
    rw [hlimit, if_pos hrejected]
  unfold ioctlConfig
  dsimp only
  rw [hconfig]

/-- What the library leaves: the request, with the patterns of A if a channel is an input. -/
theorem vmodttlIoConfig_spec (stack : Vmodttlconfig) (conf : VmodttlConfig) (pd : VmodttlDev) :
    (vmodttlIoConfig stack conf pd).1 = true ∧
    ∃ bitPatternA, (vmodttlIoConfig stack conf pd).2.ioconfig =
    { packConfig stack conf with bitPatternA := bitPatternA } ∧
      ∀ j, (bitPatternA j).shows = if conf.dirA = .chanIn ∨ conf.dirB = .chanIn then conf.confPatternA j
        else (stack.bitPatternA j).shows := by
  obtain ⟨kept, htaken, hkept⟩ := ioctlConfig_taken pd
    (show 0 ≤ (packConfig stack conf).ioFlag.toInt ∧ (packConfig stack conf).ioFlag.toInt ≤ 7 from
      toInt_packDirections conf.dirA conf.dirB)
  unfold vmodttlIoConfig
  rw [htaken]
  obtain ⟨⟨bitPatternA, hsame⟩, hshows⟩ := patternLoop_spec conf kept (List.finRange nrBits)
  refine ⟨rfl, bitPatternA, ?_, fun j => ?_⟩
  · dsimp only
    rw [hsame, hkept]
  · have hj := hshows j
    rw [hsame, hkept] at hj
    simp only [List.mem_finRange, and_true] at hj
    exact hj

/-- The configuration behind a call of the library. -/
theorem read_ioConfig (stack : Vmodttlconfig) (conf : VmodttlConfig) (pd : VmodttlDev) :
    vmodttlReadConfig (vmodttlIoConfig stack conf pd).2 = { conf with
      confPatternA := if conf.dirA = .chanIn ∨ conf.dirB = .chanIn then conf.confPatternA
        else fun i => (stack.bitPatternA i).shows
      confPatternB := fun i => (stack.bitPatternB i).shows } := by
  obtain ⟨-, bitPatternA, hioconfig, hshows⟩ := vmodttlIoConfig_spec stack conf pd
  obtain ⟨hdirA, hdirB⟩ := directions_packDirections conf.dirA conf.dirB
  obtain ⟨hmodeA, hmodeB, hmodeC⟩ := modes_packModes conf.modeA conf.modeB conf.modeC
  have hpatternsA : (fun i => (bitPatternA i).shows) = if conf.dirA = .chanIn ∨ conf.dirB = .chanIn
    then conf.confPatternA
      else fun i => (stack.bitPatternA i).shows := by
    funext i
    rw [hshows]
    split <;> rfl
  unfold vmodttlReadConfig readConfig
  rw [hioconfig, ← hpatternsA]
  simp only [packConfig, hdirA, hdirB, hmodeA, hmodeB, hmodeC]

theorem ioConfig_right_iff : (TtlCall.ioConfig stack conf).Right pd ↔ (TtlCall.ioConfig stack conf).Condition pd := by
  have htaken := (vmodttlIoConfig_spec stack conf pd).1
  rw [TtlCall.Right, TtlCall.Condition, read_ioConfig]
  constructor
  · intro hright hB i
    exact congrFun ((hright htaken).patternsB hB) i
  · intro hB _
    refine ⟨⟨rfl, rfl⟩, ⟨rfl, rfl, rfl⟩, rfl, rfl, ⟨rfl, rfl⟩, fun hA => ?_, fun hin => funext (hB hin)⟩
    exact if_pos (.inl hA)

theorem ofBit_eq_chanIn (bit : BitVec 32) : ChanConf.ofBit bit = .chanIn ↔ bit = 0 := by
  unfold ChanConf.ofBit
  by_cases hbit : bit = 0
  · rw [if_pos hbit]
    exact iff_of_true rfl hbit
  · rw [if_neg hbit]
    exact iff_of_false nofun hbit

theorem ioChanConfig_right_iff (chan : VmodttlChannel) :
    (TtlCall.ioChanConfig chan stack conf).Right pd ↔ (TtlCall.ioChanConfig chan stack conf).Condition pd := by
  rw [TtlCall.Right, vmodttlIoChanConfig, read_ioConfig]
  cases chan with
  | ab => exact iff_of_true (fun hab => absurd rfl hab) trivial
  | a =>
    rw [TtlCall.Condition]
    unfold replaceChannel VmodttlConfig.others vmodttlReadConfig readConfig
    simp [funext_iff]
  | b =>
    rw [TtlCall.Condition]
    unfold replaceChannel VmodttlConfig.others vmodttlReadConfig readConfig
    simp [funext_iff, ofBit_eq_chanIn, or_iff_not_imp_left]

theorem config_right_iff : (TtlCall.config request).Right pd ↔ (TtlCall.config request).Condition pd := by
  rw [TtlCall.Right, TtlCall.Condition]
  by_cases h : 0 ≤ request.ioFlag.toInt ∧ request.ioFlag.toInt ≤ 7
  · obtain ⟨kept, htaken, -⟩ := ioctlConfig_taken pd h
    rw [htaken]
    exact iff_of_true nofun (.inl ⟨h.1, h.2⟩)
  · rw [ioctlConfig_rejected h, or_iff_right_of_imp fun hin => absurd hin h]
    exact forall_prop_of_true rfl

theorem entry_ioctlPattern (buf : VmodttlPattern) (pd : VmodttlDev) (k : ℕ) :
    (ioctlPattern buf pd).entry k = if k = buf.pos.toNat then buf else pd.entry k := by
  unfold ioctlPattern
  generalize buf.pos.toNat = pos
  by_cases hA : pos < nrBits
  · rw [dif_pos hA]
    unfold VmodttlDev.entry
    by_cases hk : k < nrBits
    · rw [dif_pos hk, dif_pos hk]
      exact (Function.update_apply _ _ _ _).trans (if_congr (by rw [Fin.mk.injEq]) rfl rfl)
    · rw [dif_neg hk, dif_neg hk, if_neg (by omega)]
  · rw [dif_neg hA]
    by_cases hB : pos - nrBits < nrBits
    · rw [dif_pos hB]
      unfold VmodttlDev.entry
      by_cases hk : k < nrBits
      · rw [dif_pos hk, dif_pos hk, if_neg (by omega)]
      · rw [dif_neg hk, dif_neg hk]
        by_cases hk' : k - nrBits < nrBits
        · rw [dif_pos hk', dif_pos hk']
          exact (Function.update_apply _ _ _ _).trans (if_congr (by rw [Fin.mk.injEq]; omega) rfl rfl)
        · rw [dif_neg hk', dif_neg hk', if_neg (by omega)]
    · rw [dif_neg hB]
      unfold VmodttlDev.entry
      by_cases hk : k < nrBits
      · rw [dif_pos hk, dif_pos hk, if_neg (by omega)]
      · rw [dif_neg hk, dif_neg hk]
        by_cases hk' : k - nrBits < nrBits
        · rw [dif_pos hk', dif_pos hk', if_neg (by omega)]
        · rw [dif_neg hk', dif_neg hk']
          exact (Function.update_apply _ _ _ _).trans (if_congr (by omega) rfl rfl)

theorem ioctlPattern_numbers (buf : VmodttlPattern) (pd : VmodttlDev) : (ioctlPattern buf pd).numbers = pd.numbers := by
  unfold ioctlPattern
  dsimp only
  split
  · rfl
  · split <;> rfl

theorem names_eq_pos : buf.names = some buf.pos.toNat ↔ buf.port = 0 ∧ buf.pos.toNat < nrBits := by
  unfold VmodttlPattern.names
  by_cases hpos : buf.pos.toNat < nrBits
  · rw [if_pos hpos]
    by_cases h0 : buf.port = 0
    · rw [if_pos h0]
      exact iff_of_true rfl ⟨h0, hpos⟩
    · rw [if_neg h0]
      refine iff_of_false (fun heq => ?_) (fun hboth => h0 hboth.1)
      split at heq
      · have hsum := Option.some.inj heq
        have hbits : nrBits = 8 := rfl
        omega
      · cases heq
  · rw [if_neg hpos]
    exact iff_of_false nofun (fun hboth => hpos hboth.2)

theorem pattern_right_iff : (TtlCall.pattern buf).Right pd ↔ (TtlCall.pattern buf).Condition pd := by
  rw [TtlCall.Right, TtlCall.Condition, and_iff_right (ioctlPattern_numbers buf pd), ← names_eq_pos]
  simp only [entry_ioctlPattern]
  constructor
  · intro hkept
    by_cases hnamed : buf.names = some buf.pos.toNat
    · exact .inl hnamed
    · have hentry := hkept _ hnamed
      rw [if_pos rfl] at hentry
      exact .inr hentry.symm
  · intro hcond k hk
    by_cases hpos : k = buf.pos.toNat
    · obtain hnamed | hentry := hcond
      · exact absurd (hpos ▸ hnamed) hk
      · rw [if_pos hpos, hpos, hentry]
    · rw [if_neg hpos]

/-- Every call does what it may do exactly under its condition. -/
theorem ttlCall_right_iff (pd : VmodttlDev) (call : TtlCall) : call.Right pd ↔ call.Condition pd := by
  cases call with
  | ioConfig stack conf => exact ioConfig_right_iff
  | ioChanConfig chan stack conf => exact ioChanConfig_right_iff chan
  | config conf => exact config_right_iff
  | pattern buf => exact pattern_right_iff

end Requests

def noPattern : VmodttlPattern := ⟨0, 0, 0, 0, 0⟩

def zeroConfig : Vmodttlconfig := ⟨0, 0, 0, 0, 0, 0, fun _ => noPattern, fun _ => noPattern⟩

/-- Both channels are inputs, and all bits of B wait for a one. -/
def waitForOnes : VmodttlConfig :=
  ⟨.chanIn, .chanIn, 0, 1, .ttl, .ttl, .ttl, 0, 0, fun _ => .off, fun _ => .one⟩

/-- The patterns of channel B are lost. -/
theorem ioConfig_loses_patterns : ¬ ∀ (pd : VmodttlDev) (call : TtlCall), call.Right pd := by
  intro h
  have hright := h ⟨0, 0, 0, zeroConfig, fun _ => noPattern⟩ (.ioConfig zeroConfig waitForOnes)
  have hpattern := ioConfig_right_iff.mp hright rfl ⟨0, by decide⟩
  exact absurd hpattern (by decide)

end HtDrivers.Vmod
