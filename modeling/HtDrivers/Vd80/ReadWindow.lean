import HtDrivers.Vd80.Driver

/-! Reading a shot of the VD80 (`READ_SAMPLE`, `vd80GetBuffer`): which samples are read, and where the trigger is among
them. The sums of the source are in `int`, and have no result where they do not fit. -/
namespace HtDrivers.Vd80
set_option autoImplicit false

/-! ## The window -/

def int32 (x : ℤ) : Option ℤ := if -2 ^ 31 ≤ x ∧ x < 2 ^ 31 then some x else none

/-- `VD80_READSTART_MASK` and `VD80_READLEN_MASK` -/
def vd80BlockMask : BitVec 32 := 0x7ffff

/-- `VD80_ACTPOSTSAMPLES_MASK` and `VD80_SHOTLEN_MASK` -/
def vd80CountMask : BitVec 32 := 0x1ffffff

/-- What `READ_SAMPLE` computes before it starts the transfer. -/
structure Window where
  trigPosition : ℤ
  samples : ℤ
  mcr1 : BitVec 32
  mcr2 : BitVec 32

def readWindow (shotlength actpostrig trigPosition bufSizeSamples : ℤ) : Option Window := do
  let actpretrig ← int32 (shotlength - actpostrig)
  let trigPosition := if trigPosition > actpretrig then actpretrig else trigPosition
  let kept ← int32 (actpostrig + trigPosition)
  let samplestrt ← int32 (shotlength - kept)
  let stop ← int32 (samplestrt + bufSizeSamples)
  let samples ← (if stop > shotlength then int32 (shotlength - samplestrt) else some bufSizeSamples)
  let start := BitVec.ofInt 32 (samplestrt.tdiv 32) &&& vd80BlockMask
  let tpos ← int32 (actpretrig - start.toNat * 32)
  let len := if samples < 32 then 0 else BitVec.ofInt 32 ((samples - 1).tdiv 32)
  pure { trigPosition := tpos, samples := samples, mcr1 := start, mcr2 := len &&& vd80BlockMask }

/-! ## The ioctls -/

def vd80CommandRead : BitVec 32 := 4
def vd80CommandSubstop : BitVec 32 := 8
def vd80CommandStop : BitVec 32 := 0xe
def vd80CommandMask : BitVec 32 := 0xf
def vd80OperantMask : BitVec 32 := 0xf <<< 4

/-- `((chn - 1) << VD80_OPERANT_SHIFT) & VD80_OPERANT_MASK`: the shift is of an `int` that is not negative. -/
def operant (chn : ℤ) : Option (BitVec 32) := do
  let c ← int32 (chn - 1)
  let shifted ← (if c < 0 then none else int32 (c * 16))
  pure (BitVec.ofInt 32 shifted &&& vd80OperantMask)

/-- The wait for the idle state after a stop only reads. -/
def setCommand : Command (BitVec 32) := fun mcon lval =>
  let tval := lval &&& vd80CommandMask
  let tval := if tval = vd80CommandRead then tval ||| (lval &&& vd80OperantMask) else tval
  (.ok, setReg vd80GCR1 tval mcon, lval)

structure Vd80SampleBuf where
  channel : ℤ
  bufSizeSamples : ℤ
  trigPosition : ℤ
  samples : ℤ
  preTrigStat : ℤ
  /-- What has been written, from the start of the buffer; `none` is a sample that the shot does not define. -/
  sampleBuf : List (Option (BitVec 16))

/-- The samples that the module holds, by the operand of the read command, and whether `vme_do_dma` fails. -/
structure Device where
  shot : ℕ → ℕ → BitVec 16
  dmaFails : Bool

/-- The `k`th sample that the module gives after a read command. -/
def delivered (dev : Device) (mcon : SkelDrvrModuleContext) (k : ℕ) : Option (BitVec 16) :=
  if k < 32 * ((getReg vd80MCR2 mcon).toNat + 1) then
    some (dev.shot ((getReg vd80GCR1 mcon).toNat / 16 % 16) (32 * (getReg vd80MCR1 mcon).toNat + k))
  else none

inductive ReadOutcome
  | ok
  /-- "No postsamples have been set:No data to read" -/
  | noPostsamples
  /-- "SkelUserIoctl:Error vme_do_dma" -/
  | dmaError
deriving DecidableEq

structure ReadReply where
  outcome : ReadOutcome
  mcon : SkelDrvrModuleContext
  sbuf : Vd80SampleBuf

def sawTooth (i : ℕ) : Option (BitVec 16) := some (BitVec.ofNat 16 (i % 256))

/-- `none` where a sum does not fit. -/
def readSample (dev : Device) (mcon : SkelDrvrModuleContext) (sbuf : Vd80SampleBuf) : Option ReadReply :=
  if mcon.emulation then
    some { outcome := .ok, mcon := mcon, sbuf := { sbuf with
      samples := sbuf.bufSizeSamples, sampleBuf := (List.range sbuf.bufSizeSamples.toNat).map sawTooth } }
  else if getReg vd80TCR2 mcon = 0 then some { outcome := .noPostsamples, mcon := mcon, sbuf := sbuf }
  else do
    let mcon := setReg vd80GCR1 vd80CommandStop (setReg vd80GCR1 vd80CommandSubstop mcon)
    let actpostrig : ℤ := (getReg vd80TSR mcon &&& vd80CountMask).toNat
    let shotlength : ℤ := (getReg vd80SSR mcon &&& vd80CountMask).toNat
    let window ← readWindow shotlength actpostrig sbuf.trigPosition sbuf.bufSizeSamples
    let op ← operant sbuf.channel
    let started := setReg vd80GCR1 (vd80CommandRead ||| op)
      (setReg vd80MCR2 window.mcr2 (setReg vd80MCR1 window.mcr1 mcon))
    let sbuf := { sbuf with preTrigStat := (getReg vd80PTSR mcon).toInt, trigPosition := window.trigPosition }
    if 0 < window.samples ∧ dev.dmaFails then
      some { outcome := .dmaError, mcon := started, sbuf := { sbuf with samples := window.samples } }
    else
      some { outcome := .ok, mcon := started, sbuf := { sbuf with
        samples := window.samples.toNat
        sampleBuf := (List.range window.samples.toNat).map (delivered dev started) } }

/-- `SkelDrvrIoctl` for `READ_SAMPLE`. -/
def readSampleIoctl (dev : Device) (d : Driver) (sbuf : Vd80SampleBuf) : Option (Bool × Driver × Vd80SampleBuf) :=
  match d.modules d.moduleNumber with
  | none => some (false, d, sbuf)
  | some mcon =>
    if (enter d.little d.emulation mcon).1 then do
      let reply ← readSample dev (enter d.little d.emulation mcon).2 sbuf
      pure (decide (reply.outcome = .ok), d.put reply.mcon, reply.sbuf)
    else some (false, d.put (enter d.little d.emulation mcon).2, sbuf)

/-! ## The library -/

structure Vd80Buffer where
  /-- What has been written at `Addr`. -/
  addr : List (Option (BitVec 16))
  bSze : ℤ
  post : ℤ
  tpos : ℤ
  aSze : ℤ
  ptsr : ℤ

/-- `DoCommand` for a read. -/
def doReadCommand (d : Driver) (mod chn : ℤ) : Option (Vd80Err × Driver) :=
  let set := setModule d mod
  if set.1 = .success then do
    let op ← operant chn
    pure (orIo (ioctl setCommand set.2 (vd80CommandRead ||| op)))
  else some set

def vd80GetBuffer (dev : Device) (d : Driver) (mod chn : ℤ) (buf : Vd80Buffer) :
    Option (Vd80Err × Driver × Vd80Buffer) := do
  let sent ← doReadCommand d mod chn
  if sent.1 = .success then
    let left ← int32 (buf.bSze - buf.post)
    let tps ← int32 (left - 1)
    let sbuf : Vd80SampleBuf :=
      { channel := chn, bufSizeSamples := buf.bSze, trigPosition := if tps < 0 then 0 else tps, samples := 0
        preTrigStat := 0, sampleBuf := buf.addr }
    let reply ← readSampleIoctl dev sent.2 sbuf
    if reply.1 then
      pure (.success, reply.2.1, { buf with
        addr := reply.2.2.sampleBuf, tpos := reply.2.2.trigPosition, aSze := reply.2.2.samples,
        ptsr := reply.2.2.preTrigStat })
    else pure (.io, reply.2.1, buf)
  else pure (sent.1, sent.2, buf)

/-! ## The arithmetic of the window -/

section Arithmetic
variable {x : ℤ}

theorem int32_eq (hge : -2 ^ 31 ≤ x) (hlt : x < 2 ^ 31) : int32 x = some x := if_pos ⟨hge, hlt⟩

theorem int32_none (h : 2 ^ 31 ≤ x) : int32 x = none := if_neg fun hin => by omega

/-- A number of blocks in the bits that the registers have for it. -/
theorem blocks_toNat (h0 : 0 ≤ x) (hlt : x < 2 ^ 31) :
    (BitVec.ofInt 32 (x.tdiv 32) &&& vd80BlockMask).toNat = x.toNat / 32 % 2 ^ 19 := by
  have hmask : vd80BlockMask.toNat = 2 ^ 19 - 1 := rfl
  have hdiv : x.tdiv 32 = x / 32 := Int.tdiv_eq_ediv_of_nonneg h0
  rw [BitVec.toNat_and, hmask, Nat.and_two_pow_sub_one_eq_mod, BitVec.toNat_ofInt, hdiv]
  omega

variable {shotlength actpostrig trigPosition bufSizeSamples : ℤ}

theorem readWindow_eq (hpost : 1 ≤ actpostrig) (hle : actpostrig ≤ shotlength) (hshot : shotlength < 2 ^ 25)
    (htrig : 0 ≤ trigPosition) (hsize : 1 ≤ bufSizeSamples)
    (hfits : shotlength - actpostrig - min trigPosition (shotlength - actpostrig) + bufSizeSamples < 2 ^ 31) :
    ∃ w, readWindow shotlength actpostrig trigPosition bufSizeSamples = some w ∧
      w.samples = min bufSizeSamples (actpostrig + min trigPosition (shotlength - actpostrig)) ∧
      (w.mcr1.toNat : ℤ) =
        (shotlength - actpostrig - min trigPosition (shotlength - actpostrig)) / 32 % 2 ^ 19 ∧
      (w.mcr2.toNat : ℤ) = (w.samples - 1) / 32 % 2 ^ 19 ∧
      w.trigPosition = shotlength - actpostrig - 32 * w.mcr1.toNat := by
  set pre := shotlength - actpostrig with hpre
  set keep := min trigPosition pre with hkeep
  have hmin : (if trigPosition > pre then pre else trigPosition) = keep := by split_ifs <;> omega
  have hstart : shotlength - (actpostrig + keep) = pre - keep := by omega
  have hsamples : (if pre - keep + bufSizeSamples > shotlength then int32 (shotlength - (pre - keep))
      else some bufSizeSamples) = some (min bufSizeSamples (actpostrig + keep)) := by
    split_ifs with hlong
    · rw [int32_eq (by omega) (by omega)]
      exact congrArg some (by omega)
    · exact congrArg some (by omega)
  have hblocks := blocks_toNat (x := pre - keep) (by omega) (by omega)
  have hlen := blocks_toNat (x := min bufSizeSamples (actpostrig + keep) - 1) (by omega) (by omega)
  unfold readWindow
  rw [← hpre, int32_eq (by omega) (by omega), Option.bind_eq_bind, Option.bind_some]
  simp only [hmin]
  rw [int32_eq (by omega) (by omega), Option.bind_some, hstart, int32_eq (by omega) (by omega), Option.bind_some,
    int32_eq (by omega) hfits, Option.bind_some, hsamples, Option.bind_some, int32_eq (by omega) (by omega),
    Option.bind_some]
  refine ⟨_, rfl, rfl, ?_, ?_, ?_⟩
  · dsimp only
    rw [hblocks]
    omega
  · dsimp only
    split_ifs with hshort
    · have hzero : ((0 : BitVec 32) &&& vd80BlockMask).toNat = 0 := rfl
      rw [hzero]
      omega
    · rw [hlen]
      omega
  · dsimp only
    omega

theorem readWindow_none (hpost : 1 ≤ actpostrig) (hle : actpostrig ≤ shotlength) (hshot : shotlength < 2 ^ 25)
    (htrig : 0 ≤ trigPosition)
    (hover : 2 ^ 31 ≤ shotlength - actpostrig - min trigPosition (shotlength - actpostrig) + bufSizeSamples) :
    readWindow shotlength actpostrig trigPosition bufSizeSamples = none := by
  set pre := shotlength - actpostrig with hpre
  set keep := min trigPosition pre with hkeep
  have hmin : (if trigPosition > pre then pre else trigPosition) = keep := by split_ifs <;> omega
  have hstart : shotlength - (actpostrig + keep) = pre - keep := by omega
  unfold readWindow
  rw [← hpre, int32_eq (by omega) (by omega), Option.bind_eq_bind, Option.bind_some]
  simp only [hmin]
  rw [int32_eq (by omega) (by omega), Option.bind_some, hstart, int32_eq (by omega) (by omega), Option.bind_some,
    int32_none hover, Option.bind_none]

theorem operant_eq {chn : ℤ} (hpos : 1 ≤ chn) (hle : chn ≤ 2 ^ 27) :
    ∃ op, operant chn = some op ∧ op.toNat = 16 * ((chn - 1).toNat % 16) := by
  have hneg : ¬chn - 1 < 0 := by omega
  refine ⟨BitVec.ofInt 32 ((chn - 1) * 16) &&& vd80OperantMask, ?_, ?_⟩
  · rw [operant, int32_eq (by omega) (by omega), Option.bind_eq_bind, Option.bind_some, if_neg hneg,
      int32_eq (by omega) (by omega)]
    rfl
  · have hword : BitVec.ofInt 32 ((chn - 1) * 16) = BitVec.ofNat 32 (chn - 1).toNat <<< 4 := by
      apply BitVec.eq_of_toNat_eq
      rw [BitVec.toNat_ofInt, BitVec.toNat_shiftLeft, BitVec.toNat_ofNat, Nat.shiftLeft_eq]
      omega
    have hmask : vd80OperantMask = (0xf : BitVec 32) <<< 4 := rfl
    have hlow : (0xf : BitVec 32).toNat = 2 ^ 4 - 1 := rfl
    rw [hword, hmask, ← BitVec.shiftLeft_and_distrib, BitVec.toNat_shiftLeft, BitVec.toNat_and, hlow,
      Nat.and_two_pow_sub_one_eq_mod, BitVec.toNat_ofNat, Nat.shiftLeft_eq]
    omega

theorem operant_none {chn : ℤ} (h : ¬(1 ≤ chn ∧ chn ≤ 2 ^ 27)) : operant chn = none := by
  unfold operant
  by_cases hlow : chn - 1 < 0
  · unfold int32
    split_ifs
    · simp [hlow]
    · simp
  · by_cases hin : chn - 1 < 2 ^ 31
    · rw [int32_eq (by omega) hin, Option.bind_eq_bind, Option.bind_some, if_neg hlow, int32_none (by omega),
        Option.bind_none]
    · rw [int32_none (by omega), Option.bind_eq_bind, Option.bind_none]

/-- The operand that the module takes from the read command. -/
theorem read_operant {op : BitVec 32} {c : ℕ} (hop : op.toNat = 16 * c) (hc : c < 16) :
    (vd80CommandRead ||| op).toNat / 16 % 16 = c := by
  have hread : vd80CommandRead.toNat = 4 := rfl
  have hshift : 16 * c = c <<< 4 := by rw [Nat.shiftLeft_eq]; omega
  have hor : (4 ||| c <<< 4) >>> 4 = c := by
    rw [Nat.shiftRight_or_distrib, Nat.shiftLeft_shiftRight]
    exact Nat.zero_or c
  rw [BitVec.toNat_or, hread, hop, hshift, show (4 ||| c <<< 4) / 16 = (4 ||| c <<< 4) >>> 4 from
    (Nat.shiftRight_eq_div_pow _ 4).symm, hor, Nat.mod_eq_of_lt hc]

end Arithmetic

/-! ## The transfer -/

section Transfer
variable {dev : Device} {mcon : SkelDrvrModuleContext} {sbuf : Vd80SampleBuf}

/-- The samples of a shot before the trigger, and from it on. -/
structure Shot (mcon : SkelDrvrModuleContext) (shotlength actpostrig : ℤ) : Prop where
  length : ((seen false mcon vd80SSR &&& vd80CountMask).toNat : ℤ) = shotlength
  post : ((seen false mcon vd80TSR &&& vd80CountMask).toNat : ℤ) = actpostrig
  pos : 1 ≤ actpostrig
  le : actpostrig ≤ shotlength

variable {shotlength actpostrig : ℤ}

theorem Shot.lt (h : Shot mcon shotlength actpostrig) : shotlength < 2 ^ 25 := by
  have hmask : vd80CountMask.toNat = 2 ^ 25 - 1 := rfl
  rw [← h.length, BitVec.toNat_and, hmask, Nat.and_two_pow_sub_one_eq_mod]
  omega

/-- The registers other than the command and the bus are as they were. -/
def SameCounts (mcon mcon' : SkelDrvrModuleContext) : Prop :=
  Ready false mcon' ∧ ∀ offset, offset / 4 ≠ vd80GCR1 / 4 → offset / 4 ≠ vd80GCR2 / 4 →
    seen false mcon' offset = seen false mcon offset

theorem sameCounts_enter (hready : Ready false mcon) (little : Bool) :
    SameCounts mcon (enter little false mcon).2 := by
  refine ⟨(hready.entered little).2.2, fun offset _ hgcr => ?_⟩
  rw [seen_of_eq (hready.entered little).2.1, hready.enter_getReg_ne hgcr]

theorem SameCounts.trans {a b c : SkelDrvrModuleContext} (hab : SameCounts a b) (hbc : SameCounts b c) :
    SameCounts a c :=
  ⟨hbc.1, fun offset h1 h2 => (hbc.2 offset h1 h2).trans (hab.2 offset h1 h2)⟩

theorem sameCounts_command {valu : BitVec 32} (hready : Ready false mcon) (hsame : mcon.emulation = false) :
    SameCounts mcon (setReg vd80GCR1 valu mcon) := by
  refine ⟨⟨hready.hardware, hready.space⟩, fun offset hgcr _ => ?_⟩
  rw [seen_of_eq (by rw [setReg_emulation, hsame]), getReg_setReg_ne hgcr, seen_of_eq hsame]

/-- The commands that bring the module to the idle state. -/
def stopped (mcon : SkelDrvrModuleContext) : SkelDrvrModuleContext :=
  setReg vd80GCR1 vd80CommandStop (setReg vd80GCR1 vd80CommandSubstop mcon)

def started (w : Window) (op : BitVec 32) (mcon : SkelDrvrModuleContext) : SkelDrvrModuleContext :=
  setReg vd80GCR1 (vd80CommandRead ||| op) (setReg vd80MCR2 w.mcr2 (setReg vd80MCR1 w.mcr1 (stopped mcon)))

theorem sameCounts_stopped (hready : Ready false mcon) (hsame : mcon.emulation = false) :
    SameCounts mcon (stopped mcon) :=
  (sameCounts_command hready hsame).trans (sameCounts_command ⟨hready.hardware, hready.space⟩ hsame)

theorem Shot.of_sameCounts {mcon' : SkelDrvrModuleContext} (h : Shot mcon shotlength actpostrig)
    (hsame : SameCounts mcon mcon') : Shot mcon' shotlength actpostrig := by
  refine ⟨?_, ?_, h.pos, h.le⟩
  · rw [hsame.2 vd80SSR (by decide) (by decide), h.length]
  · rw [hsame.2 vd80TSR (by decide) (by decide), h.post]

theorem readSample_rejected (hsame : mcon.emulation = false) (hset : getReg vd80TCR2 mcon = 0) :
    readSample dev mcon sbuf = some { outcome := .noPostsamples, mcon := mcon, sbuf := sbuf } := by
  rw [readSample, hsame, if_neg Bool.false_ne_true, if_pos hset]

theorem readSample_none (hready : Ready false mcon) (hsame : mcon.emulation = false)
    (hset : getReg vd80TCR2 mcon ≠ 0) (hshot : Shot mcon shotlength actpostrig)
    (hnone : readWindow shotlength actpostrig sbuf.trigPosition sbuf.bufSizeSamples = none) :
    readSample dev mcon sbuf = none := by
  have hidle := hshot.of_sameCounts (sameCounts_stopped hready hsame)
  have hlength := hidle.length
  have hpost := hidle.post
  rw [seen_of_eq (by exact hsame)] at hlength hpost
  unfold stopped at hlength hpost
  rw [readSample, hsame, if_neg Bool.false_ne_true, if_neg hset]
  simp only [hlength, hpost, hnone, Option.bind_eq_bind, Option.bind_none]

theorem readSample_some {w : Window} {op : BitVec 32} (hready : Ready false mcon) (hsame : mcon.emulation = false)
    (hset : getReg vd80TCR2 mcon ≠ 0) (hshot : Shot mcon shotlength actpostrig)
    (hw : readWindow shotlength actpostrig sbuf.trigPosition sbuf.bufSizeSamples = some w)
    (hop : operant sbuf.channel = some op) (hdma : dev.dmaFails = false) :
    ∃ sbuf', readSample dev mcon sbuf = some { outcome := .ok, mcon := started w op mcon, sbuf := sbuf' } ∧
      sbuf'.trigPosition = w.trigPosition ∧ sbuf'.samples = w.samples.toNat ∧
      sbuf'.sampleBuf = (List.range w.samples.toNat).map (delivered dev (started w op mcon)) := by
  have hidle := hshot.of_sameCounts (sameCounts_stopped hready hsame)
  have hlength := hidle.length
  have hpost := hidle.post
  rw [seen_of_eq (by exact hsame)] at hlength hpost
  unfold stopped at hlength hpost
  have hdone : ¬(0 < w.samples ∧ dev.dmaFails = true) := by simp [hdma]
  rw [readSample, hsame, if_neg Bool.false_ne_true, if_neg hset]
  simp only [hlength, hpost, hw, hop, Option.bind_eq_bind, Option.bind_some, if_neg hdone]
  exact ⟨_, rfl, rfl, rfl, rfl⟩

theorem started_mcr1 {w : Window} {op : BitVec 32} : getReg vd80MCR1 (started w op mcon) = w.mcr1 := by
  rw [started, getReg_setReg_ne (by decide), getReg_setReg_ne (by decide), getReg_setReg_self]

theorem started_mcr2 {w : Window} {op : BitVec 32} : getReg vd80MCR2 (started w op mcon) = w.mcr2 := by
  rw [started, getReg_setReg_ne (by decide), getReg_setReg_self]

theorem delivered_started {w : Window} {op : BitVec 32} {c k : ℕ} (hop : op.toNat = 16 * c) (hc : c < 16)
    (hk : k < 32 * (w.mcr2.toNat + 1)) :
    delivered dev (started w op mcon) k = some (dev.shot c (32 * w.mcr1.toNat + k)) := by
  have hcommand : getReg vd80GCR1 (started w op mcon) = vd80CommandRead ||| op := by rw [started, getReg_setReg_self]
  rw [delivered, started_mcr2, started_mcr1, hcommand, if_pos hk, read_operant hop hc]

end Transfer

/-! ## A call of the library -/

/-- The buffer and the registers after a call that has read consecutive samples of the shot. -/
structure InWindow (dev : Device) (shotlength actpostrig bSze chn : ℤ) (mcon : SkelDrvrModuleContext)
    (buf : Vd80Buffer) : Prop where
  count : 1 ≤ buf.aSze ∧ buf.aSze ≤ bSze
  samples : buf.addr = (List.range buf.aSze.toNat).map fun k =>
    some (dev.shot ((chn - 1).toNat % 16) (32 * (getReg vd80MCR1 mcon).toNat + k))
  inShot : 32 * (getReg vd80MCR1 mcon).toNat + buf.aSze ≤ shotlength
  inBlocks : buf.aSze ≤ 32 * ((getReg vd80MCR2 mcon).toNat + 1)
  trigger : 0 ≤ buf.tpos ∧ buf.tpos < buf.aSze
  position : 32 * (getReg vd80MCR1 mcon).toNat + buf.tpos = shotlength - actpostrig

def GetsWindow (dev : Device) (d : Driver) (mod chn : ℤ) (buf : Vd80Buffer) (shotlength actpostrig : ℤ) : Prop :=
  ∃ d' mcon' buf', vd80GetBuffer dev d mod chn buf = some (.success, d', buf') ∧ d'.modules mod = some mcon' ∧
    InWindow dev shotlength actpostrig buf.bSze chn mcon' buf'

/-- The pre-trigger samples that a request keeps: those that its buffer has room for before the trigger, where the shot
has them. -/
def keep (pre bSze post : ℤ) : ℤ := min (max (bSze - post - 1) 0) pre

/-- The requests that are served as they should be. -/
structure Served (tcr2 : BitVec 32) (shotlength actpostrig bSze post chn : ℤ) : Prop where
  postsamples : tcr2 ≠ 0
  channel : 1 ≤ chn ∧ chn ≤ 2 ^ 27
  size : shotlength - actpostrig - keep (shotlength - actpostrig) bSze post + bSze < 2 ^ 31
  start : shotlength - actpostrig - keep (shotlength - actpostrig) bSze post < 2 ^ 24
  count : min bSze (actpostrig + keep (shotlength - actpostrig) bSze post) ≤ 2 ^ 24
  /-- The trigger is still in the buffer once the start has been rounded down to a block. -/
  trigger : keep (shotlength - actpostrig) bSze post +
      (shotlength - actpostrig - keep (shotlength - actpostrig) bSze post) % 32 <
    min bSze (actpostrig + keep (shotlength - actpostrig) bSze post)

section Calls
variable {dev : Device} {d : Driver} {mod chn : ℤ} {buf : Vd80Buffer} {mcon : SkelDrvrModuleContext}
  {shotlength actpostrig : ℤ}

/-- The module of a call, on its hardware. -/
structure Reachable (d : Driver) (mod : ℤ) (mcon : SkelDrvrModuleContext) : Prop where
  hardware : d.emulation = false
  pos : 1 ≤ mod
  le : mod ≤ d.installedModules
  found : d.modules mod = some mcon
  ready : Ready false mcon

theorem doReadCommand_none (hin : Reachable d mod mcon) (h : operant chn = none) :
    doReadCommand d mod chn = none := by
  rw [doReadCommand, setModule_eq hin.pos hin.le hin.found]
  simp [h]

/-- After the read command the module is selected, and its counts are as they were. -/
theorem doReadCommand_some {op : BitVec 32} (hin : Reachable d mod mcon) (h : operant chn = some op) :
    ∃ d₁ mcon₁, doReadCommand d mod chn = some (.success, d₁) ∧ d₁.emulation = false ∧ d₁.moduleNumber = mod ∧
      d₁.modules mod = some mcon₁ ∧ SameCounts mcon mcon₁ := by
  obtain ⟨henter, hsame, hready⟩ := hin.ready.entered d.little
  obtain ⟨valu, hvalu⟩ : ∃ valu, ∀ m, setCommand m (vd80CommandRead ||| op) =
      (.ok, setReg vd80GCR1 valu m, vd80CommandRead ||| op) := ⟨_, fun _ => rfl⟩
  have hioctl : ioctl setCommand { d with moduleNumber := mod } (vd80CommandRead ||| op) =
      (true, Driver.put { d with moduleNumber := mod } (setReg vd80GCR1 valu (enter d.little false mcon).2),
        vd80CommandRead ||| op) := by
    have hfound : Driver.modules { d with moduleNumber := mod } mod = some mcon := hin.found
    rw [ioctl_eq hfound, skelUserIoctls, hin.hardware, if_pos henter, hvalu]
    rfl
  refine ⟨Driver.put { d with moduleNumber := mod } (setReg vd80GCR1 valu (enter d.little false mcon).2), _, ?_,
    hin.hardware, rfl, Function.update_self _ _ _,
    (sameCounts_enter hin.ready d.little).trans (sameCounts_command hready hsame)⟩
  rw [doReadCommand, setModule_eq hin.pos hin.le hin.found, if_pos rfl, h]
  simp only [Option.bind_eq_bind, Option.bind_some, hioctl]
  rfl

/-- What the library asks the driver for. -/
def request (chn : ℤ) (buf : Vd80Buffer) : Vd80SampleBuf :=
  { channel := chn, bufSizeSamples := buf.bSze
    trigPosition := if buf.bSze - buf.post - 1 < 0 then 0 else buf.bSze - buf.post - 1
    samples := 0, preTrigStat := 0, sampleBuf := buf.addr }

theorem vd80GetBuffer_eq (dev : Device) {d₁ : Driver} (hsize : 1 ≤ buf.bSze) (hsize' : buf.bSze < 2 ^ 31)
    (hpost : 0 ≤ buf.post) (hpost' : buf.post < 2 ^ 31) (hsent : doReadCommand d mod chn = some (.success, d₁)) :
    vd80GetBuffer dev d mod chn buf =
      (readSampleIoctl dev d₁ (request chn buf)).map fun reply =>
        if reply.1 then
          (.success, reply.2.1, { buf with
            addr := reply.2.2.sampleBuf, tpos := reply.2.2.trigPosition, aSze := reply.2.2.samples,
            ptsr := reply.2.2.preTrigStat })
        else (.io, reply.2.1, buf) := by
  have hleft : int32 (buf.bSze - buf.post) = some (buf.bSze - buf.post) := int32_eq (by omega) (by omega)
  have htps : int32 (buf.bSze - buf.post - 1) = some (buf.bSze - buf.post - 1) := int32_eq (by omega) (by omega)
  unfold request
  simp only [vd80GetBuffer, hsent, Option.bind_eq_bind, Option.bind_some, if_true, hleft, htps]
  cases readSampleIoctl dev d₁ _ with
  | none => rfl
  | some reply =>
    rw [Option.bind_some, Option.map_some]
    cases reply.1 <;> rfl

/-- The ioctl of the call, once the read command has gone through. -/
theorem readSampleIoctl_eq (dev : Device) {d₁ : Driver} {mcon₁ : SkelDrvrModuleContext} (sbuf : Vd80SampleBuf)
    (hhardware : d₁.emulation = false) (hmcon : d₁.modules d₁.moduleNumber = some mcon₁) (hready : Ready false mcon₁) :
    readSampleIoctl dev d₁ sbuf =
      (readSample dev (enter d₁.little false mcon₁).2 sbuf).map fun reply =>
        (decide (reply.outcome = .ok), d₁.put reply.mcon, reply.sbuf) := by
  rw [readSampleIoctl, hmcon]
  simp only [hhardware, (hready.entered d₁.little).1, if_true]
  cases readSample dev (enter d₁.little false mcon₁).2 sbuf <;> rfl

theorem request_trigPosition : (request chn buf).trigPosition = max (buf.bSze - buf.post - 1) 0 := by
  unfold request
  dsimp only
  split_ifs <;> omega

/-- A shot is read as it should be exactly for the requests of `Served`. -/
theorem getsWindow_iff (hin : Reachable d mod mcon) (hshot : Shot mcon shotlength actpostrig) (hsize : 1 ≤ buf.bSze)
    (hsize' : buf.bSze < 2 ^ 31) (hpost : 0 ≤ buf.post) (hpost' : buf.post < 2 ^ 31) (hdma : dev.dmaFails = false) :
    GetsWindow dev d mod chn buf shotlength actpostrig ↔
      Served (seen false mcon vd80TCR2) shotlength actpostrig buf.bSze buf.post chn := by
  have hlt := hshot.lt
  have hpos := hshot.pos
  have hle := hshot.le
  by_cases hchn : 1 ≤ chn ∧ chn ≤ 2 ^ 27
  swap
  · have hnone : vd80GetBuffer dev d mod chn buf = none := by
      rw [vd80GetBuffer, doReadCommand_none hin (operant_none hchn)]
      rfl
    constructor
    · rintro ⟨d', mcon', buf', hget, -⟩
      rw [hnone] at hget
      exact absurd hget (by simp)
    · exact fun hserved => absurd hserved.channel hchn
  obtain ⟨op, hop, hopval⟩ := operant_eq hchn.1 hchn.2
  obtain ⟨d₁, mcon₁, hsent, hhardware, hnumber, hmcon₁, hsame₁⟩ := doReadCommand_some hin hop
  -- What the ioctl finds: the counts of the module as they were before the call.
  have hsame := hsame₁.trans (sameCounts_enter hsame₁.1 d₁.little)
  have hmode := (hsame₁.1.entered d₁.little).2.1
  have hshot' := hshot.of_sameCounts hsame
  have htcr2 : getReg vd80TCR2 (enter d₁.little false mcon₁).2 = seen false mcon vd80TCR2 := by
    rw [← seen_of_eq hmode, hsame.2 vd80TCR2 (by decide) (by decide)]
  rw [← hnumber] at hmcon₁
  have hread := readSampleIoctl_eq dev (request chn buf) hhardware hmcon₁ hsame₁.1
  have hcall := vd80GetBuffer_eq dev hsize hsize' hpost hpost' hsent
  rw [hread] at hcall
  by_cases hset : seen false mcon vd80TCR2 = 0
  · rw [readSample_rejected hmode (htcr2.trans hset)] at hcall
    constructor
    · rintro ⟨d', mcon', buf', hget, -⟩
      rw [hcall] at hget
      exact absurd hget (by simp)
    · exact fun hserved => absurd hset hserved.postsamples
  have htrig : (request chn buf).trigPosition = max (buf.bSze - buf.post - 1) 0 := request_trigPosition
  have hset' : getReg vd80TCR2 (enter d₁.little false mcon₁).2 ≠ 0 := by rw [htcr2]; exact hset
  by_cases hfits : shotlength - actpostrig - keep (shotlength - actpostrig) buf.bSze buf.post + buf.bSze < 2 ^ 31
  swap
  · have hnone : readWindow shotlength actpostrig (request chn buf).trigPosition (request chn buf).bufSizeSamples =
        none := readWindow_none hpos hle hlt (by omega) (by rw [htrig]; exact not_lt.mp hfits)
    rw [readSample_none hsame.1 hmode hset' hshot' hnone] at hcall
    constructor
    · rintro ⟨d', mcon', buf', hget, -⟩
      rw [hcall] at hget
      exact absurd hget (by simp)
    · exact fun hserved => absurd hserved.size hfits
  have htrig0 : 0 ≤ (request chn buf).trigPosition := by omega
  obtain ⟨w, hw, hwsamples, hwstart, hwlen, hwtrig⟩ := readWindow_eq hpos hle hlt htrig0
    (show 1 ≤ (request chn buf).bufSizeSamples from hsize) (by rw [htrig]; exact hfits)
  obtain ⟨sbuf', hsample, htpos, hcount, hbuf⟩ :=
    readSample_some hsame.1 hmode hset' hshot' hw hop hdma
  rw [hsample] at hcall
  rw [htrig] at hwsamples hwstart
  change w.samples = min buf.bSze (actpostrig + keep (shotlength - actpostrig) buf.bSze buf.post) at hwsamples
  change (w.mcr1.toNat : ℤ) = (shotlength - actpostrig - keep (shotlength - actpostrig) buf.bSze buf.post) / 32 % 2 ^ 19
    at hwstart
  have hkeep : 0 ≤ keep (shotlength - actpostrig) buf.bSze buf.post ∧
      keep (shotlength - actpostrig) buf.bSze buf.post ≤ shotlength - actpostrig := by unfold keep; omega
  constructor
  · rintro ⟨d', mcon', buf', hget, hmcon', hwindow⟩
    rw [hcall, Option.map_some, Option.map_some, Option.some.injEq] at hget
    simp only [decide_true, if_true, Prod.mk.injEq, true_and] at hget
    obtain ⟨rfl, rfl⟩ := hget
    rw [← hnumber, Driver.put_modules, Option.some.injEq] at hmcon'
    subst hmcon'
    obtain ⟨-, -, -, hblocks, htrigger, -⟩ := hwindow
    dsimp only at hblocks htrigger
    rw [hcount, started_mcr2] at hblocks
    rw [hcount, htpos] at htrigger
    exact ⟨hset, hchn, hfits, by omega, by omega, by omega⟩
  · intro hserved
    obtain ⟨-, -, -, hstart, hcountle, htrigger⟩ := hserved
    refine ⟨_, started w op (enter d₁.little false mcon₁).2, _, hcall, ?_, ?_⟩
    · rw [← hnumber]
      exact Driver.put_modules
    · refine ⟨?_, ?_, ?_, ?_, ?_, ?_⟩ <;> dsimp only
      · omega
      · rw [hbuf, hcount, started_mcr1, Int.toNat_natCast]
        refine List.map_congr_left fun k hk => ?_
        have hklt := List.mem_range.mp hk
        exact delivered_started hopval (Nat.mod_lt _ (by decide)) (by omega)
      · rw [hcount, started_mcr1]
        omega
      · rw [hcount, started_mcr2]
        omega
      · rw [hcount, htpos]
        omega
      · rw [htpos, started_mcr1]
        omega

end Calls

/-- A module that holds a shot of `shotlength` samples, `actpostrig` of them from the trigger on. -/
def shotModule (shotlength actpostrig : BitVec 32) : SkelDrvrModuleContext :=
  { emulation := false, noHardware := false, registers := fun _ => 0, mapped := true
    map := fun i =>
      if i = vd80TCR2 / 4 then 31 else if i = vd80SSR / 4 then shotlength
        else if i = vd80TSR / 4 then actpostrig else 0 }

def shotDriver (shotlength actpostrig : BitVec 32) : Driver :=
  { modules := fun mod => if mod = 1 then some (shotModule shotlength actpostrig) else none
    installedModules := 1, moduleNumber := 1, emulation := false, little := true }

def countingDevice : Device := { shot := fun _ k => BitVec.ofNat 16 k, dmaFails := false }

def emptyBuffer (bSze post : ℤ) : Vd80Buffer :=
  { addr := [], bSze := bSze, post := post, tpos := 0, aSze := 0, ptsr := 0 }

theorem getsWindow_middle : GetsWindow countingDevice (shotDriver 2048 1024) 1 3 (emptyBuffer 512 300) 2048 1024 :=
  have hready : Ready false (shotModule 2048 1024) := ⟨.inr rfl, .inr rfl⟩
  have hin : Reachable (shotDriver 2048 1024) 1 (shotModule 2048 1024) := ⟨rfl, by decide, by decide, rfl, hready⟩
  (getsWindow_iff hin ⟨by decide, by decide, by decide, by decide⟩ (by decide) (by decide) (by decide)
    (by decide) rfl).mpr
    ⟨by decide, by decide, by decide, by decide, by decide, by decide⟩

/-- One sample, wanted from a start that is not at a block: the trigger is behind it. -/
theorem not_getsWindow_oneSample :
    ¬GetsWindow countingDevice (shotDriver 2048 1023) 1 1 (emptyBuffer 1 0) 2048 1023 := by
  rintro ⟨d', mcon', buf', hget, -, hwindow⟩
  have hrun : (vd80GetBuffer countingDevice (shotDriver 2048 1023) 1 1 (emptyBuffer 1 0)).map
      (fun r => (r.2.2.tpos, r.2.2.aSze)) = some (1, 1) := by decide +kernel
  rw [hget, Option.map_some, Option.some.injEq, Prod.mk.injEq] at hrun
  obtain ⟨htpos, hsize⟩ : buf'.tpos = 1 ∧ buf'.aSze = 1 := hrun
  have htrigger := hwindow.trigger.2
  omega

end HtDrivers.Vd80
