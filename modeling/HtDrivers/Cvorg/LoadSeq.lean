import HtDrivers.Cvorg.StoreSeq
import HtDrivers.Lib.Transition

/-! The ioctls that set a channel's gain and offset and load a sequence (`cvorg-skel.c`). Each runs under the module's
lock and on the channel that its client has selected. -/
namespace HtDrivers.Cvorg
set_option autoImplicit false

/-! ## Registers -/

def cvorgCtl : ℕ := 0x024

def cvorgCtlChanReset : U32 := 1 <<< 0

def cvorgCtlErrClear : U32 := 1 <<< 2

def cvorgCtlChanStop : U32 := 1 <<< 5

def cvorgCtlChanLoadseq : U32 := 1 <<< 8

def cvorgConfig : ℕ := 0x044

def cvorgConfigMode : U32 := 0xf

def cvorgConfigModeNormal : U32 := 0x1

def cvorgConfigSeqready : U32 := 1 <<< 4

def cvorgConfigOutOffset : U32 := 1 <<< 5

def cvorgConfigInpol : U32 := 1 <<< 6

def cvorgConfigOutGainShift : ℕ := 7

def cvorgConfigOutGainMask : U32 := 7 <<< 7

def cvorgConfigOutEnable : U32 := 1 <<< 10

/-! ## Waveforms as the user gives them -/

/-- `form` is the user's memory from the waveform's address on. -/
structure UserWv where
  recurr : U32
  size : U32
  dynamicGain : U32
  gainVal : ℤ
  form : ℕ → U16

structure UserSeq where
  nr : U32
  waves : List UserWv

/-- The points that `size` covers, after `normalize_wv`. -/
def UserWv.points (wv : UserWv) : List U16 := (List.range (wv.size.toNat / 2)).map fun i => normalizePoint (wv.form i)

def userGainStore (channel : CvorgChannel) (block : ℕ) (wv : UserWv) : CvorgChannel :=
  let offset := block + cvorgWfNextBlk
  let channel := cvorgAchan channel offset (~~~cvorgWfNextBlkConfGain)
  if wv.dynamicGain = 0 then channel
  else
    let val := cvorgGainToHw (cvorgGainApprox wv.gainVal)
    let channel := cvorgOchan channel offset cvorgWfNextBlkConfGain
    cvorgUchan channel offset (val <<< cvorgWfNextBlkGainShift) cvorgWfNextBlkGainMask

def userWvStore (channel : CvorgChannel) (block : ℕ) (wv : UserWv) : CvorgChannel :=
  let channel := cvorgWchan channel (block + cvorgWfLen) (BitVec.ofNat 32 (wv.size.toNat / 2))
  let channel := cvorgWchan channel (block + cvorgWfRecurr) wv.recurr
  userGainStore channel block wv

def storeUserWave (e : CvorgEndian) (nWaves : ℕ) (s : CvorgChannel × U32) (wv : UserWv × ℕ) : CvorgChannel × U32 :=
  let (wv, i) := wv
  let channel := sram e s.1 wv.points s.2
  let channel := if i > 0 then cvorgWvMarkPrev channel (prevBlockOffset i) i else channel
  let channel := cvorgWchan channel (blockOffset i + cvorgWfStart) s.2
  let channel := userWvStore channel (blockOffset i) wv
  let channel := if i = nWaves - 1 then cvorgWvMarkLast channel (blockOffset i) else channel
  (channel, s.2 + wv.size)

def loopSingleUser (seq : UserSeq) : UserSeq :=
  match seq.waves with
  | [wv] => { nr := 1, waves := [{ wv with recurr := wv.recurr * seq.nr }] }
  | _ => seq

/-- `__cvorg_storeseq` for the waveforms of a user. -/
def storeUserLoop (e : CvorgEndian) (channel : CvorgChannel) (seq : UserSeq) : CvorgChannel :=
  let seq := loopSingleUser seq
  (seq.waves.zipIdx.foldl (storeUserWave e seq.waves.length) (cvorgWchan channel cvorgSeqNr seq.nr, 0)).1

def userSeqSize (w : ℕ) (seq : UserSeq) : BitVec w := seq.waves.foldl (fun size wv => size + wv.size.setWidth w) 0

def storeUserSeq (w : ℕ) (e : CvorgEndian) (sramBusy : Bool) (channel : CvorgChannel) (seq : UserSeq) :
    Except Errno CvorgChannel :=
  if (userSeqSize w seq).toInt > cvorgSramSize then .error .enomem
  else if seq.waves.length ≤ 0 ∨ seq.waves.length > cvorgMaxSequences then .error .einval
  else if sramBusy then .error .eagain
  else .ok (storeUserLoop e channel seq)

section Forms
variable (w : ℕ) (e : CvorgEndian)

/-- A waveform whose size is that of its form. -/
def CvorgWv.user (wv : CvorgWv) : UserWv :=
  ⟨wv.recurr, wv.size, wv.dynamicGain, wv.gainVal, fun i => wv.form.getD i 0⟩

def CvorgSeq.user (seq : CvorgSeq) : UserSeq := ⟨seq.nr, seq.waves.map CvorgWv.user⟩

theorem points_user (wv : CvorgWv) : wv.user.points = wv.normalized := by
  have hsize := wv.size_lt
  have hlen : wv.user.size.toNat / 2 = wv.form.length := by
    show (BitVec.ofNat 32 (2 * wv.form.length)).toNat / 2 = wv.form.length
    rw [BitVec.toNat_ofNat, Nat.mod_eq_of_lt hsize]
    omega
  unfold UserWv.points CvorgWv.normalized
  rw [hlen]
  apply List.ext_getElem
  · simp
  · intro i hi hi'
    rw [List.length_map] at hi'
    simp [CvorgWv.user, hi']

theorem storeUserWave_user (n : ℕ) (s : CvorgChannel × U32) (wv : CvorgWv) (i : ℕ) :
    storeUserWave e n s (wv.user, i) = storeWave e n s (wv, i) := by
  simp only [storeUserWave, points_user]
  rfl

theorem loopSingleUser_user (seq : CvorgSeq) : loopSingleUser seq.user = (loopSingle seq).user := by
  obtain ⟨nr, waves⟩ := seq
  rcases waves with _ | ⟨wv, _ | ⟨wv', waves⟩⟩ <;> rfl

theorem storeUserLoop_user (channel : CvorgChannel) (seq : CvorgSeq) :
    storeUserLoop e channel seq.user = storeseqLoop e channel seq := by
  have hfold : ∀ (waves : List CvorgWv) (n k : ℕ) (s : CvorgChannel × U32),
      ((waves.map CvorgWv.user).zipIdx k).foldl (storeUserWave e n) s = (waves.zipIdx k).foldl (storeWave e n) s := by
    intro waves
    induction waves with
    | nil => intro n k s; rfl
    | cons wv waves ih =>
      intro n k s
      rw [List.map_cons, List.zipIdx_cons, List.zipIdx_cons, List.foldl_cons, List.foldl_cons, storeUserWave_user, ih]
  unfold storeUserLoop storeseqLoop
  simp only [loopSingleUser_user]
  simp only [CvorgSeq.user, hfold, List.length_map]

/-- Sequences of such waveforms are stored as before. -/
theorem storeUserSeq_user (sramBusy : Bool) (channel : CvorgChannel) (seq : CvorgSeq) :
    storeUserSeq w e sramBusy channel seq.user = cvorgStoreseq w e sramBusy channel seq := by
  have hsize : userSeqSize w seq.user = seqSize w seq := by
    unfold userSeqSize seqSize CvorgSeq.user
    rw [List.foldl_map]
    rfl
  have hlength : seq.user.waves.length = seq.waves.length := List.length_map ..
  unfold storeUserSeq cvorgStoreseq
  rw [hsize, hlength, storeUserLoop_user]

end Forms

/-! ## The checks of a sequence -/

def cvorgOutOffset0V : U32 := 0

def cvorgOutOffset2_5V : U32 := 1

def cvorgInvalidGainOffset (gain : ℤ) (offset : U32) : Bool := decide (offset = cvorgOutOffset2_5V) &&
    decide (gain ≠ 14)

def cvorgCheckGainOffsetWv (outoff : U32) (wv : UserWv) : Bool :=
  decide (wv.dynamicGain ≠ 0) && cvorgInvalidGainOffset wv.gainVal outoff

/-- Frequencies in MHz with the points that are needed at least. -/
def cvorgFreqlimits : List (U32 × U32) :=
  [(1, 16), (10, 60), (25, 1250), (50, 3300), (60, 4700), (80, 9300), (100, 23200)]

def cvorgMustCheckFreqlimit (seq : UserSeq) : Bool := decide (seq.nr = 0) || decide (seq.waves.length > 2)

def cvorgFreqlimitRange (mhz : U32) : ℕ :=
  let freq := fun i => (cvorgFreqlimits.getD i (0, 0)).1
  match (List.range (cvorgFreqlimits.length - 1)).find? fun i => decide (freq i ≤ mhz) &&
    decide (mhz ≤ freq (i + 1)) with
  | some i => i
  | none => if mhz ≤ freq 0 then 0 else cvorgFreqlimits.length - 2

/-- Whether the points are too few at the frequency. -/
def cvorgFreqlimitCheck (length hz : U32) : Bool :=
  let mhz := hz / 1000000 + if hz % 1000000 ≠ 0 then 1 else 0
  let i := cvorgFreqlimitRange mhz
  let (x1, y1) := cvorgFreqlimits.getD i (0, 0)
  let (x2, y2) := cvorgFreqlimits.getD (i + 1) (0, 0)
  let m := (y2 - y1) / (x2 - x1)
  let minimum := if m = 0 then y2 else m * (mhz - x1) + y1
  decide (length < minimum)

def cvorgInvalidFreqlimit (sampfreq : U32) (seq : UserSeq) (wv : UserWv) : Bool :=
  if !cvorgMustCheckFreqlimit seq || decide (wv.recurr = 0) then false
  else cvorgFreqlimitCheck (wv.recurr * wv.size / 2) sampfreq

/-- The tests that the loop of `cvorg_invalid_seq` makes of a waveform. -/
def cvorgInvalidWv (outoff sampfreq : U32) (seq : UserSeq) (wv : UserWv) : Bool :=
  cvorgCheckGainOffsetWv outoff wv || cvorgInvalidFreqlimit sampfreq seq wv ||
    decide (sampfreq > 50000000) && decide (wv.size / 2 < 2)

def cvorgInvalidSeq (outoff sampfreq : U32) (seq : UserSeq) : Bool :=
  seq.waves.isEmpty || seq.waves.any (cvorgInvalidWv outoff sampfreq seq)

/-! ## Channels -/

inductive CvorgInpol where
  | positivePulse | negativePulse
  deriving DecidableEq

/-- `struct cvorg_channel` with its registers and SRAM. `loaded` is the number of blocks of the sequence that the
module was last told to load, and 0 behind a reset of the FPGA. -/
structure CvorgContext where
  inpol : CvorgInpol
  outoff : U32
  outgain : ℤ
  outEnabled : Bool
  hw : CvorgChannel
  loaded : ℕ

inductive IoctlErrno where
  | ebusy | einval | efault | enomem | eagain
  deriving DecidableEq

def Errno.ioctl : Errno → IoctlErrno
  | .enomem => .enomem
  | .einval => .einval
  | .eagain => .eagain

def applyChannelInpol (channel : CvorgContext) : CvorgContext :=
  match channel.inpol with
  | .negativePulse => { channel with hw := cvorgOchan channel.hw cvorgConfig cvorgConfigInpol }
  | .positivePulse => { channel with hw := cvorgAchan channel.hw cvorgConfig (~~~cvorgConfigInpol) }

def applyChannelOutoff (channel : CvorgContext) : CvorgContext :=
  if channel.outoff = cvorgOutOffset0V then
    { channel with hw := cvorgAchan channel.hw cvorgConfig (~~~cvorgConfigOutOffset) }
  else { channel with hw := cvorgOchan channel.hw cvorgConfig cvorgConfigOutOffset }

def applyChannelOutgain (channel : CvorgContext) : CvorgContext :=
  let val := cvorgGainToHw channel.outgain <<< cvorgConfigOutGainShift
  { channel with hw := cvorgUchan channel.hw cvorgConfig val cvorgConfigOutGainMask }

def applyChannelOutEnable (channel : CvorgContext) : CvorgContext :=
  if channel.outEnabled then { channel with hw := cvorgOchan channel.hw cvorgConfig cvorgConfigOutEnable }
  else { channel with hw := cvorgAchan channel.hw cvorgConfig (~~~cvorgConfigOutEnable) }

def applyChannelCfg (channel : CvorgContext) : CvorgContext :=
  applyChannelOutEnable (applyChannelOutgain (applyChannelOutoff (applyChannelInpol channel)))

/-- A channel behind `__cvorg_reset`, where the reset of the FPGA left `hw`. -/
def resetChannel (hw : CvorgChannel) : CvorgContext :=
  applyChannelCfg
    { inpol := .positivePulse
      outoff := cvorgOutOffset0V
      outgain := 20
      outEnabled := false
      hw := cvorgWchan hw cvorgCtl cvorgCtlChanReset
      loaded := 0 }

/-! ## Ioctls -/

/-- `gs_outoff_ioctl` with `set`. -/
def gsOutoff (channel : CvorgContext) (offset : U32) : CvorgContext × Except IoctlErrno Unit :=
  if cvorgInvalidGainOffset channel.outgain offset then (channel, .error .einval)
  else
    let outoff := if offset = cvorgOutOffset2_5V then cvorgOutOffset2_5V else cvorgOutOffset0V
    (applyChannelOutoff { channel with outoff := outoff }, .ok ())

/-- `gs_inpol_ioctl` with `set`. -/
def gsInpol (channel : CvorgContext) (busy : Bool) (polarity : ℤ) : CvorgContext × Except IoctlErrno Unit :=
  if busy then (channel, .error .ebusy)
  else
    let inpol := if polarity ≠ 0 then CvorgInpol.negativePulse else .positivePulse
    (applyChannelInpol { channel with inpol := inpol }, .ok ())

/-- `cvorg_gs_outgain_ioctl` with `set`: the gain that is set goes back to the user. -/
def gsOutgain (channel : CvorgContext) (busy : Bool) (outgain : ℤ) : CvorgContext × Except IoctlErrno ℤ :=
  let gain := cvorgGainApprox outgain
  if busy then (channel, .error .ebusy)
  else if cvorgInvalidGainOffset gain channel.outoff then (channel, .error .einval)
  else (applyChannelOutgain { channel with outgain := gain }, .ok gain)

def cvorgOutEnable (channel : CvorgContext) (enable : ℤ) : CvorgContext :=
  applyChannelOutEnable { channel with outEnabled := decide (enable ≠ 0) }

def clearErrors (channel : CvorgContext) : CvorgContext :=
  { channel with hw := cvorgWchan channel.hw cvorgCtl cvorgCtlErrClear }

def quiesceChannel (channel : CvorgContext) : CvorgContext :=
  { channel with
    hw := cvorgWchan (cvorgAchan channel.hw cvorgConfig (~~~cvorgConfigSeqready)) cvorgCtl cvorgCtlChanStop }

/-- `n` blocks are to be played. -/
def playWv (channel : CvorgContext) (n : ℕ) : CvorgContext :=
  let cmd := cvorgConfigModeNormal ||| cvorgConfigSeqready
  { channel with
    hw := cvorgWchan (cvorgUchan channel.hw cvorgConfig cmd cvorgConfigMode) cvorgCtl cvorgCtlChanLoadseq
    loaded := n }

/-- What a load finds: the channel's status, the sampling frequency, why the copy of the sequence fails if it does,
whether the SRAM stays busy, and whether the gains can be written back. -/
structure LoadIo where
  ready : Bool
  sampfreq : U32
  seqInit : Option IoctlErrno
  sramBusy : Bool
  writeback : Bool

/-- The gains of the waveforms go back to the user, rounded where they are used. -/
def seqUserWriteback (seq : UserSeq) : List ℤ :=
  seq.waves.map fun wv => if wv.dynamicGain = 0 then wv.gainVal else cvorgGainApprox wv.gainVal

def cvorgLoadseq (w : ℕ) (e : CvorgEndian) (io : LoadIo) (channel : CvorgContext) (seq : UserSeq) :
    CvorgContext × Except IoctlErrno (List ℤ) :=
  let channel := clearErrors channel
  if !io.ready then (channel, .error .ebusy)
  else if cvorgInvalidSeq channel.outoff io.sampfreq seq then (channel, .error .einval)
  else match io.seqInit with
    | some errno => (channel, .error errno)
    | none =>
      let channel := quiesceChannel channel
      match storeUserSeq w e io.sramBusy channel.hw seq with
      | .error errno => (channel, .error errno.ioctl)
      | .ok hw =>
        let channel := playWv { channel with hw := hw } seq.waves.length
        (channel, if io.writeback then .ok (seqUserWriteback seq) else .error .efault)

/-! ## Clients -/

/-- The channels of a module, and which of them each client has selected. -/
structure CvorgChannels where
  channelNr : ℕ → Fin 2
  channels : Fin 2 → CvorgContext

inductive CvorgCommand where
  | setChannel (nr : ℤ)
  | setOutoff (offset : U32)
  | setInpol (busy : Bool) (polarity : ℤ)
  | setOutgain (busy : Bool) (gain : ℤ)
  | outEnable (enable : ℤ)
  | loadseq (io : LoadIo) (seq : UserSeq)
  | reset (fpga : Fin 2 → CvorgChannel)

/-- `gs_channel_ioctl` with `set`. -/
def gsChannel (s : CvorgChannels) (client : ℕ) (nr : ℤ) : CvorgChannels × Except IoctlErrno Unit :=
  if nr = 1 then ({ s with channelNr := Function.update s.channelNr client 0 }, .ok ())
  else if nr = 2 then ({ s with channelNr := Function.update s.channelNr client 1 }, .ok ())
  else (s, .error .einval)

/-- What a command does to the selected channel. -/
def channelCommand (w : ℕ) (e : CvorgEndian) (channel : CvorgContext) : CvorgCommand → CvorgContext
  | .setChannel _ | .reset _ => channel
  | .setOutoff offset => (gsOutoff channel offset).1
  | .setInpol busy polarity => (gsInpol channel busy polarity).1
  | .setOutgain busy gain => (gsOutgain channel busy gain).1
  | .outEnable enable => cvorgOutEnable channel enable
  | .loadseq io seq => (cvorgLoadseq w e io channel seq).1

/-- Both channels behind `__cvorg_reset`. -/
def resetChannels (s : CvorgChannels) (fpga : Fin 2 → CvorgChannel) : CvorgChannels :=
  { s with channels := fun n => resetChannel (fpga n) }

/-- A command of a client, with the module's lock held. -/
def cvorgCommand (w : ℕ) (e : CvorgEndian) (s : CvorgChannels) (op : ℕ × CvorgCommand) : Option CvorgChannels :=
  let (client, command) := op
  let nr := s.channelNr client
  some <| match command with
    | .setChannel arg => (gsChannel s client arg).1
    | .reset fpga => resetChannels s fpga
    | command => { s with channels := Function.update s.channels nr (channelCommand w e (s.channels nr) command) }

/-- The channels when the module is installed: every client starts with the first one. -/
def cvorgInstalled (fpga : Fin 2 → CvorgChannel) : CvorgChannels :=
  { channelNr := fun _ => 0, channels := fun n => resetChannel (fpga n) }

end HtDrivers.Cvorg
