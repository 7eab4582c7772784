import Mathlib.Tactic

/-! A sequence of waveforms goes into a channel of the CVORG (`cvorg-skel.c`, `cvorg_priv.h`). The SRAM is an array of
32-bit words with a pointer that moves on at every access to `SRAMDATA`; the other registers keep what is written. -/
namespace HtDrivers.Cvorg
set_option autoImplicit false

abbrev U16 := BitVec 16

abbrev U32 := BitVec 32

/-! ## Registers and SRAM -/

def cvorgSramSize : ℕ := 0x200000

def cvorgSramAddr : ℕ := 0x04c

def cvorgSramData : ℕ := 0x050

def cvorgSeqNr : ℕ := 0x058

def cvorgMaxSequences : ℕ := 26

def cvorgBlkOffset : ℕ := 0x60

def cvorgBlkSize : ℕ := 0x10

def cvorgWfStart : ℕ := 0x00

def cvorgWfLen : ℕ := 0x04

def cvorgWfRecurr : ℕ := 0x08

def cvorgWfNextBlk : ℕ := 0x0c

def cvorgWfNextBlkNextMask : U32 := 0x1f

def cvorgWfNextBlkLast : U32 := 31

def cvorgWfNextBlkConfGain : U32 := 1 <<< 8

def cvorgWfNextBlkGainShift : ℕ := 9

def cvorgWfNextBlkGainMask : U32 := 7 <<< 9

/-- `written` lists the words of the SRAM written so far. -/
structure CvorgChannel where
  regs : ℕ → U32
  sram : ℕ → U32
  sramAddr : ℕ
  written : List ℕ

/-- A write to a register of the channel. -/
def cvorgWchan (channel : CvorgChannel) (offset : ℕ) (value : U32) : CvorgChannel :=
  if offset = cvorgSramAddr then { channel with sramAddr := value.toNat / 4 }
  else if offset = cvorgSramData then
    { channel with
      sram := Function.update channel.sram channel.sramAddr value
      sramAddr := channel.sramAddr + 1
      written := channel.written ++ [channel.sramAddr] }
  else { channel with regs := Function.update channel.regs offset value }

def cvorgRchan (channel : CvorgChannel) (offset : ℕ) : U32 := channel.regs offset

def cvorgOchan (channel : CvorgChannel) (offset : ℕ) (value : U32) : CvorgChannel :=
  cvorgWchan channel offset (cvorgRchan channel offset ||| value)

def cvorgAchan (channel : CvorgChannel) (offset : ℕ) (value : U32) : CvorgChannel :=
  cvorgWchan channel offset (cvorgRchan channel offset &&& value)

def cvorgUchan (channel : CvorgChannel) (offset : ℕ) (value mask : U32) : CvorgChannel :=
  cvorgOchan (cvorgAchan channel offset (~~~mask)) offset value

/-! ## Waveforms -/

/-- A waveform with the points of its form: at least one, and their bytes fit `size`. -/
structure CvorgWv where
  recurr : U32
  dynamicGain : U32
  gainVal : ℤ
  form : List U16
  form_ne_nil : form ≠ []
  size_lt : 2 * form.length < 2 ^ 32

def CvorgWv.size (wave : CvorgWv) : U32 := BitVec.ofNat 32 (2 * wave.form.length)

structure CvorgSeq where
  nr : U32
  waves : List CvorgWv

/-- Rounded up to a multiple of four where that does not overflow. -/
def normalizePoint (p : U16) : U16 := (if p &&& 3 ≠ 0 ∧ p ≠ 0xffff then p + 1 else p) &&& ~~~3

/-- The form after `normalize_wv`. -/
def CvorgWv.normalized (wave : CvorgWv) : List U16 := wave.form.map normalizePoint

/-! ## SRAM entries -/

/-- The byte order of the CPU and of the installed module. -/
structure CvorgEndian where
  cpuBig : Bool
  waLittle : Bool

def swab16 (x : U16) : U16 := x.extractLsb' 0 8 ++ x.extractLsb' 8 8

/-- `cdcm_cpu_to_be16` and `cdcm_be16_to_cpu`. -/
def be16 (e : CvorgEndian) (x : U16) : U16 := if e.cpuBig then x else swab16 x

def cvorgCpuToHw (e : CvorgEndian) (data0 data1 : U16) : U32 :=
  let first := (be16 e data0).setWidth 32
  let second := (be16 e data1).setWidth 32
  if e.waLittle then (first <<< 16) ||| second else (second <<< 16) ||| first

def cvorgCpuToHwSingle (e : CvorgEndian) (data0 : U16) : U32 :=
  let pointval := (be16 e data0).setWidth 32
  if e.waLittle then pointval <<< 16 else pointval

def cvorgHwToCpu (e : CvorgEndian) (hwval : U32) : U16 × U16 :=
  let first := if e.waLittle then hwval >>> 16 else hwval &&& 0xffff
  let second := if e.waLittle then hwval &&& 0xffff else hwval >>> 16
  (be16 e (first.setWidth 16), be16 e (second.setWidth 16))

/-- The loop of `__sram`: two points a word, and the last point of an odd number alone. -/
def sramLoop (e : CvorgEndian) : List U16 → CvorgChannel → CvorgChannel
  | data0 :: data1 :: rest, chan => sramLoop e rest (cvorgWchan chan cvorgSramData (cvorgCpuToHw e data0 data1))
  | [data0], chan => cvorgWchan chan cvorgSramData (cvorgCpuToHwSingle e data0)
  | [], chan => chan

def sram (e : CvorgEndian) (chan : CvorgChannel) (points : List U16) (dest : U32) : CvorgChannel :=
  sramLoop e points (cvorgWchan chan cvorgSramAddr dest)

/-! ## Block descriptors -/

def blockOffset (blocknr : ℕ) : ℕ := cvorgBlkOffset + cvorgBlkSize * blocknr

def prevBlockOffset (blocknr : ℕ) : ℕ := cvorgBlkOffset + cvorgBlkSize * (blocknr - 1)

def cvorgWvMarkPrev (channel : CvorgChannel) (prevblock currblockIndex : ℕ) : CvorgChannel :=
  cvorgUchan channel (prevblock + cvorgWfNextBlk) (BitVec.ofNat 32 currblockIndex) cvorgWfNextBlkNextMask

def cvorgWvMarkLast (channel : CvorgChannel) (block : ℕ) : CvorgChannel :=
  cvorgUchan channel (block + cvorgWfNextBlk) cvorgWfNextBlkLast cvorgWfNextBlkNextMask

def cvorgGains : List ℤ := [-22, -16, -10, -4, 2, 8, 14, 20]

/-- The first of the nearest entries: its distance and itself. -/
def cvorgNearest (array : List ℤ) (val : ℤ) : ℤ :=
  (array.foldl (fun best gain => if (gain - val).natAbs < best.1 then ((gain - val).natAbs, gain) else best)
    (2 ^ 32 - 1, array.headD 0)).2

def cvorgGainApprox (gain : ℤ) : ℤ :=
  if gain < -22 then -22 else if gain > 20 then 20 else cvorgNearest cvorgGains gain

def cvorgGainToHw (gain : ℤ) : U32 :=
  if gain = -22 then 0 else if gain = -16 then 1 else if gain = -10 then 2 else if gain = -4 then 3
  else if gain = 2 then 4 else if gain = 8 then 5 else if gain = 14 then 6 else 7

def cvorgWvGainStore (channel : CvorgChannel) (block : ℕ) (wv : CvorgWv) : CvorgChannel :=
  let offset := block + cvorgWfNextBlk
  let channel := cvorgAchan channel offset (~~~cvorgWfNextBlkConfGain)
  if wv.dynamicGain = 0 then channel
  else
    let val := cvorgGainToHw (cvorgGainApprox wv.gainVal)
    let channel := cvorgOchan channel offset cvorgWfNextBlkConfGain
    cvorgUchan channel offset (val <<< cvorgWfNextBlkGainShift) cvorgWfNextBlkGainMask

def cvorgWvStore (channel : CvorgChannel) (block : ℕ) (wv : CvorgWv) : CvorgChannel :=
  let channel := cvorgWchan channel (block + cvorgWfLen) (BitVec.ofNat 32 (wv.size.toNat / 2))
  let channel := cvorgWchan channel (block + cvorgWfRecurr) wv.recurr
  cvorgWvGainStore channel block wv

/-! ## Storing a sequence -/

/-- One turn of the loop of `__cvorg_storeseq`, on the channel and `ramaddr`. -/
def storeWave (e : CvorgEndian) (nWaves : ℕ) (s : CvorgChannel × U32) (wv : CvorgWv × ℕ) : CvorgChannel × U32 :=
  let (wv, i) := wv
  let channel := sram e s.1 wv.normalized s.2
  let channel := if i > 0 then cvorgWvMarkPrev channel (prevBlockOffset i) i else channel
  let channel := cvorgWchan channel (blockOffset i + cvorgWfStart) s.2
  let channel := cvorgWvStore channel (blockOffset i) wv
  let channel := if i = nWaves - 1 then cvorgWvMarkLast channel (blockOffset i) else channel
  (channel, s.2 + wv.size)

/-- A single waveform is played as often as the sequence asks for, in a sequence that is played once. -/
def loopSingle (seq : CvorgSeq) : CvorgSeq :=
  match seq.waves with
  | [wv] => { nr := 1, waves := [{ wv with recurr := wv.recurr * seq.nr }] }
  | _ => seq

/-- `__cvorg_storeseq`. -/
def storeseqLoop (e : CvorgEndian) (channel : CvorgChannel) (seq : CvorgSeq) : CvorgChannel :=
  let seq := loopSingle seq
  (seq.waves.zipIdx.foldl (storeWave e seq.waves.length) (cvorgWchan channel cvorgSeqNr seq.nr, 0)).1

/-- The sum of the sizes in an `ssize_t` of `w` bits. -/
def seqSize (w : ℕ) (seq : CvorgSeq) : BitVec w := seq.waves.foldl (fun size wv => size + wv.size.setWidth w) 0

inductive Errno where
  | enomem | einval | eagain
  deriving DecidableEq, Repr

def cvorgStoreseq (w : ℕ) (e : CvorgEndian) (sramBusy : Bool) (channel : CvorgChannel) (seq : CvorgSeq) :
    Except Errno CvorgChannel :=
  if (seqSize w seq).toInt > cvorgSramSize then .error .enomem
  else if seq.waves.length ≤ 0 ∨ seq.waves.length > cvorgMaxSequences then .error .einval
  else if sramBusy then .error .eagain
  else .ok (storeseqLoop e channel seq)

/-! ## Reading back -/

/-- `gs_sram_ioctl` without `set`. -/
def gsSramGet (e : CvorgEndian) (channel : CvorgChannel) (address : ℕ) : Except Errno (U16 × U16) :=
  if address ≥ cvorgSramSize then .error .einval
  else
    let channel := cvorgWchan channel cvorgSramAddr (BitVec.ofNat 32 address &&& ~~~3)
    .ok (cvorgHwToCpu e (channel.sram channel.sramAddr))

/-- The half-word of the entry that the address designates. -/
def readPoint (e : CvorgEndian) (channel : CvorgChannel) (address : ℕ) : Except Errno U16 :=
  (gsSramGet e channel address).map fun data => if address % 4 < 2 then data.1 else data.2

end HtDrivers.Cvorg
