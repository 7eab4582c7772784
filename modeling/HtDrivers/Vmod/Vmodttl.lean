import Mathlib.Tactic

/-! The configuration of the VMOD-TTL: what the library packs (`libvmodttl.c`), and what the driver keeps of it and
writes to the board (`vmodttldrvr.c`). -/
namespace HtDrivers.Vmod
set_option autoImplicit false

/-! ## The driver -/

abbrev nrBits : ℕ := 8

/-- `struct vmodttl_pattern`. -/
structure VmodttlPattern where
  port : BitVec 8
  pos : BitVec 8
  ptr : BitVec 8
  pmr : BitVec 8
  ppr : BitVec 8
deriving DecidableEq

/-- `struct vmodttlconfig`. -/
structure Vmodttlconfig where
  ioFlag : BitVec 32
  usPulse : BitVec 32
  openCollector : BitVec 32
  invert : BitVec 32
  patternModeA : BitVec 32
  patternModeB : BitVec 32
  bitPatternA : Fin nrBits → VmodttlPattern
  bitPatternB : Fin nrBits → VmodttlPattern

/-- `struct vmodttl_dev`; the configuration is its last field, and `behind` is the memory from there on, in
patterns. -/
structure VmodttlDev where
  ioFlag : BitVec 32
  usPulse : BitVec 32
  openCollector : BitVec 32
  ioconfig : Vmodttlconfig
  behind : ℕ → VmodttlPattern

def aChanOut : BitVec 32 := 0x01
def bChanOut : BitVec 32 := 0x02
def cChanOut : BitVec 32 := 0x04
def vmodttlO : BitVec 32 := 0x08
def defaultDelay : BitVec 32 := 1

/-- `vmodttl_config`, whose writes to the board are those of `vmodttlDefIo`. Without a result it fails with `EINVAL`. -/
def vmodttlConfig (conf : Vmodttlconfig) (pd : VmodttlDev) : Option VmodttlDev :=
  if (aChanOut + bChanOut + cChanOut).toInt < conf.ioFlag.toInt ∨ conf.ioFlag.toInt < 0 then none
  else some { pd with
    ioFlag := if conf.invert ≠ 0 then conf.ioFlag ||| vmodttlO else conf.ioFlag
    usPulse := if conf.usPulse.toInt < defaultDelay.toInt then defaultDelay else conf.usPulse
    openCollector := conf.openCollector }

/-- `VMODTTL_CONFIG`, which tells whether the request was taken. The configuration is kept before it is looked at. -/
def ioctlConfig (conf : Vmodttlconfig) (pd : VmodttlDev) : Bool × VmodttlDev :=
  let pd := { pd with ioconfig := conf }
  match vmodttlConfig conf pd with
  | none => (false, pd)
  | some pd => (true, pd)

/-- Entry `k` of the memory from `bit_pattern_a` on. -/
def VmodttlDev.entry (pd : VmodttlDev) (k : ℕ) : VmodttlPattern :=
  if h : k < nrBits then pd.ioconfig.bitPatternA ⟨k, h⟩
  else if h : k - nrBits < nrBits then pd.ioconfig.bitPatternB ⟨k - nrBits, h⟩
  else pd.behind (k - 2 * nrBits)

/-- `VMODTTL_PATTERN`: `bit_pattern_a[buf.pos] = buf`, with no bound on the position. -/
def ioctlPattern (buf : VmodttlPattern) (pd : VmodttlDev) : VmodttlDev :=
  let k := buf.pos.toNat
  if h : k < nrBits then
    { pd with ioconfig := { pd.ioconfig with bitPatternA := Function.update pd.ioconfig.bitPatternA ⟨k, h⟩ buf } }
  else if h : k - nrBits < nrBits then
    { pd with
      ioconfig := { pd.ioconfig with
        bitPatternB := Function.update pd.ioconfig.bitPatternB ⟨k - nrBits, h⟩ buf } }
  else { pd with behind := Function.update pd.behind (k - 2 * nrBits) buf }

/-! ## The control register -/

/-- The registers of one port of the Z8536. -/
structure PortRegisters where
  pcsr : BitVec 16
  pmsr : BitVec 16
  ddr : BitVec 16
  dppr : BitVec 16
  siocr : BitVec 16

def portA : PortRegisters := ⟨0x08, 0x20, 0x23, 0x22, 0x24⟩
def portB : PortRegisters := ⟨0x09, 0x28, 0x2b, 0x2a, 0x2c⟩
def portC : PortRegisters := ⟨0x00, 0x00, 0x06, 0x05, 0x07⟩

def mccr : BitVec 16 := 0x01
def clearIe : BitVec 16 := 0xe0
def clearIpIus : BitVec 16 := 0x20

/-- What is written for port A or B; an output that is an open collector is not inverted. -/
def portSetup (r : PortRegisters) (collector output invert : Bool) : List (BitVec 16) :=
  [r.pcsr, clearIe, r.pcsr, clearIpIus, r.pmsr, 0x14, r.ddr, if output then 0x00 else 0xff,
    r.dppr, if invert ∧ ¬ (collector ∧ output) then 0xff else 0x00, r.siocr, 0x00]

/-- Port C is an output. -/
def strobeSetup (collector invert : Bool) : List (BitVec 16) :=
  [portC.ddr, 0x00, portC.dppr, if invert ∧ ¬ collector then 0x0f else 0x00, portC.siocr, 0x00]

/-- `vmodttl_def_io`: the writes to the control register. The board answers `master` to the read of its `MCCR`. -/
def vmodttlDefIo (pd : VmodttlDev) (master : BitVec 16) : List (BitVec 16) :=
  let flag (bit : BitVec 32) := pd.ioFlag &&& bit ≠ 0
  let collector (bit : BitVec 32) := pd.openCollector &&& bit = bit
  [mccr, 0x00] ++ portSetup portA (collector 0x01) (flag aChanOut) (flag vmodttlO) ++
    portSetup portB (collector 0x02) (flag bChanOut) (flag vmodttlO) ++ strobeSetup (collector 0x04) (flag vmodttlO) ++
    [mccr, mccr, (master ||| 0x94) &&& 0xff]

/-! ## The library -/

inductive VmodttlChannel
  | a | b | ab
deriving DecidableEq

inductive ChanConf
  | chanIn | chanOut
deriving DecidableEq

inductive ChanMode
  | ttl | openCollector
deriving DecidableEq

inductive ConfPattern
  | off | any | zero | one | oneToZero | zeroToOne
deriving DecidableEq

/-- `struct vmodttl_config`; the logic and the pattern modes go through as numbers. -/
structure VmodttlConfig where
  dirA : ChanConf
  dirB : ChanConf
  invertingLogic : BitVec 32
  usPulse : BitVec 32
  modeA : ChanMode
  modeB : ChanMode
  modeC : ChanMode
  patternModeA : BitVec 32
  patternModeB : BitVec 32
  confPatternA : Fin nrBits → ConfPattern
  confPatternB : Fin nrBits → ConfPattern

def ChanConf.value : ChanConf → BitVec 32
  | chanIn => 0
  | chanOut => 1

def ChanMode.value : ChanMode → BitVec 32
  | ttl => 0
  | openCollector => 1

def ChanConf.ofBit (bit : BitVec 32) : ChanConf := if bit = 0 then chanIn else chanOut

def ChanMode.ofBit (bit : BitVec 32) : ChanMode := if bit = 0 then ttl else openCollector

def vmodttlGetFromBitPattern (pmr ptr ppr : BitVec 8) : ConfPattern :=
  if pmr = 0 ∧ ptr = 1 ∧ ppr = 0 then .any
  else if pmr = 1 ∧ ptr = 0 ∧ ppr = 0 then .zero
  else if pmr = 1 ∧ ptr = 0 ∧ ppr = 1 then .one
  else if pmr = 1 ∧ ptr = 1 ∧ ppr = 0 then .oneToZero
  else if pmr = 1 ∧ ptr = 1 ∧ ppr = 1 then .zeroToOne
  else .off

/-- The values of `pmr`, `ptr` and `ppr`. -/
def vmodttlGetBitPattern : ConfPattern → BitVec 8 × BitVec 8 × BitVec 8
  | .any => (0, 1, 0)
  | .zero => (1, 0, 0)
  | .one => (1, 0, 1)
  | .oneToZero => (1, 1, 0)
  | .zeroToOne => (1, 1, 1)
  | .off => (0, 0, 0)

def VmodttlPattern.shows (p : VmodttlPattern) : ConfPattern := vmodttlGetFromBitPattern p.pmr p.ptr p.ppr

/-- Port 0 is A, and port 1 is B. -/
def vmodttlPattern (port : BitVec 8) (pos : Fin nrBits) (bitPattern : ConfPattern) (pd : VmodttlDev) : VmodttlDev :=
  let bits := vmodttlGetBitPattern bitPattern
  ioctlPattern ⟨port, BitVec.ofNat 8 pos, bits.2.1, bits.1, bits.2.2⟩ pd

def packDirections (dirA dirB : ChanConf) : BitVec 32 :=
  let ioConfig : BitVec 32 := dirA.value &&& 0x01
  ioConfig + (dirB.value &&& 0x01) <<< 1

def packModes (modeA modeB modeC : ChanMode) : BitVec 32 :=
  let openCollector : BitVec 32 := modeA.value + (modeB.value &&& 0x01) <<< 1
  openCollector + (modeC.value &&& 0x01) <<< 2

/-- `stack` is what the request holds before it is filled in; its patterns are not. -/
def packConfig (stack : Vmodttlconfig) (conf : VmodttlConfig) : Vmodttlconfig :=
  { stack with
    ioFlag := packDirections conf.dirA conf.dirB
    usPulse := conf.usPulse
    invert := conf.invertingLogic
    openCollector := packModes conf.modeA conf.modeB conf.modeC
    patternModeA := conf.patternModeA
    patternModeB := conf.patternModeB }

/-- The pattern of an input. -/
def inputPattern (dir : ChanConf) (port : BitVec 8) (i : Fin nrBits) (bitPattern : ConfPattern) (pd : VmodttlDev) :
    VmodttlDev :=
  if dir = .chanIn then vmodttlPattern port i bitPattern pd else pd

/-- One turn of the loop that sets the patterns; both channels get those of A. -/
def patternStep (conf : VmodttlConfig) (pd : VmodttlDev) (i : Fin nrBits) : VmodttlDev :=
  inputPattern conf.dirB 1 i (conf.confPatternA i) (inputPattern conf.dirA 0 i (conf.confPatternA i) pd)

def vmodttlIoConfig (stack : Vmodttlconfig) (conf : VmodttlConfig) (pd : VmodttlDev) : Bool × VmodttlDev :=
  match ioctlConfig (packConfig stack conf) pd with
  | (false, pd) => (false, pd)
  | (true, pd) => (true, (List.finRange nrBits).foldl (patternStep conf) pd)

def readConfig (conf : Vmodttlconfig) : VmodttlConfig where
  dirA := .ofBit (conf.ioFlag &&& 1)
  dirB := .ofBit ((conf.ioFlag >>> 1) &&& 1)
  modeA := .ofBit (conf.openCollector &&& 1)
  modeB := .ofBit ((conf.openCollector >>> 1) &&& 1)
  modeC := .ofBit ((conf.openCollector >>> 2) &&& 1)
  invertingLogic := conf.invert
  usPulse := conf.usPulse
  patternModeA := conf.patternModeA
  patternModeB := conf.patternModeB
  confPatternA := fun i => (conf.bitPatternA i).shows
  confPatternB := fun i => (conf.bitPatternB i).shows

/-- What the driver copies out for `VMODTTL_READ_CONFIG`, unpacked. -/
def vmodttlReadConfig (pd : VmodttlDev) : VmodttlConfig := readConfig pd.ioconfig

/-- The configuration that is read with that of a channel replaced. -/
def replaceChannel (chan : VmodttlChannel) (conf ttlConf : VmodttlConfig) : VmodttlConfig :=
  match chan with
  | .a => { ttlConf with
      dirA := conf.dirA, modeA := conf.modeA, patternModeA := conf.patternModeA, confPatternA := conf.confPatternA }
  | .b => { ttlConf with
      dirB := conf.dirB, modeB := conf.modeB, patternModeB := conf.patternModeB, confPatternB := conf.confPatternB }
  | .ab => conf

def vmodttlIoChanConfig (chan : VmodttlChannel) (stack : Vmodttlconfig) (conf : VmodttlConfig) (pd : VmodttlDev) :
    Bool × VmodttlDev :=
  vmodttlIoConfig stack (replaceChannel chan conf (vmodttlReadConfig pd)) pd

end HtDrivers.Vmod
