import HtDrivers.Jtag.Scan

/-! The player: its commands, and the run over a stream of them (`micro.c`, `ports.c`). A `long` has 32 bits. -/
namespace HtDrivers.Jtag
open HtDrivers.Lib.Tap HtDrivers.Lib.BigEndian HtDrivers.Lib.Checked
set_option autoImplicit false

structure SXsvfInfo where
  ucComplete : Bool
  ucCommand : BitVec 8
  iErrorCode : XsvfError
  ucTapState : ℕ
  ucEndIR : ℕ
  ucEndDR : ℕ
  ucMaxRepeat : BitVec 8
  lRunTestTime : BitVec 32
  lShiftLengthBits : BitVec 32
  sShiftLengthBytes : BitVec 16
  lvTdi : LenVal
  lvTdoExpected : LenVal
  lvTdoCaptured : LenVal
  lvTdoMask : LenVal
  lvAddressMask : LenVal
  lvDataMask : LenVal
  lvNextData : LenVal

/-- The player with the pins and with what is left of the stream. -/
structure Player where
  info : SXsvfInfo
  io : Io
  inp : List (BitVec 8)

/-! ## Reading -/

/-- Behind the end of the stream `fgetc` returns `EOF`. -/
def readByte (inp : List (BitVec 8)) : BitVec 8 × List (BitVec 8) := (inp.headD 0xFF, inp.tail)

def readLoop : ℕ → ℕ → (ℕ → BitVec 8) → List (BitVec 8) → Except Trap ((ℕ → BitVec 8) × List (BitVec 8))
  | 0, _, val, inp => .ok (val, inp)
  | sNumBytes + 1, i, val, inp =>
    if maxLen < i then .error .fault
    else readLoop sNumBytes (i + 1) (Function.update val i (readByte inp).1) (readByte inp).2

/-- A negative number of bytes is counted down through all of the `short`s. -/
def readVal (x : LenVal) (sNumBytes : BitVec 16) (inp : List (BitVec 8)) : Except Trap (LenVal × List (BitVec 8)) := do
  let (val, inp) ← readLoop sNumBytes.toNat 0 x.val inp
  pure (⟨sNumBytes.toNat, val⟩, inp)

def xsvfGetAsNumBytes (lNumBits : BitVec 32) : BitVec 16 := ((lNumBits + 7).sdiv 8).setWidth 16

def overflows (sNumBytes : BitVec 16) : Prop := (maxLen : ℤ) < sNumBytes.toInt

instance (sNumBytes : BitVec 16) : Decidable (overflows sNumBytes) := inferInstanceAs (Decidable (_ < _))

/-! ## Commands -/

/-- The error code is left alone where there is no error. -/
def Player.noting (p : Player) (iErrorCode : XsvfError) : Player :=
  if iErrorCode ≠ .none then { p with info := { p.info with iErrorCode := iErrorCode } } else p

section Commands
variable (tdo : List Event → Bool) (p : Player)

/-- `xsvfShift`, as it is called from a command. -/
def Player.shift (args : ShiftArgs) (captured : Option LenVal) (lRunTestTime : BitVec 32) :
    Except Trap (XsvfError × Player) := do
  let (iErrorCode, s) ← xsvfShift tdo args ⟨p.info.ucTapState, captured, lRunTestTime, p.io⟩
  let info := { p.info with
    ucTapState := s.ucTapState
    lvTdoCaptured := s.captured.getD p.info.lvTdoCaptured }
  pure (iErrorCode, { p with info := info, io := s.io })

def xsvfDoIllegalCmd : Except Trap Player := .ok (p.noting .illegalCmd)

def xsvfDoXCOMPLETE : Except Trap Player := .ok { p with info := { p.info with ucComplete := true } }

def xsvfDoXTDOMASK : Except Trap Player := do
  let (lvTdoMask, inp) ← readVal p.info.lvTdoMask p.info.sShiftLengthBytes p.inp
  pure { p with info := { p.info with lvTdoMask := lvTdoMask }, inp := inp }

/-- What `XSIR` and `XSIR2` do once they have the length. -/
def shiftIr (lShiftIrBits : BitVec 32) : Except Trap Player :=
  if overflows (xsvfGetAsNumBytes lShiftIrBits) then .ok (p.noting .dataOverflow)
  else do
    let (lvTdi, inp) ← readVal p.info.lvTdi (xsvfGetAsNumBytes lShiftIrBits) p.inp
    let p := { p with info := { p.info with lvTdi := lvTdi }, inp := inp }
    let (iErrorCode, p) ← p.shift tdo ⟨.instruction, lShiftIrBits, lvTdi, none, none, p.info.ucEndIR, 0⟩ none
      p.info.lRunTestTime
    pure (p.noting iErrorCode)

def xsvfDoXSIR : Except Trap Player :=
  let (ucShiftIrBits, inp) := readByte p.inp
  shiftIr tdo { p with inp := inp } (ucShiftIrBits.setWidth 32)

def xsvfDoXSIR2 : Except Trap Player := do
  let (lvTdi, inp) ← readVal p.info.lvTdi 2 p.inp
  shiftIr tdo { p with info := { p.info with lvTdi := lvTdi }, inp := inp } (value lvTdi)

/-- The scan of `XSDR`, `XSDRTDO` and `XSDRINC`. -/
def Player.drArgs : ShiftArgs :=
  ⟨.data, p.info.lShiftLengthBits, p.info.lvTdi, some p.info.lvTdoExpected, some p.info.lvTdoMask, p.info.ucEndDR,
    p.info.ucMaxRepeat⟩

def Player.shiftDr : Except Trap (XsvfError × Player) :=
  p.shift tdo p.drArgs (some p.info.lvTdoCaptured) p.info.lRunTestTime

def xsvfDoXSDR : Except Trap Player := do
  let (lvTdi, inp) ← readVal p.info.lvTdi p.info.sShiftLengthBytes p.inp
  let p := { p with info := { p.info with lvTdi := lvTdi }, inp := inp }
  let (iErrorCode, p) ← p.shiftDr tdo
  pure (p.noting iErrorCode)

def xsvfDoXRUNTEST : Except Trap Player := do
  let (lvTdi, inp) ← readVal p.info.lvTdi 4 p.inp
  pure { p with info := { p.info with lvTdi := lvTdi, lRunTestTime := value lvTdi }, inp := inp }

def xsvfDoXREPEAT : Except Trap Player :=
  .ok { p with info := { p.info with ucMaxRepeat := (readByte p.inp).1 }, inp := (readByte p.inp).2 }

def xsvfDoXSDRSIZE : Except Trap Player := do
  let (lvTdi, inp) ← readVal p.info.lvTdi 4 p.inp
  let info := { p.info with
    lvTdi := lvTdi
    lShiftLengthBits := value lvTdi
    sShiftLengthBytes := xsvfGetAsNumBytes (value lvTdi) }
  let p := { p with info := info, inp := inp }
  pure (if overflows info.sShiftLengthBytes then p.noting .dataOverflow else p)

/-- The words that are read; the expected one only where there is a place for it. -/
def Player.readTdiTdo (compared : Bool) : Except Trap Player := do
  let (lvTdi, inp) ← readVal p.info.lvTdi p.info.sShiftLengthBytes p.inp
  let p := { p with info := { p.info with lvTdi := lvTdi }, inp := inp }
  if compared then
    let (lvTdoExpected, inp) ← readVal p.info.lvTdoExpected p.info.sShiftLengthBytes p.inp
    pure { p with info := { p.info with lvTdoExpected := lvTdoExpected }, inp := inp }
  else pure p

def xsvfDoXSDRTDO : Except Trap Player := do
  let p ← p.readTdiTdo true
  let (iErrorCode, p) ← p.shiftDr tdo
  pure (p.noting iErrorCode)

def xsvfDoXSETSDRMASKS : Except Trap Player := do
  let (lvAddressMask, inp) ← readVal p.info.lvAddressMask p.info.sShiftLengthBytes p.inp
  let (lvDataMask, inp) ← readVal p.info.lvDataMask p.info.sShiftLengthBytes inp
  pure { p with info := { p.info with lvAddressMask := lvAddressMask, lvDataMask := lvDataMask }, inp := inp }

def countOnes : ℕ → BitVec 8 → ℕ
  | 0, _ => 0
  | n + 1, ucDataMask => if ucDataMask = 0 then 0 else (ucDataMask &&& 1).toNat + countOnes n (ucDataMask >>> 1)

/-- The number of the data bits. The index is an `unsigned char`, and the loop has no end for longer masks. -/
def dataMaskLen (dataMask : LenVal) : Except Trap ℕ :=
  if dataMask.len < 256 then .ok ((List.range dataMask.len).map fun i => countOnes 8 (dataMask.val i)).sum
  else .error .hang

/-- The words behind the first one. -/
def incLoop (iDataMaskLen : ℕ) : ℕ → Player → Except Trap (XsvfError × Player)
  | 0, p => .ok (.none, p)
  | n + 1, p => do
    let (lvNextData, inp) ← readVal p.info.lvNextData (xsvfGetAsNumBytes (BitVec.ofNat 32 iDataMaskLen)) p.inp
    let lvTdi := xsvfDoSDRMasking p.info.lvTdi lvNextData p.info.lvAddressMask p.info.lvDataMask
    let p := { p with info := { p.info with lvNextData := lvNextData, lvTdi := lvTdi }, inp := inp }
    let (iErrorCode, p) ← p.shiftDr tdo
    if iErrorCode = .none then incLoop iDataMaskLen n p else pure (iErrorCode, p)

def xsvfDoXSDRINC : Except Trap Player := do
  let (lvTdi, inp) ← readVal p.info.lvTdi p.info.sShiftLengthBytes p.inp
  let p := { p with info := { p.info with lvTdi := lvTdi }, inp := inp }
  let (iErrorCode, p) ← p.shiftDr tdo
  if iErrorCode = .none then
    let iDataMaskLen ← dataMaskLen p.info.lvDataMask
    let (ucNumTimes, inp) := readByte p.inp
    let (iErrorCode, p) ← incLoop tdo iDataMaskLen ucNumTimes.toNat { p with inp := inp }
    pure (p.noting iErrorCode)
  else pure (p.noting iErrorCode)

/-- `XSDRB`, `XSDRC` and `XSDRE`, and with the comparison, but without the mask, `XSDRTDOB`, `XSDRTDOC` and `XSDRTDOE`;
the last ones of the three leave Shift-DR. -/
def doBCE (compared : Bool) (last : ℕ) : Except Trap Player := do
  let ucEndDR := if p.info.ucCommand.toNat = last then p.info.ucEndDR else 4
  let p ← p.readTdiTdo compared
  let expected := if compared then some p.info.lvTdoExpected else none
  let captured := if compared then some p.info.lvTdoCaptured else none
  let (iErrorCode, p) ← p.shift tdo ⟨.data, p.info.lShiftLengthBits, p.info.lvTdi, expected, none, ucEndDR, 0⟩ captured
    0
  pure (p.noting iErrorCode)

def xsvfDoXSDRBCE : Except Trap Player := doBCE tdo p false 14

def xsvfDoXSDRTDOBCE : Except Trap Player := doBCE tdo p true 17

def Player.goto (ucTargetState : ℕ) : Except Trap (XsvfError × Player) := do
  let (ucTapState, io, iErrorCode) ← xsvfGotoTapState p.info.ucTapState ucTargetState p.io
  pure (iErrorCode, { p with info := { p.info with ucTapState := ucTapState }, io := io })

def xsvfDoXSTATE : Except Trap Player := do
  let (ucNextState, inp) := readByte p.inp
  let (iErrorCode, p) ← { p with inp := inp : Player }.goto ucNextState.toNat
  pure (p.noting iErrorCode)

def xsvfDoXENDXR : Except Trap Player :=
  let (ucEndState, inp) := readByte p.inp
  let p := { p with inp := inp }
  if ucEndState ≠ 0 ∧ ucEndState ≠ 1 then .ok (p.noting .illegalState)
  else if p.info.ucCommand.toNat = 19
    then .ok { p with info := { p.info with ucEndIR := if ucEndState = 0 then 1 else 13 } }
  else .ok { p with info := { p.info with ucEndDR := if ucEndState = 0 then 1 else 6 } }

/-- Behind the end of the stream there is no zero. -/
def commentLoop : List (BitVec 8) → Except Trap (List (BitVec 8))
  | [] => .error .hang
  | ucText :: inp => if ucText ≠ 0 then commentLoop inp else .ok inp

def xsvfDoXCOMMENT : Except Trap Player := do
  let inp ← commentLoop p.inp
  pure { p with info := { p.info with iErrorCode := .none }, inp := inp }

def Player.gotoUnless (ucTargetState : ℕ) : Except Trap Player :=
  if p.info.ucTapState ≠ ucTargetState then do
    let (_, p) ← p.goto ucTargetState
    pure p
  else .ok p

def xsvfDoXWAIT : Except Trap Player := do
  let (waitState, inp) ← readVal p.info.lvTdi 1 p.inp
  let (endState, inp) ← readVal waitState 1 inp
  let (lvTdi, inp) ← readVal endState 4 inp
  let p := { p with info := { p.info with lvTdi := lvTdi }, inp := inp }
  let p ← p.gotoUnless (waitState.val 0).toNat
  Player.gotoUnless { p with io := waitTime (value lvTdi) p.io } (endState.val 0).toNat

/-! ## Runs -/

/-- The table of the commands. -/
def pfDoCmd (p : Player) : ℕ → Except Trap Player
  | 0 => xsvfDoXCOMPLETE p
  | 1 => xsvfDoXTDOMASK p
  | 2 => xsvfDoXSIR tdo p
  | 3 => xsvfDoXSDR tdo p
  | 4 => xsvfDoXRUNTEST p
  | 5 => xsvfDoIllegalCmd p
  | 6 => xsvfDoIllegalCmd p
  | 7 => xsvfDoXREPEAT p
  | 8 => xsvfDoXSDRSIZE p
  | 9 => xsvfDoXSDRTDO tdo p
  | 10 => xsvfDoXSETSDRMASKS p
  | 11 => xsvfDoXSDRINC tdo p
  | 12 => xsvfDoXSDRBCE tdo p
  | 13 => xsvfDoXSDRBCE tdo p
  | 14 => xsvfDoXSDRBCE tdo p
  | 15 => xsvfDoXSDRTDOBCE tdo p
  | 16 => xsvfDoXSDRTDOBCE tdo p
  | 17 => xsvfDoXSDRTDOBCE tdo p
  | 18 => xsvfDoXSTATE p
  | 19 => xsvfDoXENDXR p
  | 20 => xsvfDoXENDXR p
  | 21 => xsvfDoXSIR2 tdo p
  | 22 => xsvfDoXCOMMENT p
  | 23 => xsvfDoXWAIT p
  | _ => xsvfDoIllegalCmd p

def Player.Running : Prop := p.info.iErrorCode = .none ∧ p.info.ucComplete = false

instance : Decidable p.Running := inferInstanceAs (Decidable (_ ∧ _))

/-- The command is read. -/
def Player.fetch : Player :=
  { p with info := { p.info with ucCommand := (readByte p.inp).1 }, inp := (readByte p.inp).2 }

def xsvfRun : Except Trap Player :=
  if p.Running then pfDoCmd tdo p.fetch p.fetch.info.ucCommand.toNat else .ok p

/-- The values of the other fields are not set. -/
def xsvfInfoInit (info : SXsvfInfo) : SXsvfInfo := { info with
  ucComplete := false
  ucCommand := 0
  iErrorCode := .none
  ucMaxRepeat := 0
  ucTapState := 0
  ucEndIR := 1
  ucEndDR := 1
  lShiftLengthBits := 0
  sShiftLengthBytes := 0
  lRunTestTime := 0 }

def xsvfInitialize : Except Trap Player := do
  let (iErrorCode, p) ← { p with info := xsvfInfoInit p.info : Player }.goto 0
  pure { p with info := { p.info with iErrorCode := iErrorCode } }

/-- The loop of `xsvfExecute`. -/
def play : ℕ → Player → Except Trap Player
  | 0, _ => .error .hang
  | fuel + 1, p => if p.Running then do play fuel (← xsvfRun tdo p) else .ok p

/-- Every command takes a byte at least, and there is no command behind the end of the stream. -/
def xsvfExecute : Except Trap Player := do
  let p ← xsvfInitialize p
  play tdo (p.inp.length + 2) p

end Commands
end HtDrivers.Jtag
