import HtDrivers.Icv196.Booking
import HtDrivers.Lib.Masks

/-! The lines of the ICV196 modules: the calls that connect clients to them, and the interrupts that are enabled for
them (`icv196vmedrvr.c`). All lines are of the default type. -/
namespace HtDrivers.Icv196
open HtDrivers.Lib.Masks
set_option autoImplicit false

inductive LineStatus
  | disabled | enabled
deriving DecidableEq

/-- `reenable` is `intmod`. -/
structure LineCtxt where
  status : LineStatus
  reenable : Bool
  locCount : ℤ
  reset : Bool

inductive Port
  | a | b
deriving DecidableEq

/-- The registers of the Z8536 that hold the patterns of the lines and the interrupt vectors. -/
structure Z8536 where
  ptrPo : Port → BitVec 8
  ptrTr : Port → BitVec 8
  ptrMsk : Port → BitVec 8
  itVct : Port → BitVec 8

structure ModuleCtxt where
  chip : Z8536
  intEnMask : BitVec 16
  vect : BitVec 8
  lines : ℕ → LineCtxt

/-- The modules are those below `mcntr`; the handles of the clients are known by their indices. -/
structure IcvStatics where
  mcntr : ℕ
  bookings : Bookings
  inuse : ℕ → ℤ
  modules : ℕ → ModuleCtxt

inductive IcvError
  | einval | eacces | ewouldblock | eusers | enotconn
deriving DecidableEq

/-! ## Interrupts of a line -/

section Hardware
variable (mctxt : ModuleCtxt)

def portAnln : ℕ := 8

def linePort (locdev : ℕ) : Port := if portAnln ≤ locdev then .b else .a

/-- The bit of a line in the registers of its port. -/
def lineMask (locdev : ℕ) : BitVec 8 := .twoPow 8 (if portAnln ≤ locdev then locdev - portAnln else locdev)

def changePort (f : BitVec 8 → BitVec 8) (port : Port) (chip : Z8536) : Z8536 :=
  { chip with
    ptrPo := Function.update chip.ptrPo port (f (chip.ptrPo port))
    ptrTr := Function.update chip.ptrTr port (f (chip.ptrTr port))
    ptrMsk := Function.update chip.ptrMsk port (f (chip.ptrMsk port)) }

def setLine (locdev : ℕ) (f : LineCtxt → LineCtxt) : ModuleCtxt :=
  { mctxt with lines := Function.update mctxt.lines locdev (f (mctxt.lines locdev)) }

def enableLine (locdev : ℕ) : ModuleCtxt :=
  setLine
    { mctxt with
      intEnMask := mctxt.intEnMask ||| .twoPow 16 locdev
      chip := changePort (· ||| lineMask locdev) (linePort locdev) mctxt.chip }
    locdev fun lctxt => { lctxt with status := .enabled }

def disableLine (locdev : ℕ) : ModuleCtxt :=
  setLine
    { mctxt with
      intEnMask := mctxt.intEnMask &&& ~~~BitVec.twoPow 16 locdev
      chip := changePort (· &&& ~~~lineMask locdev) (linePort locdev) mctxt.chip }
    locdev fun lctxt => { lctxt with status := .disabled }

/-- `icvModule_Init_HW`, with all lines masked. -/
def icvModuleInitHW : ModuleCtxt :=
  { mctxt with intEnMask := 0, chip := ⟨fun _ => 0, fun _ => 0, fun _ => 0, fun _ => mctxt.vect⟩ }

/-- The second loop of `icvModule_Reinit`; `active` is the counter of subscribers by line. -/
def reenableLines (active : ℕ → ℤ) : ModuleCtxt :=
  (List.range icvLineNb).foldl
    (fun mctxt i => setLine (if active i ≠ 0 then enableLine mctxt i else mctxt) i
      fun lctxt => { lctxt with reset := true })
    mctxt

def icvModuleReinit (active : ℕ → ℤ) : ModuleCtxt :=
  if mctxt.chip.itVct .a ≠ mctxt.vect then
    reenableLines
      (icvModuleInitHW { mctxt with lines := fun i => { mctxt.lines i with reset := true } }) active
  else mctxt

end Hardware

/-! ## Calls -/

def icvCumul : BitVec 32 := 1
def icvDisable : BitVec 32 := 2
def icvLogLineNb : ℕ := icvModuleNb * icvLineNb + 1

def cnvrtUserLine (module index : ℕ) : ℕ := module * icvLineNb + index

section Calls
variable (s : IcvStatics)

def modifyModule (m : ℕ) (f : ModuleCtxt → ModuleCtxt) : IcvStatics :=
  { s with modules := Function.update s.modules m (f (s.modules m)) }

def reinitModule (m : ℕ) : IcvStatics :=
  modifyModule s m fun mctxt => icvModuleReinit mctxt fun i => s.bookings.curNb (cnvrtUserLine m i)

/-- What a read does after its timeout. -/
def readTimeout : IcvStatics :=
  (List.range icvModuleNb).foldl (fun s m => if m < s.mcntr then reinitModule s m else s) s

/-- Every line of a module in the directory has a handle, and no other one. -/
def lineHdlDir (line : ℕ) : Bool := line / icvLineNb < s.mcntr

/-- The checks that connect and disconnect have in common. -/
def userLine (group index : ℕ) : Except IcvError ℕ :=
  if icvModuleNb - 1 < group then .error .einval
  else if icvLineNb - 1 < index then .error .einval
  else if ¬ group < s.mcntr then .error .eacces
  else
    let line := cnvrtUserLine group index
    if icvLogLineNb < line then .error .ewouldblock
    else if lineHdlDir s line then .ok line
    else .error .einval

/-- What ICVVME_connect does for a client that is not connected to the line. -/
def connectNew (chan group index : ℕ) (mode : BitVec 32) : IcvStatics × Option IcvError :=
  let line := cnvrtUserLine group index
  let s := if mode &&& icvDisable ≠ 0 then
      modifyModule s group fun mctxt => setLine mctxt index fun lctxt => { lctxt with reenable := false }
    else s
  let s := reinitModule s group
  match lineBooking s.bookings chan line (mode &&& icvCumul ≠ 0) with
  | none => (s, some .eusers)
  | some bookings =>
    let s := { s with bookings := bookings }
    let s := modifyModule s group fun mctxt =>
      if (mctxt.lines index).status = .disabled then enableLine mctxt index else mctxt
    (modifyModule s group fun mctxt => setLine mctxt index fun lctxt => { lctxt with locCount := 0 }, none)

/-- ICVVME_connect of `icv196_ioctl`. -/
def ioctlConnect (chan group index : ℕ) (mode : BitVec 32) : IcvStatics × Option IcvError :=
  if mode &&& ~~~(icvCumul ||| icvDisable) ≠ 0 then (s, some .einval)
  else
    match userLine s group index with
    | .error e => (s, some e)
    | .ok line =>
      if s.bookings.cmap (chan, line) then
        (modifyModule s group fun mctxt => if (mctxt.lines index).reset then enableLine mctxt index else mctxt, none)
      else connectNew s chan group index mode

/-- The line is disabled where nobody is left. -/
def dropLine (bookings : Bookings) (line : ℕ) : IcvStatics :=
  let s := { s with bookings := bookings }
  if bookings.curNb line = 0 then modifyModule s (line / icvLineNb) fun mctxt =>
    disableLine mctxt (line % icvLineNb) else s

/-- ICVVME_disconnect of `icv196_ioctl`. -/
def ioctlDisconnect (chan group index : ℕ) : IcvStatics × Option IcvError :=
  match userLine s group index with
  | .error e => (s, some e)
  | .ok line =>
    if s.bookings.cmap (chan, line) then
      match lineUnBooking s.bookings chan line with
      | none => (s, some .enotconn)
      | some bookings =>
        let s := dropLine s bookings line
        (if bookings.curNb line = 0 then
          modifyModule s group fun mctxt => setLine mctxt index fun lctxt => { lctxt with locCount := -1 }
        else s, none)
    else (s, some .enotconn)

/-- The lines in the order in which `ClrSynchro` looks at their bits. -/
def cmapOrder : List ℕ := (List.range (2 * icvModuleNb)).flatMap fun i => (List.range 8).reverse.map (8 * i + ·)

/-- What `ClrSynchro` does for one bit of the map. -/
def clrLine (chan line : ℕ) : IcvStatics :=
  if s.bookings.cmap (chan, line) ∧ lineHdlDir s line then
    dropLine s ((lineUnBooking s.bookings chan line).getD s.bookings) line
  else s

/-- `ClrSynchro`, without the timer. -/
def clrSynchro (chan : ℕ) : IcvStatics :=
  let s := cmapOrder.foldl (fun s line => clrLine s chan line) s
  { s with
    bookings := { s.bookings with
      ring := Function.update s.bookings.ring chan
        { s.bookings.ring chan with evtsem := counterCalls.reset (s.bookings.ring chan).evtsem }
      cmap := fun i => if i.1 = chan then false else s.bookings.cmap i } }

/-- `Init_UserHdl` is a part of it. -/
def icv196Open (chan : ℕ) : IcvStatics × Option IcvError :=
  if s.inuse chan ≠ 0 then (s, some .eacces)
  else
    ({ s with
        inuse := Function.update s.inuse chan 1
        bookings := { s.bookings with
          ring := Function.update s.bookings.ring chan
            { s.bookings.ring chan with evtsem := 0, reader := 0, writer := 0 }
          cmap := fun i => if i.1 = chan then false else s.bookings.cmap i } }, none)

def icv196Close (chan : ℕ) : IcvStatics :=
  let s := clrSynchro s chan
  { s with inuse := Function.update s.inuse chan (s.inuse chan - 1) }

end Calls

/-- Behind the installation of the modules. -/
def icvInit (mcntr : ℕ) (vect : ℕ → BitVec 8) : IcvStatics where
  mcntr := mcntr
  bookings := bookingsInit
  inuse _ := 0
  modules m := icvModuleInitHW ⟨⟨fun _ => 0, fun _ => 0, fun _ => 0, fun _ => 0⟩, 0, vect m,
    fun _ => ⟨.disabled, true, -1, false⟩⟩

end HtDrivers.Icv196
