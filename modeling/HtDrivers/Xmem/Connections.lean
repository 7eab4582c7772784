import HtDrivers.Lib.Transition
import HtDrivers.Xmem.SendMessage

/-! Connections of clients to interrupts and the interrupts that are enabled for them (`xmemDrvr.c`). A client has one
mask for each module, and the enable register of a module should have the bits of all of them. -/
namespace HtDrivers.Xmem
open HtDrivers.Lib.Transition
set_option autoImplicit false

/-! ## The driver -/

def xmemDrvrClientContexts : ℕ := 16
def vmicLierMask : BitVec 32 := 0xBFCF

structure ConnModuleContext where
  interruptEnable : BitVec 32
  clients : ℕ → BitVec 32

structure ConnClientContext where
  inUse : Bool
  moduleIndex : ℕ

structure ConnArea where
  modules : ℕ
  moduleContexts : ℕ → ConnModuleContext
  clientContexts : ℕ → ConnClientContext

structure XmemDrvrConnection where
  module : ℕ
  mask : BitVec 32

section Driver
variable (wa : ConnArea)

def enableInterrupts (mcon : ConnModuleContext) (msk : BitVec 32) : ConnModuleContext :=
  let msk := msk &&& vmicLierMask
  if msk = 0 then mcon else { mcon with interruptEnable := mcon.interruptEnable ||| msk }

def setMcon (midx : ℕ) (mcon : ConnModuleContext) : ConnArea :=
  { wa with moduleContexts := Function.update wa.moduleContexts midx mcon }

def setCcon (cnum : ℕ) (ccon : ConnClientContext) : ConnArea :=
  { wa with clientContexts := Function.update wa.clientContexts cnum ccon }

/-- The module of a connection, or else the one that the client works with. -/
def connectionModule (conx : XmemDrvrConnection) (cnum : ℕ) : ℕ :=
  if conx.module = 0 ∨ wa.modules < conx.module then (wa.clientContexts cnum).moduleIndex else conx.module - 1

def connectMcon (mcon : ConnModuleContext) (mask : BitVec 32) (cnum : ℕ) : ConnModuleContext :=
  enableInterrupts { mcon with clients := Function.update mcon.clients cnum (mcon.clients cnum ||| mask) } mask

def connect (conx : XmemDrvrConnection) (cnum : ℕ) : ConnArea :=
  let midx := connectionModule wa conx cnum
  setMcon wa midx (connectMcon (wa.moduleContexts midx) conx.mask cnum)

def disConnectMcon (mcon : ConnModuleContext) (mask : BitVec 32) (cnum : ℕ) : ConnModuleContext :=
  let clients := Function.update mcon.clients cnum (mcon.clients cnum &&& ~~~mask)
  let disall := (List.range xmemDrvrClientContexts).all fun i => mask &&& clients i == 0
  let msk := mask &&& vmicLierMask
  if disall = true ∧ msk ≠ 0 then ⟨mcon.interruptEnable &&& ~~~msk, clients⟩ else ⟨mcon.interruptEnable, clients⟩

def disConnect (conx : XmemDrvrConnection) (cnum : ℕ) : ConnArea :=
  let midx := connectionModule wa conx cnum
  setMcon wa midx (disConnectMcon (wa.moduleContexts midx) conx.mask cnum)

/-- One turn of the loop of `DisConnectAll`. -/
def disConnectTurn (cnum : ℕ) (wa : ConnArea) (i : ℕ) : ConnArea :=
  let mask := (wa.moduleContexts i).clients cnum
  if mask = 0 then wa else disConnect wa ⟨i + 1, mask⟩ cnum

def disConnectAll (cnum : ℕ) : ConnArea := (List.range wa.modules).foldl (disConnectTurn cnum) wa

/-- `Reset` of a module that answers enables its interrupts again. -/
def reset (midx : ℕ) : ConnArea :=
  let mcon := wa.moduleContexts midx
  setMcon wa midx (enableInterrupts mcon mcon.interruptEnable)

/-! ### Entry points -/

inductive ConnCall
  | connect (conx : XmemDrvrConnection)
  | disConnect (conx : XmemDrvrConnection)
  | setModule (lav : ℕ)
  | reset

def connIoctl (cnum : ℕ) : ConnCall → Except XmemErrno ConnArea
  | .connect conx => .ok (connect wa conx cnum)
  | .disConnect conx => .ok (if conx.mask = 0 then disConnectAll wa cnum else disConnect wa conx cnum)
  | .setModule lav =>
    if 1 ≤ lav ∧ lav ≤ wa.modules then
      .ok (setCcon wa cnum { wa.clientContexts cnum with moduleIndex := lav - 1 })
    else .error .enodev
  | .reset => .ok (reset wa (wa.clientContexts cnum).moduleIndex)

def xmemDrvrOpen (minor : ℕ) : Except XmemErrno ConnArea :=
  if minor = 0 ∨ xmemDrvrClientContexts < minor then .error .efault
  else if (wa.clientContexts (minor - 1)).inUse then .error .ebusy
  else .ok (setCcon wa (minor - 1) ⟨true, 0⟩)

def xmemDrvrClose (minor : ℕ) : Except XmemErrno ConnArea :=
  if minor = 0 ∨ xmemDrvrClientContexts < minor then .error .efault
  else if (wa.clientContexts (minor - 1)).inUse then
    .ok (setCcon (disConnectAll wa (minor - 1)) (minor - 1) ⟨false, 0⟩)
  else .error .ebadf

def xmemDrvrIoctl (minor : ℕ) (call : ConnCall) : Except XmemErrno ConnArea :=
  if minor = 0 ∨ xmemDrvrClientContexts < minor then .error .enodev
  else if (wa.clientContexts (minor - 1)).inUse then connIoctl wa (minor - 1) call
  else .error .ebadf

/-- Calls on the file with the given minor number. -/
inductive ConnStep
  | open (minor : ℕ)
  | close (minor : ℕ)
  | ioctl (minor : ℕ) (call : ConnCall)

def connEntry : ConnStep → Except XmemErrno ConnArea
  | .open minor => xmemDrvrOpen wa minor
  | .close minor => xmemDrvrClose wa minor
  | .ioctl minor call => xmemDrvrIoctl wa minor call

/-- A call that fails leaves the working area as it was. -/
def connNext (a : ConnStep) : Option ConnArea := some ((connEntry wa a).toOption.getD wa)

end Driver

/-- The driver with `modules` modules after it was installed. -/
def connStart (modules : ℕ) : ConnArea := ⟨modules, fun _ => ⟨0, fun _ => 0⟩, fun _ => ⟨false, 0⟩⟩

end HtDrivers.Xmem
