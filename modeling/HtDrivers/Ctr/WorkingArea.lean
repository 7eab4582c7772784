import HtDrivers.Lib.Masks
import HtDrivers.Lib.Tables

/-! The working area of the CTR driver (`ctrdrvrP.h`), the connections of its clients, and how they are made and undone
(`ctrdrvr.c`). -/
namespace HtDrivers.Ctr
open HtDrivers.Lib.Tables
set_option autoImplicit false

def ctrDrvrClientContexts : ℕ := 16

def ctrDrvrModuleContexts : ℕ := 16

/-- Counter 0 and the eight real ones. -/
def ctrDrvrCounters : ℕ := 9

def ctrDrvrInterruptSources : ℕ := 14

def ctrDrvrRamTableSize : ℕ := 2048

def ctrDrvrCtimObjects : ℕ := 2048

def ctrDrvrPtimObjects : ℕ := 2048

instance : NeZero ctrDrvrClientContexts := ⟨by decide⟩

instance : NeZero ctrDrvrModuleContexts := ⟨by decide⟩

instance : NeZero ctrDrvrInterruptSources := ⟨by decide⟩

instance : NeZero ctrDrvrRamTableSize := ⟨by decide⟩

/-- `other` are the numbers without a name; a free slot has the class `hard`, which is 0. -/
inductive CtrDrvrConnectionClass
  | hard | ctim | ptim
  | other (value : ℕ)
deriving DecidableEq

structure CtrDrvrConnection where
  module : ℕ
  eqpClass : CtrDrvrConnectionClass
  eqpNum : BitVec 32
deriving DecidableEq

structure CtrDrvrEventFrame where
  header : ℕ
  code : ℕ
  value : ℕ
deriving DecidableEq

structure CtrDrvrTrigger where
  ctim : BitVec 32
  frame : CtrDrvrEventFrame
  counter : ℕ
deriving DecidableEq

/-- A place of the tables `Clients`, `Trigs`, `EqpNum` and `EqpClass`. -/
structure TrigSlot where
  clients : BitVec 32
  trig : CtrDrvrTrigger
  eqpNum : BitVec 32
  eqpClass : CtrDrvrConnectionClass

/-- `pastEnd` is set once a subscript of `HardClients` is past the end of the array. -/
structure CtrDrvrModuleContext where
  moduleIndex : ℕ
  inUse : Bool
  interruptEnable : BitVec 32
  slots : Fin ctrDrvrRamTableSize → TrigSlot
  hardClients : Fin ctrDrvrInterruptSources → BitVec 32
  pastEnd : Bool

structure CtrDrvrCtimBinding where
  eqpNum : BitVec 32
  frame : CtrDrvrEventFrame

structure CtrDrvrPtimBinding where
  eqpNum : BitVec 32
  moduleIndex : ℕ
  counter : ℕ
  size : ℕ
  startIndex : ℕ

/-- What the calls read of a client context; its `ClientIndex` is its number from the moment it is in use. -/
structure ClientModule where
  inUse : Bool
  moduleIndex : Fin ctrDrvrModuleContexts

structure CtrDrvrWorkingArea where
  ctim : List CtrDrvrCtimBinding
  ptim : List CtrDrvrPtimBinding
  modules : ℕ
  modules_le : modules ≤ ctrDrvrModuleContexts
  moduleContexts : Fin ctrDrvrModuleContexts → CtrDrvrModuleContext
  clientContexts : Fin ctrDrvrClientContexts → ClientModule

inductive CtrErrno
  | ebadf | ebusy | einval | enodev | enomem | enxio
deriving DecidableEq

inductive CtrReply
  | ok
  | error (errno : CtrErrno)
deriving DecidableEq

/-- The trigger with all words cleared. -/
def noTrigger : CtrDrvrTrigger := { ctim := 0, frame := ⟨0, 0, 0⟩, counter := 0 }

def freeSlot : TrigSlot := { clients := 0, trig := noTrigger, eqpNum := 0, eqpClass := .hard }

def clientMask (client : Fin ctrDrvrClientContexts) : BitVec 32 := BitVec.twoPow 32 client

section Modules

/-- Slot `i` gets a new content. -/
def CtrDrvrModuleContext.setSlot (mcon : CtrDrvrModuleContext) (i : Fin ctrDrvrRamTableSize) (slot : TrigSlot) :
    CtrDrvrModuleContext := { mcon with slots := Function.update mcon.slots i slot }

def CtrDrvrModuleContext.setHardClients (mcon : CtrDrvrModuleContext) (i : Fin ctrDrvrInterruptSources)
    (clients : BitVec 32) : CtrDrvrModuleContext :=
    { mcon with hardClients := Function.update mcon.hardClients i clients }

def CtrDrvrWorkingArea.setModule (wa : CtrDrvrWorkingArea) (midx : Fin ctrDrvrModuleContexts)
    (mcon : CtrDrvrModuleContext) : CtrDrvrWorkingArea :=
  { wa with moduleContexts := Function.update wa.moduleContexts midx mcon }

end Modules

/-! ## Connect -/

section Connect

def enableInterrupts (mcon : CtrDrvrModuleContext) (msk : BitVec 32) : CtrDrvrModuleContext :=
  { mcon with interruptEnable := mcon.interruptEnable ||| msk }

/-- A number of 1 or more, or 0 where there is no such object. -/
def getPtimModule (wa : CtrDrvrWorkingArea) (eqpNum : BitVec 32) : ℕ :=
  match wa.ptim.find? fun object => eqpNum == object.eqpNum with
  | some object => object.moduleIndex + 1
  | none => 0

/-- The slot is one of the object's. -/
def TrigSlot.matches (slot : TrigSlot) (conx : CtrDrvrConnection) : Bool :=
  conx.eqpNum == slot.eqpNum && conx.eqpClass == slot.eqpClass

/-- The client is added to the slot and `enable` to the interrupts. -/
def joinSlot (client : Fin ctrDrvrClientContexts) (mcon : CtrDrvrModuleContext) (i : Fin ctrDrvrRamTableSize)
    (enable : BitVec 32) : CtrDrvrModuleContext :=
  let slot := mcon.slots i
  let mcon := mcon.setSlot i { slot with clients := slot.clients ||| clientMask client }
  { mcon with interruptEnable := mcon.interruptEnable ||| enable }

def connectPtimAt (client : Fin ctrDrvrClientContexts) (conx : CtrDrvrConnection) (s : CtrDrvrModuleContext × ℕ)
    (i : Fin ctrDrvrRamTableSize) : CtrDrvrModuleContext × ℕ :=
  if (s.1.slots i).matches conx then (joinSlot client s.1 i (BitVec.twoPow 32 (s.1.slots i).trig.counter), s.2 + 1)
  else s

/-- With the number of connections. -/
def connectPtim (client : Fin ctrDrvrClientContexts) (conx : CtrDrvrConnection) (mcon : CtrDrvrModuleContext) :
    CtrDrvrModuleContext × ℕ :=
  forEach (connectPtimAt client conx) (mcon, 0)

/-- A new instance of a CTIM object in an empty slot. -/
def newCtim (client : Fin ctrDrvrClientContexts) (eqpNum : BitVec 32) (frame : CtrDrvrEventFrame)
    (mcon : CtrDrvrModuleContext) (i : Fin ctrDrvrRamTableSize) : CtrDrvrModuleContext :=
  let trig : CtrDrvrTrigger := { ctim := eqpNum, frame := frame, counter := 0 }
  let slot : TrigSlot := { mcon.slots i with eqpNum := eqpNum, eqpClass := .ctim, trig := trig }
  joinSlot client (mcon.setSlot i slot) i (BitVec.twoPow 32 0)

/-- The frame of a CTIM object; one with an empty header counts as none. -/
def ctimFrame (wa : CtrDrvrWorkingArea) (eqpNum : BitVec 32) : Option CtrDrvrEventFrame :=
  match wa.ctim.find? fun object => eqpNum == object.eqpNum with
  | some object => if object.frame.header = 0 then none else some object.frame
  | none => none

def connectCtim (wa : CtrDrvrWorkingArea) (client : Fin ctrDrvrClientContexts) (conx : CtrDrvrConnection)
    (mcon : CtrDrvrModuleContext) : CtrDrvrModuleContext × CtrReply :=
  match firstPlace fun i => (mcon.slots i).matches conx with
  | some i => (joinSlot client mcon i (BitVec.twoPow 32 0), .ok)
  | none =>
    match ctimFrame wa conx.eqpNum with
    | none => (mcon, .error .enxio)
    | some frame =>
      match firstPlace fun i => (mcon.slots i).eqpNum == 0 with
      | some i => (newCtim client conx.eqpNum frame mcon i, .ok)
      | none => (mcon, .error .enomem)

def connectHardAt (client : Fin ctrDrvrClientContexts) (conx : CtrDrvrConnection) (s : CtrDrvrModuleContext × ℕ)
    (i : Fin ctrDrvrInterruptSources) : CtrDrvrModuleContext × ℕ :=
  if conx.eqpNum.getLsbD i then
    let mcon := { s.1 with interruptEnable := s.1.interruptEnable ||| BitVec.twoPow 32 i }
    (mcon.setHardClients i (mcon.hardClients i ||| clientMask client), s.2 + 1)
  else s

def connectHard (client : Fin ctrDrvrClientContexts) (conx : CtrDrvrConnection) (mcon : CtrDrvrModuleContext) :
    CtrDrvrModuleContext × ℕ :=
  forEach (connectHardAt client conx) (mcon, 0)

/-- The module that a connection names, or else the current one of the client. -/
def connectModule (wa : CtrDrvrWorkingArea) (client : Fin ctrDrvrClientContexts) (conx : CtrDrvrConnection) :
    Fin ctrDrvrModuleContexts :=
  if h : conx.module - 1 < ctrDrvrModuleContexts ∧ conx.module ≠ 0 then ⟨conx.module - 1, h.1⟩
  else (wa.clientContexts client).moduleIndex

/-- The end of `Connect`, with the number of connections. -/
def connected (wa : CtrDrvrWorkingArea) (midx : Fin ctrDrvrModuleContexts) (result : CtrDrvrModuleContext × ℕ) :
    CtrDrvrWorkingArea × CtrReply :=
  if result.2 = 0 then (wa.setModule midx result.1, .error .enxio)
  else (wa.setModule midx (enableInterrupts result.1 result.1.interruptEnable), .ok)

/-- A class without a name is taken for a hardware connection. -/
def connect (wa : CtrDrvrWorkingArea) (client : Fin ctrDrvrClientContexts) (conx : CtrDrvrConnection) :
    CtrDrvrWorkingArea × CtrReply :=
  let midx := connectModule wa client conx
  match conx.eqpClass with
  | .ptim =>
    let number := getPtimModule wa conx.eqpNum
    if h : number - 1 < ctrDrvrModuleContexts ∧ number ≠ 0 then
      connected wa ⟨number - 1, h.1⟩ (connectPtim client conx (wa.moduleContexts ⟨number - 1, h.1⟩))
    else (wa, .error .enxio)
  | .ctim =>
    let result := connectCtim wa client conx (wa.moduleContexts midx)
    match result.2 with
    | .ok => (wa.setModule midx (enableInterrupts result.1 result.1.interruptEnable), .ok)
    | .error errno => (wa.setModule midx result.1, .error errno)
  | .hard | .other _ => connected wa midx (connectHard client conx (wa.moduleContexts midx))

end Connect

/-! ## DisConnect

`beyond k` is the word that a subscript `k` past the end of `HardClients` reads. -/

section DisConnect
variable (beyond : ℕ → BitVec 32) (client : Fin ctrDrvrClientContexts)

/-- A client apart from this one. -/
def otherClients (clients : BitVec 32) : Bool := clients &&& ~~~clientMask client != 0

def hardClientsAt (mcon : CtrDrvrModuleContext) (k : ℕ) : BitVec 32 :=
  if h : k < ctrDrvrInterruptSources then mcon.hardClients ⟨k, h⟩ else beyond k

def othersOnSlots (mcon : CtrDrvrModuleContext) (cntr : ℕ) : Prop :=
  ∃ i, (mcon.slots i).trig.counter = cntr ∧ otherClients client (mcon.slots i).clients = true

instance (mcon : CtrDrvrModuleContext) (cntr : ℕ) : Decidable (othersOnSlots client mcon cntr) :=
  inferInstanceAs
    (Decidable (∃ i, (mcon.slots i).trig.counter = cntr ∧ otherClients client (mcon.slots i).clients = true))

/-- Other clients on a counter, connected to its source or to a slot. -/
def sharedCounter (mcon : CtrDrvrModuleContext) (cntr : ℕ) : Bool :=
  otherClients client (hardClientsAt beyond mcon cntr) || decide (othersOnSlots client mcon cntr)

/-- The counter of a slot, or a source that is taken for a counter. -/
def counterOf (mcon : CtrDrvrModuleContext) (clss : CtrDrvrConnectionClass) (tndx : Fin ctrDrvrRamTableSize) :
    Option ℕ :=
  if clss ≠ .hard then some (mcon.slots tndx).trig.counter
  else if (tndx : ℕ) ≤ ctrDrvrCounters then some tndx
  else none

/-- The subscript `tndx` of `HardClients` is a slot for the classes of objects. -/
def disableInterrupts (clss : CtrDrvrConnectionClass) (mcon : CtrDrvrModuleContext) (tndx : Fin ctrDrvrRamTableSize) :
    CtrDrvrModuleContext :=
  let cntr := counterOf mcon clss tndx
  let mcon := { mcon with pastEnd := mcon.pastEnd || cntr.any fun k => decide (ctrDrvrInterruptSources ≤ k) }
  if cntr.any (sharedCounter beyond client mcon) then mcon
  else
    let mcon := { mcon with pastEnd := mcon.pastEnd || decide (ctrDrvrInterruptSources ≤ tndx) }
    if otherClients client (hardClientsAt beyond mcon tndx) then mcon
    else { mcon with interruptEnable := mcon.interruptEnable &&& ~~~BitVec.twoPow 32 (cntr.getD tndx) }

/-- The part for the classes of objects. -/
def leaveSlot (clss : CtrDrvrConnectionClass) (mcon : CtrDrvrModuleContext) (tndx : Fin ctrDrvrRamTableSize) :
    CtrDrvrModuleContext :=
  let slot := mcon.slots tndx
  if slot.clients.getLsbD client then
    let clients := slot.clients &&& ~~~clientMask client
    let mcon := mcon.setSlot tndx { slot with clients := clients }
    if clients = 0 then
      let mcon := disableInterrupts beyond client clss mcon tndx
      if slot.eqpClass = .ctim then mcon.setSlot tndx { mcon.slots tndx with eqpNum := 0, eqpClass := .hard } else mcon
    else mcon
  else mcon

/-- The part for a hardware source. -/
def leaveSource (mcon : CtrDrvrModuleContext) (source : Fin ctrDrvrInterruptSources) : CtrDrvrModuleContext :=
  if mcon.hardClients source ≠ 0 then
    let clients := mcon.hardClients source &&& ~~~clientMask client
    let mcon := mcon.setHardClients source clients
    if clients = 0 then disableInterrupts beyond client .hard mcon (source.castLE (by decide)) else mcon
  else mcon

def disConnectOne (clss : CtrDrvrConnectionClass) (mcon : CtrDrvrModuleContext) (tndx : Fin ctrDrvrRamTableSize) :
    CtrDrvrModuleContext :=
  match clss with
  | .ctim | .ptim => leaveSlot beyond client clss mcon tndx
  | .hard =>
    if h : (tndx : ℕ) < ctrDrvrInterruptSources then leaveSource beyond client mcon ⟨tndx, h⟩
    else { mcon with pastEnd := true }
  | .other _ => mcon

def disConnectSource (mcon : CtrDrvrModuleContext) (i : Fin ctrDrvrInterruptSources) : CtrDrvrModuleContext :=
  disConnectOne beyond client .hard mcon (i.castLE (by decide))

def disConnectObject (conx : CtrDrvrConnection) (mcon : CtrDrvrModuleContext) (i : Fin ctrDrvrRamTableSize) :
    CtrDrvrModuleContext :=
  if (mcon.slots i).matches conx then disConnectOne beyond client conx.eqpClass mcon i else mcon

/-- `DisConnect` on the module that it names. -/
def disConnectFrom (conx : CtrDrvrConnection) (mcon : CtrDrvrModuleContext) : CtrDrvrModuleContext :=
  if conx.eqpClass ≠ .hard then forEach (disConnectObject beyond client conx) mcon
  else forEach (disConnectSource beyond client) mcon

def disConnectAny (mcon : CtrDrvrModuleContext) (i : Fin ctrDrvrRamTableSize) : CtrDrvrModuleContext :=
  if (mcon.slots i).eqpNum ≠ 0 then disConnectOne beyond client (mcon.slots i).eqpClass mcon i else mcon

/-- `DisConnectAll` on one module. -/
def disConnectModule (mcon : CtrDrvrModuleContext) : CtrDrvrModuleContext :=
  forEach (disConnectSource beyond client) (forEach (disConnectAny beyond client) mcon)

end DisConnect

section DisConnectCalls
variable (beyond : Fin ctrDrvrModuleContexts → ℕ → BitVec 32)

/-- A number that is none of the module contexts' changes nothing here, and no run goes on behind it. -/
def disConnect (wa : CtrDrvrWorkingArea) (client : Fin ctrDrvrClientContexts) (conx : CtrDrvrConnection) :
    CtrDrvrWorkingArea :=
  if h : conx.module - 1 < ctrDrvrModuleContexts ∧ conx.module ≠ 0 then
    let midx : Fin ctrDrvrModuleContexts := ⟨conx.module - 1, h.1⟩
    wa.setModule midx (disConnectFrom (beyond midx) client conx (wa.moduleContexts midx))
  else wa

def disConnectAll (wa : CtrDrvrWorkingArea) (client : Fin ctrDrvrClientContexts) : CtrDrvrWorkingArea :=
  { wa with
    moduleContexts := fun midx =>
      if midx < wa.modules then disConnectModule (beyond midx) client (wa.moduleContexts midx)
      else wa.moduleContexts midx }

end DisConnectCalls

end HtDrivers.Ctr
