import HtDrivers.Lib.Masks

/-! Messages from one node of the reflective memory to others (`xmemDrvr.c`, `VmicLib.c`). The driver only writes
registers of the sender's module; what these writes do to the nodes of the network is said by `interruptsAt`. -/
namespace HtDrivers.Xmem
set_option autoImplicit false

/-! ## Constants -/

def xmemDrvrNodes : ℕ := 32
def xmemAllNodes : BitVec 32 := BitVec.allOnes 32

def xmemDrvrNicCast : BitVec 32 := 0x38
def xmemDrvrNicType : BitVec 32 := 0x07

def xmemDrvrNicRequestReset : BitVec 32 := 0x00
def xmemDrvrNicInt1 : BitVec 32 := 0x01
def xmemDrvrNicInt2 : BitVec 32 := 0x02
def xmemDrvrNicSegmentUpdate : BitVec 32 := 0x03
def xmemDrvrNicInitialized : BitVec 32 := 0x07

def xmemDrvrNicBroadcast : BitVec 32 := 0x08
def xmemDrvrNicMulticast : BitVec 32 := 0x10
def xmemDrvrNicUnicast : BitVec 32 := 0x20

/-! ## The driver -/

inductive XmemErrno
  | enxio | einval | eacces | efault | enodev | ebusy | ebadf | eintr | eio | erange
deriving DecidableEq

structure XmemDrvrSendBuf where
  module : ℕ
  unicastNodeId : ℕ
  multicastMask : BitVec 32
  interruptType : BitVec 32
  data : BitVec 32

/-- An interrupt as a node sees it. -/
structure Interrupt where
  ntype : BitVec 3
  data : BitVec 32
deriving DecidableEq

/-- Writes to the registers NTD, NTN and NIC, and calls of `InterruptSelf`. -/
inductive SendAct
  | ntd (data : BitVec 32)
  | ntn (node : BitVec 8)
  | nic (value : BitVec 8)
  | interruptSelf (interrupt : Interrupt)

/-- What `SendInterrupt` reads of the working area. -/
structure SendArea where
  modules : ℕ
  nodeId : ℕ → ℕ

section Driver
variable (wa : SendArea)

def ntypeOf (sbuf : XmemDrvrSendBuf) : BitVec 32 := sbuf.interruptType &&& xmemDrvrNicType
def ncastOf (sbuf : XmemDrvrSendBuf) : BitVec 32 := sbuf.interruptType &&& xmemDrvrNicCast

def interruptSelf (sbuf : XmemDrvrSendBuf) : SendAct := .interruptSelf ⟨(ntypeOf sbuf).truncate 3, sbuf.data⟩

/-- One turn of the loop of a multicast, for bit `i` of the mask. -/
def multicastTurn (nodeId : ℕ) (sbuf : XmemDrvrSendBuf) (i : ℕ) : List SendAct :=
  if i + 1 = nodeId then [interruptSelf sbuf]
  else if sbuf.multicastMask.getLsbD i then [.ntn (BitVec.ofNat 8 (i + 1)), .nic ((ntypeOf sbuf).truncate 8)]
  else []

def sendInterrupt (sbuf : XmemDrvrSendBuf) : Except XmemErrno (List SendAct) :=
  if sbuf.module = 0 ∨ wa.modules < sbuf.module then .error .enxio
  else
    let nodeId := wa.nodeId (sbuf.module - 1)
    let ntype := ntypeOf sbuf
    let sent : Except XmemErrno (List SendAct) :=
      if ncastOf sbuf = xmemDrvrNicBroadcast then
        .ok [.nic ((xmemDrvrNicBroadcast ||| ntype).truncate 8), interruptSelf sbuf]
      else if ncastOf sbuf = xmemDrvrNicMulticast then
        .ok ((List.range xmemDrvrNodes).flatMap (multicastTurn nodeId sbuf))
      else if ncastOf sbuf = xmemDrvrNicUnicast then
        .ok (if sbuf.unicastNodeId = nodeId then [interruptSelf sbuf]
          else [.ntn (BitVec.ofNat 8 sbuf.unicastNodeId), .nic (ntype.truncate 8)])
      else .error .einval
    sent.map fun acts => .ntd sbuf.data :: acts

end Driver

/-! ## The network -/

/-- A write to NIC sends the type in its lowest three bits with the data in NTD: to every other node where the broadcast
bit is set, and else to the node in NTN. -/
def nicReaches (nodeId : ℕ) (ntn value : BitVec 8) (n : ℕ) : Prop :=
  if value.getLsbD 3 then n ≠ nodeId else n = ntn.toNat

instance (nodeId : ℕ) (ntn value : BitVec 8) (n : ℕ) : Decidable (nicReaches nodeId ntn value n) :=
  inferInstanceAs (Decidable (ite _ _ _))

/-- The interrupts that node `n` gets from the acts of node `nodeId`, given the contents of NTD and NTN. -/
def interruptsAt (nodeId n : ℕ) : BitVec 32 → BitVec 8 → List SendAct → List Interrupt
  | _, _, [] => []
  | _, ntn, .ntd data :: acts => interruptsAt nodeId n data ntn acts
  | ntd, _, .ntn node :: acts => interruptsAt nodeId n ntd node acts
  | ntd, ntn, .nic value :: acts =>
    (if nicReaches nodeId ntn value n then [⟨value.truncate 3, ntd⟩] else []) ++ interruptsAt nodeId n ntd ntn acts
  | ntd, ntn, .interruptSelf interrupt :: acts =>
    (if n = nodeId then [interrupt] else []) ++ interruptsAt nodeId n ntd ntn acts

/-! ## The library -/

inductive XmemMessageType
  | sendTable | user | tableUpdate | initializeMe | kill | count
deriving DecidableEq

structure XmemMessage where
  messageType : XmemMessageType
  data : BitVec 32

inductive XmemError
  | noSuchMessage | system
deriving DecidableEq

/-- The interrupt of a message; `XmemMessageTypeCOUNT` is no message. -/
def nicOf : XmemMessageType → Option (BitVec 32)
  | .sendTable => some xmemDrvrNicInt2
  | .user => some xmemDrvrNicInt1
  | .tableUpdate => some xmemDrvrNicSegmentUpdate
  | .initializeMe => some xmemDrvrNicInitialized
  | .kill => some xmemDrvrNicRequestReset
  | .count => none

/-- The loop that counts the nodes up to the second one, with the number of the last node that it met. -/
def countNodes (nodes : BitVec 32) : List ℕ → ℕ × ℕ → ℕ × ℕ
  | [], found => found
  | i :: bits, found =>
    let found := if nodes.getLsbD i then (found.1 + 1, i + 1) else found
    if 1 < found.1 then found else countNodes nodes bits found

/-- The cast of a message, the node of a unicast and the mask of a multicast. -/
def castOf (nodes : BitVec 32) : BitVec 32 × ℕ × BitVec 32 :=
  if nodes = xmemAllNodes then (xmemDrvrNicBroadcast, 0, 0)
  else
    let found := countNodes nodes (List.range xmemDrvrNodes) (0, 0)
    if found.1 = 1 then (xmemDrvrNicUnicast, found.2, 0) else (xmemDrvrNicMulticast, 0, nodes)

/-- `VmicSendMessage`, with the register writes of the driver. -/
def vmicSendMessage (wa : SendArea) (nodes : BitVec 32) (mess : XmemMessage) : Except XmemError (List SendAct) :=
  let cast := castOf nodes
  match nicOf mess.messageType with
  | none => .error .noSuchMessage
  | some mtyp =>
    match sendInterrupt wa ⟨1, cast.2.1, cast.2.2, mtyp ||| cast.1, mess.data⟩ with
    | .error _ => .error .system
    | .ok acts => .ok acts

end HtDrivers.Xmem
