import HtDrivers.Xmem.SegTable
import HtDrivers.Xmem.SendMessage

/-! Reads and writes of segments: `READ_SEGMENT` and `WRITE_SEGMENT` down to the bytes that go to and from the memory of
a module (`xmemDrvr.c`). Addresses in this memory are words of 32 bits, and sums of them wrap around. -/
namespace HtDrivers.Xmem
set_option autoImplicit false

def pageSize : ℕ := 4096
def xmemDrvrMaxSegmentSize : ℕ := 64 * 1024 * 1024
def xmemDrvrMaxDmaChain : ℕ := xmemDrvrMaxSegmentSize / (pageSize + 1)

inductive XmemDrvrIoDir
  | read | write
deriving DecidableEq

/-- What `UserArray` points to: nothing, the memory of the user, or the page `Tempbuf` of the module. -/
inductive UserArray
  | null
  | user (address : ℕ)
  | tempbuf
deriving DecidableEq

structure XmemDrvrSegIoDesc where
  module : ℕ
  id : BitVec 32
  offset : BitVec 32
  size : BitVec 32
  userArray : UserArray
  updateFlg : Bool

/-- A piece of a buffer as the bus sees it. -/
structure DmaChain where
  address : ℕ
  count : ℕ

/-- The DMA operation of a module; a `dma` of 0 is no mapping. -/
structure XmemDmaOp where
  dma : ℕ
  len : ℕ

structure SegModuleContext where
  nodeId : ℕ
  dmaOp : XmemDmaOp

structure SegArea where
  modules : ℕ
  dmaThreshold : ℕ
  segTable : XmemDrvrSegTable
  moduleContexts : ℕ → SegModuleContext

/-- What a copy moves from or to the memory of a module: a buffer in memory, or an address on the bus. -/
inductive Host
  | buffer (array : UserArray)
  | bus (address : ℕ)

/-- `len` bytes between the memory of the module from `sram` on and the host. -/
structure Transfer where
  iod : XmemDrvrIoDir
  module : ℕ
  sram : BitVec 32
  host : Host
  len : ℕ

/-- The rest of the system during one request: whether the copies from and to the user work, the pieces that
`cdcm_pci_mmchain_lock` returns, and which of the DMAs end well. -/
structure SegEnv where
  copyFromUser : Bool
  copyToUser : Bool
  mmchainLock : Option (List DmaChain)
  dmaDone : ℕ → Bool

/-- How a request ends, with its error if it fails, the transfers that it makes and the working area that it leaves. -/
structure SegOutcome where
  error : Option XmemErrno
  transfers : List Transfer
  area : SegArea

section Driver
variable (wa : SegArea)

def segFail (err : XmemErrno) : SegOutcome := ⟨some err, [], wa⟩

def setDmaOp (midx : ℕ) (op : XmemDmaOp) : SegArea :=
  { wa with moduleContexts := Function.update wa.moduleContexts midx { wa.moduleContexts midx with dmaOp := op } }

/-- `LongCopyToXmem` and `LongCopyFromXmem` copy whole words of four bytes. -/
def longCopy (size : BitVec 32) : ℕ := 4 * (size.toNat / 4)

/-- `PageCopy` of a mapped piece: it works with the DMA operation of the module of the request. -/
def pageCopy (siod : XmemDrvrSegIoDesc) (iod : XmemDrvrIoDir) (done : Bool) : SegOutcome :=
  let midx := siod.module - 1
  if siod.module = 0 ∨ wa.modules < siod.module then segFail wa .enodev
  else if siod.id = 0 then segFail wa .enodev
  else match segmentOf wa.segTable siod.id with
    | none => segFail wa .enxio
    | some sgds =>
      let mcon := wa.moduleContexts midx
      if mcon.dmaOp.dma = 0 then segFail wa .eio
      else if iod = .write ∧ wrPermSeg wa.segTable siod.id mcon.nodeId = false then segFail wa .eacces
      else ⟨if done then none else some .ebusy,
        [⟨iod, midx, sgds.address + siod.offset, .bus mcon.dmaOp.dma, mcon.dmaOp.len⟩], wa⟩

/-- The loop over the pieces, from piece `pg` on. -/
def dmaLoop (midx : ℕ) (iod : XmemDrvrIoDir) (done : ℕ → Bool) :
    SegArea → XmemDrvrSegIoDesc → ℕ → List DmaChain → SegOutcome
  | wa, _, _, [] => ⟨none, [], wa⟩
  | wa, sio, pg, piece :: pieces =>
    let wa := setDmaOp wa midx ⟨piece.address, piece.count⟩
    let page := pageCopy wa sio iod (done pg)
    if page.error.isSome then page
    else
      let rest := dmaLoop midx iod done wa { sio with offset := sio.offset + BitVec.ofNat 32 piece.count }
        (pg + 1) pieces
      { rest with transfers := page.transfers ++ rest.transfers }

/-- The update that follows a write where it is asked for. -/
def sendUpdate (siod : XmemDrvrSegIoDesc) (iod : XmemDrvrIoDir) (outcome : SegOutcome) : SegOutcome :=
  if outcome.error = none ∧ iod = .write ∧ siod.updateFlg = true then
    match sendInterrupt ⟨wa.modules, fun midx => (wa.moduleContexts midx).nodeId⟩
      ⟨siod.module, 0, 0, xmemDrvrNicSegmentUpdate ||| xmemDrvrNicBroadcast, siod.id⟩ with
    | .error err => { outcome with error := some err }
    | .ok _ => outcome
  else outcome

/-- `SegmentCopy` for a client that works with module `midx`. -/
def segmentCopy (midx : ℕ) (env : SegEnv) (siod : XmemDrvrSegIoDesc) (iod : XmemDrvrIoDir) : SegOutcome :=
  if siod.userArray = .null then segFail wa .efault
  else if siod.id = 0 then segFail wa .enodev
  else match segmentOf wa.segTable siod.id with
    | none => segFail wa .enxio
    | some sgds =>
      if wa.dmaThreshold ≤ siod.size.toNat then
        match env.mmchainLock with
        | none => segFail wa .erange
        | some pieces =>
          if pieces = [] ∨ xmemDrvrMaxDmaChain < pieces.length then segFail wa .erange
          else sendUpdate wa siod iod (dmaLoop midx iod env.dmaDone wa siod 0 pieces)
      else if iod = .write ∧ wrPermSeg wa.segTable siod.id (wa.moduleContexts midx).nodeId = false
        then segFail wa .eacces
      else sendUpdate wa siod iod
        ⟨none, [⟨iod, midx, sgds.address + siod.offset, .buffer siod.userArray, longCopy siod.size⟩], wa⟩

/-- `READ_SEGMENT` and `WRITE_SEGMENT`; only a read copies `Tempbuf` back. -/
def segmentIoctl (midx : ℕ) (env : SegEnv) (siod : XmemDrvrSegIoDesc) (iod : XmemDrvrIoDir) : SegOutcome :=
  if siod.userArray = .null then segFail wa .einval
  else if wa.dmaThreshold ≤ siod.size.toNat then segmentCopy wa midx env siod iod
  else if env.copyFromUser = false then segFail wa .efault
  else
    let outcome := segmentCopy wa midx env { siod with userArray := .tempbuf } iod
    if outcome.error = none ∧ iod = .read ∧ env.copyToUser = false then { outcome with error := some .efault }
      else outcome

end Driver

end HtDrivers.Xmem
