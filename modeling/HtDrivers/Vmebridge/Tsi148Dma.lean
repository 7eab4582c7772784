import HtDrivers.Lib.Chain
import HtDrivers.Lib.Ledger
import HtDrivers.Vmebridge.Tsi148Attr

/-! # The DMA engine of the TSI148 (`tsi148.c`): descriptors, links and the chain

A descriptor is named by its bus address: `struct tsi148_dma_desc *` and the address the pool
returns for it point at the same coherent memory. `Chan.mem` is that memory, `none` where the
descriptor has not been written since the pool handed it out. Fields are kept in the byte order of
the reader; the driver's `cpu_to_be32` and the chip's big-endian reads undo each other.

`dma_addr_t` has the width `w` of the kernel configuration, 32 or 64 bits. The memory below an
allocator is a parameter: the pool's answers to the successive requests are a list, and a request
past its end is refused.
-/
namespace HtDrivers.Vmebridge
open HtDrivers.Lib HtDrivers.Lib.Ledger
set_option autoImplicit false

/-! ## Data -/

structure TsiDmaDesc where
  dsau : U32
  dsal : U32
  ddau : U32
  ddal : U32
  dsat : U32
  ddat : U32
  dnlau : U32
  dnlal : U32
  dcnt : U32
  ddbs : U32
  deriving DecidableEq, Repr

/-- An entry of the scatterlist before it is mapped: `sg_set_page(page, length, offset)`. -/
structure SgEntry where
  page : ℕ
  length : U32
  offset : U32
  deriving DecidableEq, Repr

/-- A mapped entry: `sg_dma_address` and `sg_dma_len`. -/
structure DmaSeg (w : ℕ) where
  addr : BitVec w
  len : U32
  deriving DecidableEq, Repr

/-- What `hwdesc_init` gets from its two allocations: no descriptor, a descriptor at a bus address
but no list entry for it, or both. -/
inductive PoolAnswer (w : ℕ) where
  | noDesc
  | noEntry (phys : BitVec w)
  | ok (phys : BitVec w)
  deriving DecidableEq, Repr

/-- The resources of one transfer. -/
inductive Res (w : ℕ) where
  | sgl
  | pageArray
  | page (n : ℕ)
  | hwDesc (phys : BitVec w)
  | hwDescEntry (phys : BitVec w)
  deriving DecidableEq, Repr

inductive DmaReg where
  | dctl
  | dnlau
  | dnlal
  deriving DecidableEq, Repr

/-- What the chip starts from when the go bit is written, with the descriptors the driver holds for
the transfer at that moment. -/
structure Launch (w : ℕ) where
  dnlal : U32
  mem : BitVec w → Option TsiDmaDesc
  hwDescList : List (BitVec w)

/-- `struct dma_channel`, with the channel's registers, the descriptor memory and what the channel's
owner did: the register writes, the resource ledger and the transfers started. -/
structure Chan (w : ℕ) where
  busy : Bool
  desc : VmeDma
  chained : Bool
  sgl : List SgEntry
  sgPages : Int
  sgMapped : List (DmaSeg w)
  hwDescList : List (BitVec w)
  mem : BitVec w → Option TsiDmaDesc
  dctl : U32
  dnlau : U32
  dnlal : U32
  writes : List (DmaReg × U32)
  ledger : List (Entry (Res w))
  launches : List (Launch w)

variable {w : ℕ}

/-! ## Registers -/

def tsi148LcsrDnlalDnlalM : U32 := 0x1FFFFFFF#32 <<< 3
def tsi148LcsrDnlalLla : U32 := 1#32 <<< 0
def tsi148LcsrDctlAbt : U32 := 1#32 <<< 27
def tsi148LcsrDctlDgo : U32 := 1#32 <<< 25
def tsi148LcsrDctlMod : U32 := 1#32 <<< 23
def tsi148LcsrDsatTypPci : U32 := 0#32 <<< 28
def tsi148LcsrDsatTypVme : U32 := 1#32 <<< 28
def tsi148LcsrDdatTypPci : U32 := 0#32 <<< 28
def tsi148LcsrDdatTypVme : U32 := 1#32 <<< 28

def Chan.iowrite (ch : Chan w) (r : DmaReg) (v : U32) : Chan w :=
  match r with
  | .dctl => { ch with dctl := v, writes := ch.writes ++ [(.dctl, v)] }
  | .dnlau => { ch with dnlau := v, writes := ch.writes ++ [(.dnlau, v)] }
  | .dnlal => { ch with dnlal := v, writes := ch.writes ++ [(.dnlal, v)] }

/-- `phys & TSI148_LCSR_DNLAL_DNLAL_M`, stored in a 32-bit register or field. The mask is a negative
`int`, so it is sign-extended to the width of `dma_addr_t`. -/
def linkWord (phys : BitVec w) : U32 :=
  (phys &&& tsi148LcsrDnlalDnlalM.signExtend w).setWidth 32

/-- What the chip finds when it follows the chain to bus address `a`. -/
def chipNext (mem : BitVec w → Option TsiDmaDesc) (a : BitVec w) : Option (Option (BitVec w)) :=
  (mem a).map fun d =>
    if d.dnlal &&& tsi148LcsrDnlalLla ≠ 0 then none
    else some ((d.dnlal &&& tsi148LcsrDnlalDnlalM).setWidth w)

/-! ## Attributes -/

def tsi148DmaSetupSrc (desc : VmeDma) : Option U32 :=
  if desc.dir = vmeDmaToDevice then some tsi148LcsrDsatTypPci
  else if desc.dir = vmeDmaFromDevice then
    (tsi148SetupDmaAttributes desc.src.v2esstMode desc.src.dataWidth desc.src.am).map
      (· ||| tsi148LcsrDsatTypVme)
  else none

def tsi148DmaSetupDst (desc : VmeDma) : Option U32 :=
  if desc.dir = vmeDmaToDevice then
    (tsi148SetupDmaAttributes desc.dst.v2esstMode desc.dst.dataWidth desc.dst.am).map
      (· ||| tsi148LcsrDdatTypVme)
  else if desc.dir = vmeDmaFromDevice then some tsi148LcsrDdatTypPci
  else none

/-- `tsi148_dma_setup_ctl`. The enumerations are unsigned, so only the upper ends are tests. -/
def tsi148DmaSetupCtl (desc : VmeDma) : Option U32 :=
  if desc.ctrl.vmeBlockSize > vmeDmaBsize4096 then none
  else if desc.ctrl.vmeBackoffTime > vmeDmaBackoff64 then none
  else if desc.ctrl.pciBlockSize > vmeDmaBsize4096 then none
  else if desc.ctrl.pciBackoffTime > vmeDmaBackoff64 then none
  else
    some (((desc.ctrl.vmeBlockSize <<< 12) &&& (7#32 <<< 12)) |||
      ((desc.ctrl.vmeBackoffTime <<< 8) &&& (7#32 <<< 8)) |||
      ((desc.ctrl.pciBlockSize <<< 4) &&& (7#32 <<< 4)) |||
      ((desc.ctrl.pciBackoffTime <<< 0) &&& (7#32 <<< 0)))

/-! ## The chain -/

def tsi148DmaFreeChain (ch : Chan w) : Chan w :=
  { ch with
    hwDescList := []
    ledger := ch.ledger ++ ch.hwDescList.flatMap fun p => [.release (.hwDesc p), .release (.hwDescEntry p)] }

def getVmeaddr (desc : VmeDma) : Option U32 :=
  if desc.dir = vmeDmaToDevice then some desc.dst.addrl
  else if desc.dir = vmeDmaFromDevice then some desc.src.addrl
  else none

/-- `hwdesc_init` on one answer of the pool: the bus address of the new descriptor, or `none` for
`-ENOMEM`. -/
def hwdescInit (ch : Chan w) : PoolAnswer w → Option (BitVec w) × Chan w
  | .noDesc => (none, ch)
  | .noEntry p => (none, { ch with ledger := ch.ledger ++ [.acquire (.hwDesc p), .release (.hwDesc p)] })
  | .ok p =>
    (some p, { ch with
      hwDescList := ch.hwDescList ++ [p]
      mem := Function.update ch.mem p none
      ledger := ch.ledger ++ [.acquire (.hwDesc p), .acquire (.hwDescEntry p)] })

/-- `tsi148_fill_dma_desc` on a descriptor that holds `old`. The caller ignores the return code. -/
def tsi148FillDmaDesc (desc : VmeDma) (old : Option TsiDmaDesc) (vmeAddr : U32) (dmaAddr : BitVec w)
    (len dsat ddat : U32) : Option TsiDmaDesc :=
  if desc.dir = vmeDmaToDevice then
    some { dsau := 0, ddau := 0, dsal := dmaAddr.setWidth 32, ddal := vmeAddr, ddbs := desc.dst.bcastSelect
           dcnt := len, dsat := dsat, ddat := ddat, dnlau := 0, dnlal := tsi148LcsrDnlalLla }
  else if desc.dir = vmeDmaFromDevice then
    some { dsau := 0, ddau := 0, dsal := vmeAddr, ddal := dmaAddr.setWidth 32, ddbs := 0
           dcnt := len, dsat := dsat, ddat := ddat, dnlau := 0, dnlal := tsi148LcsrDnlalLla }
  else old.map fun d => { d with dsau := 0, ddau := 0 }

def getBshift (am : U32) : ℕ :=
  if am ∈ [vmeA64Mblt, vmeA32UserMblt, vmeA32SupMblt, vmeA24UserMblt, vmeA24SupMblt] then 11
  else if am ∈ [vmeA64Blt, vmeA32UserBlt, vmeA32SupBlt, vmeA40Blt, vmeA24UserBlt, vmeA24SupBlt] then 8
  else 0

def tsi148GetBshift (desc : VmeDma) : ℕ :=
  getBshift (if desc.dir = vmeDmaFromDevice then desc.src.am else desc.dst.am)

def tsi148GetBsize (bshift : ℕ) : U32 := (1 : U32) <<< bshift

def tsi148GetBmask (bsize : U32) : U32 := bsize - 1

/-- The arguments of `tsi148_dma_link_add` that its loop only reads. -/
structure LinkArgs (w : ℕ) where
  vmeEnd : U32
  dmaEnd : BitVec w
  numpages : Int
  index : Int
  bshift : ℕ
  dsat : U32
  ddat : U32

structure LinkVars (w : ℕ) where
  ch : Chan w
  vme : U32
  dma : BitVec w
  len : U32
  curr : Option (BitVec w)
  next : Option (BitVec w)

def linkLen (a : LinkArgs w) (s : LinkVars w) : U32 :=
  let len :=
    if a.bshift ≠ 0 then
      let bsize := tsi148GetBsize a.bshift
      bsize - (s.vme &&& tsi148GetBmask bsize)
    else s.len
  if s.dma + len.setWidth w > a.dmaEnd then (a.dmaEnd - s.dma).setWidth 32 else len

/-- The body of the loop up to the test for another link: descriptor `c` is filled and both
addresses move on. -/
def linkFill (a : LinkArgs w) (s : LinkVars w) (c : BitVec w) : LinkVars w :=
  let len := linkLen a s
  { s with
    ch := { s.ch with
      mem := Function.update s.ch.mem c
        (tsi148FillDmaDesc s.ch.desc (s.ch.mem c) s.vme s.dma len a.dsat a.ddat) }
    vme := if s.ch.desc.novmeinc = 0 then s.vme + len else s.vme
    dma := s.dma + len.setWidth w
    len := len }

/-- `curr->dnlau = 0; curr->dnlal = phys_next & TSI148_LCSR_DNLAL_DNLAL_M`. -/
def linkTo (ch : Chan w) (c p : BitVec w) : Chan w :=
  { ch with mem := Function.update ch.mem c ((ch.mem c).map fun d => { d with dnlau := 0, dnlal := linkWord p }) }

/-- The loop of `tsi148_dma_link_add`, on the answers the pool has left: return code, variables and
remaining answers, `none` for a NULL dereference. Where no further link is made the guard
`dma < dma_end` has just failed, so the loop is left there. -/
def linkLoop (a : LinkArgs w) (pool : List (PoolAnswer w)) (s : LinkVars w) :
    Option (Int × LinkVars w × List (PoolAnswer w)) :=
  if s.vme < a.vmeEnd ∧ s.dma < a.dmaEnd then
    match s.curr with
    | none => none
    | some c =>
      let t := linkFill a s c
      if a.index < a.numpages - 1 ∨ t.dma < a.dmaEnd then
        match pool with
        | [] => some (-ENOMEM, t, [])
        | answer :: rest =>
          match hwdescInit t.ch answer with
          | (none, ch) => some (-ENOMEM, { t with ch := ch }, rest)
          | (some p, ch) => linkLoop a rest { t with ch := linkTo ch c p, curr := some p, next := some p }
      else some (0, { t with curr := t.next }, pool)
  else some (0, s, pool)

/-- `tsi148_dma_link_add`: return code, channel, `*virt` and remaining answers. `none` is the
`BUG_ON`. -/
def tsi148DmaLinkAdd (ch : Chan w) (virt : Option (BitVec w)) (vmeAddr : U32) (seg : DmaSeg w)
    (numpages index : Int) (bshift : ℕ) (dsat ddat : U32) (pool : List (PoolAnswer w)) :
    Option (Int × Chan w × Option (BitVec w) × List (PoolAnswer w)) :=
  match virt with
  | none => none
  | some c =>
    (linkLoop
      { vmeEnd := vmeAddr + seg.len, dmaEnd := seg.addr + seg.len.setWidth w, numpages := numpages
        index := index, bshift := bshift, dsat := dsat, ddat := ddat }
      pool
      { ch := ch, vme := vmeAddr, dma := seg.addr, len := seg.len, curr := some c, next := none }).map
      fun r => (r.1, r.2.1.ch, if r.1 = 0 then r.2.1.next else virt, r.2.2)

/-- The `for_each_sg` loop of `tsi148_dma_setup_chain`. -/
def chainLoop (numpages : Int) (bshift : ℕ) (dsat ddat : U32) :
    List (DmaSeg w) → Int → U32 → Option (BitVec w) → Chan w → List (PoolAnswer w) →
      Option (Int × Chan w × List (PoolAnswer w))
  | [], _, _, _, ch, pool => some (0, ch, pool)
  | seg :: rest, i, vmeAddr, curr, ch, pool =>
    match tsi148DmaLinkAdd ch curr vmeAddr seg numpages i bshift dsat ddat pool with
    | none => none
    | some (rc, ch, curr, pool) =>
      if rc ≠ 0 then some (rc, ch, pool)
      else chainLoop numpages bshift dsat ddat rest (i + 1)
        (if ch.desc.novmeinc = 0 then vmeAddr + seg.len else vmeAddr) curr ch pool

/-- `tsi148_dma_setup_chain`. -/
def tsi148DmaSetupChain (ch : Chan w) (dsat ddat : U32) (pool : List (PoolAnswer w)) :
    Option (Int × Chan w) :=
  match pool with
  | [] => some (-ENOMEM, ch)
  | answer :: pool =>
    match hwdescInit ch answer with
    | (none, ch) => some (-ENOMEM, ch)
    | (some physStart, ch) =>
      match getVmeaddr ch.desc with
      | none => some (-EINVAL, tsi148DmaFreeChain ch)
      | some vmeAddr =>
        match chainLoop ch.sgMapped.length (tsi148GetBshift ch.desc) dsat ddat ch.sgMapped 0 vmeAddr
            (some physStart) ch pool with
        | none => none
        | some (rc, ch, _) =>
          if rc ≠ 0 then some (rc, tsi148DmaFreeChain ch)
          else some (0, (ch.iowrite .dnlau 0).iowrite .dnlal (linkWord physStart))

/-! ## Setup, start, abort, release -/

/-- `tsi148_dma_setup`. -/
def tsi148DmaSetup (ch : Chan w) (pool : List (PoolAnswer w)) : Option (Int × Chan w) :=
  match tsi148DmaSetupSrc ch.desc with
  | none => some (-EINVAL, ch)
  | some dsat =>
    match tsi148DmaSetupDst ch.desc with
    | none => some (-EINVAL, ch)
    | some ddat =>
      match tsi148DmaSetupCtl ch.desc with
      | none => some (-EINVAL, ch)
      | some dctl =>
        let ch := { ch with chained := true }
        tsi148DmaSetupChain (ch.iowrite .dctl (dctl &&& ~~~tsi148LcsrDctlMod)) dsat ddat pool

/-- `tsi148_dma_start`: the write of the go bit launches the chip on the chain it then sees. -/
def tsi148DmaStart (ch : Chan w) : Chan w :=
  { ch.iowrite .dctl (ch.dctl ||| tsi148LcsrDctlDgo) with
    launches := ch.launches ++ [⟨ch.dnlal, ch.mem, ch.hwDescList⟩] }

def tsi148DmaAbort (ch : Chan w) : Chan w := ch.iowrite .dctl (ch.dctl ||| tsi148LcsrDctlAbt)

def tsi148DmaRelease (ch : Chan w) : Chan w := if ch.chained then tsi148DmaFreeChain ch else ch

end HtDrivers.Vmebridge
