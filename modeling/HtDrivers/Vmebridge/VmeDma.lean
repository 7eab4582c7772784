import HtDrivers.Vmebridge.Tsi148Dma

/-! # One DMA transfer (`vme_dma.c`)

`vmeDoDma` is `__vme_do_dma` on the channel it is given by `vme_dma_channel_acquire`; how several
tasks share the channels is in `DmaChannels`. Everything the kernel decides is in `DmaEnv`. A result
`none` is an access through a bad pointer or a `BUG_ON`.

Left out: `pci_unmap_sg` and `udelay`, which change nothing that is modelled, and the dirty marking
of pages, which both callers switch off.
-/
namespace HtDrivers.Vmebridge
open HtDrivers.Lib HtDrivers.Lib.Ledger
set_option autoImplicit false

variable {w : ℕ}

/-! ## The environment -/

/-- The outcomes of `vme_dma_channel_acquire`. -/
inductive Acquire where
  | channel
  | disabled
  | interrupted
  | deadlock
  deriving DecidableEq, Repr

/-- The error code, 0 if a channel was acquired. -/
def Acquire.rc : Acquire → Int
  | .channel => 0
  | .disabled => -EBUSY
  | .interrupted => -EINTR
  | .deadlock => -EDEADLK

/-- The outcomes of `get_user_pages`: an error, or the pages it pinned. -/
inductive UserPages where
  | error (errno : ℕ)
  | pinned (pages : List ℕ)
  deriving DecidableEq, Repr

/-- The kernel's part in one transfer. -/
structure DmaEnv (w : ℕ) where
  /-- The width of `unsigned long`. -/
  longBits : ℕ
  acquire : Acquire
  sglAlloc : Bool
  /-- What the memory of the scatterlist holds when it is allocated. -/
  sglStale : ℕ → SgEntry
  pagesAlloc : Bool
  getUserPages : UserPages
  virtAddrValid : Bool
  virtToPage : ℕ → ℕ
  pciMapSg : List SgEntry → List (DmaSeg w)
  pool : List (PoolAnswer w)
  /-- The wait was interrupted by a signal. -/
  interrupted : Bool
  dsta : U32

def pageSize : ℕ := 4096

def offsetInPage (addr : U32) : U32 := addr &&& 0xfff

/-! ## The scatterlist -/

/-- `sgl_fill_user_pages`: the return code and the page array. No more than `nrPages` pages are
pinned. -/
def sglFillUserPages (env : DmaEnv w) (nrPages : ℕ) : Int × List ℕ :=
  match env.getUserPages with
  | .error errno => (-(errno : Int), [])
  | .pinned pages => ((pages.take nrPages).length, pages.take nrPages)

def sglFillKernelPages (env : DmaEnv w) (kaddr : U32) (nrPages : ℕ) : Int × List ℕ :=
  if env.virtAddrValid then
    (nrPages, (List.range nrPages).map fun i => env.virtToPage (kaddr.toNat + pageSize * i))
  else (-EINVAL, [])

/-- The entries after the first one; `length` is a `size_t`. -/
def sglRest (longBits : ℕ) : List ℕ → BitVec longBits → List SgEntry
  | [], _ => []
  | page :: pages, length =>
    { page := page
      length := if length < BitVec.ofNat longBits pageSize then length.setWidth 32 else BitVec.ofNat 32 pageSize
      offset := 0 } :: sglRest longBits pages (length - BitVec.ofNat longBits pageSize)

/-- The scatterlist of a non-empty page array. -/
def sglPopulate (longBits : ℕ) (pages : List ℕ) (uaddr length : U32) : List SgEntry :=
  match pages with
  | [] => []
  | [page] => [{ page := page, length := length, offset := offsetInPage uaddr }]
  | page :: rest =>
    let off := offsetInPage uaddr
    let len := BitVec.ofNat 32 pageSize - off
    { page := page, length := len, offset := off } ::
      sglRest longBits rest (length.setWidth longBits - len.setWidth longBits)

/-- `sgl_map_user_pages`. With no pages at all `sg_init_table` and the first `sg_set_page` write
outside the table. -/
def sglMapUserPages (env : DmaEnv w) (ch : Chan w) (nrPages : ℕ) (uaddr length : U32) (toUser : Bool) :
    Option (Int × Chan w) :=
  if env.pagesAlloc then
    let ch := { ch with ledger := ch.ledger ++ [.acquire .pageArray] }
    let free (ch : Chan w) : Chan w := { ch with ledger := ch.ledger ++ [.release .pageArray] }
    let populate (ch : Chan w) (pages : List ℕ) : Option (Int × Chan w) :=
      if nrPages = 0 then none
      else some (nrPages, free { ch with sgl := sglPopulate env.longBits pages uaddr length })
    if toUser then
      let (rc, pages) := sglFillUserPages env nrPages
      let ch := { ch with ledger := ch.ledger ++ pages.map fun n => .acquire (.page n) }
      if 0 ≤ rc ∧ rc < nrPages then
        some (nrPages, free { ch with ledger := ch.ledger ++ pages.map fun n => .release (.page n) })
      else if rc < 0 then some (nrPages, free ch)
      else populate ch pages
    else
      let (rc, pages) := sglFillKernelPages env uaddr nrPages
      if rc < 0 then some (nrPages, free ch)
      else populate ch pages
  else some (-ENOMEM, ch)

/-- `sgl_unmap_user_pages` on the channel's scatterlist. -/
def sglUnmapUserPages (ch : Chan w) (toUser : Bool) : Chan w :=
  if toUser then
    { ch with ledger := ch.ledger ++ (ch.sgl.take ch.sgPages.toNat).map fun e => .release (.page e.page) }
  else ch

/-! ## The transfer -/

/-- The host address of a request. -/
def hostAddr (desc : VmeDma) : U32 := if desc.dir = vmeDmaToDevice then desc.src.addrl else desc.dst.addrl

/-- The number of pages of a buffer, computed in `unsigned long`. -/
def nrPages (longBits : ℕ) (uaddr length : U32) : ℕ :=
  (((offsetInPage uaddr).toNat + length.toNat + (pageSize - 1)) % 2^longBits) / pageSize

def kfreeSgl (ch : Chan w) : Chan w := { ch with ledger := ch.ledger ++ [.release .sgl] }

/-- `vme_dma_setup`. -/
def vmeDmaSetup (env : DmaEnv w) (ch : Chan w) (toUser : Bool) : Option (Int × Chan w) :=
  let uaddr := hostAddr ch.desc
  let length := ch.desc.length
  if uaddr + length < uaddr then some (-EINVAL, ch)
  else
    let nr := nrPages env.longBits uaddr length
    if env.sglAlloc then
      let ch := { ch with
        sgl := (List.range nr).map env.sglStale
        ledger := ch.ledger ++ [.acquire .sgl] }
      match sglMapUserPages env ch nr uaddr length toUser with
      | none => none
      | some (sgPages, ch) =>
        let ch := { ch with sgPages := sgPages }
        if sgPages ≤ 0 then some (sgPages, kfreeSgl ch)
        else
          match tsi148DmaSetup { ch with sgMapped := env.pciMapSg ch.sgl } env.pool with
          | none => none
          | some (rc, ch) => if rc ≠ 0 then some (rc, kfreeSgl (sglUnmapUserPages ch toUser)) else some (0, ch)
    else some (-ENOMEM, { ch with sgl := [] })

/-- From `vme_dma_start` to `kfree(channel->sgl)`. -/
def vmeDmaRun (env : DmaEnv w) (ch : Chan w) (toUser : Bool) : Int × Chan w :=
  let ch := tsi148DmaStart ch
  let (rc, ch) := if env.interrupted then (-ERESTARTSYS, tsi148DmaAbort ch) else (0, ch)
  (rc, kfreeSgl (sglUnmapUserPages (tsi148DmaRelease ch) toUser))

def vmeDmaChannelRelease (ch : Chan w) : Chan w := { ch with busy := false }

/-- `__vme_do_dma` with the channel `ch`: return code, the caller's descriptor and the channel. -/
def vmeDoDma (env : DmaEnv w) (ch : Chan w) (desc : VmeDma) (toUser : Bool) :
    Option (Int × VmeDma × Chan w) :=
  if desc.length = 0 then some (-EINVAL, desc, ch)
  else if desc.dir ≠ vmeDmaFromDevice ∧ desc.dir ≠ vmeDmaToDevice then some (-EINVAL, desc, ch)
  else if desc.src.addru ≠ 0 ∨ desc.dst.addru ≠ 0 then some (-EINVAL, desc, ch)
  else if env.acquire ≠ .channel then some (env.acquire.rc, desc, ch)
  else
    match vmeDmaSetup env { ch with busy := true, desc := desc } toUser with
    | none => none
    | some (rc, ch) =>
      if rc ≠ 0 then some (rc, desc, vmeDmaChannelRelease ch)
      else
        let (rc, ch) := vmeDmaRun env ch toUser
        some (rc, { desc with status := env.dsta }, vmeDmaChannelRelease ch)

end HtDrivers.Vmebridge
