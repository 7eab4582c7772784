import HtDrivers.Xmem.SegmentCopy

/-! Which requests stay in their segment. The transfers of a request are listed one by one, those of the CPU and those
of the pieces that DMA moves, and compared with the range that the segment table gives to the segment. -/
namespace HtDrivers.Xmem
set_option autoImplicit false

/-! ## Bytes of a segment -/

section Bytes
variable {segment : XmemDrvrSegDesc}

def InSegment (segment : XmemDrvrSegDesc) (byte : BitVec 32) : Prop :=
  segment.address.toNat ≤ byte.toNat ∧ byte.toNat < segment.address.toNat + segment.size.toNat

/-- A copy of `len` bytes stays in the segment exactly if it ends before the segment does. -/
theorem inSegment_iff (hfit : segment.address.toNat + segment.size.toNat ≤ 2 ^ 32) (offset : BitVec 32) (len : ℕ) :
    (∀ x < len, InSegment segment (segment.address + offset + BitVec.ofNat 32 x)) ↔
      len = 0 ∨ offset.toNat + len ≤ segment.size.toNat := by
  have haddress := segment.address.isLt
  have hsize := segment.size.isLt
  have hoffset := offset.isLt
  unfold InSegment
  simp only [BitVec.toNat_add, BitVec.toNat_ofNat]
  constructor
  · intro h
    by_contra hout
    rw [not_or] at hout
    have hfirst := h 0 (Nat.pos_of_ne_zero hout.1)
    have hinside : offset.toNat < segment.size.toNat := by omega
    have hlast := h (segment.size.toNat - offset.toNat) (by omega)
    omega
  · intro h x hx
    obtain hzero | hle := h
    · omega
    · omega

end Bytes

/-! ## The transfers of a request -/

section Transfers
variable {wa : SegArea} {midx : ℕ} {env : SegEnv} {siod : XmemDrvrSegIoDesc} {iod : XmemDrvrIoDir}
  {segment : XmemDrvrSegDesc} {t : Transfer} {pieces : List DmaChain}

/-- A write needs the permission of the node of the module. -/
def Permitted (wa : SegArea) (id : BitVec 32) (iod : XmemDrvrIoDir) (midx : ℕ) : Prop :=
  iod = .write → wrPermSeg wa.segTable id (wa.moduleContexts midx).nodeId = true

theorem permitted_iff : Permitted wa siod.id iod midx ↔
    ¬(iod = .write ∧ wrPermSeg wa.segTable siod.id (wa.moduleContexts midx).nodeId = false) := by
  unfold Permitted
  rw [not_and, Bool.not_eq_false]

def total (pieces : List DmaChain) : ℕ := (pieces.map DmaChain.count).sum

/-- The DMA operation with which `PageCopy` works for a piece that a client of module `midx` prepared. -/
def opFor (wa : SegArea) (midx : ℕ) (siod : XmemDrvrSegIoDesc) (piece : DmaChain) : XmemDmaOp :=
  if siod.module - 1 = midx then ⟨piece.address, piece.count⟩ else (wa.moduleContexts (siod.module - 1)).dmaOp

theorem setDmaOp_op {op : XmemDmaOp} (m : ℕ) : ((setDmaOp wa midx op).moduleContexts m).dmaOp =
    if m = midx then op else (wa.moduleContexts m).dmaOp := by
  unfold setDmaOp
  by_cases hm : m = midx
  · rw [hm]
    simp
  · simp [hm]

theorem setDmaOp_nodeId {op : XmemDmaOp} (m : ℕ) :
    ((setDmaOp wa midx op).moduleContexts m).nodeId = (wa.moduleContexts m).nodeId := by
  unfold setDmaOp
  by_cases hm : m = midx
  · rw [hm]
    simp
  · simp [hm]

/-- What is known of the request when `PageCopy` starts a DMA. -/
structure Started (wa : SegArea) (siod : XmemDrvrSegIoDesc) (iod : XmemDrvrIoDir) (segment : XmemDrvrSegDesc) :
    Prop where
  pos : 0 < siod.module
  le : siod.module ≤ wa.modules
  id : siod.id ≠ 0
  found : segmentOf wa.segTable siod.id = some segment
  permitted : Permitted wa siod.id iod (siod.module - 1)

/-- The DMA operations and the offset play no part in it. -/
theorem Started.of_setDmaOp {op : XmemDmaOp} {sio : XmemDrvrSegIoDesc}
    (h : Started (setDmaOp wa midx op) sio iod segment)
    (hmodule : sio.module = siod.module) (hid : sio.id = siod.id) : Started wa siod iod segment := by
  refine ⟨hmodule ▸ h.pos, hmodule ▸ h.le, hid ▸ h.id, hid ▸ h.found, ?_⟩
  have hpermitted := h.permitted
  unfold Permitted at hpermitted ⊢
  rw [setDmaOp_nodeId, hmodule, hid] at hpermitted
  exact hpermitted

theorem pageCopy_started {done : Bool} (h : Started wa siod iod segment)
    (hdma : (wa.moduleContexts (siod.module - 1)).dmaOp.dma ≠ 0) : pageCopy wa siod iod done =
      ⟨if done then none else some .ebusy, [⟨iod, siod.module - 1, segment.address + siod.offset,
        .bus (wa.moduleContexts (siod.module - 1)).dmaOp.dma, (wa.moduleContexts (siod.module - 1)).dmaOp.len⟩],
        wa⟩ := by
  have hmodule : ¬(siod.module = 0 ∨ wa.modules < siod.module) := by
    have hpos := h.pos
    have hle := h.le
    omega
  unfold pageCopy
  simp only [if_neg hmodule, if_neg h.id, h.found, if_neg hdma, if_neg (permitted_iff.mp h.permitted)]

theorem pageCopy_transfer {done : Bool} (h : t ∈ (pageCopy wa siod iod done).transfers) :
    ∃ segment, Started wa siod iod segment ∧ (wa.moduleContexts (siod.module - 1)).dmaOp.dma ≠ 0 ∧
      t = ⟨iod, siod.module - 1, segment.address + siod.offset, .bus (wa.moduleContexts (siod.module - 1)).dmaOp.dma,
        (wa.moduleContexts (siod.module - 1)).dmaOp.len⟩ := by
  unfold pageCopy segFail at h
  split at h
  · cases h
  rename_i hmodule
  split at h
  · cases h
  rename_i hid
  split at h
  · cases h
  rename_i segment hfound
  dsimp only at h
  split at h
  · cases h
  rename_i hdma
  split at h
  · cases h
  rename_i hpermitted
  exact ⟨segment, ⟨by omega, by omega, hid, hfound, permitted_iff.mpr hpermitted⟩, hdma, List.mem_singleton.mp h⟩

/-- Every transfer of the loop belongs to a piece; it starts behind the pieces before it. -/
theorem dmaLoop_transfer {done : ℕ → Bool} {pg : ℕ} (h : t ∈ (dmaLoop midx iod done wa siod pg pieces).transfers) :
    ∃ before piece after segment, pieces = before ++ piece :: after ∧ Started wa siod iod segment ∧
      (opFor wa midx siod piece).dma ≠ 0 ∧
        t = ⟨iod, siod.module - 1, segment.address + (siod.offset + BitVec.ofNat 32 (total before)),
          .bus (opFor wa midx siod piece).dma, (opFor wa midx siod piece).len⟩ := by
  induction pieces generalizing wa siod pg with
  | nil => cases h
  | cons piece pieces ih =>
    have hop : ((setDmaOp wa midx ⟨piece.address, piece.count⟩).moduleContexts (siod.module - 1)).dmaOp =
        opFor wa midx siod piece := setDmaOp_op _
    have hfirst : t ∈ (pageCopy (setDmaOp wa midx ⟨piece.address, piece.count⟩) siod iod (done pg)).transfers →
        _ := pageCopy_transfer
    rw [hop] at hfirst
    rw [dmaLoop] at h
    dsimp only at h
    have hhead : t ∈ (pageCopy (setDmaOp wa midx ⟨piece.address, piece.count⟩) siod iod (done pg)).transfers →
        ∃ before p after segment, piece :: pieces = before ++ p :: after ∧ Started wa siod iod segment ∧
          (opFor wa midx siod p).dma ≠ 0 ∧
            t = ⟨iod, siod.module - 1, segment.address + (siod.offset + BitVec.ofNat 32 (total before)),
              .bus (opFor wa midx siod p).dma, (opFor wa midx siod p).len⟩ := by
      intro hmem
      obtain ⟨segment, hs, hdma, rfl⟩ := hfirst hmem
      refine ⟨[], piece, pieces, segment, rfl, hs.of_setDmaOp rfl rfl, hdma, ?_⟩
      simp [total]
    split at h
    · exact hhead h
    · obtain hmem | hmem := List.mem_append.mp h
      · exact hhead hmem
      · obtain ⟨before, p, after, segment, hpieces, hs, hdma, ht⟩ := ih hmem
        have hopp : opFor (setDmaOp wa midx ⟨piece.address, piece.count⟩) midx
            { siod with offset := siod.offset + BitVec.ofNat 32 piece.count } p = opFor wa midx siod p := by
          unfold opFor
          dsimp only
          split
          · rfl
          · rename_i hne
            rw [setDmaOp_op, if_neg hne]
        rw [hopp] at hdma ht
        refine ⟨piece :: before, p, after, segment, by rw [hpieces]; rfl, hs.of_setDmaOp rfl rfl, hdma, ?_⟩
        rw [ht]
        have htotal : total (piece :: before) = piece.count + total before := rfl
        rw [htotal, BitVec.ofNat_add, BitVec.add_assoc]

/-- The transfers of a loop whose DMAs all end well. -/
def pieceTransfers (wa : SegArea) (midx : ℕ) (siod : XmemDrvrSegIoDesc) (iod : XmemDrvrIoDir)
    (segment : XmemDrvrSegDesc) : BitVec 32 → List DmaChain → List Transfer
  | _, [] => []
  | offset, piece :: pieces =>
    ⟨iod, siod.module - 1, segment.address + offset, .bus (opFor wa midx siod piece).dma,
      (opFor wa midx siod piece).len⟩ ::
      pieceTransfers wa midx siod iod segment (offset + BitVec.ofNat 32 piece.count) pieces

theorem opFor_setDmaOp {op : XmemDmaOp} {sio : XmemDrvrSegIoDesc} (hmodule : sio.module = siod.module)
    (piece : DmaChain) : opFor (setDmaOp wa midx op) midx sio piece = opFor wa midx siod piece := by
  unfold opFor
  rw [hmodule]
  split
  · rfl
  · rename_i hne
    rw [setDmaOp_op, if_neg hne]

theorem pieceTransfers_setDmaOp {op : XmemDmaOp} {sio : XmemDrvrSegIoDesc} (hmodule : sio.module = siod.module)
    (offset : BitVec 32) : pieceTransfers (setDmaOp wa midx op) midx sio iod segment offset pieces =
      pieceTransfers wa midx siod iod segment offset pieces := by
  induction pieces generalizing offset with
  | nil => rfl
  | cons piece pieces ih =>
    rw [pieceTransfers, pieceTransfers, opFor_setDmaOp hmodule, hmodule, ih]

theorem Started.setDmaOp (h : Started wa siod iod segment) {op : XmemDmaOp} {sio : XmemDrvrSegIoDesc}
    (hmodule : sio.module = siod.module) (hid : sio.id = siod.id) :
    Started (Xmem.setDmaOp wa midx op) sio iod segment := by
  refine ⟨hmodule ▸ h.pos, hmodule ▸ h.le, hid ▸ h.id, hid ▸ h.found, ?_⟩
  have hpermitted := h.permitted
  unfold Permitted at hpermitted ⊢
  rw [setDmaOp_nodeId, hmodule, hid]
  exact hpermitted

theorem dmaLoop_done {done : ℕ → Bool} {pg : ℕ} (hdone : ∀ pg, done pg = true) (h : Started wa siod iod segment)
    (hdma : ∀ piece ∈ pieces, (opFor wa midx siod piece).dma ≠ 0) :
    (dmaLoop midx iod done wa siod pg pieces).error = none ∧
      (dmaLoop midx iod done wa siod pg pieces).transfers = pieceTransfers wa midx siod iod segment siod.offset
      pieces := by
  induction pieces generalizing wa siod pg with
  | nil => exact ⟨rfl, rfl⟩
  | cons piece pieces ih =>
    have hop : ((Xmem.setDmaOp wa midx ⟨piece.address, piece.count⟩).moduleContexts (siod.module - 1)).dmaOp =
        opFor wa midx siod piece := setDmaOp_op _
    have hpage : pageCopy (Xmem.setDmaOp wa midx ⟨piece.address, piece.count⟩) siod iod (done pg) = _ :=
      pageCopy_started (h.setDmaOp rfl rfl) (by rw [hop]; exact hdma piece (List.mem_cons_self ..))
    rw [hop, hdone] at hpage
    let sio : XmemDrvrSegIoDesc := { siod with offset := siod.offset + BitVec.ofNat 32 piece.count }
    have hnext : Started (Xmem.setDmaOp wa midx ⟨piece.address, piece.count⟩) sio iod segment := h.setDmaOp rfl rfl
    have hrest : ∀ p ∈ pieces, (opFor (Xmem.setDmaOp wa midx ⟨piece.address, piece.count⟩) midx sio p).dma ≠ 0 := by
      intro p hp
      rw [opFor_setDmaOp rfl]
      exact hdma p (List.mem_cons_of_mem _ hp)
    have hloop := fun pg => @ih _ _ pg hnext hrest
    rw [dmaLoop, pieceTransfers]
    dsimp only
    rw [hdone, hpage]
    refine ⟨(hloop (pg + 1)).1, ?_⟩
    have hsame : pieceTransfers (Xmem.setDmaOp wa midx ⟨piece.address, piece.count⟩) midx sio iod segment
      sio.offset pieces =
        pieceTransfers wa midx siod iod segment sio.offset pieces :=
      pieceTransfers_setDmaOp (show sio.module = siod.module from rfl) _
    exact congrArg (List.cons _) ((hloop (pg + 1)).2.trans hsame)

/-! ### Requests -/

theorem sendUpdate_transfers (outcome : SegOutcome) : (sendUpdate wa siod iod outcome).transfers =
    outcome.transfers := by
  unfold sendUpdate
  split
  · split <;> rfl
  · rfl

/-- A request above the threshold copies with the loop over the pieces. -/
theorem ioctl_dma (hsize : wa.dmaThreshold ≤ siod.size.toNat) (harray : siod.userArray ≠ .null) (hid : siod.id ≠ 0)
    (hfound : segmentOf wa.segTable siod.id = some segment) (hlock : env.mmchainLock = some pieces)
    (hsome : pieces ≠ []) (hfew : pieces.length ≤ xmemDrvrMaxDmaChain) :
    segmentIoctl wa midx env siod iod = sendUpdate wa siod iod (dmaLoop midx iod env.dmaDone wa siod 0 pieces) := by
  have hchain : ¬(pieces = [] ∨ xmemDrvrMaxDmaChain < pieces.length) := by
    rw [not_or]
    exact ⟨hsome, Nat.not_lt.mpr hfew⟩
  unfold segmentIoctl segmentCopy
  simp only [if_neg harray, if_pos hsize, if_neg hid, hfound, hlock, if_neg hchain]

theorem ioctl_dma_transfer (hsize : wa.dmaThreshold ≤ siod.size.toNat)
    (h : t ∈ (segmentIoctl wa midx env siod iod).transfers) :
    ∃ pieces, env.mmchainLock = some pieces ∧ siod.userArray ≠ .null ∧
      t ∈ (dmaLoop midx iod env.dmaDone wa siod 0 pieces).transfers := by
  unfold segmentIoctl at h
  split at h
  · cases h
  rename_i harray
  simp only [segmentCopy, if_pos hsize, if_neg harray] at h
  split at h
  · cases h
  split at h
  · cases h
  split at h
  · cases h
  rename_i pieces hlock
  split at h
  · cases h
  rw [sendUpdate_transfers] at h
  exact ⟨pieces, hlock, harray, h⟩

/-- Below the threshold the request copies words between `Tempbuf` and the module of the client. -/
theorem ioctl_cpu_transfers (hsize : siod.size.toNat < wa.dmaThreshold) (harray : siod.userArray ≠ .null)
    (hid : siod.id ≠ 0) (hfound : segmentOf wa.segTable siod.id = some segment)
    (hpermitted : Permitted wa siod.id iod midx) (hcopy : env.copyFromUser = true) :
    (segmentIoctl wa midx env siod iod).transfers =
      [⟨iod, midx, segment.address + siod.offset, .buffer .tempbuf, longCopy siod.size⟩] := by
  have hcpu : ¬wa.dmaThreshold ≤ siod.size.toNat := Nat.not_le.mpr hsize
  unfold segmentIoctl segmentCopy
  simp only [if_neg harray, if_neg hcpu, hcopy, if_neg hid, hfound, if_neg (permitted_iff.mp hpermitted),
    reduceCtorEq, if_false]
  split <;> exact sendUpdate_transfers _

theorem ioctl_cpu_transfer (hsize : siod.size.toNat < wa.dmaThreshold)
    (h : t ∈ (segmentIoctl wa midx env siod iod).transfers) :
    ∃ segment, siod.userArray ≠ .null ∧ siod.id ≠ 0 ∧ segmentOf wa.segTable siod.id = some segment ∧
      Permitted wa siod.id iod midx ∧
        t = ⟨iod, midx, segment.address + siod.offset, .buffer .tempbuf, longCopy siod.size⟩ := by
  have hcpu : ¬wa.dmaThreshold ≤ siod.size.toNat := Nat.not_le.mpr hsize
  by_cases harray : siod.userArray = .null
  · simp [segmentIoctl, harray, segFail] at h
  simp only [segmentIoctl, if_neg harray, if_neg hcpu] at h
  split at h
  · cases h
  have hcopy : t ∈ (segmentCopy wa midx env { siod with userArray := .tempbuf } iod).transfers := by
    split at h <;> exact h
  simp only [segmentCopy, if_neg hcpu, reduceCtorEq, if_false] at hcopy
  split at hcopy
  · cases hcopy
  rename_i hid
  split at hcopy
  · cases hcopy
  rename_i segment hfound
  split at hcopy
  · cases hcopy
  rename_i hpermitted
  rw [sendUpdate_transfers] at hcopy
  exact ⟨segment, harray, hid, hfound, permitted_iff.mpr hpermitted, List.mem_singleton.mp hcopy⟩

end Transfers

/-! ## When a request stays in its segment -/

section Inside
variable (wa : SegArea) (midx : ℕ) (siod : XmemDrvrSegIoDesc) (iod : XmemDrvrIoDir)

/-- The pieces make up the buffer of the user; the mapping may merge its pages. -/
def SegEnv.Locks (env : SegEnv) (siod : XmemDrvrSegIoDesc) : Prop :=
  ∀ pieces, env.mmchainLock = some pieces →
    total pieces = siod.size.toNat ∧ ∀ piece ∈ pieces, piece.count = 0 → siod.size.toNat = 0

/-- Each byte belongs to the segment, on the module of the request, and is written with the permission of its node. -/
def Inside (t : Transfer) : Prop :=
  ∀ x < t.len, ∃ segment, segmentOf wa.segTable siod.id = some segment ∧ t.module + 1 = siod.module ∧
    InSegment segment (t.sram + BitVec.ofNat 32 x) ∧
      (t.iod = .write → nodeMask (wa.moduleContexts t.module).nodeId &&& segment.nodes ≠ 0)

def StaysInside : Prop :=
  ∀ env : SegEnv, env.Locks siod → ∀ t ∈ (segmentIoctl wa midx env siod iod).transfers, Inside wa siod t

def CpuWithin (segment : XmemDrvrSegDesc) : Prop :=
  Permitted wa siod.id iod midx → longCopy siod.size = 0 ∨
    midx + 1 = siod.module ∧ siod.offset.toNat + longCopy siod.size ≤ segment.size.toNat

/-- For another module than that of the client each piece is copied with the DMA operation that this module has, and the
last piece may be one byte. -/
def DmaWithin (segment : XmemDrvrSegDesc) : Prop :=
  0 < siod.module → siod.module ≤ wa.modules → Permitted wa siod.id iod (siod.module - 1) →
    if siod.module - 1 = midx then siod.size.toNat = 0 ∨ siod.offset.toNat + siod.size.toNat ≤ segment.size.toNat
    else
      (wa.moduleContexts (siod.module - 1)).dmaOp.dma = 0 ∨ (wa.moduleContexts (siod.module - 1)).dmaOp.len = 0 ∨
        siod.offset.toNat + (siod.size.toNat - 1) + (wa.moduleContexts (siod.module - 1)).dmaOp.len ≤ segment.size.toNat

def WithinSegment : Prop :=
  siod.userArray ≠ .null → siod.id ≠ 0 → ∀ segment, segmentOf wa.segTable siod.id = some segment →
    if wa.dmaThreshold ≤ siod.size.toNat then DmaWithin wa midx siod iod segment else CpuWithin wa midx siod iod segment

end Inside

section Within
variable {wa : SegArea} {midx : ℕ} {siod : XmemDrvrSegIoDesc} {iod : XmemDrvrIoDir} {segment : XmemDrvrSegDesc}
  {module len : ℕ} {offset : BitVec 32} {host : Host}

/-- A transfer with permission is inside exactly if it is empty or on the module of the request and ends in time. -/
theorem inside_iff (hfit : segment.address.toNat + segment.size.toNat ≤ 2 ^ 32)
    (hfound : segmentOf wa.segTable siod.id = some segment) (hpermitted : Permitted wa siod.id iod module) :
    Inside wa siod ⟨iod, module, segment.address + offset, host, len⟩ ↔
      len = 0 ∨ module + 1 = siod.module ∧ offset.toNat + len ≤ segment.size.toNat := by
  have hnode : iod = .write → nodeMask (wa.moduleContexts module).nodeId &&& segment.nodes ≠ 0 := by
    intro hwrite
    have hperm := hpermitted hwrite
    unfold wrPermSeg at hperm
    rw [hfound, Option.any_some, bne_iff_ne] at hperm
    exact hperm
  have hinside := inSegment_iff hfit offset len
  constructor
  · intro h
    by_cases hzero : len = 0
    · exact Or.inl hzero
    · have hbytes : ∀ x < len, InSegment segment (segment.address + offset + BitVec.ofNat 32 x) := by
        intro x hx
        obtain ⟨segment', hfound', -, hin, -⟩ := h x hx
        rw [hfound] at hfound'
        cases hfound'
        exact hin
      obtain ⟨-, -, hmodule, -, -⟩ := h 0 (Nat.pos_of_ne_zero hzero)
      exact Or.inr ⟨hmodule, (hinside.mp hbytes).resolve_left hzero⟩
  · intro h x hx
    obtain ⟨hmodule, hle⟩ := h.resolve_left (Nat.ne_zero_of_lt hx)
    exact ⟨segment, hfound, hmodule, hinside.mpr (Or.inr hle) x hx, hnode⟩

/-- The environment in which the pages are locked as these pieces and everything works. -/
def lockedAs (pieces : List DmaChain) : SegEnv := ⟨true, true, some pieces, fun _ => true⟩

theorem lockedAs_locks {pieces : List DmaChain} (htotal : total pieces = siod.size.toNat)
    (hpos : ∀ piece ∈ pieces, piece.count = 0 → siod.size.toNat = 0) : (lockedAs pieces).Locks siod := by
  intro pieces' hlock
  obtain rfl : pieces = pieces' := Option.some.inj hlock
  exact ⟨htotal, hpos⟩

/-- The transfers of a request that is locked so. -/
theorem lockedAs_transfers {pieces : List DmaChain} (hsize : wa.dmaThreshold ≤ siod.size.toNat)
    (harray : siod.userArray ≠ .null) (hs : Started wa siod iod segment) (hsome : pieces ≠ [])
    (hfew : pieces.length ≤ xmemDrvrMaxDmaChain) (hdma : ∀ piece ∈ pieces, (opFor wa midx siod piece).dma ≠ 0) :
    (segmentIoctl wa midx (lockedAs pieces) siod iod).transfers =
      pieceTransfers wa midx siod iod segment siod.offset pieces := by
  rw [ioctl_dma hsize harray hs.id hs.found rfl hsome hfew, sendUpdate_transfers]
  exact (dmaLoop_done (fun _ => rfl) hs hdma).2

/-- A buffer can be cut anywhere. -/
theorem cut_transfer (hinside : StaysInside wa midx siod iod) (hsize : wa.dmaThreshold ≤ siod.size.toNat)
    (harray : siod.userArray ≠ .null) (hs : Started wa siod iod segment) {s : ℕ} (hlt : s ≤ siod.size.toNat - 1)
    (hdma : ∀ piece : DmaChain, piece.address = 1 → (opFor wa midx siod piece).dma ≠ 0) :
    Inside wa siod ⟨iod, siod.module - 1, segment.address + (siod.offset + BitVec.ofNat 32 s),
      .bus (opFor wa midx siod ⟨1, siod.size.toNat - s⟩).dma, (opFor wa midx siod ⟨1, siod.size.toNat - s⟩).len⟩ := by
  have hmax : 2 ≤ xmemDrvrMaxDmaChain := by decide
  by_cases hzero : s = 0
  · let pieces : List DmaChain := [⟨1, siod.size.toNat⟩]
    have hlocks : (lockedAs pieces).Locks siod := lockedAs_locks (by simp [pieces, total]) (by simp [pieces])
    refine hinside _ hlocks _ ?_
    rw [lockedAs_transfers hsize harray hs (by simp [pieces]) (by simp [pieces]; omega) (by simp [pieces, hdma])]
    simp [pieces, pieceTransfers, hzero]
  · let pieces : List DmaChain := [⟨1, s⟩, ⟨1, siod.size.toNat - s⟩]
    have hsum : s + (siod.size.toNat - s) = siod.size.toNat := by omega
    have hpos : ∀ piece ∈ pieces, piece.count = 0 → siod.size.toNat = 0 := by
      intro piece hpiece hcount
      simp only [pieces, List.mem_cons, List.not_mem_nil, or_false] at hpiece
      obtain rfl | rfl := hpiece
      · exact absurd hcount hzero
      · dsimp only at hcount
        omega
    have hlocks : (lockedAs pieces).Locks siod := lockedAs_locks (by simp [pieces, total, hsum]) hpos
    refine hinside _ hlocks _ ?_
    rw [lockedAs_transfers hsize harray hs (by simp [pieces]) (by simp [pieces]; omega) (by simp [pieces, hdma])]
    simp [pieces, pieceTransfers]

/-- A DMA of the module of the client. -/
theorem opFor_own (piece : DmaChain) (hsame : siod.module - 1 = midx) :
    opFor wa midx siod piece = ⟨piece.address, piece.count⟩ := by
  unfold opFor
  rw [if_pos hsame]

theorem opFor_other (piece : DmaChain) (hother : siod.module - 1 ≠ midx) :
    opFor wa midx siod piece = (wa.moduleContexts (siod.module - 1)).dmaOp := by
  unfold opFor
  rw [if_neg hother]

theorem dmaWithin_of_stays (hfit : segment.address.toNat + segment.size.toNat ≤ 2 ^ 32)
    (hsize : wa.dmaThreshold ≤ siod.size.toNat) (harray : siod.userArray ≠ .null) (hid : siod.id ≠ 0)
    (hfound : segmentOf wa.segTable siod.id = some segment) (h : StaysInside wa midx siod iod) :
    DmaWithin wa midx siod iod segment := by
  intro hpos hle hpermitted
  have hs : Started wa siod iod segment := ⟨hpos, hle, hid, hfound, hpermitted⟩
  have hlast := siod.size.isLt
  have hoffset := siod.offset.isLt
  have hends := segment.size.isLt
  split
  · rename_i hsame
    have hcut := cut_transfer h hsize harray hs (Nat.zero_le _) fun piece haddress => by
      rw [opFor_own piece hsame, haddress]
      exact one_ne_zero
    rw [inside_iff hfit hfound hpermitted, opFor_own _ hsame] at hcut
    simpa [Nat.sub_add_cancel hpos] using hcut
  · rename_i hother
    by_contra hout
    rw [not_or, not_or] at hout
    obtain ⟨hdma, hlen, hbeyond⟩ := hout
    have hcut : ∀ s ≤ siod.size.toNat - 1, (siod.offset.toNat + s) % 2 ^ 32 +
        (wa.moduleContexts (siod.module - 1)).dmaOp.len ≤ segment.size.toNat := by
      intro s hlt
      have htransfer := cut_transfer h hsize harray hs hlt fun piece _ => by
        rw [opFor_other piece hother]
        exact hdma
      rw [inside_iff hfit hfound hpermitted, opFor_other _ hother, BitVec.toNat_add, BitVec.toNat_ofNat,
        Nat.add_mod_mod] at htransfer
      exact (htransfer.resolve_left hlen).2
    -- without a wrap the last byte decides, with one the piece that starts at the last address
    by_cases hwrap : siod.offset.toNat + (siod.size.toNat - 1) < 2 ^ 32
    · have hend := hcut _ le_rfl
      rw [Nat.mod_eq_of_lt hwrap] at hend
      omega
    · have hend := hcut (2 ^ 32 - 1 - siod.offset.toNat) (by omega)
      rw [Nat.mod_eq_of_lt (by omega)] at hend
      omega

theorem stays_of_dmaWithin (hfit : segment.address.toNat + segment.size.toNat ≤ 2 ^ 32)
    (hsize : wa.dmaThreshold ≤ siod.size.toNat) (hfound : segmentOf wa.segTable siod.id = some segment)
    (h : DmaWithin wa midx siod iod segment) : StaysInside wa midx siod iod := by
  intro env hlocks t ht
  have hsegment := segment.size.isLt
  obtain ⟨pieces, hlock, -, htransfer⟩ := ioctl_dma_transfer hsize ht
  obtain ⟨before, piece, after, segment', rfl, hs, hdma, rfl⟩ := dmaLoop_transfer htransfer
  obtain rfl : segment = segment' := Option.some.inj (hfound.symm.trans hs.found)
  obtain ⟨htotal, hpositive⟩ := hlocks _ hlock
  have hsum : total before + (piece.count + total after) = siod.size.toNat := by
    simpa [total] using htotal
  have hcount := hpositive piece (by simp)
  have hwithin := h hs.pos hs.le hs.permitted
  have hmodule : siod.module - 1 + 1 = siod.module := Nat.sub_add_cancel hs.pos
  have hstart : (siod.offset + BitVec.ofNat 32 (total before)).toNat ≤ siod.offset.toNat + total before := by
    rw [BitVec.toNat_add, BitVec.toNat_ofNat, Nat.add_mod_mod]
    exact Nat.mod_le _ _
  rw [inside_iff hfit hfound hs.permitted]
  split at hwithin
  · rename_i hsame
    rw [opFor_own _ hsame]
    obtain hzero | hends := hwithin
    · exact Or.inl (by dsimp only; omega)
    · exact Or.inr ⟨hmodule, by dsimp only; omega⟩
  · rename_i hother
    rw [opFor_other _ hother] at hdma ⊢
    obtain hzero | hzero | hends := hwithin
    · exact absurd hzero hdma
    · exact Or.inl hzero
    · exact Or.inr ⟨hmodule, by omega⟩

theorem cpuWithin_of_stays (hfit : segment.address.toNat + segment.size.toNat ≤ 2 ^ 32)
    (hsize : siod.size.toNat < wa.dmaThreshold) (harray : siod.userArray ≠ .null) (hid : siod.id ≠ 0)
    (hfound : segmentOf wa.segTable siod.id = some segment) (h : StaysInside wa midx siod iod) :
    CpuWithin wa midx siod iod segment := by
  intro hpermitted
  let env : SegEnv := ⟨true, true, none, fun _ => true⟩
  have hlocks : env.Locks siod := by
    intro pieces hlock
    cases hlock
  have htransfers : (segmentIoctl wa midx env siod iod).transfers = _ :=
    ioctl_cpu_transfers hsize harray hid hfound hpermitted rfl
  have hinside := h env hlocks _ (by rw [htransfers]; exact List.mem_singleton_self _)
  rwa [inside_iff hfit hfound hpermitted] at hinside

theorem stays_of_cpuWithin (hfit : segment.address.toNat + segment.size.toNat ≤ 2 ^ 32)
    (hsize : siod.size.toNat < wa.dmaThreshold) (hfound : segmentOf wa.segTable siod.id = some segment)
    (h : CpuWithin wa midx siod iod segment) : StaysInside wa midx siod iod := by
  intro env _ t ht
  obtain ⟨segment', -, -, hfound', hpermitted, rfl⟩ := ioctl_cpu_transfer hsize ht
  obtain rfl : segment = segment' := Option.some.inj (hfound.symm.trans hfound')
  rw [inside_iff hfit hfound hpermitted]
  exact h hpermitted

end Within

/-- For segments that lie in the memory of the modules. -/
theorem staysInside_iff {wa : SegArea} {siod : XmemDrvrSegIoDesc}
    (hfit : ∀ segment, segmentOf wa.segTable siod.id = some segment →
      segment.address.toNat + segment.size.toNat ≤ 2 ^ 32) (midx : ℕ) (iod : XmemDrvrIoDir) :
    StaysInside wa midx siod iod ↔ WithinSegment wa midx siod iod := by
  constructor
  · intro h harray hid segment hfound
    split
    · rename_i hsize
      exact dmaWithin_of_stays (hfit segment hfound) hsize harray hid hfound h
    · rename_i hsize
      exact cpuWithin_of_stays (hfit segment hfound) (Nat.lt_of_not_le hsize) harray hid hfound h
  · intro h env hlocks t ht
    by_cases hsize : wa.dmaThreshold ≤ siod.size.toNat
    · obtain ⟨pieces, -, harray, htransfer⟩ := ioctl_dma_transfer hsize ht
      obtain ⟨-, -, -, segment, -, hs, -⟩ := dmaLoop_transfer htransfer
      have hwithin := h harray hs.id segment hs.found
      rw [if_pos hsize] at hwithin
      exact stays_of_dmaWithin (hfit segment hs.found) hsize hs.found hwithin env hlocks t ht
    · obtain ⟨segment, harray, hid, hfound, -⟩ := ioctl_cpu_transfer (Nat.lt_of_not_le hsize) ht
      have hwithin := h harray hid segment hfound
      rw [if_neg hsize] at hwithin
      exact stays_of_cpuWithin (hfit segment hfound) (Nat.lt_of_not_le hsize) hfound hwithin env hlocks t ht

/-- One module, and a segment of 16 bytes that its node may write. -/
def oneTable : SegArea :=
  ⟨1, 1024, ⟨1, fun _ => ⟨[], 1, 0x10, 0x100, 1, 0⟩⟩, fun _ => ⟨1, ⟨0, 0⟩⟩⟩

def wordAt (offset : BitVec 32) : XmemDrvrSegIoDesc := ⟨1, 1, offset, 4, .user 1, false⟩

theorem oneTable_segmentOf (offset : BitVec 32) :
    segmentOf oneTable.segTable (wordAt offset).id = some ⟨[], 1, 0x10, 0x100, 1, 0⟩ := by
  have hid : (wordAt offset).id = BitVec.twoPow 32 0 := show (1 : BitVec 32) = BitVec.twoPow 32 0 by decide
  rw [hid]
  exact segmentOf_twoPow (by decide) (by decide)

theorem oneTable_fit (offset : BitVec 32) (segment : XmemDrvrSegDesc)
    (h : segmentOf oneTable.segTable (wordAt offset).id = some segment) :
    segment.address.toNat + segment.size.toNat ≤ 2 ^ 32 := by
  rw [oneTable_segmentOf] at h
  cases h
  decide

theorem last_word_stays : StaysInside oneTable 0 (wordAt 12) .write := by
  refine (staysInside_iff (oneTable_fit 12) 0 .write).mpr ?_
  intro _ _ segment hfound
  rw [oneTable_segmentOf] at hfound
  cases hfound
  rw [if_neg (by decide)]
  intro _
  right
  decide

/-- A word that is written right behind the segment. -/
theorem word_behind_leaves : ¬StaysInside oneTable 0 (wordAt 16) .write := by
  intro h
  have hfound := oneTable_segmentOf 16
  have hwithin := cpuWithin_of_stays (oneTable_fit 16 _ hfound) (by decide) (by decide) (by decide) hfound h
  have hpermitted : Permitted oneTable (wordAt 16).id .write 0 := by
    intro _
    unfold wrPermSeg
    rw [hfound]
    decide
  obtain hzero | ⟨-, hends⟩ := hwithin hpermitted
  · exact absurd hzero (by decide)
  · exact absurd hends (by decide)

end HtDrivers.Xmem
