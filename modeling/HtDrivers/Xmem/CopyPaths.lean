import HtDrivers.Xmem.SegmentBounds

/-! The copies by the CPU and those by DMA: which bytes of the user's buffer go to which bytes of which module
(`xmemDrvr.c`), with the pages of the buffer as `cdcm_pci_mmchain_lock` finds them (`cdcmPciDmaLinux.c`). -/
namespace HtDrivers.Xmem
set_option autoImplicit false

section Pages
variable (pageBus : ℕ → ℕ)

/-- The address on the bus of a byte of the user; `pageBus` is that of each page. -/
def busOf (u : ℕ) : ℕ := pageBus (u / pageSize) + u % pageSize

/-- One past the index of the last page of the buffer, counted from its first one. -/
def nrPages (u size : ℕ) : ℕ := (u + size - 1) / pageSize - u / pageSize + 1

/-- Page `i` of the buffer, from where the buffer starts in it to where it ends. -/
def userPage (u size i : ℕ) : DmaChain :=
  let offset := if i = 0 then u % pageSize else 0
  let tail := 1 + (u + size - 1) % pageSize
  ⟨pageBus (u / pageSize + i) + offset, (if i + 1 = nrPages u size then tail else pageSize) - offset⟩

def userPages (u size : ℕ) : List DmaChain := (List.range (nrPages u size)).map (userPage pageBus u size)

/-- A byte that is moved between an address on the bus and the memory of a module. -/
structure ByteMove where
  iod : XmemDrvrIoDir
  bus : ℕ
  module : ℕ
  sram : BitVec 32
deriving DecidableEq

/-- The moves of a transfer; byte `x` of `Tempbuf` is copied from or to byte `u + x` of the user. -/
def movesOf (u : ℕ) (t : Transfer) : List ByteMove :=
  (List.range t.len).map fun x =>
    let bus := match t.host with
      | .bus address => address + x
      | .buffer _ => busOf pageBus (u + x)
    ⟨t.iod, bus, t.module, t.sram + BitVec.ofNat 32 x⟩

/-- Byte `x` of the buffer, for all of them, and byte `x` of the memory of module `m` from `sram` on. -/
def wholeMove (iod : XmemDrvrIoDir) (m : ℕ) (sram : BitVec 32) (u len : ℕ) : List ByteMove :=
  (List.range len).map fun x => ⟨iod, busOf pageBus (u + x), m, sram + BitVec.ofNat 32 x⟩

/-- Pieces that follow one another in the buffer from `u` on. -/
def Contiguous : ℕ → List DmaChain → Prop
  | _, [] => True
  | u, piece :: pieces =>
    (∀ x < piece.count, piece.address + x = busOf pageBus (u + x)) ∧ Contiguous (u + piece.count) pieces

end Pages

/-! ## Pages in order -/

section Order
variable {pageBus : ℕ → ℕ} {u size : ℕ}

/-- Where the part of the buffer that lies in page `i` starts. -/
def pageStart (u i : ℕ) : ℕ := if i = 0 then u else (u / pageSize + i) * pageSize

theorem userPage_move {i x : ℕ} (hx : x < (userPage pageBus u size i).count) :
    (userPage pageBus u size i).address + x = busOf pageBus (pageStart u i + x) := by
  unfold userPage at hx ⊢
  unfold busOf pageStart
  have htail : (u + size - 1) % pageSize < pageSize := Nat.mod_lt _ (by decide)
  have hcount : (if i = 0 then u % pageSize else 0) + x < pageSize := by
    dsimp only at hx
    split at hx <;> omega
  unfold pageSize at *
  have hpage : ((if i = 0 then u else (u / 4096 + i) * 4096) + x) / 4096 = u / 4096 + i := by
    split at hcount <;> split <;> omega
  have hplace : ((if i = 0 then u else (u / 4096 + i) * 4096) + x) % 4096 = (if i = 0 then u % 4096 else 0) + x := by
    split at hcount <;> split <;> omega
  rw [hpage, hplace, Nat.add_assoc]

/-- A page ends where the next one starts, and the last one where the buffer does. -/
theorem pageStart_add {i : ℕ} (hsize : 0 < size) :
    pageStart u i + (userPage pageBus u size i).count =
      if i + 1 = nrPages u size then u + size else pageStart u (i + 1) := by
  have hstart : pageStart u (i + 1) = (u / pageSize + (i + 1)) * pageSize := if_neg (Nat.succ_ne_zero i)
  rw [hstart]
  unfold userPage pageStart
  dsimp only
  unfold nrPages pageSize at *
  split <;> split <;> omega

theorem userPages_order (hsize : 0 < size) {k i : ℕ} (hend : i + k = nrPages u size) (hk : 0 < k) :
    Contiguous pageBus (pageStart u i) ((List.range' i k).map (userPage pageBus u size)) ∧
      pageStart u i + total ((List.range' i k).map (userPage pageBus u size)) = u + size := by
  induction k generalizing i with
  | zero => exact absurd hk (Nat.lt_irrefl 0)
  | succ k ih =>
    have hnext : pageStart u i + (userPage pageBus u size i).count = _ := pageStart_add hsize
    rw [List.range'_succ, List.map_cons]
    by_cases hlast : k = 0
    · subst hlast
      rw [if_pos hend] at hnext
      refine ⟨⟨fun x hx => userPage_move hx, trivial⟩, ?_⟩
      simpa [total] using hnext
    · rw [if_neg (by omega)] at hnext
      obtain ⟨hcontiguous, htotal⟩ := ih (i := i + 1) (by omega) (Nat.pos_of_ne_zero hlast)
      refine ⟨⟨fun x hx => userPage_move hx, ?_⟩, ?_⟩
      · rw [hnext]
        exact hcontiguous
      · simp only [total, List.map_cons, List.sum_cons] at htotal ⊢
        omega

theorem userPages_contiguous (hsize : 0 < size) :
    Contiguous pageBus u (userPages pageBus u size) ∧ total (userPages pageBus u size) = size := by
  have horder : Contiguous pageBus (pageStart u 0) _ ∧ _ :=
    userPages_order hsize (Nat.zero_add (nrPages u size)) (Nat.succ_pos _)
  rw [← List.range_eq_range'] at horder
  refine ⟨horder.1, Nat.add_left_cancel horder.2⟩

end Order

/-! ## The moves of the two copies -/

section Moves
variable {pageBus : ℕ → ℕ} {wa : SegArea} {midx u : ℕ} {siod : XmemDrvrSegIoDesc} {iod : XmemDrvrIoDir}
  {segment : XmemDrvrSegDesc} {pieces : List DmaChain}

/-- The pieces of a buffer move all of it, if the DMA operation of the module of the request is that of the pieces. -/
theorem pieceTransfers_moves (hsame : siod.module - 1 = midx) (offset : BitVec 32) {v : ℕ}
    (h : Contiguous pageBus v pieces) :
    (pieceTransfers wa midx siod iod segment offset pieces).flatMap (movesOf pageBus u) =
      wholeMove pageBus iod midx (segment.address + offset) v (total pieces) := by
  induction pieces generalizing v offset with
  | nil => rfl
  | cons piece pieces ih =>
    obtain ⟨hpiece, hrest⟩ := h
    have htotal : total (piece :: pieces) = piece.count + total pieces := rfl
    have hfirst : movesOf pageBus u ⟨iod, siod.module - 1, segment.address + offset, .bus piece.address, piece.count⟩ =
        (List.range piece.count).map fun x =>
          ⟨iod, busOf pageBus (v + x), midx, segment.address + offset + BitVec.ofNat 32 x⟩ := by
      refine List.map_congr_left fun x hx => ?_
      dsimp only
      rw [hpiece x (List.mem_range.mp hx), hsame]
    rw [pieceTransfers, List.flatMap_cons, opFor_own _ hsame, hfirst, ih (offset + BitVec.ofNat 32 piece.count) hrest]
    unfold wholeMove
    rw [htotal, List.range_add, List.map_append, List.map_map]
    congr 1
    refine List.map_congr_left fun x _ => ?_
    rw [Function.comp_apply, BitVec.ofNat_add, Nat.add_assoc, BitVec.add_assoc, BitVec.add_assoc, BitVec.add_assoc]

theorem cpu_moves (m len : ℕ) (sram : BitVec 32) :
    movesOf pageBus u ⟨iod, m, sram, .buffer .tempbuf, len⟩ = wholeMove pageBus iod m sram u len := rfl

theorem longCopy_of_dvd (h : 4 ∣ siod.size.toNat) : longCopy siod.size = siod.size.toNat := Nat.mul_div_cancel' h

theorem sendUpdate_installed (hpos : 0 < siod.module) (hle : siod.module ≤ wa.modules) (outcome : SegOutcome) :
    sendUpdate wa siod iod outcome = outcome := by
  unfold sendUpdate
  split
  · have hmodule : ¬(siod.module = 0 ∨ wa.modules < siod.module) := by omega
    have hbroadcast : ncastOf ⟨siod.module, 0, 0, xmemDrvrNicSegmentUpdate ||| xmemDrvrNicBroadcast, siod.id⟩ =
        xmemDrvrNicBroadcast := by
      show (xmemDrvrNicSegmentUpdate ||| xmemDrvrNicBroadcast) &&& xmemDrvrNicCast = xmemDrvrNicBroadcast
      decide
    unfold sendInterrupt
    simp only [if_neg hmodule, if_pos hbroadcast]
    rfl
  · rfl

end Moves

/-! ## Requests -/

section Requests
variable {pageBus : ℕ → ℕ} {wa : SegArea} {midx u i : ℕ} {siod : XmemDrvrSegIoDesc} {iod : XmemDrvrIoDir}

/-- A request for whole words of a segment that is defined, on a module that is installed. -/
structure SegIoValid (wa : SegArea) (siod : XmemDrvrSegIoDesc) (u i : ℕ) : Prop where
  pos : 0 < siod.module
  le : siod.module ≤ wa.modules
  bit : i < xmemDrvrSegments
  used : wa.segTable.used.getLsbD i = true
  id : siod.id = BitVec.twoPow 32 i
  array : siod.userArray = .user u
  size_pos : 0 < siod.size.toNat
  size_dvd : 4 ∣ siod.size.toNat
  offset_dvd : 4 ∣ siod.offset.toNat
  fits : siod.offset.toNat + siod.size.toNat ≤ (wa.segTable.descriptors i).size.toNat
  max : (wa.segTable.descriptors i).size.toNat ≤ xmemDrvrMaxSegmentSize

def SegArea.withThreshold (wa : SegArea) (threshold : ℕ) : SegArea := { wa with dmaThreshold := threshold }

/-- The pages can be locked, all DMAs complete, and the buffer can be read and written. -/
def workingEnv (pageBus : ℕ → ℕ) (u size : ℕ) : SegEnv := ⟨true, true, some (userPages pageBus u size), fun _ => true⟩

def requestOutcome (pageBus : ℕ → ℕ) (wa : SegArea) (midx : ℕ) (siod : XmemDrvrSegIoDesc) (iod : XmemDrvrIoDir)
    (u threshold : ℕ) : SegOutcome :=
  segmentIoctl (wa.withThreshold threshold) midx (workingEnv pageBus u siod.size.toNat) siod iod

def outcomeMoves (pageBus : ℕ → ℕ) (u : ℕ) (outcome : SegOutcome) : List ByteMove :=
  outcome.transfers.flatMap (movesOf pageBus u)

/-- With the threshold up to the size and with one above it the request returns the same and moves the same bytes: the
whole buffer to or from its place on the requested module, or nothing where it fails. -/
def PathsAgree (pageBus : ℕ → ℕ) (wa : SegArea) (midx : ℕ) (siod : XmemDrvrSegIoDesc) (iod : XmemDrvrIoDir)
    (u i : ℕ) : Prop :=
  ∀ low high, low ≤ siod.size.toNat → siod.size.toNat < high →
    let dma := requestOutcome pageBus wa midx siod iod u low
    let cpu := requestOutcome pageBus wa midx siod iod u high
    dma.error = cpu.error ∧ outcomeMoves pageBus u dma = outcomeMoves pageBus u cpu ∧
      (outcomeMoves pageBus u cpu = wholeMove pageBus iod (siod.module - 1)
          ((wa.segTable.descriptors i).address + siod.offset) u siod.size.toNat ∨
        outcomeMoves pageBus u cpu = [] ∧ cpu.error ≠ none)

/-- The client works with the requested module, or neither path may write and the DMA path gets as far as to find out.
-/
def SameModule (wa : SegArea) (midx : ℕ) (siod : XmemDrvrSegIoDesc) (iod : XmemDrvrIoDir) : Prop :=
  siod.module - 1 = midx ∨
    ¬Permitted wa siod.id iod midx ∧ ¬Permitted wa siod.id iod (siod.module - 1) ∧
      (wa.moduleContexts (siod.module - 1)).dmaOp.dma ≠ 0

theorem SegIoValid.id_ne (h : SegIoValid wa siod u i) : siod.id ≠ 0 := by
  have hbit := h.bit
  intro hzero
  have hget := congrArg (BitVec.getLsbD · i) (h.id.symm.trans hzero)
  unfold xmemDrvrSegments at hbit
  simp [hbit] at hget

theorem SegIoValid.found (h : SegIoValid wa siod u i) :
    segmentOf wa.segTable siod.id = some (wa.segTable.descriptors i) := by
  rw [h.id]
  exact segmentOf_twoPow h.bit h.used

theorem SegIoValid.array_ne (h : SegIoValid wa siod u i) : siod.userArray ≠ .null := by
  rw [h.array]
  exact UserArray.noConfusion

theorem cpu_outcome (h : SegIoValid wa siod u i) {high : ℕ} (hhigh : siod.size.toNat < high)
    (hpermitted : Permitted wa siod.id iod midx) : requestOutcome pageBus wa midx siod iod u high =
      ⟨none, [⟨iod, midx, (wa.segTable.descriptors i).address + siod.offset, .buffer .tempbuf, siod.size.toNat⟩],
        wa.withThreshold high⟩ := by
  have hcpu : ¬(wa.withThreshold high).dmaThreshold ≤ siod.size.toNat := Nat.not_le.mpr hhigh
  have hallowed : ¬(iod = .write ∧ wrPermSeg (wa.withThreshold high).segTable siod.id
      ((wa.withThreshold high).moduleContexts midx).nodeId = false) := permitted_iff.mp hpermitted
  have hfound : segmentOf (wa.withThreshold high).segTable siod.id = some (wa.segTable.descriptors i) := h.found
  have hupdate : ∀ outcome, sendUpdate (wa.withThreshold high) { siod with userArray := .tempbuf } iod
    outcome = outcome :=
    sendUpdate_installed h.pos h.le
  unfold requestOutcome segmentIoctl segmentCopy
  simp only [if_neg h.array_ne, if_neg hcpu, if_neg h.id_ne, hfound, if_neg hallowed,
    longCopy_of_dvd h.size_dvd, hupdate]
  simp [workingEnv]

theorem cpu_denied (h : SegIoValid wa siod u i) {high : ℕ} (hhigh : siod.size.toNat < high)
    (hdenied : ¬Permitted wa siod.id iod midx) :
    requestOutcome pageBus wa midx siod iod u high = segFail (wa.withThreshold high) .eacces := by
  have hcpu : ¬(wa.withThreshold high).dmaThreshold ≤ siod.size.toNat := Nat.not_le.mpr hhigh
  have hwrite : iod = .write ∧ wrPermSeg (wa.withThreshold high).segTable siod.id
      ((wa.withThreshold high).moduleContexts midx).nodeId = false := by
    by_contra hallowed
    exact hdenied (permitted_iff.mpr hallowed)
  have hfound : segmentOf (wa.withThreshold high).segTable siod.id = some (wa.segTable.descriptors i) := h.found
  unfold requestOutcome segmentIoctl segmentCopy
  simp only [if_neg h.array_ne, if_neg hcpu, if_neg h.id_ne, hfound, if_pos hwrite]
  simp [workingEnv, segFail]

theorem dma_outcome (h : SegIoValid wa siod u i) {low : ℕ} (hlow : low ≤ siod.size.toNat) :
    requestOutcome pageBus wa midx siod iod u low =
      if xmemDrvrMaxDmaChain < nrPages u siod.size.toNat then segFail (wa.withThreshold low) .erange
      else dmaLoop midx iod (fun _ => true) (wa.withThreshold low) siod 0 (userPages pageBus u siod.size.toNat) := by
  have hlength : (userPages pageBus u siod.size.toNat).length = nrPages u siod.size.toNat := by simp [userPages]
  have hsome : userPages pageBus u siod.size.toNat ≠ [] := by
    rw [← List.length_pos_iff_ne_nil, hlength]
    exact Nat.succ_pos _
  have hfound : segmentOf (wa.withThreshold low).segTable siod.id = some (wa.segTable.descriptors i) := h.found
  split
  · rename_i hmany
    have hchain : userPages pageBus u siod.size.toNat = [] ∨
        xmemDrvrMaxDmaChain < (userPages pageBus u siod.size.toNat).length := Or.inr (by rw [hlength]; exact hmany)
    have hdma : (wa.withThreshold low).dmaThreshold ≤ siod.size.toNat := hlow
    unfold requestOutcome segmentIoctl segmentCopy
    simp only [if_neg h.array_ne, if_pos hdma, if_neg h.id_ne, hfound, workingEnv, if_pos hchain]
  · rename_i hfew
    have hioctl : requestOutcome pageBus wa midx siod iod u low = sendUpdate (wa.withThreshold low) siod iod _ :=
      ioctl_dma (show (wa.withThreshold low).dmaThreshold ≤ siod.size.toNat from hlow) h.array_ne h.id_ne
        hfound rfl hsome
        (by rw [hlength]; exact Nat.le_of_not_lt hfew)
    rw [hioctl]
    exact sendUpdate_installed h.pos (show siod.module ≤ (wa.withThreshold low).modules from h.le) _

/-- The first page decides about a DMA operation that is not mapped, and about the permission. -/
theorem dmaLoop_refused (h : SegIoValid wa siod u i) {low : ℕ} {err : XmemErrno} {piece : DmaChain}
    {pieces : List DmaChain} (hrefused : (opFor wa midx siod piece).dma = 0 ∧ err = .eio ∨
      (opFor wa midx siod piece).dma ≠ 0 ∧ ¬Permitted wa siod.id iod (siod.module - 1) ∧ err = .eacces) :
    (dmaLoop midx iod (fun _ => true) (wa.withThreshold low) siod 0 (piece :: pieces)).error = some err ∧
      (dmaLoop midx iod (fun _ => true) (wa.withThreshold low) siod 0 (piece :: pieces)).transfers = [] := by
  let area := setDmaOp (wa.withThreshold low) midx ⟨piece.address, piece.count⟩
  have hop : (area.moduleContexts (siod.module - 1)).dmaOp = opFor wa midx siod piece := setDmaOp_op _
  have hnode : (area.moduleContexts (siod.module - 1)).nodeId = (wa.moduleContexts (siod.module - 1)).nodeId :=
    setDmaOp_nodeId _
  have hmodule : ¬(siod.module = 0 ∨ area.modules < siod.module) := by
    have hpos := h.pos
    have hle : siod.module ≤ area.modules := h.le
    omega
  have hfound : segmentOf area.segTable siod.id = some (wa.segTable.descriptors i) := h.found
  have hpage : pageCopy area siod iod true = segFail area err := by
    unfold pageCopy
    simp only [if_neg hmodule, if_neg h.id_ne, hfound, hop, hnode]
    obtain ⟨hdma, rfl⟩ | ⟨hdma, hdenied, rfl⟩ := hrefused
    · rw [if_pos hdma]
    · have hwrite : iod = .write ∧
        wrPermSeg area.segTable siod.id (wa.moduleContexts (siod.module - 1)).nodeId = false := by
        by_contra hallowed
        exact hdenied (permitted_iff.mpr hallowed)
      rw [if_neg hdma, if_pos hwrite]
  rw [dmaLoop]
  dsimp only
  rw [hpage]
  exact ⟨rfl, rfl⟩

/-- Pages that are all mapped are moved whole. -/
theorem dma_moved (h : SegIoValid wa siod u i) (hpages : ∀ page, pageBus page ≠ 0) (low : ℕ)
    (hsame : siod.module - 1 = midx) (hpermitted : Permitted wa siod.id iod midx) :
    let outcome := dmaLoop midx iod (fun _ => true) (wa.withThreshold low) siod 0 (userPages pageBus u siod.size.toNat)
    outcome.error = none ∧ outcomeMoves pageBus u outcome = wholeMove pageBus iod midx
      ((wa.segTable.descriptors i).address + siod.offset) u siod.size.toNat := by
  have hs : Started (wa.withThreshold low) siod iod (wa.segTable.descriptors i) :=
    ⟨h.pos, h.le, h.id_ne, h.found, hsame ▸ hpermitted⟩
  have hdma : ∀ piece ∈ userPages pageBus u siod.size.toNat,
    (opFor (wa.withThreshold low) midx siod piece).dma ≠ 0 := by
    intro piece hpiece
    obtain ⟨n, -, rfl⟩ := List.mem_map.mp hpiece
    rw [opFor_own _ hsame]
    exact Nat.ne_of_gt (Nat.add_pos_left (Nat.pos_of_ne_zero (hpages _)) _)
  obtain ⟨herror, htransfers⟩ := @dmaLoop_done _ _ _ iod _ _ (fun _ => true) 0 (fun _ => rfl) hs hdma
  obtain ⟨hcontiguous, htotal⟩ : Contiguous pageBus u (userPages pageBus u siod.size.toNat) ∧ _ :=
    userPages_contiguous h.size_pos
  refine ⟨herror, ?_⟩
  unfold outcomeMoves
  rw [htransfers, pieceTransfers_moves hsame siod.offset hcontiguous, htotal]

theorem userPages_cons (pageBus : ℕ → ℕ) (u size : ℕ) : ∃ pieces, userPages pageBus u size = userPage pageBus u size
    0 :: pieces := by
  unfold userPages nrPages
  rw [List.range_succ_eq_map]
  exact ⟨_, rfl⟩

theorem wholeMove_ne_nil (h : SegIoValid wa siod u i) (m : ℕ) (sram : BitVec 32) :
    wholeMove pageBus iod m sram u siod.size.toNat ≠ [] := by
  have hpos := h.size_pos
  unfold wholeMove
  simp only [ne_eq, List.map_eq_nil_iff, List.range_eq_nil]
  omega

theorem wholeMove_module (h : SegIoValid wa siod u i) {m m' : ℕ} {sram sram' : BitVec 32}
    (heq : wholeMove pageBus iod m sram u siod.size.toNat = wholeMove pageBus iod m' sram' u siod.size.toNat) :
    m = m' := by
  obtain ⟨n, hn⟩ : ∃ n, siod.size.toNat = n + 1 := ⟨siod.size.toNat - 1, by have := h.size_pos; omega⟩
  unfold wholeMove at heq
  rw [hn, List.range_succ_eq_map, List.map_cons, List.map_cons] at heq
  exact congrArg ByteMove.module (List.cons.inj heq).1

/-- The page that is copied first, where the request may not write or the module has no mapping. -/
theorem dma_refused (h : SegIoValid wa siod u i) (low : ℕ) {err : XmemErrno}
    (hrefused : ∀ piece : DmaChain, piece.address ≠ 0 → (opFor wa midx siod piece).dma = 0 ∧ err = .eio ∨
      (opFor wa midx siod piece).dma ≠ 0 ∧ ¬Permitted wa siod.id iod (siod.module - 1) ∧ err = .eacces)
    (hpages : ∀ page, pageBus page ≠ 0) :
    let outcome := dmaLoop midx iod (fun _ => true) (wa.withThreshold low) siod 0 (userPages pageBus u siod.size.toNat)
    outcome.error = some err ∧ outcomeMoves pageBus u outcome = [] := by
  obtain ⟨pieces, hpieces⟩ := userPages_cons pageBus u siod.size.toNat
  have haddress : (userPage pageBus u siod.size.toNat 0).address ≠ 0 :=
    Nat.ne_of_gt (Nat.add_pos_left (Nat.pos_of_ne_zero (hpages _)) _)
  rw [hpieces]
  obtain ⟨herror, htransfers⟩ := dmaLoop_refused h (hrefused _ haddress)
  refine ⟨herror, ?_⟩
  unfold outcomeMoves
  rw [htransfers]
  rfl

theorem cpu_moved (h : SegIoValid wa siod u i) {high : ℕ} (hhigh : siod.size.toNat < high)
    (hpermitted : Permitted wa siod.id iod midx) :
    outcomeMoves pageBus u (requestOutcome pageBus wa midx siod iod u high) = wholeMove pageBus iod midx
      ((wa.segTable.descriptors i).address + siod.offset) u siod.size.toNat := by
  unfold outcomeMoves
  rw [cpu_outcome h hhigh hpermitted, List.flatMap_singleton, cpu_moves]

/-- With the same module both paths go through the same test. -/
theorem pathsAgree_same (hpages : ∀ page, pageBus page ≠ 0) (h : SegIoValid wa siod u i)
    (hfew : nrPages u siod.size.toNat ≤ xmemDrvrMaxDmaChain) (hsame : siod.module - 1 = midx) :
    PathsAgree pageBus wa midx siod iod u i := by
  intro low high hlow hhigh
  dsimp only
  rw [dma_outcome h hlow, if_neg (Nat.not_lt.mpr hfew)]
  by_cases hpermitted : Permitted wa siod.id iod midx
  · obtain ⟨herror, hmoves⟩ := dma_moved h hpages low hsame hpermitted
    rw [herror, hmoves, cpu_moved h hhigh hpermitted, cpu_outcome h hhigh hpermitted, hsame]
    exact ⟨rfl, rfl, Or.inl rfl⟩
  · have hrefused : ∀ piece : DmaChain, piece.address ≠ 0 → (opFor wa midx siod piece).dma = 0 ∧
      XmemErrno.eacces = .eio ∨
        (opFor wa midx siod piece).dma ≠ 0 ∧ ¬Permitted wa siod.id iod (siod.module - 1) ∧
          XmemErrno.eacces = .eacces := by
      intro piece haddress
      rw [opFor_own _ hsame, hsame]
      exact Or.inr ⟨haddress, hpermitted, rfl⟩
    obtain ⟨herror, hmoves⟩ := dma_refused h low hrefused hpages
    rw [herror, hmoves, cpu_denied h hhigh hpermitted]
    exact ⟨rfl, rfl, Or.inr ⟨rfl, by simp [segFail]⟩⟩

/-- Where neither node may write, both fail alike, once the module has a mapping. -/
theorem pathsAgree_denied (hpages : ∀ page, pageBus page ≠ 0) (h : SegIoValid wa siod u i)
    (hfew : nrPages u siod.size.toNat ≤ xmemDrvrMaxDmaChain) (hother : siod.module - 1 ≠ midx)
    (hclient : ¬Permitted wa siod.id iod midx) (hmodule : ¬Permitted wa siod.id iod (siod.module - 1))
    (hdma : (wa.moduleContexts (siod.module - 1)).dmaOp.dma ≠ 0) : PathsAgree pageBus wa midx siod iod u i := by
  intro low high hlow hhigh
  dsimp only
  have hrefused : ∀ piece : DmaChain, piece.address ≠ 0 → (opFor wa midx siod piece).dma = 0 ∧ XmemErrno.eacces = .eio ∨
      (opFor wa midx siod piece).dma ≠ 0 ∧ ¬Permitted wa siod.id iod (siod.module - 1) ∧
        XmemErrno.eacces = .eacces := by
    intro piece _
    rw [opFor_other _ hother]
    exact Or.inr ⟨hdma, hmodule, rfl⟩
  obtain ⟨herror, hmoves⟩ := dma_refused h low hrefused hpages
  rw [dma_outcome h hlow, if_neg (Nat.not_lt.mpr hfew), herror, hmoves, cpu_denied h hhigh hclient]
  exact ⟨rfl, rfl, Or.inr ⟨rfl, by simp [segFail]⟩⟩

/-- Both copies agree exactly if the chain has room for the pages and they work with the same module. -/
theorem pathsAgree_iff (hpages : ∀ page, pageBus page ≠ 0) (h : SegIoValid wa siod u i) (midx : ℕ)
    (iod : XmemDrvrIoDir) : PathsAgree pageBus wa midx siod iod u i ↔
      nrPages u siod.size.toNat ≤ xmemDrvrMaxDmaChain ∧ SameModule wa midx siod iod := by
  constructor
  · intro hagree
    have hhigh : siod.size.toNat < siod.size.toNat + 1 := Nat.lt_succ_self _
    obtain ⟨herror, hmoves, htarget⟩ := hagree 0 _ (Nat.zero_le _) hhigh
    have hdma : requestOutcome pageBus wa midx siod iod u 0 = _ := dma_outcome h (Nat.zero_le _)
    have hfew : ¬xmemDrvrMaxDmaChain < nrPages u siod.size.toNat := by
      intro hmany
      rw [if_pos hmany] at hdma
      rw [hdma] at herror hmoves
      by_cases hpermitted : Permitted wa siod.id iod midx
      · rw [cpu_moved h hhigh hpermitted] at hmoves
        exact wholeMove_ne_nil h _ _ hmoves.symm
      · rw [cpu_denied h hhigh hpermitted] at herror
        exact absurd herror (by simp [segFail])
    rw [if_neg hfew] at hdma
    refine ⟨Nat.le_of_not_lt hfew, ?_⟩
    by_contra hdiffer
    unfold SameModule at hdiffer
    rw [not_or] at hdiffer
    obtain ⟨hother, hdiffer⟩ := hdiffer
    -- with permission the CPU works on the client's module, without it the DMA path has to fail with EACCES too
    have hclient : ¬Permitted wa siod.id iod midx := by
      intro hpermitted
      rw [cpu_moved h hhigh hpermitted] at htarget
      obtain hwhole | hnone := htarget
      · exact hother (wholeMove_module h hwhole).symm
      · exact wholeMove_ne_nil h _ _ hnone.1
    rw [hdma, cpu_denied h hhigh hclient] at herror
    by_cases hzero : (wa.moduleContexts (siod.module - 1)).dmaOp.dma = 0
    · have hrefused : ∀ piece : DmaChain, piece.address ≠ 0 → (opFor wa midx siod piece).dma = 0 ∧
        XmemErrno.eio = .eio ∨
          (opFor wa midx siod piece).dma ≠ 0 ∧ ¬Permitted wa siod.id iod (siod.module - 1) ∧
            XmemErrno.eio = .eacces := by
        intro piece _
        rw [opFor_other _ hother]
        exact Or.inl ⟨hzero, rfl⟩
      rw [(dma_refused h _ hrefused hpages).1] at herror
      exact absurd herror (by simp [segFail])
    · have hmodule : Permitted wa siod.id iod (siod.module - 1) := by
        by_contra hdenied
        exact hdiffer ⟨hclient, hdenied, hzero⟩
      have hs : Started (wa.withThreshold 0) siod iod (wa.segTable.descriptors i) :=
        ⟨h.pos, h.le, h.id_ne, h.found, hmodule⟩
      have hmapped : ∀ piece ∈ userPages pageBus u siod.size.toNat,
          (opFor (wa.withThreshold 0) midx siod piece).dma ≠ 0 := by
        intro piece _
        rw [opFor_other _ hother]
        exact hzero
      rw [(@dmaLoop_done _ _ _ iod _ _ (fun _ => true) 0 (fun _ => rfl) hs hmapped).1] at herror
      exact absurd herror (by simp [segFail])
  · rintro ⟨hfew, hsame⟩
    by_cases hmodule : siod.module - 1 = midx
    · exact pathsAgree_same hpages h hfew hmodule
    · obtain ⟨hclient, hdenied, hdma⟩ := hsame.resolve_left hmodule
      exact pathsAgree_denied hpages h hfew hmodule hclient hdenied hdma

end Requests

/-! ## Two modules -/

section Example

def flatBus (page : ℕ) : ℕ := (page + 1) * pageSize

/-- Two modules, and a segment of 16 bytes that both nodes may write. -/
def twoModules : SegArea :=
  ⟨2, 1024, ⟨1, fun _ => ⟨[], 1, 0x10, 0x100, 3, 0⟩⟩, fun midx => ⟨midx + 1, ⟨0, 0⟩⟩⟩

def firstWord (module : ℕ) : XmemDrvrSegIoDesc := ⟨module, 1, 0, 4, .user 1, false⟩

theorem firstWord_valid (module : ℕ) (hpos : 0 < module) (hle : module ≤ 2) :
    SegIoValid twoModules (firstWord module) 1 0 :=
  ⟨hpos, hle, by decide, by decide, show (1 : BitVec 32) = BitVec.twoPow 32 0 by decide, rfl, show 0 < 4 by decide,
    show 4 ∣ 4 by decide, show 4 ∣ 0 by decide, show 0 + 4 ≤ 16 by decide, show 16 ≤ xmemDrvrMaxSegmentSize by decide⟩

theorem flatBus_ne (page : ℕ) : flatBus page ≠ 0 := Nat.mul_ne_zero (Nat.succ_ne_zero page) (by decide)

/-- A client of the first module reads from the first one. -/
theorem first_agrees : PathsAgree flatBus twoModules 0 (firstWord 1) .read 1 0 :=
  (pathsAgree_iff flatBus_ne (firstWord_valid 1 (by decide) (by decide)) 0 .read).mpr
    ⟨show nrPages 1 4 ≤ xmemDrvrMaxDmaChain by decide, Or.inl rfl⟩

/-- A client of the first module reads from the second one: the CPU reads the first one. -/
theorem second_differs : ¬PathsAgree flatBus twoModules 0 (firstWord 2) .read 1 0 := by
  intro hagree
  have hvalid := firstWord_valid 2 (by decide) le_rfl
  have hpermitted : Permitted twoModules (firstWord 2).id .read 0 := fun hwrite => XmemDrvrIoDir.noConfusion hwrite
  have htarget := (hagree 0 5 (Nat.zero_le _) (show 4 < 5 by decide)).2.2
  rw [cpu_moved hvalid (show 4 < 5 by decide) hpermitted] at htarget
  obtain hwhole | hnone := htarget
  · exact absurd (wholeMove_module hvalid hwhole) (by decide)
  · exact wholeMove_ne_nil hvalid _ _ hnone.1

end Example

end HtDrivers.Xmem
