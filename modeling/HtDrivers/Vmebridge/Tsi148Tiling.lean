import HtDrivers.Vmebridge.Tsi148Frame
import HtDrivers.Vmebridge.Tsi148Chain

/-! # The chain tiles the transfer

What the chip reads from a chain built by `tsi148_dma_setup_chain`, compared with the mapped
scatterlist. The chain is right exactly when no last block of an entry, before it is shortened,
reaches the top of the bus address type: `dma + len > dma_end` is computed in `dma_addr_t`.
-/
namespace HtDrivers.Vmebridge
open HtDrivers.Lib HtDrivers.Lib.Cut HtDrivers.Lib.Chain
set_option autoImplicit false

variable {w : ℕ}

/-! ## Reading a descriptor -/

def TsiDmaDesc.host (d : TsiDmaDesc) (desc : VmeDma) : U32 :=
  if desc.dir = vmeDmaToDevice then d.dsal else d.ddal

def TsiDmaDesc.vme (d : TsiDmaDesc) (desc : VmeDma) : U32 :=
  if desc.dir = vmeDmaToDevice then d.ddal else d.dsal

def TsiDmaDesc.hostBytes (d : TsiDmaDesc) (desc : VmeDma) : List ℕ :=
  List.range' (d.host desc).toNat d.dcnt.toNat

def DmaSeg.bytes (seg : DmaSeg w) : List ℕ := List.range' seg.addr.toNat seg.len.toNat

@[simp] theorem blkDesc_host (desc : VmeDma) (dsat ddat : U32) (b : Blk w) (link : U32) :
    (blkDesc desc dsat ddat b link).host desc = b.dma.setWidth 32 := by
  unfold blkDesc TsiDmaDesc.host
  split <;> rfl

@[simp] theorem blkDesc_vme (desc : VmeDma) (dsat ddat : U32) (b : Blk w) (link : U32) :
    (blkDesc desc dsat ddat b link).vme desc = b.vme := by
  unfold blkDesc TsiDmaDesc.vme
  split <;> rfl

/-- The chip, started on `ch`, walks the descriptor list once from end to end; `ds` are the
descriptors it finds, they move the bytes of `segs` in order, and they land on the VME bus from `v`
on, or all at `v` when the address does not advance. -/
structure ChainTiles (v : U32) (segs : List (DmaSeg w)) (ch : Chan w) (ds : List TsiDmaDesc) : Prop where
  walk : Walks (chipNext ch.mem) (ch.dnlal.setWidth w) ch.hwDescList
  once : ch.hwDescList.Nodup
  filled : ch.hwDescList.map ch.mem = ds.map some
  positive : ∀ d ∈ ds, 0 < d.dcnt.toNat
  host : (ds.flatMap fun d => d.hostBytes ch.desc) = segs.flatMap DmaSeg.bytes
  vme : ∀ k (hk : k < ds.length), (ds[k].vme ch.desc).toNat =
    if ch.desc.novmeinc = 0 then v.toNat + ((ds.take k).map fun d => d.dcnt.toNat).sum else v.toNat

/-! ## A closed chain with the right blocks -/

section Closed
variable {desc : VmeDma} {dsat ddat : U32} {bshift : ℕ} {ch : Chan w} {ps : List (BitVec w)}
  {bs : List (Blk w)} {ds : List TsiDmaDesc} {v : U32} {segs : List (DmaSeg w)}

/-- Descriptors agree with the blocks they were filled from. -/
def Reads (desc : VmeDma) (dsat ddat : U32) (ds : List TsiDmaDesc) (bs : List (Blk w)) : Prop :=
  List.Forall₂ (fun d b => ∃ link, d = blkDesc desc dsat ddat b link) ds bs

theorem Reads.dcnt (h : Reads desc dsat ddat ds bs) :
    (ds.map fun d => d.dcnt.toNat) = (bs.map Blk.piece).map Piece.len := by
  induction h with
  | nil => rfl
  | cons hd _ ih =>
    obtain ⟨link, rfl⟩ := hd
    rw [List.map_cons, ih, blkDesc_dcnt]
    rfl

theorem Reads.vme (h : Reads desc dsat ddat ds bs) :
    (ds.map fun d => (d.vme desc).toNat) = (bs.map Blk.piece).map Piece.target := by
  induction h with
  | nil => rfl
  | cons hd _ ih =>
    obtain ⟨link, rfl⟩ := hd
    rw [List.map_cons, ih, blkDesc_vme]
    rfl

theorem Reads.hostBytes (h : Reads desc dsat ddat ds bs) (hlow : ∀ b ∈ bs, b.dma.toNat < 2^32) :
    (ds.flatMap fun d => d.hostBytes desc) = (bs.map Blk.piece).flatMap Piece.bytes := by
  induction h with
  | nil => rfl
  | @cons d b ds bs hd _ ih =>
    obtain ⟨link, rfl⟩ := hd
    have hb := hlow b (List.mem_cons_self ..)
    rw [List.flatMap_cons, ih fun b hb => hlow b (List.mem_cons_of_mem _ hb)]
    unfold TsiDmaDesc.hostBytes
    rw [blkDesc_host, blkDesc_dcnt, BitVec.toNat_setWidth, Nat.mod_eq_of_lt hb]
    rfl

theorem Closed.walks (hw : 32 ≤ w) (h : Closed desc dsat ddat bshift ch ps bs)
    {p : BitVec w} {l : List (BitVec w)} (hp : ps = p :: l) : Walks (chipNext ch.mem) p ps := by
  have hchain := h.cells.isChain hw h.bus (fun c hc => by cases hc)
  rw [Option.toList_none, List.append_nil, hp] at hchain
  rw [hp]
  refine Walks.of_isChain hchain ?_
  -- the last cell carries the last-link bit
  have hlast : ∀ (ps : List (BitVec w)) (bs : List (Blk w)), Cells desc dsat ddat ch.mem ps bs none →
      ∀ hne : ps ≠ [], chipNext ch.mem (ps.getLast hne) = some none := by
    intro ps
    induction ps with
    | nil => exact fun _ _ hne => absurd rfl hne
    | cons q qs ih =>
      intro bs hcells hne
      cases bs with
      | nil => exact hcells.elim
      | cons b bs =>
        cases qs with
        | nil =>
          rw [List.getLast_singleton]
          unfold chipNext
          rw [hcells.1]
          simp only [Option.map_some, blkDesc_dnlal, linkField]
          rfl
        | cons r qs =>
          rw [List.getLast_cons (List.cons_ne_nil r qs)]
          exact ih bs hcells.2 (List.cons_ne_nil r qs)
  exact hlast (p :: l) bs (hp ▸ h.cells) (List.cons_ne_nil p l)

theorem Closed.tiles (hw : 32 ≤ w) (h : Closed desc dsat ddat bshift ch ps bs)
    {p : BitVec w} {l : List (BitVec w)} (hp : ps = p :: l)
    (hdnlal : ch.dnlal = linkWord p) (B : ℕ)
    (hbs : bs.map Blk.piece = cutAll B desc.inc v.toNat (segs.map DmaSeg.range))
    (hlow : ∀ b ∈ bs, b.dma.toNat < 2^32) : ∃ ds, ChainTiles v segs ch ds := by
  obtain ⟨ds, hds, hall⟩ := h.cells.read
  have hreads : Reads desc dsat ddat ds bs := hall
  refine ⟨ds, ?_, ?_, ?_, ?_, ?_, ?_⟩
  · rw [hdnlal, linkWord_setWidth hw (h.bus p (by simp [hp])), h.list]
    exact h.walks hw hp
  · rw [h.list]
    exact h.nodup
  · rw [h.list]
    exact hds
  · intro d hd
    have hmem : d.dcnt.toNat ∈ (bs.map Blk.piece).map Piece.len :=
      hreads.dcnt ▸ List.mem_map.mpr ⟨d, hd, rfl⟩
    obtain ⟨q, hq, he⟩ := List.mem_map.mp hmem
    rw [hbs] at hq
    rw [← he]
    exact cutAll_pos hq
  · rw [h.request, hreads.hostBytes hlow, hbs, cutAll_bytes, List.flatMap_map]
    rfl
  · intro k hk
    have hlands := hbs ▸ cutAll_lands B desc.inc v.toNat (segs.map DmaSeg.range)
    have hk' : k < (bs.map Blk.piece).length := by
      have := congrArg List.length hreads.dcnt
      simp only [List.length_map] at this ⊢
      omega
    have htarget := hlands.get k hk'
    have hget : (ds[k].vme desc).toNat = (bs.map Blk.piece)[k].target := by
      have := List.getElem_of_eq hreads.vme (i := k) (by simpa using hk)
      simpa only [List.getElem_map] using this
    have hsum : ((ds.take k).map fun d => d.dcnt.toNat) = ((bs.map Blk.piece).take k).map Piece.len := by
      rw [List.map_take, hreads.dcnt, List.map_take]
    rw [h.request, hget, htarget, hsum]
    unfold advance VmeDma.inc
    by_cases hn : desc.novmeinc = 0
    · rw [if_pos hn, decide_eq_true hn, if_pos rfl]
    · rw [if_neg hn, decide_eq_false hn, if_neg Bool.false_ne_true]

end Closed

/-! ## `tsi148_dma_setup_chain` -/

/-- What the driver assumes of its descriptor pool. -/
structure GoodPool (pool : List (PoolAnswer w)) : Prop where
  nodup : (pool.filterMap PoolAnswer.addr?).Nodup
  bus : ∀ p ∈ pool.filterMap PoolAnswer.addr?, BusAddr p

def chainPieces (desc : VmeDma) (v : U32) (segs : List (DmaSeg w)) : List Piece :=
  cutAll (blockSize (tsi148GetBshift desc)) desc.inc v.toNat (segs.map DmaSeg.range)

theorem tsi148GetBshift_lt (desc : VmeDma) : tsi148GetBshift desc < 32 := getBshift_lt _

section Setup
variable {ch ch' : Chan w} {dsat ddat : U32} {v : U32} {pool : List (PoolAnswer w)} {p : BitVec w}

theorem Open.start (hempty : ch.hwDescList = []) (hpool : GoodPool (.ok p :: pool)) :
    Open ch.desc dsat ddat (tsi148GetBshift ch.desc) (hwdescInit ch (.ok p)).2 [] [] p pool where
  list := by
    change ch.hwDescList ++ [p] = _
    rw [hempty]
  cells := trivial
  blank := by simp [hwdescInit]
  fresh := hpool.nodup
  bus := hpool.bus
  request := rfl
  within := fun b hb => by cases hb

/-- The outcome for a list that wraps nowhere: a closed chain of the right blocks, or `-ENOMEM` when
the pool refuses one of the descriptors they need. -/
theorem setupChain_cut (hw : 32 ≤ w) (hdir : ValidDir ch.desc) (hempty : ch.hwDescList = [])
    (hpool : GoodPool pool) (hv : getVmeaddr ch.desc = some v) (hne : ch.sgMapped ≠ [])
    (hpos : ∀ seg ∈ ch.sgMapped, 0 < seg.len.toNat) (hvme : VmeFits ch.desc.inc v.toNat ch.sgMapped)
    (hhost : HostFits (tsi148GetBshift ch.desc) ch.desc.inc v.toNat ch.sgMapped) :
    (Supplies (chainPieces ch.desc v ch.sgMapped).length pool ∧ ∃ ch' p l blks,
      tsi148DmaSetupChain ch dsat ddat pool = some (0, ch') ∧
      blks.map Blk.piece = chainPieces ch.desc v ch.sgMapped ∧
      Closed ch.desc dsat ddat (tsi148GetBshift ch.desc) ch' (p :: l) blks ∧ ch'.dnlal = linkWord p) ∨
    (¬ Supplies (chainPieces ch.desc v ch.sgMapped).length pool ∧ ∃ ch',
      tsi148DmaSetupChain ch dsat ddat pool = some (-ENOMEM, ch')) := by
  have hsome : 0 < (chainPieces ch.desc v ch.sgMapped).length := by
    obtain ⟨seg, segs, he⟩ := List.exists_cons_of_ne_nil hne
    apply List.length_pos_of_ne_nil
    have := cut_ne_nil (blockSize (tsi148GetBshift ch.desc)) ch.desc.inc v.toNat seg.addr.toNat
      seg.len.toNat (hpos seg (by simp [he]))
    simp [chainPieces, he, cutAll, DmaSeg.range, this]
  obtain ⟨k, hk⟩ : ∃ k, (chainPieces ch.desc v ch.sgMapped).length = k + 1 :=
    Nat.exists_eq_succ_of_ne_zero hsome.ne'
  rw [hk]
  by_cases hp : ∃ p pool', pool = .ok p :: pool'
  · obtain ⟨p, pool', rfl⟩ := hp
    have hstart : Open ch.desc dsat ddat (tsi148GetBshift ch.desc) (hwdescInit ch (.ok p)).2 [] [] p pool' :=
      Open.start hempty hpool
    have hloop := chainLoop_cut hw (tsi148GetBshift_lt ch.desc) hdir hne hpos hvme hhost
      (Int.zero_add _).symm hstart
    change (Supplies ((chainPieces ch.desc v ch.sgMapped).length - 1) pool' ∧ _) ∨
      (¬ Supplies ((chainPieces ch.desc v ch.sgMapped).length - 1) pool' ∧ _) at hloop
    rw [hk, Nat.add_sub_cancel] at hloop
    rw [setupChain_ok hv]
    obtain ⟨hs, ch1, ps, blks, hch, hmap, hcl⟩ | ⟨hs, ch1, rest, hch⟩ := hloop
    · have hpre : [p] <+: ps := by
        have := (chainLoop_extends hch).list
        rw [hcl.list] at this
        change ch.hwDescList ++ [p] <+: ps at this
        rwa [hempty] at this
      obtain ⟨l, rfl⟩ := hpre
      refine .inl ⟨hs, armed ch1 p, p, l, blks, ?_, hmap, ?_, rfl⟩
      · rw [hch]
        rfl
      · exact ⟨hcl.list, hcl.cells, hcl.nodup, hcl.bus, hcl.request, hcl.within⟩
    · refine .inr ⟨hs, tsi148DmaFreeChain ch1, ?_⟩
      rw [hch]
      rfl
  · have hno : ∀ p pool', pool ≠ .ok p :: pool' := fun p pool' he => hp ⟨p, pool', he⟩
    exact .inr ⟨Supplies.of_not_ok hno, setupChain_not_ok hno⟩

/-- The outcome for an empty list and for a list with an entry that is not linked: a chain that ends in
a descriptor without contents, a `BUG_ON`, or `-ENOMEM`. -/
theorem setupChain_stuck (hw : 32 ≤ w) (hdir : ValidDir ch.desc) (hempty : ch.hwDescList = [])
    (hpool : GoodPool pool) (hv : getVmeaddr ch.desc = some v)
    (hstuck : ch.sgMapped = [] ∨ linkedEntries ch.desc.inc v.toNat ch.sgMapped ≠ ch.sgMapped)
    (hhost : HostFits (tsi148GetBshift ch.desc) ch.desc.inc v.toNat
      (linkedEntries ch.desc.inc v.toNat ch.sgMapped)) {k : ℕ}
    (hk : (chainPieces ch.desc v (linkedEntries ch.desc.inc v.toNat ch.sgMapped)).length = k) :
    (Supplies (k + 1) pool ∧ (tsi148DmaSetupChain ch dsat ddat pool = none ∨ ∃ ch' p ps bs c pool',
      tsi148DmaSetupChain ch dsat ddat pool = some (0, ch') ∧ ch'.dnlal = linkWord p ∧
      [p] <+: ps ++ [c] ∧ Open ch.desc dsat ddat (tsi148GetBshift ch.desc) ch' ps bs c pool')) ∨
    (¬ Supplies (k + 1) pool ∧ ∃ ch', tsi148DmaSetupChain ch dsat ddat pool = some (-ENOMEM, ch')) := by
  by_cases hp : ∃ p pool', pool = .ok p :: pool'
  · obtain ⟨p, pool', rfl⟩ := hp
    have hstart : Open ch.desc dsat ddat (tsi148GetBshift ch.desc) (hwdescInit ch (.ok p)).2 [] [] p pool' :=
      Open.start hempty hpool
    have hloop : (Supplies k pool' ∧ (chainLoop ch.sgMapped.length (tsi148GetBshift ch.desc) dsat ddat ch.sgMapped 0 v
          (some p) (hwdescInit ch (.ok p)).2 pool' = none ∨ ∃ ch1 ps bs c,
        chainLoop ch.sgMapped.length (tsi148GetBshift ch.desc) dsat ddat ch.sgMapped 0 v (some p)
          (hwdescInit ch (.ok p)).2 pool' = some (0, ch1, pool'.drop k) ∧
        Open ch.desc dsat ddat (tsi148GetBshift ch.desc) ch1 ps bs c (pool'.drop k))) ∨
      (¬ Supplies k pool' ∧ ∃ ch1 rest, chainLoop ch.sgMapped.length (tsi148GetBshift ch.desc) dsat ddat ch.sgMapped
        0 v (some p) (hwdescInit ch (.ok p)).2 pool' = some (-ENOMEM, ch1, rest)) := by
      by_cases hnil : ch.sgMapped = []
      · rw [hnil] at hk ⊢
        obtain rfl : 0 = k := hk
        exact .inl ⟨trivial, .inr ⟨_, [], [], p, rfl, hstart⟩⟩
      · exact chainLoop_stuck hw (tsi148GetBshift_lt ch.desc) hdir (hstuck.resolve_left hnil) hhost
          (Int.zero_add _).symm hstart hk
    rw [setupChain_ok hv]
    obtain ⟨hs, hnone | ⟨ch1, ps, bs, c, hch, ho⟩⟩ | ⟨hs, ch1, rest, hch⟩ := hloop
    · refine .inl ⟨hs, .inl ?_⟩
      rw [hnone]
      rfl
    · have hpre : [p] <+: ps ++ [c] := by
        have := (chainLoop_extends hch).list
        rw [ho.list] at this
        change ch.hwDescList ++ [p] <+: ps ++ [c] at this
        rwa [hempty] at this
      refine .inl ⟨hs, .inr ⟨armed ch1 p, p, ps, bs, c, pool'.drop k, ?_, rfl, hpre, ?_⟩⟩
      · rw [hch]
        rfl
      · exact ⟨ho.list, ho.cells, ho.blank, ho.fresh, ho.bus, ho.request, ho.within⟩
    · refine .inr ⟨hs, tsi148DmaFreeChain ch1, ?_⟩
      rw [hch]
      rfl
  · have hno : ∀ p pool', pool ≠ .ok p :: pool' := fun p pool' he => hp ⟨p, pool', he⟩
    exact .inr ⟨Supplies.of_not_ok hno, setupChain_not_ok hno⟩

/-- The outcome when the pool runs out before the block that reaches the top of the bus address type. -/
theorem setupChain_refuses (hw : 32 ≤ w) (hdir : ValidDir ch.desc) (hempty : ch.hwDescList = [])
    (hpool : GoodPool pool) (hv : getVmeaddr ch.desc = some v)
    (hhost : ¬ HostFits (tsi148GetBshift ch.desc) ch.desc.inc v.toNat
      (linkedEntries ch.desc.inc v.toNat ch.sgMapped))
    (hs : ¬ Supplies (inUseAtTop (tsi148GetBshift ch.desc) ch.desc.inc v.toNat
      (linkedEntries ch.desc.inc v.toNat ch.sgMapped)) pool) :
    ∃ ch', tsi148DmaSetupChain ch dsat ddat pool = some (-ENOMEM, ch') := by
  obtain ⟨k, hk⟩ := Nat.exists_eq_succ_of_ne_zero (inUseAtTop_pos (linkedEntries_runs _ _ _) hhost).ne'
  rw [hk] at hs
  by_cases hp : ∃ p pool', pool = .ok p :: pool'
  · obtain ⟨p, pool', rfl⟩ := hp
    have hstart : Open ch.desc dsat ddat (tsi148GetBshift ch.desc) (hwdescInit ch (.ok p)).2 [] [] p pool' :=
      Open.start hempty hpool
    have hs' : ¬ Supplies (inUseAtTop (tsi148GetBshift ch.desc) ch.desc.inc v.toNat
        (linkedEntries ch.desc.inc v.toNat ch.sgMapped) - 1) pool' := by
      rw [hk]
      exact hs
    obtain ⟨ch1, rest, hloop⟩ := chainLoop_refuses hw (tsi148GetBshift_lt ch.desc) hdir hhost
      (Int.zero_add _).symm hstart hs'
    refine ⟨tsi148DmaFreeChain ch1, ?_⟩
    rw [setupChain_ok hv, hloop]
    rfl
  · exact setupChain_not_ok fun p pool' he => hp ⟨p, pool', he⟩

end Setup

/-! ## When the chain tiles the transfer -/

theorem vmeFits_of_sum (inc : Bool) (v : ℕ) (segs : List (DmaSeg w))
    (h : v + (segs.map fun seg => seg.len.toNat).sum < 2^32) : VmeFits inc v segs := by
  induction segs generalizing v with
  | nil => trivial
  | cons seg segs ih =>
    rw [List.map_cons, List.sum_cons] at h
    refine ⟨by omega, ih _ ?_⟩
    cases inc
    · simp only [advance, Bool.false_eq_true, if_false]
      omega
    · simp only [advance, if_true]
      omega

/-- A bus address type wider than the addresses leaves room above them. -/
theorem hostFits_of_wide (hw : 32 < w) {bshift : ℕ} (hk : bshift < 32) (inc : Bool) (v : ℕ)
    (segs : List (DmaSeg w)) (h : ∀ seg ∈ segs, seg.addr.toNat + seg.len.toNat < 2^32) :
    HostFits bshift inc v segs := by
  have hsize : blockSize bshift ≤ 2^32 := by
    unfold blockSize
    split
    · exact Nat.zero_le _
    · exact Nat.pow_le_pow_right (by omega) (by omega)
  have htop : (2 : ℕ)^33 ≤ 2^w := Nat.pow_le_pow_right (by omega) hw
  induction segs generalizing v with
  | nil => trivial
  | cons seg segs ih =>
    refine ⟨?_, ih _ fun s hs => h s (List.mem_cons_of_mem seg hs)⟩
    have hend := blockEnd_le (blockSize bshift) inc v seg.addr.toNat seg.len.toNat
    have := h seg (List.mem_cons_self ..)
    omega

theorem Cells.find {desc : VmeDma} {dsat ddat : U32} {mem : BitVec w → Option TsiDmaDesc}
    {ps : List (BitVec w)} {bs : List (Blk w)} {tail : Option (BitVec w)} {b : Blk w}
    (h : Cells desc dsat ddat mem ps bs tail) (hb : b ∈ bs) :
    ∃ p ∈ ps, ∃ link, mem p = some (blkDesc desc dsat ddat b link) := by
  induction ps generalizing bs with
  | nil =>
    cases bs with
    | nil => cases hb
    | cons b bs => exact h.elim
  | cons p ps ih =>
    cases bs with
    | nil => exact h.elim
    | cons b' bs =>
      obtain rfl | hb := List.mem_cons.mp hb
      · exact ⟨p, List.mem_cons_self .., _, h.1⟩
      · obtain ⟨q, hq, hlink⟩ := ih h.2 hb
        exact ⟨q, List.mem_cons_of_mem p hq, hlink⟩

theorem Built.find {desc : VmeDma} {dsat ddat : U32} {bshift : ℕ} {ch : Chan w} {bs : List (Blk w)} {b : Blk w}
    (h : Built desc dsat ddat bshift ch bs) (hb : b ∈ bs) :
    ch.desc = desc ∧ ∃ p ∈ ch.hwDescList, ∃ link, ch.mem p = some (blkDesc desc dsat ddat b link) := by
  obtain ⟨ps, hcl⟩ | ⟨ps, c, pool, ho⟩ := h
  · obtain ⟨p, hp, hlink⟩ := hcl.cells.find hb
    exact ⟨hcl.request, p, hcl.list ▸ hp, hlink⟩
  · obtain ⟨p, hp, hlink⟩ := ho.cells.find hb
    exact ⟨ho.request, p, ho.list ▸ List.mem_append_left _ hp, hlink⟩

/-- A block that overruns a 32-bit bus address type moves its topmost byte. -/
theorem Built.top_byte {desc : VmeDma} {dsat ddat : U32} {bshift : ℕ} {ch : Chan 32} {bs : List (Blk 32)}
    {b : Blk 32} (h : Built desc dsat ddat bshift ch bs) (hb : b ∈ bs) (hbad : b.Overruns)
    {ds : List TsiDmaDesc} (hds : ch.hwDescList.map ch.mem = ds.map some) :
    2^32 - 1 ∈ ds.flatMap fun d => d.hostBytes ch.desc := by
  obtain ⟨hreq, p, hp, link, hmem⟩ := h.find hb
  have hin : some (blkDesc desc dsat ddat b link) ∈ ds.map some := by
    rw [← hds, ← hmem]
    exact List.mem_map_of_mem hp
  obtain ⟨d, hd, he⟩ := List.mem_map.mp hin
  obtain rfl := Option.some.inj he
  refine List.mem_flatMap.mpr ⟨_, hd, ?_⟩
  unfold TsiDmaDesc.hostBytes
  rw [hreq, blkDesc_host, blkDesc_dcnt, BitVec.setWidth_eq, List.mem_range'_1]
  have := b.dma.isLt
  unfold Blk.Overruns at hbad
  omega

theorem seg_byte_lt {segs : List (DmaSeg w)} {m n : ℕ}
    (h : ∀ seg ∈ segs, seg.addr.toNat + seg.len.toNat < m) (hn : n ∈ segs.flatMap DmaSeg.bytes) : n + 1 < m := by
  obtain ⟨seg, hseg, hmem⟩ := List.mem_flatMap.mp hn
  have := h seg hseg
  have := List.mem_range'_1.mp hmem
  omega

section Tiling
variable {ch : Chan w} {dsat ddat : U32} {v : U32} {pool : List (PoolAnswer w)}

theorem setupChain_tiles (hw : 32 ≤ w) (hdir : ValidDir ch.desc) (hempty : ch.hwDescList = [])
    (hpool : GoodPool pool) (hv : getVmeaddr ch.desc = some v) (hne : ch.sgMapped ≠ [])
    (hseg : ∀ seg ∈ ch.sgMapped, 0 < seg.len.toNat ∧ seg.addr.toNat + seg.len.toNat < 2^32)
    (hvme : VmeFits ch.desc.inc v.toNat ch.sgMapped)
    (hhost : HostFits (tsi148GetBshift ch.desc) ch.desc.inc v.toNat ch.sgMapped)
    (halloc : Supplies (chainPieces ch.desc v ch.sgMapped).length pool) :
    ∃ ch' ds, tsi148DmaSetupChain ch dsat ddat pool = some (0, ch') ∧ ChainTiles v ch.sgMapped ch' ds := by
  have hpos : ∀ seg ∈ ch.sgMapped, 0 < seg.len.toNat := fun seg hs => (hseg seg hs).1
  rcases setupChain_cut hw hdir hempty hpool hv hne hpos hvme hhost with
    ⟨-, ch', p, l, blks, hset, hmap, hcl, hdnlal⟩ | ⟨hs, -⟩
  · have hlow : ∀ b ∈ blks, b.dma.toNat < 2^32 := by
      intro b hb
      have hpiece : b.piece ∈ chainPieces ch.desc v ch.sgMapped := hmap ▸ List.mem_map_of_mem hb
      have hbyte : b.dma.toNat ∈ (chainPieces ch.desc v ch.sgMapped).flatMap Piece.bytes := by
        refine List.mem_flatMap.mpr ⟨_, hpiece, List.mem_range'_1.mpr ?_⟩
        exact ⟨Nat.le_refl _, Nat.lt_add_of_pos_right (cutAll_pos hpiece)⟩
      unfold chainPieces at hbyte
      rw [cutAll_bytes, List.flatMap_map] at hbyte
      have := seg_byte_lt (fun seg hs => (hseg seg hs).2) hbyte
      omega
    obtain ⟨ds, htiles⟩ := hcl.tiles hw rfl hdnlal _ hmap hlow
    exact ⟨ch', ds, hset, htiles⟩
  · exact absurd halloc hs

/-- With a 32-bit bus address type, a block that passes its top is in the chain whenever one is
returned. -/
theorem setupChain_not_tiles {ch : Chan 32} {pool : List (PoolAnswer 32)} (hdir : ValidDir ch.desc)
    (hempty : ch.hwDescList = []) (hpool : GoodPool pool) (hv : getVmeaddr ch.desc = some v)
    (hseg : ∀ seg ∈ ch.sgMapped, 0 < seg.len.toNat ∧ seg.addr.toNat + seg.len.toNat < 2^32)
    (hvme : VmeFits ch.desc.inc v.toNat ch.sgMapped)
    (hhost : ¬ HostFits (tsi148GetBshift ch.desc) ch.desc.inc v.toNat ch.sgMapped) :
    ¬ ∃ ch' ds, tsi148DmaSetupChain ch dsat ddat pool = some (0, ch') ∧ ChainTiles v ch.sgMapped ch' ds := by
  rintro ⟨ch', ds, hset, htiles⟩
  obtain ⟨hrc, -⟩ | ⟨p, pool', ch1, rest, rfl, hloop, hout⟩ := setupChain_cases hv hset
  · exact absurd hrc.symm ENOMEM_ne_zero
  · obtain rfl : ch' = armed ch1 p := hout.elim (fun h => absurd rfl h.1) fun h => h.2
    have hstart : Open ch.desc dsat ddat (tsi148GetBshift ch.desc) (hwdescInit ch (.ok p)).2 [] [] p pool' :=
      Open.start hempty hpool
    obtain ⟨bs, ⟨b, hb, hover⟩, hbuilt⟩ := chainLoop_overrun (Nat.le_refl 32) (tsi148GetBshift_lt _) hdir hseg
      hvme hhost (Int.zero_add _).symm hstart hloop
    have htop : 2^32 - 1 ∈ ds.flatMap fun d => d.hostBytes (armed ch1 p).desc :=
      hbuilt.top_byte hb hover htiles.filled
    rw [htiles.host] at htop
    have := seg_byte_lt (fun seg hs => (hseg seg hs).2) htop
    omega

/-- The chain is built and tiles the transfer exactly when no entry's last block, before it is
shortened, reaches the top of the bus address type. -/
theorem setupChain_tiles_iff (hw : 32 ≤ w) (hdir : ValidDir ch.desc) (hempty : ch.hwDescList = [])
    (hpool : GoodPool pool) (hv : getVmeaddr ch.desc = some v) (hne : ch.sgMapped ≠ [])
    (hseg : ∀ seg ∈ ch.sgMapped, 0 < seg.len.toNat ∧ seg.addr.toNat + seg.len.toNat < 2^32)
    (hsum : v.toNat + (ch.sgMapped.map fun seg => seg.len.toNat).sum < 2^32)
    (halloc : Supplies (chainPieces ch.desc v ch.sgMapped).length pool) :
    (∃ ch' ds, tsi148DmaSetupChain ch dsat ddat pool = some (0, ch') ∧ ChainTiles v ch.sgMapped ch' ds) ↔
      HostFits (tsi148GetBshift ch.desc) ch.desc.inc v.toNat ch.sgMapped := by
  have hvme := vmeFits_of_sum ch.desc.inc v.toNat ch.sgMapped hsum
  refine ⟨fun htiles => ?_, fun hhost => setupChain_tiles hw hdir hempty hpool hv hne hseg hvme hhost halloc⟩
  by_cases hw32 : w = 32
  · subst hw32
    by_contra hhost
    exact setupChain_not_tiles hdir hempty hpool hv hseg hvme hhost htiles
  · exact hostFits_of_wide (by omega) (tsi148GetBshift_lt _) _ _ _ fun seg hs => (hseg seg hs).2

end Tiling

/-- A write of `len` bytes from host address 0x10000 to the VME address `addr`. -/
def writeRequest (am addr len : U32) : VmeDma :=
  { status := 0, length := len, novmeinc := 0, dir := vmeDmaToDevice, src := ⟨0, 0, 0, 0, 0, 0x10000⟩
    dst := ⟨vmeD32, am, vmeSst160, 0, 0, addr⟩, ctrl := ⟨0, 0, 0, 0⟩ }

/-- A channel that was acquired for a request and has its scatterlist mapped. -/
def mappedChan (desc : VmeDma) (segs : List (DmaSeg w)) : Chan w :=
  { busy := true, desc := desc, chained := true, sgl := [], sgPages := 1, sgMapped := segs, hwDescList := []
    mem := fun _ => none, dctl := 0, dnlau := 0, dnlal := 0, writes := [], ledger := [], launches := [] }

theorem goodPool_two : GoodPool [PoolAnswer.ok (0x1000 : BitVec 32), .ok 0x1040] where
  nodup := by decide
  bus := by
    intro p hp
    obtain rfl | rfl : p = 0x1000 ∨ p = 0x1040 := by simpa [PoolAnswer.addr?] using hp
    · decide
    · decide

theorem goodPool_three : GoodPool [PoolAnswer.ok (0x1000 : BitVec 32), .ok 0x1040, .ok 0x1080] where
  nodup := by decide
  bus := by
    intro p hp
    obtain rfl | rfl | rfl : p = 0x1000 ∨ p = 0x1040 ∨ p = 0x1080 := by simpa [PoolAnswer.addr?] using hp
    all_goals decide

/-- Two entries in three descriptors. -/
theorem setupChain_tiles_iff_low :
    let ch := mappedChan (writeRequest vmeA32UserBlt 0x1F80 0x180)
      [DmaSeg.mk (0x2000 : BitVec 32) 0x100, DmaSeg.mk 0x8000 0x80]
    ∃ ch' ds, tsi148DmaSetupChain ch 0 0 [.ok 0x1000, .ok 0x1040, .ok 0x1080] = some (0, ch') ∧
      ChainTiles 0x1F80 ch.sgMapped ch' ds := by
  intro ch
  refine (setupChain_tiles_iff (Nat.le_refl 32) (by decide) rfl goodPool_three rfl (by decide) (by decide)
    (by decide) ?_).mpr (by decide)
  -- the first entry is cut where it passes 0x2000, the second one fits its block
  have hfirst : cut 256 true 0x1F80 0x2000 0x100 = [⟨0x1F80, 0x2000, 0x80⟩, ⟨0x2000, 0x2080, 0x80⟩] := by
    rw [cut_step _ _ _ _ _ (by decide)]
    exact congrArg _ (cut_one true 0x2080 (by decide) (by decide))
  have hsecond : cut 256 true 0x2080 0x8000 0x80 = [⟨0x2080, 0x8000, 0x80⟩] :=
    cut_one true 0x8000 (by decide) (by decide)
  have hcut : chainPieces ch.desc 0x1F80 ch.sgMapped =
      [⟨0x1F80, 0x2000, 0x80⟩, ⟨0x2000, 0x2080, 0x80⟩, ⟨0x2080, 0x8000, 0x80⟩] := by
    change cut 256 true 0x1F80 0x2000 0x100 ++ (cut 256 true 0x2080 0x8000 0x80 ++ []) = _
    rw [hfirst, hsecond]
    rfl
  rw [hcut]
  trivial

/-- 128 bytes that end 128 bytes below 4 GiB: the first descriptor moves 2048 bytes and the second one
is never filled. -/
theorem setupChain_top_of_memory :
    let ch := mappedChan (writeRequest vmeA32UserMblt 0 0x80) [DmaSeg.mk (0xFFFFFF00 : BitVec 32) 0x80]
    let r := tsi148DmaSetupChain ch 0 0 [.ok 0x1000, .ok 0x1040]
    (r.map fun r => (r.1, r.2.hwDescList, (r.2.mem 0x1000).map TsiDmaDesc.dcnt, r.2.mem 0x1040)) =
      some (0, [0x1000, 0x1040], some 2048, none) ∧
    Supplies (chainPieces ch.desc 0 ch.sgMapped).length [PoolAnswer.ok (0x1000 : BitVec 32), .ok 0x1040] ∧
    ¬ ∃ ch' ds, r = some (0, ch') ∧ ChainTiles 0 ch.sgMapped ch' ds := by
  intro ch r
  have hcut : chainPieces ch.desc 0 ch.sgMapped = [⟨0, 0xFFFFFF00, 0x80⟩] :=
    congrArg (· ++ []) (cut_one true 0xFFFFFF00 (by decide) (by decide))
  refine ⟨by decide, by rw [hcut]; trivial, ?_⟩
  exact setupChain_not_tiles (by decide) rfl goodPool_two rfl (by decide) (by decide) (by decide)

/-! ## No descriptor crosses a block boundary

This does not depend on the bus address arithmetic: a block is at most as long as the way to the next
boundary, also where the comparison wraps. -/

/-- The VME bytes of a descriptor stay between two multiples of the block size. -/
def TsiDmaDesc.InBlock (d : TsiDmaDesc) (desc : VmeDma) : Prop :=
  ¬ Crosses (2^tsi148GetBshift desc) (d.vme desc).toNat d.dcnt.toNat

/-- Every descriptor on the list, and every one written since the memory was `mem`, is in its block. -/
structure InBlocks (desc : VmeDma) (mem : BitVec w → Option TsiDmaDesc) (ch : Chan w) : Prop where
  request : ch.desc = desc
  listed : ∀ p ∈ ch.hwDescList, ∀ d, ch.mem p = some d → d.InBlock desc
  written : ∀ p d, ch.mem p = some d → mem p = some d ∨ d.InBlock desc

section InBlocks
variable {desc : VmeDma} {mem : BitVec w → Option TsiDmaDesc} {a : LinkArgs w} {s : LinkVars w} {ch : Chan w}

theorem blkDesc_inBlock {b : Blk w} {dsat ddat link : U32} (h0 : tsi148GetBshift desc ≠ 0)
    (hb : b.Within (tsi148GetBshift desc)) : (blkDesc desc dsat ddat b link).InBlock desc := by
  unfold TsiDmaDesc.InBlock
  rw [blkDesc_vme, blkDesc_dcnt]
  exact not_crosses_of_le_room (Nat.two_pow_pos _) (hb h0)

theorem InBlocks.update (h : InBlocks desc mem ch) (c : BitVec w) {d : TsiDmaDesc} (hd : d.InBlock desc) :
    InBlocks desc mem { ch with mem := Function.update ch.mem c (some d) } where
  request := h.request
  listed := by
    intro p hp e he
    by_cases hpc : p = c
    · subst hpc
      obtain rfl : d = e := by simpa using he
      exact hd
    · exact h.listed p hp e (by simpa [Function.update_of_ne hpc] using he)
  written := by
    intro p e he
    by_cases hpc : p = c
    · subst hpc
      obtain rfl : d = e := by simpa using he
      exact .inr hd
    · exact h.written p e (by simpa [Function.update_of_ne hpc] using he)

theorem InBlocks.init (h : InBlocks desc mem ch) (p : BitVec w) : InBlocks desc mem (hwdescInit ch (.ok p)).2 where
  request := h.request
  listed := by
    intro q hq d hd
    by_cases hqp : q = p
    · subst hqp
      simp [hwdescInit] at hd
    · have hin : q ∈ ch.hwDescList := by
        obtain hq | hq := List.mem_append.mp hq
        · exact hq
        · exact absurd (List.mem_singleton.mp hq) hqp
      exact h.listed q hin d (by simpa [hwdescInit, Function.update_of_ne hqp] using hd)
  written := by
    intro q d hd
    by_cases hqp : q = p
    · subst hqp
      simp [hwdescInit] at hd
    · exact h.written q d (by simpa [hwdescInit, Function.update_of_ne hqp] using hd)

theorem passBlk_inBlock (hw : 32 ≤ w) (h0 : tsi148GetBshift desc ≠ 0) (ha : a.bshift = tsi148GetBshift desc)
    (hlt : s.dma < a.dmaEnd) (link : U32) : (blkDesc desc a.dsat a.ddat (passBlk a s) link).InBlock desc := by
  apply blkDesc_inBlock h0
  rw [← ha]
  exact passBlk_within hw (ha ▸ tsi148GetBshift_lt desc) hlt

theorem InBlocks.fill (hw : 32 ≤ w) (hdir : ValidDir desc) (h0 : tsi148GetBshift desc ≠ 0)
    (ha : a.bshift = tsi148GetBshift desc) (hlt : s.dma < a.dmaEnd) (h : InBlocks desc mem s.ch) (c : BitVec w) :
    InBlocks desc mem (linkFill a s c).ch := by
  have hmem : (linkFill a s c).ch.mem = _ := linkFill_mem hdir h.request
  have hup := h.update c (passBlk_inBlock hw h0 ha hlt tsi148LcsrDnlalLla)
  refine ⟨h.request, fun p hp d hd => hup.listed p hp d ?_, fun p d hd => hup.written p d ?_⟩
  · rw [hmem] at hd
    exact hd
  · rw [hmem] at hd
    exact hd

theorem inBlocks_kept (hw : 32 ≤ w) (hdir : ValidDir desc) (h0 : tsi148GetBshift desc ≠ 0)
    (ha : a.bshift = tsi148GetBshift desc) : KeptByPass a (InBlocks desc mem) where
  fill := fun s c hlt h => h.fill hw hdir h0 ha hlt c
  refused := fun ch p h => ⟨h.request, h.listed, h.written⟩
  link := by
    intro s c p hlt h
    have hinit : InBlocks desc mem (hwdescInit (linkFill a s c).ch (.ok p)).2 :=
      (h.fill hw hdir h0 ha hlt c).init p
    -- the cell that is linked holds the block of this pass, or is the new cell itself
    by_cases hcp : c = p
    · have hnone : (hwdescInit (linkFill a s c).ch (.ok p)).2.mem c = none := by
        rw [hcp]
        simp [hwdescInit]
      have hsame : linkTo (hwdescInit (linkFill a s c).ch (.ok p)).2 c p =
          (hwdescInit (linkFill a s c).ch (.ok p)).2 := by
        unfold linkTo
        rw [hnone, Option.map_none, ← hnone, Function.update_eq_self]
      rw [hsame]
      exact hinit
    · have hcell : (hwdescInit (linkFill a s c).ch (.ok p)).2.mem c =
          some (blkDesc desc a.dsat a.ddat (passBlk a s) tsi148LcsrDnlalLla) := by
        change Function.update (linkFill a s c).ch.mem p none c = _
        rw [Function.update_of_ne hcp, linkFill_mem hdir h.request, Function.update_self]
      unfold linkTo
      rw [hcell, Option.map_some, blkDesc_relink]
      exact hinit.update c (passBlk_inBlock hw h0 ha hlt _)

end InBlocks

/-- The blocks are those of the transfer mode that the chip is told: 256 bytes for a BLT, 2048 bytes for
an MBLT and no boundary for single cycles. -/
theorem getBshift_of_mode {am : U32} {attr : AmAttr} (h : amToAttr am = some attr) :
    (attr.transferMode = tsi148Blt → 2^getBshift am = 256) ∧
    (attr.transferMode = tsi148Mblt → 2^getBshift am = 2048) ∧
    (attr.transferMode = tsi148Sct → getBshift am = 0) := by
  have hall : ∀ row ∈ amAttrTable, (row.2.transferMode = tsi148Blt → 2^getBshift row.1 = 256) ∧
      (row.2.transferMode = tsi148Mblt → 2^getBshift row.1 = 2048) ∧
      (row.2.transferMode = tsi148Sct → getBshift row.1 = 0) := by decide
  obtain ⟨l₁, l₂, hrows, -⟩ := List.lookup_eq_some_iff.mp h
  refine hall (am, attr) ?_
  rw [hrows]
  exact List.mem_append_right l₁ (List.mem_cons_self ..)

/-- The one modifier with blocks that the chip does not know. -/
theorem getBshift_unknown {am : U32} (h : amToAttr am = none) (h0 : getBshift am ≠ 0) :
    am = vmeA40Blt ∧ 2^getBshift am = 256 := by
  have hblocks : am ∈ [vmeA64Mblt, vmeA32UserMblt, vmeA32SupMblt, vmeA24UserMblt, vmeA24SupMblt] ∨
      am ∈ [vmeA64Blt, vmeA32UserBlt, vmeA32SupBlt, vmeA40Blt, vmeA24UserBlt, vmeA24SupBlt] := by
    unfold getBshift at h0
    by_contra hno
    rw [not_or] at hno
    rw [if_neg hno.1, if_neg hno.2] at h0
    exact h0 rfl
  simp only [List.mem_cons, List.not_mem_nil, or_false] at hblocks
  obtain (rfl | rfl | rfl | rfl | rfl) | (rfl | rfl | rfl | rfl | rfl | rfl) := hblocks
  case inr.inr.inr.inr.inl => exact ⟨rfl, by decide⟩
  all_goals cases h

/-- Whatever the pool answers and whatever the call returns: the descriptors left on the list, and
those it wrote and freed again, are in their blocks. -/
theorem setupChain_in_blocks (hw : 32 ≤ w) {ch ch' : Chan w} {dsat ddat : U32} {pool : List (PoolAnswer w)}
    {rc : Int} (hdir : ValidDir ch.desc) (h0 : tsi148GetBshift ch.desc ≠ 0) (hempty : ch.hwDescList = [])
    (h : tsi148DmaSetupChain ch dsat ddat pool = some (rc, ch')) :
    (∀ p ∈ ch'.hwDescList, ∀ d, ch'.mem p = some d →
      ¬ Crosses (2^tsi148GetBshift ch.desc) (d.vme ch.desc).toNat d.dcnt.toNat) ∧
    ∀ p d, ch'.mem p = some d → ch.mem p ≠ some d →
      ¬ Crosses (2^tsi148GetBshift ch.desc) (d.vme ch.desc).toNat d.dcnt.toNat := by
  have hstart : InBlocks ch.desc ch.mem ch :=
    ⟨rfl, fun p hp => by simp [hempty] at hp, fun p d hd => .inl hd⟩
  suffices hch' : InBlocks ch.desc ch.mem ch' from
    ⟨hch'.listed, fun p d hd hne => (hch'.written p d hd).resolve_left hne⟩
  obtain ⟨v, hv⟩ := getVmeaddr_valid hdir
  obtain ⟨-, rfl | ⟨p, rfl⟩⟩ | ⟨p, pool', ch1, rest, rfl, hloop, hout⟩ := setupChain_cases hv h
  · exact hstart
  · exact ⟨rfl, hstart.listed, hstart.written⟩
  · have hch1 : InBlocks ch.desc ch.mem ch1 :=
      chainLoop_rule (fun a ha _ _ => inBlocks_kept hw hdir h0 ha) hloop (hstart.init p)
    obtain ⟨-, rfl⟩ | ⟨-, rfl⟩ := hout
    · exact ⟨hch1.request, fun p hp => by simp [tsi148DmaFreeChain] at hp, hch1.written⟩
    · exact ⟨hch1.request, hch1.listed, hch1.written⟩

theorem setupChain_in_blocks_misaligned :
    let ch := mappedChan (writeRequest vmeA32UserBlt 0x1F80 0x200) [DmaSeg.mk (0x2000 : BitVec 32) 0x200]
    ∃ ch', tsi148DmaSetupChain ch 0 0 [.ok 0x1000, .ok 0x1040, .ok 0x1080] = some (0, ch') ∧
      ch'.hwDescList = [0x1000, 0x1040, 0x1080] ∧
      ∀ p ∈ ch'.hwDescList, ∀ d, ch'.mem p = some d → ¬ Crosses 256 (d.vme ch.desc).toNat d.dcnt.toNat := by
  intro ch
  have hrun : (tsi148DmaSetupChain ch 0 0 [.ok 0x1000, .ok 0x1040, .ok 0x1080]).map
      (fun r => (r.1, r.2.hwDescList)) = some (0, [0x1000, 0x1040, 0x1080]) := by decide +kernel
  obtain ⟨⟨rc, ch'⟩, hset, he⟩ := Option.map_eq_some_iff.mp hrun
  obtain ⟨rfl, hlist⟩ : rc = 0 ∧ ch'.hwDescList = _ := by simpa only [Prod.mk.injEq] using he
  exact ⟨ch', hset, hlist, (setupChain_in_blocks (Nat.le_refl 32) (by decide) (by decide) rfl hset).1⟩

end HtDrivers.Vmebridge
