import HtDrivers.Lib.Words
import HtDrivers.Lib.Cut
import HtDrivers.Vmebridge.Tsi148Dma

/-! # What one pass of the link loop does

A pass fills the current descriptor with one block, and either asks the pool for the next
descriptor and links to it (`Open.link`) or leaves the chain closed (`Open.close`). `Open` and
`Closed` are the states between passes: every descriptor on the list but the current one holds its
block and points at its successor. Nothing here depends on the arithmetic that chooses the blocks.
-/
namespace HtDrivers.Vmebridge
open HtDrivers.Lib HtDrivers.Lib.Cut HtDrivers.Lib.Words
set_option autoImplicit false

variable {w : ℕ}

/-! ## Link words -/

/-- The bus addresses the descriptor pool hands out: it is created with 8-byte alignment and the
device's consistent memory lies below 4 GiB. -/
def BusAddr (p : BitVec w) : Prop := p.toNat % 8 = 0 ∧ p.toNat < 2^32

instance (p : BitVec w) : Decidable (BusAddr p) := inferInstanceAs (Decidable (_ ∧ _))

theorem linkMask_getLsbD (i : ℕ) (hi : i < 32) : tsi148LcsrDnlalDnlalM.getLsbD i = decide (3 ≤ i) := by
  interval_cases i <;> rfl

theorem BusAddr.low_clear {p : BitVec w} (hp : BusAddr p) (i : ℕ) (hi : i < 3) : p.getLsbD i = false := by
  have h8 : p.toNat = 2^3 * (p.toNat / 8) := by
    have := hp.1
    omega
  rw [← BitVec.testBit_toNat, h8, Nat.testBit_two_pow_mul]
  have hlow : ¬ i ≥ 3 := by omega
  simp [hlow]

theorem linkWord_eq (hw : 32 ≤ w) {p : BitVec w} (hp : BusAddr p) : linkWord p = p.setWidth 32 := by
  apply BitVec.eq_of_getLsbD_eq
  intro i hi
  have hsign : (tsi148LcsrDnlalDnlalM.signExtend w).getLsbD i = decide (3 ≤ i) := by
    rw [BitVec.getLsbD_signExtend, if_pos hi, linkMask_getLsbD i hi]
    simp [show i < w by omega]
  unfold linkWord
  rw [BitVec.getLsbD_setWidth, BitVec.getLsbD_setWidth, BitVec.getLsbD_and, hsign]
  by_cases h3 : 3 ≤ i
  · simp [h3]
  · simp [hp.low_clear i (by omega)]

theorem linkWord_toNat (hw : 32 ≤ w) {p : BitVec w} (hp : BusAddr p) : (linkWord p).toNat = p.toNat := by
  rw [linkWord_eq hw hp, BitVec.toNat_setWidth, Nat.mod_eq_of_lt hp.2]

theorem linkWord_masked (hw : 32 ≤ w) {p : BitVec w} (hp : BusAddr p) :
    linkWord p &&& tsi148LcsrDnlalDnlalM = linkWord p := by
  apply BitVec.eq_of_getLsbD_eq
  intro i hi
  rw [BitVec.getLsbD_and, linkMask_getLsbD i hi, linkWord_eq hw hp, BitVec.getLsbD_setWidth]
  by_cases h3 : 3 ≤ i
  · simp [h3]
  · simp [hp.low_clear i (by omega)]

theorem linkWord_setWidth (hw : 32 ≤ w) {p : BitVec w} (hp : BusAddr p) :
    (linkWord p).setWidth w = p := by
  apply BitVec.eq_of_toNat_eq
  rw [BitVec.toNat_setWidth, linkWord_toNat hw hp, Nat.mod_eq_of_lt p.isLt]

theorem linkWord_not_last (hw : 32 ≤ w) {p : BitVec w} (hp : BusAddr p) :
    linkWord p &&& tsi148LcsrDnlalLla = 0 := by
  have hlla : tsi148LcsrDnlalLla.toNat = 2^1 - 1 := rfl
  apply BitVec.eq_of_toNat_eq
  have h8 := hp.1
  rw [toNat_and_low _ _ hlla, linkWord_toNat hw hp]
  change p.toNat % 2^1 = 0
  omega

/-! ## Blocks and cells -/

/-- One block as the loop computes it. -/
structure Blk (w : ℕ) where
  vme : U32
  dma : BitVec w
  len : U32

def Blk.piece (b : Blk w) : Piece := ⟨b.vme.toNat, b.dma.toNat, b.len.toNat⟩

/-- The descriptor of a block, with `link` in its next-link field. -/
def blkDesc (desc : VmeDma) (dsat ddat : U32) (b : Blk w) (link : U32) : TsiDmaDesc :=
  if desc.dir = vmeDmaToDevice then
    { dsau := 0, ddau := 0, dsal := b.dma.setWidth 32, ddal := b.vme, ddbs := desc.dst.bcastSelect
      dcnt := b.len, dsat := dsat, ddat := ddat, dnlau := 0, dnlal := link }
  else
    { dsau := 0, ddau := 0, dsal := b.vme, ddal := b.dma.setWidth 32, ddbs := 0
      dcnt := b.len, dsat := dsat, ddat := ddat, dnlau := 0, dnlal := link }

theorem fill_eq_blkDesc {desc : VmeDma} (hdir : ValidDir desc) (old : Option TsiDmaDesc) (b : Blk w)
    (dsat ddat : U32) :
    tsi148FillDmaDesc desc old b.vme b.dma b.len dsat ddat =
      some (blkDesc desc dsat ddat b tsi148LcsrDnlalLla) := by
  unfold tsi148FillDmaDesc blkDesc
  by_cases h : desc.dir = vmeDmaToDevice
  · rw [if_pos h, if_pos h]
  · rw [if_neg h, if_pos (hdir.resolve_left h), if_neg h]

theorem blkDesc_relink (desc : VmeDma) (dsat ddat : U32) (b : Blk w) (link link' : U32) :
    { blkDesc desc dsat ddat b link with dnlau := 0, dnlal := link' } = blkDesc desc dsat ddat b link' := by
  unfold blkDesc
  split <;> rfl

@[simp] theorem blkDesc_dnlal (desc : VmeDma) (dsat ddat : U32) (b : Blk w) (link : U32) :
    (blkDesc desc dsat ddat b link).dnlal = link := by
  unfold blkDesc
  split <;> rfl

@[simp] theorem blkDesc_dcnt (desc : VmeDma) (dsat ddat : U32) (b : Blk w) (link : U32) :
    (blkDesc desc dsat ddat b link).dcnt = b.len := by
  unfold blkDesc
  split <;> rfl

/-- The next-link field of a cell followed by the cells `ps` and then `tail`. -/
def linkField (ps : List (BitVec w)) (tail : Option (BitVec w)) : U32 :=
  match ps, tail with
  | q :: _, _ => linkWord q
  | [], some c => linkWord c
  | [], none => tsi148LcsrDnlalLla

/-- The cells `ps` hold the descriptors of `bs`, each linked to the next and the last one to
`tail`, or carrying the last-link bit. -/
def Cells (desc : VmeDma) (dsat ddat : U32) (mem : BitVec w → Option TsiDmaDesc) :
    List (BitVec w) → List (Blk w) → Option (BitVec w) → Prop
  | [], [], _ => True
  | p :: ps, b :: bs, tail =>
    mem p = some (blkDesc desc dsat ddat b (linkField ps tail)) ∧ Cells desc dsat ddat mem ps bs tail
  | _, _, _ => False

section Cells
variable {desc : VmeDma} {dsat ddat : U32} {mem mem' : BitVec w → Option TsiDmaDesc}
  {ps : List (BitVec w)} {bs : List (Blk w)} {tail : Option (BitVec w)}

theorem Cells.congr (h : Cells desc dsat ddat mem ps bs tail) (hmem : ∀ p ∈ ps, mem' p = mem p) :
    Cells desc dsat ddat mem' ps bs tail := by
  induction ps generalizing bs with
  | nil =>
    cases bs with
    | nil => trivial
    | cons b bs => exact h.elim
  | cons p ps ih =>
    cases bs with
    | nil => exact h.elim
    | cons b bs =>
      refine ⟨?_, ih h.2 fun q hq => hmem q (List.mem_cons_of_mem p hq)⟩
      rw [hmem p (List.mem_cons_self ..)]
      exact h.1

theorem Cells.snoc {c : BitVec w} {b : Blk w} (h : Cells desc dsat ddat mem ps bs (some c))
    (hc : mem c = some (blkDesc desc dsat ddat b (linkField [] tail))) :
    Cells desc dsat ddat mem (ps ++ [c]) (bs ++ [b]) tail := by
  induction ps generalizing bs with
  | nil =>
    cases bs with
    | nil => exact ⟨hc, trivial⟩
    | cons b bs => exact h.elim
  | cons p ps ih =>
    cases bs with
    | nil => exact h.elim
    | cons b' bs =>
      refine ⟨?_, ih h.2⟩
      -- the successor of `p` is the same cell before and after `c` is appended
      have hlink : linkField (ps ++ [c]) tail = linkField ps (some c) := by
        cases ps <;> rfl
      change mem p = some (blkDesc desc dsat ddat b' (linkField (ps ++ [c]) tail))
      rw [hlink]
      exact h.1

theorem Cells.read (h : Cells desc dsat ddat mem ps bs tail) :
    ∃ ds : List TsiDmaDesc, ps.map mem = ds.map some ∧
      List.Forall₂ (fun d b => ∃ link, d = blkDesc desc dsat ddat b link) ds bs := by
  induction ps generalizing bs with
  | nil =>
    cases bs with
    | nil => exact ⟨[], rfl, .nil⟩
    | cons b bs => exact h.elim
  | cons p ps ih =>
    cases bs with
    | nil => exact h.elim
    | cons b bs =>
      obtain ⟨ds, hds, hall⟩ := ih h.2
      refine ⟨blkDesc desc dsat ddat b (linkField ps tail) :: ds, ?_, .cons ⟨_, rfl⟩ hall⟩
      rw [List.map_cons, List.map_cons, h.1, hds]

theorem Cells.isChain (hw : 32 ≤ w) (h : Cells desc dsat ddat mem ps bs tail)
    (hps : ∀ p ∈ ps, BusAddr p) (htail : ∀ c, tail = some c → BusAddr c) :
    (ps ++ tail.toList).IsChain (Chain.Links (chipNext mem)) := by
  -- reading a cell whose link field is the address of `q` leads the chip to `q`
  have hstep : ∀ (p q : BitVec w) (b : Blk w), BusAddr q →
      mem p = some (blkDesc desc dsat ddat b (linkWord q)) → Chain.Links (chipNext mem) p q := by
    intro p q b hq hp
    unfold Chain.Links chipNext
    rw [hp, Option.map_some, blkDesc_dnlal, linkWord_not_last hw hq, linkWord_masked hw hq,
      linkWord_setWidth hw hq]
    simp
  induction ps generalizing bs with
  | nil => cases tail <;> simp
  | cons p ps ih =>
    cases bs with
    | nil => exact h.elim
    | cons b bs =>
      have hrest := ih h.2 fun q hq => hps q (List.mem_cons_of_mem p hq)
      cases ps with
      | cons q ps =>
        rw [List.cons_append, List.cons_append, List.isChain_cons_cons]
        exact ⟨hstep p q b (hps q (by simp)) h.1, hrest⟩
      | nil =>
        cases htl : tail with
        | none => simp
        | some c =>
          subst htl
          rw [List.cons_append, List.nil_append, Option.toList_some, List.isChain_pair]
          exact hstep p c b (htail c rfl) h.1

end Cells

/-! ## The length of a block -/

/-- The block size on the VME side, 0 when there is no boundary. -/
def blockSize (bshift : ℕ) : ℕ := if bshift = 0 then 0 else 2^bshift

theorem getBshift_cases (am : U32) : getBshift am = 0 ∨ getBshift am = 8 ∨ getBshift am = 11 := by
  unfold getBshift
  split
  · exact .inr (.inr rfl)
  · split
    · exact .inr (.inl rfl)
    · exact .inl rfl

theorem getBshift_lt (am : U32) : getBshift am < 32 := by
  rcases getBshift_cases am with h | h | h <;> omega

/-- The length up to the next boundary, before it is shortened to the bytes that are left. -/
def fullLen (a : LinkArgs w) (s : LinkVars w) : U32 :=
  if a.bshift ≠ 0 then tsi148GetBsize a.bshift - (s.vme &&& tsi148GetBmask (tsi148GetBsize a.bshift))
  else s.len

theorem tsi148GetBsize_toNat {k : ℕ} (hk : k < 32) : (tsi148GetBsize k).toNat = 2^k := by
  have hlt : (2 : ℕ)^k < 2^32 := Nat.pow_lt_pow_right (by omega) hk
  unfold tsi148GetBsize
  rw [BitVec.toNat_shiftLeft, Nat.shiftLeft_eq]
  change 1 * 2^k % 2^32 = 2^k
  rw [Nat.one_mul, Nat.mod_eq_of_lt hlt]

theorem fullLen_toNat {a : LinkArgs w} {s : LinkVars w} (hk : a.bshift < 32) (h0 : a.bshift ≠ 0) :
    (fullLen a s).toNat = room (2^a.bshift) s.vme.toNat := by
  have hsize := tsi148GetBsize_toNat hk
  have hpos : 0 < 2^a.bshift := Nat.two_pow_pos a.bshift
  have hmask : (tsi148GetBmask (tsi148GetBsize a.bshift)).toNat = 2^a.bshift - 1 := by
    unfold tsi148GetBmask
    rw [BitVec.toNat_sub_of_le (by rw [BitVec.le_def, hsize]; exact hpos), hsize]
    rfl
  have hlow := toNat_and_low s.vme _ hmask
  have hmod := Nat.mod_lt s.vme.toNat hpos
  unfold fullLen room
  rw [if_pos h0, BitVec.toNat_sub_of_le (by rw [BitVec.le_def, hlow, hsize]; omega), hlow, hsize]

theorem linkLen_def (a : LinkArgs w) (s : LinkVars w) :
    linkLen a s = if s.dma + (fullLen a s).setWidth w > a.dmaEnd then (a.dmaEnd - s.dma).setWidth 32
      else fullLen a s := rfl

theorem toNat_setWidth_word (hw : 32 ≤ w) (x : U32) : (x.setWidth w).toNat = x.toNat := by
  have hle : (2 : ℕ)^32 ≤ 2^w := Nat.pow_le_pow_right (by omega) hw
  rw [BitVec.toNat_setWidth, Nat.mod_eq_of_lt (lt_of_lt_of_le x.isLt hle)]

/-- While the full block stays below the top of the bus address type, it is shortened to the `n`
bytes that are left. -/
theorem linkLen_fits (hw : 32 ≤ w) {a : LinkArgs w} {s : LinkVars w} {n : ℕ} (hn : n < 2^32)
    (hend : a.dmaEnd.toNat = s.dma.toNat + n) (hfit : s.dma.toNat + (fullLen a s).toNat < 2^w) :
    (linkLen a s).toNat = min n (fullLen a s).toNat := by
  have hadd : (s.dma + (fullLen a s).setWidth w).toNat = s.dma.toNat + (fullLen a s).toNat := by
    rw [BitVec.toNat_add, toNat_setWidth_word hw, Nat.mod_eq_of_lt hfit]
  rw [linkLen_def]
  by_cases hgt : s.dma + (fullLen a s).setWidth w > a.dmaEnd
  · have hlt : n < (fullLen a s).toNat := by
      rw [gt_iff_lt, BitVec.lt_def, hadd, hend] at hgt
      omega
    rw [if_pos hgt, BitVec.toNat_setWidth, BitVec.toNat_sub_of_le (by rw [BitVec.le_def]; omega), hend,
      Nat.add_sub_cancel_left, Nat.mod_eq_of_lt hn, Nat.min_eq_left (Nat.le_of_lt hlt)]
  · have hle : (fullLen a s).toNat ≤ n := by
      rw [gt_iff_lt, BitVec.lt_def, hadd, hend] at hgt
      omega
    rw [if_neg hgt, Nat.min_eq_right hle]

/-- Once the full block reaches the top of the bus address type the comparison is made with a
wrapped sum, and the block is not shortened. -/
theorem linkLen_wraps (hw : 32 ≤ w) {a : LinkArgs w} {s : LinkVars w}
    (hlt : s.dma.toNat < a.dmaEnd.toNat) (hwrap : 2^w ≤ s.dma.toNat + (fullLen a s).toNat) :
    linkLen a s = fullLen a s := by
  have hle : (2 : ℕ)^32 ≤ 2^w := Nat.pow_le_pow_right (by omega) hw
  have hfull := lt_of_lt_of_le (fullLen a s).isLt hle
  have hdma := s.dma.isLt
  have hadd : (s.dma + (fullLen a s).setWidth w).toNat = s.dma.toNat + (fullLen a s).toNat - 2^w := by
    rw [BitVec.toNat_add, toNat_setWidth_word hw, Nat.mod_eq_sub_mod hwrap, Nat.mod_eq_of_lt (by omega)]
  rw [linkLen_def, if_neg]
  rw [gt_iff_lt, BitVec.lt_def, hadd]
  omega

/-- A block is never longer than the way to the next boundary, wrapped sum or not. -/
theorem linkLen_le_full (hw : 32 ≤ w) {a : LinkArgs w} {s : LinkVars w} (hlt : s.dma < a.dmaEnd) :
    (linkLen a s).toNat ≤ (fullLen a s).toNat := by
  rw [BitVec.lt_def] at hlt
  by_cases hfit : s.dma.toNat + (fullLen a s).toNat < 2^w
  · have hadd : (s.dma + (fullLen a s).setWidth w).toNat = s.dma.toNat + (fullLen a s).toNat := by
      rw [BitVec.toNat_add, toNat_setWidth_word hw, Nat.mod_eq_of_lt hfit]
    rw [linkLen_def]
    by_cases hgt : s.dma + (fullLen a s).setWidth w > a.dmaEnd
    · rw [if_pos hgt, BitVec.toNat_setWidth, BitVec.toNat_sub_of_le (by rw [BitVec.le_def]; omega)]
      rw [gt_iff_lt, BitVec.lt_def, hadd] at hgt
      have := Nat.mod_le (a.dmaEnd.toNat - s.dma.toNat) (2^32)
      omega
    · rw [if_neg hgt]
  · rw [linkLen_wraps hw hlt (by omega)]

/-! ## Open and closed chains -/

def PoolAnswer.addr? : PoolAnswer w → Option (BitVec w)
  | .ok p => some p
  | _ => none

/-- A block respects the block size on the VME side. -/
def Blk.Within (bshift : ℕ) (b : Blk w) : Prop :=
  bshift ≠ 0 → b.len.toNat ≤ room (2^bshift) b.vme.toNat

/-- Between two passes: `ps` are finished, `c` is on the list but not filled yet, and the pool will
not hand out any of them again. -/
structure Open (desc : VmeDma) (dsat ddat : U32) (bshift : ℕ) (ch : Chan w) (ps : List (BitVec w))
    (bs : List (Blk w)) (c : BitVec w) (pool : List (PoolAnswer w)) : Prop where
  list : ch.hwDescList = ps ++ [c]
  cells : Cells desc dsat ddat ch.mem ps bs (some c)
  blank : ch.mem c = none
  fresh : (ps ++ c :: pool.filterMap PoolAnswer.addr?).Nodup
  bus : ∀ p ∈ ps ++ c :: pool.filterMap PoolAnswer.addr?, BusAddr p
  request : ch.desc = desc
  within : ∀ b ∈ bs, b.Within bshift

/-- After the last pass: all descriptors on the list are finished. -/
structure Closed (desc : VmeDma) (dsat ddat : U32) (bshift : ℕ) (ch : Chan w) (ps : List (BitVec w))
    (bs : List (Blk w)) : Prop where
  list : ch.hwDescList = ps
  cells : Cells desc dsat ddat ch.mem ps bs none
  nodup : ps.Nodup
  bus : ∀ p ∈ ps, BusAddr p
  request : ch.desc = desc
  within : ∀ b ∈ bs, b.Within bshift

def passBlk (a : LinkArgs w) (s : LinkVars w) : Blk w := ⟨s.vme, s.dma, linkLen a s⟩

section Pass
variable {desc : VmeDma} {a : LinkArgs w} {s : LinkVars w} {ps : List (BitVec w)} {bs : List (Blk w)}
  {c : BitVec w} {pool : List (PoolAnswer w)}

theorem passBlk_within (hw : 32 ≤ w) (hk : a.bshift < 32) (hlt : s.dma < a.dmaEnd) :
    (passBlk a s).Within a.bshift := by
  intro h0
  have h := linkLen_le_full hw hlt
  rw [fullLen_toNat hk h0] at h
  exact h

theorem linkFill_mem (hdir : ValidDir desc) (hreq : s.ch.desc = desc) :
    (linkFill a s c).ch.mem = Function.update s.ch.mem c
      (some (blkDesc desc a.dsat a.ddat (passBlk a s) tsi148LcsrDnlalLla)) := by
  change Function.update s.ch.mem c (tsi148FillDmaDesc s.ch.desc (s.ch.mem c) (passBlk a s).vme
    (passBlk a s).dma (passBlk a s).len a.dsat a.ddat) = _
  rw [hreq, fill_eq_blkDesc hdir]

theorem within_snoc (hw : 32 ≤ w) (hk : a.bshift < 32) (hlt : s.dma < a.dmaEnd)
    (hbs : ∀ b ∈ bs, b.Within a.bshift) : ∀ b ∈ bs ++ [passBlk a s], b.Within a.bshift := by
  intro b hb
  obtain h | h := List.mem_append.mp hb
  · exact hbs b h
  · rw [List.mem_singleton.mp h]
    exact passBlk_within hw hk hlt

theorem Open.close (hw : 32 ≤ w) (hk : a.bshift < 32) (hdir : ValidDir desc) (hlt : s.dma < a.dmaEnd)
    (h : Open desc a.dsat a.ddat a.bshift s.ch ps bs c pool) :
    Closed desc a.dsat a.ddat a.bshift (linkFill a s c).ch (ps ++ [c]) (bs ++ [passBlk a s]) where
  list := h.list
  cells := by
    have hnot : ∀ p ∈ ps, p ≠ c := by
      have := (List.nodup_append.mp h.fresh).2.2
      intro p hp
      exact this p hp c (List.mem_cons_self ..)
    refine Cells.snoc (Cells.congr h.cells fun p hp => ?_) ?_
    · rw [linkFill_mem hdir h.request, Function.update_of_ne (hnot p hp)]
    · rw [linkFill_mem hdir h.request, Function.update_self]
      rfl
  nodup := h.fresh.sublist (List.Sublist.append_left (List.Sublist.cons_cons c (List.nil_sublist _)) ps)
  bus := by
    have hsub := List.Sublist.append_left
      (List.Sublist.cons_cons c (List.nil_sublist (pool.filterMap PoolAnswer.addr?))) ps
    exact fun p hp => h.bus p (hsub.subset hp)
  request := h.request
  within := within_snoc hw hk hlt h.within

/-- A pass that goes on: the pool hands out `p`, and the filled descriptor points at it. -/
theorem Open.link (hw : 32 ≤ w) (hk : a.bshift < 32) (hdir : ValidDir desc) (hlt : s.dma < a.dmaEnd)
    {p : BitVec w} (h : Open desc a.dsat a.ddat a.bshift s.ch ps bs c (.ok p :: pool)) :
    Open desc a.dsat a.ddat a.bshift (linkTo (hwdescInit (linkFill a s c).ch (.ok p)).2 c p)
      (ps ++ [c]) (bs ++ [passBlk a s]) p pool := by
  have hfresh : (ps ++ c :: p :: pool.filterMap PoolAnswer.addr?).Nodup := h.fresh
  have hsplit := List.nodup_append.mp hfresh
  have hpc : p ≠ c := by
    have := (List.nodup_cons.mp hsplit.2.1).1
    intro he
    exact this (he ▸ List.mem_cons_self ..)
  have hmem : (linkTo (hwdescInit (linkFill a s c).ch (.ok p)).2 c p).mem =
      Function.update (Function.update (Function.update s.ch.mem c
        (some (blkDesc desc a.dsat a.ddat (passBlk a s) tsi148LcsrDnlalLla))) p none) c
        (some (blkDesc desc a.dsat a.ddat (passBlk a s) (linkWord p))) := by
    simp only [linkTo, hwdescInit, linkFill_mem hdir h.request]
    rw [Function.update_of_ne hpc.symm, Function.update_self, Option.map_some, blkDesc_relink]
  have hbus : ∀ q ∈ ps ++ c :: p :: pool.filterMap PoolAnswer.addr?, BusAddr q := h.bus
  refine ⟨?_, ?_, ?_, ?_, ?_, h.request, within_snoc hw hk hlt h.within⟩
  · change s.ch.hwDescList ++ [p] = _
    rw [h.list]
  · refine Cells.snoc (Cells.congr h.cells fun q hq => ?_) ?_
    · have hqc : q ≠ c := hsplit.2.2 q hq c (List.mem_cons_self ..)
      have hqp : q ≠ p := hsplit.2.2 q hq p (List.mem_cons_of_mem c (List.mem_cons_self ..))
      rw [hmem, Function.update_of_ne hqc, Function.update_of_ne hqp, Function.update_of_ne hqc]
    · rw [hmem, Function.update_self]
      rfl
  · rw [hmem, Function.update_of_ne hpc, Function.update_self]
  · rw [List.append_assoc]
    exact hfresh
  · rw [List.append_assoc]
    exact hbus

end Pass

end HtDrivers.Vmebridge
