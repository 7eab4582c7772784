import HtDrivers.Vmebridge.Tsi148Links

/-! # The chain that `tsi148_dma_setup_chain` builds

The link loop is followed pass by pass. `linkLoop_shape` holds for every request: what was built
stays, and the chain is left open or closed. `linkLoop_cut` adds the arithmetic: as long as no sum
of bus addresses wraps, the blocks of a scatterlist entry are those of `Cut.cut`.
-/
namespace HtDrivers.Vmebridge
open HtDrivers.Lib HtDrivers.Lib.Cut HtDrivers.Lib.Words
set_option autoImplicit false

variable {w : ℕ}

/-! ## One pass of the loop -/

/-- Another link is needed after this pass. -/
def More (a : LinkArgs w) (dma : BitVec w) : Prop := a.index < a.numpages - 1 ∨ dma < a.dmaEnd

instance (a : LinkArgs w) (dma : BitVec w) : Decidable (More a dma) := inferInstanceAs (Decidable (_ ∨ _))

/-- The variables after a pass that linked to `p`. -/
def linked (a : LinkArgs w) (s : LinkVars w) (c p : BitVec w) : LinkVars w :=
  { linkFill a s c with
    ch := linkTo (hwdescInit (linkFill a s c).ch (.ok p)).2 c p
    curr := some p
    next := some p }

section Loop
variable {a : LinkArgs w} {s t : LinkVars w} {pool rest : List (PoolAnswer w)} {c : BitVec w}

theorem linkLoop_exit (hg : ¬ (s.vme < a.vmeEnd ∧ s.dma < a.dmaEnd)) :
    linkLoop a pool s = some (0, s, pool) := by
  rw [linkLoop.eq_def, if_neg hg]

theorem linkLoop_close (hg : s.vme < a.vmeEnd ∧ s.dma < a.dmaEnd) (hc : s.curr = some c)
    (hm : ¬ More a (linkFill a s c).dma) :
    linkLoop a pool s = some (0, { linkFill a s c with curr := (linkFill a s c).next }, pool) := by
  rw [linkLoop.eq_def, if_pos hg, hc]
  exact if_neg hm

theorem linkLoop_link {p : BitVec w} (hg : s.vme < a.vmeEnd ∧ s.dma < a.dmaEnd) (hc : s.curr = some c)
    (hm : More a (linkFill a s c).dma) :
    linkLoop a (.ok p :: pool) s = linkLoop a pool (linked a s c p) := by
  rw [linkLoop.eq_def, if_pos hg, hc]
  exact if_pos hm

theorem linkLoop_refused (hg : s.vme < a.vmeEnd ∧ s.dma < a.dmaEnd) (hc : s.curr = some c)
    (hm : More a (linkFill a s c).dma) (hp : ∀ p pool', pool ≠ .ok p :: pool') :
    ∃ t rest, linkLoop a pool s = some (-ENOMEM, t, rest) := by
  unfold More at hm
  rw [linkLoop.eq_def, if_pos hg, hc]
  simp only [hm, if_true]
  cases pool with
  | nil => exact ⟨_, _, rfl⟩
  | cons answer pool =>
    cases answer with
    | noDesc => exact ⟨_, _, rfl⟩
    | noEntry p => exact ⟨_, _, rfl⟩
    | ok p => exact absurd rfl (hp p pool)

theorem ENOMEM_ne_zero : -ENOMEM ≠ 0 := by decide

theorem linkLoop_cases (hc : s.curr = some c) (h : linkLoop a pool s = some (0, t, rest)) :
    (¬ (s.vme < a.vmeEnd ∧ s.dma < a.dmaEnd) ∧ t = s ∧ rest = pool) ∨
    ((s.vme < a.vmeEnd ∧ s.dma < a.dmaEnd) ∧ ¬ More a (linkFill a s c).dma ∧
      t = { linkFill a s c with curr := (linkFill a s c).next } ∧ rest = pool) ∨
    ((s.vme < a.vmeEnd ∧ s.dma < a.dmaEnd) ∧ More a (linkFill a s c).dma ∧
      ∃ p pool', pool = .ok p :: pool' ∧ linkLoop a pool' (linked a s c p) = some (0, t, rest)) := by
  by_cases hg : s.vme < a.vmeEnd ∧ s.dma < a.dmaEnd
  · by_cases hm : More a (linkFill a s c).dma
    · by_cases hp : ∃ p pool', pool = .ok p :: pool'
      · obtain ⟨p, pool', rfl⟩ := hp
        rw [linkLoop_link hg hc hm] at h
        exact .inr (.inr ⟨hg, hm, p, pool', rfl, h⟩)
      · obtain ⟨t', rest', h'⟩ := linkLoop_refused hg hc hm fun p pool' he => hp ⟨p, pool', he⟩
        rw [h'] at h
        exact absurd (congrArg Prod.fst (Option.some.inj h)) ENOMEM_ne_zero
    · rw [linkLoop_close hg hc hm] at h
      obtain ⟨-, rfl, rfl⟩ : (0 : Int) = 0 ∧ _ = t ∧ pool = rest := by simpa using h
      exact .inr (.inl ⟨hg, hm, rfl, rfl⟩)
  · rw [linkLoop_exit hg] at h
    obtain ⟨-, rfl, rfl⟩ : (0 : Int) = 0 ∧ s = t ∧ pool = rest := by simpa using h
    exact .inl ⟨hg, rfl, rfl⟩

end Loop

/-! ## What the loop leaves behind, whatever the arithmetic -/

section Shape
variable {desc : VmeDma} {a : LinkArgs w} {s t : LinkVars w} {pool rest : List (PoolAnswer w)}
  {ps : List (BitVec w)} {bs : List (Blk w)} {c : BitVec w}

/-- The loop returned 0: it did nothing, left an open chain whose current descriptor is in `next`,
or closed the chain, which it does only for the last entry. -/
theorem linkLoop_shape (hw : 32 ≤ w) (hk : a.bshift < 32) (hdir : ValidDir desc)
    (ho : Open desc a.dsat a.ddat a.bshift s.ch ps bs c pool) (hc : s.curr = some c)
    (h : linkLoop a pool s = some (0, t, rest)) :
    (t = s ∧ rest = pool) ∨
    (∃ ps' bs' c', bs <+: bs' ∧ Open desc a.dsat a.ddat a.bshift t.ch ps' bs' c' rest ∧ t.next = some c') ∨
    (∃ ps' bs', bs <+: bs' ∧ Closed desc a.dsat a.ddat a.bshift t.ch ps' bs' ∧ a.numpages - 1 ≤ a.index) := by
  induction pool generalizing s ps bs c with
  | nil =>
    obtain ⟨-, rfl, rfl⟩ | ⟨hg, hm, rfl, rfl⟩ | ⟨-, -, p, pool', he, -⟩ := linkLoop_cases hc h
    · exact .inl ⟨rfl, rfl⟩
    · refine .inr (.inr ⟨_, _, List.prefix_append _ _, ho.close hw hk hdir hg.2, ?_⟩)
      exact Int.not_lt.mp fun hlt => hm (.inl hlt)
    · cases he
  | cons answer pool ih =>
    obtain ⟨-, rfl, rfl⟩ | ⟨hg, hm, rfl, rfl⟩ | ⟨hg, hm, p, pool', he, hrec⟩ := linkLoop_cases hc h
    · exact .inl ⟨rfl, rfl⟩
    · refine .inr (.inr ⟨_, _, List.prefix_append _ _, ho.close hw hk hdir hg.2, ?_⟩)
      exact Int.not_lt.mp fun hlt => hm (.inl hlt)
    · obtain ⟨rfl, rfl⟩ := List.cons.inj he
      have hnext : Open desc a.dsat a.ddat a.bshift (linked a s c p).ch (ps ++ [c]) (bs ++ [passBlk a s]) p pool :=
        ho.link hw hk hdir hg.2
      have hpre := List.prefix_append bs [passBlk a s]
      obtain ⟨rfl, rfl⟩ | ⟨ps', bs', c', hp, ho', hn⟩ | ⟨ps', bs', hp, hcl, hidx⟩ := ih hnext rfl hrec
      · exact .inr (.inl ⟨_, _, p, hpre, hnext, rfl⟩)
      · exact .inr (.inl ⟨ps', bs', c', hpre.trans hp, ho', hn⟩)
      · exact .inr (.inr ⟨ps', bs', hpre.trans hp, hcl, hidx⟩)

end Shape

/-! ## The arithmetic of one entry -/

/-- The variables stand `n` bytes before the end of the entry. -/
structure Ready (a : LinkArgs w) (inc : Bool) (s : LinkVars w) (n : ℕ) : Prop where
  host : a.dmaEnd.toNat = s.dma.toNat + n
  small : n < 2^32
  vme : if inc then a.vmeEnd.toNat = s.vme.toNat + n else s.vme.toNat < a.vmeEnd.toNat
  whole : a.bshift = 0 → 0 < n → s.len.toNat = n

def VmeDma.inc (desc : VmeDma) : Bool := desc.novmeinc = 0

section Entry
variable {desc : VmeDma} {a : LinkArgs w} {s : LinkVars w} {n : ℕ} {c : BitVec w}

theorem Ready.guard {inc : Bool} (hr : Ready a inc s n) (hn : 0 < n) :
    s.vme < a.vmeEnd ∧ s.dma < a.dmaEnd := by
  have hv := hr.vme
  have hh := hr.host
  rw [BitVec.lt_def, BitVec.lt_def]
  cases inc
  · exact ⟨hv, by omega⟩
  · simp only [if_true] at hv
    exact ⟨by omega, by omega⟩

theorem blockSize_ne {k : ℕ} (h0 : k ≠ 0) : blockSize k = 2^k := if_neg h0

theorem Ready.pass_len (hw : 32 ≤ w) (hk : a.bshift < 32) {inc : Bool} (hr : Ready a inc s n) (hn : 0 < n)
    (hfit : blockEnd (blockSize a.bshift) inc s.vme.toNat s.dma.toNat n < 2^w) :
    (linkLen a s).toNat = pieceLen (blockSize a.bshift) s.vme.toNat n := by
  by_cases h0 : a.bshift = 0
  · have hfull : (fullLen a s).toNat = n := by
      unfold fullLen
      rw [if_neg (by simpa using h0), hr.whole h0 hn]
    have hend := le_blockEnd (blockSize a.bshift) inc s.vme.toNat s.dma.toNat n
    rw [linkLen_fits hw hr.small hr.host (by omega), hfull, Nat.min_self]
    simp [pieceLen, blockSize, h0]
  · have hfull := fullLen_toNat (s := s) hk h0
    have hB : 0 < blockSize a.bshift := by
      rw [blockSize_ne h0]
      exact Nat.two_pow_pos _
    have hroom : s.dma.toNat + room (blockSize a.bshift) s.vme.toNat < 2^w := by
      by_cases hlast : n ≤ room (blockSize a.bshift) s.vme.toNat
      · rw [← blockEnd_last inc hB hn hlast]
        exact hfit
      · have := a.dmaEnd.isLt
        have := hr.host
        omega
    rw [blockSize_ne h0] at hroom
    rw [linkLen_fits hw hr.small hr.host (by rw [hfull]; exact hroom), hfull, blockSize_ne h0]
    simp [pieceLen]

theorem linkFill_dma (hw : 32 ≤ w) (hlt : s.dma.toNat + (linkLen a s).toNat < 2^w) :
    (linkFill a s c).dma.toNat = s.dma.toNat + (linkLen a s).toNat := by
  change (s.dma + (linkLen a s).setWidth w).toNat = _
  rw [BitVec.toNat_add, toNat_setWidth_word hw, Nat.mod_eq_of_lt hlt]

theorem linkFill_vme (hreq : s.ch.desc = desc)
    (hlt : desc.inc = true → s.vme.toNat + (linkLen a s).toNat < 2^32) :
    (linkFill a s c).vme.toNat = advance desc.inc s.vme.toNat (linkLen a s).toNat := by
  change (if s.ch.desc.novmeinc = 0 then s.vme + linkLen a s else s.vme).toNat = _
  rw [hreq]
  by_cases h : desc.novmeinc = 0
  · have hinc : desc.inc = true := decide_eq_true h
    rw [if_pos h, hinc, BitVec.toNat_add, Nat.mod_eq_of_lt (hlt hinc)]
    rfl
  · have hinc : desc.inc = false := decide_eq_false h
    rw [if_neg h, hinc]
    rfl

theorem Ready.pass (hw : 32 ≤ w) (hreq : s.ch.desc = desc) (hr : Ready a desc.inc s n)
    (hle : (linkLen a s).toNat ≤ n) (hwhole : a.bshift = 0 → (linkLen a s).toNat = n) :
    (linkFill a s c).dma.toNat = s.dma.toNat + (linkLen a s).toNat ∧
    (linkFill a s c).vme.toNat = advance desc.inc s.vme.toNat (linkLen a s).toNat ∧
    Ready a desc.inc (linkFill a s c) (n - (linkLen a s).toNat) := by
  have hhost := hr.host
  have hvme := hr.vme
  have hsmall := hr.small
  have hdma := linkFill_dma (c := c) hw (a := a) (s := s) (by have := a.dmaEnd.isLt; omega)
  have hv : (linkFill a s c).vme.toNat = advance desc.inc s.vme.toNat (linkLen a s).toNat := by
    apply linkFill_vme hreq
    intro hinc
    rw [hinc] at hvme
    simp only [if_true] at hvme
    have := a.vmeEnd.isLt
    omega
  refine ⟨hdma, hv, by omega, by omega, ?_, fun h0 hpos => ?_⟩
  · cases hinc : desc.inc
    · rw [hinc] at hvme hv
      simp only [advance, Bool.false_eq_true, if_false] at hvme hv ⊢
      omega
    · rw [hinc] at hvme hv
      simp only [advance, if_true] at hvme hv ⊢
      omega
  · have := hwhole h0
    omega

end Entry

/-! ## One entry -/

/-- The first `k` answers of the pool are descriptors. -/
def Supplies : ℕ → List (PoolAnswer w) → Prop
  | 0, _ => True
  | k + 1, .ok _ :: pool => Supplies k pool
  | _ + 1, _ => False

theorem Supplies.of_not_ok {k : ℕ} {pool : List (PoolAnswer w)} (hp : ∀ p pool', pool ≠ .ok p :: pool') :
    ¬ Supplies (k + 1) pool := by
  intro h
  cases pool with
  | nil => exact h
  | cons answer pool =>
    cases answer with
    | noDesc => exact h
    | noEntry p => exact h
    | ok p => exact hp p pool rfl

theorem supplies_add (k m : ℕ) (pool : List (PoolAnswer w)) :
    Supplies (k + m) pool ↔ Supplies k pool ∧ Supplies m (pool.drop k) := by
  induction k generalizing pool with
  | zero => simp [Supplies]
  | succ k ih =>
    rw [Nat.succ_add]
    cases pool with
    | nil => simp [Supplies]
    | cons answer pool =>
      cases answer with
      | noDesc => simp [Supplies]
      | noEntry p => simp [Supplies]
      | ok p => simpa [Supplies] using ih pool

/-- The descriptors asked for while the blocks of one entry are linked: one for each block, but the
last block of the last entry needs none. -/
def asked (last : Prop) [Decidable last] (blocks : ℕ) : ℕ := if last then blocks - 1 else blocks

section Entry
variable {desc : VmeDma} {a : LinkArgs w} {s : LinkVars w} {n : ℕ} {c : BitVec w}
  {pool : List (PoolAnswer w)} {ps : List (BitVec w)} {bs : List (Blk w)}

/-- The result of linking the blocks `blks` after `bs`. -/
structure Linked (desc : VmeDma) (a : LinkArgs w) (bs blks : List (Blk w)) (t : LinkVars w)
    (rest : List (PoolAnswer w)) : Prop where
  opened : a.index < a.numpages - 1 →
    ∃ ps' c', Open desc a.dsat a.ddat a.bshift t.ch ps' (bs ++ blks) c' rest ∧ t.next = some c'
  closed : ¬ a.index < a.numpages - 1 →
    ∃ ps', Closed desc a.dsat a.ddat a.bshift t.ch ps' (bs ++ blks)

/-- An entry with the blocks `pieces` is linked after `bs`, or the pool refuses one of the descriptors
it needs. -/
def EntryOutcome (desc : VmeDma) (a : LinkArgs w) (bs : List (Blk w)) (pool : List (PoolAnswer w)) (s : LinkVars w)
    (pieces : List Piece) : Prop :=
  let k := asked (¬ a.index < a.numpages - 1) pieces.length
  (Supplies k pool ∧ ∃ t blks, linkLoop a pool s = some (0, t, pool.drop k) ∧ blks.map Blk.piece = pieces ∧
    Linked desc a bs blks t (pool.drop k)) ∨
  (¬ Supplies k pool ∧ ∃ t rest, linkLoop a pool s = some (-ENOMEM, t, rest))

theorem linkLoop_last_block (hw : 32 ≤ w) (hk : a.bshift < 32) (hdir : ValidDir desc)
    (hg : s.vme < a.vmeEnd ∧ s.dma < a.dmaEnd) (hend : ¬ (linkFill a s c).dma < a.dmaEnd)
    (ho : Open desc a.dsat a.ddat a.bshift s.ch ps bs c pool) (hc : s.curr = some c) :
    EntryOutcome desc a bs pool s [(passBlk a s).piece] := by
  by_cases hidx : a.index < a.numpages - 1
  · have hm : More a (linkFill a s c).dma := .inl hidx
    have hone : asked (¬ a.index < a.numpages - 1) [(passBlk a s).piece].length = 1 := by simp [asked, hidx]
    unfold EntryOutcome
    rw [hone]
    by_cases hp : ∃ p pool', pool = .ok p :: pool'
    · obtain ⟨p, pool', rfl⟩ := hp
      have hexit : ¬ ((linked a s c p).vme < a.vmeEnd ∧ (linked a s c p).dma < a.dmaEnd) := fun h => hend h.2
      refine .inl ⟨trivial, linked a s c p, [passBlk a s], ?_, rfl, ?_⟩
      · rw [linkLoop_link hg hc hm, linkLoop_exit hexit]
        rfl
      · exact ⟨fun _ => ⟨_, p, ho.link hw hk hdir hg.2, rfl⟩, fun h => absurd hidx h⟩
    · have hno : ∀ p pool', pool ≠ .ok p :: pool' := fun p pool' he => hp ⟨p, pool', he⟩
      exact .inr ⟨Supplies.of_not_ok hno, linkLoop_refused hg hc hm hno⟩
  · have hm : ¬ More a (linkFill a s c).dma := fun h => h.elim hidx hend
    have hzero : asked (¬ a.index < a.numpages - 1) [(passBlk a s).piece].length = 0 := by simp [asked, hidx]
    unfold EntryOutcome
    rw [hzero]
    refine .inl ⟨trivial, { linkFill a s c with curr := (linkFill a s c).next }, [passBlk a s], ?_, rfl, ?_⟩
    · rw [linkLoop_close hg hc hm]
      rfl
    · exact ⟨fun h => absurd h hidx, fun _ => ⟨_, ho.close hw hk hdir hg.2⟩⟩

theorem linkLoop_next_block {pieces : List Piece} (hg : s.vme < a.vmeEnd ∧ s.dma < a.dmaEnd) (hc : s.curr = some c)
    (hm : More a (linkFill a s c).dma) (hne : pieces ≠ [])
    (hnext : ∀ p pool', pool = .ok p :: pool' →
      EntryOutcome desc a (bs ++ [passBlk a s]) pool' (linked a s c p) pieces) :
    EntryOutcome desc a bs pool s ((passBlk a s).piece :: pieces) := by
  have hpos := List.length_pos_of_ne_nil hne
  have hsucc : asked (¬ a.index < a.numpages - 1) ((passBlk a s).piece :: pieces).length =
      asked (¬ a.index < a.numpages - 1) pieces.length + 1 := by
    simp only [asked, List.length_cons]
    split <;> omega
  unfold EntryOutcome
  rw [hsucc]
  by_cases hp : ∃ p pool', pool = .ok p :: pool'
  · obtain ⟨p, pool', rfl⟩ := hp
    rw [linkLoop_link hg hc hm]
    obtain ⟨hs, t, blks, hloop, hmap, hlk⟩ | ⟨hs, hfail⟩ := hnext p pool' rfl
    · refine .inl ⟨hs, t, passBlk a s :: blks, hloop, ?_, ?_⟩
      · rw [List.map_cons, hmap]
      · obtain ⟨hopened, hclosed⟩ := hlk
        rw [List.append_assoc] at hopened hclosed
        exact ⟨hopened, hclosed⟩
    · exact .inr ⟨hs, hfail⟩
  · have hno : ∀ p pool', pool ≠ .ok p :: pool' := fun p pool' he => hp ⟨p, pool', he⟩
    exact .inr ⟨Supplies.of_not_ok hno, linkLoop_refused hg hc hm hno⟩

/-- The blocks of an entry are the pieces of `cut`. -/
theorem linkLoop_cut (hw : 32 ≤ w) (hk : a.bshift < 32) (hdir : ValidDir desc) (hn : 0 < n)
    (hr : Ready a desc.inc s n)
    (hfit : blockEnd (blockSize a.bshift) desc.inc s.vme.toNat s.dma.toNat n < 2^w)
    (ho : Open desc a.dsat a.ddat a.bshift s.ch ps bs c pool) (hc : s.curr = some c) :
    EntryOutcome desc a bs pool s (cut (blockSize a.bshift) desc.inc s.vme.toNat s.dma.toNat n) := by
  induction n using Nat.strong_induction_on generalizing s ps bs c pool with
  | _ n ih =>
    have hg := hr.guard hn
    have hlen := hr.pass_len hw hk hn hfit
    have hle : (linkLen a s).toNat ≤ n := hlen ▸ pieceLen_le _ _ _
    have hpos : 0 < (linkLen a s).toNat := hlen ▸ pieceLen_pos _ _ _ hn
    have hwhole : a.bshift = 0 → (linkLen a s).toNat = n := by
      intro h0
      rw [hlen]
      simp [pieceLen, blockSize, h0]
    obtain ⟨hdma, hvme, hr'⟩ := hr.pass (c := c) hw ho.request hle hwhole
    have hpiece : (passBlk a s).piece = ⟨s.vme.toNat, s.dma.toNat, pieceLen (blockSize a.bshift) s.vme.toNat n⟩ := by
      rw [← hlen]
      rfl
    have hcut : cut (blockSize a.bshift) desc.inc s.vme.toNat s.dma.toNat n = (passBlk a s).piece ::
        cut (blockSize a.bshift) desc.inc (linkFill a s c).vme.toNat (linkFill a s c).dma.toNat
          (n - (linkLen a s).toNat) := by
      rw [hvme, hdma, hlen, hpiece]
      exact cut_step _ _ _ _ _ hn
    rw [hcut]
    by_cases hdone : n - (linkLen a s).toNat = 0
    · -- the last block of the entry
      rw [hdone, cut_zero]
      refine linkLoop_last_block hw hk hdir hg ?_ ho hc
      rw [BitVec.lt_def, hdma, hr.host]
      omega
    · -- a block that the entry goes on after
      have hrest : 0 < n - (linkLen a s).toNat := by omega
      have hm : More a (linkFill a s c).dma := by
        refine .inr ?_
        rw [BitVec.lt_def, hdma, hr.host]
        omega
      have h0 : a.bshift ≠ 0 := fun h0 => hdone (by have := hwhole h0; omega)
      have hB : 0 < blockSize a.bshift := by
        rw [blockSize_ne h0]
        exact Nat.two_pow_pos _
      have hroom : (linkLen a s).toNat = room (blockSize a.bshift) s.vme.toNat := by
        have hp := hlen
        simp only [pieceLen, hB.ne', if_false] at hp
        omega
      have hfit' : blockEnd (blockSize a.bshift) desc.inc (linkFill a s c).vme.toNat
          (linkFill a s c).dma.toNat (n - (linkLen a s).toNat) < 2^w := by
        rw [hvme, hdma, hroom, ← blockEnd_next desc.inc hB (by omega)]
        exact hfit
      refine linkLoop_next_block hg hc hm (cut_ne_nil _ _ _ _ _ hrest) ?_
      rintro p pool' rfl
      have hrl : Ready a desc.inc (linked a s c p) (n - (linkLen a s).toNat) := ⟨hr'.1, hr'.2, hr'.3, hr'.4⟩
      exact ih _ (by omega) hrest hrl hfit' (ho.link hw hk hdir hg.2) rfl

end Entry

/-! ## An entry whose last block passes the top of the bus address type -/

/-- The block ends at or above the top of the bus address type. -/
def Blk.Overruns (b : Blk w) : Prop := 2^w ≤ b.dma.toNat + b.len.toNat

section Overrun
variable {desc : VmeDma} {a : LinkArgs w} {s t : LinkVars w} {n : ℕ} {c : BitVec w}
  {pool rest : List (PoolAnswer w)} {ps : List (BitVec w)} {bs : List (Blk w)}

theorem linkLoop_overrun (hw : 32 ≤ w) (hk : a.bshift < 32) (hdir : ValidDir desc) (hn : 0 < n)
    (hr : Ready a desc.inc s n)
    (hover : 2^w ≤ blockEnd (blockSize a.bshift) desc.inc s.vme.toNat s.dma.toNat n)
    (ho : Open desc a.dsat a.ddat a.bshift s.ch ps bs c pool) (hc : s.curr = some c)
    (h : linkLoop a pool s = some (0, t, rest)) :
    (∃ ps' bs' c', (∃ b ∈ bs', b.Overruns) ∧ Open desc a.dsat a.ddat a.bshift t.ch ps' bs' c' rest ∧
      t.next = some c') ∨
    (∃ ps' bs', (∃ b ∈ bs', b.Overruns) ∧ Closed desc a.dsat a.ddat a.bshift t.ch ps' bs' ∧
      a.numpages - 1 ≤ a.index) := by
  have htop := a.dmaEnd.isLt
  have h0 : a.bshift ≠ 0 := by
    intro h0
    have := hr.host
    simp only [blockEnd, blockSize, h0, if_true] at hover
    omega
  have hB : 0 < blockSize a.bshift := by
    rw [blockSize_ne h0]
    exact Nat.two_pow_pos _
  induction n using Nat.strong_induction_on generalizing s ps bs c pool with
  | _ n ih =>
    have hg := hr.guard hn
    have hhost := hr.host
    have hfull : (fullLen a s).toNat = room (blockSize a.bshift) s.vme.toNat := by
      rw [fullLen_toNat hk h0, blockSize_ne h0]
    by_cases hlast : n ≤ room (blockSize a.bshift) s.vme.toNat
    · -- this block is the one that is not shortened
      rw [blockEnd_last desc.inc hB hn hlast] at hover
      have hbad : (passBlk a s).Overruns := by
        change 2^w ≤ s.dma.toNat + (linkLen a s).toNat
        rw [linkLen_wraps hw (by omega) (by rw [hfull]; exact hover), hfull]
        exact hover
      have hin : passBlk a s ∈ bs ++ [passBlk a s] := List.mem_append_right _ (List.mem_singleton_self _)
      obtain ⟨hng, -, -⟩ | ⟨-, hm, rfl, rfl⟩ | ⟨-, hm, p, pool', rfl, hrec⟩ := linkLoop_cases hc h
      · exact absurd hg hng
      · refine .inr ⟨_, _, ⟨_, hin, hbad⟩, ho.close hw hk hdir hg.2, ?_⟩
        exact Int.not_lt.mp fun hlt => hm (.inl hlt)
      · have ho' : Open desc a.dsat a.ddat a.bshift (linked a s c p).ch (ps ++ [c]) (bs ++ [passBlk a s]) p pool' :=
          ho.link hw hk hdir hg.2
        obtain ⟨rfl, rfl⟩ | ⟨ps', bs', c', hp, ho'', hnx⟩ | ⟨ps', bs', hp, hcl, hidx⟩ :=
          linkLoop_shape hw hk hdir ho' rfl hrec
        · exact .inl ⟨_, _, p, ⟨_, hin, hbad⟩, ho', rfl⟩
        · exact .inl ⟨ps', bs', c', ⟨_, hp.subset hin, hbad⟩, ho'', hnx⟩
        · exact .inr ⟨ps', bs', ⟨_, hp.subset hin, hbad⟩, hcl, hidx⟩
    · -- a full block before the last one
      have hroom : room (blockSize a.bshift) s.vme.toNat < n := by omega
      have hlen : (linkLen a s).toNat = room (blockSize a.bshift) s.vme.toNat := by
        rw [linkLen_fits hw hr.small hhost (by rw [hfull]; omega), hfull]
        omega
      have hpos := room_pos hB s.vme.toNat
      obtain ⟨hdma, hvme, hr'⟩ := hr.pass (c := c) hw ho.request (by omega) (fun h => absurd h h0)
      have hm : More a (linkFill a s c).dma := by
        refine .inr ?_
        rw [BitVec.lt_def, hdma, hhost]
        omega
      have hover' : 2^w ≤ blockEnd (blockSize a.bshift) desc.inc (linkFill a s c).vme.toNat
          (linkFill a s c).dma.toNat (n - (linkLen a s).toNat) := by
        rw [hvme, hdma, hlen, ← blockEnd_next desc.inc hB hroom]
        exact hover
      obtain ⟨hng, -, -⟩ | ⟨-, hnm, -, -⟩ | ⟨-, -, p, pool', rfl, hrec⟩ := linkLoop_cases hc h
      · exact absurd hg hng
      · exact absurd hm hnm
      · exact ih _ (by omega) (by omega) (s := linked a s c p) ⟨hr'.1, hr'.2, hr'.3, hr'.4⟩ hover'
          (ho.link hw hk hdir hg.2) rfl hrec

end Overrun

/-! ## The whole scatterlist -/

/-- No entry's range of VME addresses reaches `2^32`. -/
def VmeFits (inc : Bool) : ℕ → List (DmaSeg w) → Prop
  | _, [] => True
  | v, seg :: rest => v + seg.len.toNat < 2^32 ∧ VmeFits inc (advance inc v seg.len.toNat) rest

/-- No entry's last block, before it is shortened, reaches the top of the bus address type. -/
def HostFits (bshift : ℕ) (inc : Bool) : ℕ → List (DmaSeg w) → Prop
  | _, [] => True
  | v, seg :: rest =>
    blockEnd (blockSize bshift) inc v seg.addr.toNat seg.len.toNat < 2^w ∧
      HostFits bshift inc (advance inc v seg.len.toNat) rest

instance decidableVmeFits (inc : Bool) : ∀ (v : ℕ) (segs : List (DmaSeg w)), Decidable (VmeFits inc v segs)
  | _, [] => .isTrue trivial
  | v, seg :: rest =>
    have := decidableVmeFits inc (advance inc v seg.len.toNat) rest
    inferInstanceAs (Decidable (_ ∧ _))

instance decidableHostFits (bshift : ℕ) (inc : Bool) :
    ∀ (v : ℕ) (segs : List (DmaSeg w)), Decidable (HostFits bshift inc v segs)
  | _, [] => .isTrue trivial
  | v, seg :: rest =>
    have := decidableHostFits bshift inc (advance inc v seg.len.toNat) rest
    inferInstanceAs (Decidable (_ ∧ _))

def DmaSeg.range (seg : DmaSeg w) : ℕ × ℕ := (seg.addr.toNat, seg.len.toNat)

def entryArgs (numpages index : Int) (bshift : ℕ) (dsat ddat v : U32) (seg : DmaSeg w) : LinkArgs w :=
  { vmeEnd := v + seg.len, dmaEnd := seg.addr + seg.len.setWidth w, numpages := numpages
    index := index, bshift := bshift, dsat := dsat, ddat := ddat }

def entryVars (ch : Chan w) (v : U32) (seg : DmaSeg w) (c : BitVec w) : LinkVars w :=
  { ch := ch, vme := v, dma := seg.addr, len := seg.len, curr := some c, next := none }

section Chain
variable {desc : VmeDma} {dsat ddat : U32} {bshift : ℕ} {np i : Int} {v : U32} {seg : DmaSeg w}
  {segs : List (DmaSeg w)} {ch ch' : Chan w} {c : BitVec w} {pool rest : List (PoolAnswer w)}
  {ps : List (BitVec w)} {bs : List (Blk w)}

theorem entry_ready (hw : 32 ≤ w) (inc : Bool) (hpos : 0 < seg.len.toNat) (hv : v.toNat + seg.len.toNat < 2^32)
    (hh : seg.addr.toNat + seg.len.toNat < 2^w) :
    Ready (entryArgs np i bshift dsat ddat v seg) inc (entryVars ch v seg c) seg.len.toNat where
  host := by
    change (seg.addr + seg.len.setWidth w).toNat = _
    rw [BitVec.toNat_add, toNat_setWidth_word hw, Nat.mod_eq_of_lt hh]
    rfl
  small := seg.len.isLt
  vme := by
    have hadd : (v + seg.len).toNat = v.toNat + seg.len.toNat := by rw [BitVec.toNat_add, Nat.mod_eq_of_lt hv]
    change if inc then (v + seg.len).toNat = v.toNat + seg.len.toNat else v.toNat < (v + seg.len).toNat
    rw [hadd]
    cases inc
    · simpa using hpos
    · rfl
  whole := fun _ _ => rfl

theorem chainLoop_cons :
    chainLoop np bshift dsat ddat (seg :: segs) i v (some c) ch pool =
      (linkLoop (entryArgs np i bshift dsat ddat v seg) pool (entryVars ch v seg c)).bind fun r =>
        if r.1 ≠ 0 then some (r.1, r.2.1.ch, r.2.2)
        else chainLoop np bshift dsat ddat segs (i + 1)
          (if r.2.1.ch.desc.novmeinc = 0 then v + seg.len else v) r.2.1.next r.2.1.ch r.2.2 := by
  have hadd : tsi148DmaLinkAdd ch (some c) v seg np i bshift dsat ddat pool =
      (linkLoop (entryArgs np i bshift dsat ddat v seg) pool (entryVars ch v seg c)).map fun r =>
        (r.1, r.2.1.ch, if r.1 = 0 then r.2.1.next else some c, r.2.2) := rfl
  rw [chainLoop, hadd]
  cases linkLoop (entryArgs np i bshift dsat ddat v seg) pool (entryVars ch v seg c) with
  | none => rfl
  | some r =>
    obtain ⟨rc, t, rest⟩ := r
    by_cases h : rc = 0
    · subst h
      simp
    · simp [h]

theorem advance_toNat (hreq : ch.desc = desc) (hv : v.toNat + seg.len.toNat < 2^32) :
    (if ch.desc.novmeinc = 0 then v + seg.len else v).toNat = advance desc.inc v.toNat seg.len.toNat := by
  rw [hreq]
  by_cases h : desc.novmeinc = 0
  · have hinc : desc.inc = true := decide_eq_true h
    rw [if_pos h, hinc, BitVec.toNat_add, Nat.mod_eq_of_lt hv]
    rfl
  · have hinc : desc.inc = false := decide_eq_false h
    rw [if_neg h, hinc]
    rfl

end Chain

/-- The chain is built up to the blocks `bs`, finished or not. -/
def Built (desc : VmeDma) (dsat ddat : U32) (bshift : ℕ) (ch : Chan w) (bs : List (Blk w)) : Prop :=
  (∃ ps, Closed desc dsat ddat bshift ch ps bs) ∨ ∃ ps c pool, Open desc dsat ddat bshift ch ps bs c pool

section Chain
variable {desc : VmeDma} {dsat ddat : U32} {bshift : ℕ} {np i : Int} {v : U32}
  {segs : List (DmaSeg w)} {ch ch' : Chan w} {c : BitVec w} {pool rest : List (PoolAnswer w)}
  {ps : List (BitVec w)} {bs : List (Blk w)}

theorem chainLoop_nil {virt : Option (BitVec w)} :
    chainLoop np bshift dsat ddat [] i v virt ch pool = some (0, ch, pool) := rfl

/-- A chain that was returned keeps every block written on the way. -/
theorem chainLoop_shape (hw : 32 ≤ w) (hk : bshift < 32) (hdir : ValidDir desc) (hnp : np = i + segs.length)
    (ho : Open desc dsat ddat bshift ch ps bs c pool)
    (h : chainLoop np bshift dsat ddat segs i v (some c) ch pool = some (0, ch', rest)) :
    ∃ bs', bs <+: bs' ∧ Built desc dsat ddat bshift ch' bs' := by
  induction segs generalizing i v c ch pool ps bs with
  | nil =>
    rw [chainLoop_nil] at h
    obtain ⟨-, rfl, rfl⟩ : (0 : Int) = 0 ∧ ch = ch' ∧ pool = rest := by simpa using h
    exact ⟨bs, List.prefix_refl bs, .inr ⟨ps, c, pool, ho⟩⟩
  | cons seg segs ih =>
    rw [chainLoop_cons] at h
    obtain ⟨⟨rc, t, pool'⟩, hloop, hrest⟩ := Option.bind_eq_some_iff.mp h
    have hlen : np = i + 1 + (segs.length : Int) := by
      rw [hnp, List.length_cons]
      push_cast
      ring
    by_cases hrc : rc = 0
    · subst hrc
      simp only [ne_eq, not_true_eq_false, if_false] at hrest
      obtain ⟨rfl, rfl⟩ | ⟨ps', bs', c', hp, ho', hnx⟩ | ⟨ps', bs', hp, hcl, hidx⟩ :=
        linkLoop_shape hw hk hdir ho rfl hloop
      · -- no pass at all: `*virt` is NULL, and only the end of the list avoids the BUG_ON
        cases segs with
        | nil =>
          rw [chainLoop_nil] at hrest
          obtain ⟨-, rfl, rfl⟩ : (0 : Int) = 0 ∧ ch = ch' ∧ pool' = rest := by simpa [entryVars] using hrest
          exact ⟨bs, List.prefix_refl bs, .inr ⟨ps, c, pool', ho⟩⟩
        | cons seg' segs => cases hrest
      · rw [hnx] at hrest
        obtain ⟨bs'', hp', hb⟩ := ih hlen ho' hrest
        exact ⟨bs'', hp.trans hp', hb⟩
      · obtain rfl : segs = [] := by
          change np - 1 ≤ i at hidx
          exact List.eq_nil_of_length_eq_zero (by omega)
        rw [chainLoop_nil] at hrest
        obtain ⟨-, rfl, rfl⟩ : (0 : Int) = 0 ∧ t.ch = ch' ∧ pool' = rest := by simpa using hrest
        exact ⟨bs', hp, .inl ⟨ps', hcl⟩⟩
    · simp only [ne_eq, hrc, not_false_eq_true, if_true] at hrest
      exact absurd (congrArg Prod.fst (Option.some.inj hrest)) hrc

theorem length_next {np i : Int} {n : ℕ} (h : np = i + ((n + 1 : ℕ) : Int)) : np = i + 1 + (n : Int) := by
  rw [h]
  push_cast
  ring

theorem entry_cut {seg : DmaSeg w} (hw : 32 ≤ w) (hk : bshift < 32) (hdir : ValidDir desc)
    (hseg : 0 < seg.len.toNat) (hv : v.toNat + seg.len.toNat < 2^32)
    (hh : blockEnd (blockSize bshift) desc.inc v.toNat seg.addr.toNat seg.len.toNat < 2^w)
    (ho : Open desc dsat ddat bshift ch ps bs c pool) {first : List Piece} {k : ℕ}
    (hfirst : cut (blockSize bshift) desc.inc v.toNat seg.addr.toNat seg.len.toNat = first)
    (hasked : asked (¬ i < np - 1) first.length = k) :
    (Supplies k pool ∧ ∃ t blks,
      linkLoop (entryArgs np i bshift dsat ddat v seg) pool (entryVars ch v seg c) = some (0, t, pool.drop k) ∧
      blks.map Blk.piece = first ∧
      (i < np - 1 → ∃ ps' c', Open desc dsat ddat bshift t.ch ps' (bs ++ blks) c' (pool.drop k) ∧
        t.next = some c') ∧
      (¬ i < np - 1 → ∃ ps', Closed desc dsat ddat bshift t.ch ps' (bs ++ blks))) ∨
    (¬ Supplies k pool ∧ ∃ t rest,
      linkLoop (entryArgs np i bshift dsat ddat v seg) pool (entryVars ch v seg c) = some (-ENOMEM, t, rest)) := by
  have hend := le_blockEnd (blockSize bshift) desc.inc v.toNat seg.addr.toNat seg.len.toNat
  have hready : Ready (entryArgs np i bshift dsat ddat v seg) desc.inc (entryVars ch v seg c) seg.len.toNat :=
    entry_ready hw desc.inc hseg hv (by omega)
  subst hfirst hasked
  obtain ⟨hs, t, blks, hloop, hmap, hlk⟩ | hfail := linkLoop_cut hw hk hdir hseg hready hh ho rfl
  · exact .inl ⟨hs, t, blks, hloop, hmap, hlk.opened, hlk.closed⟩
  · exact .inr hfail

/-- An entry that is not the last one: the loop goes on with the next entry, or a descriptor is
refused. -/
theorem chainLoop_entry {seg : DmaSeg w} (hw : 32 ≤ w) (hk : bshift < 32) (hdir : ValidDir desc)
    (hseg : 0 < seg.len.toNat) (hv : v.toNat + seg.len.toNat < 2^32)
    (hh : blockEnd (blockSize bshift) desc.inc v.toNat seg.addr.toNat seg.len.toNat < 2^w)
    (hmore : i < np - 1) (ho : Open desc dsat ddat bshift ch ps bs c pool) :
    let first := cut (blockSize bshift) desc.inc v.toNat seg.addr.toNat seg.len.toNat
    (Supplies first.length pool ∧ ∃ (v' : U32) (c' : BitVec w) (ch' : Chan w) (ps' : List (BitVec w))
        (blks : List (Blk w)),
      chainLoop np bshift dsat ddat (seg :: segs) i v (some c) ch pool =
        chainLoop np bshift dsat ddat segs (i + 1) v' (some c') ch' (pool.drop first.length) ∧
      v'.toNat = advance desc.inc v.toNat seg.len.toNat ∧ blks.map Blk.piece = first ∧
      Open desc dsat ddat bshift ch' ps' (bs ++ blks) c' (pool.drop first.length)) ∨
    (¬ Supplies first.length pool ∧ ∃ ch' rest,
      chainLoop np bshift dsat ddat (seg :: segs) i v (some c) ch pool = some (-ENOMEM, ch', rest)) := by
  intro first
  have hasked : asked (¬ i < np - 1) first.length = first.length := if_neg (not_not.mpr hmore)
  rw [chainLoop_cons]
  rcases entry_cut hw hk hdir hseg hv hh ho rfl hasked with
    ⟨hs, t, blks, hloop, hmap, hopen, -⟩ | ⟨hs, t, rest, hloop⟩
  · obtain ⟨ps', c', ho', hnx⟩ := hopen hmore
    refine .inl ⟨hs, _, c', t.ch, ps', blks, ?_, advance_toNat ho'.request hv, hmap, ho'⟩
    rw [hloop]
    simp only [Option.bind_some, ne_eq, not_true_eq_false, if_false, hnx]
  · refine .inr ⟨hs, t.ch, rest, ?_⟩
    rw [hloop]
    rfl

/-- The blocks of the whole list are the pieces of `cutAll`, and the chain is closed. -/
theorem chainLoop_cut (hw : 32 ≤ w) (hk : bshift < 32) (hdir : ValidDir desc) (hne : segs ≠ [])
    (hpos : ∀ seg ∈ segs, 0 < seg.len.toNat) (hv : VmeFits desc.inc v.toNat segs)
    (hh : HostFits bshift desc.inc v.toNat segs) (hnp : np = i + segs.length)
    (ho : Open desc dsat ddat bshift ch ps bs c pool) :
    let pieces := cutAll (blockSize bshift) desc.inc v.toNat (segs.map DmaSeg.range)
    (Supplies (pieces.length - 1) pool ∧ ∃ ch' ps' blks,
      chainLoop np bshift dsat ddat segs i v (some c) ch pool = some (0, ch', pool.drop (pieces.length - 1)) ∧
      blks.map Blk.piece = pieces ∧ Closed desc dsat ddat bshift ch' ps' (bs ++ blks)) ∨
    (¬ Supplies (pieces.length - 1) pool ∧ ∃ ch' rest,
      chainLoop np bshift dsat ddat segs i v (some c) ch pool = some (-ENOMEM, ch', rest)) := by
  induction segs generalizing i v c ch pool ps bs with
  | nil => exact absurd rfl hne
  | cons seg segs ih =>
    intro pieces
    have hseg := hpos seg (List.mem_cons_self ..)
    cases segs with
    | nil =>
      have hlast : ¬ i < np - 1 := by
        rw [hnp]
        simp
      have hpieces : cut (blockSize bshift) desc.inc v.toNat seg.addr.toNat seg.len.toNat = pieces := by
        simp [pieces, cutAll, DmaSeg.range]
      have hasked : asked (¬ i < np - 1) pieces.length = pieces.length - 1 := if_pos hlast
      rw [chainLoop_cons]
      rcases entry_cut hw hk hdir hseg hv.1 hh.1 ho hpieces hasked with
        ⟨hs, t, blks, hloop, hmap, -, hclose⟩ | ⟨hs, t, rest, hloop⟩
      · obtain ⟨ps', hcl⟩ := hclose hlast
        refine .inl ⟨hs, t.ch, ps', blks, ?_, hmap, hcl⟩
        rw [hloop]
        rfl
      · refine .inr ⟨hs, t.ch, rest, ?_⟩
        rw [hloop]
        rfl
    | cons seg' segs =>
      have hmore : i < np - 1 := by
        rw [hnp, List.length_cons, List.length_cons]
        omega
      set first := cut (blockSize bshift) desc.inc v.toNat seg.addr.toNat seg.len.toNat with hfirst
      set others := cutAll (blockSize bshift) desc.inc (advance desc.inc v.toNat seg.len.toNat)
        ((seg' :: segs).map DmaSeg.range) with hothers
      have hone : 0 < others.length := by
        have := cut_ne_nil (blockSize bshift) desc.inc (advance desc.inc v.toNat seg.len.toNat)
          seg'.addr.toNat seg'.len.toNat (hpos seg' (by simp))
        apply List.length_pos_of_ne_nil
        simp [hothers, cutAll, DmaSeg.range, this]
      have hcount : pieces.length - 1 = first.length + (others.length - 1) := by
        change (first ++ others).length - 1 = _
        rw [List.length_append]
        omega
      rw [hcount, supplies_add, ← List.drop_drop]
      rcases chainLoop_entry hw hk hdir hseg hv.1 hh.1 hmore ho with
        ⟨hs, v', c', ch1, ps1, blks, hloop, hv', hmap, ho'⟩ | ⟨hs, hfail⟩
      · have hrec := ih (List.cons_ne_nil _ _) (fun s hs => hpos s (List.mem_cons_of_mem seg hs))
          (hv' ▸ hv.2) (hv' ▸ hh.2) (length_next hnp) ho'
        rw [hv'] at hrec
        rw [hloop]
        obtain ⟨hs', ch', ps'', blks', hch, hmap', hcl⟩ | ⟨hs', ch', rest, hch⟩ := hrec
        · refine .inl ⟨⟨hs, hs'⟩, ch', ps'', blks ++ blks', hch, ?_, ?_⟩
          · rw [List.map_append, hmap, hmap']
            rfl
          · rw [← List.append_assoc]
            exact hcl
        · exact .inr ⟨fun h => hs' h.2, ch', rest, hch⟩
      · exact .inr ⟨fun h => hs h.1, hfail⟩

/-- Where an entry's last block reaches the top of the bus address type, a chain that was returned
holds a block that overruns it. -/
theorem chainLoop_overrun (hw : 32 ≤ w) (hk : bshift < 32) (hdir : ValidDir desc)
    (hpos : ∀ seg ∈ segs, 0 < seg.len.toNat ∧ seg.addr.toNat + seg.len.toNat < 2^w)
    (hv : VmeFits desc.inc v.toNat segs) (hh : ¬ HostFits bshift desc.inc v.toNat segs)
    (hnp : np = i + segs.length) (ho : Open desc dsat ddat bshift ch ps bs c pool)
    (h : chainLoop np bshift dsat ddat segs i v (some c) ch pool = some (0, ch', rest)) :
    ∃ bs', (∃ b ∈ bs', b.Overruns) ∧ Built desc dsat ddat bshift ch' bs' := by
  induction segs generalizing i v c ch pool ps bs with
  | nil => exact absurd trivial hh
  | cons seg segs ih =>
    have hseg := hpos seg (List.mem_cons_self ..)
    have hready : Ready (entryArgs np i bshift dsat ddat v seg) desc.inc (entryVars ch v seg c) seg.len.toNat :=
      entry_ready hw desc.inc hseg.1 hv.1 hseg.2
    have hnp' : np = i + 1 + (segs.length : Int) := length_next hnp
    by_cases hthis : blockEnd (blockSize bshift) desc.inc v.toNat seg.addr.toNat seg.len.toNat < 2^w
    · have hlater : ¬ HostFits bshift desc.inc (advance desc.inc v.toNat seg.len.toNat) segs :=
        fun hl => hh ⟨hthis, hl⟩
      have hsegs : segs ≠ [] := by
        rintro rfl
        exact hlater trivial
      have hmore : i < np - 1 := by
        have := List.length_pos_of_ne_nil hsegs
        omega
      rcases chainLoop_entry hw hk hdir hseg.1 hv.1 hthis hmore ho with
        ⟨-, v', c', ch1, ps1, blks, hloop, hv', -, ho'⟩ | ⟨-, ch1, rest', hfail⟩
      · rw [hloop] at h
        exact ih (fun s hs => hpos s (List.mem_cons_of_mem seg hs)) (hv' ▸ hv.2) (hv' ▸ hlater) hnp' ho' h
      · rw [hfail] at h
        exact absurd (congrArg Prod.fst (Option.some.inj h)) ENOMEM_ne_zero
    · rw [chainLoop_cons] at h
      obtain ⟨⟨rc, t, pool'⟩, hloop, hrest⟩ := Option.bind_eq_some_iff.mp h
      obtain rfl : rc = 0 := by
        by_contra hrc
        simp only [ne_eq, hrc, not_false_eq_true, if_true] at hrest
        exact hrc (congrArg Prod.fst (Option.some.inj hrest))
      simp only [ne_eq, not_true_eq_false, if_false] at hrest
      have hover := linkLoop_overrun hw hk hdir hseg.1 hready (Nat.le_of_not_lt hthis) ho rfl hloop
      obtain ⟨ps', bs', c', ⟨b, hb, hbad⟩, ho', hnx⟩ | ⟨ps', bs', ⟨b, hb, hbad⟩, hcl, hidx⟩ := hover
      · rw [hnx] at hrest
        obtain ⟨bs'', hp, hbuilt⟩ := chainLoop_shape hw hk hdir hnp' ho' hrest
        exact ⟨bs'', ⟨b, hp.subset hb, hbad⟩, hbuilt⟩
      · obtain rfl : segs = [] := by
          change np - 1 ≤ i at hidx
          exact List.eq_nil_of_length_eq_zero (by omega)
        rw [chainLoop_nil] at hrest
        obtain ⟨-, rfl, rfl⟩ : (0 : Int) = 0 ∧ t.ch = ch' ∧ pool' = rest := by simpa using hrest
        exact ⟨bs', ⟨b, hb, hbad⟩, .inl ⟨ps', hcl⟩⟩

end Chain

/-! ## An entry for which the loop does not run -/

/-- The loop runs for the entry at VME address `v`: it is not empty, and neither of its ranges reaches
the top of its address type. -/
def EntryRuns (v : ℕ) (seg : DmaSeg w) : Prop :=
  0 < seg.len.toNat ∧ v + seg.len.toNat < 2^32 ∧ seg.addr.toNat + seg.len.toNat < 2^w

instance (v : ℕ) (seg : DmaSeg w) : Decidable (EntryRuns v seg) := inferInstanceAs (Decidable (_ ∧ _ ∧ _))

/-- The entries before the first one for which the loop does not run. -/
def linkedEntries (inc : Bool) : ℕ → List (DmaSeg w) → List (DmaSeg w)
  | _, [] => []
  | v, seg :: rest => if EntryRuns v seg then seg :: linkedEntries inc (advance inc v seg.len.toNat) rest else []

theorem linkedEntries_eq_self (inc : Bool) (v : ℕ) (segs : List (DmaSeg w)) :
    linkedEntries inc v segs = segs ↔ (∀ seg ∈ segs, 0 < seg.len.toNat) ∧ VmeFits inc v segs ∧
      ∀ seg ∈ segs, seg.addr.toNat + seg.len.toNat < 2^w := by
  induction segs generalizing v with
  | nil => simp [linkedEntries, VmeFits]
  | cons seg segs ih =>
    by_cases hrun : EntryRuns v seg
    · obtain ⟨hpos, hvme, hhost⟩ := hrun
      have hruns : EntryRuns v seg := ⟨hpos, hvme, hhost⟩
      simp only [linkedEntries, hruns, if_true, List.cons.injEq, true_and, ih, VmeFits, List.forall_mem_cons]
      exact ⟨fun h => ⟨⟨hpos, h.1⟩, ⟨hvme, h.2.1⟩, hhost, h.2.2⟩, fun h => ⟨h.1.2, h.2.1.2, h.2.2.2⟩⟩
    · simp only [linkedEntries, hrun, if_false, VmeFits, List.forall_mem_cons]
      refine ⟨fun h => absurd h.symm (List.cons_ne_nil _ _), fun h => ?_⟩
      exact absurd ⟨h.1.1, h.2.1.1, h.2.2.1⟩ hrun

theorem linkedEntries_runs (inc : Bool) (v : ℕ) (segs : List (DmaSeg w)) :
    linkedEntries inc v (linkedEntries inc v segs) = linkedEntries inc v segs := by
  induction segs generalizing v with
  | nil => rfl
  | cons seg segs ih =>
    by_cases hrun : EntryRuns v seg
    · simp only [linkedEntries, hrun, if_true, ih]
    · simp only [linkedEntries, hrun, if_false]

section Stuck
variable {desc : VmeDma} {dsat ddat : U32} {bshift : ℕ} {np i : Int} {v : U32}
  {segs : List (DmaSeg w)} {ch : Chan w} {c : BitVec w} {pool : List (PoolAnswer w)}
  {ps : List (BitVec w)} {bs : List (Blk w)}

theorem not_lt_add_of_wraps {k : ℕ} {x y : BitVec k} (h : ¬ (0 < y.toNat ∧ x.toNat + y.toNat < 2^k)) :
    ¬ x < x + y := by
  have hx := x.isLt
  have hy := y.isLt
  rw [BitVec.lt_def, BitVec.toNat_add]
  by_cases hsum : x.toNat + y.toNat < 2^k
  · rw [Nat.mod_eq_of_lt hsum]
    omega
  · rw [Nat.mod_eq_sub_mod (by omega), Nat.mod_eq_of_lt (by omega)]
    omega

/-- The guard of the loop fails for an entry that is empty or reaches the top of an address type. -/
theorem entry_not_runs {seg : DmaSeg w} (hw : 32 ≤ w) (h : ¬ EntryRuns v.toNat seg) :
    linkLoop (entryArgs np i bshift dsat ddat v seg) pool (entryVars ch v seg c) =
      some (0, entryVars ch v seg c, pool) := by
  apply linkLoop_exit
  rintro ⟨hvme, hdma⟩
  by_cases hv : 0 < seg.len.toNat ∧ v.toNat + seg.len.toNat < 2^32
  · refine not_lt_add_of_wraps (x := seg.addr) (y := seg.len.setWidth w) ?_ hdma
    rw [toNat_setWidth_word hw]
    exact fun hh => h ⟨hv.1, hv.2, hh.2⟩
  · exact not_lt_add_of_wraps hv hvme

/-- The list has an entry for which the loop does not run. If it is the last one, the chain is
returned with a descriptor that was never filled; otherwise the next entry runs into the `BUG_ON`. -/
theorem chainLoop_stuck (hw : 32 ≤ w) (hk : bshift < 32) (hdir : ValidDir desc)
    (hstuck : linkedEntries desc.inc v.toNat segs ≠ segs)
    (hh : HostFits bshift desc.inc v.toNat (linkedEntries desc.inc v.toNat segs)) (hnp : np = i + segs.length)
    (ho : Open desc dsat ddat bshift ch ps bs c pool) {k : ℕ}
    (hcount : (cutAll (blockSize bshift) desc.inc v.toNat
      ((linkedEntries desc.inc v.toNat segs).map DmaSeg.range)).length = k) :
    (Supplies k pool ∧ (chainLoop np bshift dsat ddat segs i v (some c) ch pool = none ∨
      ∃ ch' ps' bs' c', chainLoop np bshift dsat ddat segs i v (some c) ch pool = some (0, ch', pool.drop k) ∧
        Open desc dsat ddat bshift ch' ps' bs' c' (pool.drop k))) ∨
    (¬ Supplies k pool ∧ ∃ ch' rest,
      chainLoop np bshift dsat ddat segs i v (some c) ch pool = some (-ENOMEM, ch', rest)) := by
  induction segs generalizing i v c ch pool ps bs k with
  | nil => exact absurd rfl hstuck
  | cons seg segs ih =>
    by_cases hrun : EntryRuns v.toNat seg
    · simp only [linkedEntries, hrun, if_true, List.map_cons] at hcount hh hstuck
      have hrest : linkedEntries desc.inc (advance desc.inc v.toNat seg.len.toNat) segs ≠ segs :=
        fun he => hstuck (by rw [he])
      have hmore : i < np - 1 := by
        have : segs ≠ [] := by
          rintro rfl
          exact hrest rfl
        have := List.length_pos_of_ne_nil this
        rw [List.length_cons] at hnp
        omega
      rw [cutAll, List.length_append] at hcount
      rcases chainLoop_entry hw hk hdir hrun.1 hrun.2.1 hh.1 hmore ho with
        ⟨hs, v', c', ch1, ps1, blks, hloop, hv', -, ho'⟩ | ⟨hs, hfail⟩
      · have hrec := ih (hv' ▸ hrest) (hv' ▸ hh.2) (length_next hnp) ho' rfl
        rw [hv'] at hrec
        rw [hloop, ← hcount, supplies_add, ← List.drop_drop]
        obtain ⟨hs', hbad⟩ | ⟨hs', hfail⟩ := hrec
        · exact .inl ⟨⟨hs, hs'⟩, hbad⟩
        · exact .inr ⟨fun h => hs' h.2, hfail⟩
      · refine .inr ⟨fun h => hs ?_, hfail⟩
        rw [← hcount, supplies_add] at h
        exact h.1
    · simp only [linkedEntries, hrun, if_false, List.map_nil, cutAll, List.length_nil] at hcount
      subst hcount
      refine .inl ⟨trivial, ?_⟩
      rw [chainLoop_cons, entry_not_runs hw hrun]
      cases segs with
      | nil => exact .inr ⟨ch, ps, bs, c, rfl, ho⟩
      | cons seg' segs => exact .inl rfl

end Stuck

/-! ## A descriptor refused before the sum wraps -/

/-- The descriptors in use when the link loop comes to the first block that reaches the top of the bus
address type, the last block of its entry. -/
def inUseAtTop (bshift : ℕ) (inc : Bool) : ℕ → List (DmaSeg w) → ℕ
  | _, [] => 0
  | v, seg :: rest =>
    let blocks := (cut (blockSize bshift) inc v seg.addr.toNat seg.len.toNat).length
    if blockEnd (blockSize bshift) inc v seg.addr.toNat seg.len.toNat < 2^w then
      blocks + inUseAtTop bshift inc (advance inc v seg.len.toNat) rest
    else blocks

theorem inUseAtTop_le (bshift : ℕ) (inc : Bool) (v : ℕ) (segs : List (DmaSeg w)) :
    inUseAtTop bshift inc v segs ≤ (cutAll (blockSize bshift) inc v (segs.map DmaSeg.range)).length := by
  induction segs generalizing v with
  | nil => exact Nat.le_refl 0
  | cons seg segs ih =>
    have hrest := ih (advance inc v seg.len.toNat)
    simp only [inUseAtTop, List.map_cons, cutAll, DmaSeg.range, List.length_append] at hrest ⊢
    split <;> omega

theorem inUseAtTop_pos {bshift : ℕ} {inc : Bool} {v : ℕ} {segs : List (DmaSeg w)}
    (hruns : linkedEntries inc v segs = segs) (hh : ¬ HostFits bshift inc v segs) :
    0 < inUseAtTop bshift inc v segs := by
  cases segs with
  | nil => exact absurd trivial hh
  | cons seg segs =>
    have hpos := ((linkedEntries_eq_self _ _ _).mp hruns).1 seg (List.mem_cons_self ..)
    have hblocks := List.length_pos_of_ne_nil
      (cut_ne_nil (blockSize bshift) inc v seg.addr.toNat seg.len.toNat hpos)
    simp only [inUseAtTop]
    split <;> omega

section Refused
variable {desc : VmeDma} {a : LinkArgs w} {s : LinkVars w} {n : ℕ} {c : BitVec w} {pool : List (PoolAnswer w)}

/-- The blocks before the last one of an entry do not depend on the top of the bus address type: when
the pool refuses one of the descriptors they ask for, the loop ends there. -/
theorem linkLoop_refuses (hw : 32 ≤ w) (hk : a.bshift < 32) (hn : 0 < n) (hr : Ready a desc.inc s n)
    (hreq : s.ch.desc = desc) (hc : s.curr = some c)
    (hs : ¬ Supplies ((cut (blockSize a.bshift) desc.inc s.vme.toNat s.dma.toNat n).length - 1) pool) :
    ∃ t rest, linkLoop a pool s = some (-ENOMEM, t, rest) := by
  induction n using Nat.strong_induction_on generalizing s c pool with
  | _ n ih =>
    have hg := hr.guard hn
    rw [cut_step _ _ _ _ _ hn, List.length_cons, Nat.add_sub_cancel] at hs
    -- with one block left nothing is asked for any more
    have hmore : pieceLen (blockSize a.bshift) s.vme.toNat n < n := by
      refine lt_of_le_of_ne (pieceLen_le _ _ _) fun he => hs ?_
      rw [he, Nat.sub_self, cut_zero]
      trivial
    have h0 : a.bshift ≠ 0 := by
      intro h0
      simp [pieceLen, blockSize, h0] at hmore
    have hB : 0 < blockSize a.bshift := by
      rw [blockSize_ne h0]
      exact Nat.two_pow_pos _
    have hpiece : pieceLen (blockSize a.bshift) s.vme.toNat n = room (blockSize a.bshift) s.vme.toNat := by
      simp only [pieceLen, hB.ne', if_false] at hmore ⊢
      omega
    rw [hpiece] at hs hmore
    have htop := a.dmaEnd.isLt
    have hhost := hr.host
    have hfull : (fullLen a s).toNat = room (blockSize a.bshift) s.vme.toNat := by
      rw [fullLen_toNat hk h0, blockSize_ne h0]
    have hlen : (linkLen a s).toNat = room (blockSize a.bshift) s.vme.toNat := by
      rw [linkLen_fits hw hr.small hhost (by rw [hfull]; omega), hfull]
      omega
    have hpos := room_pos hB s.vme.toNat
    obtain ⟨hdma, hvme, hr'⟩ := hr.pass (c := c) hw hreq (by omega) (fun h => absurd h h0)
    have hm : More a (linkFill a s c).dma := by
      refine .inr ?_
      rw [BitVec.lt_def, hdma, hhost]
      omega
    by_cases hp : ∃ p pool', pool = .ok p :: pool'
    · obtain ⟨p, pool', rfl⟩ := hp
      rw [linkLoop_link hg hc hm]
      refine ih _ (by omega) (by omega) (s := linked a s c p) ⟨hr'.1, hr'.2, hr'.3, hr'.4⟩ hreq rfl ?_
      change ¬ Supplies ((cut (blockSize a.bshift) desc.inc (linkFill a s c).vme.toNat
        (linkFill a s c).dma.toNat (n - (linkLen a s).toNat)).length - 1) pool'
      rw [hvme, hdma, hlen]
      intro hsup
      apply hs
      have hrest := List.length_pos_of_ne_nil (cut_ne_nil (blockSize a.bshift) desc.inc
        (advance desc.inc s.vme.toNat (room (blockSize a.bshift) s.vme.toNat))
        (s.dma.toNat + room (blockSize a.bshift) s.vme.toNat) (n - room (blockSize a.bshift) s.vme.toNat)
        (by omega))
      obtain ⟨k, hk⟩ := Nat.exists_eq_succ_of_ne_zero hrest.ne'
      rw [hk, Nat.succ_sub_one] at hsup
      rw [hk]
      exact hsup
    · exact linkLoop_refused hg hc hm fun p pool' he => hp ⟨p, pool', he⟩

end Refused

section Refused
variable {desc : VmeDma} {dsat ddat : U32} {bshift : ℕ} {np i : Int} {v : U32}
  {segs : List (DmaSeg w)} {ch : Chan w} {c : BitVec w} {pool : List (PoolAnswer w)}
  {ps : List (BitVec w)} {bs : List (Blk w)}

/-- The pool runs out before the block that reaches the top of the bus address type. -/
theorem chainLoop_refuses (hw : 32 ≤ w) (hk : bshift < 32) (hdir : ValidDir desc)
    (hh : ¬ HostFits bshift desc.inc v.toNat (linkedEntries desc.inc v.toNat segs))
    (hnp : np = i + segs.length) (ho : Open desc dsat ddat bshift ch ps bs c pool)
    (hs : ¬ Supplies (inUseAtTop bshift desc.inc v.toNat (linkedEntries desc.inc v.toNat segs) - 1) pool) :
    ∃ ch' rest, chainLoop np bshift dsat ddat segs i v (some c) ch pool = some (-ENOMEM, ch', rest) := by
  induction segs generalizing i v c ch pool ps bs with
  | nil => exact absurd trivial hh
  | cons seg segs ih =>
    by_cases hrun : EntryRuns v.toNat seg
    · simp only [linkedEntries, hrun, if_true, inUseAtTop] at hh hs
      by_cases hthis : blockEnd (blockSize bshift) desc.inc v.toNat seg.addr.toNat seg.len.toNat < 2^w
      · have hlater : ¬ HostFits bshift desc.inc (advance desc.inc v.toNat seg.len.toNat)
            (linkedEntries desc.inc (advance desc.inc v.toNat seg.len.toNat) segs) := fun hl => hh ⟨hthis, hl⟩
        have hpos := inUseAtTop_pos (linkedEntries_runs _ _ _) hlater
        have hmore : i < np - 1 := by
          have : segs ≠ [] := by
            rintro rfl
            exact hlater trivial
          have := List.length_pos_of_ne_nil this
          rw [List.length_cons] at hnp
          omega
        rw [if_pos hthis, Nat.add_sub_assoc hpos, supplies_add] at hs
        obtain ⟨hsup, v', c', ch1, ps1, blks, hloop, hv', -, ho'⟩ | ⟨-, ch1, rest, hfail⟩ :=
          chainLoop_entry hw hk hdir hrun.1 hrun.2.1 hthis hmore ho
        · rw [hloop]
          exact ih (hv' ▸ hlater) (length_next hnp) ho' (hv' ▸ fun h => hs ⟨hsup, h⟩)
        · exact ⟨ch1, rest, hfail⟩
      · rw [if_neg hthis] at hs
        have hready : Ready (entryArgs np i bshift dsat ddat v seg) desc.inc (entryVars ch v seg c) seg.len.toNat :=
          entry_ready hw desc.inc hrun.1 hrun.2.1 hrun.2.2
        obtain ⟨t, rest, hloop⟩ := linkLoop_refuses hw hk hrun.1 hready ho.request rfl hs
        refine ⟨t.ch, rest, ?_⟩
        rw [chainLoop_cons, hloop]
        rfl
    · simp only [linkedEntries, hrun, if_false] at hh
      exact absurd trivial hh

end Refused

end HtDrivers.Vmebridge
