import HtDrivers.Sis33.Sis3320

/-! # The ADC memory of the sis3320 (`sis3320.c`)

Each channel has 64 megabytes, seen through a window of one page. The page register selects one of eight pages, so
an address counts modulo the size of the memory. The constants are `SIS3320_PAGESIZE`, `SIS3320_PAGESIZE_SAMPLES`,
`SIS3320_PAGESHIFT` and `ADC_MEM_PAGE_MASK`; all numbers of the source are 32 bits wide, `getOffset` being
`sis3320_get_offset` up to where the page is put. `smallPageRead` and `bigPageReads` are the reads of
`sis3320_get_data_smallpage` and `sis3320_get_data_bigpage`. The blocks of an event, each read on its own page, are
the bytes of the event.
-/
namespace HtDrivers.Sis33
set_option autoImplicit false

def pageSize : ℕ := 0x800000
def pageSizeSamples : ℕ := 0x400000
def pageShift : ℕ := 23
def adcMemPageMask : ℕ := 0x7

def memSize : ℕ := 8 * pageSize

/-- A block that is read in the window, `size` bytes from `offset` on, with the page that is selected for it. -/
structure BlockRead where
  page : ℕ
  offset : ℕ
  size : ℕ
  deriving DecidableEq, Repr

/-- `sis3320_get_segment_base`: in samples. -/
def getSegmentBase {K : Type} (l : CardLimits) (card : Card K) (segmentNr : ℕ) : ℕ :=
  segmentNr * (l.evLengths.headD 0 / card.nSegments) &&& 0x01fffffc

def getOffset (base nrSamp eventNr : ℕ) : ℕ :=
  let eventSize := nrSamp * 2 % 2 ^ 32
  let membase := base * 2 % 2 ^ 32
  (membase + eventNr * eventSize) % 2 ^ 32

def smallPageRead (base nrSamp eventNr size : ℕ) : BlockRead :=
  let offset := getOffset base nrSamp eventNr
  ⟨offset >>> pageShift &&& adcMemPageMask, offset &&& (pageSize - 1), size⟩

def bigPage0 (base nrSamp eventNr : ℕ) : ℕ := ((base + eventNr * nrSamp) % 2 ^ 32 * 2 % 2 ^ 32) >>> pageShift

def bigPageReads (base nrSamp eventNr : ℕ) : List BlockRead :=
  (List.range (nrSamp / pageSizeSamples)).map fun i =>
    ⟨bigPage0 base nrSamp eventNr + i &&& adcMemPageMask, 0, pageSize⟩

def getData (base nrSamp eventNr size : ℕ) : List BlockRead :=
  if nrSamp ≤ pageSizeSamples then [smallPageRead base nrSamp eventNr size] else bigPageReads base nrSamp eventNr

/-! ## The bytes of an event -/

section Bytes
variable {α : Type} {mem : ℕ → α} {base nrSamp eventNr size : ℕ}

/-- What a block read delivers while the page register holds `page`. -/
def windowBytes (mem : ℕ → α) (page : ℕ) (block : BlockRead) : List α :=
  (List.range block.size).map fun j => mem (page * pageSize + block.offset + j)

/-- The bytes from `2 * (base + eventNr * nrSamp)` on, up to the next event. -/
def eventBytes (mem : ℕ → α) (base nrSamp eventNr : ℕ) : List α :=
  (List.range (2 * nrSamp)).map fun j => mem ((2 * (base + eventNr * nrSamp) + j) % memSize)

theorem range_pieces (f : ℕ → α) (m n : ℕ) :
    (List.range m).flatMap (fun i => (List.range n).map fun j => f (i * n + j)) = (List.range (m * n)).map f := by
  induction m with
  | zero => simp
  | succ m ih =>
    rw [List.range_succ, List.flatMap_append, ih, Nat.succ_mul, List.range_add, List.map_append, List.map_map]
    simp [Function.comp_def]

theorem slot_mod {a n M j : ℕ} (hn : n ∣ M) (ha : n ∣ a) (hM : 0 < M) (hj : j < n) : (a + j) % M = a % M + j := by
  obtain ⟨m, rfl⟩ := hn
  obtain ⟨q, rfl⟩ := ha
  have hm : 0 < m := Nat.pos_of_mul_pos_left hM
  have hlt : q % m < m := Nat.mod_lt q hm
  have hle : n * (q % m) + n ≤ n * m := by
    rw [← Nat.mul_succ]
    exact Nat.mul_le_mul_left n hlt
  rw [Nat.mul_mod_mul_left, Nat.add_mod, Nat.mul_mod_mul_left, Nat.mod_eq_of_lt (a := j) (by omega),
    Nat.mod_eq_of_lt (by omega)]

theorem getOffset_mod : getOffset base nrSamp eventNr % memSize = 2 * (base + eventNr * nrSamp) % memSize := by
  have hsum : base * 2 % 2 ^ 32 + eventNr * (nrSamp * 2 % 2 ^ 32) ≡ base * 2 + eventNr * (nrSamp * 2) [MOD 2 ^ 32] :=
    (Nat.mod_modEq _ _).add ((Nat.mod_modEq _ _).mul_left eventNr)
  have hoffset : getOffset base nrSamp eventNr ≡ base * 2 + eventNr * (nrSamp * 2) [MOD memSize] :=
    ((Nat.mod_modEq _ _).trans hsum).of_dvd (by decide)
  refine Eq.trans hoffset ?_
  congr 1
  ring

theorem page_offset (a : ℕ) :
    (a >>> pageShift &&& adcMemPageMask) * pageSize + (a &&& (pageSize - 1)) = a % memSize := by
  have hpage : a >>> pageShift &&& adcMemPageMask = a / 2 ^ 23 % 8 := by
    rw [Nat.shiftRight_eq_div_pow]
    exact Nat.and_two_pow_sub_one_eq_mod _ 3
  have hoffset : a &&& (pageSize - 1) = a % 2 ^ 23 := Nat.and_two_pow_sub_one_eq_mod _ 23
  rw [hpage, hoffset]
  unfold pageSize memSize pageSize
  omega

theorem smallPage_bytes (hsmall : nrSamp ∣ pageSizeSamples) (hbase : nrSamp ∣ base) :
    windowBytes mem (smallPageRead base nrSamp eventNr (2 * nrSamp)).page
      (smallPageRead base nrSamp eventNr (2 * nrSamp)) = eventBytes mem base nrSamp eventNr := by
  have hslot : 2 * nrSamp ∣ 2 * (base + eventNr * nrSamp) :=
    Nat.mul_dvd_mul_left 2 (Nat.dvd_add hbase (Nat.dvd_mul_left _ _))
  have hmem : 2 * nrSamp ∣ memSize := by
    refine (Nat.mul_dvd_mul_left 2 hsmall).trans ?_
    decide
  unfold windowBytes eventBytes
  refine List.map_congr_left fun j hj => ?_
  rw [slot_mod hmem hslot (by decide) (List.mem_range.mp hj), ← getOffset_mod, ← page_offset]
  rfl

theorem smallPage_inWindow (hsmall : nrSamp ∣ pageSizeSamples) (hbase : nrSamp ∣ base) :
    (smallPageRead base nrSamp eventNr (2 * nrSamp)).offset + 2 * nrSamp ≤ pageSize := by
  have hpage : 2 * nrSamp ∣ pageSize := Nat.mul_dvd_mul_left 2 hsmall
  have hslot : 2 * nrSamp ∣ getOffset base nrSamp eventNr % pageSize := by
    have hmod : getOffset base nrSamp eventNr % pageSize = 2 * (base + eventNr * nrSamp) % pageSize := by
      have hdvd : pageSize ∣ memSize := by decide
      rw [← Nat.mod_mod_of_dvd _ hdvd, getOffset_mod, Nat.mod_mod_of_dvd _ hdvd]
    rw [hmod, Nat.dvd_mod_iff hpage]
    exact Nat.mul_dvd_mul_left 2 (Nat.dvd_add hbase (Nat.dvd_mul_left _ _))
  have hlt : getOffset base nrSamp eventNr % pageSize < pageSize := Nat.mod_lt _ (by decide)
  have hoffset : (smallPageRead base nrSamp eventNr (2 * nrSamp)).offset = getOffset base nrSamp eventNr % pageSize :=
    Nat.and_two_pow_sub_one_eq_mod _ 23
  rw [hoffset]
  obtain ⟨q, hq⟩ := hslot
  obtain ⟨m, hm⟩ := hpage
  rw [hq, hm] at hlt ⊢
  rw [← Nat.mul_succ]
  exact Nat.mul_le_mul_left _ (Nat.lt_of_mul_lt_mul_left hlt)

theorem bigPage0_mod : bigPage0 base nrSamp eventNr % 8 = 2 * (base + eventNr * nrSamp) / 2 ^ 23 % 8 := by
  unfold bigPage0
  rw [Nat.shiftRight_eq_div_pow]
  unfold pageShift
  omega

theorem bigPage_bytes (hbig : pageSizeSamples ∣ nrSamp) (hbase : pageSizeSamples ∣ base) :
    (bigPageReads base nrSamp eventNr).flatMap (fun block => windowBytes mem block.page block) =
      eventBytes mem base nrSamp eventNr := by
  obtain ⟨m, rfl⟩ := hbig
  obtain ⟨b, rfl⟩ := hbase
  have hlen : 2 * (pageSizeSamples * m) = m * pageSize := by
    unfold pageSizeSamples pageSize
    omega
  have hm : pageSizeSamples * m / pageSizeSamples = m := Nat.mul_div_cancel_left m (by decide)
  unfold eventBytes bigPageReads
  rw [hlen, ← range_pieces, hm, List.flatMap_map]
  refine List.flatMap_congr fun i _ => ?_
  unfold windowBytes
  refine List.map_congr_left fun j hj => ?_
  have hj := List.mem_range.mp hj
  have hpage : bigPage0 (pageSizeSamples * b) (pageSizeSamples * m) eventNr + i &&& adcMemPageMask =
      (b + eventNr * m + i) % 8 := by
    rw [show adcMemPageMask = 2 ^ 3 - 1 from rfl, Nat.and_two_pow_sub_one_eq_mod, Nat.add_mod]
    change (bigPage0 _ _ _ % 8 + i % 8) % 8 = _
    rw [bigPage0_mod]
    have haddr : 2 * (pageSizeSamples * b + eventNr * (pageSizeSamples * m)) = 2 ^ 23 * (b + eventNr * m) := by
      unfold pageSizeSamples
      ring
    rw [haddr, Nat.mul_div_cancel_left _ (by decide)]
    omega
  congr 1
  dsimp only
  rw [hpage]
  have haddr : 2 * (pageSizeSamples * b + eventNr * (pageSizeSamples * m)) + (i * pageSize + j) =
      pageSize * (b + eventNr * m + i) + j := by
    unfold pageSizeSamples pageSize
    ring
  rw [haddr]
  unfold memSize
  have hj' : j < pageSize := hj
  unfold pageSize at hj' ⊢
  omega

theorem getData_bytes (hlen : nrSamp ∣ pageSizeSamples ∨ pageSizeSamples ∣ nrSamp ∧ pageSizeSamples < nrSamp)
    (hbase : pageSizeSamples ∣ base) :
    (getData base nrSamp eventNr (2 * nrSamp)).flatMap (fun block => windowBytes mem block.page block) =
      eventBytes mem base nrSamp eventNr := by
  unfold getData
  obtain hsmall | ⟨hbig, hlt⟩ := hlen
  · rw [if_pos (Nat.le_of_dvd (by decide) hsmall), List.flatMap_singleton]
    exact smallPage_bytes hsmall (hsmall.trans hbase)
  · rw [if_neg (not_le.mpr hlt)]
    exact bigPage_bytes hbig hbase

theorem getData_size (hlen : nrSamp ∣ pageSizeSamples ∨ pageSizeSamples ∣ nrSamp ∧ pageSizeSamples < nrSamp) :
    ((getData base nrSamp eventNr (2 * nrSamp)).map BlockRead.size).sum = 2 * nrSamp := by
  unfold getData
  obtain hsmall | ⟨⟨m, rfl⟩, hlt⟩ := hlen
  · rw [if_pos (Nat.le_of_dvd (by decide) hsmall)]
    exact Nat.add_zero _
  · have hm : pageSizeSamples * m / pageSizeSamples = m := Nat.mul_div_cancel_left m (by decide)
    have hconst : (BlockRead.size ∘ fun i =>
        (⟨bigPage0 base (pageSizeSamples * m) eventNr + i &&& adcMemPageMask, 0, pageSize⟩ : BlockRead)) =
          fun _ => pageSize := rfl
    rw [if_neg (not_le.mpr hlt), bigPageReads, hm, List.map_map, hconst, List.map_const', List.sum_replicate,
      List.length_range]
    unfold pageSizeSamples pageSize
    simp only [smul_eq_mul]
    omega

end Bytes

theorem evLength_pages {len : ℕ} (h : len ∈ sis3320EvLengths) :
    len ∣ pageSizeSamples ∨ pageSizeSamples ∣ len ∧ pageSizeSamples < len := by
  have hall : ∀ len ∈ sis3320EvLengths, len ∣ pageSizeSamples ∨ pageSizeSamples ∣ len ∧ pageSizeSamples < len := by
    decide
  exact hall len h

theorem segmentBase_pages {K : Type} {card : Card K} (hn : card.nSegments = 1 ∨ card.nSegments = 2) {i : ℕ}
    (hi : i < card.nSegments) : getSegmentBase limits3320 card i = i * 2 ^ 24 := by
  unfold getSegmentBase
  obtain hn | hn := hn
  · rw [hn] at hi ⊢
    obtain rfl : i = 0 := by omega
    rfl
  · rw [hn] at hi ⊢
    obtain rfl | rfl : i = 0 ∨ i = 1 := by omega
    · rfl
    · rfl

end HtDrivers.Sis33
