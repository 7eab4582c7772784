import HtDrivers.Vmebridge.VmeDmaBalance

/-! # The scatterlist of a buffer

`vme_dma_setup` counts the pages of a buffer, and `sgl_map_user_pages` cuts the buffer at the page
boundaries: the first entry runs to the end of its page, the others start their pages. With an
`unsigned long` of 32 bits the sum behind the page count wraps for some buffers that pass the
overflow check; this module says for which. -/
namespace HtDrivers.Vmebridge
open HtDrivers.Lib.Words
set_option autoImplicit false

/-! ## Pages and entries -/

/-- The pages that `[uaddr, uaddr + length)` touches. -/
def touchedPages (uaddr length : ℕ) : Finset ℕ := (Finset.Ico uaddr (uaddr + length)).image (· / pageSize)

theorem touchedPages_eq {uaddr length : ℕ} (h : 0 < length) :
    touchedPages uaddr length = Finset.Icc (uaddr / pageSize) ((uaddr + length - 1) / pageSize) := by
  unfold touchedPages pageSize
  ext p
  simp only [Finset.mem_image, Finset.mem_Ico, Finset.mem_Icc]
  constructor
  · rintro ⟨a, ⟨hlow, hhigh⟩, rfl⟩
    omega
  · rintro ⟨hlow, hhigh⟩
    -- the first byte of the buffer that lies on the page
    refine ⟨max uaddr (p * 4096), ⟨?_, ?_⟩, ?_⟩
    · omega
    · omega
    · omega

theorem card_touchedPages {uaddr length : ℕ} (h : 0 < length) :
    (touchedPages uaddr length).card = (uaddr % pageSize + length + (pageSize - 1)) / pageSize := by
  rw [touchedPages_eq h, Nat.card_Icc]
  unfold pageSize
  omega

/-- The addresses that the entries stand for, the first of them on page `p`. -/
def sglCover : ℕ → List SgEntry → List ℕ
  | _, [] => []
  | p, e :: sgl => List.range' (p * pageSize + e.offset.toNat) e.length.toNat ++ sglCover (p + 1) sgl

theorem length_sglCover (p : ℕ) (sgl : List SgEntry) : (sglCover p sgl).length = sglBytes sgl := by
  induction sgl generalizing p with
  | nil => rfl
  | cons e sgl ih =>
    rw [sglCover, List.length_append, List.length_range', ih]
    rfl

/-- The entries `sgl` on `pages` are a partition of the buffer. -/
structure Scatters (uaddr length : U32) (pages : List ℕ) (sgl : List SgEntry) : Prop where
  page : sgl.map SgEntry.page = pages
  first : ∀ e ∈ sgl.head?, e.offset.toNat = uaddr.toNat % pageSize
  rest : ∀ e ∈ sgl.tail, e.offset = 0
  len : ∀ e ∈ sgl, 1 ≤ e.length.toNat ∧ e.length.toNat ≤ pageSize
  inPage : ∀ e ∈ sgl, e.offset.toNat + e.length.toNat ≤ pageSize
  total : sglBytes sgl = length.toNat
  cover : sglCover (uaddr.toNat / pageSize) sgl = List.range' uaddr.toNat length.toNat

/-- The result of `sgl_fill_user_pages` or `sgl_fill_kernel_pages`. -/
def fillPages {w : ℕ} (env : DmaEnv w) (nrPages : ℕ) (uaddr : U32) (toUser : Bool) : Int × List ℕ :=
  if toUser then sglFillUserPages env nrPages else sglFillKernelPages env uaddr nrPages

/-- The pages are counted right, and whenever all of them are delivered the entries partition the
buffer. -/
def ScatterlistRight (uaddr length : U32) : Prop :=
  nrPages 32 uaddr length = (touchedPages uaddr.toNat length.toNat).card ∧
    ∀ (w : ℕ) (env : DmaEnv w) (ch ch' : Chan w) (toUser : Bool) (rc : Int), env.longBits = 32 →
      env.pagesAlloc = true → (nrPages 32 uaddr length : Int) ≤
        (fillPages env (nrPages 32 uaddr length) uaddr toUser).1 →
      sglMapUserPages env ch (nrPages 32 uaddr length) uaddr length toUser = some (rc, ch') →
      Scatters uaddr length (fillPages env (nrPages 32 uaddr length) uaddr toUser).2 ch'.sgl

/-! ## The loop over the pages -/

section Rest
variable {pages : List ℕ} {length : BitVec 32}

/-- The entry that the loop makes of one page. -/
def restEntry (page : ℕ) (length : BitVec 32) : SgEntry :=
  { page := page, length := if length < BitVec.ofNat 32 pageSize then length else BitVec.ofNat 32 pageSize,
    offset := 0 }

theorem sglRest_cons (page : ℕ) (pages : List ℕ) (length : BitVec 32) :
    sglRest 32 (page :: pages) length =
      restEntry page length :: sglRest 32 pages (length - BitVec.ofNat 32 pageSize) := by
  rw [sglRest, BitVec.setWidth_eq]
  rfl

theorem toNat_restEntry (page : ℕ) (length : BitVec 32) :
    (restEntry page length).length.toNat = min length.toNat pageSize := by
  have hpage : (BitVec.ofNat 32 pageSize).toNat = pageSize := rfl
  unfold restEntry
  simp only [BitVec.lt_def, hpage]
  split <;> omega

theorem toNat_sub_page (h : pageSize ≤ length.toNat) :
    (length - BitVec.ofNat 32 pageSize).toNat = length.toNat - pageSize := by
  have hpage : (BitVec.ofNat 32 pageSize).toNat = pageSize := rfl
  rw [BitVec.toNat_sub_of_le (by rw [BitVec.le_def, hpage]; exact h), hpage]

theorem sglRest_entries (hlo : pageSize * (pages.length - 1) < length.toNat)
    (hhi : length.toNat ≤ pageSize * pages.length) :
    ∀ e ∈ sglRest 32 pages length, e.offset = 0 ∧ 1 ≤ e.length.toNat ∧ e.length.toNat ≤ pageSize := by
  induction pages generalizing length with
  | nil => exact nofun
  | cons page pages ih =>
    rw [sglRest_cons]
    simp only [List.length_cons, Nat.add_sub_cancel] at hlo hhi
    intro e he
    obtain rfl | he := List.mem_cons.mp he
    · rw [toNat_restEntry]
      unfold pageSize at hlo ⊢
      exact ⟨rfl, by omega, by omega⟩
    · cases pages with
      | nil => exact nomatch he
      | cons page' pages =>
        simp only [List.length_cons] at hlo hhi ih
        have hsub := toNat_sub_page (show pageSize ≤ length.toNat by unfold pageSize at hlo ⊢; omega)
        refine ih ?_ ?_ e he
        · rw [hsub]
          unfold pageSize at hlo ⊢
          omega
        · rw [hsub]
          unfold pageSize at hhi ⊢
          omega

theorem sglRest_cover (p : ℕ) (hlo : pageSize * (pages.length - 1) < length.toNat)
    (hhi : length.toNat ≤ pageSize * pages.length) :
    sglCover p (sglRest 32 pages length) = List.range' (p * pageSize) length.toNat := by
  induction pages generalizing length p with
  | nil =>
    rw [List.length_nil] at hlo hhi
    omega
  | cons page pages ih =>
    rw [sglRest_cons, sglCover, toNat_restEntry]
    simp only [List.length_cons, Nat.add_sub_cancel] at hlo hhi
    have hoffset : (restEntry page length).offset.toNat = 0 := rfl
    rw [hoffset, Nat.add_zero]
    cases pages with
    | nil =>
      rw [List.length_nil] at hhi
      rw [min_eq_left (by omega)]
      exact List.append_nil _
    | cons page' pages =>
      simp only [List.length_cons] at hlo hhi ih
      have hfull : pageSize ≤ length.toNat := by
        unfold pageSize at hlo ⊢
        omega
      have hsub := toNat_sub_page hfull
      rw [min_eq_right hfull, ih (p + 1) ?_ ?_, hsub]
      · have hnext : (p + 1) * pageSize = p * pageSize + pageSize := Nat.succ_mul p pageSize
        rw [hnext, List.range'_append_1, Nat.add_sub_cancel' hfull]
      · rw [hsub]
        unfold pageSize at hlo ⊢
        omega
      · rw [hsub]
        unfold pageSize at hhi ⊢
        omega

end Rest

/-! ## The whole list -/

section Populate
variable {uaddr length : U32}

theorem toNat_offsetInPage (uaddr : U32) : (offsetInPage uaddr).toNat = uaddr.toNat % pageSize :=
  toNat_and_low (k := 12) uaddr _ rfl

theorem toNat_firstLen (uaddr : U32) :
    (BitVec.ofNat 32 pageSize - offsetInPage uaddr).toNat = pageSize - uaddr.toNat % pageSize := by
  have hpage : (BitVec.ofNat 32 pageSize).toNat = pageSize := rfl
  have hmod := Nat.mod_lt uaddr.toNat (by decide : 0 < pageSize)
  rw [BitVec.toNat_sub_of_le (by rw [BitVec.le_def, hpage, toNat_offsetInPage]; omega), hpage, toNat_offsetInPage]

theorem sum_lt_of_no_overflow (hov : ¬ uaddr + length < uaddr) : uaddr.toNat + length.toNat < 2^32 := by
  have huaddr := uaddr.isLt
  have hlength := length.isLt
  rw [BitVec.lt_def, BitVec.toNat_add] at hov
  omega

theorem sglPopulate_single (page : ℕ) (hlen : 0 < length.toNat)
    (hin : uaddr.toNat % pageSize + length.toNat ≤ pageSize) :
    Scatters uaddr length [page] (sglPopulate 32 [page] uaddr length) := by
  have hoff := toNat_offsetInPage uaddr
  have hbase : uaddr.toNat / pageSize * pageSize + uaddr.toNat % pageSize = uaddr.toNat := Nat.div_add_mod' _ _
  have heq : sglPopulate 32 [page] uaddr length = [⟨page, length, offsetInPage uaddr⟩] := rfl
  rw [heq]
  refine ⟨rfl, ?_, nofun, ?_, ?_, ?_, ?_⟩
  · intro e he
    rw [← Option.some.inj he]
    exact hoff
  · intro e he
    rw [List.mem_singleton.mp he]
    exact ⟨hlen, le_trans (Nat.le_add_left _ _) hin⟩
  · intro e he
    rw [List.mem_singleton.mp he]
    simp only [hoff]
    exact hin
  · exact Nat.add_zero _
  · simp only [sglCover, hoff, hbase, List.append_nil]

/-- A buffer that crosses page boundaries. -/
theorem sglPopulate_several (page page' : ℕ) (rest : List ℕ)
    (hlo : pageSize * (rest.length + 1) < uaddr.toNat % pageSize + length.toNat)
    (hhi : uaddr.toNat % pageSize + length.toNat ≤ pageSize * (rest.length + 2)) :
    Scatters uaddr length (page :: page' :: rest) (sglPopulate 32 (page :: page' :: rest) uaddr length) := by
  have hoff := toNat_offsetInPage uaddr
  have hfirst := toNat_firstLen uaddr
  have hmod := Nat.mod_lt uaddr.toNat (by decide : 0 < pageSize)
  have hbase : uaddr.toNat / pageSize * pageSize + uaddr.toNat % pageSize = uaddr.toNat := Nat.div_add_mod' _ _
  have hpage := sglPopulate_page 32 (page :: page' :: rest) uaddr length
  have heq : sglPopulate 32 (page :: page' :: rest) uaddr length =
      ⟨page, BitVec.ofNat 32 pageSize - offsetInPage uaddr, offsetInPage uaddr⟩ ::
        sglRest 32 (page' :: rest) (length - (BitVec.ofNat 32 pageSize - offsetInPage uaddr)) := by
    rw [sglPopulate, BitVec.setWidth_eq, BitVec.setWidth_eq]
    exact List.cons_ne_nil page' rest
  have hlong : pageSize - uaddr.toNat % pageSize < length.toNat := by
    unfold pageSize at hlo ⊢
    omega
  have hleft : (length - (BitVec.ofNat 32 pageSize - offsetInPage uaddr)).toNat =
      length.toNat - (pageSize - uaddr.toNat % pageSize) := by
    rw [BitVec.toNat_sub_of_le (by rw [BitVec.le_def, hfirst]; omega), hfirst]
  have hlo' : pageSize * ((page' :: rest).length - 1) <
      (length - (BitVec.ofNat 32 pageSize - offsetInPage uaddr)).toNat := by
    rw [hleft, List.length_cons]
    unfold pageSize at hlo hmod ⊢
    omega
  have hhi' : (length - (BitVec.ofNat 32 pageSize - offsetInPage uaddr)).toNat ≤ pageSize * (page' :: rest).length := by
    rw [hleft, List.length_cons]
    unfold pageSize at hhi hmod ⊢
    omega
  have hentries := sglRest_entries hlo' hhi'
  have hcover := sglRest_cover (uaddr.toNat / pageSize + 1) hlo' hhi'
  rw [heq] at hpage ⊢
  generalize sglRest 32 (page' :: rest) _ = tail at hpage hentries hcover ⊢
  have hwhole : sglCover (uaddr.toNat / pageSize)
      (⟨page, BitVec.ofNat 32 pageSize - offsetInPage uaddr, offsetInPage uaddr⟩ :: tail) =
      List.range' uaddr.toNat length.toNat := by
    have hnext : (uaddr.toNat / pageSize + 1) * pageSize = uaddr.toNat + (pageSize - uaddr.toNat % pageSize) := by
      rw [Nat.succ_mul]
      omega
    rw [sglCover, hcover, hfirst, hoff, hbase, hleft, hnext, List.range'_append_1, Nat.add_sub_cancel' hlong.le]
  refine ⟨hpage, ?_, fun e he => (hentries e he).1, ?_, ?_, ?_, hwhole⟩
  · intro e he
    rw [← Option.some.inj he]
    exact hoff
  · intro e he
    obtain rfl | he := List.mem_cons.mp he
    · simp only [hfirst]
      omega
    · exact (hentries e he).2
  · intro e he
    obtain rfl | he := List.mem_cons.mp he
    · simp only [hfirst, hoff]
      omega
    · rw [(hentries e he).1]
      have := (hentries e he).2.2
      simpa using this
  · rw [← length_sglCover (uaddr.toNat / pageSize), hwhole, List.length_range']

/-- A list over as many pages as the buffer touches. -/
theorem sglPopulate_scatters {pages : List ℕ} (hlen : 0 < length.toNat)
    (hnr : pages.length = (uaddr.toNat % pageSize + length.toNat + (pageSize - 1)) / pageSize) :
    Scatters uaddr length pages (sglPopulate 32 pages uaddr length) := by
  have hmod := Nat.mod_lt uaddr.toNat (by decide : 0 < pageSize)
  cases pages with
  | nil =>
    rw [List.length_nil] at hnr
    unfold pageSize at hnr
    omega
  | cons page rest =>
    cases rest with
    | nil =>
      rw [List.length_singleton] at hnr
      refine sglPopulate_single page hlen ?_
      unfold pageSize at hnr ⊢
      omega
    | cons page' rest =>
      simp only [List.length_cons] at hnr
      refine sglPopulate_several page page' rest ?_ ?_
      · unfold pageSize at hnr ⊢
        omega
      · unfold pageSize at hnr ⊢
        omega

end Populate

/-! ## The page count -/

section Count
variable {uaddr length : U32}

theorem nrPages_exact (h : uaddr.toNat % pageSize + length.toNat + (pageSize - 1) < 2^32) :
    nrPages 32 uaddr length = (uaddr.toNat % pageSize + length.toNat + (pageSize - 1)) / pageSize := by
  unfold nrPages
  rw [toNat_offsetInPage, Nat.mod_eq_of_lt h]

theorem nrPages_wrapped (hov : ¬ uaddr + length < uaddr)
    (h : 2^32 ≤ uaddr.toNat % pageSize + length.toNat + (pageSize - 1)) : nrPages 32 uaddr length = 0 := by
  have hsum := sum_lt_of_no_overflow hov
  unfold nrPages
  rw [toNat_offsetInPage]
  unfold pageSize at h ⊢
  omega

/-- When all pages are delivered, the channel gets the entries over them. -/
theorem sglMapUserPages_complete {w : ℕ} {env : DmaEnv w} {ch ch' : Chan w} {toUser : Bool} {nr : ℕ} {rc : Int}
    (halloc : env.pagesAlloc = true) (hall : (nr : Int) ≤ (fillPages env nr uaddr toUser).1)
    (h : sglMapUserPages env ch nr uaddr length toUser = some (rc, ch')) :
    ch'.sgl = sglPopulate env.longBits (fillPages env nr uaddr toUser).2 uaddr length := by
  have hneg : ¬ (fillPages env nr uaddr toUser).1 < 0 := by omega
  unfold sglMapUserPages at h
  rw [if_pos halloc] at h
  cases toUser with
  | true =>
    have hpart : ¬ (0 ≤ (sglFillUserPages env nr).1 ∧ (sglFillUserPages env nr).1 < nr) := fun hand =>
      absurd hand.2 (not_lt.mpr hall)
    have hnonneg : ¬ (sglFillUserPages env nr).1 < 0 := hneg
    simp only [if_true, hpart, hnonneg, if_false] at h
    split at h
    · cases h
    · obtain ⟨-, rfl⟩ := Prod.mk.inj (Option.some.inj h)
      rfl
  | false =>
    have hnonneg : ¬ (sglFillKernelPages env uaddr nr).1 < 0 := hneg
    simp only [Bool.false_eq_true, if_false, hnonneg] at h
    split at h
    · cases h
    · obtain ⟨-, rfl⟩ := Prod.mk.inj (Option.some.inj h)
      rfl

theorem length_fillPages {w : ℕ} {env : DmaEnv w} {toUser : Bool} {nr : ℕ}
    (hall : (nr : Int) ≤ (fillPages env nr uaddr toUser).1) : (fillPages env nr uaddr toUser).2.length = nr := by
  cases toUser with
  | true => exact fillUserPages_length hall
  | false => exact fillKernelPages_length hall

/-- The scatterlist is right for every buffer but those that start on page 0 and end on the last page. -/
theorem scatterlistRight_iff (hlen : 0 < length.toNat) (hov : ¬ uaddr + length < uaddr) :
    ScatterlistRight uaddr length ↔ pageSize ≤ uaddr.toNat ∨ uaddr.toNat + length.toNat ≤ 2^32 - pageSize := by
  have hsum := sum_lt_of_no_overflow hov
  constructor
  · rintro ⟨hcount, -⟩
    rw [card_touchedPages hlen] at hcount
    by_contra hcond
    rw [nrPages_wrapped hov (by unfold pageSize at hcond ⊢; omega)] at hcount
    unfold pageSize at hcount
    omega
  · intro hcond
    have hcount := nrPages_exact (show uaddr.toNat % pageSize + length.toNat + (pageSize - 1) < 2^32 by
      unfold pageSize at hcond ⊢
      omega)
    refine ⟨by rw [card_touchedPages hlen, hcount], ?_⟩
    intro w env ch ch' toUser rc hlong halloc hall hmap
    rw [sglMapUserPages_complete halloc hall hmap, hlong]
    exact sglPopulate_scatters hlen ((length_fillPages hall).trans hcount)

/-- A buffer over a page boundary. -/
theorem scatterlistRight_two_pages : ScatterlistRight 0x1F80 0x100 :=
  (scatterlistRight_iff (by decide) (by decide)).mpr (by decide)

/-- A buffer from address 0 to the first byte of the last page is counted as no page at all. -/
theorem scatterlist_no_pages :
    ¬ ∀ uaddr length : U32, 0 < length.toNat → ¬ uaddr + length < uaddr → ScatterlistRight uaddr length := by
  intro h
  obtain ⟨hcount, -⟩ := h 0 0xFFFFF001 (by decide) (by decide)
  rw [nrPages_wrapped (by decide) (by decide), card_touchedPages (by decide)] at hcount
  exact absurd hcount (by decide)

end Count

end HtDrivers.Vmebridge
