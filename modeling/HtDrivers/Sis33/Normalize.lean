import Mathlib.Data.List.GetD
import Mathlib.Data.List.Rotate
import Mathlib.Tactic

/-! # The samples that a FETCH returns (`sis33acq.c`)

The library brings the samples of every event into the order of the host, and then into that of their time.
-/
namespace HtDrivers.Sis33
set_option autoImplicit false

abbrev Byte := BitVec 8

inductive Endian
  | little
  | big
  deriving DecidableEq, Repr

/-- `sis33_acq`; the data are the bytes of the memory behind the pointer. -/
structure Acq where
  data : List Byte
  size : ℕ
  nrSamples : ℕ
  prevticks : ℕ
  firstSamp : ℕ
  be : ℕ
  deriving DecidableEq, Repr

/-! ## The swap -/

/-- The word of four bytes, the highest first. -/
def wordOf (b₃ b₂ b₁ b₀ : Byte) : BitVec 32 := b₃ ++ b₂ ++ b₁ ++ b₀

/-- The word that a host loads from four bytes. -/
def loadWord : Endian → Byte → Byte → Byte → Byte → BitVec 32
  | .little, b₀, b₁, b₂, b₃ => wordOf b₃ b₂ b₁ b₀
  | .big, b₀, b₁, b₂, b₃ => wordOf b₀ b₁ b₂ b₃

def wordByte (w : BitVec 32) (i : ℕ) : Byte := w.extractLsb' (8 * i) 8

/-- The bytes that a host stores for a word. -/
def storeWord : Endian → BitVec 32 → List Byte
  | .little, w => [wordByte w 0, wordByte w 1, wordByte w 2, wordByte w 3]
  | .big, w => [wordByte w 3, wordByte w 2, wordByte w 1, wordByte w 0]

/-- `bswap_32` -/
def bswap32 (w : BitVec 32) : BitVec 32 := wordOf (wordByte w 0) (wordByte w 1) (wordByte w 2) (wordByte w 3)

def beToCpu (endian : Endian) (hwval : BitVec 32) : BitVec 32 :=
  if endian = .little then bswap32 hwval else hwval

/-- `acq_swap` of `n` words. -/
def acqSwap (endian : Endian) : ℕ → List Byte → List Byte
  | n + 1, b₀ :: b₁ :: b₂ :: b₃ :: data =>
    storeWord endian (beToCpu endian (loadWord endian b₀ b₁ b₂ b₃)) ++ acqSwap endian n data
  | _, data => data

/-- One entry of the loop of `sis33acq_list_swap`. -/
def swapEntry (endian : Endian) (acq : Acq) : Acq :=
  if acq.be ≠ 0 ∧ endian = .little then { acq with data := acqSwap endian (acq.size / 4) acq.data, be := 0 } else acq

/-- `sis33acq_list_swap` -/
def listSwap (endian : Endian) (acqs : List Acq) (elems : ℕ) : List Acq :=
  (acqs.take elems).map (swapEntry endian) ++ acqs.drop elems

/-! ## The rotation -/

/-- `sis33acq_reorder`, where the allocation succeeds. -/
def reorder (acq : Acq) : Acq :=
  let len1 := acq.size - acq.firstSamp * 2
  let buf := (acq.data.drop (acq.firstSamp * 2)).take len1 ++ acq.data.take (acq.size - len1)
  { acq with data := buf ++ acq.data.drop acq.size, firstSamp := 0 }

/-- `sis33acq_list_reorder`; `malloc` tells whether the next allocations succeed. -/
def listReorder : List Bool → List Acq → ℕ → ℤ × List Acq
  | malloc, acq :: acqs, elems + 1 =>
    if acq.firstSamp = 0 then
      let r := listReorder malloc acqs elems
      (r.1, acq :: r.2)
    else if malloc.headD true then
      let r := listReorder malloc.tail acqs elems
      (r.1, reorder acq :: r.2)
    else (-1, acq :: acqs)
  | _, acqs, _ => (0, acqs)

/-- `sis33acq_list_normalize` -/
def listNormalize (endian : Endian) (malloc : List Bool) (acqs : List Acq) (elems : ℕ) : ℤ × List Acq :=
  listReorder malloc (listSwap endian acqs elems) elems

/-! ## Samples -/

def byteAt (data : List Byte) (i : ℕ) : Byte := data.getD i 0

/-- A sample as a little-endian host reads it. -/
def sample (data : List Byte) (i : ℕ) : BitVec 16 := byteAt data (2 * i + 1) ++ byteAt data (2 * i)

/-- Word `i` of data in big endian. -/
def beWord (data : List Byte) (i : ℕ) : BitVec 32 :=
  wordOf (byteAt data (4 * i)) (byteAt data (4 * i + 1)) (byteAt data (4 * i + 2)) (byteAt data (4 * i + 3))

/-- The samples of a transfer: the halves of the words, the low one first, where they are in big endian. -/
def decoded (acq : Acq) (i : ℕ) : BitVec 16 :=
  if acq.be ≠ 0 then (beWord acq.data (i / 2)).extractLsb' (16 * (i % 2)) 16 else sample acq.data i

/-- What the library is handed for an event. -/
structure Acq.Filled (acq : Acq) : Prop where
  words : acq.size % 4 = 0
  first : acq.firstSamp ≤ acq.size / 2
  room : acq.size ≤ acq.data.length

/-- The samples are in the order of their time, and all else is as it was. -/
structure Normalized (acq acq' : Acq) : Prop where
  samples : ∀ i < acq.size / 2, sample acq'.data i = decoded acq ((acq.firstSamp + i) % (acq.size / 2))
  beyond : acq'.data.drop acq.size = acq.data.drop acq.size
  length : acq'.data.length = acq.data.length
  firstSamp : acq'.firstSamp = 0
  be : acq'.be = 0
  others : acq'.size = acq.size ∧ acq'.nrSamples = acq.nrSamples ∧ acq'.prevticks = acq.prevticks

section Swap
variable {n i : ℕ} {b₀ b₁ b₂ b₃ : Byte} {data : List Byte}

theorem toNat_append {v w : ℕ} (x : BitVec v) (y : BitVec w) : (x ++ y).toNat = 2 ^ w * x.toNat + y.toNat := by
  rw [BitVec.toNat_append, Nat.shiftLeft_eq, Nat.mul_comm, Nat.two_pow_add_eq_or_of_lt y.isLt]

theorem toNat_wordOf (b₃ b₂ b₁ b₀ : Byte) : (wordOf b₃ b₂ b₁ b₀).toNat =
    2 ^ 24 * b₃.toNat + 2 ^ 16 * b₂.toNat + 2 ^ 8 * b₁.toNat + b₀.toNat := by
  rw [wordOf, toNat_append, toNat_append, toNat_append]
  omega

theorem toNat_extract {w : ℕ} (x : BitVec w) (start len : ℕ) :
    (x.extractLsb' start len).toNat = x.toNat / 2 ^ start % 2 ^ len := by
  rw [BitVec.extractLsb'_toNat, Nat.shiftRight_eq_div_pow]

theorem wordByte_wordOf (b₃ b₂ b₁ b₀ : Byte) : wordByte (wordOf b₃ b₂ b₁ b₀) 0 = b₀ ∧
    wordByte (wordOf b₃ b₂ b₁ b₀) 1 = b₁ ∧ wordByte (wordOf b₃ b₂ b₁ b₀) 2 = b₂ ∧
    wordByte (wordOf b₃ b₂ b₁ b₀) 3 = b₃ := by
  have h₀ := b₀.isLt
  have h₁ := b₁.isLt
  have h₂ := b₂.isLt
  have h₃ := b₃.isLt
  refine ⟨?_, ?_, ?_, ?_⟩
  all_goals
    apply BitVec.eq_of_toNat_eq
    rw [wordByte, toNat_extract, toNat_wordOf]
    omega

theorem halves_wordOf (b₃ b₂ b₁ b₀ : Byte) : (wordOf b₃ b₂ b₁ b₀).extractLsb' (16 * 0) 16 = b₁ ++ b₀ ∧
    (wordOf b₃ b₂ b₁ b₀).extractLsb' (16 * 1) 16 = b₃ ++ b₂ := by
  have h₀ := b₀.isLt
  have h₁ := b₁.isLt
  have h₂ := b₂.isLt
  have h₃ := b₃.isLt
  refine ⟨?_, ?_⟩
  all_goals
    apply BitVec.eq_of_toNat_eq
    rw [toNat_extract, toNat_wordOf, toNat_append]
    omega

theorem acqSwap_cons (n : ℕ) (b₀ b₁ b₂ b₃ : Byte) (data : List Byte) :
    acqSwap .little (n + 1) (b₀ :: b₁ :: b₂ :: b₃ :: data) = b₃ :: b₂ :: b₁ :: b₀ :: acqSwap .little n data := by
  obtain ⟨hload₀, hload₁, hload₂, hload₃⟩ := wordByte_wordOf b₃ b₂ b₁ b₀
  have hswap : beToCpu .little (loadWord .little b₀ b₁ b₂ b₃) = wordOf b₀ b₁ b₂ b₃ := by
    rw [beToCpu, if_pos rfl, loadWord, bswap32, hload₀, hload₁, hload₂, hload₃]
  obtain ⟨hstore₀, hstore₁, hstore₂, hstore₃⟩ := wordByte_wordOf b₀ b₁ b₂ b₃
  rw [acqSwap, hswap, storeWord, hstore₀, hstore₁, hstore₂, hstore₃]
  rfl

theorem exists_word (h : 4 * (n + 1) ≤ data.length) : ∃ b₀ b₁ b₂ b₃ rest, data = b₀ :: b₁ :: b₂ :: b₃ :: rest ∧
    4 * n ≤ rest.length := by
  obtain _ | ⟨b₀, _ | ⟨b₁, _ | ⟨b₂, _ | ⟨b₃, rest⟩⟩⟩⟩ := data
  case cons.cons.cons.cons =>
    simp only [List.length_cons] at h
    exact ⟨b₀, b₁, b₂, b₃, rest, rfl, by omega⟩
  all_goals
    simp only [List.length_cons, List.length_nil] at h
    omega

theorem length_acqSwap (h : 4 * n ≤ data.length) : (acqSwap .little n data).length = data.length := by
  induction n generalizing data with
  | zero => rfl
  | succ n ih =>
    obtain ⟨b₀, b₁, b₂, b₃, rest, rfl, hrest⟩ := exists_word h
    simp only [acqSwap_cons, List.length_cons, ih hrest]

theorem drop_acqSwap (h : 4 * n ≤ data.length) : (acqSwap .little n data).drop (4 * n) = data.drop (4 * n) := by
  induction n generalizing data with
  | zero => rfl
  | succ n ih =>
    obtain ⟨b₀, b₁, b₂, b₃, rest, rfl, hrest⟩ := exists_word h
    rw [acqSwap_cons, Nat.mul_succ]
    exact ih hrest

theorem sample_acqSwap (h : 4 * n ≤ data.length) (hi : i < 2 * n) :
    sample (acqSwap .little n data) i = (beWord data (i / 2)).extractLsb' (16 * (i % 2)) 16 := by
  induction n generalizing data i with
  | zero => omega
  | succ n ih =>
    obtain ⟨b₀, b₁, b₂, b₃, rest, rfl, hrest⟩ := exists_word h
    obtain ⟨hlow, hhigh⟩ := halves_wordOf b₀ b₁ b₂ b₃
    rw [acqSwap_cons]
    obtain _ | _ | i := i
    · exact hlow.symm
    · exact hhigh.symm
    · have hhalf : (i + 2) / 2 = i / 2 + 1 := by omega
      have hparity : (i + 2) % 2 = i % 2 := by omega
      rw [hhalf, hparity]
      exact ih hrest (by omega)

end Swap

/-! ## One entry -/

section Entry
variable {acq : Acq} {i k : ℕ}

theorem reorder_data (hfirst : acq.firstSamp * 2 ≤ acq.size) (hroom : acq.size ≤ acq.data.length) :
    (reorder acq).data = (acq.data.take acq.size).rotate (acq.firstSamp * 2) ++ acq.data.drop acq.size := by
  have hlength : (acq.data.take acq.size).length = acq.size := List.length_take_of_le hroom
  have hrest : acq.size - (acq.size - acq.firstSamp * 2) = acq.firstSamp * 2 := by omega
  simp only [reorder]
  rw [List.rotate_eq_drop_append_take (by omega), List.drop_take, List.take_take, hrest, min_eq_left hfirst]

theorem length_reorder (hfirst : acq.firstSamp * 2 ≤ acq.size) (hroom : acq.size ≤ acq.data.length) :
    (reorder acq).data.length = acq.data.length := by
  rw [reorder_data hfirst hroom, List.length_append, List.length_rotate, List.length_take_of_le hroom,
    List.length_drop]
  omega

theorem drop_reorder (hfirst : acq.firstSamp * 2 ≤ acq.size) (hroom : acq.size ≤ acq.data.length) :
    (reorder acq).data.drop acq.size = acq.data.drop acq.size := by
  rw [reorder_data hfirst hroom]
  apply List.drop_left'
  rw [List.length_rotate, List.length_take_of_le hroom]

theorem byteAt_reorder (hfirst : acq.firstSamp * 2 ≤ acq.size) (hroom : acq.size ≤ acq.data.length)
    (hk : k < acq.size) : byteAt (reorder acq).data k = byteAt acq.data ((k + acq.firstSamp * 2) % acq.size) := by
  have hlength : (acq.data.take acq.size).length = acq.size := List.length_take_of_le hroom
  have hplace : (k + acq.firstSamp * 2) % acq.size < acq.size := Nat.mod_lt _ (by omega)
  have hrotate : k < ((acq.data.take acq.size).rotate (acq.firstSamp * 2)).length := by
    rw [List.length_rotate, hlength]
    exact hk
  rw [byteAt, reorder_data hfirst hroom, List.getD_append _ _ _ _ hrotate, List.getD_eq_getElem _ _ hrotate,
    List.getElem_rotate, List.getElem_take, byteAt, List.getD_eq_getElem _ _ (hplace.trans_le hroom)]
  simp only [hlength]

theorem mod_two_mul_add (a b : ℕ) : (2 * a + 1) % (2 * b) = 2 * (a % b) + 1 := by
  by_cases hb : b = 0
  · rw [hb, Nat.mul_zero, Nat.mod_zero, Nat.mod_zero]
  · have hlt : a % b < b := Nat.mod_lt a (Nat.pos_of_ne_zero hb)
    have hsplit : 2 * a + 1 = 2 * (a % b) + 1 + 2 * b * (a / b) := by
      rw [Nat.mul_assoc, Nat.add_right_comm, ← Nat.mul_add, Nat.mod_add_div]
    rw [hsplit, Nat.add_mul_mod_self_left, Nat.mod_eq_of_lt (by omega)]

/-- Sample `i` comes from `firstSamp` samples behind it, around the end. -/
theorem sample_reorder (hwords : acq.size % 4 = 0) (hfirst : acq.firstSamp ≤ acq.size / 2)
    (hroom : acq.size ≤ acq.data.length) (hi : i < acq.size / 2) :
    sample (reorder acq).data i = sample acq.data ((acq.firstSamp + i) % (acq.size / 2)) := by
  have heven : acq.size = 2 * (acq.size / 2) := by omega
  have hlow : (2 * i + acq.firstSamp * 2) % acq.size = 2 * ((acq.firstSamp + i) % (acq.size / 2)) := by
    rw [← Nat.mul_mod_mul_left, ← heven]
    congr 1
    omega
  have hhigh : (2 * i + 1 + acq.firstSamp * 2) % acq.size = 2 * ((acq.firstSamp + i) % (acq.size / 2)) + 1 := by
    rw [← mod_two_mul_add, ← heven]
    congr 1
    omega
  rw [sample, byteAt_reorder (by omega) hroom (by omega), byteAt_reorder (by omega) hroom (by omega), hlow,
    hhigh, sample]

/-- The loops of the swap and of the rotation at one entry. -/
def normalizeEntry (endian : Endian) (acq : Acq) : Acq :=
  let acq := swapEntry endian acq
  if acq.firstSamp = 0 then acq else reorder acq

theorem swapEntry_fields (acq : Acq) : (swapEntry .little acq).size = acq.size ∧
    (swapEntry .little acq).firstSamp = acq.firstSamp ∧ (swapEntry .little acq).nrSamples = acq.nrSamples ∧
    (swapEntry .little acq).prevticks = acq.prevticks ∧ (swapEntry .little acq).be = 0 := by
  unfold swapEntry
  split
  · exact ⟨rfl, rfl, rfl, rfl, rfl⟩
  · rename_i hbe
    exact ⟨rfl, rfl, rfl, rfl, by simpa using hbe⟩

theorem swapEntry_data (h : acq.Filled) : (∀ i < acq.size / 2, sample (swapEntry .little acq).data i = decoded acq i) ∧
    (swapEntry .little acq).data.length = acq.data.length ∧
    (swapEntry .little acq).data.drop acq.size = acq.data.drop acq.size := by
  have hwords : 4 * (acq.size / 4) = acq.size := Nat.mul_div_cancel' (Nat.dvd_of_mod_eq_zero h.words)
  have hroom : 4 * (acq.size / 4) ≤ acq.data.length := hwords.trans_le h.room
  unfold swapEntry decoded
  by_cases hbe : acq.be = 0
  · rw [if_neg (by simp [hbe])]
    refine ⟨?_, rfl, rfl⟩
    intro i _
    rw [if_neg (by simp [hbe])]
  · rw [if_pos ⟨hbe, rfl⟩]
    refine ⟨?_, length_acqSwap hroom, ?_⟩
    · intro i hi
      rw [if_pos hbe]
      exact sample_acqSwap hroom (by omega)
    · have hdrop := drop_acqSwap hroom
      rwa [hwords] at hdrop

theorem normalizeEntry_normalized (h : acq.Filled) : Normalized acq (normalizeEntry .little acq) := by
  obtain ⟨hsize, hfirst, hsamples, hticks, hbe⟩ := swapEntry_fields acq
  obtain ⟨hdecoded, hlength, hbeyond⟩ := swapEntry_data h
  have hwords := h.words
  have hstart := h.first
  have hroom := h.room
  unfold normalizeEntry
  simp only
  split
  · rename_i hzero
    refine ⟨?_, hbeyond, hlength, hzero, hbe, hsize, hsamples, hticks⟩
    intro i hi
    rw [← hfirst, hzero, Nat.zero_add, Nat.mod_eq_of_lt hi]
    exact hdecoded i hi
  · have hle : (swapEntry .little acq).firstSamp * 2 ≤ (swapEntry .little acq).size := by omega
    have hfits : (swapEntry .little acq).size ≤ (swapEntry .little acq).data.length := by omega
    refine ⟨?_, ?_, (length_reorder hle hfits).trans hlength, rfl, hbe, hsize, hsamples, hticks⟩
    · intro i hi
      rw [sample_reorder (by omega) (by omega) hfits (by omega), hfirst, hsize]
      exact hdecoded _ (Nat.mod_lt _ (by omega))
    · have hdrop := drop_reorder hle hfits
      rw [hsize] at hdrop
      exact hdrop.trans hbeyond

end Entry

/-! ## The list -/

section List
variable {acqs acqs' : List Acq} {malloc : List Bool} {elems j : ℕ}

/-- The rotations of the first entries, where no allocation fails. -/
theorem listReorder_eq (hmalloc : ∀ b ∈ malloc, b = true) (acqs : List Acq) (elems : ℕ) :
    listReorder malloc acqs elems =
      (0, (acqs.take elems).map (fun acq => if acq.firstSamp = 0 then acq else reorder acq) ++ acqs.drop elems) := by
  induction acqs generalizing malloc elems with
  | nil => cases elems <;> rfl
  | cons acq acqs ih =>
    cases elems with
    | zero => rfl
    | succ elems =>
      have hhead : malloc.headD true = true := by
        cases malloc with
        | nil => rfl
        | cons b malloc => exact hmalloc b (by simp)
      have htail : ∀ b ∈ malloc.tail, b = true := fun b hb => hmalloc b (List.mem_of_mem_tail hb)
      rw [listReorder, if_pos hhead]
      split
      · rename_i hzero
        simp [ih hmalloc, hzero]
      · rename_i hfirst
        simp [ih htail, hfirst]

theorem listNormalize_eq (endian : Endian) (hmalloc : ∀ b ∈ malloc, b = true) (helems : elems ≤ acqs.length) :
    listNormalize endian malloc acqs elems =
      (0, (acqs.take elems).map (normalizeEntry endian) ++ acqs.drop elems) := by
  have hlength : ((acqs.take elems).map (swapEntry endian)).length = elems := by
    rw [List.length_map, List.length_take_of_le helems]
  rw [listNormalize, listReorder_eq hmalloc, listSwap, List.take_left' hlength, List.drop_left' hlength, List.map_map]
  rfl

/-- Entries that are in order stay as they are, and nothing is allocated for them. -/
theorem listNormalize_self (hbe : ∀ acq ∈ acqs.take elems, acq.be = 0)
    (hfirst : ∀ acq ∈ acqs.take elems, acq.firstSamp = 0) (malloc : List Bool) :
    listNormalize .little malloc acqs elems = (0, acqs) := by
  have hswap : (acqs.take elems).map (swapEntry .little) = acqs.take elems := by
    refine (List.map_congr_left ?_).trans (List.map_id _)
    intro acq hacq
    exact if_neg (by simp [hbe acq hacq])
  rw [listNormalize, listSwap, hswap, List.take_append_drop]
  clear hswap hbe
  induction acqs generalizing elems with
  | nil => cases elems <;> rfl
  | cons acq acqs ih =>
    cases elems with
    | zero => rfl
    | succ elems =>
      have hzero : acq.firstSamp = 0 := hfirst acq (by simp)
      have hrest : listReorder malloc acqs elems = (0, acqs) := ih fun acq hacq => hfirst acq (by simp [hacq])
      rw [listReorder, if_pos hzero]
      simp only [hrest]

/-- The samples of the first entries are brought into order, once and for all. -/
theorem list_normalized (malloc : List Bool) (acqs : List Acq) (elems : ℕ) (helems : elems ≤ acqs.length)
    (hmalloc : ∀ b ∈ malloc, b = true) (hfilled : ∀ acq ∈ acqs.take elems, acq.Filled) :
    ∃ acqs', listNormalize .little malloc acqs elems = (0, acqs') ∧
      List.Forall₂ Normalized (acqs.take elems) (acqs'.take elems) ∧ acqs'.drop elems = acqs.drop elems ∧
      ∀ malloc', listNormalize .little malloc' acqs' elems = (0, acqs') := by
  have hlength : ((acqs.take elems).map (normalizeEntry .little)).length = elems := by
    rw [List.length_map, List.length_take_of_le helems]
  have hentries : List.Forall₂ Normalized (acqs.take elems) ((acqs.take elems).map (normalizeEntry .little)) := by
    rw [List.forall₂_map_right_iff, List.forall₂_same]
    exact fun acq hacq => normalizeEntry_normalized (hfilled acq hacq)
  refine ⟨_, listNormalize_eq .little hmalloc helems, ?_, List.drop_left' hlength, ?_⟩
  · rwa [List.take_left' hlength]
  · apply listNormalize_self
    · intro acq' hacq'
      rw [List.take_left' hlength] at hacq'
      obtain ⟨acq, hacq, rfl⟩ := List.mem_map.mp hacq'
      exact (normalizeEntry_normalized (hfilled acq hacq)).be
    · intro acq' hacq'
      rw [List.take_left' hlength] at hacq'
      obtain ⟨acq, hacq, rfl⟩ := List.mem_map.mp hacq'
      exact (normalizeEntry_normalized (hfilled acq hacq)).firstSamp

/-- Three events of four samples, in big endian from the last one on, in little endian from the second one on, and in
big endian in order. -/
def threeEvents : List Acq :=
  [⟨[0, 1, 0, 0, 0, 3, 0, 2], 8, 4, 0, 3, 1⟩, ⟨[3, 0, 1, 0, 2, 0, 2, 0], 8, 4, 0, 1, 0⟩,
    ⟨[0, 4, 0, 5, 0, 6, 0, 7], 8, 4, 0, 0, 1⟩]

/-- The first two are put in order. -/
theorem threeEvents_normalized : ∃ acqs', listNormalize .little [true, true] threeEvents 2 = (0, acqs') ∧
    List.Forall₂ Normalized (threeEvents.take 2) (acqs'.take 2) ∧ acqs'.drop 2 = threeEvents.drop 2 ∧
    ∀ malloc', listNormalize .little malloc' acqs' 2 = (0, acqs') := by
  refine list_normalized [true, true] threeEvents 2 (by decide) (by decide) ?_
  intro acq hacq
  obtain rfl | rfl : acq = threeEvents[0] ∨ acq = threeEvents[1] := by simpa [threeEvents] using hacq
  · exact ⟨rfl, by decide, by decide⟩
  · exact ⟨rfl, by decide, by decide⟩

end List

end HtDrivers.Sis33
