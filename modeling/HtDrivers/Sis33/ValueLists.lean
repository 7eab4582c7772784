import HtDrivers.Lib.Numerals
import Mathlib.Data.List.DropRight
import Mathlib.Data.List.GetD
import Mathlib.Data.List.Sort
import Mathlib.Data.Nat.Dist

/-! # Lists of values in the attributes of a card (`sis33_sysfs.c`, `sis33dev.c`)

The driver prints the event lengths and the clock frequencies of a card, and the library counts them, reads them,
sorts them and rounds to one of them.
-/
namespace HtDrivers.Sis33
open HtDrivers.Lib.Numerals
set_option autoImplicit false

/-! ## The text -/

/-- `PAGE_SIZE`, and the size of the buffers of the library. -/
def attrSize : ℕ := 4096

/-- `snprintf` into `size` bytes: what it puts before the terminator, and the length that it returns. -/
def snprintf (size : ℕ) (s : List Char) : List Char × ℕ := (s.take (size - 1), s.length)

/-- The text behind what is in the buffer, and the count. -/
def printBehind (buf : List Char × ℕ) (s : List Char) : List Char × ℕ :=
  let r := snprintf (attrSize - buf.2) s
  (buf.1 ++ r.1, buf.2 + r.2)

/-- `"%u "` -/
def printItem (value : BitVec 32) : List Char := Nat.toDigits 10 value.toNat ++ [' ']

/-- `sis33_show_available_clkfreqs` and `sis33_show_available_ev_lengths`: the buffer, and the count. -/
def showAvailable (values : List (BitVec 32)) : List Char × ℕ :=
  printBehind (values.foldl (fun buf value => printBehind buf (printItem value)) ([], 0)) ['\n']

/-- What is read from the attribute. -/
def attrFile (values : List (BitVec 32)) : Option (List Char) :=
  some ((showAvailable values).1.take (showAvailable values).2)

/-! ## The library -/

def removeTrailingChars (path : List Char) (c : Char) : List Char := path.rdropWhile (· = c)

/-- `sis33dev_get_attr` into a buffer of `len` characters; `file` is the attribute, if it is there and can be read. -/
def sis33devGetAttr (file : Option (List Char)) (len : ℕ) : Option (List Char) :=
  match file with
  | none => none
  | some text =>
    let value := text.take len
    if value.length = len then none else some (removeTrailingChars value '\n')

/-- `sis33dev_get_nr_items`: every item has one trailing blank. -/
def sis33devGetNrItems (file : Option (List Char)) : ℤ :=
  match sis33devGetAttr file attrSize with
  | none => -1
  | some value => (value.count ' ' : ℕ)

/-- What follows the first `c`. -/
def behindChar (c : Char) (s : List Char) : Option (List Char) :=
  match s.dropWhile (· ≠ c) with
  | [] => none
  | _ :: rest => some rest

/-- The loop of `sis33dev_get_items_uint`, for a word of `w` bits. -/
def itemsLoop (w : ℕ) : ℕ → List Char → List (BitVec 32)
  | 0, _ => []
  | n + 1, init =>
    match behindChar ' ' init with
    | none => []
    | some rest => (strtoul w init).1.setWidth 32 :: itemsLoop w n rest

/-- `cmp_uints_desc`, as an `int`. -/
def cmpUintsDesc (a b : BitVec 32) : ℤ := (b - a).toInt

/-- `qsort` -/
def qsortUintsDesc (array : List (BitVec 32)) : List (BitVec 32) :=
  array.insertionSort fun a b => cmpUintsDesc a b ≤ 0

/-- `sis33dev_get_items_uint`: what it returns and leaves in the array. -/
def sis33devGetItemsUint (w : ℕ) (file : Option (List Char)) (array : List (BitVec 32)) (n : ℕ) :
    ℤ × List (BitVec 32) :=
  match sis33devGetAttr file attrSize with
  | none => (-1, array)
  | some value =>
    let items := itemsLoop w n value
    (if items.length < n then -1 else 0, qsortUintsDesc items ++ array.drop items.length)

inductive Round
  | nearest
  | down
  | up
  deriving DecidableEq, Repr

/-- `__round_ok` -/
def roundOk (candidate value : BitVec 32) : Round → Bool
  | .up => value ≤ candidate
  | .down => candidate ≤ value
  | .nearest => true

/-- The loop of `__approx` from entry `i` on. -/
def approxLoop (value : BitVec 32) (round : Round) : List (BitVec 32) → ℕ → ℕ → BitVec 32 → ℕ
  | [], _, result, _ => result
  | candidate :: rest, i, result, mindiff =>
    let diff := (candidate - value).abs
    if diff < mindiff ∧ roundOk candidate value round = true then
      if diff = 0 then i else approxLoop value round rest (i + 1) i diff
    else approxLoop value round rest (i + 1) result mindiff

/-- `__approx` -/
def approx (array : List (BitVec 32)) (n : ℕ) (value : BitVec 32) (round : Round) : BitVec 32 :=
  array.getD (approxLoop value round (array.take n) 0 0 (BitVec.allOnes 32)) 0

/-- `sis33dev_round_uint`, of an array in descending order. -/
def sis33devRoundUint (array : List (BitVec 32)) (n : ℕ) (value : BitVec 32) (round : Round) : BitVec 32 :=
  if array.getD 0 0 ≤ value then array.getD 0 0
  else if value ≤ array.getD (n - 1) 0 then array.getD (n - 1) 0
  else approx array n value round

/-! ## Printing and reading -/

section Text
variable {values : List (BitVec 32)} {buf : List Char × ℕ} {text s : List Char} {value : BitVec 32}

theorem printBehind_eq (h : text.length + s.length < attrSize) :
    printBehind (text, text.length) s = (text ++ s, (text ++ s).length) := by
  simp only [printBehind, snprintf, List.length_append]
  rw [List.take_of_length_le (by omega)]

theorem le_printItems (values : List (BitVec 32)) (buf : List Char × ℕ) :
    buf.2 ≤ (values.foldl (fun buf value => printBehind buf (printItem value)) buf).2 := by
  induction values generalizing buf with
  | nil => exact le_rfl
  | cons value values ih => exact (Nat.le_add_right _ _).trans (ih (printBehind buf (printItem value)))

theorem printItems_eq (text : List Char)
    (h : (values.foldl (fun buf value => printBehind buf (printItem value)) (text, text.length)).2 < attrSize) :
    values.foldl (fun buf value => printBehind buf (printItem value)) (text, text.length) =
      (text ++ values.flatMap printItem, (text ++ values.flatMap printItem).length) := by
  induction values generalizing text with
  | nil => rw [List.flatMap_nil, List.append_nil, List.foldl_nil]
  | cons value values ih =>
    rw [List.foldl_cons] at h ⊢
    have hfits : text.length + (printItem value).length < attrSize :=
      (le_printItems values (printBehind (text, text.length) (printItem value))).trans_lt h
    rw [printBehind_eq hfits] at h ⊢
    rw [ih _ h, List.flatMap_cons, List.append_assoc]

theorem showAvailable_eq (h : (showAvailable values).2 < attrSize) :
    showAvailable values = (values.flatMap printItem ++ ['\n'], (values.flatMap printItem ++ ['\n']).length) := by
  have hcount : (values.foldl (fun buf value => printBehind buf (printItem value)) ([], 0)).2 + 1 < attrSize := h
  have hitems := printItems_eq [] (Nat.lt_of_succ_lt hcount)
  rw [List.length_nil, List.nil_append] at hitems
  rw [hitems] at hcount
  rw [showAvailable, hitems, printBehind_eq hcount]

theorem getLast_items (hne : values.flatMap printItem ≠ []) : (values.flatMap printItem).getLast hne = ' ' := by
  induction values with
  | nil => exact absurd rfl hne
  | cons value values ih =>
    by_cases hrest : values.flatMap printItem = []
    · simp only [List.flatMap_cons, hrest, List.append_nil, printItem, List.getLast_append_singleton]
    · simp only [List.flatMap_cons, List.getLast_append_of_ne_nil _ hrest, ih]

theorem getAttr_eq (h : (showAvailable values).2 < attrSize) :
    sis33devGetAttr (attrFile values) attrSize = some (values.flatMap printItem) := by
  have htext := showAvailable_eq h
  have hlength : (values.flatMap printItem ++ ['\n']).length < attrSize := by
    rw [htext] at h
    exact h
  simp only [sis33devGetAttr, attrFile, htext, List.take_length]
  rw [List.take_of_length_le hlength.le, if_neg hlength.ne, removeTrailingChars,
    List.rdropWhile_concat_pos _ _ _ (by rfl), List.rdropWhile_eq_self_iff.mpr]
  intro hne
  rw [getLast_items hne]
  decide

theorem digit_ne_blank {n : ℕ} {c : Char} (h : c ∈ Nat.toDigits 10 n) : c ≠ ' ' := by
  have hall : ∀ d : Fin 10, Nat.digitChar d.val ≠ ' ' := by decide
  obtain ⟨d, hd, rfl⟩ := exists_digit (by decide) h
  exact hall ⟨d, hd⟩

theorem count_items (values : List (BitVec 32)) : (values.flatMap printItem).count ' ' = values.length := by
  induction values with
  | nil => rfl
  | cons value values ih =>
    have hdigits : (Nat.toDigits 10 value.toNat).count ' ' = 0 :=
      List.count_eq_zero.mpr fun hmem => digit_ne_blank hmem rfl
    rw [List.flatMap_cons, List.count_append, ih, printItem, List.count_append, hdigits, List.length_cons]
    exact Nat.add_comm _ _

theorem behindChar_item (value : BitVec 32) (s : List Char) : behindChar ' ' (printItem value ++ s) = some s := by
  have hdrop : (printItem value ++ s).dropWhile (· ≠ ' ') = ' ' :: s := by
    rw [printItem, List.append_assoc, List.dropWhile_append_of_pos]
    · rfl
    · intro c hc
      exact decide_eq_true (digit_ne_blank hc)
  rw [behindChar, hdrop]

theorem strtoul_item {w : ℕ} (hw : 32 ≤ w) (value : BitVec 32) (s : List Char) :
    (strtoul w (printItem value ++ s)).1.setWidth 32 = value := by
  have hblank : EndsDecimal (' ' :: s) := by
    intro c hc
    cases hc
    decide
  have hlt : value.toNat < 2^w := value.isLt.trans_le (Nat.pow_le_pow_right (by decide) hw)
  rw [printItem, List.append_assoc, List.singleton_append, strtoul_toDigits hlt hblank]
  apply BitVec.eq_of_toNat_eq
  rw [BitVec.toNat_setWidth, BitVec.toNat_ofNat, Nat.mod_eq_of_lt hlt, Nat.mod_eq_of_lt value.isLt]

theorem itemsLoop_items {w : ℕ} (hw : 32 ≤ w) (values : List (BitVec 32)) :
    itemsLoop w values.length (values.flatMap printItem) = values := by
  induction values with
  | nil => rfl
  | cons value values ih =>
    rw [List.length_cons, List.flatMap_cons, itemsLoop, behindChar_item]
    simp only
    rw [strtoul_item hw, ih]

end Text

/-! ## Sorting -/

theorem cmpUintsDesc_nonpos {a b : BitVec 32} (ha : a.toNat < 2 ^ 31) (hb : b.toNat < 2 ^ 31) :
    cmpUintsDesc a b ≤ 0 ↔ b ≤ a := by
  rw [cmpUintsDesc, BitVec.toInt_eq_toNat_cond, BitVec.toNat_sub, BitVec.le_def]
  split
  · omega
  · omega

theorem qsortUintsDesc_eq {array : List (BitVec 32)} (h : ∀ a ∈ array, a.toNat < 2 ^ 31) :
    qsortUintsDesc array = array.insertionSort (· ≥ ·) := by
  have hmap := List.map_insertionSort (fun a b => cmpUintsDesc a b ≤ 0) (· ≥ ·) id array ?_
  · rwa [List.map_id, List.map_id] at hmap
  · intro a ha b hb
    exact cmpUintsDesc_nonpos (h a ha) (h b hb)

theorem qsortUintsDesc_perm (array : List (BitVec 32)) : (qsortUintsDesc array).Perm array :=
  List.perm_insertionSort _ _

theorem qsortUintsDesc_pairwise {array : List (BitVec 32)} (h : ∀ a ∈ array, a.toNat < 2 ^ 31) :
    (qsortUintsDesc array).Pairwise (· ≥ ·) := by
  rw [qsortUintsDesc_eq h]
  exact List.pairwise_insertionSort _ _

/-! ## Rounding -/

section Rounding
variable {array values seen rest : List (BitVec 32)} {value candidate mindiff r : BitVec 32} {round : Round}
    {result : ℕ}

theorem abs_sub_toNat (hcandidate : candidate.toNat < 2 ^ 31) (hvalue : value.toNat < 2 ^ 31) :
    (candidate - value).abs.toNat = Nat.dist candidate.toNat value.toNat := by
  rw [BitVec.toNat_abs, BitVec.msb_eq_decide, BitVec.toNat_sub, Nat.dist]
  by_cases hle : value.toNat ≤ candidate.toNat
  · have hsub : (2 ^ 32 - value.toNat + candidate.toNat) % 2 ^ 32 = candidate.toNat - value.toNat := by omega
    rw [hsub, if_neg (by rw [decide_eq_true_eq]; omega)]
    omega
  · have hsub : (2 ^ 32 - value.toNat + candidate.toNat) % 2 ^ 32 = 2 ^ 32 - value.toNat + candidate.toNat := by omega
    rw [hsub, if_pos (by rw [decide_eq_true_eq]; omega)]
    omega

/-- An entry at minimal distance of those that may be taken. -/
structure Closest (value : BitVec 32) (round : Round) (seen : List (BitVec 32)) (r : BitVec 32) : Prop where
  mem : r ∈ seen
  ok : roundOk r value round = true
  least : ∀ x ∈ seen, roundOk x value round = true → Nat.dist r.toNat value.toNat ≤ Nat.dist x.toNat value.toNat

/-- What the loop has kept of the entries that it has seen. -/
inductive Kept (value : BitVec 32) (round : Round) (seen : List (BitVec 32)) : ℕ → BitVec 32 → Prop
  | start (hnone : ∀ x ∈ seen, roundOk x value round = false) : Kept value round seen 0 (BitVec.allOnes 32)
  | entry {result : ℕ} {r : BitVec 32} (hr : seen[result]? = some r) (hclosest : Closest value round seen r) :
      Kept value round seen result (r - value).abs

/-- A strictly closer entry is taken in place of the one that was kept. -/
theorem Kept.take (hvalue : value.toNat < 2 ^ 31) (hseen : ∀ a ∈ seen, a.toNat < 2 ^ 31)
    (hcandidate : candidate.toNat < 2 ^ 31) (h : Kept value round seen result mindiff)
    (hlt : (candidate - value).abs < mindiff) (hok : roundOk candidate value round = true) :
    Kept value round (seen ++ [candidate]) seen.length (candidate - value).abs := by
  refine .entry List.getElem?_concat_length ⟨by simp, hok, ?_⟩
  intro x hx hxok
  rw [List.mem_append, List.mem_singleton] at hx
  obtain hx | rfl := hx
  · cases h with
    | start hnone =>
      rw [hnone x hx] at hxok
      cases hxok
    | entry hr hclosest =>
      rw [BitVec.lt_def, abs_sub_toNat hcandidate hvalue, abs_sub_toNat (hseen _ hclosest.mem) hvalue] at hlt
      exact hlt.le.trans (hclosest.least x hx hxok)
  · exact le_rfl

theorem Kept.skip (hvalue : value.toNat < 2 ^ 31) (hseen : ∀ a ∈ seen, a.toNat < 2 ^ 31)
    (hcandidate : candidate.toNat < 2 ^ 31) (h : Kept value round seen result mindiff)
    (hskip : ¬((candidate - value).abs < mindiff ∧ roundOk candidate value round = true)) :
    Kept value round (seen ++ [candidate]) result mindiff := by
  cases h with
  | start hnone =>
    refine .start ?_
    intro x hx
    rw [List.mem_append, List.mem_singleton] at hx
    obtain hx | rfl := hx
    · exact hnone x hx
    · by_contra hok
      refine hskip ⟨?_, by simpa using hok⟩
      rw [BitVec.lt_def, abs_sub_toNat hcandidate hvalue, BitVec.toNat_allOnes, Nat.dist]
      omega
  | @entry result r hr hclosest =>
    have hbound : result < seen.length := (List.getElem?_eq_some_iff.mp hr).1
    refine .entry (by rw [List.getElem?_append_left hbound, hr]) ⟨by simp [hclosest.mem], hclosest.ok, ?_⟩
    intro x hx hxok
    rw [List.mem_append, List.mem_singleton] at hx
    obtain hx | rfl := hx
    · exact hclosest.least x hx hxok
    · have hle : ¬(x - value).abs < (r - value).abs := fun hlt => hskip ⟨hlt, hxok⟩
      rw [BitVec.lt_def, abs_sub_toNat hcandidate hvalue, abs_sub_toNat (hseen _ hclosest.mem) hvalue] at hle
      exact not_lt.mp hle

theorem Kept.found (h : Kept value round seen result 0) (hvalue : value.toNat < 2 ^ 31)
    (hseen : ∀ a ∈ seen, a.toNat < 2 ^ 31) (rest : List (BitVec 32)) : Kept value round (seen ++ rest) result 0 := by
  generalize hmindiff : (0 : BitVec 32) = mindiff at h ⊢
  cases h with
  | start hnone => exact absurd hmindiff (by decide)
  | @entry result r hr hclosest =>
    have hbound : result < seen.length := (List.getElem?_eq_some_iff.mp hr).1
    have hzero := abs_sub_toNat (hseen _ hclosest.mem) hvalue
    rw [← hmindiff] at hzero
    refine .entry (by rw [List.getElem?_append_left hbound, hr]) ⟨by simp [hclosest.mem], hclosest.ok, ?_⟩
    intro x _ _
    rw [← hzero]
    exact Nat.zero_le _

theorem approxLoop_kept (hvalue : value.toNat < 2 ^ 31) (hsmall : ∀ a ∈ seen ++ rest, a.toNat < 2 ^ 31)
    (h : Kept value round seen result mindiff) :
    ∃ mindiff', Kept value round (seen ++ rest) (approxLoop value round rest seen.length result mindiff) mindiff' := by
  induction rest generalizing seen result mindiff with
  | nil =>
    rw [List.append_nil]
    exact ⟨mindiff, h⟩
  | cons candidate rest ih =>
    have hseen : ∀ a ∈ seen, a.toNat < 2 ^ 31 := fun a ha => hsmall a (List.mem_append_left _ ha)
    have hcandidate : candidate.toNat < 2 ^ 31 := hsmall candidate (by simp)
    have hnext : seen ++ candidate :: rest = (seen ++ [candidate]) ++ rest := by simp
    have hlength : (seen ++ [candidate]).length = seen.length + 1 := List.length_append
    rw [hnext] at hsmall ⊢
    rw [approxLoop]
    split
    · rename_i htake
      have hkept := h.take hvalue hseen hcandidate htake.1 htake.2
      split
      · rename_i hzero
        rw [hzero] at hkept
        exact ⟨0, hkept.found hvalue (fun a ha => hsmall a (List.mem_append_left _ ha)) rest⟩
      · rw [← hlength]
        exact ih hsmall hkept
    · rename_i hskip
      rw [← hlength]
      exact ih hsmall (h.skip hvalue hseen hcandidate hskip)

theorem approx_closest (hvalue : value.toNat < 2 ^ 31) (hsmall : ∀ a ∈ array, a.toNat < 2 ^ 31)
    (hsome : ∃ x ∈ array, roundOk x value round = true) :
    Closest value round array (approx array array.length value round) := by
  have hstart : Kept value round [] 0 (BitVec.allOnes 32) := .start (by simp)
  obtain ⟨mindiff, hkept⟩ : ∃ mindiff, Kept value round ([] ++ array)
      (approxLoop value round array [].length 0 (BitVec.allOnes 32)) mindiff := approxLoop_kept hvalue hsmall hstart
  rw [List.nil_append, List.length_nil] at hkept
  rw [approx, List.take_length]
  generalize approxLoop value round array 0 0 (BitVec.allOnes 32) = result at hkept ⊢
  cases hkept with
  | start hnone =>
    obtain ⟨x, hx, hok⟩ := hsome
    rw [hnone x hx] at hok
    cases hok
  | entry hr hclosest =>
    rw [List.getD_eq_getElem?_getD, hr]
    exact hclosest

/-- What rounding to one of the values gives. -/
structure Rounded (values : List (BitVec 32)) (value : BitVec 32) (round : Round) (r : BitVec 32) : Prop where
  mem : r ∈ values
  up : round = .up → (∃ x ∈ values, value ≤ x) → value ≤ r ∧ ∀ x ∈ values, value ≤ x → r ≤ x
  down : round = .down → (∃ x ∈ values, x ≤ value) → r ≤ value ∧ ∀ x ∈ values, x ≤ value → x ≤ r
  nearest : round = .nearest → ∀ x ∈ values, Nat.dist r.toNat value.toNat ≤ Nat.dist x.toNat value.toNat
  above : (∀ x ∈ values, x < value) → ∀ x ∈ values, x ≤ r
  below : (∀ x ∈ values, value < x) → ∀ x ∈ values, r ≤ x

theorem Rounded.of_perm (h : Rounded array value round r) (hperm : array.Perm values) :
    Rounded values value round r := by
  have hmem : ∀ x, x ∈ array ↔ x ∈ values := fun _ => hperm.mem_iff
  obtain ⟨hr, hup, hdown, hnearest, habove, hbelow⟩ := h
  simp only [hmem] at hr hup hdown hnearest habove hbelow
  exact ⟨hr, hup, hdown, hnearest, habove, hbelow⟩

theorem getD_mem {i : ℕ} (hi : i < array.length) : array.getD i 0 ∈ array := by
  rw [List.getD_eq_getElem _ _ hi]
  exact List.getElem_mem hi

theorem between (hsorted : array.Pairwise (· ≥ ·)) {x : BitVec 32} (hx : x ∈ array) :
    array.getD (array.length - 1) 0 ≤ x ∧ x ≤ array.getD 0 0 := by
  obtain ⟨i, hi, rfl⟩ := List.getElem_of_mem hx
  rw [List.getD_eq_getElem _ _ (by omega), List.getD_eq_getElem _ _ (by omega)]
  rw [List.pairwise_iff_getElem] at hsorted
  constructor
  · by_cases hlast : i = array.length - 1
    · simp only [hlast, BitVec.le_refl]
    · exact hsorted i (array.length - 1) hi (by omega) (by omega)
  · by_cases hfirst : i = 0
    · simp only [hfirst, BitVec.le_refl]
    · exact hsorted 0 i (by omega) hi (by omega)

theorem Rounded.first (hne : array ≠ []) (hsorted : array.Pairwise (· ≥ ·)) (h : array.getD 0 0 ≤ value) :
    Rounded array value round (array.getD 0 0) := by
  have hmem : array.getD 0 0 ∈ array := getD_mem (List.length_pos_iff.mpr hne)
  have hmax : ∀ x ∈ array, x ≤ array.getD 0 0 := fun x hx => (between hsorted hx).2
  refine ⟨hmem, ?_, fun _ _ => ⟨h, fun x hx _ => hmax x hx⟩, ?_, fun _ => hmax, ?_⟩
  · rintro - ⟨x, hx, hle⟩
    exact ⟨BitVec.le_trans hle (hmax x hx), fun y _ hy => BitVec.le_trans h hy⟩
  · intro _ x hx
    have hle := hmax x hx
    rw [BitVec.le_def] at h hle
    simp only [Nat.dist]
    omega
  · intro hbelow
    exact absurd (hbelow _ hmem) (BitVec.not_lt.mpr h)

theorem Rounded.last (hne : array ≠ []) (hsorted : array.Pairwise (· ≥ ·))
    (h : value ≤ array.getD (array.length - 1) 0) : Rounded array value round (array.getD (array.length - 1) 0) := by
  have hmem : array.getD (array.length - 1) 0 ∈ array := getD_mem (Nat.sub_lt (List.length_pos_iff.mpr hne) Nat.one_pos)
  have hmin : ∀ x ∈ array, array.getD (array.length - 1) 0 ≤ x := fun x hx => (between hsorted hx).1
  refine ⟨hmem, fun _ _ => ⟨h, fun x hx _ => hmin x hx⟩, ?_, ?_, ?_, fun _ => hmin⟩
  · rintro - ⟨x, hx, hle⟩
    exact ⟨BitVec.le_trans (hmin x hx) hle, fun y _ hy => BitVec.le_trans hy h⟩
  · intro _ x hx
    have hle := hmin x hx
    rw [BitVec.le_def] at h hle
    simp only [Nat.dist]
    omega
  · intro habove
    exact absurd (habove _ hmem) (BitVec.not_lt.mpr h)

/-- Between the ends some entry passes in every direction, and the closest is the one asked for. -/
theorem Closest.rounded (h : Closest value round array r) (hlast : ∃ x ∈ array, x < value)
    (hfirst : ∃ x ∈ array, value < x) : Rounded array value round r := by
  obtain ⟨hmem, hok, hleast⟩ := h
  obtain ⟨low, hlow, hlt⟩ := hlast
  obtain ⟨high, hhigh, hgt⟩ := hfirst
  refine ⟨hmem, ?_, ?_, ?_, ?_, ?_⟩
  · rintro rfl -
    simp only [roundOk, decide_eq_true_eq, BitVec.le_def, Nat.dist] at hok hleast ⊢
    refine ⟨hok, ?_⟩
    intro x hx hle
    have := hleast x hx hle
    omega
  · rintro rfl -
    simp only [roundOk, decide_eq_true_eq, BitVec.le_def, Nat.dist] at hok hleast ⊢
    refine ⟨hok, ?_⟩
    intro x hx hle
    have := hleast x hx hle
    omega
  · rintro rfl x hx
    exact hleast x hx rfl
  · intro habove
    exact absurd (habove high hhigh) (BitVec.lt_asymm hgt)
  · intro hbelow
    exact absurd (hbelow low hlow) (BitVec.lt_asymm hlt)

theorem roundUint_rounded (hne : array ≠ []) (hsorted : array.Pairwise (· ≥ ·))
    (hsmall : ∀ a ∈ array, a.toNat < 2 ^ 31) (value : BitVec 32) (round : Round) :
    Rounded array value round (sis33devRoundUint array array.length value round) := by
  have hpos : 0 < array.length := List.length_pos_iff.mpr hne
  have hfirst : array.getD 0 0 ∈ array := getD_mem hpos
  have hlast : array.getD (array.length - 1) 0 ∈ array := getD_mem (Nat.sub_lt hpos Nat.one_pos)
  unfold sis33devRoundUint
  split
  · exact .first hne hsorted ‹_›
  · rename_i hbelow
    split
    · exact .last hne hsorted ‹_›
    · rename_i habove
      have hlt : value < array.getD 0 0 := BitVec.not_le.mp hbelow
      have hgt : array.getD (array.length - 1) 0 < value := BitVec.not_le.mp habove
      have hvalue : value.toNat < 2 ^ 31 := (BitVec.lt_def.mp hlt).trans (hsmall _ hfirst)
      refine (approx_closest hvalue hsmall ?_).rounded ⟨_, hlast, hgt⟩ ⟨_, hfirst, hlt⟩
      cases round with
      | nearest => exact ⟨_, hfirst, rfl⟩
      | down => exact ⟨_, hlast, decide_eq_true (BitVec.le_of_lt hgt)⟩
      | up => exact ⟨_, hfirst, decide_eq_true (BitVec.le_of_lt hlt)⟩

end Rounding

/-! ## From the driver to the library -/

/-- A list that the driver exports is counted, read in descending order and rounded to. -/
theorem exported_list (w : ℕ) (hw : 32 ≤ w) (values array : List (BitVec 32)) (hne : values ≠ [])
    (hsmall : ∀ a ∈ values, a.toNat < 2 ^ 31) (htext : (showAvailable values).2 < attrSize)
    (harray : array.length = values.length) :
    sis33devGetNrItems (attrFile values) = values.length ∧
      ∃ items, sis33devGetItemsUint w (attrFile values) array values.length = (0, items) ∧ items.Perm values ∧
        items.Pairwise (· ≥ ·) ∧
        ∀ value round, Rounded values value round (sis33devRoundUint items values.length value round) := by
  constructor
  · simp only [sis33devGetNrItems, getAttr_eq htext, count_items]
  · have hperm := qsortUintsDesc_perm values
    have hsorted := qsortUintsDesc_pairwise hsmall
    have hitems : sis33devGetItemsUint w (attrFile values) array values.length = (0, qsortUintsDesc values) := by
      simp only [sis33devGetItemsUint, getAttr_eq htext, itemsLoop_items hw]
      rw [if_neg (lt_irrefl _), ← harray, List.drop_length, List.append_nil]
    refine ⟨qsortUintsDesc values, hitems, hperm, hsorted, ?_⟩
    intro value round
    rw [← hperm.length_eq]
    refine (roundUint_rounded ?_ hsorted ?_ value round).of_perm hperm
    · intro hnil
      rw [hnil] at hperm
      exact hne (List.nil_perm.mp hperm)
    · intro a ha
      exact hsmall a (hperm.mem_iff.mp ha)

/-- The two rates of a card, with the lower one printed first. -/
theorem exported_two : sis33devGetNrItems (attrFile [50, 100]) = 2 ∧
    ∃ items, sis33devGetItemsUint 64 (attrFile [50, 100]) [0, 0] 2 = (0, items) ∧ items.Perm [50, 100] ∧
      items.Pairwise (· ≥ ·) ∧ ∀ value round,
      Rounded [50, 100] value round (sis33devRoundUint items 2 value round) := by
  have hcount : (showAvailable [50, 100]).2 = 8 := rfl
  have htext : (showAvailable [50, 100]).2 < attrSize := by
    rw [hcount]
    decide
  have hsmall : ∀ a ∈ ([50, 100] : List (BitVec 32)), a.toNat < 2 ^ 31 := by simp
  exact exported_list 64 (by decide) [50, 100] [0, 0] (by decide) hsmall htext rfl

end HtDrivers.Sis33
