import HtDrivers.Lib.Numerals

/-! Formatted input in the manner of `fscanf`: literal characters, white space, words and hexadecimal numerals of `w`
bits. A scan stops at the first directive that fails. -/
namespace HtDrivers.Lib.Scanf
open HtDrivers.Lib.Numerals
set_option autoImplicit false

inductive Directive
  | lit (c : Char)
  | space
  | word
  | hex

inductive Value (w : ℕ)
  | word (s : List Char)
  | num (n : BitVec w)

/-- The mark of a hexadecimal numeral is optional. -/
def afterMark : List Char → List Char
  | '0' :: x :: s => if x = 'x' ∨ x = 'X' then s else '0' :: x :: s
  | s => s

/-- `%x` on words of `w` bits: the value, or none where there is no digit, and the characters that are left. A numeral
that does not fit is the largest word. -/
def scanHex (w : ℕ) (s : List Char) : Option (BitVec w) × List Char :=
  let signed := signOf (s.dropWhile isSpace)
  let t := afterMark signed.2
  if t.head?.any (isDigitOf 16) then
    let read := readDigits 16 t 0
    (some (if 2 ^ w ≤ read.1 then BitVec.allOnes w else if signed.1 then -BitVec.ofNat w read.1
      else BitVec.ofNat w read.1), read.2)
  else (none, t)

/-- The values that are assigned, in order, and the characters that are left. -/
def scan (w : ℕ) : List Directive → List Char → List (Value w) × List Char
  | [], s => ([], s)
  | .lit c :: ds, s => if s.head? = some c then scan w ds s.tail else ([], s)
  | .space :: ds, s => scan w ds (s.dropWhile isSpace)
  | .word :: ds, s =>
    let t := s.dropWhile isSpace
    let word := t.takeWhile fun c => !isSpace c
    if word = [] then ([], t)
    else
      let rest := scan w ds (t.dropWhile fun c => !isSpace c)
      (.word word :: rest.1, rest.2)
  | .hex :: ds, s =>
    let found := scanHex w s
    match found.1 with
    | none => ([], found.2)
    | some n =>
      let rest := scan w ds found.2
      (.num n :: rest.1, rest.2)

section Length
variable {w : ℕ} {s : List Char} {ds : List Directive}

theorem length_afterMark_le (s : List Char) : (afterMark s).length ≤ s.length := by
  unfold afterMark
  split
  · split
    · simp only [List.length_cons]
      omega
    · exact Nat.le_refl _
  · exact Nat.le_refl _

theorem length_scanHex_le (w : ℕ) (s : List Char) : (scanHex w s).2.length ≤ s.length := by
  have hspace : (s.dropWhile isSpace).length ≤ s.length := (List.dropWhile_sublist _).length_le
  have hsign := length_signOf_le (s.dropWhile isSpace)
  have hmark := length_afterMark_le (signOf (s.dropWhile isSpace)).2
  have hread := length_readDigits_le 16 (afterMark (signOf (s.dropWhile isSpace)).2) 0
  unfold scanHex
  dsimp only
  split
  · dsimp only
    omega
  · dsimp only
    omega

/-- A scan does not add characters. -/
theorem length_scan_le (w : ℕ) (ds : List Directive) (s : List Char) : (scan w ds s).2.length ≤ s.length := by
  induction ds generalizing s with
  | nil => exact Nat.le_refl _
  | cons d ds ih =>
    have hspace : (s.dropWhile isSpace).length ≤ s.length := (List.dropWhile_sublist _).length_le
    cases d with
    | lit c =>
      have htail : s.tail.length ≤ s.length := by simp
      rw [scan]
      split
      · exact (ih s.tail).trans htail
      · exact Nat.le_refl _
    | space => exact (ih _).trans hspace
    | word =>
      have hword : ((s.dropWhile isSpace).dropWhile fun c => !isSpace c).length ≤ (s.dropWhile isSpace).length :=
        (List.dropWhile_sublist _).length_le
      rw [scan]
      dsimp only
      split
      · exact hspace
      · exact ((ih _).trans hword).trans hspace
    | hex =>
      have hhex := length_scanHex_le w s
      rw [scan]
      dsimp only
      split
      · exact hhex
      · exact (ih _).trans hhex

/-- A format that begins with a literal character consumes it before it assigns anything. -/
theorem length_scan_lt {c : Char} (h : (scan w (.lit c :: ds) s).1 ≠ []) :
    (scan w (.lit c :: ds) s).2.length < s.length := by
  rw [scan] at h ⊢
  split
  · rename_i hhead
    have hle := length_scan_le w ds s.tail
    cases s with
    | nil => cases hhead
    | cons x s =>
      simp only [List.tail_cons, List.length_cons] at hle ⊢
      omega
  · rename_i hhead
    rw [if_neg hhead] at h
    exact absurd rfl h

end Length

end HtDrivers.Lib.Scanf
