import Mathlib.Data.Nat.Digits.Lemmas
import Mathlib.Tactic

/-! Numerals as the C library prints and reads them: `%X` of `printf`, `strtoul` with base 0 on words of
`w` bits, and `fgets`. A string is the list of its characters, and an end pointer the characters that
are left. -/
namespace HtDrivers.Lib.Numerals
set_option autoImplicit false

/-! ## Printing -/

/-- The digits of `%X`. -/
def hexUpper (n : ℕ) : List Char := (Nat.toDigits 16 n).map Char.toUpper

/-- What is printed for a number in base `b` is one digit, or what is printed for the rest and one digit. -/
theorem toDigits_cases {b : ℕ} (hb : 1 < b) (n : ℕ) :
    (n < b ∧ Nat.toDigits b n = [Nat.digitChar n]) ∨
      (b ≤ n ∧ Nat.toDigits b n = Nat.toDigits b (n / b) ++ [Nat.digitChar (n % b)]) := by
  by_cases hn : n < b
  · exact .inl ⟨hn, Nat.toDigits_of_lt_base hn⟩
  · exact .inr ⟨Nat.le_of_not_lt hn, Nat.toDigits_of_base_le hb (Nat.le_of_not_lt hn)⟩

theorem exists_digit {b n : ℕ} {c : Char} (hb : 1 < b) (h : c ∈ Nat.toDigits b n) : ∃ d < b, c = Nat.digitChar d := by
  induction n using Nat.strong_induction_on with
  | _ n ih =>
    obtain ⟨hn, hdigits⟩ | ⟨hn, hdigits⟩ := toDigits_cases hb n
    · rw [hdigits] at h
      exact ⟨n, hn, List.mem_singleton.mp h⟩
    · rw [hdigits] at h
      obtain hhead | hlast := List.mem_append.mp h
      · exact ih (n / b) (Nat.div_lt_self (by omega) hb) hhead
      · exact ⟨n % b, Nat.mod_lt n (by omega), List.mem_singleton.mp hlast⟩

theorem length_hexUpper_le {n k : ℕ} (hk : 0 < k) (h : n < 16^k) : (hexUpper n).length ≤ k := by
  unfold hexUpper
  rw [List.length_map]
  exact (Nat.length_toDigits_le_iff (by decide) hk).mpr h

/-! ## Reading -/

def digitValue (c : Char) : Option ℕ :=
  if '0' ≤ c ∧ c ≤ '9' then some (c.toNat - '0'.toNat)
  else if 'a' ≤ c ∧ c ≤ 'z' then some (c.toNat - 'a'.toNat + 10)
  else if 'A' ≤ c ∧ c ≤ 'Z' then some (c.toNat - 'A'.toNat + 10)
  else none

def isDigitOf (b : ℕ) (c : Char) : Bool := (digitValue c).any (· < b)

/-- The value of the digits at the head, and what follows them. -/
def readDigits (b : ℕ) : List Char → ℕ → ℕ × List Char
  | [], n => (n, [])
  | c :: s, n => match digitValue c with
    | some d => if d < b then readDigits b s (n * b + d) else (n, c :: s)
    | none => (n, c :: s)

def isSpace (c : Char) : Bool := c = ' ' ∨ c = '\t' ∨ c = '\n' ∨ c = '\x0b' ∨ c = '\x0c' ∨ c = '\r'

/-- The base that base 0 stands for, and the characters behind the mark. -/
def baseOf : List Char → ℕ × List Char
  | '0' :: x :: c :: s =>
    if (x = 'x' ∨ x = 'X') ∧ isDigitOf 16 c = true then (16, c :: s) else (8, '0' :: x :: c :: s)
  | '0' :: s => (8, '0' :: s)
  | s => (10, s)

def signOf : List Char → Bool × List Char
  | '-' :: s => (true, s)
  | '+' :: s => (false, s)
  | s => (false, s)

/-- `strtoul(s, &end, 0)`: the value and the end. A numeral that does not fit is the largest word, and
without a digit nothing is consumed. -/
def strtoul (w : ℕ) (s : List Char) : BitVec w × List Char :=
  let (neg, t) := signOf (s.dropWhile isSpace)
  let (b, t) := baseOf t
  if (t.head?.any (isDigitOf b)) then
    let (n, rest) := readDigits b t 0
    (if 2^w ≤ n then BitVec.allOnes w else if neg then -BitVec.ofNat w n else BitVec.ofNat w n, rest)
  else (0, s)

/-! ## Reading what was printed -/

/-- A form of the digits in which they are read as what they were printed for, such as that of `%d` or `%X`. -/
def DigitForm (b : ℕ) (f : Char → Char) : Prop := ∀ d < b, digitValue (f (Nat.digitChar d)) = some d

theorem digitForm_decimal : DigitForm 10 id := by
  have hall : ∀ d : Fin 10, digitValue (id (Nat.digitChar d.val)) = some d.val := by decide
  exact fun d hd => hall ⟨d, hd⟩

theorem digitForm_hexUpper : DigitForm 16 Char.toUpper := by
  have hall : ∀ d : Fin 16, digitValue (Nat.digitChar d.val).toUpper = some d.val := by decide
  exact fun d hd => hall ⟨d, hd⟩

section Digits
variable {b : ℕ} {f : Char → Char}

theorem readDigits_cons (hf : DigitForm b f) {d : ℕ} (h : d < b) (rest : List Char) (n : ℕ) :
    readDigits b (f (Nat.digitChar d) :: rest) n = readDigits b rest (n * b + d) := by
  rw [readDigits, hf d h]
  exact if_pos h

theorem readDigits_toDigits (hb : 1 < b) (hf : DigitForm b f) (n : ℕ) (rest : List Char) :
    readDigits b ((Nat.toDigits b n).map f ++ rest) 0 = readDigits b rest n := by
  induction n using Nat.strong_induction_on generalizing rest with
  | _ n ih =>
    obtain ⟨hn, hdigits⟩ | ⟨hn, hdigits⟩ := toDigits_cases hb n
    · rw [hdigits, List.map_singleton, List.singleton_append, readDigits_cons hf hn, Nat.zero_mul, Nat.zero_add]
    · rw [hdigits, List.map_append, List.append_assoc, ih (n / b) (Nat.div_lt_self (by omega) hb),
        List.map_singleton, List.singleton_append, readDigits_cons hf (Nat.mod_lt n (by omega)), Nat.div_add_mod']

theorem isDigitOf_toDigits (hb : 1 < b) (hf : DigitForm b f) {n : ℕ} {c : Char} (h : c ∈ (Nat.toDigits b n).map f) :
    isDigitOf b c = true := by
  obtain ⟨c, hc, rfl⟩ := List.mem_map.mp h
  obtain ⟨d, hd, rfl⟩ := exists_digit hb hc
  unfold isDigitOf
  rw [hf d hd]
  exact decide_eq_true hd

end Digits

theorem isDigitOf_of_mem_hexUpper {n : ℕ} {c : Char} (h : c ∈ hexUpper n) : isDigitOf 16 c = true :=
  isDigitOf_toDigits (by decide) digitForm_hexUpper h

theorem hexUpper_cons (n : ℕ) : ∃ c s, hexUpper n = c :: s ∧ isDigitOf 16 c = true := by
  cases hdigits : hexUpper n with
  | nil =>
    unfold hexUpper at hdigits
    exact absurd (List.map_eq_nil_iff.mp hdigits) Nat.toDigits_ne_nil
  | cons c s =>
    refine ⟨c, s, rfl, isDigitOf_of_mem_hexUpper (n := n) ?_⟩
    rw [hdigits]
    exact List.mem_cons_self ..

theorem readDigits_stop {b : ℕ} {rest : List Char} (h : rest.head?.any (isDigitOf b) = false) (n : ℕ) :
    readDigits b rest n = (n, rest) := by
  cases rest with
  | nil => rfl
  | cons c s =>
    rw [readDigits]
    cases hd : digitValue c with
    | none => rfl
    | some d =>
      have hlarge : ¬ d < b := by simpa [isDigitOf, hd] using h
      exact if_neg hlarge

/-- A number that was printed with `0x%X`, after spaces, is read back with the end behind it. -/
theorem strtoul_hex {w n : ℕ} (hn : n < 2^w) (spaces : List Char) {rest : List Char}
    (hspaces : ∀ c ∈ spaces, isSpace c = true) (hrest : rest.head?.any (isDigitOf 16) = false) :
    strtoul w (spaces ++ ('0' :: 'x' :: hexUpper n) ++ rest) = (BitVec.ofNat w n, rest) := by
  obtain ⟨c, s, hdigits, hc⟩ := hexUpper_cons n
  have hdrop : (spaces ++ ('0' :: 'x' :: hexUpper n) ++ rest).dropWhile isSpace =
      '0' :: 'x' :: c :: (s ++ rest) := by
    rw [List.append_assoc, List.dropWhile_append_of_pos hspaces, hdigits]
    rfl
  have hsign : signOf ('0' :: 'x' :: c :: (s ++ rest)) = (false, '0' :: 'x' :: c :: (s ++ rest)) := rfl
  have hbase : baseOf ('0' :: 'x' :: c :: (s ++ rest)) = (16, c :: (s ++ rest)) := if_pos ⟨.inl rfl, hc⟩
  have hread : readDigits 16 (c :: (s ++ rest)) 0 = (n, rest) := by
    rw [← List.cons_append, ← hdigits, hexUpper, readDigits_toDigits (by decide) digitForm_hexUpper,
      readDigits_stop hrest]
  unfold strtoul
  rw [hdrop]
  simp only [hsign, hbase, List.head?_cons, Option.any_some, hc, if_true, hread]
  rw [if_neg (by omega)]
  rfl

/-! ## Progress -/

theorem readDigits_suffix (b : ℕ) (s : List Char) (n : ℕ) : (readDigits b s n).2 <:+ s := by
  induction s generalizing n with
  | nil => exact List.suffix_refl _
  | cons c s ih =>
    unfold readDigits
    cases digitValue c with
    | none => exact List.suffix_refl _
    | some d =>
      dsimp only
      split
      · exact (ih _).trans (List.suffix_cons c s)
      · exact List.suffix_refl _

theorem length_readDigits_le (b : ℕ) (s : List Char) (n : ℕ) : (readDigits b s n).2.length ≤ s.length :=
  (readDigits_suffix b s n).length_le

theorem length_readDigits_lt {b : ℕ} {c : Char} (h : isDigitOf b c = true) (s : List Char) (n : ℕ) :
    (readDigits b (c :: s) n).2.length < (c :: s).length := by
  rw [readDigits]
  cases hd : digitValue c with
  | none =>
    rw [isDigitOf, hd] at h
    cases h
  | some d =>
    have hlt : d < b := by simpa [isDigitOf, hd] using h
    simp only [if_pos hlt]
    exact Nat.lt_succ_of_le (length_readDigits_le b s _)

theorem isDigitOf_ten {c : Char} (h : '0' ≤ c ∧ c ≤ '9') : isDigitOf 10 c = true := by
  have hlo : '0'.toNat ≤ c.toNat := h.1
  have hhi : c.toNat ≤ '9'.toNat := h.2
  have hzero : '0'.toNat = 48 := rfl
  have hnine : '9'.toNat = 57 := rfl
  simp only [isDigitOf, digitValue, if_pos h, Option.any_some, decide_eq_true_eq]
  omega

/-- The base and the digits that follow a decimal digit. -/
theorem baseOf_digit {c : Char} (h : '0' ≤ c ∧ c ≤ '9') (s : List Char) :
    ∃ d t, (baseOf (c :: s)).2 = d :: t ∧ isDigitOf (baseOf (c :: s)).1 d = true ∧
    (d :: t).length ≤ (c :: s).length := by
  have hzero : isDigitOf 8 '0' = true := by decide
  unfold baseOf
  split
  · rename_i x d t heq
    obtain ⟨rfl, rfl⟩ := List.cons.inj heq
    by_cases hhex : (x = 'x' ∨ x = 'X') ∧ isDigitOf 16 d = true
    · rw [if_pos hhex]
      exact ⟨d, t, rfl, hhex.2, by simp⟩
    · rw [if_neg hhex]
      exact ⟨'0', x :: d :: t, rfl, hzero, le_refl _⟩
  · rename_i t _ heq
    obtain ⟨rfl, rfl⟩ := List.cons.inj heq
    exact ⟨'0', s, rfl, hzero, le_refl _⟩
  · exact ⟨c, s, rfl, isDigitOf_ten h, le_refl _⟩

theorem signOf_digit {c : Char} (h : '0' ≤ c ∧ c ≤ '9') (s : List Char) : signOf (c :: s) = (false, c :: s) := by
  unfold signOf
  split
  · rename_i heq
    rw [(List.cons.inj heq).1] at h
    exact absurd h (by decide)
  · rename_i heq
    rw [(List.cons.inj heq).1] at h
    exact absurd h (by decide)
  · rfl

theorem isSpace_digit {c : Char} (h : '0' ≤ c ∧ c ≤ '9') : isSpace c = false := by
  unfold isSpace
  refine decide_eq_false ?_
  rintro (rfl | rfl | rfl | rfl | rfl | rfl)
  all_goals exact absurd h (by decide)

/-- At a decimal digit `strtoul` consumes something. -/
theorem length_strtoul_lt (w : ℕ) {c : Char} (h : '0' ≤ c ∧ c ≤ '9') (s : List Char) :
    (strtoul w (c :: s)).2.length < (c :: s).length := by
  obtain ⟨d, t, hdigits, hd, hle⟩ := baseOf_digit h s
  have hdrop : (c :: s).dropWhile isSpace = c :: s := by
    rw [List.dropWhile_cons, isSpace_digit h]
    rfl
  have hread := length_readDigits_lt hd t 0
  rw [← hdigits] at hread hle
  unfold strtoul
  rw [hdrop, signOf_digit h]
  simp only [hdigits, List.head?_cons, Option.any_some, hd, if_true]
  rw [← hdigits]
  exact lt_of_lt_of_le hread hle

theorem baseOf_suffix (s : List Char) : (baseOf s).2 <:+ s := by
  unfold baseOf
  split
  · rename_i x c t
    split
    · exact (List.suffix_cons x _).trans (List.suffix_cons '0' _)
    · exact List.suffix_refl _
  · exact List.suffix_refl _
  · exact List.suffix_refl _

theorem signOf_suffix (s : List Char) : (signOf s).2 <:+ s := by
  unfold signOf
  split
  · exact List.suffix_cons _ _
  · exact List.suffix_cons _ _
  · exact List.suffix_refl _

/-- What `strtoul` leaves is the end of its text. -/
theorem strtoul_suffix (w : ℕ) (s : List Char) : (strtoul w s).2 <:+ s := by
  have hdigits : (baseOf (signOf (s.dropWhile isSpace)).2).2 <:+ s :=
    ((baseOf_suffix _).trans (signOf_suffix _)).trans (List.dropWhile_suffix _)
  unfold strtoul
  dsimp only
  split
  · exact (readDigits_suffix _ _ _).trans hdigits
  · exact List.suffix_refl _

/-! ## Numerals that read alike -/

/-- Characters that may stand for each other in a numeral, such as the cases of a letter. -/
structure SameNumeral (c d : Char) : Prop where
  digit : digitValue c = digitValue d
  space : isSpace c = isSpace d
  minus : c = '-' ↔ d = '-'
  plus : c = '+' ↔ d = '+'
  zero : c = '0' ↔ d = '0'
  mark : (c = 'x' ∨ c = 'X') ↔ (d = 'x' ∨ d = 'X')

theorem SameNumeral.refl (c : Char) : SameNumeral c c := ⟨rfl, rfl, Iff.rfl, Iff.rfl, Iff.rfl, Iff.rfl⟩

section Alike
variable {s t : List Char}

theorem dropWhile_alike (h : List.Forall₂ SameNumeral s t) :
    List.Forall₂ SameNumeral (s.dropWhile isSpace) (t.dropWhile isSpace) := by
  induction h with
  | nil => exact .nil
  | cons hcd hrest ih =>
    rw [List.dropWhile_cons, List.dropWhile_cons, hcd.space]
    split
    · exact ih
    · exact .cons hcd hrest

theorem signOf_cons {c : Char} (s : List Char) :
    signOf (c :: s) = if c = '-' then (true, s) else if c = '+' then (false, s) else (false, c :: s) := by
  by_cases hminus : c = '-'
  · rw [if_pos hminus, hminus]
    rfl
  · by_cases hplus : c = '+'
    · rw [if_neg hminus, if_pos hplus, hplus]
      rfl
    · rw [if_neg hminus, if_neg hplus]
      unfold signOf
      split
      · rename_i heq
        exact absurd (List.cons.inj heq).1 hminus
      · rename_i heq
        exact absurd (List.cons.inj heq).1 hplus
      · rfl

theorem signOf_alike (h : List.Forall₂ SameNumeral s t) :
    (signOf s).1 = (signOf t).1 ∧ List.Forall₂ SameNumeral (signOf s).2 (signOf t).2 := by
  cases h with
  | nil => exact ⟨rfl, .nil⟩
  | cons hcd hrest =>
    rw [signOf_cons, signOf_cons]
    simp only [hcd.minus, hcd.plus]
    split
    · exact ⟨rfl, hrest⟩
    · split
      · exact ⟨rfl, hrest⟩
      · exact ⟨rfl, .cons hcd hrest⟩

theorem baseOf_ne_zero {c : Char} (h : c ≠ '0') (s : List Char) : baseOf (c :: s) = (10, c :: s) := by
  unfold baseOf
  split
  · rename_i heq
    exact absurd (List.cons.inj heq).1 h
  · rename_i heq
    exact absurd (List.cons.inj heq).1 h
  · rfl

theorem baseOf_alike (h : List.Forall₂ SameNumeral s t) :
    (baseOf s).1 = (baseOf t).1 ∧ List.Forall₂ SameNumeral (baseOf s).2 (baseOf t).2 := by
  cases h with
  | nil => exact ⟨rfl, .nil⟩
  | @cons c d s t hcd hrest =>
    by_cases hzero : c = '0'
    · have hzero' := hcd.zero.mp hzero
      subst hzero hzero'
      cases hrest with
      | nil => exact ⟨rfl, .cons hcd .nil⟩
      | @cons x y s t hxy hrest =>
        cases hrest with
        | nil => exact ⟨rfl, .cons hcd (.cons hxy .nil)⟩
        | @cons a b s t hab hrest =>
          have hdigit : isDigitOf 16 a = isDigitOf 16 b := by
            unfold isDigitOf
            rw [hab.digit]
          simp only [baseOf, hxy.mark, hdigit]
          split
          · exact ⟨rfl, .cons hab hrest⟩
          · exact ⟨rfl, .cons hcd (.cons hxy (.cons hab hrest))⟩
    · rw [baseOf_ne_zero hzero, baseOf_ne_zero fun h => hzero (hcd.zero.mpr h)]
      exact ⟨rfl, .cons hcd hrest⟩

theorem head_alike (b : ℕ) (h : List.Forall₂ SameNumeral s t) :
    s.head?.any (isDigitOf b) = t.head?.any (isDigitOf b) := by
  cases h with
  | nil => rfl
  | cons hcd _ =>
    simp only [List.head?_cons, Option.any_some, isDigitOf]
    rw [hcd.digit]

theorem readDigits_alike (b : ℕ) (h : List.Forall₂ SameNumeral s t) (n : ℕ) :
    (readDigits b s n).1 = (readDigits b t n).1 := by
  induction h generalizing n with
  | nil => rfl
  | cons hcd _ ih =>
    rw [readDigits, readDigits, hcd.digit]
    split
    · split
      · exact ih _
      · rfl
    · rfl

theorem strtoul_alike (w : ℕ) (h : List.Forall₂ SameNumeral s t) : (strtoul w s).1 = (strtoul w t).1 := by
  obtain ⟨hsign, hrest⟩ := signOf_alike (dropWhile_alike h)
  obtain ⟨hbase, hdigits⟩ := baseOf_alike hrest
  unfold strtoul
  simp only [hsign, hbase, head_alike _ hdigits]
  split
  · simp only [readDigits_alike _ hdigits]
  · rfl

end Alike

theorem length_signOf_le (s : List Char) : (signOf s).2.length ≤ s.length := by
  cases s with
  | nil => exact le_refl _
  | cons c s =>
    rw [signOf_cons]
    split
    · exact Nat.le_succ _
    · split
      · exact Nat.le_succ _
      · exact le_refl _

theorem length_baseOf_le (s : List Char) : (baseOf s).2.length ≤ s.length := by
  unfold baseOf
  split
  · split
    · simp
    · exact le_refl _
  · exact le_refl _
  · exact le_refl _

/-- A value other than 0 was read from something. -/
theorem strtoul_consumes {w : ℕ} {s : List Char} (h : (strtoul w s).1 ≠ 0) : (strtoul w s).2 ≠ s := by
  have hle : (baseOf (signOf (s.dropWhile isSpace)).2).2.length ≤ s.length :=
    (length_baseOf_le _).trans ((length_signOf_le _).trans (List.dropWhile_sublist _).length_le)
  unfold strtoul at h ⊢
  simp only at h ⊢
  generalize hbase : baseOf (signOf (s.dropWhile isSpace)).2 = base at h hle ⊢
  obtain ⟨b, digits⟩ := base
  simp only at h hle ⊢
  split at h
  · rename_i hdigit
    rw [if_pos hdigit]
    cases digits with
    | nil => cases hdigit
    | cons c digits =>
      have hlt := length_readDigits_lt (by simpa using hdigit) digits 0
      intro heq
      rw [heq] at hlt
      omega
  · exact absurd rfl h

/-! ## Decimal numbers -/

theorem toDigits_ten_cons {n : ℕ} (h : 0 < n) :
    ∃ c s, Nat.toDigits 10 n = c :: s ∧ c ≠ '0' ∧ '0' ≤ c ∧ c ≤ '9' := by
  have hall : ∀ d : Fin 10, 0 < d.val → Nat.digitChar d.val ≠ '0' ∧ '0' ≤ Nat.digitChar d.val ∧
      Nat.digitChar d.val ≤ '9' := by decide
  induction n using Nat.strong_induction_on with
  | _ n ih =>
    obtain ⟨hn, hdigits⟩ | ⟨hn, hdigits⟩ := toDigits_cases (show 1 < 10 by decide) n
    · exact ⟨Nat.digitChar n, [], hdigits, hall ⟨n, hn⟩ h⟩
    · obtain ⟨c, s, hhead, hc⟩ := ih (n / 10) (by omega) (by omega)
      rw [hhead] at hdigits
      exact ⟨c, s ++ [Nat.digitChar (n % 10)], hdigits, hc⟩

/-- What may follow a number that was printed with `%d` or `%u`. -/
def EndsDecimal (rest : List Char) : Prop := ∀ c ∈ rest.head?, isDigitOf 10 c = false ∧ c ≠ 'x' ∧ c ≠ 'X'

section Decimal
variable {w n b : ℕ} {rest : List Char}

theorem EndsDecimal.nil : EndsDecimal [] := by
  intro c hc
  cases hc

theorem EndsDecimal.stop (h : EndsDecimal rest) (hb : b ≤ 10) : rest.head?.any (isDigitOf b) = false := by
  cases rest with
  | nil => rfl
  | cons c s =>
    have hdigit : isDigitOf 10 c = false := (h c rfl).1
    simp only [List.head?_cons, Option.any_some]
    cases hd : digitValue c with
    | none => simp [isDigitOf, hd]
    | some d =>
      have hlarge : 10 ≤ d := by simpa [isDigitOf, hd] using hdigit
      simp only [isDigitOf, hd, Option.any_some, decide_eq_false_iff_not]
      omega

/-- A zero alone is a numeral in base 8. -/
theorem EndsDecimal.base (h : EndsDecimal rest) : baseOf ('0' :: rest) = (8, '0' :: rest) := by
  cases rest with
  | nil => rfl
  | cons x s =>
    cases s with
    | nil => rfl
    | cons c s =>
      have hmark : ¬((x = 'x' ∨ x = 'X') ∧ isDigitOf 16 c = true) := by
        rintro ⟨hx, -⟩
        exact hx.elim (h x rfl).2.1 (h x rfl).2.2
      exact if_neg hmark

/-- A number that was printed with `%d` or `%u` is read back, with the end behind it. -/
theorem strtoul_toDigits (hn : n < 2^w) (hrest : EndsDecimal rest) :
    strtoul w (Nat.toDigits 10 n ++ rest) = (BitVec.ofNat w n, rest) := by
  by_cases hzero : n = 0
  · subst hzero
    have hdrop : ('0' :: rest).dropWhile isSpace = '0' :: rest := rfl
    have hdigit : isDigitOf 8 '0' = true := by decide
    have hread : readDigits 8 ('0' :: rest) 0 = (0, rest) := readDigits_stop (hrest.stop (by decide)) 0
    change strtoul w ('0' :: rest) = _
    unfold strtoul
    rw [hdrop, signOf_digit (by decide)]
    simp only [hrest.base, List.head?_cons, Option.any_some, hdigit, if_true, hread]
    rw [if_neg (by omega)]
    rfl
  · obtain ⟨c, s, hdigits, hc0, hc⟩ := toDigits_ten_cons (Nat.pos_of_ne_zero hzero)
    have hdrop : (c :: (s ++ rest)).dropWhile isSpace = c :: (s ++ rest) := by
      rw [List.dropWhile_cons, isSpace_digit hc]
      rfl
    have hread : readDigits 10 (c :: (s ++ rest)) 0 = (n, rest) := by
      have hall := readDigits_toDigits (by decide) digitForm_decimal n rest
      rw [List.map_id, hdigits, readDigits_stop (hrest.stop le_rfl)] at hall
      exact hall
    rw [hdigits, List.cons_append]
    unfold strtoul
    rw [hdrop, signOf_digit hc]
    simp only [baseOf_ne_zero hc0, List.head?_cons, Option.any_some, isDigitOf_ten hc, if_true, hread]
    rw [if_neg (by omega)]
    rfl

theorem strtoul_decimal (hn : n < 2^w) : strtoul w (Nat.toDigits 10 n) = (BitVec.ofNat w n, []) := by
  simpa using strtoul_toDigits hn .nil

end Decimal

/-! ## Lines -/

def fgetsLoop : ℕ → List Char → List Char × List Char
  | 0, s => ([], s)
  | _ + 1, [] => ([], [])
  | k + 1, c :: s =>
    if c = '\n' then ([c], s)
    else
      let (line, rest) := fgetsLoop k s
      (c :: line, rest)

/-- `fgets` with a buffer of `size` characters: the line and the rest of the file. -/
def fgets (size : ℕ) (file : List Char) : Option (List Char × List Char) :=
  if file = [] then none else some (fgetsLoop (size - 1) file)

theorem fgetsLoop_line {line rest : List Char} {k : ℕ} (hline : '\n' ∉ line) (hk : line.length < k) :
    fgetsLoop k (line ++ '\n' :: rest) = (line ++ ['\n'], rest) := by
  induction line generalizing k with
  | nil =>
    obtain ⟨k, rfl⟩ : ∃ j, k = j + 1 := ⟨k - 1, by simp at hk; omega⟩
    rfl
  | cons c line ih =>
    obtain ⟨k, rfl⟩ : ∃ j, k = j + 1 := ⟨k - 1, by simp at hk; omega⟩
    obtain ⟨hc, hline⟩ : '\n' ≠ c ∧ '\n' ∉ line := by simpa using hline
    rw [List.cons_append, fgetsLoop, if_neg (Ne.symm hc), ih hline (by simp at hk; omega)]
    rfl

/-- A line that fits in the buffer is read whole. -/
theorem fgets_line {line rest : List Char} {size : ℕ} (hline : '\n' ∉ line) (hsize : line.length + 1 < size) :
    fgets size (line ++ '\n' :: rest) = some (line ++ ['\n'], rest) := by
  unfold fgets
  rw [if_neg (by simp), fgetsLoop_line hline (by omega)]

end HtDrivers.Lib.Numerals
