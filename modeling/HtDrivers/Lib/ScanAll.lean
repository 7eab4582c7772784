import HtDrivers.Lib.Scanf

/-! Scans of all directives of a format. What such a scan consumes is the text of its literals, blanks and fields, one
after the other. -/
namespace HtDrivers.Lib.Scanf
open HtDrivers.Lib.Numerals
set_option autoImplicit false

/-- As `scan`, but only where no directive fails. -/
def scanAll (w : ℕ) : List Directive → List Char → Option (List (Value w) × List Char)
  | [], s => some ([], s)
  | .lit c :: ds, s => if s.head? = some c then scanAll w ds s.tail else none
  | .space :: ds, s => scanAll w ds (s.dropWhile isSpace)
  | .word :: ds, s =>
    let t := s.dropWhile isSpace
    let word := t.takeWhile fun c => !isSpace c
    if word = [] then none
    else (scanAll w ds (t.dropWhile fun c => !isSpace c)).map fun rest => (.word word :: rest.1, rest.2)
  | .hex :: ds, s =>
    match (scanHex w s).1 with
    | none => none
    | some n => (scanAll w ds (scanHex w s).2).map fun rest => (.num n :: rest.1, rest.2)

section Scans
variable {w : ℕ} {ds ds' : List Directive} {s t r : List Char} {values : List (Value w)} {c : Char}

theorem scanAll_lit_iff {q : List (Value w) × List Char} :
    scanAll w (.lit c :: ds) s = some q ↔ ∃ t, s = c :: t ∧ scanAll w ds t = some q := by
  cases s with
  | nil => simp [scanAll]
  | cons x s =>
    rw [scanAll]
    constructor
    · intro h
      split at h
      · rename_i hhead
        exact ⟨s, by rw [Option.some.inj hhead], h⟩
      · cases h
    · intro h
      obtain ⟨t, ht, hscan⟩ := h
      obtain ⟨rfl, rfl⟩ := List.cons.inj ht
      exact (if_pos rfl).trans hscan

theorem scan_of_scanAll (h : scanAll w ds s = some (values, r)) : scan w ds s = (values, r) := by
  induction ds generalizing s values with
  | nil => exact Option.some.inj h
  | cons d ds ih =>
    cases d with
    | lit c =>
      rw [scanAll] at h
      rw [scan]
      split at h
      · rename_i hhead
        rw [if_pos hhead, ih h]
      · cases h
    | space => exact ih h
    | word =>
      rw [scanAll] at h
      rw [scan]
      dsimp only at h ⊢
      split at h
      · cases h
      · rename_i hword
        obtain ⟨rest, hrest, hvalues⟩ := Option.map_eq_some_iff.mp h
        obtain ⟨rfl, rfl⟩ := Prod.mk.inj hvalues
        rw [if_neg hword, ih hrest]
    | hex =>
      rw [scanAll] at h
      rw [scan]
      dsimp only
      cases hn : (scanHex w s).1 with
      | none =>
        rw [hn] at h
        cases h
      | some n =>
        rw [hn] at h
        obtain ⟨rest, hrest, hvalues⟩ := Option.map_eq_some_iff.mp h
        obtain ⟨rfl, rfl⟩ := Prod.mk.inj hvalues
        rw [ih hrest]

theorem scanAll_append : scanAll w (ds ++ ds') s
    = (scanAll w ds s).bind fun front => (scanAll w ds' front.2).map fun rest => (front.1 ++ rest.1, rest.2) := by
  induction ds generalizing s with
  | nil => simp [scanAll]
  | cons d ds ih =>
    cases d with
    | lit c =>
      simp only [List.cons_append, scanAll]
      split
      · exact ih
      · rfl
    | space => simp only [List.cons_append, scanAll, ih]
    | word =>
      simp only [List.cons_append, scanAll]
      split
      · rfl
      · rw [ih, Option.map_bind, Option.bind_map]
        simp [Function.comp_def]
    | hex =>
      simp only [List.cons_append, scanAll]
      split
      · rfl
      · rw [ih, Option.map_bind, Option.bind_map]
        simp [Function.comp_def]

/-- The number of values. -/
def valueCount : List Directive → ℕ
  | [] => 0
  | .lit _ :: ds => valueCount ds
  | .space :: ds => valueCount ds
  | .word :: ds => valueCount ds + 1
  | .hex :: ds => valueCount ds + 1

theorem valueCount_append (ds ds' : List Directive) : valueCount (ds ++ ds') = valueCount ds + valueCount ds' := by
  induction ds with
  | nil => simp [valueCount]
  | cons d ds ih =>
    cases d with
    | lit c => exact ih
    | space => exact ih
    | word =>
      simp only [List.cons_append, valueCount, ih]
      omega
    | hex =>
      simp only [List.cons_append, valueCount, ih]
      omega

theorem length_scanAll (h : scanAll w ds s = some (values, r)) : values.length = valueCount ds := by
  induction ds generalizing s values with
  | nil =>
    cases h
    rfl
  | cons d ds ih =>
    cases d with
    | lit c =>
      rw [scanAll] at h
      split at h
      · exact ih h
      · cases h
    | space => exact ih h
    | word =>
      rw [scanAll] at h
      split at h
      · cases h
      · obtain ⟨rest, hrest, hvalues⟩ := Option.map_eq_some_iff.mp h
        obtain ⟨rfl, rfl⟩ := Prod.mk.inj hvalues
        rw [List.length_cons, ih hrest, valueCount]
    | hex =>
      rw [scanAll] at h
      split at h
      · cases h
      · obtain ⟨rest, hrest, hvalues⟩ := Option.map_eq_some_iff.mp h
        obtain ⟨rfl, rfl⟩ := Prod.mk.inj hvalues
        rw [List.length_cons, ih hrest, valueCount]

end Scans

/-! ## What follows a scanned text -/

section Appended
variable {w : ℕ} {ds : List Directive} {s t r : List Char} {values : List (Value w)} {c : Char}

theorem dropWhile_append_of_ne {p : Char → Bool} (h : s.dropWhile p ≠ []) :
    (s ++ t).dropWhile p = s.dropWhile p ++ t := by
  rw [List.dropWhile_append, if_neg (by simpa using h)]

theorem takeWhile_append_of_ne {p : Char → Bool} (h : s.dropWhile p ≠ []) :
    (s ++ t).takeWhile p = s.takeWhile p := by
  rw [List.takeWhile_append, if_neg]
  intro hlength
  have hall := congrArg List.length (List.takeWhile_append_dropWhile (p := p) (l := s))
  rw [List.length_append, hlength] at hall
  exact h (List.length_eq_zero_iff.mp (by omega))

theorem readDigits_append {b n : ℕ} (h : (readDigits b s n).2 ≠ []) :
    readDigits b (s ++ t) n = ((readDigits b s n).1, (readDigits b s n).2 ++ t) := by
  induction s generalizing n with
  | nil => exact absurd rfl h
  | cons c s ih =>
    rw [readDigits] at h
    rw [List.cons_append, readDigits, readDigits]
    split
    · rename_i d hd
      simp only [hd] at h
      split
      · rename_i hlt
        rw [if_pos hlt] at h
        exact ih h
      · rfl
    · rfl

theorem signOf_append (h : s ≠ []) : signOf (s ++ t) = ((signOf s).1, (signOf s).2 ++ t) := by
  cases s with
  | nil => exact absurd rfl h
  | cons c s =>
    rw [List.cons_append, signOf_cons, signOf_cons]
    split
    · rfl
    · split
      · rfl
      · rfl

theorem afterMark_append {x : Char} : afterMark (c :: x :: s ++ t) = afterMark (c :: x :: s) ++ t := by
  by_cases hzero : c = '0'
  · subst hzero
    simp only [List.cons_append, afterMark]
    split
    · rfl
    · rfl
  · simp [afterMark, hzero]

/-- A numeral that ends before its text does is the same in a longer text. -/
theorem scanHex_append (hsome : (scanHex w s).1.isSome = true) (hrest : (scanHex w s).2 ≠ []) :
    scanHex w (s ++ t) = ((scanHex w s).1, (scanHex w s).2 ++ t) := by
  have hspace : s.dropWhile isSpace ≠ [] := by
    intro hnil
    simp [scanHex, hnil, signOf, afterMark] at hsome
  unfold scanHex at hsome hrest ⊢
  rw [dropWhile_append_of_ne hspace, signOf_append hspace]
  generalize signOf (s.dropWhile isSpace) = signed at hsome hrest ⊢
  obtain ⟨neg, digits⟩ := signed
  dsimp only at hsome hrest ⊢
  split at hsome
  · rename_i hdigit
    rw [if_pos hdigit] at hrest
    dsimp only at hrest
    have hmark : afterMark (digits ++ t) = afterMark digits ++ t := by
      cases digits with
      | nil => cases hdigit
      | cons x digits =>
        cases digits with
        | nil =>
          -- a single character would be the last digit
          have halone : afterMark [x] = [x] := by simp [afterMark]
          rw [halone] at hrest hdigit
          have hless := length_readDigits_lt (by simpa using hdigit) [] 0
          exact absurd (List.length_eq_zero_iff.mp (Nat.lt_one_iff.mp hless)) hrest
        | cons y digits => exact afterMark_append
    have hhead : (afterMark digits ++ t).head?.any (isDigitOf 16) = true := by
      cases hmarked : afterMark digits with
      | nil =>
        rw [hmarked] at hdigit
        cases hdigit
      | cons x marked =>
        rw [hmarked] at hdigit
        exact hdigit
    rw [hmark, if_pos hhead, if_pos hdigit, readDigits_append hrest]
  · cases hsome

/-- A format whose last directive is a literal character needs a text. -/
theorem scanAll_lit_nil : scanAll w (ds ++ [.lit c]) [] = none := by
  induction ds with
  | nil => rfl
  | cons d ds ih =>
    cases d with
    | lit x => rfl
    | space => exact ih
    | word => rfl
    | hex => rfl

/-- It reads nothing behind that character. -/
theorem scanAll_lit_append (h : scanAll w (ds ++ [.lit c]) s = some (values, r)) :
    scanAll w (ds ++ [.lit c]) (s ++ t) = some (values, r ++ t) := by
  induction ds generalizing s values with
  | nil =>
    obtain ⟨s, rfl, hend⟩ := scanAll_lit_iff.mp h
    obtain ⟨rfl, rfl⟩ := Prod.mk.inj (Option.some.inj hend)
    exact scanAll_lit_iff.mpr ⟨_, rfl, rfl⟩
  | cons d ds ih =>
    cases d with
    | lit x =>
      obtain ⟨s, rfl, hrest⟩ := scanAll_lit_iff.mp h
      exact scanAll_lit_iff.mpr ⟨_, rfl, ih hrest⟩
    | space =>
      rw [List.cons_append, scanAll] at h ⊢
      have hspace : s.dropWhile isSpace ≠ [] := by
        intro hnil
        rw [hnil, scanAll_lit_nil] at h
        cases h
      rw [dropWhile_append_of_ne hspace]
      exact ih h
    | word =>
      simp only [List.cons_append, scanAll] at h ⊢
      split at h
      · cases h
      · rename_i hword
        obtain ⟨rest, hrest, hvalues⟩ := Option.map_eq_some_iff.mp h
        obtain ⟨rfl, rfl⟩ := Prod.mk.inj hvalues
        have hspace : s.dropWhile isSpace ≠ [] := by
          intro hnil
          simp [hnil] at hword
        have hends : (s.dropWhile isSpace).dropWhile (fun c => !isSpace c) ≠ [] := by
          intro hnil
          rw [hnil, scanAll_lit_nil] at hrest
          cases hrest
        rw [dropWhile_append_of_ne hspace, takeWhile_append_of_ne hends, dropWhile_append_of_ne hends, if_neg hword,
          ih hrest]
        rfl
    | hex =>
      rw [List.cons_append, scanAll] at h ⊢
      split at h
      · cases h
      · rename_i n hn
        obtain ⟨rest, hrest, hvalues⟩ := Option.map_eq_some_iff.mp h
        obtain ⟨rfl, rfl⟩ := Prod.mk.inj hvalues
        have hends : (scanHex w s).2 ≠ [] := by
          intro hnil
          rw [hnil, scanAll_lit_nil] at hrest
          cases hrest
        have hlonger := scanHex_append (t := t) (Option.isSome_of_mem hn) hends
        simp only [hlonger, hn, ih hrest, Option.map_some]

end Appended

end HtDrivers.Lib.Scanf
