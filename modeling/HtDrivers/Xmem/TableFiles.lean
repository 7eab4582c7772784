import HtDrivers.Lib.ScanAll
import HtDrivers.Lib.TextLines
import HtDrivers.Xmem.SegFile
import HtDrivers.Xmem.SendMessage

/-! The files of the segment table and of the node table against their grammar (`XmemReadSegTableFile`,
`XmemReadNodeTableFile`, `libxmem.c`): lines that are blank, comments or entries. The two readers are one loop over a
format that differs in the number of its numerals. -/
namespace HtDrivers.Xmem
open HtDrivers.Lib.Numerals HtDrivers.Lib.Scanf HtDrivers.Lib.TextLines
set_option autoImplicit false

/-! ## The reader -/

/-- What the two files differ in: the numerals behind the name, the room for the name and for the entries, the
assignments of a scan in the order of the format, and where the Id stands. -/
structure TableFile (D : Type) where
  hexes : ℕ
  nameSize : ℕ
  limit : ℕ
  empty : D
  setters : List (D → Value 32 → D)
  id : D → BitVec 32

structure FileTable (D : Type) where
  used : BitVec 32
  descriptors : ℕ → D

/-- As `SegFileError`. -/
inductive TableFileError
  | tableRead | tableSyntax | nameOverrun
deriving DecidableEq

def hexFields : ℕ → List Directive
  | 0 => []
  | n + 1 => [.space, .lit '0', .lit 'x', .hex] ++ hexFields n

/-- The format up to the closing brace. -/
def entryFront (hexes : ℕ) : List Directive := .lit '{' :: .space :: .word :: (hexFields hexes ++ [.space])

/-- `{ %s 0x%lx ... }`, with the white space that ends the line. -/
def entryFormat (hexes : ℕ) : List Directive := entryFront hexes ++ [.lit '}'] ++ [.space]

def nameOverruns (size : ℕ) : List (Value 32) → Bool
  | .word s :: _ => size ≤ s.length
  | _ => false

section Reader
variable {D : Type} (f : TableFile D)

def TableFile.assign (descriptor : D) (values : List (Value 32)) : D :=
  (f.setters.zip values).foldl (fun descriptor p => p.1 descriptor p.2) descriptor

/-- The loop that fills the table from position `i` on, as `readSegLoop`. -/
def readTableLoop : ℕ → FileTable D → ℕ → List Char → Option (Except TableFileError (FileTable D × ℕ))
  | 0, _, _, _ => none
  | fuel + 1, tab, i, text =>
    if f.limit ≤ i then some (.ok (tab, i))
    else
      let scanned := scan 32 (entryFormat f.hexes) text
      let descriptor := f.assign (tab.descriptors i) scanned.1
      let tab := { tab with descriptors := Function.update tab.descriptors i descriptor }
      if nameOverruns f.nameSize scanned.1 then some (.error .nameOverrun)
      else if scanned.1.length = f.hexes + 1 then
        readTableLoop fuel { tab with used := tab.used ||| f.id descriptor } (i + 1) scanned.2
      else match scanned.2 with
        | [] => some (.ok (tab, i))
        | c :: rest =>
          if c = '\n' then readTableLoop fuel tab i rest
          else if c = '#' then readTableLoop fuel tab i (skipComment rest)
          else if isSpace c then
            match skipBlank rest with
            | none => some (.error .tableSyntax)
            | some rest => readTableLoop fuel tab i rest
          else some (.error .tableSyntax)

/-- The table of these entries, in order. -/
def TableFile.tableOf (done : List D) : FileTable D :=
  ⟨(done.map f.id).foldl (· ||| ·) 0, fun j => done[j]?.getD f.empty⟩

/-- The loop on a whole file. -/
def tableRun (text : List Char) : Option (Except TableFileError (FileTable D × ℕ)) :=
  readTableLoop f (text.length + 1) (f.tableOf []) 0 text

/-- The table and the number of its entries; there is no text when the file cannot be opened. -/
def readTableFile (text : Option (List Char)) : Except TableFileError (FileTable D × ℕ) :=
  match text with
  | none => .error .tableRead
  | some text => (tableRun f text).getD (.error .tableSyntax)

end Reader

def segFile : TableFile XmemDrvrSegDesc := ⟨5, xmemDrvrSegNameSize, xmemDrvrSegments, emptySeg, segSetters, (·.id)⟩

structure XmemDrvrNodeDesc where
  name : List Char
  id : BitVec 32
deriving DecidableEq

def xmemDrvrNodeNameSize : ℕ := 32

def nodeSetters : List (XmemDrvrNodeDesc → Value 32 → XmemDrvrNodeDesc) :=
  let name (node : XmemDrvrNodeDesc) : Value 32 → XmemDrvrNodeDesc
    | .word s => { node with name := s.takeWhile fun c => c != '\x00' }
    | .num _ => node
  let id (node : XmemDrvrNodeDesc) : Value 32 → XmemDrvrNodeDesc
    | .num n => { node with id := n }
    | .word _ => node
  [name, id]

def nodeFile : TableFile XmemDrvrNodeDesc := ⟨1, xmemDrvrNodeNameSize, xmemDrvrNodes, ⟨[], 0⟩, nodeSetters, (·.id)⟩

def xmemReadNodeTableFile : Option (List Char) → Except TableFileError (FileTable XmemDrvrNodeDesc × ℕ) :=
  readTableFile nodeFile

def fileTable (tab : XmemDrvrSegTable) : FileTable XmemDrvrSegDesc := ⟨tab.used, tab.descriptors⟩

def fileError : SegFileError → TableFileError
  | .segTableRead => .tableRead
  | .segTableSyntax => .tableSyntax
  | .nameOverrun => .nameOverrun

/-- The result of the segment reader in the terms of both readers. -/
def fileResult : Except SegFileError (XmemDrvrSegTable × ℕ) → Except TableFileError (FileTable XmemDrvrSegDesc × ℕ)
  | .ok p => .ok (fileTable p.1, p.2)
  | .error e => .error (fileError e)

section Segments

theorem segFormat_eq : segFormat = entryFormat segFile.hexes := rfl

theorem longName_eq (values : List (Value 32)) : longName values = nameOverruns segFile.nameSize values := by
  cases values with
  | nil => rfl
  | cons value values =>
    cases value with
    | word s => rfl
    | num n => rfl

theorem readSegLoop_eq (fuel : ℕ) (tab : XmemDrvrSegTable) (i : ℕ) (text : List Char) :
    (readSegLoop fuel tab i text).map fileResult = readTableLoop segFile fuel (fileTable tab) i text := by
  induction fuel generalizing tab i text with
  | zero => rfl
  | succ fuel ih =>
    have hassign : segFile.assign ((fileTable tab).descriptors i) (scan 32 segFormat text).1 =
        assignSeg (tab.descriptors i) (scan 32 segFormat text).1 := rfl
    rw [readSegLoop, readTableLoop, ← segFormat_eq]
    by_cases hlimit : xmemDrvrSegments ≤ i
    · rw [if_pos hlimit]
      exact (if_pos hlimit).symm
    rw [if_neg hlimit]
    refine Eq.trans ?_ (if_neg hlimit).symm
    dsimp only
    rw [hassign, ← longName_eq]
    generalize scan 32 segFormat text = scanned
    split
    · rfl
    by_cases hfields : scanned.1.length = 6
    · rw [if_pos hfields, ih]
      exact (if_pos hfields).symm
    rw [if_neg hfields]
    refine Eq.trans ?_ (if_neg hfields).symm
    cases scanned.2 with
    | nil => rfl
    | cons c rest =>
      dsimp only
      split
      · exact ih _ _ _
      split
      · exact ih _ _ _
      split
      · cases skipBlank rest with
        | none => rfl
        | some rest => exact ih _ _ _
      · rfl

/-- The segment reader is the reader of both files with the values of its own. -/
theorem xmemReadSegTableFile_eq (text : Option (List Char)) :
    fileResult (xmemReadSegTableFile text) = readTableFile segFile text := by
  cases text with
  | none => rfl
  | some text =>
    have hrun : (readSegLoop (text.length + 1) ⟨0, fun _ => emptySeg⟩ 0 text).map fileResult = tableRun segFile text :=
      readSegLoop_eq (text.length + 1) ⟨0, fun _ => emptySeg⟩ 0 text
    rw [readTableFile, ← hrun, xmemReadSegTableFile]
    exact (Option.getD_map fileResult _ _).symm

end Segments

/-! ## Lines that are passed over -/

/-- White space only, or a comment. -/
def Passed (line : List Char) : Prop := line.all isSpace = true ∨ line.head? = some '#'

instance (line : List Char) : Decidable (Passed line) := inferInstanceAs (Decidable (_ ∨ _))

/-- What follows the first line, where the reader may pass over that line. -/
def passLine (text : List Char) : Option (List Char) := if Passed (firstLine text) then some (afterLine text) else none

section Pass
variable {c : Char} {s rest text : List Char}

theorem skipComment_eq (s : List Char) : skipComment s = afterLine s := by
  induction s with
  | nil => rfl
  | cons c s ih =>
    rw [skipComment]
    split
    · rename_i hc
      rw [hc, afterLine_newline]
    · rename_i hc
      rw [afterLine_cons s hc, ih]

theorem skipBlank_eq (s : List Char) :
    skipBlank s = if (firstLine s).all isSpace = true then some (afterLine s) else none := by
  induction s with
  | nil => rfl
  | cons c s ih =>
    rw [skipBlank]
    split
    · rename_i hc
      rw [hc, firstLine_newline, afterLine_newline]
      rfl
    · rename_i hc
      rw [firstLine_cons s hc, afterLine_cons s hc, List.all_cons]
      split
      · rename_i hspace
        rw [ih, hspace, Bool.true_and]
      · rename_i hspace
        rw [Bool.eq_false_iff.mpr hspace, Bool.false_and, if_neg Bool.false_ne_true]

/-- The characters on which the reader decides make up `passLine`. -/
theorem passLine_cons (c : Char) (s : List Char) : passLine (c :: s) =
    if c = '\n' then some s else if c = '#' then some (skipComment s) else if isSpace c = true then skipBlank s
    else none := by
  rw [passLine]
  by_cases hc : c = '\n'
  · rw [if_pos hc, hc]
    exact if_pos (.inl rfl)
  rw [if_neg hc, firstLine_cons s hc, afterLine_cons s hc]
  by_cases hcomment : c = '#'
  · rw [if_pos hcomment, skipComment_eq]
    exact if_pos (.inr (congrArg some hcomment))
  rw [if_neg hcomment]
  have hpassed : Passed (c :: firstLine s) ↔ isSpace c = true ∧ (firstLine s).all isSpace = true := by
    rw [Passed, List.all_cons, Bool.and_eq_true, List.head?_cons, Option.some_inj]
    simp only [hcomment, or_false]
  by_cases hspace : isSpace c = true
  · rw [if_pos hspace, skipBlank_eq]
    simp only [hpassed, hspace, true_and]
  · rw [if_neg hspace, if_neg (fun h => hspace (hpassed.mp h).1)]

end Pass

/-! ## The grammar -/

section Grammar
variable {D : Type} (f : TableFile D)

/-- The values of a line that the format reads whole. -/
def entryValues (line : List Char) : Option (List (Value 32)) :=
  match scanAll 32 (entryFormat f.hexes) line with
  | some (values, []) => some values
  | _ => none

def entryOf (line : List Char) : Option D := (entryValues f line).map (f.assign f.empty)

def LineOk (line : List Char) : Prop := Passed line ∨ (entryOf f line).isSome = true

/-- Every line is blank, a comment or one complete entry. -/
def WellFormed (text : List Char) : Prop := ∀ line ∈ linesOf text, LineOk f line

instance (line : List Char) : Decidable (LineOk f line) := inferInstanceAs (Decidable (_ ∨ _))

instance (text : List Char) : Decidable (WellFormed f text) := inferInstanceAs (Decidable (∀ line ∈ linesOf text, _))

def entries (text : List Char) : List D := (linesOf text).filterMap (entryOf f)

/-- The reader comes to a place, before `n` entries are there, at which the fields are not all found and what is left of
the line is neither white space nor a comment. -/
inductive Noticed : ℕ → List Char → Prop
  | here {n : ℕ} {text : List Char} (hfields : (scan 32 (entryFormat f.hexes) text).1.length ≠ f.hexes + 1)
      (hpass : passLine (scan 32 (entryFormat f.hexes) text).2 = none) : Noticed (n + 1) text
  | line {n : ℕ} {text rest : List Char} (hfields : (scan 32 (entryFormat f.hexes) text).1.length ≠ f.hexes + 1)
      (hpass : passLine (scan 32 (entryFormat f.hexes) text).2 = some rest) (h : Noticed (n + 1) rest) :
      Noticed (n + 1) text
  | entry {n : ℕ} {text : List Char} (hfields : (scan 32 (entryFormat f.hexes) text).1.length = f.hexes + 1)
      (h : Noticed n (scan 32 (entryFormat f.hexes) text).2) : Noticed (n + 1) text

/-- The loop ends, a file of the grammar is read with its entries in order, and any other is a syntax error. -/
structure ReadsByGrammar (text : List Char) (ends : Bool) (result : Except TableFileError (FileTable D × ℕ)) :
    Prop where
  ends : ends = true
  accepted : WellFormed f text → result = .ok (f.tableOf (entries f text), (entries f text).length)
  refused : ¬WellFormed f text → result = .error .tableSyntax

end Grammar

/-! ## One turn -/

section Turn
variable {D : Type} {f : TableFile D} {tab : FileTable D} {i n fuel : ℕ} {text rest : List Char}

/-- The table with the assignments of a scan at position `i`. -/
def TableFile.assigned (f : TableFile D) (tab : FileTable D) (i : ℕ) (values : List (Value 32)) : FileTable D :=
  { tab with descriptors := Function.update tab.descriptors i (f.assign (tab.descriptors i) values) }

theorem readTableLoop_full (hlimit : f.limit ≤ i) : readTableLoop f (fuel + 1) tab i text = some (.ok (tab, i)) := by
  rw [readTableLoop, if_pos hlimit]

/-- A turn that finds all fields, whether or not the closing brace follows them. -/
theorem readTableLoop_entry (hlimit : i < f.limit)
    (hnames : readTableLoop f (fuel + 1) tab i text ≠ some (.error .nameOverrun))
    (hfields : (scan 32 (entryFormat f.hexes) text).1.length = f.hexes + 1) :
    readTableLoop f (fuel + 1) tab i text = readTableLoop f fuel
      ⟨tab.used ||| f.id (f.assign (tab.descriptors i) (scan 32 (entryFormat f.hexes) text).1),
        (f.assigned tab i (scan 32 (entryFormat f.hexes) text).1).descriptors⟩ (i + 1)
      (scan 32 (entryFormat f.hexes) text).2 := by
  rw [readTableLoop, if_neg (Nat.not_le_of_lt hlimit)] at hnames ⊢
  dsimp only at hnames ⊢
  split at hnames
  · exact absurd rfl hnames
  · rename_i hfits
    rw [if_neg hfits, if_pos hfields]
    rfl

/-- A turn that does not. -/
theorem readTableLoop_line (hlimit : i < f.limit)
    (hnames : readTableLoop f (fuel + 1) tab i text ≠ some (.error .nameOverrun))
    (hfields : (scan 32 (entryFormat f.hexes) text).1.length ≠ f.hexes + 1) :
    readTableLoop f (fuel + 1) tab i text =
      if (scan 32 (entryFormat f.hexes) text).2 = [] then
        some (.ok (f.assigned tab i (scan 32 (entryFormat f.hexes) text).1, i))
      else (passLine (scan 32 (entryFormat f.hexes) text).2).elim (some (.error .tableSyntax))
        (readTableLoop f fuel (f.assigned tab i (scan 32 (entryFormat f.hexes) text).1) i) := by
  rw [readTableLoop, if_neg (Nat.not_le_of_lt hlimit)] at hnames ⊢
  dsimp only at hnames ⊢
  split at hnames
  · exact absurd rfl hnames
  · rename_i hfits
    rw [if_neg hfits, if_neg hfields]
    cases (scan 32 (entryFormat f.hexes) text).2 with
    | nil => rfl
    | cons c s =>
      rw [if_neg (List.cons_ne_nil c s), passLine_cons]
      dsimp only
      split
      · rfl
      split
      · rfl
      split
      · cases skipBlank s with
        | none => rfl
        | some rest => rfl
      · rfl

theorem length_passLine_lt (hne : text ≠ []) (h : passLine text = some rest) : rest.length < text.length := by
  rw [passLine] at h
  split at h
  · obtain rfl := Option.some.inj h
    obtain ⟨-, hafter⟩ | htext := newline_cases text
    · rw [hafter]
      exact List.length_pos_iff.mpr hne
    · have hlength := congrArg List.length htext
      rw [List.length_append, List.length_cons] at hlength
      omega
  · cases h

/-- A scan that assigns something consumes the opening brace. -/
theorem length_scan_entry (h : (scan 32 (entryFormat f.hexes) text).1.length = f.hexes + 1) :
    (scan 32 (entryFormat f.hexes) text).2.length < text.length := by
  apply length_scan_lt
  intro hnil
  change (scan 32 (entryFormat f.hexes) text).1 = [] at hnil
  rw [hnil] at h
  cases h

theorem noticed_zero : ¬Noticed f 0 text := by
  intro h
  cases h

theorem noticed_nil : ¬Noticed f n [] := by
  intro h
  generalize htext : ([] : List Char) = text at h
  induction h with
  | here hfields hpass =>
    subst htext
    cases hpass
  | line hfields hpass h ih =>
    subst htext
    exact ih (Option.some.inj hpass)
  | entry hfields h ih =>
    subst htext
    cases hfields

theorem noticed_entry (hfields : (scan 32 (entryFormat f.hexes) text).1.length = f.hexes + 1) :
    Noticed f (n + 1) text ↔ Noticed f n (scan 32 (entryFormat f.hexes) text).2 := by
  constructor
  · intro h
    cases h with
    | here hnot hpass => exact absurd hfields hnot
    | line hnot hpass h => exact absurd hfields hnot
    | entry hfields h => exact h
  · exact .entry hfields

theorem noticed_line (hfields : (scan 32 (entryFormat f.hexes) text).1.length ≠ f.hexes + 1)
    (hpass : passLine (scan 32 (entryFormat f.hexes) text).2 = some rest) :
    Noticed f (n + 1) text ↔ Noticed f (n + 1) rest := by
  constructor
  · intro h
    cases h with
    | here hnot hnone =>
      rw [hpass] at hnone
      cases hnone
    | line hnot hsome h =>
      rw [hpass] at hsome
      obtain rfl := Option.some.inj hsome
      exact h
    | entry hall h => exact absurd hall hfields
  · exact .line hfields hpass

/-! ## Whole files -/

/-- Every turn consumes a character. -/
theorem readTableLoop_isSome (hfuel : text.length < fuel) : (readTableLoop f fuel tab i text).isSome = true := by
  induction fuel generalizing tab i text with
  | zero => omega
  | succ fuel ih =>
    by_cases hnames : readTableLoop f (fuel + 1) tab i text = some (.error .nameOverrun)
    · rw [hnames]
      rfl
    obtain hfull | hlimit := (Nat.lt_or_ge i f.limit).symm
    · rw [readTableLoop_full hfull]
      rfl
    by_cases hfields : (scan 32 (entryFormat f.hexes) text).1.length = f.hexes + 1
    · have hless := length_scan_entry hfields
      rw [readTableLoop_entry hlimit hnames hfields]
      exact ih (by omega)
    · have hle := length_scan_le 32 (entryFormat f.hexes) text
      rw [readTableLoop_line hlimit hnames hfields]
      split
      · rfl
      · rename_i hne
        cases hpass : passLine (scan 32 (entryFormat f.hexes) text).2 with
        | none => rfl
        | some rest =>
          have hless := length_passLine_lt hne hpass
          exact ih (by omega)

/-- The reader reports a syntax error exactly at the places that it notices. -/
theorem readTableLoop_syntax_iff (hfuel : text.length < fuel)
    (hnames : readTableLoop f fuel tab i text ≠ some (.error .nameOverrun)) :
    readTableLoop f fuel tab i text = some (.error .tableSyntax) ↔ Noticed f (f.limit - i) text := by
  induction fuel generalizing tab i text with
  | zero => omega
  | succ fuel ih =>
    obtain hfull | hlimit := (Nat.lt_or_ge i f.limit).symm
    · rw [readTableLoop_full hfull, Nat.sub_eq_zero_of_le hfull]
      simp [noticed_zero]
    obtain ⟨n, hn⟩ : ∃ n, f.limit - i = n + 1 := ⟨f.limit - i - 1, by omega⟩
    rw [hn]
    by_cases hfields : (scan 32 (entryFormat f.hexes) text).1.length = f.hexes + 1
    · have hless := length_scan_entry hfields
      have hroom : f.limit - (i + 1) = n := by omega
      rw [noticed_entry hfields, ← hroom]
      have hturn := readTableLoop_entry hlimit hnames hfields
      rw [hturn] at hnames ⊢
      exact ih (by omega) hnames
    · have hle := length_scan_le 32 (entryFormat f.hexes) text
      have hturn := readTableLoop_line hlimit hnames hfields
      rw [hturn] at hnames ⊢
      split at hnames
      · rename_i hend
        have hpass : passLine (scan 32 (entryFormat f.hexes) text).2 = some [] := by
          rw [hend]
          rfl
        rw [noticed_line hfields hpass, if_pos hend]
        simp [noticed_nil]
      · rename_i hne
        rw [if_neg hne]
        cases hpass : passLine (scan 32 (entryFormat f.hexes) text).2 with
        | none => exact ⟨fun _ => .here hfields hpass, fun _ => rfl⟩
        | some rest =>
          have hless := length_passLine_lt hne hpass
          rw [hpass] at hnames
          rw [noticed_line hfields hpass, ← hn]
          exact ih (by omega) hnames

end Turn

/-! ## Files of the grammar -/

section WellFormed
variable {D : Type} {f : TableFile D} {fuel : ℕ} {line text : List Char} {values : List (Value 32)} {done : List D}

theorem scan_noBrace (h : text.head? ≠ some '{') : scan 32 (entryFormat f.hexes) text = ([], text) := if_neg h

theorem entryOf_noBrace (h : line.head? ≠ some '{') : entryOf f line = none := by
  have hscan : scanAll 32 (entryFormat f.hexes) line = none := if_neg h
  rw [entryOf, entryValues, hscan]
  rfl

theorem Passed.noBrace (h : Passed line) : line.head? ≠ some '{' := by
  intro hbrace
  cases line with
  | nil => cases hbrace
  | cons c s =>
    obtain rfl := Option.some.inj hbrace
    obtain hspace | hcomment := h
    · rw [List.all_cons, Bool.and_eq_true] at hspace
      exact absurd hspace.1 (by decide)
    · rw [List.head?_cons, Option.some_inj] at hcomment
      exact absurd hcomment (by decide)

theorem head_firstLine {c : Char} (hc : c ≠ '\n') (h : text.head? = some c) : (firstLine text).head? = some c := by
  cases text with
  | nil => cases h
  | cons x s =>
    obtain rfl := Option.some.inj h
    rw [firstLine_cons s hc]
    rfl

theorem wellFormed_nil : WellFormed f [] := by
  intro line hline
  obtain rfl : line = [] := by simpa [linesOf] using hline
  exact .inl (.inl rfl)

theorem entries_nil : entries f [] = [] := rfl

theorem wellFormed_iff : WellFormed f text ↔ LineOk f (firstLine text) ∧ WellFormed f (afterLine text) := by
  obtain ⟨hlines, hafter⟩ | hlines := linesOf_cases text
  · rw [hafter, WellFormed, hlines, List.forall_mem_singleton]
    exact (and_iff_left wellFormed_nil).symm
  · rw [WellFormed, hlines, List.forall_mem_cons]
    rfl

theorem entries_eq (text : List Char) : entries f text = (entryOf f (firstLine text)).toList ++
    entries f (afterLine text) := by
  obtain ⟨hlines, hafter⟩ | hlines := linesOf_cases text
  · rw [hafter, entries_nil, entries, hlines]
    cases hentry : entryOf f (firstLine text) with
    | none => simp [hentry]
    | some e => simp [hentry]
  · rw [entries, hlines, List.filterMap_cons]
    cases entryOf f (firstLine text) with
    | none => rfl
    | some e => rfl

theorem valueCount_entryFormat (hexes : ℕ) : valueCount (entryFormat hexes) = hexes + 1 := by
  have hfields : ∀ n, valueCount (hexFields n) = n := by
    intro n
    induction n with
    | zero => rfl
    | succ n ih => exact congrArg (· + 1) ih
  simp [entryFormat, entryFront, valueCount_append, valueCount, hfields]

theorem entryValues_eq_some (h : entryValues f line = some values) :
    scanAll 32 (entryFormat f.hexes) line = some (values, []) := by
  rw [entryValues] at h
  split at h
  · rename_i hscan
    rw [hscan, Option.some.inj h]
  · cases h

theorem length_entryValues (h : entryValues f line = some values) : values.length = f.hexes + 1 := by
  rw [length_scanAll (entryValues_eq_some h), valueCount_entryFormat]

/-- An entry is read with its line, and with the white space that follows it. -/
theorem scan_entryLine (h : entryValues f (firstLine text) = some values) :
    scan 32 (entryFormat f.hexes) text = (values, (afterLine text).dropWhile isSpace) := by
  have hline := entryValues_eq_some h
  rw [entryFormat, scanAll_append] at hline
  obtain ⟨front, hfront, hspace⟩ := Option.bind_eq_some_iff.mp hline
  obtain ⟨back, hback, hvalues⟩ := Option.map_eq_some_iff.mp hspace
  obtain rfl := Option.some.inj hback
  obtain ⟨hfrontValues, hblank⟩ := Prod.mk.inj hvalues
  rw [List.append_nil] at hfrontValues
  obtain ⟨values', blanks⟩ := front
  obtain rfl := hfrontValues
  have hall : ∀ c ∈ blanks, isSpace c = true := List.dropWhile_eq_nil_iff.mp hblank
  apply scan_of_scanAll
  obtain ⟨htext, hafter⟩ | htext := newline_cases text
  · rw [hafter, htext, entryFormat, scanAll_append, hfront]
    simpa [scanAll] using hall
  · conv_lhs => rw [htext]
    rw [entryFormat, scanAll_append, scanAll_lit_append hfront]
    have hdrop : (blanks ++ '\n' :: afterLine text).dropWhile isSpace = (afterLine text).dropWhile isSpace :=
      (List.dropWhile_append_of_pos hall).trans rfl
    simp [scanAll, hdrop]

/-- White space before a well-formed text is made of blank lines. -/
theorem WellFormed.dropWhile (h : WellFormed f text) :
    WellFormed f (text.dropWhile isSpace) ∧ entries f (text.dropWhile isSpace) = entries f text := by
  induction text with
  | nil => exact ⟨h, rfl⟩
  | cons c s ih =>
    rw [List.dropWhile_cons]
    split
    · rename_i hspace
      have hbrace : c ≠ '{' := by
        rintro rfl
        exact absurd hspace (by decide)
      obtain ⟨hline, hafter⟩ := wellFormed_iff.mp h
      have hnone : entryOf f (firstLine (c :: s)) = none := by
        apply entryOf_noBrace
        intro hhead
        by_cases hc : c = '\n'
        · subst hc
          cases hhead
        · rw [firstLine_cons s hc, List.head?_cons, Option.some_inj] at hhead
          exact hbrace hhead
      have hpassed : Passed (firstLine (c :: s)) := hline.resolve_right (by simp [hnone])
      by_cases hc : c = '\n'
      · subst hc
        rw [entries_eq ('\n' :: s), hnone]
        exact ih hafter
      · rw [entries_eq (c :: s), hnone, afterLine_cons s hc]
        rw [firstLine_cons s hc] at hpassed
        rw [afterLine_cons s hc] at hafter
        have hrest : Passed (firstLine s) := by
          obtain hblank | hcomment := hpassed
          · rw [List.all_cons, Bool.and_eq_true] at hblank
            exact .inl hblank.2
          · rw [List.head?_cons, Option.some_inj] at hcomment
            rw [hcomment] at hspace
            exact absurd hspace (by decide)
        have hs : WellFormed f s := wellFormed_iff.mpr ⟨.inl hrest, hafter⟩
        have hentries : entries f s = entries f (afterLine s) := by
          rw [entries_eq s, entryOf_noBrace hrest.noBrace]
          rfl
        rw [← hentries]
        exact ih hs
    · exact ⟨h, rfl⟩

theorem assigned_nil (tab : FileTable D) (i : ℕ) : f.assigned tab i [] = tab := by
  have hassign : f.assign (tab.descriptors i) [] = tab.descriptors i := by simp [TableFile.assign]
  rw [TableFile.assigned, hassign, Function.update_eq_self]

theorem tableOf_append : (⟨(f.tableOf done).used ||| f.id (f.assign ((f.tableOf done).descriptors done.length) values),
      (f.assigned (f.tableOf done) done.length values).descriptors⟩ : FileTable D)
    = f.tableOf (done ++ [f.assign f.empty values]) := by
  have hempty : (f.tableOf done).descriptors done.length = f.empty := by simp [TableFile.tableOf]
  rw [TableFile.assigned, hempty, TableFile.tableOf, TableFile.tableOf, FileTable.mk.injEq]
  constructor
  · simp
  · funext j
    dsimp only
    by_cases hj : j = done.length
    · subst hj
      simp
    · rw [Function.update_of_ne hj]
      obtain hlt | hgt := Nat.lt_or_gt_of_ne hj
      · rw [List.getElem?_append_left hlt]
      · rw [List.getElem?_eq_none (by omega), List.getElem?_eq_none (by simp; omega)]

/-- Behind the entries that are there, a file of the grammar adds its own. -/
theorem readTableLoop_wellFormed (hwf : WellFormed f text) (hroom : done.length + (entries f text).length ≤ f.limit)
    (hfuel : text.length < fuel)
    (hnames : readTableLoop f fuel (f.tableOf done) done.length text ≠ some (.error .nameOverrun)) :
    readTableLoop f fuel (f.tableOf done) done.length text =
      some (.ok (f.tableOf (done ++ entries f text), (done ++ entries f text).length)) := by
  induction fuel generalizing done text with
  | zero => omega
  | succ fuel ih =>
    obtain hfull | hlimit := (Nat.lt_or_ge done.length f.limit).symm
    · have hnone : entries f text = [] := List.length_eq_zero_iff.mp (by omega)
      rw [readTableLoop_full hfull, hnone, List.append_nil]
    obtain ⟨hline, hafter⟩ := wellFormed_iff.mp hwf
    have hentries := entries_eq (f := f) text
    obtain hpassed | hentry := hline
    · -- the scan fails at the first character, which is not a brace
      have hscan : scan 32 (entryFormat f.hexes) text = ([], text) :=
        scan_noBrace fun hhead => hpassed.noBrace (head_firstLine (by decide) hhead)
      have hfields : (scan 32 (entryFormat f.hexes) text).1.length ≠ f.hexes + 1 := by
        rw [hscan]
        exact (Nat.succ_ne_zero f.hexes).symm
      have hturn := readTableLoop_line hlimit hnames hfields
      rw [hscan, assigned_nil] at hturn
      dsimp only at hturn
      rw [hturn] at hnames ⊢
      split at hnames
      · rename_i hend
        rw [if_pos hend, hend, entries_nil, List.append_nil]
      · rename_i hne
        have hpass : passLine text = some (afterLine text) := if_pos hpassed
        have hless := length_passLine_lt hne hpass
        rw [entryOf_noBrace hpassed.noBrace, Option.toList_none, List.nil_append] at hentries
        rw [hpass] at hnames
        rw [if_neg hne, hpass, hentries]
        rw [hentries] at hroom
        exact ih hafter hroom (by omega) hnames
    · obtain ⟨e, he⟩ := Option.isSome_iff_exists.mp hentry
      obtain ⟨values, hvalues, rfl⟩ := Option.map_eq_some_iff.mp he
      have hscan := scan_entryLine hvalues
      have hfields : (scan 32 (entryFormat f.hexes) text).1.length = f.hexes + 1 := by
        rw [hscan]
        exact length_entryValues hvalues
      have hless := length_scan_entry hfields
      have hturn := readTableLoop_entry hlimit hnames hfields
      rw [hscan] at hturn hless
      dsimp only at hturn hless
      rw [tableOf_append] at hturn
      rw [hturn] at hnames ⊢
      obtain ⟨hrest, hsame⟩ := hafter.dropWhile
      rw [he, Option.toList_some, List.singleton_append, ← hsame] at hentries
      have hlength : (done ++ [f.assign f.empty values]).length = done.length + 1 := by simp
      have hdone : done ++ entries f text =
          done ++ [f.assign f.empty values] ++ entries f ((afterLine text).dropWhile isSpace) := by
        rw [hentries]
        exact List.append_cons ..
      rw [hdone]
      rw [hentries, List.length_cons] at hroom
      rw [← hlength] at hnames ⊢
      exact ih hrest (by omega) (by omega) hnames

end WellFormed

/-! ## The grammar of the files -/

section Files
variable {D : Type} {f : TableFile D} {text : List Char}

/-- A file is read by its grammar exactly when it is of the grammar or the reader notices that it is not. -/
theorem readsByGrammar_iff (hnames : readTableFile f (some text) ≠ .error .nameOverrun)
    (hroom : (entries f text).length ≤ f.limit) :
    ReadsByGrammar f text (tableRun f text).isSome (readTableFile f (some text)) ↔
      WellFormed f text ∨ Noticed f f.limit text := by
  have hfuel : text.length < text.length + 1 := Nat.lt_succ_self _
  have hends : (tableRun f text).isSome = true := readTableLoop_isSome hfuel
  obtain ⟨result, hresult⟩ := Option.isSome_iff_exists.mp hends
  have hread : readTableFile f (some text) = result := by
    rw [readTableFile, hresult]
    rfl
  have hfits : tableRun f text ≠ some (.error .nameOverrun) := by
    rw [hread] at hnames
    rw [hresult]
    exact fun h => hnames (Option.some.inj h)
  have hnotices : readTableFile f (some text) = .error .tableSyntax ↔ Noticed f f.limit text := by
    rw [hread, ← Option.some_inj, ← hresult]
    exact readTableLoop_syntax_iff hfuel hfits
  constructor
  · intro h
    by_cases hwf : WellFormed f text
    · exact .inl hwf
    · exact .inr (hnotices.mp (h.refused hwf))
  · intro h
    refine ⟨hends, fun hwf => ?_, fun hnot => hnotices.mpr (h.resolve_left hnot)⟩
    have hloop : tableRun f text = some (.ok (f.tableOf ([] ++ entries f text), ([] ++ entries f text).length)) :=
      readTableLoop_wellFormed hwf (by simpa using hroom) hfuel hfits
    rw [readTableFile, hloop]
    rfl

/-- In files whose names fit and that have no more entries than the table, both readers keep to the grammar exactly when
the file does or when they notice that it does not. -/
theorem tableFiles_iff :
    (fileResult (xmemReadSegTableFile (some text)) ≠ .error .nameOverrun →
      (entries segFile text).length ≤ xmemDrvrSegments →
        (ReadsByGrammar segFile text (readSegLoop (text.length + 1) ⟨0, fun _ => emptySeg⟩ 0 text).isSome
            (fileResult (xmemReadSegTableFile (some text))) ↔
          WellFormed segFile text ∨ Noticed segFile xmemDrvrSegments text)) ∧
      (xmemReadNodeTableFile (some text) ≠ .error .nameOverrun →
        (entries nodeFile text).length ≤ xmemDrvrNodes →
          (ReadsByGrammar nodeFile text (tableRun nodeFile text).isSome (xmemReadNodeTableFile (some text)) ↔
            WellFormed nodeFile text ∨ Noticed nodeFile xmemDrvrNodes text)) := by
  have hrun : (readSegLoop (text.length + 1) ⟨0, fun _ => emptySeg⟩ 0 text).map fileResult = tableRun segFile text :=
    readSegLoop_eq (text.length + 1) ⟨0, fun _ => emptySeg⟩ 0 text
  have hends : (readSegLoop (text.length + 1) ⟨0, fun _ => emptySeg⟩ 0 text).isSome =
    (tableRun segFile text).isSome := by
    rw [← hrun, Option.isSome_map]
  refine ⟨?_, readsByGrammar_iff⟩
  rw [hends, xmemReadSegTableFile_eq]
  exact readsByGrammar_iff

def goodSegText : List Char := "# tables\n \n\x7b A 0x1 0x10 0x100 0x1 0x0 \x7d\n".toList

/-- The last entry is not ended by a newline. -/
def goodNodeText : List Char := "# nodes\n\x7b A 0x1 \x7d\n \n\x7bB 0x2\x7d".toList

theorem tableFiles_good :
    ReadsByGrammar segFile goodSegText
    (readSegLoop (goodSegText.length + 1) ⟨0, fun _ => emptySeg⟩ 0 goodSegText).isSome
        (fileResult (xmemReadSegTableFile (some goodSegText))) ∧
      ReadsByGrammar nodeFile goodNodeText (tableRun nodeFile goodNodeText).isSome
        (xmemReadNodeTableFile (some goodNodeText)) := by
  have hseg : WellFormed segFile goodSegText := by decide
  have hnode : WellFormed nodeFile goodNodeText := by decide
  exact ⟨(tableFiles_iff.1 (by rintro ⟨⟩) (by decide)).mpr (.inl hseg),
    (tableFiles_iff.2 (by rintro ⟨⟩) (by decide)).mpr (.inl hnode)⟩

/-- The first line has no closing brace, and the second one ends within its entry. -/
def cutSegText : List Char := "\x7b A 0x1 0x10 0x100 0x1 0x0\n\x7b B 0x2\n".toList

/-- The first line is taken for an entry, and the second one for the end of the file. -/
theorem not_readsByGrammar_cut :
    fileResult (xmemReadSegTableFile (some cutSegText)) ≠ .error .nameOverrun ∧
      (entries segFile cutSegText).length ≤ xmemDrvrSegments ∧ ¬WellFormed segFile cutSegText ∧
      (∃ tab, xmemReadSegTableFile (some cutSegText) = .ok (tab, 1) ∧ (tab.descriptors 0).name = ['A']) ∧
      ¬ReadsByGrammar segFile cutSegText
      (readSegLoop (cutSegText.length + 1) ⟨0, fun _ => emptySeg⟩ 0 cutSegText).isSome
        (fileResult (xmemReadSegTableFile (some cutSegText))) := by
  have hwf : ¬WellFormed segFile cutSegText := by decide
  refine ⟨by rintro ⟨⟩, by decide, hwf, ⟨_, rfl, rfl⟩, ?_⟩
  intro h
  cases h.refused hwf

end Files

end HtDrivers.Xmem
