import HtDrivers.Lib.Scanf
import HtDrivers.Xmem.SegTable

/-! The file of the segment table (`XmemReadSegTableFile`, `libxmem.c`), and the tables that are read from it. -/
namespace HtDrivers.Xmem
open HtDrivers.Lib.Numerals HtDrivers.Lib.Scanf
set_option autoImplicit false

/-! ## Reading -/

def xmemDrvrSegNameSize : ℕ := 16

/-- `{ %s 0x%lx 0x%lx 0x%x 0x%lx 0x%lx }`, with the white space that ends the line. -/
def segFormat : List Directive :=
  let hex := [Directive.space, .lit '0', .lit 'x', .hex]
  [.lit '{', .space, .word] ++ hex ++ hex ++ hex ++ hex ++ hex ++ [.space, .lit '}', .space]

/-- The assignments of a scan, in the order of the format. A name ends at its first null character. -/
def segSetters : List (XmemDrvrSegDesc → Value 32 → XmemDrvrSegDesc) :=
  let num (set : XmemDrvrSegDesc → BitVec 32 → XmemDrvrSegDesc) (segment : XmemDrvrSegDesc) : Value 32 → XmemDrvrSegDesc
    | .num n => set segment n
    | .word _ => segment
  let name (segment : XmemDrvrSegDesc) : Value 32 → XmemDrvrSegDesc
    | .word s => { segment with name := s.takeWhile fun c => c != '\x00' }
    | .num _ => segment
  [name, num fun segment n => { segment with id := n }, num fun segment n => { segment with size := n },
    num fun segment n => { segment with address := n }, num fun segment n => { segment with nodes := n },
    num fun segment n => { segment with user := n }]

def assignSeg (segment : XmemDrvrSegDesc) (values : List (Value 32)) : XmemDrvrSegDesc :=
  (segSetters.zip values).foldl (fun segment p => p.1 segment p.2) segment

/-- The name does not fit into its array. -/
def longName : List (Value 32) → Bool
  | .word s :: _ => xmemDrvrSegNameSize ≤ s.length
  | _ => false

/-- The characters behind the end of the line. -/
def skipComment : List Char → List Char
  | [] => []
  | c :: s => if c = '\n' then s else skipComment s

/-- The same for a line that may only have white space. -/
def skipBlank : List Char → Option (List Char)
  | [] => some []
  | c :: s => if c = '\n' then some s else if isSpace c then skipBlank s else none

/-- A name that overruns its array writes over the fields behind it; what then happens is not defined. -/
inductive SegFileError
  | segTableRead | segTableSyntax | nameOverrun
deriving DecidableEq

/-- The loop that fills the table from position `i` on, with the number of entries that it reads; none when it runs out
of fuel. -/
def readSegLoop : ℕ → XmemDrvrSegTable → ℕ → List Char → Option (Except SegFileError (XmemDrvrSegTable × ℕ))
  | 0, _, _, _ => none
  | fuel + 1, tab, i, text =>
    if xmemDrvrSegments ≤ i then some (.ok (tab, i))
    else
      let scanned := scan 32 segFormat text
      let segment := assignSeg (tab.descriptors i) scanned.1
      let tab := { tab with descriptors := Function.update tab.descriptors i segment }
      if longName scanned.1 then some (.error .nameOverrun)
      else if scanned.1.length = 6 then readSegLoop fuel { tab with used := tab.used ||| segment.id } (i + 1) scanned.2
      else match scanned.2 with
        | [] => some (.ok (tab, i))
        | c :: rest =>
          if c = '\n' then readSegLoop fuel tab i rest
          else if c = '#' then readSegLoop fuel tab i (skipComment rest)
          else if isSpace c then
            match skipBlank rest with
            | none => some (.error .segTableSyntax)
            | some rest => readSegLoop fuel tab i rest
          else some (.error .segTableSyntax)

def emptySeg : XmemDrvrSegDesc := ⟨[], 0, 0, 0, 0, 0⟩

/-- The table and the number of its entries; there is no text when the file cannot be opened. -/
def xmemReadSegTableFile (text : Option (List Char)) : Except SegFileError (XmemDrvrSegTable × ℕ) :=
  match text with
  | none => .error .segTableRead
  | some text => (readSegLoop (text.length + 1) ⟨0, fun _ => emptySeg⟩ 0 text).getD (.error .segTableSyntax)

/-! ## What is read -/

section Read
variable {tab tab' : XmemDrvrSegTable} {i n fuel : ℕ} {text : List Char}

theorem length_skipComment_le (s : List Char) : (skipComment s).length ≤ s.length := by
  induction s with
  | nil => exact Nat.le_refl _
  | cons c s ih =>
    rw [skipComment]
    split
    · simp
    · simp only [List.length_cons]
      omega

theorem length_skipBlank_le {s rest : List Char} (h : skipBlank s = some rest) : rest.length ≤ s.length := by
  induction s with
  | nil =>
    obtain rfl := Option.some.inj h
    exact Nat.le_refl _
  | cons c s ih =>
    rw [skipBlank] at h
    split at h
    · obtain rfl := Option.some.inj h
      simp
    · split at h
      · have hle := ih h
        simp only [List.length_cons]
        omega
      · cases h

theorem length_scan_segFormat {text : List Char} (h : (scan 32 segFormat text).1.length = 6) :
    (scan 32 segFormat text).2.length < text.length := by
  refine length_scan_lt fun hnil => ?_
  change (scan 32 segFormat text).1 = [] at hnil
  rw [hnil] at h
  cases h

theorem readSegLoop_isSome (hfuel : text.length < fuel) : (readSegLoop fuel tab i text).isSome = true := by
  induction fuel generalizing tab i text with
  | zero => omega
  | succ fuel ih =>
    have hscan := length_scan_le 32 segFormat text
    rw [readSegLoop]
    split
    · rfl
    dsimp only
    split
    · rfl
    split
    · rename_i hsix
      have hless := length_scan_segFormat hsix
      exact ih (by omega)
    · cases hrest : (scan 32 segFormat text).2 with
      | nil => rfl
      | cons c rest =>
        rw [hrest, List.length_cons] at hscan
        have hcomment := length_skipComment_le rest
        dsimp only
        split
        · exact ih (by omega)
        split
        · exact ih (by omega)
        split
        · cases hblank : skipBlank rest with
          | none => rfl
          | some rest' =>
            have hle := length_skipBlank_le hblank
            exact ih (by omega)
        · rfl

/-- The used bits are those of the Ids of the first `i` descriptors; the one behind them may hold the fields of a line
that was not complete, and the others are empty. -/
structure ReadUpTo (tab : XmemDrvrSegTable) (i : ℕ) : Prop where
  le : i ≤ 32
  used : ∀ b, tab.used.getLsbD b = true ↔ ∃ j < i, (tab.descriptors j).id.getLsbD b = true
  rest : ∀ j, i < j → tab.descriptors j = emptySeg

theorem ReadUpTo.assign (h : ReadUpTo tab i) (segment : XmemDrvrSegDesc) :
    ReadUpTo { tab with descriptors := Function.update tab.descriptors i segment } i := by
  refine ⟨h.le, fun b => ?_, fun j hj => ?_⟩
  · show tab.used.getLsbD b = true ↔ ∃ j < i, (Function.update tab.descriptors i segment j).id.getLsbD b = true
    rw [h.used b]
    refine exists_congr fun j => and_congr_right fun hj => ?_
    rw [Function.update_of_ne (by omega)]
  · show Function.update tab.descriptors i segment j = emptySeg
    rw [Function.update_of_ne (by omega)]
    exact h.rest j hj

theorem ReadUpTo.advance (h : ReadUpTo tab i) (hi : i < 32) :
    ReadUpTo { tab with used := tab.used ||| (tab.descriptors i).id } (i + 1) := by
  refine ⟨hi, fun b => ?_, fun j hj => h.rest j (by omega)⟩
  show (tab.used ||| (tab.descriptors i).id).getLsbD b = true ↔ ∃ j < i + 1, (tab.descriptors j).id.getLsbD b = true
  rw [BitVec.getLsbD_or, Bool.or_eq_true, h.used b]
  constructor
  · intro hset
    obtain ⟨j, hj, hbit⟩ | hbit := hset
    · exact ⟨j, by omega, hbit⟩
    · exact ⟨i, Nat.lt_succ_self i, hbit⟩
  · intro hset
    obtain ⟨j, hj, hbit⟩ := hset
    obtain hlt | rfl := Nat.lt_succ_iff_lt_or_eq.mp hj
    · exact .inl ⟨j, hlt, hbit⟩
    · exact .inr hbit

theorem ReadUpTo.loop (h : ReadUpTo tab i) (hread : readSegLoop fuel tab i text = some (.ok (tab', n))) :
    ReadUpTo tab' n := by
  induction fuel generalizing tab i text with
  | zero => cases hread
  | succ fuel ih =>
    rw [readSegLoop] at hread
    split at hread
    · obtain ⟨rfl, rfl⟩ := Prod.mk.inj (Except.ok.inj (Option.some.inj hread))
      exact h
    rename_i hi
    have hassign := h.assign (assignSeg (tab.descriptors i) (scan 32 segFormat text).1)
    dsimp only at hread
    split at hread
    · cases hread
    split at hread
    · have hnext := hassign.advance (Nat.lt_of_not_le hi)
      simp only [Function.update_self] at hnext
      exact ih hnext hread
    · generalize (scan 32 segFormat text).2 = rest at hread
      cases rest with
      | nil =>
        obtain ⟨rfl, rfl⟩ := Prod.mk.inj (Except.ok.inj (Option.some.inj hread))
        exact hassign
      | cons c rest =>
        dsimp only at hread
        split at hread
        · exact ih hassign hread
        split at hread
        · exact ih hassign hread
        split at hread
        · cases hblank : skipBlank rest with
          | none =>
            rw [hblank] at hread
            cases hread
          | some rest' =>
            rw [hblank] at hread
            exact ih hassign hread
        · cases hread

theorem readUpTo_file {file : Option (List Char)} (h : xmemReadSegTableFile file = .ok (tab, n)) : ReadUpTo tab n := by
  cases file with
  | none => cases h
  | some text =>
    have hstart : ReadUpTo ⟨0, fun _ => emptySeg⟩ 0 := ⟨Nat.zero_le _, fun b => by simp, fun _ _ => rfl⟩
    have hfuel : (readSegLoop (text.length + 1) ⟨0, fun _ => emptySeg⟩ 0 text).isSome = true :=
      readSegLoop_isSome (Nat.lt_succ_self text.length)
    obtain ⟨result, hread⟩ := Option.isSome_iff_exists.mp hfuel
    simp only [xmemReadSegTableFile, hread, Option.getD_some] at h
    rw [h] at hread
    exact hstart.loop hread

/-! ## The entries of a file -/

/-- In a table that was read with Ids of one bit and with names and Ids that differ, every entry is found by its name
and by its Id, in the library and in the driver, if the Ids stand in the order of the bits, without gaps; and only then,
unless an incomplete last line left an Id behind the entries. -/
theorem segFile_found_iff {file : Option (List Char)} (h : xmemReadSegTableFile file = .ok (tab, n))
    (hsingle : ∀ i < n, ∃ b < 32, (tab.descriptors i).id = BitVec.twoPow 32 b)
    (hids : ∀ i < n, ∀ j < n, (tab.descriptors i).id = (tab.descriptors j).id → i = j)
    (hnames : ∀ i < n, ∀ j < n, (tab.descriptors i).name = (tab.descriptors j).name → i = j) :
    (InBitOrder tab n → FoundById tab n) ∧
      ((tab.descriptors n).id = 0 → (FoundById tab n ↔ InBitOrder tab n)) := by
  have hread := readUpTo_file h
  have hfilled : Filled tab n := ⟨hread.le, hread.used, hsingle, hids, hnames⟩
  refine ⟨fun horder => horder.foundById hfilled, fun hend =>
    ⟨fun hfound => hfound.inBitOrder hfilled fun j hj => ?_, fun horder => horder.foundById hfilled⟩⟩
  obtain hlt | rfl := Nat.lt_or_eq_of_le hj
  · rw [hread.rest j hlt]
    rfl
  · exact hend

def twoTablesText (first second : Char) : List Char :=
  "\x7b A 0x".toList ++ [first] ++ " 0x10 0x100 0x1 0x0 \x7d\n\x7b B 0x".toList ++ [second] ++
    " 0x20 0x200 0x1 0x0 \x7d\n".toList

/-- The table of this text; the entry behind the last one was assigned nothing. -/
def twoTables (first second : BitVec 32) : XmemDrvrSegTable :=
  ⟨first ||| second, Function.update
    (Function.update (Function.update (fun _ => emptySeg) 0 ⟨['A'], first, 16, 256, 1, 0⟩)
    1 ⟨['B'], second, 32, 512, 1, 0⟩) 2 emptySeg⟩

theorem below_two {P : ℕ → Prop} (hzero : P 0) (hone : P 1) : ∀ i < 2, P i := by
  intro i hi
  obtain rfl | rfl : i = 0 ∨ i = 1 := by omega
  · exact hzero
  · exact hone

theorem twoTables_order : InBitOrder (twoTables 1 2) 2 := by
  refine ⟨below_two ⟨0, by decide⟩ ⟨1, by decide⟩, below_two (fun b hb hid => ?_) fun b hb hid => ?_⟩
  · have hbit : (BitVec.twoPow 32 b).getLsbD 0 = true := by
      rw [← hid]
      decide
    obtain rfl := (twoPow_bit hb).mp hbit
    exact ⟨rfl, rfl, rfl⟩
  · have hbit : (BitVec.twoPow 32 b).getLsbD 1 = true := by
      rw [← hid]
      decide
    obtain rfl := (twoPow_bit hb).mp hbit
    exact ⟨rfl, rfl, rfl⟩

theorem segFile_found_ordered : FoundById (twoTables 1 2) 2 := by
  have hread : xmemReadSegTableFile (some (twoTablesText '1' '2')) = .ok (twoTables 1 2, 2) := rfl
  exact (segFile_found_iff hread (below_two ⟨0, by decide⟩ ⟨1, by decide⟩)
    (below_two (below_two (by decide) (by decide)) (below_two (by decide) (by decide)))
    (below_two (below_two (by decide) (by decide)) (below_two (by decide) (by decide)))).1 twoTables_order

/-- With the two Ids in the other order the library finds both tables, but the driver uses the segment of one for the
other. -/
theorem not_segFile_found_swapped :
    xmemReadSegTableFile (some (twoTablesText '2' '1')) = .ok (twoTables 2 1, 2) ∧
      (∀ i < 2, ∃ b < 32, ((twoTables 2 1).descriptors i).id = BitVec.twoPow 32 b) ∧
      (∀ i < 2, ∀ j < 2, ((twoTables 2 1).descriptors i).id = ((twoTables 2 1).descriptors j).id → i = j) ∧
      (∀ i < 2, ∀ j < 2, ((twoTables 2 1).descriptors i).name = ((twoTables 2 1).descriptors j).name → i = j) ∧
      ¬FoundById (twoTables 2 1) 2 := by
  refine ⟨rfl, below_two ⟨1, by decide⟩ ⟨0, by decide⟩,
    below_two (below_two (by decide) (by decide)) (below_two (by decide) (by decide)),
    below_two (below_two (by decide) (by decide)) (below_two (by decide) (by decide)), fun hfound => ?_⟩
  obtain ⟨segment, hsegment, hsame⟩ := hfound.driver 0 (by decide)
  have hused : segmentOf (twoTables 2 1) 2 = some ((twoTables 2 1).descriptors 1) := rfl
  obtain rfl := Option.some.inj (hused.symm.trans hsegment)
  exact absurd hsame.1 (by decide)

end Read

end HtDrivers.Xmem
