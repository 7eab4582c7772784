import HtDrivers.Mttn.AsmRun
import HtDrivers.Mttn.Registers

/-! Printing a program as source text, and how the assembler chops up the lines. Names and numbers are printed with the
formats of the source, into buffers of the lengths that it gives them. -/
namespace HtDrivers.Mttn
open HtDrivers.Lib.Numerals
set_option autoImplicit false

/-! ## The disassembler -/

/-- The comments of the instruction set, in the order of its entries. -/
def opCodeComments : List String := [
  "Stop program", "No operation", "Interrupt[1..16]", "Wait value equal", "Wait value relative",
  "Wait value bit mask", "Wait register equal", "Wait register relative", "Wait register bit mask", "Load register",
  "Move register", "Move Index register", "Move register Index", "Add register", "Subtract register", "Or register",
  "And register", "ExclusiveOr register", "LeftShift register", "RightShift register", "Add value", "Subtract value",
  "Or value", "And value", "ExclusiveOr value", "LeftShift value", "RightShift value", "Watch Dod", "Jump",
  "Branch Equal", "Branch NotEqual", "Branch LessThan", "Branch GreaterThan", "Branch LessThanEqual",
  "Branch GreaterThanEqual", "Branch Carry"]

def tabTo (cp : List Char) (pos : ℕ) : List Char := List.replicate (pos - cp.length) ' '

/-- The line `oln`: the address column, and the text behind it. -/
structure DisLine where
  address : List Char
  text : List Char

def DisLine.add (oln : DisLine) (text : List Char) : DisLine := { oln with text := oln.text ++ text }

def DisLine.tab (oln : DisLine) (pos : ℕ) : DisLine := oln.add (tabTo (oln.address ++ oln.text) pos)

/-- `%X` with at least `k` digits. -/
def hexPadded (k : ℕ) (v : BitVec 32) : List Char :=
  List.replicate (k - (hexUpper v.toNat).length) '0' ++ hexUpper v.toNat

def addressColumn (adr pc : BitVec 32) : List Char := hexPadded 4 adr ++ ':' :: (hexPadded 3 pc ++ [' '])

def columnHeads : DisLine :=
  let oln : DisLine := ⟨[], "       %".toList⟩
  let oln := (oln.tab 16).add "Src-1".toList
  let oln := (oln.tab 28).add "Src-2".toList
  (oln.tab 36).add "Dest".toList

def operandText (spare : Bool) (type : ArgType) (value : BitVec 32) : Option (List Char) :=
  match type with
  | .nothing => some []
  | .literal | .address => some (hexField value)
  | .register => getRegisterName spare value.toNat

def operandLine (adr pc : BitVec 32) (opcd : OpCode) (comment : String) (src1 src2 dest : List Char) : DisLine :=
  let oln : DisLine := ⟨addressColumn adr pc, opcd.name.toList⟩
  let oln := (oln.tab 16).add src1
  let oln := (oln.tab 28).add src2
  let oln := (oln.tab 36).add dest
  ((oln.tab 44).add "% ".toList).add comment.toList

def instLine (spare : Bool) (adr pc : BitVec 32) (opcd : OpCode) (comment : String) (inst : Instruction) :
    Option DisLine :=
  (operandText spare opcd.src1 inst.src1).bind fun src1 =>
  (operandText spare opcd.src2 (inst.src2.setWidth 32)).bind fun src2 =>
  (operandText spare opcd.dest (inst.dest.setWidth 32)).map fun dest => operandLine adr pc opcd comment src1 src2 dest

/-- The entry of the instruction set for a number, with its comment. -/
def findOpCode (number : BitVec 8) : Option (OpCode × String) :=
  (instructionSet.zip opCodeComments).find? fun entry => entry.1.number = number

def disAssembleLoop (spare : Bool) : BitVec 32 → BitVec 32 → List Instruction → Option (List DisLine)
  | _, _, [] => some []
  | adr, pc, inst :: program =>
    match findOpCode inst.number with
    | some (opcd, comment) =>
      (instLine spare adr pc opcd comment inst).bind fun oln =>
        (disAssembleLoop spare (adr + 1) (pc + 1) program).map (oln :: ·)
    | none => (disAssembleLoop spare adr pc program).map (⟨[], "Garbage object file".toList⟩ :: ·)

/-- `DisAssemble` with the lines it prints. There is no result where the name of a register overruns its buffer. -/
def disAssemble (spare : Bool) (code : ProgramBuf) : Option (List DisLine) :=
  (disAssembleLoop spare code.loadAddress 0 code.program).map (columnHeads :: ·)

/-- The lines without their address columns. -/
def sourceText : List DisLine → List Char
  | [] => []
  | oln :: lines => oln.text ++ '\n' :: sourceText lines

/-! ## Pieces of a text -/

section Lexing
variable {cp rest s : List Char} {atoms atoms' : List Atom} {a : Option Atom}

/-- Wherever the loop comes to `cp`, it reads these atoms there and goes on at `rest`. -/
def Lexes (cp : List Char) (atoms : List Atom) (rest : List Char) : Prop :=
  ∀ size pos fuel, pos + cp.length ≤ size + 1 → cp.length < fuel →
    ∃ pos' fuel', pos' + rest.length ≤ size + 1 ∧ rest.length < fuel' ∧
      getAtomsLoop size fuel pos cp =
        (getAtomsLoop size fuel' pos' rest).map fun source => (atoms ++ source.1, source.2)

theorem map_nil_append (x : Except Stop (List Atom × List AsmError)) :
    x.map (fun source => ([] ++ source.1, source.2)) = x := by
  cases x with
  | error stop => rfl
  | ok source => rfl

theorem Lexes.refl (cp : List Char) : Lexes cp [] cp := by
  intro size pos fuel hpos hfuel
  refine ⟨pos, fuel, hpos, hfuel, ?_⟩
  rw [map_nil_append]

theorem Lexes.trans (h : Lexes cp atoms s) (h' : Lexes s atoms' rest) : Lexes cp (atoms ++ atoms') rest := by
  intro size pos fuel hpos hfuel
  obtain ⟨pos₁, fuel₁, hpos₁, hfuel₁, heq₁⟩ := h size pos fuel hpos hfuel
  obtain ⟨pos₂, fuel₂, hpos₂, hfuel₂, heq₂⟩ := h' size pos₁ fuel₁ hpos₁ hfuel₁
  refine ⟨pos₂, fuel₂, hpos₂, hfuel₂, ?_⟩
  rw [heq₁, heq₂]
  cases getAtomsLoop size fuel₂ pos₂ rest with
  | error stop => rfl
  | ok source =>
    change Except.ok (atoms ++ (atoms' ++ source.1), source.2) = Except.ok (atoms ++ atoms' ++ source.1, source.2)
    rw [List.append_assoc]

/-- One turn of the loop. -/
theorem Lexes.turn (h : ∀ pos, ∃ pos', nextAtom pos cp = .ok (.atom a pos' rest) ∧ pos' + rest.length ≤ pos +
      cp.length) : Lexes cp a.toList rest := by
  intro size pos fuel hpos hfuel
  obtain ⟨pos', hnext, hle⟩ := h pos
  have hlt := nextAtom_progress hnext
  obtain ⟨fuel, rfl⟩ : ∃ f, fuel = f + 1 := ⟨fuel - 1, by omega⟩
  refine ⟨pos', fuel, by omega, by omega, ?_⟩
  rw [getAtomsLoop, if_pos (by omega), hnext]

/-- A text that is read to its end. -/
theorem Lexes.getAtoms (h : Lexes cp atoms []) (hdot : cp.head? ≠ some '.') :
    getAtoms cp = .ok (some (atoms ++ [newAtom], [])) := by
  obtain ⟨pos, fuel, -, hfuel, heq⟩ := h cp.length 1 (cp.length + 1) (by omega) (by omega)
  obtain ⟨fuel, rfl⟩ : ∃ f, fuel = f + 1 := ⟨fuel - 1, by omega⟩
  rw [Mttn.getAtoms, if_neg hdot, heq, getAtomsLoop]
  split
  · rfl
  · rfl

theorem lexes_space (s : List Char) : Lexes (' ' :: s) [] s := by
  have hspace : atomhash ' ' = .seperator := by decide
  have hskip : ∀ pos, skipSeperators pos (' ' :: s) = skipSeperators (pos + 1) s := by
    intro pos
    rw [skipSeperators, if_pos hspace, if_neg (by decide)]
  have hturn : ∀ pos, nextAtom pos (' ' :: s) =
      .ok (.atom (if (skipSeperators (pos + 1) s).1 then some (.seperator []) else none)
        (skipSeperators (pos + 1) s).2.1 (skipSeperators (pos + 1) s).2.2) := by
    intro pos
    rw [nextAtom, hspace, ← hskip]
  by_cases hsep : ∃ c t, s = c :: t ∧ atomhash c = .seperator
  · -- the turn goes on over the next separator as if it began there
    obtain ⟨c, t, rfl, hc⟩ := hsep
    intro size pos fuel hpos hfuel
    have hlength : (' ' :: c :: t).length = t.length + 2 := rfl
    have hlength' : (c :: t).length = t.length + 1 := rfl
    obtain ⟨fuel, rfl⟩ : ∃ f, fuel = f + 1 := ⟨fuel - 1, by omega⟩
    refine ⟨pos + 1, fuel + 1, by omega, by omega, ?_⟩
    have hnext : nextAtom (pos + 1) (c :: t) = nextAtom pos (' ' :: c :: t) := by
      rw [hturn, nextAtom, hc]
    rw [map_nil_append, getAtomsLoop, getAtomsLoop, if_pos (by omega), if_pos (by omega), hnext]
  · refine Lexes.turn (a := none) fun pos => ⟨pos + 1, ?_, by simp; omega⟩
    have hstop : skipSeperators (pos + 1) s = (false, pos + 1, s) := by
      cases s with
      | nil => rfl
      | cons c t => exact if_neg fun hc => hsep ⟨c, t, rfl, hc⟩
    rw [hturn, hstop]
    rfl

theorem lexes_spaces (n : ℕ) (s : List Char) : Lexes (List.replicate n ' ' ++ s) [] s := by
  induction n with
  | zero => exact Lexes.refl s
  | succ n ih => exact (lexes_space _).trans ih

/-- Behind a word or a number stands a space or a comment. -/
def Ends (s : List Char) : Prop := s.head? = some ' ' ∨ s.head? = some '%'

/-- A word of letters and digits that begins with a letter and fits in the buffer. -/
structure Word (w : List Char) : Prop where
  first : ∃ c s, w = c :: s ∧ atomhash c = .alpha
  chars : ∀ c ∈ w, atomhash c = .alpha ∨ atomhash c = .numeric

def wordAtom (w : List Char) : Atom := ((lookUpOpCode w).orElse fun _ => lookUpRegister w).getD (.alpha w)

theorem lexes_word {w : List Char} (hw : Word w) (hlength : w.length < textSize) (hs : Ends s) :
    Lexes (w ++ s) [wordAtom w] s := by
  obtain ⟨c, t, hct, hc⟩ := hw.first
  have htake : (w ++ s).takeWhile (fun c => decide (atomhash c = .alpha ∨ atomhash c = .numeric)) = w := by
    have hstop : s.takeWhile (fun c => decide (atomhash c = .alpha ∨ atomhash c = .numeric)) = [] := by
      cases s with
      | nil => rfl
      | cons d s =>
        apply List.takeWhile_cons_of_neg
        obtain hd | hd := hs
        · obtain rfl := Option.some.inj hd
          decide
        · obtain rfl := Option.some.inj hd
          decide
    rw [List.takeWhile_append_of_pos fun d hd => decide_eq_true (hw.chars d hd), hstop, List.append_nil]
  refine Lexes.turn (a := some (wordAtom w)) fun pos => ⟨pos + w.length, ?_, by simp; omega⟩
  subst hct
  rw [List.cons_append] at htake ⊢
  rw [nextAtom, hc]
  dsimp only
  rw [htake, textAtom, if_pos hlength, ← List.cons_append, List.drop_left]
  rfl

theorem lexes_number (v : BitVec 32) (hs : Ends s) : Lexes (hexField v ++ s) [.numeric v] s := by
  have hzero : atomhash '0' = .numeric := by decide
  have hstop : s.head?.any (isDigitOf 16) = false := by
    obtain hd | hd := hs
    · rw [hd]
      decide
    · rw [hd]
      decide
  have hread := strtoul_hex v.isLt [] (by simp) hstop
  rw [List.nil_append, BitVec.ofNat_toNat, BitVec.setWidth_eq] at hread
  refine Lexes.turn (a := some (.numeric v)) fun pos => ⟨pos + (hexField v).length, ?_, by simp; omega⟩
  have hfield : hexField v ++ s = '0' :: ('x' :: hexUpper v.toNat ++ s) := rfl
  rw [hfield, nextAtom, hzero]
  dsimp only
  rw [← hfield]
  change Except.ok (Lexed.atom (some (.numeric (strtoul 32 (hexField v ++ s)).1))
    (pos + ((hexField v ++ s).length - (strtoul 32 (hexField v ++ s)).2.length)) (strtoul 32 (hexField v ++ s)).2) = _
  rw [show strtoul 32 (hexField v ++ s) = (v, s) from hread, List.length_append, Nat.add_sub_cancel]

/-- A comment that the end of its line closes. -/
theorem lexes_comment {text : List Char} (htext : ∀ c ∈ text, atomhash c ≠ .comment ∧ c ≠ '\n' ∧ c ≠ '\x00')
    (hlength : text.length < textSize) (s : List Char) :
    Lexes ('%' :: (text ++ '\n' :: s)) [.seperator text] s := by
  have htake : (text ++ '\n' :: s).takeWhile (fun c => decide (atomhash c ≠ .comment ∧ c ≠ '\n' ∧ c ≠ '\x00')) =
    text := by
    rw [List.takeWhile_append_of_pos fun c hc => decide_eq_true (htext c hc),
      List.takeWhile_cons_of_neg (by decide), List.append_nil]
  refine Lexes.turn (a := some (.seperator text)) fun pos => ⟨pos + text.length, ?_, by simp; omega⟩
  have hmark : atomhash '%' = .comment := by decide
  rw [nextAtom, hmark]
  dsimp only
  rw [htake, List.drop_left]
  dsimp only
  rw [if_neg (by decide), textAtom, if_pos hlength]

end Lexing

/-! ## Words of the tables -/

section Words
variable {w : List Char} {opcd : OpCode} {comment : String} {n : ℕ} {spare : Bool} {name : List Char}

theorem lookUpOpCode_name (h : opcd ∈ instructionSet) : lookUpOpCode opcd.name.toList = some (.opCode opcd) := by
  have hupper : ∀ opcd ∈ instructionSet, strToUpper opcd.name.toList = opcd.name.toList ∧
      opcd.name.toList.length ≤ maxNameLength := by decide
  have hnames : (instructionSet.map fun opcd => opcd.name.toList).Nodup := by decide
  obtain ⟨hsame, hlength⟩ := hupper opcd h
  have hfind : (instructionSet.find? fun opcd' => opcd.name.toList = opcd'.name.toList) = some opcd := by
    refine find?_only h (decide_eq_true rfl) fun opcd' hopcd' hname => ?_
    exact List.inj_on_of_nodup_map hnames hopcd' h (of_decide_eq_true hname).symm
  rw [lookUpOpCode, if_pos hlength, hsame, hfind]
  rfl

/-- No op-code begins with the word. -/
def NoOpCode (w : List Char) : Prop := ∀ x, lookUpOpCode (w ++ x) = none

theorem NoOpCode.append (h : NoOpCode w) (x : List Char) : NoOpCode (w ++ x) := by
  intro y
  rw [List.append_assoc]
  exact h (x ++ y)

theorem noOpCode_of (h : ∀ opcd ∈ instructionSet, (strToUpper w).isPrefixOf opcd.name.toList = false) : NoOpCode w := by
  intro x
  unfold lookUpOpCode
  split
  · rw [Option.map_eq_none_iff, List.find?_eq_none]
    intro opcd hopcd heq
    have hupper : strToUpper (w ++ x) = strToUpper w ++ strToUpper x := List.map_append
    have hpre : strToUpper w <+: opcd.name.toList := by
      rw [← of_decide_eq_true heq, hupper]
      exact List.prefix_append _ _
    have hno := h opcd hopcd
    rw [List.isPrefixOf_iff_prefix.mpr hpre] at hno
    cases hno
  · rfl

theorem noOpCode_long (h : 5 < w.length) : NoOpCode w := by
  have hall : ∀ opcd ∈ instructionSet, opcd.name.toList.length ≤ 5 := by decide
  refine noOpCode_of fun opcd hopcd => Bool.eq_false_iff.mpr fun hpre => ?_
  have hle := (List.isPrefixOf_iff_prefix.mp hpre).length_le
  have hshort := hall opcd hopcd
  rw [strToUpper, List.length_map] at hle
  omega

theorem word_of (hfirst : w.head?.any (fun c => atomhash c = .alpha) = true)
    (hchars : w.all (fun c => atomhash c = .alpha ∨ atomhash c = .numeric) = true) : Word w := by
  refine ⟨?_, fun c hc => of_decide_eq_true (List.all_eq_true.mp hchars c hc)⟩
  cases w with
  | nil => cases hfirst
  | cons c s => exact ⟨c, s, rfl, by simpa using hfirst⟩

theorem Word.append (h : Word w) {x : List Char} (hx : ∀ c ∈ x, atomhash c = .alpha ∨ atomhash c = .numeric) :
    Word (w ++ x) := by
  obtain ⟨c, s, rfl, hc⟩ := h.first
  refine ⟨⟨c, s ++ x, rfl, hc⟩, ?_⟩
  intro d hd
  obtain hold | hnew := List.mem_append.mp hd
  · exact h.chars d hold
  · exact hx d hnew

/-- What the proofs use of an op-code and its comment. -/
structure Listed (opcd : OpCode) (comment : String) : Prop where
  found : findOpCode opcd.number = some (opcd, comment)
  text : ∀ c ∈ comment.toList, atomhash c ≠ .comment ∧ c ≠ '\n' ∧ c ≠ '\x00'
  textLength : comment.toList.length ≤ 30
  word : Word opcd.name.toList
  length : 3 ≤ opcd.name.toList.length ∧ opcd.name.toList.length ≤ 5
  atom : wordAtom opcd.name.toList = .opCode opcd
  src2 : opcd.src2 = .nothing ∨ opcd.src2 = .register
  dest : opcd.dest = .nothing ∨ opcd.dest = .register
  noSource : opcd.src1 = .nothing → opcd.src2 = .nothing ∧ opcd.dest = .nothing

theorem listed (h : opcd ∈ instructionSet) : ∃ comment, Listed opcd comment := by
  have hall : ∀ opcd ∈ instructionSet, (findOpCode opcd.number).any (fun entry => decide (entry.1 = opcd ∧
      entry.2.toList.all (fun c => atomhash c ≠ .comment ∧ c ≠ '\n' ∧ c ≠ '\x00') = true ∧
      entry.2.toList.length ≤ 30)) = true := by decide
  have hname : ∀ opcd ∈ instructionSet, opcd.name.toList.head?.any (fun c => atomhash c = .alpha) = true ∧
      opcd.name.toList.all (fun c => atomhash c = .alpha ∨ atomhash c = .numeric) = true ∧
      3 ≤ opcd.name.toList.length ∧ opcd.name.toList.length ≤ 5 := by decide
  have htypes : ∀ opcd ∈ instructionSet, (opcd.src2 = .nothing ∨ opcd.src2 = .register) ∧
      (opcd.dest = .nothing ∨ opcd.dest = .register) ∧
      (opcd.src1 = .nothing → opcd.src2 = .nothing ∧ opcd.dest = .nothing) := by decide
  obtain ⟨⟨found, comment⟩, hfound, hfacts⟩ := (Option.any_eq_true _ _).mp (hall opcd h)
  obtain ⟨heq, htext, hlength⟩ := of_decide_eq_true hfacts
  obtain ⟨hfirst, hchars, hlong⟩ := hname opcd h
  obtain ⟨hsrc2, hdest, hnone⟩ := htypes opcd h
  have hcomment : ∀ c ∈ comment.toList, atomhash c ≠ .comment ∧ c ≠ '\n' ∧ c ≠ '\x00' :=
    fun c hc => of_decide_eq_true (List.all_eq_true.mp htext c hc)
  have hatom : wordAtom opcd.name.toList = .opCode opcd := by
    rw [wordAtom, lookUpOpCode_name h]
    rfl
  subst heq
  exact ⟨comment, hfound, hcomment, hlength, word_of hfirst hchars, hlong, hatom, hsrc2, hdest, hnone⟩

/-- What the proofs use of the name of a register. -/
structure RegisterName (n : ℕ) (name : List Char) : Prop where
  word : Word name
  length : 3 ≤ name.length ∧ name.length ≤ 8
  full : name.length = 8 ↔ n = 215
  noOpCode : NoOpCode name
  atom : wordAtom name = .register (BitVec.ofNat 32 n)

theorem registerWord {reg : RegisterDsc} (hreg : reg ∈ regs) : Word reg.name.toList ∧ NoOpCode reg.name.toList := by
  have hall : ∀ reg ∈ regs, reg.name.toList.head?.any (fun c => atomhash c = .alpha) = true ∧
      reg.name.toList.all (fun c => atomhash c = .alpha ∨ atomhash c = .numeric) = true ∧
      ∀ opcd ∈ instructionSet, (strToUpper reg.name.toList).isPrefixOf opcd.name.toList = false := by decide
  obtain ⟨hfirst, hchars, hno⟩ := hall reg hreg
  exact ⟨word_of hfirst hchars, noOpCode_of hno⟩

theorem nameText_word {reg : RegisterDsc} (hreg : reg ∈ regs) : Word (nameText reg n) ∧ NoOpCode (nameText reg n) := by
  have hdigit : ∀ d : Fin 10, atomhash (Nat.digitChar d.val) = .numeric := by decide
  obtain ⟨hword, hno⟩ := registerWord hreg
  unfold nameText
  split
  · refine ⟨hword.append fun c hc => ?_, hno.append _⟩
    obtain ⟨d, hd, rfl⟩ := exists_digit (by decide) hc
    exact .inr (hdigit ⟨d, hd⟩)
  · exact ⟨hword, hno⟩

theorem registerName (hn : Nameable n) (h : getRegisterName spare n = some name) : RegisterName n name := by
  obtain ⟨name', hname', hlength, hfull, hasm, -, -⟩ := nameOf hn
  have htrue : getRegisterName true n = some name := by
    rw [getRegisterName_spare] at h
    exact (Option.filter_eq_some_iff.mp h).1
  obtain rfl := Option.some.inj (htrue.symm.trans hname')
  obtain ⟨hword, hno⟩ : Word name ∧ NoOpCode name := by
    obtain ⟨reg, hreg, hstart, hstop⟩ := hn
    rw [getRegisterName_eq hreg hstart hstop, sprintfName] at h
    obtain ⟨-, hsome⟩ := Option.ite_none_right_eq_some.mp h
    obtain rfl := Option.some.inj hsome
    exact nameText_word hreg
  refine ⟨hword, hlength, hfull, hno, ?_⟩
  have hnone := hno []
  rw [List.append_nil] at hnone
  obtain ⟨atom, hatom, hvalue⟩ := Option.bind_eq_some_iff.mp hasm
  unfold wordAtom
  rw [hnone, hatom]
  cases atom with
  | register value =>
    obtain rfl := Option.some.inj hvalue
    change Atom.register value = _
    rw [BitVec.ofNat_toNat, BitVec.setWidth_eq]
  | seperator | operator | «open» | close | comment | numeric | alpha | openIndex | closeIndex | bit | opCode =>
    cases hvalue

end Words

end HtDrivers.Mttn
