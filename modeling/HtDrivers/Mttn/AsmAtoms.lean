import HtDrivers.Mttn.Opcodes

/-! How the assembler chops a source text up into atoms. A text is the list of its characters up to the
terminator, and a pointer into it is what is left. Where the C program runs out of one of its
buffers, the outcome is `fault`. -/
namespace HtDrivers.Mttn
open HtDrivers.Lib.Numerals
set_option autoImplicit false

/-! ## Errors -/

inductive ErrorType
  | fatalRunTime | runTime | fatalSyntax | syntaxError
deriving DecidableEq

structure AsmError where
  type : ErrorType
  text : String
deriving DecidableEq

/-- How the program ends early: with `exit (1)`, or by undefined behaviour. -/
inductive Stop
  | exit | fault
deriving DecidableEq

def maxErrorCount : ℕ := 10

/-- `Error`: `errors` are those reported before, `error_count` is their number. -/
def reportError (errors : List AsmError) (type : ErrorType) (text : String) : Except Stop (List AsmError) :=
  if maxErrorCount ≤ errors.length then .error .exit
  else match type with
    | .fatalRunTime | .fatalSyntax => .error .exit
    | .runTime | .syntaxError => .ok (errors ++ [⟨type, text⟩])

/-! ## Characters and atoms -/

inductive AtomType
  | seperator | operator | open | close | comment | numeric | alpha | openIndex | closeIndex | illegalChar
  | terminator | bit | opCode | register | expression | notSet
deriving DecidableEq

def AtomType.ofCode : ℕ → AtomType
  | 0 => seperator | 1 => operator | 2 => .open | 3 => close | 4 => comment | 5 => numeric | 6 => alpha
  | 7 => openIndex | 8 => closeIndex | 9 => illegalChar | 10 => terminator | 11 => bit | 12 => opCode
  | 13 => register | 14 => expression | _ => notSet

/-- The first half of the table; the second half is 9 throughout. -/
def atomhashTable : List ℕ := [
  10,9,9,9,9,9,9,9,9,0,0,9,9,0,9,9,9,9,9,9,9,9,9,9,9,9,9,9,9,9,9,9,
  0,1,9,4,9,4,1,9,2,3,1,1,0,1,11,1,5,5,5,5,5,5,5,5,5,5,1,1,1,1,1,1,
  10,6,6,6,6,6,6,6,6,6,6,6,6,6,6,6,6,6,6,6,6,6,6,6,6,6,6,7,9,8,9,6,
  9,6,6,6,6,6,6,6,6,6,6,6,6,6,6,6,6,6,6,6,6,6,6,6,6,6,6,9,9,9,1,9]

def atomhash (c : Char) : AtomType := .ofCode ((atomhashTable[c.toNat]?).getD 9)

inductive OprId
  | noop | ne | eq | gt | ge | lt | le | as | pl | mi | ti | di | and | or | xor | not | neg | lsh | rsh | inc | decr
  | pop | stm | lbl
deriving DecidableEq

def oprNames : List (String × OprId) := [
  ("?", .noop), ("!=", .ne), ("=", .eq), (">", .gt), (">=", .ge), ("<", .lt), ("<=", .le), (":=", .as), ("+", .pl),
  ("-", .mi), ("*", .ti), ("/", .di), ("&", .and), ("!", .or), ("!!", .xor), ("~", .not), ("-~", .neg),
  ("<<", .lsh), (">>", .rsh), ("++", .inc), ("--", .decr), (";", .pop), ("->", .stm), (":", .lbl)]

inductive Atom
  | seperator (text : List Char)
  | operator (oprId : OprId)
  | open
  | close
  | comment (text : List Char)
  | numeric (value : BitVec 32)
  | alpha (text : List Char)
  | openIndex
  | closeIndex
  | bit
  | opCode (opcd : OpCode)
  | register (value : BitVec 32)
deriving DecidableEq

def Atom.type : Atom → AtomType
  | seperator _ => .seperator | operator _ => .operator | .open => .open | close => .close | comment _ => .comment
  | numeric _ => .numeric | alpha _ => .alpha | openIndex => .openIndex | closeIndex => .closeIndex | bit => .bit
  | opCode _ => .opCode | register _ => .register

/-- A new atom is zeroed, which makes it a separator. -/
def newAtom : Atom := .seperator []

/-! ## Names -/

def strToUpper (text : List Char) : List Char :=
  text.map fun c => if atomhash c = .alpha ∧ 'a' ≤ c then Char.ofNat (c.toNat - 32) else c

/-- `MAX_OP_CODE_STRING_LENGTH` and `MAX_REGISTER_STRING_LENGTH`. -/
def maxNameLength : ℕ := 8

def lookUpOpCode (text : List Char) : Option Atom :=
  if text.length ≤ maxNameLength then
    (instructionSet.find? fun opcd => strToUpper text = opcd.name.toList).map .opCode
  else none

/-- What the second loop of `LookUpRegister` makes of one entry of the table. -/
def registerInRange (text : List Char) (reg : RegisterDsc) : Option Atom :=
  if reg.name.toList.isPrefixOf (strToUpper text) then
    if reg.start < reg.stop then
      let cp := text.drop reg.name.length
      let (rn, ep) := strtoul 32 cp
      if reg.name.length < text.length ∧ cp ≠ ep ∧ reg.offset ≤ rn.toNat ∧
          rn.toNat ≤ reg.stop - reg.start + reg.offset then
        some (.register (BitVec.ofNat 32 (reg.start + rn.toNat - reg.offset)))
      else none
    else some (.register (BitVec.ofNat 32 reg.start))
  else none

def lookUpRegister (text : List Char) : Option Atom :=
  if text.length ≤ maxNameLength then
    match regs.find? fun reg => strToUpper text = reg.name.toList with
    | some reg => some (.register (BitVec.ofNat 32 reg.start))
    | none => regs.findSome? (registerInRange text)
  else none

/-- A text that is no operator leaves the value of its atom at 0. -/
def lookUpOperator (text : List Char) : OprId :=
  ((oprNames.find? fun opr => text = opr.1.toList).map Prod.snd).getD .noop

/-! ## Atoms of a text -/

/-- `TEXT`: the buffer for the text of one atom, with its terminator. -/
def textSize : ℕ := 128

/-- What one turn of the loop does: an atom and the new place, or the end of the list. -/
inductive Lexed
  | atom (atom : Option Atom) (pos : ℕ) (rest : List Char)
  | stop (errors : List AsmError)

/-- Separators up to a new line, which makes an atom and starts a new count of positions. -/
def skipSeperators : ℕ → List Char → Bool × ℕ × List Char
  | pos, [] => (false, pos, [])
  | pos, c :: s =>
    if atomhash c = .seperator then
      if c = '\n' then (true, 0, s) else skipSeperators (pos + 1) s
    else (false, pos, c :: s)

/-- The text of an atom must fit in the buffer. -/
def textAtom (text : List Char) (atom : Atom) (pos : ℕ) (rest : List Char) : Except Stop Lexed :=
  if text.length < textSize then .ok (.atom (some atom) (pos + text.length) rest) else .error .fault

def nextAtom (pos : ℕ) : List Char → Except Stop Lexed
  | [] => .ok (.stop [])
  | c :: s => match atomhash c with
    | .numeric =>
      let (value, ep) := strtoul 32 (c :: s)
      .ok (.atom (some (.numeric value)) (pos + ((c :: s).length - ep.length)) ep)
    | .alpha =>
      let text := (c :: s).takeWhile fun c => atomhash c = .alpha ∨ atomhash c = .numeric
      let atom := ((lookUpOpCode text).orElse fun _ => lookUpRegister text).getD (.alpha text)
      textAtom text atom pos ((c :: s).drop text.length)
    | .seperator =>
      let (newline, pos, rest) := skipSeperators pos (c :: s)
      .ok (.atom (if newline then some (.seperator []) else none) pos rest)
    | .comment =>
      -- a closing mark is left in the text, where it opens the next comment
      let text := s.takeWhile fun c => atomhash c ≠ .comment ∧ c ≠ '\n' ∧ c ≠ '\x00'
      match s.drop text.length with
      | [] => textAtom text (.seperator text) pos []
      | d :: rest =>
        if atomhash d = .comment then textAtom text (.comment text) pos (d :: rest)
        else textAtom text (.seperator text) pos rest
    | .operator =>
      let text := (c :: s).takeWhile fun c => atomhash c = .operator
      textAtom text (.operator (lookUpOperator text)) pos ((c :: s).drop text.length)
    | .open => .ok (.atom (some .open) (pos + 1) s)
    | .close => .ok (.atom (some .close) (pos + 1) s)
    | .openIndex => .ok (.atom (some .openIndex) (pos + 1) s)
    | .closeIndex => .ok (.atom (some .closeIndex) (pos + 1) s)
    | .bit => .ok (.atom (some .bit) (pos + 1) s)
    | .illegalChar => (reportError [] .syntaxError "Illegal character").map .stop
    | _ => .ok (.stop [])

/-- The loop of `GetAtoms`; a turn consumes a character, so `fuel` above the length of the text is enough. -/
def getAtomsLoop (size : ℕ) : ℕ → ℕ → List Char → Except Stop (List Atom × List AsmError)
  | 0, _, _ => .error .fault
  | fuel + 1, pos, cp =>
    if pos ≤ size then
      match nextAtom pos cp with
      | .error stop => .error stop
      | .ok (.stop errors) => .ok ([newAtom], errors)
      | .ok (.atom atom pos rest) =>
        (getAtomsLoop size fuel pos rest).map fun (atoms, errors) => (atom.toList ++ atoms, errors)
    else .ok ([newAtom], [])

/-- `GetAtoms`, or nothing for a text that starts with a dot. -/
def getAtoms (text : List Char) : Except Stop (Option (List Atom × List AsmError)) :=
  if text.head? = some '.' then .ok none
  else (getAtomsLoop text.length (text.length + 1) 1 text).map some

/-! ## The loop ends -/

theorem numeric_digit {c : Char} (h : atomhash c = .numeric) : '0' ≤ c ∧ c ≤ '9' := by
  have hall : ∀ n : Fin 128, AtomType.ofCode ((atomhashTable[n.val]?).getD 9) = .numeric → 48 ≤ n.val ∧ n.val ≤ 57 := by
    decide
  unfold atomhash at h
  by_cases hc : c.toNat < 128
  · exact hall ⟨c.toNat, hc⟩ h
  · have hnone : atomhashTable[c.toNat]? = none := List.getElem?_eq_none (by
      have hlen : atomhashTable.length = 128 := by decide +kernel
      omega)
    rw [hnone] at h
    cases h

theorem length_skipSeperators_le (pos : ℕ) (s : List Char) : (skipSeperators pos s).2.2.length ≤ s.length := by
  induction s generalizing pos with
  | nil => exact le_refl _
  | cons c s ih =>
    rw [skipSeperators]
    by_cases hsep : atomhash c = .seperator
    · rw [if_pos hsep]
      by_cases hnl : c = '\n'
      · rw [if_pos hnl]
        exact Nat.le_succ _
      · rw [if_neg hnl]
        exact le_trans (ih _) (Nat.le_succ _)
    · rw [if_neg hsep]

theorem length_skipSeperators_lt (pos : ℕ) {c : Char} (h : atomhash c = .seperator) (s : List Char) :
    (skipSeperators pos (c :: s)).2.2.length < (c :: s).length := by
  rw [skipSeperators, if_pos h]
  by_cases hnl : c = '\n'
  · rw [if_pos hnl]
    exact Nat.lt_succ_self _
  · rw [if_neg hnl]
    exact Nat.lt_succ_of_le (length_skipSeperators_le _ s)

theorem textAtom_ok {text : List Char} {atom : Atom} {pos pos' : ℕ} {rest rest' : List Char} {a : Option Atom}
    (h : textAtom text atom pos rest = .ok (.atom a pos' rest')) : rest' = rest := by
  unfold textAtom at h
  split at h
  · cases h
    rfl
  · cases h

theorem length_drop_takeWhile_lt {p : Char → Bool} {c : Char} (h : p c = true) (s : List Char) :
    ((c :: s).drop ((c :: s).takeWhile p).length).length < (c :: s).length := by
  rw [List.length_drop, List.takeWhile_cons, if_pos h, List.length_cons, List.length_cons]
  omega

theorem nextAtom_progress {pos pos' : ℕ} {cp rest : List Char} {a : Option Atom}
    (h : nextAtom pos cp = .ok (.atom a pos' rest)) : rest.length < cp.length := by
  cases cp with
  | nil => cases h
  | cons c s =>
    rw [nextAtom] at h
    cases hc : atomhash c with
    | numeric =>
      simp only [hc, Except.ok.injEq, Lexed.atom.injEq] at h
      rw [← h.2.2]
      exact length_strtoul_lt 32 (numeric_digit hc) s
    | alpha =>
      simp only [hc] at h
      rw [textAtom_ok h]
      exact length_drop_takeWhile_lt (by simp [hc]) s
    | seperator =>
      simp only [hc, Except.ok.injEq, Lexed.atom.injEq] at h
      rw [← h.2.2]
      exact length_skipSeperators_lt pos hc s
    | comment =>
      simp only [hc] at h
      generalize htext : s.takeWhile _ = text at h
      have hdrop : (s.drop text.length).length ≤ s.length := by
        rw [List.length_drop]
        exact Nat.sub_le _ _
      cases hrest : s.drop text.length with
      | nil =>
        rw [hrest] at h
        rw [textAtom_ok h]
        exact Nat.succ_pos _
      | cons d t =>
        rw [hrest] at h hdrop
        simp only at h
        split at h
        · rw [textAtom_ok h]
          exact Nat.lt_succ_of_le hdrop
        · rw [textAtom_ok h]
          exact lt_of_lt_of_le (Nat.lt_succ_self _) (le_trans hdrop (Nat.le_succ _))
    | operator =>
      simp only [hc] at h
      rw [textAtom_ok h]
      exact length_drop_takeWhile_lt (by simp [hc]) s
    | «open» | close | openIndex | closeIndex | bit =>
      simp only [hc, Except.ok.injEq, Lexed.atom.injEq] at h
      rw [← h.2.2]
      exact Nat.lt_succ_self _
    | illegalChar | terminator | opCode | register | expression | notSet =>
      simp only [hc] at h
      cases h

theorem getAtomsLoop_fuel (size : ℕ) {fuel more pos : ℕ} {cp : List Char} (h : cp.length < fuel) :
    getAtomsLoop size (fuel + more) pos cp = getAtomsLoop size fuel pos cp := by
  induction fuel generalizing pos cp with
  | zero => exact absurd h (Nat.not_lt_zero _)
  | succ fuel ih =>
    rw [Nat.add_right_comm, getAtomsLoop, getAtomsLoop]
    by_cases hpos : pos ≤ size
    · rw [if_pos hpos, if_pos hpos]
      cases hnext : nextAtom pos cp with
      | error stop => rfl
      | ok lexed =>
        cases lexed with
        | stop errors => rfl
        | atom a pos' rest =>
          have hlt := nextAtom_progress hnext
          simp only
          rw [ih (by omega)]
    · rw [if_neg hpos, if_neg hpos]

end HtDrivers.Mttn
