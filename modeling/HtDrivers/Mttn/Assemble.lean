import HtDrivers.Mttn.Expression

/-! The two passes of the assembler. The buffer for the instructions is the caller's, and is taken to be
large enough. -/
namespace HtDrivers.Mttn
set_option autoImplicit false

/-! ## Arguments of an op-code -/

def compareAtomTypes (x y : AtomType) : Bool :=
  x = y ∨ x = .notSet ∨ y = .notSet ∨ (x = .expression ∧ (y = .numeric ∨ y = .alpha)) ∨
    (y = .expression ∧ (x = .numeric ∨ x = .alpha)) ∨ (x = .seperator ∧ y = .comment) ∨
    (y = .seperator ∧ x = .comment)

/-- Go on while the atom is a separator or a comment and another one follows. -/
def skipAtoms : Atom → List Atom → Atom × List Atom
  | atom, [] => (atom, [])
  | atom, next :: rest =>
    if compareAtomTypes atom.type .seperator then skipAtoms next rest else (atom, next :: rest)

def nextArg : Atom → List Atom → Atom × List Atom
  | atom, [] => (atom, [])
  | _, next :: rest => skipAtoms next rest

structure Expect where
  lit : Bool
  sr1 : Bool
  sr2 : Bool
  dst : Bool

def expectOf (opcd : OpCode) : Expect where
  lit := opcd.src1 = .literal ∨ opcd.src1 = .address
  sr1 := opcd.src1 = .register
  sr2 := opcd.src2 = .register
  dst := opcd.dest = .register

/-- The atoms that must follow, with the message for each. -/
def Expect.args (e : Expect) : List (AtomType × String) :=
  (if e.lit then [(.expression, "Expected: Symbol or literal value")] else []) ++
  (if e.sr1 then [(.register, "Expected: Register")] else []) ++
  (if e.sr2 then [(.register, "Expected: Register")] else []) ++
  (if e.dst then [(.register, "Expected: Register")] else [])

def confirmArgs (g : Globals) : List (AtomType × String) → Atom → List Atom → Except Stop Globals
  | [], _, _ => .ok g
  | (type, text) :: args, atom, rest =>
    if compareAtomTypes atom.type type then confirmArgs g args (nextArg atom rest).1 (nextArg atom rest).2
    else report g .syntaxError text

/-- `GetConfirm` at an op-code that `rest` follows. -/
def getConfirm (g : Globals) (atom : Atom) (rest : List Atom) (expect : Expect) : Except Stop Globals :=
  confirmArgs g expect.args (nextArg atom rest).1 (nextArg atom rest).2

/-! ## Pass 1 -/

/-- The variables of `Assemble`. The current instruction has the number `index - 1`; before the first
op-code it is number 0, which the first op-code clears. `forward` has the instruction and the symbol
of each forward reference. -/
structure State where
  globals : Globals
  program : ℕ → Instruction
  index : ℕ
  pc : BitVec 32
  loadAddress : BitVec 32
  expect : Expect
  forward : List (ℕ × Name)

def forwardRefs : ℕ := 100

def clearedInstruction : Instruction := ⟨0, 0, 0, 0, 0⟩

def modifyInst (s : State) (f : Instruction → Instruction) : State :=
  { s with program := Function.update s.program (s.index - 1) (f (s.program (s.index - 1))) }

def setSrc1 (s : State) (value : BitVec 32) : State := modifyInst s fun inst => { inst with src1 := value }

def clearLit (s : State) : State := { s with expect := { s.expect with lit := false } }

def withGlobals (s : State) (g : Except Stop Globals) : Except Stop State := g.map fun g => { s with globals := g }

def stepNumeric (s : State) (value : BitVec 32) : Except Stop State :=
  if s.expect.lit then .ok (clearLit (setSrc1 s value))
  else withGlobals s (pushOperand s.globals ⟨none, value⟩)

/-- A symbol whose value is 0 is taken for a forward reference. -/
def stepOperand (s : State) (name : Name) : Except Stop State :=
  let value := s.globals.symbols.value name
  let s := clearLit (setSrc1 s value)
  if value = 0 then
    let s := { s with forward := s.forward ++ [(s.index - 1, name)] }
    if forwardRefs ≤ s.forward.length then fatal s.globals .fatalRunTime "Too many forward references\n" s
    else .ok s
  else .ok s

def stepAlpha (s : State) (name : Name) : Except Stop State :=
  match getSymbol s.globals name with
  | .error stop => .error stop
  | .ok g =>
    if s.expect.lit then stepOperand { s with globals := g } name
    else withGlobals s (pushOperand g ⟨some name, 0⟩)

def defineLabel (g : Globals) (name : Name) (pc : BitVec 32) : Except Stop Globals :=
  match getSymbol g name with
  | .error stop => .error stop
  | .ok g =>
    if g.symbols.value name ≠ 0 then
      (report g .syntaxError "Label: double definition").map fun g => setDefined (setValue g name pc) name
    else .ok (setDefined (setValue g name pc) name)

/-- A colon defines the name before it, or the load address when a number is before it. The atom before
the first one is not initialised. -/
def stepLabel (s : State) : Option Atom → Except Stop State
  | none => .error .fault
  | some (.alpha name) => withGlobals s (defineLabel s.globals name s.pc)
  | some (.numeric value) =>
    if s.pc = 0 then .ok { s with pc := value, loadAddress := value }
    else withGlobals s
      (report s.globals .syntaxError "Code block must be contiguous, one start address only")
  | some _ => .ok s

def stepOpCode (s : State) (opcd : OpCode) (rest : List Atom) : Except Stop State :=
  match getConfirm s.globals (.opCode opcd) rest (expectOf opcd) with
  | .error stop => .error stop
  | .ok g =>
    .ok { s with
      globals := g
      program := Function.update s.program s.index { clearedInstruction with number := opcd.number }
      index := s.index + 1
      pc := s.pc + 1
      expect := expectOf opcd }

def stepRegister (s : State) (value : BitVec 32) : State :=
  if s.expect.sr1 then { setSrc1 s value with expect := { s.expect with sr1 := false } }
  else if s.expect.sr2 then
    { modifyInst s (fun inst => { inst with src2 := value.setWidth 8 }) with
      expect := { s.expect with sr2 := false } }
  else if s.expect.dst then
    { modifyInst s (fun inst => { inst with dest := value.setWidth 8 }) with
      expect := { s.expect with dst := false } }
  else s

def stepOpen (s : State) : Except Stop State := withGlobals (clearLit s) (pushOperator s.globals .stm)

def stepClose (s : State) : Except Stop State :=
  match doExpression s.globals with
  | .error stop => .error stop
  | .ok (value, g) => .ok (clearLit (setSrc1 { s with globals := g } value))

def stepSeperator (s : State) : Except Stop State :=
  let s := { s with globals := resetStacks s.globals }
  if s.expect.lit then withGlobals (clearLit s) (report s.globals .syntaxError "Unexpected seperator")
  else .ok s

def asmStep (s : State) (patom : Option Atom) (atom : Atom) (rest : List Atom) : Except Stop State :=
  match atom with
  | .numeric value => stepNumeric s value
  | .alpha name => stepAlpha s name
  | .operator oprId =>
    if oprId = .lbl then stepLabel s patom else withGlobals s (pushOperator s.globals oprId)
  | .opCode opcd => stepOpCode s opcd rest
  | .register value => .ok (stepRegister s value)
  | .open | .openIndex => stepOpen s
  | .close | .closeIndex => stepClose s
  | .seperator _ => stepSeperator s
  | .comment _ | .bit => .ok s

def asmLoop : State → Option Atom → List Atom → Except Stop State
  | s, _, [] => .ok s
  | s, patom, atom :: rest => match asmStep s patom atom rest with
    | .error stop => .error stop
    | .ok s => asmLoop s (some atom) rest

def startState (errors : List AsmError) : State where
  globals := ⟨errors, ⟨[], fun _ => 0, fun _ => false⟩, fun _ => ⟨none, 0⟩, 0, []⟩
  program := fun _ => clearedInstruction
  index := 0
  pc := 0
  loadAddress := 0
  expect := ⟨false, false, false, false⟩
  forward := []

/-- The atoms of a source text and the errors found in it. -/
def sourceAtoms (text : List Char) : Except Stop (List Atom × List AsmError) :=
  match getAtoms text with
  | .error stop => .error stop
  | .ok (some source) => .ok source
  | .ok none => .error .exit

def assemble (text : List Char) : Except Stop State :=
  match sourceAtoms text with
  | .error stop => .error stop
  | .ok (atoms, errors) => asmLoop (startState errors) none atoms

/-! ## Pass 2 -/

def patch (symbols : SymbolTable) (program : ℕ → Instruction) (ref : ℕ × Name) : ℕ → Instruction :=
  Function.update program ref.1 { program ref.1 with src1 := symbols.value ref.2 }

/-- The instructions after the forward references were processed. -/
def pass2 (s : State) : ℕ → Instruction := s.forward.foldl (patch s.globals.symbols) s.program

end HtDrivers.Mttn
