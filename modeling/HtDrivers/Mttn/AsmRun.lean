import HtDrivers.Mttn.Assemble

/-! Runs of the assembler that report no error: what one atom does to the state, and the states of a whole
text. -/
namespace HtDrivers.Mttn
set_option autoImplicit false

/-! ## One atom -/

/-- The symbols keep their values and stay defined or undefined. -/
structure Quiet (g g' : Globals) : Prop where
  errors : g'.errors = g.errors
  value : g'.symbols.value = g.symbols.value
  defined : g'.symbols.defined = g.symbols.defined

theorem Quiet.refl (g : Globals) : Quiet g g := ⟨rfl, rfl, rfl⟩

theorem Quiet.trans {g g' g'' : Globals} (h : Quiet g g') (h' : Quiet g' g'') : Quiet g g'' :=
  ⟨h'.errors.trans h.errors, h'.value.trans h.value, h'.defined.trans h.defined⟩

def Atom.IsOpCode (atom : Atom) : Prop := ∃ opcd, atom = .opCode opcd

def Atom.IsClose (atom : Atom) : Prop := atom = .close ∨ atom = .closeIndex

/-- What an atom does when no error is reported. -/
inductive Effect (patom : Option Atom) (s : State) : Atom → State → Prop
  | literal {value : BitVec 32} (hlit : s.expect.lit = true) :
    Effect patom s (.numeric value) (clearLit (setSrc1 s value))
  | operand {name : Name} {g : Globals} (hlit : s.expect.lit = true) (hg : Quiet s.globals g) :
    Effect patom s (.alpha name) { clearLit (setSrc1 { s with globals := g } (s.globals.symbols.value name)) with
      forward := if s.globals.symbols.value name = 0 then s.forward ++ [(s.index - 1, name)] else s.forward }
  | label {name : Name} {g : Globals} (hprev : patom = some (.alpha name)) (hzero : s.globals.symbols.value name = 0)
    (herrors : g.errors = s.globals.errors)
    (hvalue : g.symbols.value = Function.update s.globals.symbols.value name s.pc)
    (hdefined : g.symbols.defined = Function.update s.globals.symbols.defined name true) :
    Effect patom s (.operator .lbl) { s with globals := g }
  | directive {value : BitVec 32} (hprev : patom = some (.numeric value)) (hpc : s.pc = 0) :
    Effect patom s (.operator .lbl) { s with pc := value, loadAddress := value }
  | opCode {opcd : OpCode} :
    Effect patom s (.opCode opcd) { s with
      program := Function.update s.program s.index { clearedInstruction with number := opcd.number }
      index := s.index + 1
      pc := s.pc + 1
      expect := expectOf opcd }
  | register {value : BitVec 32} : Effect patom s (.register value) (stepRegister s value)
  | opened {atom : Atom} {g : Globals} (hatom : atom = .open ∨ atom = .openIndex) (hg : Quiet s.globals g) :
    Effect patom s atom { clearLit s with globals := g }
  | closed {atom : Atom} {value : BitVec 32} {g : Globals} (hatom : atom.IsClose)
    (hexpr : doExpression s.globals = .ok (value, g)) :
    Effect patom s atom (clearLit (setSrc1 { s with globals := g } value))
  | quiet {atom : Atom} {g : Globals} (hop : ¬ atom.IsOpCode) (hclose : ¬ atom.IsClose)
    (hlabel : ∀ name, ¬ (atom = .operator .lbl ∧ patom = some (.alpha name)))
    (hdirective : ∀ value, ¬ (atom = .operator .lbl ∧ patom = some (.numeric value)))
    (hlit : ∀ name, atom = .alpha name → s.expect.lit = false) (hg : Quiet s.globals g) :
    Effect patom s atom { s with globals := g }

section Step
variable {patom : Option Atom} {s s' : State} {atom : Atom}

/-- Atoms that only move operands and stacks. -/
theorem Effect.plain {g : Globals} (htype : atom.type ∈ [AtomType.numeric, .alpha, .seperator, .comment, .bit])
    (hlit : ∀ name, atom = .alpha name → s.expect.lit = false) (hg : Quiet s.globals g) :
    Effect patom s atom { s with globals := g } := by
  have hop : ¬ atom.IsOpCode := by
    rintro ⟨opcd, rfl⟩
    simp [Atom.type] at htype
  have hclose : ¬ atom.IsClose := by
    rintro (rfl | rfl)
    · exact absurd htype (by decide)
    · exact absurd htype (by decide)
  have hcolon : atom ≠ .operator .lbl := by
    rintro rfl
    exact absurd htype (by decide)
  exact .quiet hop hclose (fun _ h => hcolon h.1) (fun _ h => hcolon h.1) hlit hg

theorem withGlobals_ok {x : Except Stop Globals} (h : withGlobals s x = .ok s') :
    ∃ g, x = .ok g ∧ s' = { s with globals := g } := by
  unfold withGlobals at h
  cases x with
  | error stop => cases h
  | ok g =>
    cases h
    exact ⟨g, rfl, rfl⟩

theorem getSymbol_quiet {g g' : Globals} {name : Name} (h : getSymbol g name = .ok g') : Quiet g g' := by
  unfold getSymbol at h
  split at h
  · cases h
    exact .refl g
  · split at h
    · exact absurd h fatal_ne_ok
    · cases h
      exact ⟨rfl, rfl, rfl⟩

theorem pushOperand_quiet {g g' : Globals} {operand : Operand} (h : pushOperand g operand = .ok g') : Quiet g g' := by
  obtain ⟨herrors, hsymbols⟩ := pushOperand_ok h
  exact ⟨herrors, by rw [hsymbols], by rw [hsymbols]⟩

theorem pushOperator_quiet {g g' : Globals} {oprId : OprId} (h : pushOperator g oprId = .ok g') : Quiet g g' := by
  unfold pushOperator at h
  split at h
  · cases h
    exact ⟨rfl, rfl, rfl⟩
  · exact absurd h fatal_ne_ok

theorem report_errors {g g' : Globals} {type : ErrorType} {text : String} (h : report g type text = .ok g') :
    g'.errors ≠ [] := by
  obtain ⟨errors, hne, rfl⟩ := report_ok h
  exact hne

theorem confirmArgs_ok {g g' : Globals} {args : List (AtomType × String)} {rest : List Atom}
    (h : confirmArgs g args atom rest = .ok g') (hok : g'.errors = []) : g' = g := by
  induction args generalizing atom rest with
  | nil =>
    cases h
    rfl
  | cons arg args ih =>
    rw [confirmArgs] at h
    split at h
    · exact ih h
    · exact absurd hok (report_errors h)

theorem defineLabel_ok {g g' : Globals} {name : Name} {pc : BitVec 32} (h : defineLabel g name pc = .ok g')
    (hok : g'.errors = []) :
    g.symbols.value name = 0 ∧ g'.errors = g.errors ∧ g'.symbols.value = Function.update g.symbols.value name pc ∧
      g'.symbols.defined = Function.update g.symbols.defined name true := by
  unfold defineLabel at h
  cases hsymbol : getSymbol g name with
  | error stop =>
    rw [hsymbol] at h
    cases h
  | ok g'' =>
    have hquiet := getSymbol_quiet hsymbol
    rw [hsymbol] at h
    simp only at h
    split at h
    · cases hreport : report g'' .syntaxError "Label: double definition" with
      | error stop =>
        rw [hreport] at h
        cases h
      | ok g₁ =>
        rw [hreport] at h
        cases h
        have hne := report_errors hreport
        exact absurd hok hne
    · rename_i hzero
      cases h
      rw [← hquiet.value, ← hquiet.defined]
      exact ⟨by simpa using hzero, hquiet.errors, rfl, rfl⟩

theorem stepAlpha_effect {name : Name} (h : stepAlpha s name = .ok s') :
    Effect patom s (.alpha name) s' := by
  unfold stepAlpha at h
  cases hsymbol : getSymbol s.globals name with
  | error stop =>
    rw [hsymbol] at h
    cases h
  | ok g =>
    have hquiet := getSymbol_quiet hsymbol
    have hvalue : g.symbols.value name = s.globals.symbols.value name := by rw [hquiet.value]
    rw [hsymbol] at h
    simp only at h
    split at h
    · rename_i hlit
      have heffect : Effect patom s (.alpha name) _ := .operand hlit hquiet
      unfold stepOperand at h
      simp only [hvalue] at h
      by_cases hzero : s.globals.symbols.value name = 0
      · rw [if_pos hzero] at h
        split at h
        · exact absurd h fatal_ne_ok
        · cases h
          rw [if_pos hzero] at heffect
          exact heffect
      · rw [if_neg hzero] at h
        cases h
        rw [if_neg hzero] at heffect
        exact heffect
    · rename_i hlit
      obtain ⟨g', hpush, rfl⟩ := withGlobals_ok h
      exact .plain (by simp [Atom.type]) (fun _ _ => by simpa using hlit) (hquiet.trans (pushOperand_quiet hpush))

theorem stepLabel_effect (h : stepLabel s patom = .ok s')
    (hok : s'.globals.errors = []) : Effect patom s (.operator .lbl) s' := by
  cases patom with
  | none => cases h
  | some prev =>
    cases prev with
    | alpha name =>
      obtain ⟨g, hdefine, rfl⟩ := withGlobals_ok h
      obtain ⟨hzero, herrors, hvalue, hdefined⟩ := defineLabel_ok hdefine hok
      exact .label rfl hzero herrors hvalue hdefined
    | numeric value =>
      rw [stepLabel] at h
      by_cases hpc : s.pc = 0
      · rw [if_pos hpc] at h
        cases h
        exact .directive rfl hpc
      · rw [if_neg hpc] at h
        obtain ⟨g, hreport, rfl⟩ := withGlobals_ok h
        exact absurd hok (report_errors hreport)
    | seperator | operator | «open» | close | comment | openIndex | closeIndex | bit | opCode | register =>
      cases h
      exact .quiet (by rintro ⟨opcd, h⟩; cases h) (by rintro (h | h) <;> cases h) (by rintro n ⟨-, h⟩; cases h)
        (by rintro v ⟨-, h⟩; cases h) (by intro n h; cases h) (.refl _)

theorem stepSeperator_effect {text : List Char} (h : stepSeperator s = .ok s')
    (hok : s'.globals.errors = []) : Effect patom s (.seperator text) s' := by
  unfold stepSeperator at h
  simp only at h
  split at h
  · obtain ⟨g, hreport, rfl⟩ := withGlobals_ok h
    exact absurd hok (report_errors hreport)
  · cases h
    exact .plain (by simp [Atom.type]) (by intro n h; cases h) ⟨rfl, rfl, rfl⟩

/-- Inversion of a step that leaves no error. -/
theorem asmStep_effect {rest : List Atom}
    (h : asmStep s patom atom rest = .ok s') (hok : s'.globals.errors = []) : Effect patom s atom s' := by
  cases atom with
  | numeric value =>
    rw [asmStep, stepNumeric] at h
    split at h
    · rename_i hlit
      cases h
      exact .literal hlit
    · obtain ⟨g, hpush, rfl⟩ := withGlobals_ok h
      exact .plain (by simp [Atom.type]) (by intro n h; cases h) (pushOperand_quiet hpush)
  | alpha name => exact stepAlpha_effect h
  | operator oprId =>
    rw [asmStep] at h
    split at h
    · rename_i hlbl
      rw [hlbl]
      exact stepLabel_effect h hok
    · rename_i hlbl
      obtain ⟨g, hpush, rfl⟩ := withGlobals_ok h
      have hne : Atom.operator oprId ≠ .operator .lbl := fun heq => hlbl (Atom.operator.inj heq)
      exact .quiet (by rintro ⟨opcd, h⟩; cases h) (by rintro (h | h) <;> cases h) (fun n h => hne h.1)
        (fun v h => hne h.1) (by intro n h; cases h) (pushOperator_quiet hpush)
  | opCode opcd =>
    rw [asmStep, stepOpCode] at h
    split at h
    · cases h
    · rename_i g hconfirm
      cases h
      obtain rfl := confirmArgs_ok hconfirm hok
      exact .opCode
  | register value =>
    cases h
    exact .register
  | «open» | openIndex =>
    obtain ⟨g, hpush, rfl⟩ := withGlobals_ok h
    exact .opened (by simp) (pushOperator_quiet hpush)
  | close | closeIndex =>
    rw [asmStep, stepClose] at h
    split at h
    · cases h
    · rename_i value g hexpr
      cases h
      exact .closed (by simp [Atom.IsClose]) hexpr
  | seperator text => exact stepSeperator_effect h hok
  | comment | bit =>
    cases h
    exact .plain (by simp [Atom.type]) (by intro n h; cases h) (.refl _)

theorem Effect.opCode_eq {opcd : OpCode} (h : Effect patom s (.opCode opcd) s') :
    s' = { s with
      program := Function.update s.program s.index { clearedInstruction with number := opcd.number }
      index := s.index + 1
      pc := s.pc + 1
      expect := expectOf opcd } := by
  generalize hatom : Atom.opCode opcd = atom at h
  cases h with
  | opCode =>
    cases hatom
    rfl
  | opened hopen => obtain rfl | rfl := hopen <;> cases hatom
  | closed hclose => obtain rfl | rfl := hclose <;> cases hatom
  | quiet hop => exact absurd ⟨opcd, hatom.symm⟩ hop
  | literal | operand | label | directive | register => cases hatom

theorem Effect.comment_eq {text : List Char}
    (h : Effect patom s (.comment text) s') : ∃ g, Quiet s.globals g ∧ s' = { s with globals := g } := by
  generalize hatom : Atom.comment text = atom at h
  cases h with
  | quiet _ _ _ _ _ hg => exact ⟨_, hg, rfl⟩
  | opened hopen => obtain rfl | rfl := hopen <;> cases hatom
  | closed hclose => obtain rfl | rfl := hclose <;> cases hatom
  | literal | operand | label | directive | opCode | register => cases hatom

theorem Effect.operand_eq {name : Name} (h : Effect patom s (.alpha name) s') (hlit : s.expect.lit = true) :
    ∃ g, Quiet s.globals g ∧ s' = { clearLit (setSrc1 { s with globals := g } (s.globals.symbols.value name)) with
      forward := if s.globals.symbols.value name = 0 then s.forward ++ [(s.index - 1, name)] else s.forward } := by
  generalize hatom : Atom.alpha name = atom at h
  cases h with
  | operand _ hg =>
    cases hatom
    exact ⟨_, hg, rfl⟩
  | quiet _ _ _ _ hfalse =>
    have hno := hfalse name hatom.symm
    rw [hlit] at hno
    cases hno
  | opened hopen => obtain rfl | rfl := hopen <;> cases hatom
  | closed hclose => obtain rfl | rfl := hclose <;> cases hatom
  | literal | label | directive | opCode | register => cases hatom

theorem Effect.errors (h : Effect patom s atom s') (hok : s'.globals.errors = []) : s.globals.errors = [] := by
  cases h with
  | literal | directive | opCode => exact hok
  | operand _ hg => exact hg.errors.symm.trans hok
  | label _ _ herrors => exact herrors.symm.trans hok
  | register =>
    unfold stepRegister at hok
    split at hok
    · exact hok
    split at hok
    · exact hok
    split at hok
    · exact hok
    · exact hok
  | opened _ hg => exact hg.errors.symm.trans hok
  | closed _ hexpr => exact (doExpressionLoop_follows hexpr).1 hok
  | quiet _ _ _ _ _ hg => exact hg.errors.symm.trans hok

end Step

/-! ## A whole text -/

def prevAtom (atoms : List Atom) : ℕ → Option Atom
  | 0 => none
  | i + 1 => atoms[i]?

/-- The state before atom `i`, as long as the assembler gets there. -/
def stateAt (atoms : List Atom) : ℕ → State
  | 0 => startState []
  | i + 1 => match atoms[i]? with
    | none => stateAt atoms i
    | some atom => match asmStep (stateAt atoms i) (prevAtom atoms i) atom (atoms.drop (i + 1)) with
      | .ok s => s
      | .error _ => stateAt atoms i

/-- The atoms of a text that the assembler went through without an error, and the state it ended in. -/
structure Accepted (atoms : List Atom) (r : State) : Prop where
  effect : ∀ i atom, atoms[i]? = some atom → Effect (prevAtom atoms i) (stateAt atoms i) atom (stateAt atoms (i + 1))
  final : stateAt atoms atoms.length = r

theorem asmLoop_errors {s r : State} {patom : Option Atom} {atoms : List Atom} (h : asmLoop s patom atoms = .ok r)
    (hok : r.globals.errors = []) : s.globals.errors = [] := by
  induction atoms generalizing s patom with
  | nil =>
    cases h
    exact hok
  | cons atom rest ih =>
    rw [asmLoop] at h
    split at h
    · cases h
    · rename_i s' hstep
      have hok' := ih h
      exact (asmStep_effect hstep hok').errors hok'

/-- From place `i` on, the loop goes through the states of `stateAt`. -/
theorem asmLoop_stateAt {atoms : List Atom} {r : State} (hok : r.globals.errors = []) (rest : List Atom) (i : ℕ)
    (hrest : atoms.drop i = rest) (h : asmLoop (stateAt atoms i) (prevAtom atoms i) rest = .ok r) :
    stateAt atoms (i + rest.length) = r ∧ ∀ j, i ≤ j → ∀ atom, atoms[j]? = some atom →
      Effect (prevAtom atoms j) (stateAt atoms j) atom (stateAt atoms (j + 1)) := by
  induction rest generalizing i with
  | nil =>
    cases h
    refine ⟨rfl, ?_⟩
    intro j hj atom hatom
    have hlength : atoms.length ≤ i := by simpa using hrest
    obtain ⟨hlt, -⟩ := List.getElem?_eq_some_iff.mp hatom
    omega
  | cons atom rest ih =>
    have hget : atoms[i]? = some atom := by
      rw [← List.head?_drop, hrest]
      rfl
    have hdrop : atoms.drop (i + 1) = rest := by
      rw [← List.tail_drop, hrest]
      rfl
    rw [asmLoop] at h
    split at h
    · cases h
    · rename_i s' hstep
      have hnext : stateAt atoms (i + 1) = s' := by
        rw [stateAt, hget]
        simp only
        rw [hdrop, hstep]
      rw [← hnext] at h hstep
      have hprev : prevAtom atoms (i + 1) = some atom := hget
      rw [← hprev] at h
      obtain ⟨hfinal, hsteps⟩ := ih (i + 1) hdrop h
      refine ⟨?_, ?_⟩
      · rw [List.length_cons, ← hfinal]
        congr 1
        omega
      · intro j hj next hnext'
        by_cases hij : j = i
        · rw [hij, hget] at hnext'
          cases hnext'
          rw [hij]
          exact asmStep_effect hstep (asmLoop_errors h hok)
        · exact hsteps j (by omega) next hnext'

def atomsOf (text : List Char) : List Atom :=
  match sourceAtoms text with
  | .ok (atoms, _) => atoms
  | .error _ => []

theorem accepted_of_assemble {text : List Char} {r : State} (h : assemble text = .ok r) (hok : r.globals.errors = []) :
    Accepted (atomsOf text) r := by
  unfold assemble at h
  unfold atomsOf
  split at h
  · cases h
  · rename_i atoms errors hsource
    rw [hsource]
    obtain rfl : errors = [] := asmLoop_errors h hok
    obtain ⟨hfinal, hsteps⟩ := asmLoop_stateAt hok atoms 0 rfl h
    rw [Nat.zero_add] at hfinal
    exact ⟨fun i atom hatom => hsteps i (Nat.zero_le i) atom hatom, hfinal⟩

/-- Run the assembler and look at the state it ends in. -/
theorem exists_assemble {text : List Char} {p : State → Prop} [DecidablePred p]
    (h : (assemble text).toOption.any (fun r => decide (p r)) = true) : ∃ r, assemble text = .ok r ∧ p r := by
  cases hrun : assemble text with
  | error stop =>
    rw [hrun] at h
    cases h
  | ok r =>
    rw [hrun] at h
    exact ⟨r, rfl, of_decide_eq_true h⟩

/-! ## Places in a text -/

def OpCodeAt (atoms : List Atom) (i : ℕ) : Prop := ∃ opcd, atoms[i]? = some (.opCode opcd)

def CloseAt (atoms : List Atom) (i : ℕ) : Prop := ∃ atom, atoms[i]? = some atom ∧ atom.IsClose

/-- A name with a colon behind it. -/
def LabelAt (atoms : List Atom) (l : ℕ) (name : Name) : Prop :=
  atoms[l]? = some (.alpha name) ∧ atoms[l + 1]? = some (.operator .lbl)

/-- A number with a colon behind it: the load address. -/
def DirectiveAt (atoms : List Atom) (d : ℕ) (value : BitVec 32) : Prop :=
  atoms[d]? = some (.numeric value) ∧ atoms[d + 1]? = some (.operator .lbl)

/-- The op-code at `i` takes a literal or an address, and its operand is the name at `j`; only comments
are between them. -/
def OperandAt (atoms : List Atom) (i j : ℕ) (name : Name) : Prop :=
  (∃ opcd, atoms[i]? = some (.opCode opcd) ∧ (opcd.src1 = .literal ∨ opcd.src1 = .address)) ∧ i < j ∧
    (∀ m, i < m → m < j → ∃ text, atoms[m]? = some (.comment text)) ∧ atoms[j]? = some (.alpha name)

def isOpCode : Atom → Bool
  | .opCode _ => true
  | _ => false

def opCodesBefore (atoms : List Atom) (i : ℕ) : ℕ := (atoms.take i).countP isOpCode

theorem prevAtom_eq_some {atoms : List Atom} {i : ℕ} {atom : Atom} (h : prevAtom atoms i = some atom) :
    ∃ j, i = j + 1 ∧ atoms[j]? = some atom := by
  cases i with
  | zero => cases h
  | succ j => exact ⟨j, rfl, h⟩

theorem opCodesBefore_succ {atoms : List Atom} {i : ℕ} {atom : Atom} (h : atoms[i]? = some atom) :
    opCodesBefore atoms (i + 1) = opCodesBefore atoms i + (if isOpCode atom then 1 else 0) := by
  unfold opCodesBefore
  rw [List.take_add_one, h, List.countP_append]
  cases hop : isOpCode atom <;> simp [hop]

/-! ## What every run does -/

/-- A register goes to one field of the current instruction, to the first source only where it is expected. -/
theorem stepRegister_eq (s : State) (value : BitVec 32) :
    ∃ f expect, stepRegister s value = { modifyInst s f with expect := expect } ∧
      (s.expect.sr1 = false → ∀ inst, (f inst).src1 = inst.src1) ∧ expect.lit = s.expect.lit ∧ expect.sr1 = false := by
  unfold stepRegister
  by_cases hsr1 : s.expect.sr1 = true
  · rw [if_pos hsr1]
    exact ⟨_, _, rfl, fun hfalse => absurd (hsr1.symm.trans hfalse) (by decide), rfl, rfl⟩
  have hfalse : s.expect.sr1 = false := by simpa using hsr1
  rw [if_neg hsr1]
  split
  · exact ⟨_, _, rfl, fun _ _ => rfl, rfl, hfalse⟩
  split
  · exact ⟨_, _, rfl, fun _ _ => rfl, rfl, hfalse⟩
  · refine ⟨id, s.expect, ?_, fun _ _ => rfl, rfl, hfalse⟩
    unfold modifyInst
    rw [id, Function.update_eq_self]

theorem isOpCode_eq_false {atom : Atom} (h : ¬ atom.IsOpCode) : isOpCode atom = false := by
  cases atom with
  | opCode opcd => exact absurd ⟨opcd, rfl⟩ h
  | numeric | alpha | seperator | operator | «open» | close | comment | openIndex | closeIndex | bit | register => rfl

theorem Effect.index {patom : Option Atom} {s s' : State} {atom : Atom} (h : Effect patom s atom s') :
    s'.index = s.index + (if isOpCode atom then 1 else 0) := by
  cases h with
  | literal | operand | label | directive | opCode => rfl
  | register =>
    rename_i value
    obtain ⟨f, expect, heq, -⟩ := stepRegister_eq s value
    rw [heq]
    rfl
  | opened hatom =>
    obtain rfl | rfl := hatom
    · rfl
    · rfl
  | closed hatom =>
    obtain rfl | rfl := hatom
    · rfl
    · rfl
  | quiet hop =>
    rw [isOpCode_eq_false hop]
    rfl

section Run
variable {atoms : List Atom} {r : State}

theorem Accepted.effectAt (h : Accepted atoms r) {i : ℕ} (hi : i < atoms.length) :
    ∃ atom, atoms[i]? = some atom ∧ Effect (prevAtom atoms i) (stateAt atoms i) atom (stateAt atoms (i + 1)) := by
  have hget : atoms[i]? = some atoms[i] := List.getElem?_eq_getElem hi
  exact ⟨atoms[i], hget, h.effect i _ hget⟩

theorem Accepted.index (h : Accepted atoms r) {i : ℕ} (hi : i ≤ atoms.length) :
    (stateAt atoms i).index = opCodesBefore atoms i := by
  induction i with
  | zero => rfl
  | succ i ih =>
    obtain ⟨atom, hget, heffect⟩ := h.effectAt hi
    rw [opCodesBefore_succ hget, heffect.index, ih (by omega)]

/-- At a label the symbol has the value 0, and takes the program counter. -/
theorem Accepted.label (h : Accepted atoms r) {l : ℕ} {name : Name} (hl : LabelAt atoms l name) :
    (stateAt atoms (l + 1)).globals.symbols.value name = 0 ∧
    (stateAt atoms (l + 2)).globals.symbols.value =
      Function.update (stateAt atoms (l + 1)).globals.symbols.value name (stateAt atoms (l + 1)).pc ∧
    (stateAt atoms (l + 2)).globals.symbols.defined =
      Function.update (stateAt atoms (l + 1)).globals.symbols.defined name true := by
  have hprev : prevAtom atoms (l + 1) = some (.alpha name) := hl.1
  have heffect := h.effect (l + 1) _ hl.2
  rw [hprev] at heffect
  generalize stateAt atoms (l + 1) = s at heffect
  generalize stateAt atoms (l + 1 + 1) = s' at heffect
  cases heffect with
  | label heq hzero _ hvalue hdefined =>
    cases heq
    exact ⟨hzero, hvalue, hdefined⟩
  | directive heq => cases heq
  | opened hatom => obtain heq | heq := hatom <;> cases heq
  | closed hatom => obtain heq | heq := hatom <;> cases heq
  | quiet _ _ hlabel => exact absurd ⟨rfl, rfl⟩ (hlabel name)

end Run

end HtDrivers.Mttn
