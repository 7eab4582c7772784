import HtDrivers.Mttn.AsmRun

/-! # What the assembler checks

Pass 1 reports an error in five places: at an op-code whose arguments do not follow, at a colon behind a
name or a number, where an expression is evaluated, and at a separator before an operand that is still
expected. `Passes` is the test made at one atom, on the state before it, and a text is let through exactly
when it passes at every atom (`assemble_accepts_iff`). No test looks at whether a symbol is defined.
-/
namespace HtDrivers.Mttn
set_option autoImplicit false

/-! ## Expressions -/

/-- The operands that an operator takes from the stack. -/
def operandCount : OprId → ℕ
  | .ne | .eq | .gt | .ge | .lt | .le | .as | .pl | .mi | .ti | .di | .and | .or | .xor | .lsh | .rsh => 2
  | .not | .neg | .inc | .decr | .pop => 1
  | .stm | .noop | .lbl => 0

/-- The operators that write to the lowest of their operands. -/
def writesBack (oprId : OprId) : Bool := oprId = .inc ∨ oprId = .decr ∨ oprId = .as

/-- The operands are there, and the one that is written to is a symbol. -/
def Applies (oprId : OprId) (g : Globals) : Prop :=
  operandCount oprId ≤ g.operandStackSize ∧ (writesBack oprId = true →
    ((g.operandStack (g.operandStackSize - operandCount oprId)).symbolRef).isSome)

/-- Every operator applies, and one of them returns a value before the stack is empty. -/
def Evaluates : List OprId → Globals → Prop
  | [], _ => False
  | oprId :: operators, g => Applies oprId g ∧
    match applyOpr oprId { g with operatorStack := operators } with
    | .ok (none, g') => Evaluates operators g'
    | _ => True

section Applied
variable {g : Globals} {out : Option (BitVec 32) × Globals}

theorem withOperand_errors {k : Operand → Globals → Applied} (h : withOperand g k = .ok out)
    (hok : out.2.errors = []) :
    0 < g.operandStackSize ∧ k (g.operandStack (g.operandStackSize - 1))
      { g with operandStackSize := g.operandStackSize - 1 } = .ok out := by
  obtain ⟨-, -, herr, -⟩ | ⟨size, hsize, hrest⟩ := withOperand_cases h
  · exact absurd hok herr
  · rw [hsize]
    exact ⟨Nat.succ_pos size, hrest⟩

theorem withOperand_pos {k : Operand → Globals → Applied} (hpos : 0 < g.operandStackSize) :
    withOperand g k = k (g.operandStack (g.operandStackSize - 1))
      { g with operandStackSize := g.operandStackSize - 1 } := by
  unfold withOperand popOperand
  cases hsize : g.operandStackSize with
  | zero => omega
  | succ size => rfl

theorem report_applied {type : ErrorType} {text : String}
    (h : (report g type text).map (fun g => ((none : Option (BitVec 32)), g)) = .ok out) : out.2.errors ≠ [] := by
  cases hreport : report g type text with
  | error stop =>
    rw [hreport] at h
    cases h
  | ok g' =>
    rw [hreport] at h
    cases h
    exact report_errors hreport

theorem unary_errors {f : BitVec 32 → BitVec 32} (h : unary f g = .ok out) (hg : g.errors = []) :
    out.2.errors = [] ↔ 1 ≤ g.operandStackSize := by
  constructor
  · intro hok
    exact (withOperand_errors h hok).1
  · intro hpos
    rw [unary, withOperand_pos hpos] at h
    obtain ⟨-, herrors, -⟩ := pushResult_ok h
    rw [herrors, hg]

theorem binary_errors {f : BitVec 32 → BitVec 32 → Option (BitVec 32)} (h : binary f g = .ok out)
    (hg : g.errors = []) : out.2.errors = [] ↔ 2 ≤ g.operandStackSize := by
  constructor
  · intro hok
    obtain ⟨hpos, hrest⟩ := withOperand_errors h hok
    have hpos' : 0 < g.operandStackSize - 1 := (withOperand_errors hrest hok).1
    omega
  · intro hsize
    rw [binary, withOperand_pos (by omega), withOperand_pos (Nat.sub_pos_of_lt hsize)] at h
    generalize f _ _ = result at h
    cases result with
    | none => cases h
    | some value =>
      obtain ⟨-, herrors, -⟩ := pushResult_ok h
      rw [herrors, hg]

theorem writeBack_errors {f : BitVec 32 → BitVec 32} {text : String} (h : writeBack f text g = .ok out)
    (hg : g.errors = []) : out.2.errors = [] ↔
      1 ≤ g.operandStackSize ∧ ((g.operandStack (g.operandStackSize - 1)).symbolRef).isSome := by
  by_cases hpos : 0 < g.operandStackSize
  · rw [writeBack, withOperand_pos hpos] at h
    cases href : (g.operandStack (g.operandStackSize - 1)).symbolRef with
    | some name =>
      rw [href] at h
      obtain ⟨-, herrors, -⟩ := pushResult_ok h
      rw [herrors]
      simp only [Option.isSome_some, and_true]
      exact ⟨fun _ => hpos, fun _ => hg⟩
    | none =>
      rw [href] at h
      simpa using report_applied h
  · constructor
    · intro hok
      exact absurd (withOperand_errors h hok).1 hpos
    · exact fun hand => absurd hand.1 hpos

theorem assign_errors (h : assign g = .ok out) (hg : g.errors = []) : out.2.errors = [] ↔
    2 ≤ g.operandStackSize ∧ ((g.operandStack (g.operandStackSize - 2)).symbolRef).isSome := by
  by_cases hsize : 2 ≤ g.operandStackSize
  · rw [assign, withOperand_pos (by omega), withOperand_pos (Nat.sub_pos_of_lt hsize)] at h
    simp only [Nat.sub_sub] at h
    cases href : (g.operandStack (g.operandStackSize - 2)).symbolRef with
    | some name =>
      rw [href] at h
      obtain ⟨-, herrors, -⟩ := pushResult_ok h
      rw [herrors]
      simp only [Option.isSome_some, and_true]
      exact ⟨fun _ => hsize, fun _ => hg⟩
    | none =>
      rw [href] at h
      simpa using report_applied h
  · constructor
    · intro hok
      obtain ⟨hpos, hrest⟩ := withOperand_errors h hok
      have hpos' : 0 < g.operandStackSize - 1 := (withOperand_errors hrest hok).1
      omega
    · exact fun hand => absurd hand.1 hsize

/-- An operator reports no error exactly when it applies. -/
theorem applyOpr_errors {oprId : OprId} (h : applyOpr oprId g = .ok out) (hg : g.errors = []) :
    out.2.errors = [] ↔ Applies oprId g := by
  unfold Applies
  cases oprId with
  | ne | eq | gt | ge | lt | le | pl | mi | ti | di | and | or | xor | lsh | rsh =>
    rw [applyOpr] at h
    rw [binary_errors h hg]
    simp [operandCount, writesBack]
  | not | neg =>
    rw [applyOpr] at h
    rw [unary_errors h hg]
    simp [operandCount, writesBack]
  | inc | decr =>
    rw [applyOpr] at h
    rw [writeBack_errors h hg]
    simp [operandCount, writesBack]
  | as =>
    rw [applyOpr] at h
    rw [assign_errors h hg]
    simp [operandCount, writesBack]
  | pop =>
    rw [applyOpr] at h
    simp only [operandCount, writesBack, reduceCtorEq, or_self, decide_false, Bool.false_eq_true, false_implies,
      and_true]
    constructor
    · intro hok
      exact (withOperand_errors h hok).1
    · intro hpos
      rw [withOperand_pos hpos] at h
      cases h
      exact hg
  | stm =>
    rw [applyOpr] at h
    split at h
    · cases h
      simp [operandCount, writesBack, hg]
    · cases h
  | noop | lbl =>
    cases h
    simp [operandCount, writesBack, hg]

end Applied

theorem doExpressionLoop_errors {operators : List OprId} {g : Globals} {out : BitVec 32 × Globals}
    (h : doExpressionLoop operators g = .ok out) (hg : g.errors = []) :
    out.2.errors = [] ↔ Evaluates operators g := by
  induction operators generalizing g with
  | nil =>
    rw [doExpressionLoop] at h
    rw [Evaluates, iff_false]
    cases hreport : report { g with operatorStack := [] } .runTime "Operator stack underflow" with
    | error stop =>
      rw [hreport] at h
      cases h
    | ok g' =>
      rw [hreport] at h
      cases h
      exact report_errors hreport
  | cons oprId operators ih =>
    rw [doExpressionLoop] at h
    rw [Evaluates]
    cases happly : applyOpr oprId { g with operatorStack := operators } with
    | error stop =>
      rw [happly] at h
      cases h
    | ok applied =>
      have happlies : applied.2.errors = [] ↔ Applies oprId g :=
        @applyOpr_errors { g with operatorStack := operators } applied oprId happly hg
      obtain ⟨result, g'⟩ := applied
      rw [happly] at h
      cases result with
      | some value =>
        cases h
        rw [happlies]
        simp
      | none =>
        change doExpressionLoop operators g' = .ok out at h
        constructor
        · intro hok
          have hg' : g'.errors = [] := (doExpressionLoop_follows h).1 hok
          exact ⟨happlies.mp hg', (ih h hg').mp hok⟩
        · rintro ⟨hopr, hrest⟩
          exact (ih h (happlies.mpr hopr)).mpr hrest

/-! ## One atom -/

/-- The arguments that an op-code expects follow it. -/
def ArgsFollow : List (AtomType × String) → Atom → List Atom → Prop
  | [], _, _ => True
  | (type, _) :: args, atom, rest =>
    compareAtomTypes atom.type type = true ∧ ArgsFollow args (nextArg atom rest).1 (nextArg atom rest).2

/-- The test that the assembler makes at an atom. -/
def Passes (patom : Option Atom) (s : State) (atom : Atom) (rest : List Atom) : Prop :=
  match atom with
  | .operator oprId => oprId = .lbl → (∀ name, patom = some (.alpha name) → s.globals.symbols.value name = 0) ∧
    ∀ value, patom = some (.numeric value) → s.pc = 0
  | .opCode opcd => ArgsFollow (expectOf opcd).args (nextArg (.opCode opcd) rest).1 (nextArg (.opCode opcd) rest).2
  | .close | .closeIndex => Evaluates s.globals.operatorStack s.globals
  | .seperator _ => s.expect.lit = false
  | .numeric _ | .alpha _ | .register _ | .open | .openIndex | .comment _ | .bit => True

section Step
variable {patom : Option Atom} {s s' : State} {atom : Atom} {rest : List Atom}

theorem confirmArgs_errors {g g' : Globals} {args : List (AtomType × String)}
    (h : confirmArgs g args atom rest = .ok g') (hg : g.errors = []) : g'.errors = [] ↔ ArgsFollow args atom rest := by
  induction args generalizing atom rest with
  | nil =>
    cases h
    simp [ArgsFollow, hg]
  | cons arg args ih =>
    rw [confirmArgs] at h
    rw [ArgsFollow]
    by_cases htype : compareAtomTypes atom.type arg.1 = true
    · rw [if_pos htype] at h
      rw [ih h]
      simp [htype]
    · rw [if_neg htype] at h
      have hne := report_errors h
      simp [htype, hne]

theorem withGlobals_errors {x : Except Stop Globals} (h : withGlobals s x = .ok s')
    (hquiet : ∀ g, x = .ok g → Quiet s.globals g) (hs : s.globals.errors = []) : s'.globals.errors = [] := by
  obtain ⟨g, hx, rfl⟩ := withGlobals_ok h
  exact (hquiet g hx).errors.trans hs

theorem withGlobals_report {type : ErrorType} {text : String}
    (h : withGlobals s (report s.globals type text) = .ok s') : s'.globals.errors ≠ [] := by
  obtain ⟨g, hreport, rfl⟩ := withGlobals_ok h
  exact report_errors hreport

theorem stepAlpha_errors {name : Name} (h : stepAlpha s name = .ok s') (hs : s.globals.errors = []) :
    s'.globals.errors = [] := by
  unfold stepAlpha at h
  cases hsymbol : getSymbol s.globals name with
  | error stop =>
    rw [hsymbol] at h
    cases h
  | ok g =>
    have hquiet := getSymbol_quiet hsymbol
    rw [hsymbol] at h
    simp only at h
    by_cases hlit : s.expect.lit = true
    · rw [if_pos hlit, stepOperand] at h
      simp only at h
      split at h
      · split at h
        · exact absurd h fatal_ne_ok
        · cases h
          exact hquiet.errors.trans hs
      · cases h
        exact hquiet.errors.trans hs
    · rw [if_neg hlit] at h
      exact withGlobals_errors h (fun g' hpush => hquiet.trans (pushOperand_quiet hpush)) hs

theorem defineLabel_errors {g g' : Globals} {name : Name} {pc : BitVec 32} (h : defineLabel g name pc = .ok g')
    (hg : g.errors = []) : g'.errors = [] ↔ g.symbols.value name = 0 := by
  constructor
  · exact fun hok => (defineLabel_ok h hok).1
  · intro hzero
    unfold defineLabel at h
    cases hsymbol : getSymbol g name with
    | error stop =>
      rw [hsymbol] at h
      cases h
    | ok g'' =>
      have hquiet := getSymbol_quiet hsymbol
      have hzero' : ¬ g''.symbols.value name ≠ 0 := by
        rw [hquiet.value]
        exact not_not.mpr hzero
      rw [hsymbol] at h
      simp only [if_neg hzero'] at h
      cases h
      exact hquiet.errors.trans hg

theorem stepLabel_errors (h : stepLabel s patom = .ok s') (hs : s.globals.errors = []) :
    s'.globals.errors = [] ↔ Passes patom s (.operator .lbl) rest := by
  have hpasses : Passes patom s (.operator .lbl) rest ↔
      (∀ name, patom = some (.alpha name) → s.globals.symbols.value name = 0) ∧
      ∀ value, patom = some (.numeric value) → s.pc = 0 := ⟨fun hp => hp rfl, fun hp _ => hp⟩
  rw [hpasses]
  cases patom with
  | none => cases h
  | some prev =>
    cases prev with
    | alpha name =>
      obtain ⟨g, hdefine, rfl⟩ := withGlobals_ok h
      simpa using defineLabel_errors hdefine hs
    | numeric value =>
      rw [stepLabel] at h
      by_cases hpc : s.pc = 0
      · rw [if_pos hpc] at h
        cases h
        simp [hs, hpc]
      · rw [if_neg hpc] at h
        exact iff_of_false (withGlobals_report h) fun hand => hpc (hand.2 value rfl)
    | seperator | operator | «open» | close | comment | openIndex | closeIndex | bit | opCode | register =>
      cases h
      simp [hs]

theorem stepSeperator_errors (h : stepSeperator s = .ok s') (hs : s.globals.errors = []) :
    s'.globals.errors = [] ↔ s.expect.lit = false := by
  unfold stepSeperator at h
  cases hlit : s.expect.lit with
  | true =>
    simp only [hlit, if_true] at h
    obtain ⟨g, hreport, rfl⟩ := withGlobals_ok h
    simpa using report_errors hreport
  | false =>
    simp only [hlit, Bool.false_eq_true, if_false] at h
    cases h
    simpa [resetStacks] using hs

/-- One atom: no error is added exactly when it passes. -/
theorem asmStep_errors (h : asmStep s patom atom rest = .ok s') (hs : s.globals.errors = []) :
    s'.globals.errors = [] ↔ Passes patom s atom rest := by
  cases atom with
  | numeric value =>
    refine iff_of_true ?_ trivial
    rw [asmStep, stepNumeric] at h
    split at h
    · cases h
      exact hs
    · exact withGlobals_errors h (fun g hpush => pushOperand_quiet hpush) hs
  | alpha name => exact iff_of_true (stepAlpha_errors h hs) trivial
  | operator oprId =>
    rw [asmStep] at h
    by_cases hlbl : oprId = .lbl
    · rw [if_pos hlbl] at h
      rw [hlbl]
      exact stepLabel_errors h hs
    · rw [if_neg hlbl] at h
      have hpasses : Passes patom s (.operator oprId) rest := fun heq => absurd heq hlbl
      exact iff_of_true (withGlobals_errors h (fun g hpush => pushOperator_quiet hpush) hs) hpasses
  | opCode opcd =>
    rw [asmStep, stepOpCode] at h
    cases hconfirm : getConfirm s.globals (.opCode opcd) rest (expectOf opcd) with
    | error stop =>
      rw [hconfirm] at h
      cases h
    | ok g =>
      rw [hconfirm] at h
      cases h
      exact confirmArgs_errors hconfirm hs
  | register value =>
    cases h
    refine iff_of_true ?_ trivial
    obtain ⟨f, expect, heq, -⟩ := stepRegister_eq s value
    rw [heq]
    exact hs
  | «open» | openIndex =>
    exact iff_of_true (withGlobals_errors h (fun g hpush => pushOperator_quiet hpush) hs) trivial
  | close | closeIndex =>
    rw [asmStep, stepClose] at h
    cases hexpr : doExpression s.globals with
    | error stop =>
      rw [hexpr] at h
      cases h
    | ok out =>
      rw [hexpr] at h
      cases h
      exact doExpressionLoop_errors hexpr hs
  | seperator text => exact stepSeperator_errors h hs
  | comment | bit =>
    cases h
    exact iff_of_true hs trivial

end Step

/-! ## A whole text -/

/-- The atoms from place `i` on pass, each in the state that the atoms before it lead to. -/
def PassFrom (atoms : List Atom) (i : ℕ) : Prop :=
  ∀ j, i ≤ j → ∀ atom, atoms[j]? = some atom →
    Passes (prevAtom atoms j) (stateAt atoms j) atom (atoms.drop (j + 1))

theorem passFrom_succ {atoms : List Atom} {i : ℕ} {atom : Atom} (hget : atoms[i]? = some atom) :
    PassFrom atoms i ↔
      Passes (prevAtom atoms i) (stateAt atoms i) atom (atoms.drop (i + 1)) ∧ PassFrom atoms (i + 1) := by
  constructor
  · intro h
    exact ⟨h i (Nat.le_refl i) atom hget, fun j hj => h j (by omega)⟩
  · rintro ⟨hthis, hrest⟩ j hj other hother
    obtain rfl | hlt := Nat.eq_or_lt_of_le hj
    · rw [hget] at hother
      cases hother
      exact hthis
    · exact hrest j hlt other hother

/-- A run without errors up to place `i` ends without errors exactly when the rest of the text passes. -/
theorem asmLoop_errors_iff {atoms : List Atom} {r : State} (rest : List Atom) (i : ℕ) (hrest : atoms.drop i = rest)
    (h : asmLoop (stateAt atoms i) (prevAtom atoms i) rest = .ok r) (hs : (stateAt atoms i).globals.errors = []) :
    r.globals.errors = [] ↔ PassFrom atoms i := by
  induction rest generalizing i with
  | nil =>
    cases h
    refine iff_of_true hs ?_
    intro j hj atom hatom
    have hlength : atoms.length ≤ i := by simpa using hrest
    obtain ⟨hlt, -⟩ := List.getElem?_eq_some_iff.mp hatom
    omega
  | cons atom rest ih =>
    have hget : atoms[i]? = some atom := by
      rw [← List.head?_drop, hrest]
      rfl
    have hdrop : atoms.drop (i + 1) = rest := by
      rw [← List.tail_drop, hrest]
      rfl
    rw [asmLoop] at h
    cases hstep : asmStep (stateAt atoms i) (prevAtom atoms i) atom rest with
    | error stop =>
      rw [hstep] at h
      cases h
    | ok s' =>
      have hnext : stateAt atoms (i + 1) = s' := by
        rw [stateAt, hget]
        simp only
        rw [hdrop, hstep]
      have hprev : prevAtom atoms (i + 1) = some atom := hget
      rw [hstep] at h
      simp only at h
      rw [← hnext] at h hstep
      rw [← hprev] at h
      have hiff := asmStep_errors hstep hs
      rw [passFrom_succ hget, hdrop, ← hiff]
      constructor
      · intro hok
        have hok' := asmLoop_errors h hok
        exact ⟨hok', (ih (i + 1) hdrop h hok').mp hok⟩
      · rintro ⟨hok', hpass⟩
        exact (ih (i + 1) hdrop h hok').mpr hpass

/-- The text has no illegal character, and every atom passes in the state before it. -/
def LetThrough (text : List Char) : Prop :=
  (∀ atoms errors, sourceAtoms text = .ok (atoms, errors) → errors = []) ∧ PassFrom (atomsOf text) 0

/-- The texts that the assembler lets through. -/
theorem assemble_accepts_iff {text : List Char} {r : State} (h : assemble text = .ok r) :
    r.globals.errors = [] ↔ LetThrough text := by
  unfold assemble at h
  unfold LetThrough atomsOf
  cases hsource : sourceAtoms text with
  | error stop =>
    rw [hsource] at h
    cases h
  | ok source =>
    obtain ⟨atoms, errors⟩ := source
    rw [hsource] at h
    simp only [Except.ok.injEq, Prod.mk.injEq] at h ⊢
    constructor
    · intro hok
      obtain rfl : errors = [] := asmLoop_errors h hok
      refine ⟨?_, (asmLoop_errors_iff atoms 0 rfl h rfl).mp hok⟩
      rintro _ _ ⟨rfl, rfl⟩
      rfl
    · rintro ⟨hlexed, hpass⟩
      obtain rfl : errors = [] := hlexed atoms errors ⟨rfl, rfl⟩
      exact (asmLoop_errors_iff atoms 0 rfl h rfl).mpr hpass

end HtDrivers.Mttn
