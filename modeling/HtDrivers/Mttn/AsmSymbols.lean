import HtDrivers.Mttn.AsmChecks

/-! # The symbols of a text

An op-code's operand should be defined somewhere in the text, and a label should have one address. The
assembler tests neither, and here is said which texts get past the tests it does make. It does keep track of
what is defined, in a flag that only the listing reads.
-/
namespace HtDrivers.Mttn
set_option autoImplicit false

/-- The expression that ends at the bracket assigns to the name. -/
def AssignedAt (atoms : List Atom) (c : ℕ) (name : Name) : Prop :=
  CloseAt atoms c ∧ name ∈ assignedNames (stateAt atoms c).globals.operatorStack (stateAt atoms c).globals

/-- The name is a label, or an expression assigns to it. -/
def DefinedIn (atoms : List Atom) (name : Name) : Prop :=
  (∃ l, LabelAt atoms l name) ∨ ∃ c, AssignedAt atoms c name

/-- A symbol becomes defined by a colon behind its name or by an assignment, and stays so. -/
theorem Effect.defined {patom : Option Atom} {s s' : State} {atom : Atom} (h : Effect patom s atom s') (name : Name) :
    s'.globals.symbols.defined name = true ↔ s.globals.symbols.defined name = true ∨
      (atom = .operator .lbl ∧ patom = some (.alpha name)) ∨
      (atom.IsClose ∧ name ∈ assignedNames s.globals.operatorStack s.globals) := by
  have hquiet : s'.globals.symbols.defined name = s.globals.symbols.defined name → ¬ atom.IsClose →
      ¬ (atom = .operator .lbl ∧ patom = some (.alpha name)) →
      (s'.globals.symbols.defined name = true ↔ s.globals.symbols.defined name = true ∨
        (atom = .operator .lbl ∧ patom = some (.alpha name)) ∨
        (atom.IsClose ∧ name ∈ assignedNames s.globals.operatorStack s.globals)) := by
    intro hsame hclose hlabel
    rw [hsame]
    constructor
    · exact .inl
    · rintro (hdefined | hand | ⟨hyes, -⟩)
      · exact hdefined
      · exact absurd hand hlabel
      · exact absurd hyes hclose
  cases h with
  | literal | opCode => exact hquiet rfl (by simp [Atom.IsClose]) (by simp)
  | operand _ hg => exact hquiet (congrFun hg.defined name) (by simp [Atom.IsClose]) (by simp)
  | directive hprev => exact hquiet rfl (by simp [Atom.IsClose]) (by simp [hprev])
  | register =>
    rename_i value
    obtain ⟨f, expect, heq, -⟩ := stepRegister_eq s value
    exact hquiet (by rw [heq]; rfl) (by simp [Atom.IsClose]) (by simp)
  | opened hopen hg =>
    obtain rfl | rfl := hopen
    · exact hquiet (congrFun hg.defined name) (by simp [Atom.IsClose]) (by simp)
    · exact hquiet (congrFun hg.defined name) (by simp [Atom.IsClose]) (by simp)
  | quiet _ hclose hlabel _ _ hg => exact hquiet (congrFun hg.defined name) hclose (hlabel name)
  | @label other g hprev _ _ _ hdefined =>
    have hclose : ¬ (Atom.operator .lbl).IsClose := by simp [Atom.IsClose]
    by_cases hname : other = name
    · rw [hname] at hprev hdefined
      simp [hdefined, hprev]
    · have hne : ¬ (some (Atom.alpha other) = some (.alpha name)) := by simpa using hname
      rw [hprev]
      simp [hdefined, hne, hclose, Function.update_of_ne (Ne.symm hname)]
  | closed hclose hexpr =>
    have hcolon : ∀ p : Prop, ¬ (atom = .operator .lbl ∧ p) := by
      obtain rfl | rfl := hclose
      · simp
      · simp
    have hdefined := (doExpressionLoop_follows hexpr).2 name
    constructor
    · intro hyes
      obtain hold | hnew := hdefined.mp hyes
      · exact .inl hold
      · exact .inr (.inr ⟨hclose, hnew⟩)
    · rintro (hold | hand | ⟨-, hnew⟩)
      · exact hdefined.mpr (.inl hold)
      · exact absurd hand (hcolon _)
      · exact hdefined.mpr (.inr hnew)

section Run
variable {atoms : List Atom} {r : State}

theorem Accepted.defined (h : Accepted atoms r) (name : Name) {i : ℕ} (hi : i ≤ atoms.length) :
    (stateAt atoms i).globals.symbols.defined name = true ↔
      (∃ l, l + 1 < i ∧ LabelAt atoms l name) ∨ ∃ c, c < i ∧ AssignedAt atoms c name := by
  induction i with
  | zero =>
    constructor
    · intro hfalse
      cases hfalse
    · rintro (⟨l, hl, -⟩ | ⟨c, hc, -⟩)
      · omega
      · omega
  | succ i ih =>
    obtain ⟨atom, hget, heffect⟩ := h.effectAt hi
    rw [heffect.defined name, ih (by omega)]
    constructor
    · rintro ((⟨l, hl, hlabel⟩ | ⟨c, hc, hassigned⟩) | ⟨rfl, hprev⟩ | ⟨hclose, hassigned⟩)
      · exact .inl ⟨l, by omega, hlabel⟩
      · exact .inr ⟨c, by omega, hassigned⟩
      · obtain ⟨l, rfl, hname⟩ := prevAtom_eq_some hprev
        exact .inl ⟨l, by omega, hname, hget⟩
      · exact .inr ⟨i, by omega, ⟨atom, hget, hclose⟩, hassigned⟩
    · rintro (⟨l, hl, hlabel⟩ | ⟨c, hc, hassigned⟩)
      · by_cases hli : l + 1 = i
        · subst hli
          have hatom := hlabel.2
          rw [hget] at hatom
          exact .inr (.inl ⟨Option.some.inj hatom, hlabel.1⟩)
        · exact .inl (.inl ⟨l, by omega, hlabel⟩)
      · by_cases hci : c = i
        · subst hci
          obtain ⟨⟨atom', hget', hclose⟩, hnames⟩ := hassigned
          rw [hget] at hget'
          cases hget'
          exact .inr (.inr ⟨hclose, hnames⟩)
        · exact .inl (.inr ⟨c, by omega, hassigned⟩)

end Run

/-- In the end, the symbols that are marked are those that the text defines. -/
theorem symbols_defined_iff {text : List Char} {r : State} (h : assemble text = .ok r) (hok : r.globals.errors = [])
    (name : Name) : r.globals.symbols.defined name = true ↔ DefinedIn (atomsOf text) name := by
  have haccepted := accepted_of_assemble h hok
  generalize atomsOf text = atoms at haccepted
  have hend := haccepted.defined name (le_refl atoms.length)
  rw [haccepted.final] at hend
  rw [hend]
  constructor
  · rintro (⟨l, -, hlabel⟩ | ⟨c, -, hassigned⟩)
    · exact .inl ⟨l, hlabel⟩
    · exact .inr ⟨c, hassigned⟩
  · rintro (⟨l, hlabel⟩ | ⟨c, hassigned⟩)
    · exact .inl ⟨l, (List.getElem?_eq_some_iff.mp hlabel.2).1, hlabel⟩
    · obtain ⟨atom, hget, -⟩ := hassigned.1
      exact .inr ⟨c, (List.getElem?_eq_some_iff.mp hget).1, hassigned⟩

/-- The address that a label gets at its colon. -/
def addressAt (atoms : List Atom) (l : ℕ) : BitVec 32 := (stateAt atoms (l + 1)).pc

/-- An operand that stands nowhere before a colon and that no expression assigns to. -/
def UndefinedOperand (atoms : List Atom) : Prop :=
  ∃ i j name, OperandAt atoms i j name ∧ (∀ l, ¬ LabelAt atoms l name) ∧ ∀ c, ¬ AssignedAt atoms c name

/-- A name that gets another address at a second colon, where the value of its symbol is 0. -/
def MovedLabel (atoms : List Atom) : Prop :=
  ∃ l l' name, l < l' ∧ LabelAt atoms l name ∧ LabelAt atoms l' name ∧
    (stateAt atoms (l' + 1)).globals.symbols.value name = 0 ∧ addressAt atoms l ≠ addressAt atoms l'

theorem not_undefinedOperand {atoms : List Atom} :
    ¬ UndefinedOperand atoms ↔ ∀ i j name, OperandAt atoms i j name → DefinedIn atoms name := by
  constructor
  · intro h i j name hoperand
    by_contra hno
    unfold DefinedIn at hno
    rw [not_or, not_exists, not_exists] at hno
    exact h ⟨i, j, name, hoperand, hno⟩
  · rintro h ⟨i, j, name, hoperand, hlabel, hassigned⟩
    obtain ⟨l, hl⟩ | ⟨c, hc⟩ := h i j name hoperand
    · exact hlabel l hl
    · exact hassigned c hc

/-- At the colons of an accepted text every value is 0, so that only the addresses are left to compare. -/
theorem Accepted.not_movedLabel {atoms : List Atom} {r : State} (h : Accepted atoms r) :
    ¬ MovedLabel atoms ↔ ∀ l l' name, LabelAt atoms l name → LabelAt atoms l' name →
      addressAt atoms l = addressAt atoms l' := by
  constructor
  · intro hno l l' name hl hl'
    by_contra hne
    obtain hlt | heq | hgt := lt_trichotomy l l'
    · exact hno ⟨l, l', name, hlt, hl, hl', (h.label hl').1, hne⟩
    · exact hne (by rw [heq])
    · exact hno ⟨l', l, name, hgt, hl', hl, (h.label hl).1, Ne.symm hne⟩
  · rintro hall ⟨l, l', name, -, hl, hl', -, hne⟩
    exact hne (hall l l' name hl hl')

/-- A text on which the assembler ends is right exactly when one of its tests fails, or no operand is
undefined and no label is moved from a value of 0. -/
theorem symbols_wellDefined_iff {text : List Char} {r : State} (h : assemble text = .ok r) :
    (r.globals.errors = [] →
      (∀ i j name, OperandAt (atomsOf text) i j name → DefinedIn (atomsOf text) name) ∧
      ∀ l l' name, LabelAt (atomsOf text) l name → LabelAt (atomsOf text) l' name →
        addressAt (atomsOf text) l = addressAt (atomsOf text) l') ↔
    ¬ LetThrough text ∨ (¬ UndefinedOperand (atomsOf text) ∧ ¬ MovedLabel (atomsOf text)) := by
  rw [← assemble_accepts_iff h, not_undefinedOperand]
  by_cases hok : r.globals.errors = []
  · have haccepted := accepted_of_assemble h hok
    rw [haccepted.not_movedLabel]
    simp only [hok, true_implies, not_true_eq_false, false_or]
  · simp only [hok, false_implies, not_false_eq_true, true_or]

def loopSource : List Char := "top: JMP top\n".toList

def loopAtoms : List Atom := [.alpha "top".toList, .operator .lbl, .opCode ⟨"JMP", 0x85, .address, .nothing, .nothing⟩,
  .alpha "top".toList, .seperator [], newAtom]

theorem atomsOf_loopSource : atomsOf loopSource = loopAtoms := by decide

theorem alphaAt_loopAtoms {i : ℕ} {name : Name} (h : loopAtoms[i]? = some (.alpha name)) :
    (i = 0 ∨ i = 3) ∧ name = "top".toList := by
  have hi : i < 6 := (List.getElem?_eq_some_iff.mp h).1
  interval_cases i <;> simp [loopAtoms, newAtom] at h
  · exact ⟨.inl rfl, h.symm⟩
  · exact ⟨.inr rfl, h.symm⟩

/-- The loop is let through, and its one operand is its one label. -/
theorem symbols_wellDefined_loop : ∃ r, assemble loopSource = .ok r ∧ r.globals.errors = [] ∧
    (∀ i j name, OperandAt loopAtoms i j name → DefinedIn loopAtoms name) ∧
    ∀ l l' name, LabelAt loopAtoms l name → LabelAt loopAtoms l' name →
      addressAt loopAtoms l = addressAt loopAtoms l' := by
  obtain ⟨r, hrun, hok⟩ : ∃ r, assemble loopSource = .ok r ∧ r.globals.errors = [] :=
    exists_assemble (by decide)
  have hiff := symbols_wellDefined_iff hrun
  rw [atomsOf_loopSource] at hiff
  refine ⟨r, hrun, hok, hiff.mpr (.inr ⟨?_, ?_⟩) hok⟩
  · rintro ⟨i, j, name, hoperand, hlabel, -⟩
    rw [(alphaAt_loopAtoms hoperand.2.2.2).2] at hlabel
    exact hlabel 0 ⟨rfl, rfl⟩
  · rintro ⟨l, l', name, hlt, hl, hl', -⟩
    have hlast : ¬ LabelAt loopAtoms 3 name := by
      intro hthree
      cases hthree.2
    obtain rfl | rfl := (alphaAt_loopAtoms hl'.1).1
    · omega
    · exact hlast hl'

/-- Its symbol is marked, and no other one is. -/
theorem symbols_defined_loop : ∃ r, assemble loopSource = .ok r ∧
    ∀ name, r.globals.symbols.defined name = true ↔ DefinedIn loopAtoms name := by
  obtain ⟨r, hrun, hok⟩ : ∃ r, assemble loopSource = .ok r ∧ r.globals.errors = [] :=
    exists_assemble (by decide)
  refine ⟨r, hrun, fun name => ?_⟩
  rw [← atomsOf_loopSource]
  exact symbols_defined_iff hrun hok name

def undefinedSource : List Char := "JMP foo\n".toList

def doubleSource : List Char := "top: NOOP\ntop: NOOP\n".toList

/-- A jump to a name that stands nowhere else, and a label at the addresses 0 and 1: both texts are
accepted. -/
theorem undefined_and_double_accepted :
    (∃ r, assemble undefinedSource = .ok r ∧ r.globals.errors = [] ∧
      r.globals.symbols.defined "foo".toList = false ∧ (pass2 r 0).src1 = 0) ∧
    OperandAt (atomsOf undefinedSource) 0 1 "foo".toList ∧
    (∃ r, assemble doubleSource = .ok r ∧ r.globals.errors = []) ∧
    LabelAt (atomsOf doubleSource) 0 "top".toList ∧ LabelAt (atomsOf doubleSource) 4 "top".toList ∧
    addressAt (atomsOf doubleSource) 0 = 0 ∧ addressAt (atomsOf doubleSource) 4 = 1 := by
  have hundefined : atomsOf undefinedSource = [.opCode ⟨"JMP", 0x85, .address, .nothing, .nothing⟩,
      .alpha "foo".toList, .seperator [], newAtom] := by decide
  have hdouble : atomsOf doubleSource = [.alpha "top".toList, .operator .lbl,
      .opCode ⟨"NOOP", 0x4d, .nothing, .nothing, .nothing⟩, .seperator [], .alpha "top".toList, .operator .lbl,
      .opCode ⟨"NOOP", 0x4d, .nothing, .nothing, .nothing⟩, .seperator [], newAtom] := by decide
  refine ⟨exists_assemble (by decide), ?_, exists_assemble (by decide), ?_, ?_, ?_, ?_⟩
  · rw [hundefined]
    refine ⟨⟨_, rfl, .inr rfl⟩, by decide, ?_, rfl⟩
    intro m h₁ h₂
    omega
  · rw [hdouble]
    exact ⟨rfl, rfl⟩
  · rw [hdouble]
    exact ⟨rfl, rfl⟩
  · decide
  · decide

end HtDrivers.Mttn
