import HtDrivers.Mttn.AsmAtoms

/-! The symbol table and the expression stacks of the assembler. A pointer to a symbol is the name of the
symbol: the table holds each name once and is searched by name. -/
namespace HtDrivers.Mttn
set_option autoImplicit false

/-! ## Static variables -/

abbrev Name : Type := List Char

/-- The names in the table, and what the table holds for them. A name that was not seen has value 0 and is
not defined. -/
structure SymbolTable where
  names : List Name
  value : Name → BitVec 32
  defined : Name → Bool

structure Operand where
  symbolRef : Option Name
  literalValue : BitVec 32

structure Globals where
  errors : List AsmError
  symbols : SymbolTable
  operandStack : ℕ → Operand
  operandStackSize : ℕ
  operatorStack : List OprId

def maxSymbols : ℕ := 1024

def maxOperands : ℕ := 64

def maxOperators : ℕ := 32

/-- A fatal error does not return. -/
def fatal {α : Type} (g : Globals) (type : ErrorType) (text : String) (a : α) : Except Stop α :=
  (reportError g.errors type text).map fun _ => a

def report (g : Globals) (type : ErrorType) (text : String) : Except Stop Globals :=
  (reportError g.errors type text).map fun errors => { g with errors := errors }

/-! ## The table -/

def getSymbol (g : Globals) (name : Name) : Except Stop Globals :=
  if name ∈ g.symbols.names then .ok g
  else if maxSymbols ≤ g.symbols.names.length then fatal g .fatalRunTime "Symbol table overflow" g
  else .ok { g with symbols := { g.symbols with names := g.symbols.names ++ [name] } }

def setValue (g : Globals) (name : Name) (value : BitVec 32) : Globals :=
  { g with symbols := { g.symbols with value := Function.update g.symbols.value name value } }

def setDefined (g : Globals) (name : Name) : Globals :=
  { g with symbols := { g.symbols with defined := Function.update g.symbols.defined name true } }

/-! ## The stacks -/

def pushOperand (g : Globals) (operand : Operand) : Except Stop Globals :=
  if g.operandStackSize < maxOperands then
    .ok { g with operandStack := Function.update g.operandStack g.operandStackSize operand
                 operandStackSize := g.operandStackSize + 1 }
  else fatal g .fatalRunTime "Operand stack overflow" g

def pushOperator (g : Globals) (oprId : OprId) : Except Stop Globals :=
  if g.operatorStack.length < maxOperators then .ok { g with operatorStack := oprId :: g.operatorStack }
  else fatal g .fatalRunTime "Operator stack overflow" g

def popOperand (g : Globals) : Except Stop (Option Operand × Globals) :=
  match g.operandStackSize with
  | 0 => (report g .runTime "Operand stack underflow").map fun g => (none, g)
  | size + 1 => .ok (some (g.operandStack size), { g with operandStackSize := size })

def resetStacks (g : Globals) : Globals := { g with operandStackSize := 0, operatorStack := [] }

def getValue (g : Globals) (operand : Operand) : BitVec 32 :=
  match operand.symbolRef with
  | some name => g.symbols.value name
  | none => operand.literalValue

/-! ## Evaluation -/

/-- What one operator does: `some v` returns `v` from the expression. -/
abbrev Applied : Type := Except Stop (Option (BitVec 32) × Globals)

/-- Go on with an operand, or return 0 when there is none. -/
def withOperand (g : Globals) (k : Operand → Globals → Applied) : Applied :=
  match popOperand g with
  | .error stop => .error stop
  | .ok (none, g) => .ok (some 0, g)
  | .ok (some operand, g) => k operand g

def pushResult (g : Globals) (operand : Operand) : Applied := (pushOperand g operand).map fun g => (none, g)

/-- An operator on two values; `none` is where C leaves the result undefined. -/
def binary (f : BitVec 32 → BitVec 32 → Option (BitVec 32)) (g : Globals) : Applied :=
  withOperand g fun right g => withOperand g fun left g =>
    match f (getValue g left) (getValue g right) with
    | some value => pushResult g ⟨none, value⟩
    | none => .error .fault

def unary (f : BitVec 32 → BitVec 32) (g : Globals) : Applied :=
  withOperand g fun left g => pushResult g ⟨none, f (getValue g left)⟩

def test (b : Bool) : BitVec 32 := if b then 0xFFFFFFFF else 0x00000000

/-- `++` and `--`: the symbol takes the new value. -/
def writeBack (f : BitVec 32 → BitVec 32) (text : String) (g : Globals) : Applied :=
  withOperand g fun left g =>
    match left.symbolRef with
    | some name => pushResult (setValue g name (f (getValue g left))) ⟨none, f (getValue g left)⟩
    | none => (report g .runTime text).map fun g => (none, g)

def assign (g : Globals) : Applied :=
  withOperand g fun right g => withOperand g fun left g =>
    match left.symbolRef with
    | some name => pushResult (setDefined (setValue g name (getValue g right)) name) right
    | none => (report g .runTime "Becomes Equal: Attempt to write to a literal").map fun g => (none, g)

def divide (left right : BitVec 32) : Option (BitVec 32) :=
  if right = 0 ∨ (left = BitVec.intMin 32 ∧ right = -1) then none else some (left.sdiv right)

def shift (f : BitVec 32 → ℕ → BitVec 32) (left right : BitVec 32) : Option (BitVec 32) :=
  if right.toNat < 32 then some (f left right.toNat) else none

def applyOpr : OprId → Globals → Applied
  | .ne, g => binary (fun l r => some (test (l ≠ r))) g
  | .eq, g => binary (fun l r => some (test (l = r))) g
  | .gt, g => binary (fun l r => some (test (r.slt l))) g
  | .ge, g => binary (fun l r => some (test (r.sle l))) g
  | .lt, g => binary (fun l r => some (test (l.slt r))) g
  | .le, g => binary (fun l r => some (test (l.sle r))) g
  | .pl, g => binary (fun l r => some (l + r)) g
  | .mi, g => binary (fun l r => some (l - r)) g
  | .ti, g => binary (fun l r => some (l * r)) g
  | .di, g => binary divide g
  | .and, g => binary (fun l r => some (l &&& r)) g
  | .or, g => binary (fun l r => some (l ||| r)) g
  | .xor, g => binary (fun l r => some (l ^^^ r)) g
  | .not, g => unary (fun l => ~~~l) g
  | .neg, g => unary (fun l => -l) g
  | .lsh, g => binary (shift fun l n => l <<< n) g
  | .rsh, g => binary (shift fun l n => l.sshiftRight n) g
  | .inc, g => writeBack (fun l => l + 1) "Increment: Attempt to write to a literal" g
  | .decr, g => writeBack (fun l => l - 1) "Decrement: Attempt to write to a literal" g
  | .pop, g => withOperand g fun right g => .ok (some right.literalValue, g)
  | .as, g => assign g
  | .stm, g =>
    -- the place above the top, which holds what was there before
    if g.operandStackSize < maxOperands then .ok (some (g.operandStack g.operandStackSize).literalValue, g)
    else .error .fault
  | .noop, g => .ok (some 0, g)
  | .lbl, g => .ok (some 0, g)

/-- The loop of `DoExpression` over the operators on the stack. -/
def doExpressionLoop : List OprId → Globals → Except Stop (BitVec 32 × Globals)
  | [], g => (report { g with operatorStack := [] } .runTime "Operator stack underflow").map fun g => (0, g)
  | oprId :: operators, g => match applyOpr oprId { g with operatorStack := operators } with
    | .error stop => .error stop
    | .ok (some value, g) => .ok (value, g)
    | .ok (none, g) => doExpressionLoop operators g

def doExpression (g : Globals) : Except Stop (BitVec 32 × Globals) := doExpressionLoop g.operatorStack g

/-! ## What evaluation changes -/

theorem report_ok {g g' : Globals} {type : ErrorType} {text : String} (h : report g type text = .ok g') :
    ∃ errors, errors ≠ [] ∧ g' = { g with errors := errors } := by
  unfold report reportError at h
  by_cases hmax : maxErrorCount ≤ g.errors.length
  · rw [if_pos hmax] at h
    cases h
  · rw [if_neg hmax] at h
    cases type with
    | fatalRunTime | fatalSyntax => cases h
    | runTime | syntaxError =>
      cases h
      exact ⟨_, List.append_ne_nil_of_right_ne_nil _ (List.cons_ne_nil _ _), rfl⟩

theorem fatal_ne_ok {α : Type} {g : Globals} {text : String} {a b : α} : fatal g .fatalRunTime text a ≠ .ok b := by
  intro h
  unfold fatal reportError at h
  split at h
  · cases h
  · cases h

/-- The name that an operator marks as defined when it is applied to these stacks. -/
def assignTarget (oprId : OprId) (g : Globals) : Option Name :=
  if oprId = .as ∧ 2 ≤ g.operandStackSize then (g.operandStack (g.operandStackSize - 2)).symbolRef else none

/-- The names that an expression assigns to. -/
def assignedNames : List OprId → Globals → List Name
  | [], _ => []
  | oprId :: operators, g => match applyOpr oprId { g with operatorStack := operators } with
    | .ok (none, g') => (assignTarget oprId g).toList ++ assignedNames operators g'
    | _ => []

/-- `g'` follows `g`: errors stay, and `target` is the only name that became defined. -/
structure Follows (target : Option Name) (g g' : Globals) : Prop where
  errors : g'.errors = [] → g.errors = []
  defined : ∀ n, g'.symbols.defined n = true ↔ g.symbols.defined n = true ∨ target = some n

theorem Follows.of_symbols {g g' : Globals} (herrors : g'.errors = [] → g.errors = [])
    (hdefined : g'.symbols.defined = g.symbols.defined) : Follows none g g' where
  errors := herrors
  defined := by
    intro n
    rw [hdefined]
    simp

theorem withOperand_cases {g : Globals} {k : Operand → Globals → Applied} {out : Option (BitVec 32) × Globals}
    (h : withOperand g k = .ok out) :
    (g.operandStackSize = 0 ∧ out.1 = some 0 ∧ out.2.errors ≠ [] ∧ out.2.symbols = g.symbols) ∨
    ∃ size, g.operandStackSize = size + 1 ∧ k (g.operandStack size) { g with operandStackSize := size } = .ok out := by
  unfold withOperand popOperand at h
  cases hsize : g.operandStackSize with
  | zero =>
    rw [hsize] at h
    simp only at h
    cases hreport : report g .runTime "Operand stack underflow" with
    | error stop =>
      rw [hreport] at h
      cases h
    | ok g' =>
      obtain ⟨errors, hne, rfl⟩ := report_ok hreport
      rw [hreport] at h
      cases h
      exact .inl ⟨rfl, rfl, hne, rfl⟩
  | succ size =>
    rw [hsize] at h
    exact .inr ⟨size, rfl, h⟩

theorem pushOperand_ok {g g' : Globals} {operand : Operand} (h : pushOperand g operand = .ok g') :
    g'.errors = g.errors ∧ g'.symbols = g.symbols := by
  unfold pushOperand at h
  split at h
  · cases h
    exact ⟨rfl, rfl⟩
  · exact absurd h fatal_ne_ok

theorem pushResult_ok {g : Globals} {operand : Operand} {out : Option (BitVec 32) × Globals}
    (h : pushResult g operand = .ok out) :
    out.1 = none ∧ out.2.errors = g.errors ∧ out.2.symbols = g.symbols := by
  unfold pushResult at h
  cases hpush : pushOperand g operand with
  | error stop =>
    rw [hpush] at h
    cases h
  | ok g' =>
    rw [hpush] at h
    cases h
    exact ⟨rfl, pushOperand_ok hpush⟩

theorem withOperand_follows {g : Globals} {k : Operand → Globals → Applied} {out : Option (BitVec 32) × Globals}
    (hk : ∀ operand g', k operand g' = .ok out → Follows none g' out.2) (h : withOperand g k = .ok out) :
    Follows none g out.2 := by
  obtain ⟨-, -, herr, hsymbols⟩ | ⟨size, -, hrest⟩ := withOperand_cases h
  · exact .of_symbols (fun hnil => absurd hnil herr) (by rw [hsymbols])
  · have hfollows := hk _ _ hrest
    exact ⟨hfollows.errors, hfollows.defined⟩

theorem pushResult_follows {g : Globals} {operand : Operand} {out : Option (BitVec 32) × Globals}
    (h : pushResult g operand = .ok out) : Follows none g out.2 := by
  obtain ⟨-, herrors, hsymbols⟩ := pushResult_ok h
  exact .of_symbols (fun hnil => by rw [← herrors, hnil]) (by rw [hsymbols])

theorem report_follows {g : Globals} {type : ErrorType} {text : String} {out : Option (BitVec 32) × Globals}
    (h : (report g type text).map (fun g => ((none : Option (BitVec 32)), g)) = .ok out) : Follows none g out.2 := by
  cases hreport : report g type text with
  | error stop =>
    rw [hreport] at h
    cases h
  | ok g' =>
    rw [hreport] at h
    cases h
    obtain ⟨errors, hne, rfl⟩ := report_ok hreport
    exact .of_symbols (fun hnil => absurd hnil hne) rfl

theorem binary_follows {f : BitVec 32 → BitVec 32 → Option (BitVec 32)} {g : Globals}
    {out : Option (BitVec 32) × Globals} (h : binary f g = .ok out) : Follows none g out.2 := by
  refine withOperand_follows ?_ h
  intro right g' h'
  refine withOperand_follows ?_ h'
  intro left g'' h''
  split at h''
  · exact pushResult_follows h''
  · cases h''

theorem unary_follows {f : BitVec 32 → BitVec 32} {g : Globals} {out : Option (BitVec 32) × Globals}
    (h : unary f g = .ok out) : Follows none g out.2 :=
  withOperand_follows (fun _ _ h' => pushResult_follows h') h

theorem writeBack_follows {f : BitVec 32 → BitVec 32} {text : String} {g : Globals}
    {out : Option (BitVec 32) × Globals} (h : writeBack f text g = .ok out) : Follows none g out.2 := by
  refine withOperand_follows ?_ h
  intro left g' h'
  split at h'
  · have hpush := pushResult_follows h'
    exact ⟨hpush.errors, hpush.defined⟩
  · exact report_follows h'

theorem assign_follows {g : Globals} {out : Option (BitVec 32) × Globals} (h : assign g = .ok out) :
    Follows (if out.1 = none then assignTarget .as g else none) g out.2 := by
  obtain ⟨-, hzero, herr, hsymbols⟩ | ⟨size, hsize, hrest⟩ := withOperand_cases h
  · rw [hzero]
    exact .of_symbols (fun hnil => absurd hnil herr) (by rw [hsymbols])
  obtain ⟨-, hzero, herr, hsymbols⟩ | ⟨size', hsize', hleft⟩ := withOperand_cases hrest
  · rw [hzero]
    exact .of_symbols (fun hnil => absurd hnil herr) (by rw [hsymbols])
  obtain rfl : size = size' + 1 := hsize'
  have htarget : assignTarget .as g = (g.operandStack size').symbolRef := by
    unfold assignTarget
    rw [if_pos ⟨rfl, by omega⟩, hsize]
    rfl
  simp only at hleft
  split at hleft
  · rename_i name hname
    obtain ⟨hnone, herrors, hsymbols⟩ := pushResult_ok hleft
    rw [hnone, if_pos rfl, htarget, hname]
    refine ⟨fun hnil => by rw [herrors] at hnil; exact hnil, ?_⟩
    intro n
    rw [hsymbols]
    by_cases hn : n = name
    · rw [hn]
      simp [setDefined]
    · simp [setDefined, setValue, Function.update_of_ne hn, Ne.symm hn]
  · rename_i hname
    have hfollows := report_follows hleft
    have hnone : (if out.1 = none then assignTarget .as g else none) = none := by
      rw [htarget, hname]
      split <;> rfl
    rw [hnone]
    exact ⟨hfollows.errors, hfollows.defined⟩

theorem applyOpr_follows {oprId : OprId} {g : Globals} {out : Option (BitVec 32) × Globals}
    (h : applyOpr oprId g = .ok out) : Follows (if out.1 = none then assignTarget oprId g else none) g out.2 := by
  have hplain : oprId ≠ .as → Follows none g out.2 →
      Follows (if out.1 = none then assignTarget oprId g else none) g out.2 := by
    intro hne hfollows
    have hnone : assignTarget oprId g = none := if_neg fun hand => hne hand.1
    rw [hnone, ite_self]
    exact hfollows
  cases oprId with
  | as => exact assign_follows h
  | ne | eq | gt | ge | lt | le | pl | mi | ti | di | and | or | xor | lsh | rsh =>
    rw [applyOpr] at h
    exact hplain (by decide) (binary_follows h)
  | not | neg =>
    rw [applyOpr] at h
    exact hplain (by decide) (unary_follows h)
  | inc | decr =>
    rw [applyOpr] at h
    exact hplain (by decide) (writeBack_follows h)
  | pop =>
    rw [applyOpr] at h
    refine hplain (by decide) (withOperand_follows ?_ h)
    intro operand g' h'
    cases h'
    exact .of_symbols id rfl
  | stm =>
    refine hplain (by decide) ?_
    rw [applyOpr] at h
    split at h
    · cases h
      exact .of_symbols id rfl
    · cases h
  | noop | lbl =>
    cases h
    exact hplain (by decide) (.of_symbols id rfl)

/-- An expression keeps the errors, and defines exactly the names that it assigns to. -/
theorem doExpressionLoop_follows {operators : List OprId} {g : Globals} {out : BitVec 32 × Globals}
    (h : doExpressionLoop operators g = .ok out) :
    (out.2.errors = [] → g.errors = []) ∧
    ∀ n, out.2.symbols.defined n = true ↔ g.symbols.defined n = true ∨ n ∈ assignedNames operators g := by
  induction operators generalizing g with
  | nil =>
    rw [doExpressionLoop] at h
    cases hreport : report { g with operatorStack := [] } .runTime "Operator stack underflow" with
    | error stop =>
      rw [hreport] at h
      cases h
    | ok g' =>
      rw [hreport] at h
      cases h
      obtain ⟨errors, hne, rfl⟩ := report_ok hreport
      exact ⟨fun hnil => absurd hnil hne, fun n => by simp [assignedNames]⟩
  | cons oprId operators ih =>
    rw [doExpressionLoop] at h
    rw [assignedNames]
    cases happly : applyOpr oprId { g with operatorStack := operators } with
    | error stop =>
      rw [happly] at h
      cases h
    | ok applied =>
      have hfollows := applyOpr_follows happly
      obtain ⟨result, g'⟩ := applied
      rw [happly] at h
      cases result with
      | some value =>
        cases h
        refine ⟨hfollows.errors, ?_⟩
        intro n
        simpa using hfollows.defined n
      | none =>
        obtain ⟨herrors, hdefined⟩ := ih h
        refine ⟨fun hnil => hfollows.errors (herrors hnil), ?_⟩
        intro n
        have htarget : assignTarget oprId { g with operatorStack := operators } = assignTarget oprId g := rfl
        rw [hdefined n, hfollows.defined n, if_pos rfl, htarget, List.mem_append, Option.mem_toList]
        exact or_assoc

end HtDrivers.Mttn
