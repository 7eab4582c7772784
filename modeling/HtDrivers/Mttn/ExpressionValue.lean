import HtDrivers.Mttn.Assemble

/-! The value of an expression of binary operators. The operators are applied from the last to the first, so
that the value is the right-associated one; the closing parenthesis takes its result from the place above
the top of the stack. -/
namespace HtDrivers.Mttn
set_option autoImplicit false

/-! ## Expressions -/

/-- The function of a binary operator, `none` where C leaves the result undefined. -/
def binaryFun : OprId → Option (BitVec 32 → BitVec 32 → Option (BitVec 32))
  | .ne => some fun l r => some (test (l ≠ r))
  | .eq => some fun l r => some (test (l = r))
  | .gt => some fun l r => some (test (r.slt l))
  | .ge => some fun l r => some (test (r.sle l))
  | .lt => some fun l r => some (test (l.slt r))
  | .le => some fun l r => some (test (l.sle r))
  | .pl => some fun l r => some (l + r)
  | .mi => some fun l r => some (l - r)
  | .ti => some fun l r => some (l * r)
  | .di => some divide
  | .and => some fun l r => some (l &&& r)
  | .or => some fun l r => some (l ||| r)
  | .xor => some fun l r => some (l ^^^ r)
  | .lsh => some (shift fun l n => l <<< n)
  | .rsh => some (shift fun l n => l.sshiftRight n)
  | .noop | .as | .not | .neg | .inc | .decr | .pop | .stm | .lbl => none

theorem applyOpr_binary {oprId : OprId} {f : BitVec 32 → BitVec 32 → Option (BitVec 32)} (h : binaryFun oprId = some f)
    (g : Globals) : applyOpr oprId g = binary f g := by
  cases oprId with
  | noop | as | not | neg | inc | decr | pop | stm | lbl => cases h
  | ne | eq | gt | ge | lt | le | pl | mi | ti | di | and | or | xor | lsh | rsh =>
    rw [← Option.some.inj h]
    rfl

inductive Term
  | literal (value : BitVec 32)
  | symbol (name : Name)
deriving DecidableEq

def Term.atom : Term → Atom
  | literal value => .numeric value
  | symbol name => .alpha name

def Term.operand : Term → Operand
  | literal value => ⟨none, value⟩
  | symbol name => ⟨some name, 0⟩

/-- The value of a term when the symbols have these values. -/
def Term.value (values : Name → BitVec 32) : Term → BitVec 32
  | literal value => value
  | symbol name => values name

/-- One operator applied to its left term and the value on its right. -/
def applyTerm (values : Name → BitVec 32) (x : Term × OprId) (right : Option (BitVec 32)) : Option (BitVec 32) :=
  match binaryFun x.2, right with
  | some f, some r => f (x.1.value values) r
  | _, _ => none

/-- The right-associated value of `e1 op1 e2 op2 ... last`; `lead` has the terms with the operators behind them. -/
def rightValue (values : Name → BitVec 32) (lead : List (Term × OprId)) (last : BitVec 32) : Option (BitVec 32) :=
  lead.foldr (applyTerm values) (some last)

def leadAtoms (lead : List (Term × OprId)) : List Atom := lead.flatMap fun x => [x.1.atom, .operator x.2]

section Values
variable {values : Name → BitVec 32} {lead : List (Term × OprId)} {x : Term × OprId} {last v : BitVec 32}

theorem applyTerm_none : applyTerm values x none = none := by
  unfold applyTerm
  cases binaryFun x.2 with
  | none => rfl
  | some f => rfl

theorem foldr_applyTerm_none : lead.foldr (applyTerm values) none = none := by
  induction lead with
  | nil => rfl
  | cons y lead ih => rw [List.foldr_cons, ih, applyTerm_none]

theorem applyTerm_some {right : BitVec 32} (h : applyTerm values x (some right) = some v) :
    ∃ f, binaryFun x.2 = some f ∧ f (x.1.value values) right = some v := by
  unfold applyTerm at h
  cases hf : binaryFun x.2 with
  | none =>
    rw [hf] at h
    cases h
  | some f =>
    rw [hf] at h
    exact ⟨f, rfl, h⟩

/-- The last operator is applied first. -/
theorem rightValue_snoc (h : rightValue values (lead ++ [x]) last = some v) :
    ∃ f w, binaryFun x.2 = some f ∧ f (x.1.value values) last = some w ∧ rightValue values lead w = some v := by
  unfold rightValue at h
  rw [List.foldr_append, List.foldr_cons, List.foldr_nil] at h
  cases hx : applyTerm values x (some last) with
  | none =>
    rw [hx, foldr_applyTerm_none] at h
    cases h
  | some w =>
    obtain ⟨f, hf, hw⟩ := applyTerm_some hx
    rw [hx] at h
    exact ⟨f, w, hf, hw, h⟩

theorem rightValue_cons (h : rightValue values (x :: lead) last = some v) :
    ∃ r f, rightValue values lead last = some r ∧ binaryFun x.2 = some f ∧ f (x.1.value values) r = some v := by
  unfold rightValue at h ⊢
  rw [List.foldr_cons] at h
  cases hr : lead.foldr (applyTerm values) (some last) with
  | none =>
    rw [hr, applyTerm_none] at h
    cases h
  | some r =>
    rw [hr] at h
    obtain ⟨f, hf, hv⟩ := applyTerm_some h
    exact ⟨r, f, rfl, hf, hv⟩

end Values

/-! ## Reading -/

/-- The stack with these operands from place `k` on. -/
def writeFrom (stack : ℕ → Operand) (k : ℕ) (operands : List Operand) : ℕ → Operand :=
  fun i => if k ≤ i then (operands[i - k]?).getD (stack i) else stack i

theorem writeFrom_cons (stack : ℕ → Operand) (k : ℕ) (operand : Operand) (operands : List Operand) :
    writeFrom (Function.update stack k operand) (k + 1) operands = writeFrom stack k (operand :: operands) := by
  funext i
  unfold writeFrom
  by_cases hi : i = k
  · subst hi
    rw [if_neg (by omega), if_pos (Nat.le_refl i), Function.update_self, Nat.sub_self]
    rfl
  · rw [Function.update_of_ne hi]
    by_cases hk : k ≤ i
    · have hsub : i - k = (i - (k + 1)) + 1 := by omega
      rw [if_pos (by omega), if_pos hk, hsub, List.getElem?_cons_succ]
    · rw [if_neg (by omega), if_neg hk]

theorem writeFrom_nil (stack : ℕ → Operand) (k : ℕ) : writeFrom stack k [] = stack := by
  funext i
  unfold writeFrom
  simp

theorem writeFrom_getElem {stack : ℕ → Operand} {k i : ℕ} {operands : List Operand} {operand : Operand}
    (h : operands[i]? = some operand) : writeFrom stack k operands (k + i) = operand := by
  unfold writeFrom
  rw [if_pos (Nat.le_add_right k i), Nat.add_sub_cancel_left, h]
  rfl

theorem writeFrom_below (stack : ℕ → Operand) {k i : ℕ} (operands : List Operand) (h : i < k) :
    writeFrom stack k operands i = stack i := if_neg (by omega)

/-- The stacks after the terms and operators of `lead` were read. -/
def stacked (g : Globals) (lead : List (Term × OprId)) : Globals :=
  { g with
    operandStack := writeFrom g.operandStack g.operandStackSize (lead.map fun x => x.1.operand)
    operandStackSize := g.operandStackSize + lead.length
    operatorStack := (lead.map Prod.snd).reverse ++ g.operatorStack }

def pushed (g : Globals) (operand : Operand) : Globals :=
  { g with
    operandStack := Function.update g.operandStack g.operandStackSize operand
    operandStackSize := g.operandStackSize + 1 }

theorem pushOperand_room {g : Globals} (operand : Operand) (h : g.operandStackSize < maxOperands) :
    pushOperand g operand = .ok (pushed g operand) := if_pos h

theorem pushOperator_room {g : Globals} (oprId : OprId) (h : g.operatorStack.length < maxOperators) :
    pushOperator g oprId = .ok { g with operatorStack := oprId :: g.operatorStack } := if_pos h

/-- A symbol is in the table. -/
def Term.Known (g : Globals) : Term → Prop
  | literal _ => True
  | symbol name => name ∈ g.symbols.names

section Reading
variable {s : State} {p : Option Atom} {rest : List Atom}

theorem asmLoop_next {s' : State} {atom : Atom} (h : asmStep s p atom rest = .ok s') :
    asmLoop s p (atom :: rest) = asmLoop s' (some atom) rest := by
  rw [asmLoop, h]

theorem asmLoop_term {term : Term} (hlit : s.expect.lit = false) (hknown : term.Known s.globals)
    (hroom : s.globals.operandStackSize < maxOperands) :
    asmLoop s p (term.atom :: rest) = asmLoop { s with globals := pushed s.globals term.operand }
    (some term.atom) rest := by
  apply asmLoop_next
  cases term with
  | literal value =>
    change stepNumeric s value = _
    unfold stepNumeric
    rw [hlit, pushOperand_room _ hroom]
    rfl
  | symbol name =>
    have hsymbol : getSymbol s.globals name = .ok s.globals := if_pos hknown
    change stepAlpha s name = _
    unfold stepAlpha
    rw [hsymbol]
    simp only [hlit, Bool.false_eq_true, if_false]
    rw [pushOperand_room _ hroom]
    rfl

theorem asmLoop_operator {oprId : OprId} (hlabel : oprId ≠ .lbl)
    (hroom : s.globals.operatorStack.length < maxOperators) : asmLoop s p (.operator oprId :: rest) =
      asmLoop { s with globals := { s.globals with operatorStack := oprId :: s.globals.operatorStack } }
        (some (.operator oprId)) rest := by
  apply asmLoop_next
  change (if oprId = .lbl then stepLabel s p else withGlobals s (pushOperator s.globals oprId)) = _
  rw [if_neg hlabel, pushOperator_room _ hroom]
  rfl

theorem binaryFun_ne_lbl {oprId : OprId} {f : BitVec 32 → BitVec 32 → Option (BitVec 32)}
    (h : binaryFun oprId = some f) : oprId ≠ .lbl := by
  intro hlabel
  rw [hlabel] at h
  cases h

/-- Reading terms and operators only pushes them. -/
theorem asmLoop_lead {lead : List (Term × OprId)} (hlit : s.expect.lit = false)
    (hbinary : ∀ x ∈ lead, (binaryFun x.2).isSome) (hknown : ∀ x ∈ lead, x.1.Known s.globals)
    (hoperands : s.globals.operandStackSize + lead.length ≤ maxOperands)
    (hoperators : s.globals.operatorStack.length + lead.length ≤ maxOperators) :
    ∃ p', asmLoop s p (leadAtoms lead ++ rest) = asmLoop { s with globals := stacked s.globals lead } p' rest := by
  induction lead generalizing s p with
  | nil =>
    refine ⟨p, ?_⟩
    have hnone : stacked s.globals [] = s.globals := by
      unfold stacked
      rw [List.map_nil, writeFrom_nil]
      rfl
    rw [hnone]
    rfl
  | cons x lead ih =>
    rw [List.length_cons] at hoperands hoperators
    obtain ⟨f, hf⟩ := Option.isSome_iff_exists.mp (hbinary x (List.mem_cons_self ..))
    have hread : asmLoop s p (leadAtoms (x :: lead) ++ rest) =
        asmLoop { s with
            globals := { pushed s.globals x.1.operand with operatorStack := x.2 :: s.globals.operatorStack } }
          (some (.operator x.2)) (leadAtoms lead ++ rest) := by
      change asmLoop s p (x.1.atom :: .operator x.2 :: (leadAtoms lead ++ rest)) = _
      rw [asmLoop_term hlit (hknown x (List.mem_cons_self ..)) (by omega)]
      apply asmLoop_operator (binaryFun_ne_lbl hf)
      change s.globals.operatorStack.length < maxOperators
      omega
    have hrest := ih (s := { s with globals := { pushed s.globals x.1.operand with
        operatorStack := x.2 :: s.globals.operatorStack } }) (p := some (.operator x.2)) hlit
      (fun y hy => hbinary y (List.mem_cons_of_mem x hy)) (fun y hy => hknown y (List.mem_cons_of_mem x hy))
      (by change s.globals.operandStackSize + 1 + lead.length ≤ maxOperands; omega)
      (by rw [List.length_cons]; omega)
    obtain ⟨p', hp'⟩ := hrest
    refine ⟨p', ?_⟩
    have hstacked : stacked { pushed s.globals x.1.operand with operatorStack := x.2 :: s.globals.operatorStack } lead =
        stacked s.globals (x :: lead) := by
      unfold stacked pushed
      simp only [writeFrom_cons, List.map_cons, List.reverse_cons, List.append_assoc, List.singleton_append,
        List.length_cons]
      rw [Nat.add_right_comm, Nat.add_assoc]
    rw [hread, hp', hstacked]

end Reading

/-! ## Evaluation -/

section Evaluation
variable {g : Globals} {k : ℕ}

theorem binary_ok {f : BitVec 32 → BitVec 32 → Option (BitVec 32)} {w : BitVec 32} (hsize : g.operandStackSize = k + 2)
    (hroom : k < maxOperands) (hf : f (getValue g (g.operandStack k)) (getValue g (g.operandStack (k + 1))) = some w) :
    binary f g = .ok (none, { g with
      operandStack := Function.update g.operandStack k ⟨none, w⟩
      operandStackSize := k + 1 }) := by
  have hvalue : ∀ (n : ℕ) (operand : Operand), getValue { g with operandStackSize := n } operand = getValue g operand :=
    fun _ _ => rfl
  unfold binary withOperand popOperand
  simp only [hsize, hvalue, hf]
  unfold pushResult
  rw [pushOperand_room _ hroom]
  rfl

/-- The operand in which the value of an expression ends up. -/
def resultOperand (lead : List (Term × OprId)) (last : Operand) (v : BitVec 32) : Operand :=
  if lead = [] then last else ⟨none, v⟩

theorem resultOperand_snoc {values : Name → BitVec 32} {lead : List (Term × OprId)} {w v : BitVec 32}
    (x : Term × OprId) (last : Operand) (h : rightValue values lead w = some v) :
    resultOperand lead ⟨none, w⟩ v = resultOperand (lead ++ [x]) last v := by
  unfold resultOperand
  rw [if_neg (List.append_ne_nil_of_right_ne_nil _ (List.cons_ne_nil _ _))]
  cases lead with
  | nil =>
    rw [if_pos rfl, Option.some.inj h]
  | cons y lead => rw [if_neg (List.cons_ne_nil _ _)]

/-- What the loop leaves of an expression whose terms lay from place `k` on: its result at `k`, and above the
top the result of the expression behind the first operator. -/
structure Evaluated (g g' : Globals) (k : ℕ) (lead : List (Term × OprId)) (last : Operand) (v : BitVec 32) : Prop where
  errors : g'.errors = g.errors
  symbols : g'.symbols = g.symbols
  size : g'.operandStackSize = k + 1
  result : g'.operandStack k = resultOperand lead last v
  below : ∀ i < k, g'.operandStack i = g.operandStack i
  single : lead = [] → g'.operandStack (k + 1) = g.operandStack (k + 1)
  above : ∀ x rest r, lead = x :: rest → rightValue g.symbols.value rest (getValue g last) = some r →
    g'.operandStack (k + 1) = resultOperand rest last r

/-- The terms of the expression lie on the stack from place `k` on, the last one on top. -/
structure Lies (g : Globals) (k : ℕ) (lead : List (Term × OprId)) (last : Operand) : Prop where
  size : g.operandStackSize = k + lead.length + 1
  room : k + lead.length < maxOperands
  slots : ∀ i x, lead[i]? = some x → g.operandStack (k + i) = x.1.operand
  top : g.operandStack (k + lead.length) = last

theorem getValue_operand (g : Globals) (term : Term) : getValue g term.operand = term.value g.symbols.value := by
  cases term with
  | literal value => rfl
  | symbol name => rfl

theorem doExpressionLoop_next {oprId : OprId} {ops : List OprId} {g' : Globals}
    (h : applyOpr oprId { g with operatorStack := ops } = .ok (none, g')) :
    doExpressionLoop (oprId :: ops) g = doExpressionLoop ops g' := by
  rw [doExpressionLoop, h]

theorem doExpressionLoop_lead {ops : List OprId} {lead : List (Term × OprId)} {last : Operand} {v : BitVec 32}
    (hlies : Lies g k lead last) (hv : rightValue g.symbols.value lead (getValue g last) = some v) :
    ∃ g', doExpressionLoop ((lead.map Prod.snd).reverse ++ ops) g = doExpressionLoop ops g' ∧
      Evaluated g g' k lead last v := by
  induction lead using List.reverseRecOn generalizing g last with
  | nil =>
    refine ⟨g, rfl, rfl, rfl, hlies.size, hlies.top, fun _ _ => rfl, fun _ => rfl, ?_⟩
    intro x rest r hnil
    cases hnil
  | append_singleton lead x ih =>
    obtain ⟨f, w, hf, hw, hrest⟩ := rightValue_snoc hv
    have hsize := hlies.size
    have hroom := hlies.room
    have htop := hlies.top
    rw [List.length_append, List.length_singleton] at hsize hroom htop
    have hleft : g.operandStack (k + lead.length) = x.1.operand := hlies.slots _ _ (by simp)
    -- one turn: the last operator is applied to the last two terms
    have hturn : applyOpr x.2 { g with operatorStack := (lead.map Prod.snd).reverse ++ ops } =
        .ok (none, { g with
          operatorStack := (lead.map Prod.snd).reverse ++ ops
          operandStack := Function.update g.operandStack (k + lead.length) ⟨none, w⟩
          operandStackSize := k + lead.length + 1 }) := by
      rw [applyOpr_binary hf]
      refine binary_ok (g := { g with operatorStack := (lead.map Prod.snd).reverse ++ ops }) (k := k + lead.length)
        hsize (by omega) ?_
      change f (getValue g (g.operandStack (k + lead.length)))
        (getValue g (g.operandStack (k + (lead.length + 1)))) = some w
      rw [hleft, htop, getValue_operand, hw]
    have hother : ∀ i, i ≠ k + lead.length →
        Function.update g.operandStack (k + lead.length) ⟨none, w⟩ i = g.operandStack i :=
      fun i hi => Function.update_of_ne hi _ _
    have hnext : Lies { g with
        operatorStack := (lead.map Prod.snd).reverse ++ ops
        operandStack := Function.update g.operandStack (k + lead.length) ⟨none, w⟩
        operandStackSize := k + lead.length + 1 } k lead ⟨none, w⟩ := by
      refine ⟨rfl, by omega, ?_, Function.update_self _ _ _⟩
      intro i y hy
      have hi := (List.getElem?_eq_some_iff.mp hy).1
      refine (hother _ (by omega)).trans (hlies.slots i y ?_)
      rw [List.getElem?_append_left hi, hy]
    obtain ⟨g', hloop, heval⟩ := ih hnext hrest
    refine ⟨g', ?_, heval.errors, heval.symbols, heval.size, ?_, ?_, ?_, ?_⟩
    · rw [List.map_append, List.reverse_append, List.map_singleton, List.reverse_singleton, List.singleton_append,
        List.cons_append]
      exact (doExpressionLoop_next hturn).trans hloop
    · rw [heval.result, resultOperand_snoc x last hrest]
    · intro i hi
      rw [heval.below i hi]
      exact hother i (by omega)
    · intro hnil
      exact absurd hnil (List.append_ne_nil_of_right_ne_nil _ (List.cons_ne_nil _ _))
    · intro y rest r hcons hr
      cases lead with
      | nil =>
        obtain ⟨-, rfl⟩ := List.cons.inj hcons
        rw [heval.single rfl]
        exact (hother _ (by simp)).trans htop
      | cons z lead =>
        obtain ⟨rfl, rfl⟩ := List.cons.inj hcons
        obtain ⟨f', w', hf', hw', hr'⟩ := rightValue_snoc hr
        obtain rfl : f = f' := Option.some.inj (hf.symm.trans hf')
        obtain rfl : w = w' := Option.some.inj (hw.symm.trans hw')
        exact (heval.above z lead r rfl hr').trans (resultOperand_snoc x last hr')

/-- The opening parenthesis ends the evaluation: the result is read above the top of the stack. -/
theorem doExpressionLoop_stm (ops : List OprId) (hroom : g.operandStackSize < maxOperands) :
    doExpressionLoop (.stm :: ops) g =
      .ok ((g.operandStack g.operandStackSize).literalValue, { g with operatorStack := ops }) := by
  rw [doExpressionLoop, applyOpr]
  simp only [if_pos hroom]

theorem getValue_resultOperand (lead : List (Term × OprId)) (last : Operand) {v : BitVec 32}
    (hv : rightValue g.symbols.value lead (getValue g last) = some v) : getValue g (resultOperand lead last v) = v := by
  unfold resultOperand
  cases lead with
  | nil =>
    rw [if_pos rfl]
    exact Option.some.inj hv
  | cons x lead => rw [if_neg (List.cons_ne_nil _ _)]; rfl

/-- Pushing a whole expression leaves its terms on the stack. -/
theorem lies_pushed (lead : List (Term × OprId)) (last : Operand)
    (hroom : g.operandStackSize + lead.length < maxOperands) :
    Lies (pushed (stacked g lead) last) g.operandStackSize lead last where
  size := rfl
  room := hroom
  slots := by
    intro i x hx
    have hi := (List.getElem?_eq_some_iff.mp hx).1
    have hne : g.operandStackSize + i ≠ g.operandStackSize + lead.length := by omega
    refine (Function.update_of_ne hne _ _).trans ?_
    apply writeFrom_getElem
    rw [List.getElem?_map, hx]
    rfl
  top := Function.update_self _ _ _

theorem pushed_below (lead : List (Term × OprId)) (last : Operand) {i : ℕ} (hi : i < g.operandStackSize) :
    (pushed (stacked g lead) last).operandStack i = g.operandStack i := by
  have hne : i ≠ g.operandStackSize + lead.length := by omega
  exact (Function.update_of_ne hne _ _).trans (writeFrom_below _ _ hi)

end Evaluation

/-! ## Parentheses -/

theorem binaryFun_isSome {values : Name → BitVec 32} {lead : List (Term × OprId)} {last v : BitVec 32}
    (h : rightValue values lead last = some v) : ∀ x ∈ lead, (binaryFun x.2).isSome := by
  induction lead generalizing v with
  | nil => exact nofun
  | cons y lead ih =>
    obtain ⟨r, f, hr, hf, -⟩ := rightValue_cons h
    intro x hx
    obtain rfl | hx := List.mem_cons.mp hx
    · exact Option.isSome_iff_exists.mpr ⟨f, hf⟩
    · exact ih hr x hx

section Parentheses
variable {s : State} {p : Option Atom}

/-- The state behind an opening parenthesis. -/
def opened (s : State) : State :=
  { clearLit s with globals := { s.globals with operatorStack := .stm :: s.globals.operatorStack } }

theorem asmLoop_open (rest : List Atom) (hroom : s.globals.operatorStack.length < maxOperators) :
    asmLoop s p (.open :: rest) = asmLoop (opened s) (some .open) rest := by
  apply asmLoop_next
  change withGlobals (clearLit s) (pushOperator s.globals .stm) = _
  rw [pushOperator_room _ hroom]
  rfl

theorem stepClose_ok {value : BitVec 32} {g : Globals} (h : doExpression s.globals = .ok (value, g)) :
    stepClose s = .ok (clearLit (setSrc1 { s with globals := g } value)) := by
  unfold stepClose
  rw [h]

theorem asmLoop_close : asmLoop s p [.close] = stepClose s := by
  have hstep : asmStep s p .close [] = stepClose s := rfl
  rw [asmLoop, hstep]
  cases stepClose s with
  | error stop => rfl
  | ok s' => rfl

/-- The terms and operators up to the closing parenthesis are pushed, and evaluated there. -/
theorem asmLoop_expression {lead : List (Term × OprId)} {last : Term} (hlit : s.expect.lit = false)
    (hbinary : ∀ x ∈ lead, (binaryFun x.2).isSome) (hknown : ∀ x ∈ lead, x.1.Known s.globals)
    (hlast : last.Known s.globals) (hoperands : s.globals.operandStackSize + lead.length < maxOperands)
    (hoperators : s.globals.operatorStack.length + lead.length ≤ maxOperators) :
    asmLoop s p (leadAtoms lead ++ [last.atom, .close]) =
      stepClose { s with globals := pushed (stacked s.globals lead) last.operand } := by
  obtain ⟨p', hread⟩ : ∃ p', asmLoop s p (leadAtoms lead ++ [last.atom, .close]) =
      asmLoop { s with globals := stacked s.globals lead } p' [last.atom, .close] :=
    asmLoop_lead hlit hbinary hknown (Nat.le_of_lt hoperands) hoperators
  have hterm : last.Known (stacked s.globals lead) := by
    cases last with
    | literal value => trivial
    | symbol name => exact hlast
  rw [hread, asmLoop_term (s := { s with globals := stacked s.globals lead }) hlit hterm hoperands, asmLoop_close]

/-- The stacks behind the terms of an expression that started with the operators `ops` on the stack. -/
theorem doExpression_pushed {g : Globals} {lead : List (Term × OprId)} {last : Operand} {v : BitVec 32}
    (hroom : g.operandStackSize + lead.length < maxOperands)
    (hv : rightValue g.symbols.value lead (getValue g last) = some v) :
    ∃ g', doExpression (pushed (stacked g lead) last) = doExpressionLoop g.operatorStack g' ∧
      Evaluated (pushed (stacked g lead) last) g' g.operandStackSize lead last v :=
  doExpressionLoop_lead (lies_pushed lead last hroom) hv

end Parentheses

/-! ## Literals -/

section Literals
variable {s : State} {p : Option Atom} {lead : List (BitVec 32 × OprId)} {last v : BitVec 32}

def literalLead (lead : List (BitVec 32 × OprId)) : List (Term × OprId) := lead.map fun x => (.literal x.1, x.2)

/-- The right-associated value of an expression of literals. -/
def literalValue (lead : List (BitVec 32 × OprId)) (last : BitVec 32) : Option (BitVec 32) :=
  rightValue (fun _ => 0) (literalLead lead) last

/-- `( e1 op1 e2 ... last )`. -/
def parenthesised (lead : List (BitVec 32 × OprId)) (last : BitVec 32) : List Atom :=
  .open :: (leadAtoms (literalLead lead) ++ [(Term.literal last).atom, .close])

/-- The closing parenthesis stores `v` into `Src1` of the current instruction. -/
def CloseStores (s : State) (p : Option Atom) (lead : List (BitVec 32 × OprId)) (last v : BitVec 32) : Prop :=
  ∃ s', asmLoop s p (parenthesised lead last) = .ok s' ∧ (s'.program (s'.index - 1)).src1 = v

/-- The first operator leaves the value of what is behind it, `v`. A lone literal must lie above the top of
the stack already. -/
def FirstNeutral (s : State) : List (BitVec 32 × OprId) → BitVec 32 → BitVec 32 → Prop
  | [], _, v => (s.globals.operandStack (s.globals.operandStackSize + 1)).literalValue = v
  | _ :: rest, last, v => literalValue rest last = some v

theorem rightValue_literalLead (values : Name → BitVec 32) :
    rightValue values (literalLead lead) last = literalValue lead last := by
  unfold literalValue rightValue literalLead
  rw [List.foldr_map, List.foldr_map]
  rfl

theorem known_literalLead (g : Globals) : ∀ x ∈ literalLead lead, x.1.Known g := by
  intro x hx
  obtain ⟨y, -, rfl⟩ := List.mem_map.mp hx
  trivial

theorem literalValue_cons {x : BitVec 32 × OprId} (h : literalValue (x :: lead) last = some v) :
    ∃ r, literalValue lead last = some r := by
  obtain ⟨r, f, hr, -⟩ := rightValue_cons h
  exact ⟨r, hr⟩

/-- Up to the closing parenthesis all is well; what is stored is the operand above the top. -/
theorem asmLoop_parenthesised (hoperands : s.globals.operandStackSize + lead.length + 1 < maxOperands)
    (hoperators : s.globals.operatorStack.length + lead.length < maxOperators) (hv : literalValue lead last = some v) :
    ∃ g' s', asmLoop s p (parenthesised lead last) = .ok s' ∧
      Evaluated (pushed (stacked (opened s).globals (literalLead lead)) ⟨none, last⟩) g' s.globals.operandStackSize
        (literalLead lead) ⟨none, last⟩ v ∧
      (s'.program (s'.index - 1)).src1 = (g'.operandStack (s.globals.operandStackSize + 1)).literalValue := by
  have hlength : (literalLead lead).length = lead.length := List.length_map _
  have hvalue : rightValue (opened s).globals.symbols.value (literalLead lead)
      (getValue (opened s).globals ⟨none, last⟩) = some v := (rightValue_literalLead _).trans hv
  obtain ⟨g', heval, hg'⟩ := doExpression_pushed (g := (opened s).globals)
    (by rw [hlength]; exact Nat.lt_of_succ_lt hoperands) hvalue
  have hstm : doExpressionLoop (opened s).globals.operatorStack g' =
      .ok ((g'.operandStack (s.globals.operandStackSize + 1)).literalValue,
        { g' with operatorStack := s.globals.operatorStack }) := by
    have hsize : g'.operandStackSize = s.globals.operandStackSize + 1 := hg'.size
    change doExpressionLoop (.stm :: s.globals.operatorStack) g' = _
    rw [doExpressionLoop_stm _ (by omega), hsize]
  refine ⟨g', clearLit (setSrc1 { opened s with globals := { g' with operatorStack := s.globals.operatorStack } }
    (g'.operandStack (s.globals.operandStackSize + 1)).literalValue), ?_, hg', ?_⟩
  · unfold parenthesised
    rw [asmLoop_open _ (by omega), asmLoop_expression (s := opened s) rfl (binaryFun_isSome hvalue)
      (known_literalLead _)
      (show (Term.literal last).Known (opened s).globals from trivial)
        (by rw [hlength]; exact Nat.lt_of_succ_lt hoperands)
      (by rw [hlength]; exact (Nat.succ_add _ _).trans_le hoperators)]
    exact stepClose_ok (heval.trans hstm)
  · have hself := Function.update_self (s.index - 1)
      ({ s.program (s.index - 1) with src1 := (g'.operandStack (s.globals.operandStackSize + 1)).literalValue } :
        Instruction)
      s.program
    exact congrArg Instruction.src1 hself

/-- The value of the expression is stored exactly when its first operator changes nothing: the place above the
top still holds the right operand of that operator. -/
theorem closeStores_iff (hoperands : s.globals.operandStackSize + lead.length + 1 ≤ 63)
    (hoperators : s.globals.operatorStack.length + lead.length ≤ 31) (hv : literalValue lead last = some v) :
    CloseStores s p lead last v ↔ FirstNeutral s lead last v := by
  obtain ⟨g', s', hloop, hg', hsrc⟩ := asmLoop_parenthesised (p := p) (Nat.lt_succ_of_le hoperands)
    (Nat.lt_succ_of_le hoperators) hv
  have hclose : CloseStores s p lead last v ↔
      (g'.operandStack (s.globals.operandStackSize + 1)).literalValue = v := by
    constructor
    · rintro ⟨s'', hloop', rfl⟩
      obtain rfl : s' = s'' := Except.ok.inj (hloop.symm.trans hloop')
      exact hsrc.symm
    · intro hslot
      exact ⟨s', hloop, hsrc.trans hslot⟩
  rw [hclose]
  cases lead with
  | nil =>
    have hslot : (pushed (stacked (opened s).globals []) ⟨none, last⟩).operandStack (s.globals.operandStackSize + 1) =
        s.globals.operandStack (s.globals.operandStackSize + 1) := by
      refine (Function.update_of_ne (Nat.succ_ne_self _) _ _).trans ?_
      exact congrFun (writeFrom_nil _ _) _
    rw [hg'.single rfl]
    exact (congrArg (fun operand => operand.literalValue = v) hslot).to_iff
  | cons x rest =>
    obtain ⟨r, hr⟩ := literalValue_cons hv
    have hslot : g'.operandStack (s.globals.operandStackSize + 1) = resultOperand (literalLead rest) ⟨none, last⟩ r :=
      hg'.above _ _ r rfl ((rightValue_literalLead _).trans hr)
    have hliteral : (resultOperand (literalLead rest) ⟨none, last⟩ r).literalValue = r := by
      have hget := getValue_resultOperand (g := s.globals) (literalLead rest) ⟨none, last⟩
        ((rightValue_literalLead _).trans hr)
      unfold resultOperand at hget ⊢
      split at hget
      · rename_i hnil
        rw [if_pos hnil]
        exact hget
      · rename_i hne
        rw [if_neg hne]
    change _ ↔ literalValue rest last = some v
    rw [hslot, hliteral, hr]
    exact Option.some_inj.symm

/-- `( 0 + 3 * 2 )` as the first thing in a source. -/
theorem closeStores_zero_plus : CloseStores (startState []) none [(0, .pl), (3, .ti)] 2 6 :=
  (closeStores_iff (by decide) (by decide) (by decide)).mpr (by change literalValue [(3, .ti)] 2 = some 6; decide)

/-- `( 2 + 3 )` stores 3. -/
theorem close_stores_right_operand :
    ¬ ∀ (s : State) (p : Option Atom) (lead : List (BitVec 32 × OprId)) (last v : BitVec 32),
      s.globals.operandStackSize + lead.length + 1 ≤ 63 → s.globals.operatorStack.length + lead.length ≤ 31 →
      literalValue lead last = some v → CloseStores s p lead last v := by
  intro h
  obtain ⟨s', hloop, hsrc⟩ := h (startState []) none [(2, .pl)] 3 5 (by decide) (by decide) (by decide)
  have hrun : (asmLoop (startState []) none (parenthesised [(2, .pl)] 3)).toOption.map
      (fun s' => (s'.program (s'.index - 1)).src1) = some 3 := by decide
  rw [hloop] at hrun
  exact absurd (hsrc.symm.trans (Option.some.inj hrun)) (by decide)

end Literals

/-! ## Assignments -/

section Assignments
variable {s : State} {p : Option Atom} {target : Name} {lead : List (Term × OprId)} {last : Term} {v : BitVec 32}

/-- `( target := e1 op1 e2 ... last )`. -/
def assignment (target : Name) (lead : List (Term × OprId)) (last : Term) : List Atom :=
  .open :: .alpha target :: .operator .as :: (leadAtoms lead ++ [last.atom, .close])

/-- A literal, or a symbol other than `target` that has been defined before. -/
def Term.Earlier (g : Globals) (target : Name) : Term → Prop
  | literal _ => True
  | symbol name => name ≠ target ∧ name ∈ g.symbols.names ∧ g.symbols.defined name = true

theorem assign_ok {g : Globals} {k : ℕ} {right : Operand} (hsize : g.operandStackSize = k + 2) (hroom : k < maxOperands)
    (hleft : (g.operandStack k).symbolRef = some target) (hright : g.operandStack (k + 1) = right)
    (hv : getValue g right = v) :
    assign g = .ok (none, pushed (setDefined (setValue { g with operandStackSize := k } target v) target) right) := by
  have hvalue : getValue { g with operandStackSize := k } right = v := hv
  unfold assign withOperand popOperand
  simp only [hsize, hleft, hright, hvalue]
  exact congrArg (Except.map _) (pushOperand_room right hroom)

def withNames (g : Globals) (names : List Name) : Globals := { g with symbols := { g.symbols with names := names } }

/-- The symbol is in the table afterwards, and nothing else has changed. -/
theorem getSymbol_room {g : Globals} (h : target ∈ g.symbols.names ∨ g.symbols.names.length < maxSymbols) :
    ∃ names, target ∈ names ∧ (∀ n ∈ g.symbols.names, n ∈ names) ∧
      getSymbol g target = .ok (withNames g names) := by
  unfold getSymbol
  by_cases hmem : target ∈ g.symbols.names
  · exact ⟨g.symbols.names, hmem, fun _ hn => hn, if_pos hmem⟩
  · have hroom := h.resolve_left hmem
    refine ⟨g.symbols.names ++ [target], List.mem_append_right _ (List.mem_singleton_self _),
      fun _ hn => List.mem_append_left _ hn, ?_⟩
    rw [if_neg hmem, if_neg (not_le.mpr hroom)]
    rfl

theorem asmLoop_target {rest : List Atom} {names : List Name} (hlit : s.expect.lit = false)
    (hsymbol : getSymbol s.globals target = .ok (withNames s.globals names))
    (hroom : s.globals.operandStackSize < maxOperands) :
    asmLoop s p (.alpha target :: rest) =
      asmLoop { s with globals := pushed (withNames s.globals names) ⟨some target, 0⟩ }
      (some (.alpha target)) rest := by
  apply asmLoop_next
  change stepAlpha s target = _
  unfold stepAlpha
  have hpush : pushOperand (withNames s.globals names) ⟨some target, 0⟩ = .ok _ := pushOperand_room _ hroom
  rw [hsymbol]
  simp only [hlit, Bool.false_eq_true, if_false]
  rw [hpush]
  rfl

/-- An assignment defines its symbol as the right-associated value of the expression, and changes no other. -/
theorem assignment_value (hlead : ∀ x ∈ lead, x.1.Earlier s.globals target) (hlast : last.Earlier s.globals target)
    (hoperands : s.globals.operandStackSize + lead.length + 2 ≤ maxOperands)
    (hoperators : s.globals.operatorStack.length + lead.length + 2 ≤ maxOperators)
    (htable : target ∈ s.globals.symbols.names ∨ s.globals.symbols.names.length < maxSymbols)
    (hv : rightValue s.globals.symbols.value lead (last.value s.globals.symbols.value) = some v) :
    ∃ s', asmLoop s p (assignment target lead last) = .ok s' ∧ s'.globals.symbols.defined target = true ∧
      s'.globals.symbols.value target = v ∧ ∀ n, n ≠ target →
        s'.globals.symbols.value n = s.globals.symbols.value n ∧
        s'.globals.symbols.defined n = s.globals.symbols.defined n := by
  obtain ⟨names, -, hnames, hsymbol⟩ := getSymbol_room (g := (opened s).globals) htable
  -- the stacks in front of the expression
  let g : Globals := { pushed (withNames s.globals names) ⟨some target, 0⟩ with
    operatorStack := .as :: .stm :: s.globals.operatorStack }
  have hstart : asmLoop s p (assignment target lead last) =
      asmLoop { clearLit s with globals := g } (some (.operator .as)) (leadAtoms lead ++ [last.atom, .close]) := by
    unfold assignment
    rw [asmLoop_open _ (by omega), asmLoop_target (s := opened s) rfl hsymbol
      (by change s.globals.operandStackSize < _; omega),
      asmLoop_operator (by decide) (by change s.globals.operatorStack.length + 1 < _; omega)]
    rfl
  have hvalue : rightValue g.symbols.value lead (getValue g last.operand) = some v := by
    rw [getValue_operand]
    exact hv
  have hknown : ∀ term : Term, term.Earlier s.globals target → term.Known g := by
    intro term hterm
    cases term with
    | literal value => trivial
    | symbol name => exact hnames name hterm.2.1
  have hroom : g.operandStackSize + lead.length < maxOperands := by
    change s.globals.operandStackSize + 1 + lead.length < maxOperands
    omega
  obtain ⟨g', heval, hg'⟩ := doExpression_pushed (g := g) hroom hvalue
  have hsize : g'.operandStackSize = s.globals.operandStackSize + 2 := hg'.size
  have hsymbols : g'.symbols = g.symbols := hg'.symbols
  -- the assignment itself finds its symbol below the result of the expression
  have hleft : (g'.operandStack s.globals.operandStackSize).symbolRef = some target := by
    have hbelow := (hg'.below s.globals.operandStackSize (Nat.lt_succ_self _)).trans
      (pushed_below (g := g) lead last.operand (Nat.lt_succ_self _))
    have hself : g.operandStack s.globals.operandStackSize = ⟨some target, 0⟩ := Function.update_self _ _ _
    exact congrArg Operand.symbolRef (hbelow.trans hself)
  have hright : getValue g' (resultOperand lead last.operand v) = v := by
    have hresult := getValue_resultOperand (g := g) _ _ hvalue
    unfold getValue at hresult ⊢
    rw [hsymbols]
    exact hresult
  have hassign := assign_ok (g := { g' with operatorStack := .stm :: s.globals.operatorStack }) hsize (by omega) hleft
    hg'.result hright
  have hloop := (doExpressionLoop_next (g := g') (show applyOpr .as _ = _ from hassign)).trans
    (doExpressionLoop_stm s.globals.operatorStack (by change s.globals.operandStackSize + 1 < _; omega))
  refine ⟨_, hstart.trans ((asmLoop_expression (s := { clearLit s with globals := g }) rfl (binaryFun_isSome hvalue)
    (fun x hx => hknown x.1 (hlead x hx)) (hknown last hlast) hroom
    (by change s.globals.operatorStack.length + 2 + lead.length ≤ _; omega)).trans
      (stepClose_ok (heval.trans hloop))), ?_, ?_, ?_⟩
  · exact Function.update_self _ _ _
  · exact Function.update_self _ _ _
  · intro n hn
    refine ⟨(Function.update_of_ne hn _ _).trans ?_, (Function.update_of_ne hn _ _).trans ?_⟩
    · exact congrArg (fun symbols => symbols.value n) hsymbols
    · exact congrArg (fun symbols => symbols.defined n) hsymbols

/-- A state in which `B` is 5. -/
def definedState : State :=
  { startState [] with
    globals := setDefined (setValue (withNames (startState []).globals [['B']]) ['B'] 5) ['B'] }

/-- `( A := B - 2 )`. -/
theorem assignment_value_minus :
    ∃ s', asmLoop definedState none (assignment ['A'] [(.symbol ['B'], .mi)] (.literal 2)) = .ok s' ∧
      s'.globals.symbols.defined ['A'] = true ∧ s'.globals.symbols.value ['A'] = 3 ∧
      ∀ n, n ≠ ['A'] → s'.globals.symbols.value n = definedState.globals.symbols.value n ∧
        s'.globals.symbols.defined n = definedState.globals.symbols.defined n := by
  refine assignment_value ?_ trivial (by decide) (by decide) (.inr (by decide)) (by decide)
  intro x hx
  rw [List.mem_singleton.mp hx]
  exact ⟨by decide, by decide, by decide⟩

end Assignments

end HtDrivers.Mttn
