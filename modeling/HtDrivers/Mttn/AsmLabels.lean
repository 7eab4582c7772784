import HtDrivers.Mttn.AsmRun

/-! Labels as operands: what an instruction holds after both passes when its operand is the name of a
label. -/
namespace HtDrivers.Mttn
set_option autoImplicit false

/-! ## The current instruction -/

/-- Instruction `k` is the current one and its first argument is complete. -/
structure Idle (s : State) (k : ℕ) : Prop where
  index : s.index = k + 1
  lit : s.expect.lit = false
  sr1 : s.expect.sr1 = false

def refsOf (s : State) (k : ℕ) : List (ℕ × Name) := s.forward.filter fun ref => ref.1 = k

theorem modifyInst_of_ne {s : State} {k : ℕ} (hk : k ≠ s.index - 1) (f : Instruction → Instruction) :
    (modifyInst s f).program k = s.program k :=
  Function.update_of_ne hk ..

theorem modifyInst_self (s : State) (f : Instruction → Instruction) :
    (modifyInst s f).program (s.index - 1) = f (s.program (s.index - 1)) :=
  Function.update_self ..

theorem modifyInst_src1 {s : State} {f : Instruction → Instruction} (hf : ∀ inst, (f inst).src1 = inst.src1) (k : ℕ) :
    ((modifyInst s f).program k).src1 = (s.program k).src1 := by
  by_cases hk : k = s.index - 1
  · rw [hk, modifyInst_self, hf]
  · rw [modifyInst_of_ne hk]

theorem setSrc1_of_ne {s : State} {k : ℕ} (hk : k ≠ s.index - 1) (value : BitVec 32) :
    (setSrc1 s value).program k = s.program k :=
  modifyInst_of_ne hk _

theorem setSrc1_self (s : State) (value : BitVec 32) : ((setSrc1 s value).program (s.index - 1)).src1 = value :=
  congrArg Instruction.src1 (modifyInst_self s _)

section Step
variable {patom : Option Atom} {s s' : State} {atom : Atom} {k : ℕ}

theorem Effect.idle (h : Effect patom s atom s') (hidle : Idle s k) (hop : ¬ atom.IsOpCode) :
    Idle s' k ∧ s'.forward = s.forward ∧ (¬ atom.IsClose → (s'.program k).src1 = (s.program k).src1) := by
  have hlit := hidle.lit
  cases h with
  | literal htrue | operand htrue =>
    rw [htrue] at hlit
    cases hlit
  | label | directive | quiet => exact ⟨⟨hidle.index, hidle.lit, hidle.sr1⟩, rfl, fun _ => rfl⟩
  | opCode => exact absurd ⟨_, rfl⟩ hop
  | register =>
    rename_i value
    obtain ⟨f, expect, heq, hf, hlit', hsr1⟩ := stepRegister_eq s value
    rw [heq]
    exact ⟨⟨hidle.index, hlit'.trans hidle.lit, hsr1⟩, rfl, fun _ => modifyInst_src1 (hf hidle.sr1) k⟩
  | opened => exact ⟨⟨hidle.index, rfl, hidle.sr1⟩, rfl, fun _ => rfl⟩
  | closed hatom => exact ⟨⟨hidle.index, rfl, hidle.sr1⟩, rfl, fun hclose => absurd hatom hclose⟩

theorem filter_append_other {refs : List (ℕ × Name)} {i : ℕ} {name : Name} (hi : i ≠ k) :
    (refs ++ [(i, name)]).filter (fun ref => ref.1 = k) = refs.filter fun ref => ref.1 = k := by
  rw [List.filter_append]
  simp [hi]

theorem Effect.past (h : Effect patom s atom s') (hk : k + 1 < s.index) :
    k + 1 < s'.index ∧ (s'.program k).src1 = (s.program k).src1 ∧ refsOf s' k = refsOf s k := by
  have hne : k ≠ s.index - 1 := by omega
  refine ⟨?_, ?_⟩
  · rw [h.index]
    omega
  cases h with
  | literal => exact ⟨congrArg Instruction.src1 (setSrc1_of_ne hne _), rfl⟩
  | operand =>
    refine ⟨congrArg Instruction.src1 (setSrc1_of_ne hne _), ?_⟩
    unfold refsOf
    simp only
    split
    · exact filter_append_other hne.symm
    · rfl
  | label | directive | quiet => exact ⟨rfl, rfl⟩
  | opCode =>
    have hne' : k ≠ s.index := by omega
    refine ⟨?_, rfl⟩
    simp only [Function.update_of_ne hne']
  | register =>
    rename_i value
    obtain ⟨f, expect, heq, -⟩ := stepRegister_eq s value
    rw [heq]
    exact ⟨congrArg Instruction.src1 (modifyInst_of_ne hne f), rfl⟩
  | opened => exact ⟨rfl, rfl⟩
  | closed => exact ⟨congrArg Instruction.src1 (setSrc1_of_ne hne _), rfl⟩

theorem Effect.next {opcd : OpCode} (h : Effect patom s (.opCode opcd) s') (hk : k < s.index) :
    (s'.program k).src1 = (s.program k).src1 ∧ refsOf s' k = refsOf s k := by
  have hne : k ≠ s.index := by omega
  rw [h.opCode_eq]
  refine ⟨?_, rfl⟩
  simp only [Function.update_of_ne hne]

/-- Forward references are to instructions that exist, and a literal is expected only by one. -/
structure RefsBelow (s : State) : Prop where
  refs : ∀ ref ∈ s.forward, ref.1 < s.index
  lit : s.expect.lit = true → 0 < s.index

theorem Effect.refsBelow (h : Effect patom s atom s') (hbelow : RefsBelow s) : RefsBelow s' := by
  cases h with
  | literal => exact ⟨hbelow.refs, fun hlit => by cases hlit⟩
  | operand hlit =>
    refine ⟨?_, fun hlit' => by cases hlit'⟩
    have hpos := hbelow.lit hlit
    intro ref href
    simp only at href
    split at href
    · obtain hold | hnew := List.mem_append.mp href
      · exact hbelow.refs ref hold
      · rw [List.mem_singleton.mp hnew]
        exact Nat.sub_lt hpos Nat.one_pos
    · exact hbelow.refs ref href
  | label | directive | quiet => exact ⟨hbelow.refs, hbelow.lit⟩
  | opCode => exact ⟨fun ref href => Nat.lt_succ_of_lt (hbelow.refs ref href), fun _ => Nat.succ_pos _⟩
  | register =>
    rename_i value
    obtain ⟨f, expect, heq, -, hlit, -⟩ := stepRegister_eq s value
    rw [heq]
    exact ⟨hbelow.refs, fun htrue => hbelow.lit (hlit.symm.trans htrue)⟩
  | opened => exact ⟨hbelow.refs, fun hlit => by cases hlit⟩
  | closed => exact ⟨hbelow.refs, fun hlit => by cases hlit⟩

end Step

/-! ## From an operand to the end -/

/-- Every bracket from `m` on has an op-code before it. -/
def NoBracket (atoms : List Atom) (m : ℕ) : Prop :=
  ∀ c, m ≤ c → CloseAt atoms c → ∃ e, m ≤ e ∧ e < c ∧ OpCodeAt atoms e

/-- The last bracket behind the operand at `j` and before the next op-code. -/
def LastBracket (atoms : List Atom) (j c : ℕ) : Prop :=
  j < c ∧ CloseAt atoms c ∧ (∀ e, j < e → e < c → ¬ OpCodeAt atoms e) ∧ NoBracket atoms (c + 1)

/-- The value that a closing bracket stores in the current instruction. -/
def bracketValue (s : State) : BitVec 32 :=
  match doExpression s.globals with
  | .ok (value, _) => value
  | .error _ => 0

theorem Effect.bracket {patom : Option Atom} {s s' : State} {atom : Atom} (h : Effect patom s atom s')
    (hclose : atom.IsClose) : (s'.program (s.index - 1)).src1 = bracketValue s := by
  cases h with
  | closed _ hexpr =>
    unfold bracketValue
    rw [hexpr]
    exact setSrc1_self _ _
  | opened hopen =>
    obtain rfl | rfl := hopen
    · obtain heq | heq := hclose <;> cases heq
    · obtain heq | heq := hclose <;> cases heq
  | quiet _ hno => exact absurd hclose hno
  | literal | operand | label | directive | opCode | register => obtain heq | heq := hclose <;> cases heq

theorem not_opCodeAt_of_close {atoms : List Atom} {c : ℕ} (h : CloseAt atoms c) : ¬ OpCodeAt atoms c := by
  obtain ⟨atom, hget, hclose⟩ := h
  rintro ⟨opcd, hop⟩
  rw [hget] at hop
  obtain rfl | rfl := hclose
  · cases hop
  · cases hop

theorem lastBracket_or_noBracket (atoms : List Atom) (j : ℕ) :
    NoBracket atoms (j + 1) ∨ ∃ c, LastBracket atoms j c := by
  classical
  by_cases hnone : NoBracket atoms (j + 1)
  · exact .inl hnone
  refine .inr ?_
  -- the brackets before the next op-code are places in the text, so there is a last one
  let brackets := (Finset.range atoms.length).filter fun c =>
    j < c ∧ CloseAt atoms c ∧ ∀ e, j < e → e < c → ¬ OpCodeAt atoms e
  have hmem : ∀ c, j < c → CloseAt atoms c → (∀ e, j < e → e < c → ¬ OpCodeAt atoms e) → c ∈ brackets := by
    intro c hj hclose hfree
    obtain ⟨atom, hget, -⟩ := id hclose
    obtain ⟨hlt, -⟩ := List.getElem?_eq_some_iff.mp hget
    exact Finset.mem_filter.mpr ⟨Finset.mem_range.mpr hlt, hj, hclose, hfree⟩
  have hne : brackets.Nonempty := by
    unfold NoBracket at hnone
    push Not at hnone
    obtain ⟨c, hj, hclose, hfree⟩ := hnone
    exact ⟨c, hmem c hj hclose fun e he hec => hfree e he hec⟩
  obtain ⟨-, hj, hclose, hfree⟩ := Finset.mem_filter.mp (brackets.max'_mem hne)
  refine ⟨brackets.max' hne, hj, hclose, hfree, ?_⟩
  intro c hc hclose'
  by_contra hno
  push Not at hno
  have hc' : c ∈ brackets := by
    refine hmem c (by omega) hclose' ?_
    intro e hje hec
    obtain hlt | heq | hgt := lt_trichotomy e (brackets.max' hne)
    · exact hfree e hje hlt
    · rw [heq]
      exact not_opCodeAt_of_close hclose
    · exact hno e hgt hec
  have hle := brackets.le_max' c hc'
  omega

section Run
variable {atoms : List Atom} {r : State} {k m : ℕ}

/-- From an idle instruction on: it stays the current one up to the next op-code, and the references to
it do not change. -/
theorem Accepted.window (h : Accepted atoms r) (hidle : Idle (stateAt atoms m) k) {i : ℕ} (hmi : m ≤ i)
    (hi : i ≤ atoms.length) :
    refsOf (stateAt atoms i) k = refsOf (stateAt atoms m) k ∧
    ((Idle (stateAt atoms i) k ∧ ∀ e, m ≤ e → e < i → ¬ OpCodeAt atoms e) ∨
      (k + 1 < (stateAt atoms i).index ∧ ∃ e, m ≤ e ∧ e < i ∧ OpCodeAt atoms e)) := by
  induction i, hmi using Nat.le_induction with
  | base => exact ⟨rfl, .inl ⟨hidle, fun e h₁ h₂ => by omega⟩⟩
  | succ i hmi ih =>
    obtain ⟨hrefs, hcases⟩ := ih (by omega)
    obtain ⟨atom, hget, heffect⟩ := h.effectAt hi
    rw [← hrefs]
    obtain ⟨hidle', hfree⟩ | ⟨hpast, e, hme, hei, hop⟩ := hcases
    · by_cases hop : atom.IsOpCode
      · obtain ⟨opcd, rfl⟩ := hop
        have hindex := heffect.index
        rw [hidle'.index] at hindex
        refine ⟨(heffect.next (by rw [hidle'.index]; omega)).2, .inr ⟨?_, i, hmi, by omega, opcd, hget⟩⟩
        rw [hindex]
        exact Nat.lt_succ_self _
      · obtain ⟨hidle'', hforward, -⟩ := heffect.idle hidle' hop
        refine ⟨?_, .inl ⟨hidle'', ?_⟩⟩
        · unfold refsOf
          rw [hforward]
        · intro e hme hei
          by_cases heq : e = i
          · rw [heq]
            rintro ⟨opcd, hopcd⟩
            rw [hget] at hopcd
            cases hopcd
            exact hop ⟨opcd, rfl⟩
          · exact hfree e hme (by omega)
    · obtain ⟨hpast', -, hrefs'⟩ := heffect.past hpast
      exact ⟨hrefs', .inr ⟨hpast', e, hme, by omega, hop⟩⟩

/-- Without a bracket before the next op-code, the instruction keeps its first argument. -/
theorem Accepted.src1_kept (h : Accepted atoms r) (hidle : Idle (stateAt atoms m) k) (hnone : NoBracket atoms m)
    {i : ℕ} (hmi : m ≤ i) (hi : i ≤ atoms.length) :
    ((stateAt atoms i).program k).src1 = ((stateAt atoms m).program k).src1 := by
  induction i, hmi using Nat.le_induction with
  | base => rfl
  | succ i hmi ih =>
    rw [← ih (by omega)]
    obtain ⟨atom, hget, heffect⟩ := h.effectAt hi
    obtain ⟨-, ⟨hidle', hfree⟩ | ⟨hpast, -⟩⟩ := h.window hidle hmi (by omega)
    · by_cases hop : atom.IsOpCode
      · obtain ⟨opcd, rfl⟩ := hop
        exact (heffect.next (by rw [hidle'.index]; omega)).1
      · obtain ⟨-, -, hsrc1⟩ := heffect.idle hidle' hop
        refine hsrc1 ?_
        intro hclose
        obtain ⟨e, hme, hei, hope⟩ := hnone i hmi ⟨atom, hget, hclose⟩
        exact hfree e hme hei hope
    · exact (heffect.past hpast).2.1

/-- The last bracket before the next op-code decides. -/
theorem Accepted.src1_bracket (h : Accepted atoms r) {j c : ℕ} (hidle : Idle (stateAt atoms (j + 1)) k)
    (hlast : LastBracket atoms j c) :
    ((stateAt atoms atoms.length).program k).src1 = bracketValue (stateAt atoms c) := by
  obtain ⟨hjc, hclose, hfree, hnone⟩ := hlast
  obtain ⟨atom, hget, hatom⟩ := hclose
  obtain ⟨hc, -⟩ := List.getElem?_eq_some_iff.mp hget
  obtain ⟨-, ⟨hidle', -⟩ | ⟨-, e, hje, hec, hop⟩⟩ := h.window hidle hjc (by omega)
  · have heffect := h.effect c atom hget
    have hnotop : ¬ atom.IsOpCode := by
      obtain rfl | rfl := hatom
      · rintro ⟨opcd, heq⟩
        cases heq
      · rintro ⟨opcd, heq⟩
        cases heq
    obtain ⟨hidle'', -, -⟩ := heffect.idle hidle' hnotop
    rw [h.src1_kept hidle'' hnone (by omega) (le_refl _)]
    have hbracket := heffect.bracket hatom
    rw [hidle'.index, Nat.add_sub_cancel] at hbracket
    exact hbracket
  · exact absurd hop (hfree e hje hec)

theorem Accepted.refsBelow (h : Accepted atoms r) {i : ℕ} (hi : i ≤ atoms.length) : RefsBelow (stateAt atoms i) := by
  induction i with
  | zero => exact ⟨(by intro ref href; cases href), (by intro hlit; cases hlit)⟩
  | succ i ih =>
    obtain ⟨atom, -, heffect⟩ := h.effectAt hi
    exact heffect.refsBelow (ih (by omega))

/-- An op-code with a literal or an address waits for it, over comments. -/
structure Waiting (s : State) (k : ℕ) : Prop where
  index : s.index = k + 1
  lit : s.expect.lit = true
  sr1 : s.expect.sr1 = false
  refs : refsOf s k = []

theorem Effect.waiting {patom : Option Atom} {s s' : State} {opcd : OpCode} (h : Effect patom s (.opCode opcd) s')
    (hbelow : RefsBelow s) (hlit : opcd.src1 = .literal ∨ opcd.src1 = .address) : Waiting s' s.index := by
  have hrefs : refsOf s s.index = [] := by
    refine List.filter_eq_nil_iff.mpr ?_
    intro ref href heq
    have hlt := hbelow.refs ref href
    rw [of_decide_eq_true heq] at hlt
    exact lt_irrefl _ hlt
  have hsr1 : opcd.src1 ≠ .register := by
    obtain heq | heq := hlit
    · rw [heq]
      decide
    · rw [heq]
      decide
  rw [h.opCode_eq]
  exact ⟨rfl, decide_eq_true hlit, decide_eq_false hsr1, hrefs⟩

theorem Effect.comment {patom : Option Atom} {s s' : State} {text : List Char}
    (h : Effect patom s (.comment text) s') (hwait : Waiting s k) : Waiting s' k := by
  obtain ⟨g, -, rfl⟩ := h.comment_eq
  exact ⟨hwait.index, hwait.lit, hwait.sr1, hwait.refs⟩

/-- The operand is stored, and recorded as a forward reference when its value is 0. -/
theorem Effect.stored {patom : Option Atom} {s s' : State} {name : Name} (h : Effect patom s (.alpha name) s')
    (hwait : Waiting s k) :
    Idle s' k ∧ (s'.program k).src1 = s.globals.symbols.value name ∧
      refsOf s' k = if s.globals.symbols.value name = 0 then [(k, name)] else [] := by
  have hk : s.index - 1 = k := by
    rw [hwait.index]
    rfl
  obtain ⟨g, -, rfl⟩ := h.operand_eq hwait.lit
  refine ⟨⟨hwait.index, rfl, hwait.sr1⟩, ?_, ?_⟩
  · rw [← hk]
    exact setSrc1_self _ _
  · have hrefs := hwait.refs
    unfold refsOf at hrefs ⊢
    simp only
    split
    · rw [List.filter_append, hrefs, hk]
      simp
    · exact hrefs

theorem Accepted.waiting (h : Accepted atoms r) {i j : ℕ} {name : Name} (hoperand : OperandAt atoms i j name) :
    Waiting (stateAt atoms j) (opCodesBefore atoms i) := by
  obtain ⟨⟨opcd, hop, hlit⟩, hij, hcomments, hname⟩ := hoperand
  obtain ⟨hj, -⟩ := List.getElem?_eq_some_iff.mp hname
  have hwait : ∀ m, i + 1 ≤ m → m ≤ j → Waiting (stateAt atoms m) (opCodesBefore atoms i) := by
    intro m him
    induction m, him using Nat.le_induction with
    | base =>
      intro _
      rw [← h.index (by omega)]
      exact (h.effect i _ hop).waiting (h.refsBelow (by omega)) hlit
    | succ m him ih =>
      intro hmj
      obtain ⟨text, hcomment⟩ := hcomments m (by omega) (by omega)
      exact (h.effect m _ hcomment).comment (ih (by omega))
  exact hwait j hij (le_refl j)

/-! ## Pass 2 -/

theorem patches_of_none {symbols : SymbolTable} {refs : List (ℕ × Name)} {program : ℕ → Instruction}
    (hnone : refs.filter (fun ref => ref.1 = k) = []) : refs.foldl (patch symbols) program k = program k := by
  induction refs generalizing program with
  | nil => rfl
  | cons ref refs ih =>
    by_cases href : ref.1 = k
    · rw [List.filter_cons_of_pos (by simpa using href)] at hnone
      cases hnone
    · rw [List.filter_cons_of_neg (by simpa using href)] at hnone
      rw [List.foldl_cons, ih hnone]
      exact Function.update_of_ne (Ne.symm href) ..

theorem patches_of_one {symbols : SymbolTable} {refs : List (ℕ × Name)} {program : ℕ → Instruction} {name : Name}
    (hone : refs.filter (fun ref => ref.1 = k) = [(k, name)]) :
    (refs.foldl (patch symbols) program k).src1 = symbols.value name := by
  induction refs generalizing program with
  | nil => cases hone
  | cons ref refs ih =>
    by_cases href : ref.1 = k
    · rw [List.filter_cons_of_pos (by simpa using href)] at hone
      obtain ⟨rfl, hrest⟩ := List.cons.inj hone
      rw [List.foldl_cons, patches_of_none hrest]
      unfold patch
      simp only [Function.update_self]
    · rw [List.filter_cons_of_neg (by simpa using href)] at hone
      exact ih hone

/-- What the instruction holds in the end: the last value of the symbol when it was a forward reference,
else what the last bracket stored, else the value that the symbol had. -/
theorem Accepted.src1_final (h : Accepted atoms r) {i j : ℕ} {name : Name} (hoperand : OperandAt atoms i j name) :
    ((stateAt atoms j).globals.symbols.value name = 0 →
      (pass2 r (opCodesBefore atoms i)).src1 = r.globals.symbols.value name) ∧
    ((stateAt atoms j).globals.symbols.value name ≠ 0 →
      (NoBracket atoms (j + 1) →
        (pass2 r (opCodesBefore atoms i)).src1 = (stateAt atoms j).globals.symbols.value name) ∧
      ∀ c, LastBracket atoms j c → (pass2 r (opCodesBefore atoms i)).src1 = bracketValue (stateAt atoms c)) := by
  have hname : atoms[j]? = some (.alpha name) := hoperand.2.2.2
  obtain ⟨hj, -⟩ := List.getElem?_eq_some_iff.mp hname
  obtain ⟨hidle, hsrc1, hrefs⟩ := (h.effect j _ hname).stored (h.waiting hoperand)
  obtain ⟨hwindow, -⟩ := h.window hidle (by omega) (le_refl _)
  rw [hrefs, h.final] at hwindow
  refine ⟨?_, ?_⟩
  · intro hzero
    rw [if_pos hzero] at hwindow
    exact patches_of_one hwindow
  · intro hne
    rw [if_neg hne] at hwindow
    have hpass2 : pass2 r (opCodesBefore atoms i) = r.program (opCodesBefore atoms i) := patches_of_none hwindow
    rw [hpass2]
    refine ⟨?_, ?_⟩
    · intro hnone
      rw [← hsrc1, ← h.src1_kept hidle hnone (by omega) (le_refl _), h.final]
    · intro c hlast
      rw [← h.src1_bracket hidle hlast, h.final]

/-! ## Addresses -/

/-- The texts that the assembler has a meaning for: at most one load address, before every label, and
labels that are defined once and that no expression writes to. -/
structure WellPlaced (atoms : List Atom) : Prop where
  one_directive : ∀ d d' value value', DirectiveAt atoms d value → DirectiveAt atoms d' value' → d = d'
  directive_first : ∀ d value l name, DirectiveAt atoms d value → LabelAt atoms l name → d < l
  once : ∀ l l' name, LabelAt atoms l name → LabelAt atoms l' name → l = l'
  kept : ∀ l name c, LabelAt atoms l name → CloseAt atoms c →
    (stateAt atoms (c + 1)).globals.symbols.value name = (stateAt atoms c).globals.symbols.value name

/-- The load address and the number of op-codes before the label. -/
def labelAddress (r : State) (atoms : List Atom) (l : ℕ) : BitVec 32 :=
  r.loadAddress + BitVec.ofNat 32 (opCodesBefore atoms l)

/-- An atom that is no colon behind a number keeps the distance between program counter and load address. -/
theorem Effect.pc {patom : Option Atom} {s s' : State} {atom : Atom} (h : Effect patom s atom s') :
    (∃ value, atom = .operator .lbl ∧ patom = some (.numeric value) ∧ s.pc = 0 ∧ s'.pc = value ∧
      s'.loadAddress = value) ∨
    (s'.pc = s.pc + BitVec.ofNat 32 (if isOpCode atom then 1 else 0) ∧ s'.loadAddress = s.loadAddress) := by
  have hsame : isOpCode atom = false → s'.pc = s.pc → s'.loadAddress = s.loadAddress →
      s'.pc = s.pc + BitVec.ofNat 32 (if isOpCode atom then 1 else 0) ∧ s'.loadAddress = s.loadAddress := by
    intro hop hpc hload
    rw [hop, hpc]
    exact ⟨by simp, hload⟩
  cases h with
  | directive hprev hpc => exact .inl ⟨_, rfl, hprev, hpc, rfl, rfl⟩
  | opCode => exact .inr ⟨rfl, rfl⟩
  | literal | operand | label => exact .inr (hsame rfl rfl rfl)
  | register =>
    rename_i value
    obtain ⟨f, expect, heq, -⟩ := stepRegister_eq s value
    exact .inr (hsame rfl (by rw [heq]; rfl) (by rw [heq]; rfl))
  | opened hopen =>
    obtain rfl | rfl := hopen
    · exact .inr (hsame rfl rfl rfl)
    · exact .inr (hsame rfl rfl rfl)
  | closed hclose =>
    obtain rfl | rfl := hclose
    · exact .inr (hsame rfl rfl rfl)
    · exact .inr (hsame rfl rfl rfl)
  | quiet hop => exact .inr (hsame (isOpCode_eq_false hop) rfl rfl)

theorem Accepted.pc (h : Accepted atoms r) (hplaced : WellPlaced atoms) {i : ℕ} (hi : i ≤ atoms.length) :
    (stateAt atoms i).pc = (stateAt atoms i).loadAddress + BitVec.ofNat 32 (opCodesBefore atoms i) ∧
    ((∀ d value, DirectiveAt atoms d value → i ≤ d + 1) → (stateAt atoms i).loadAddress = 0) := by
  induction i with
  | zero => exact ⟨rfl, fun _ => rfl⟩
  | succ i ih =>
    obtain ⟨hpc, hload⟩ := ih (by omega)
    obtain ⟨atom, hget, heffect⟩ := h.effectAt hi
    rw [opCodesBefore_succ hget]
    obtain ⟨value, rfl, hprev, hzero, hpc', hload'⟩ | ⟨hpc', hload'⟩ := heffect.pc
    · obtain ⟨d, rfl, hnumber⟩ := prevAtom_eq_some hprev
      have hdirective : DirectiveAt atoms d value := ⟨hnumber, hget⟩
      have hfirst : (stateAt atoms (d + 1)).loadAddress = 0 := by
        refine hload fun d' value' hd' => ?_
        rw [hplaced.one_directive d d' value value' hdirective hd']
      have hops : BitVec.ofNat 32 (opCodesBefore atoms (d + 1)) = 0 := by simpa [hfirst, hzero] using hpc.symm
      refine ⟨?_, fun hnone => absurd (hnone d value hdirective) (by omega)⟩
      rw [hpc', hload']
      simp only [isOpCode, Bool.false_eq_true, if_false, Nat.add_zero, hops]
      exact (BitVec.add_zero value).symm
    · refine ⟨?_, ?_⟩
      · rw [hpc', hload', hpc, BitVec.add_assoc, ← BitVec.ofNat_add]
      · intro hnone
        rw [hload']
        exact hload fun d value hd => by have := hnone d value hd; omega

theorem Accepted.loadAddress (h : Accepted atoms r) (hplaced : WellPlaced atoms) {l : ℕ} {name : Name}
    (hl : LabelAt atoms l name) {i : ℕ} (hli : l + 1 ≤ i) (hi : i ≤ atoms.length) :
    (stateAt atoms i).loadAddress = (stateAt atoms (l + 1)).loadAddress := by
  induction i, hli using Nat.le_induction with
  | base => rfl
  | succ i hli ih =>
    obtain ⟨atom, hget, heffect⟩ := h.effectAt hi
    obtain ⟨value, rfl, hprev, -⟩ | ⟨-, hload⟩ := heffect.pc
    · obtain ⟨d, rfl, hnumber⟩ := prevAtom_eq_some hprev
      have hfirst := hplaced.directive_first d value l name ⟨hnumber, hget⟩ hl
      omega
    · rw [hload, ih (by omega)]

theorem Accepted.pc_label (h : Accepted atoms r) (hplaced : WellPlaced atoms) {l : ℕ} {name : Name}
    (hl : LabelAt atoms l name) : (stateAt atoms (l + 1)).pc = labelAddress r atoms l := by
  obtain ⟨hlt, -⟩ := List.getElem?_eq_some_iff.mp hl.2
  have hload := h.loadAddress hplaced hl (by omega) (le_refl _)
  rw [h.final] at hload
  unfold labelAddress
  rw [(h.pc hplaced (by omega)).1, opCodesBefore_succ hl.1, hload]
  rfl

/-- What can change the value of a symbol: a colon behind its name, or a closing bracket. -/
theorem Effect.value {patom : Option Atom} {s s' : State} {atom : Atom} {name : Name} (h : Effect patom s atom s') :
    s'.globals.symbols.value name = s.globals.symbols.value name ∨ atom.IsClose ∨
    (atom = .operator .lbl ∧ patom = some (.alpha name)) := by
  cases h with
  | literal | directive | opCode => exact .inl rfl
  | operand _ hg | opened _ hg => exact .inl (congrFun hg.value name)
  | quiet _ _ _ _ _ hg => exact .inl (congrFun hg.value name)
  | register =>
    rename_i value
    obtain ⟨f, expect, heq, -⟩ := stepRegister_eq s value
    rw [heq]
    exact .inl rfl
  | closed hclose => exact .inr (.inl hclose)
  | @label other g hprev _ _ hvalue _ =>
    by_cases hname : other = name
    · rw [hname] at hprev
      exact .inr (.inr ⟨rfl, hprev⟩)
    · refine .inl ?_
      rw [hvalue]
      exact Function.update_of_ne (Ne.symm hname) ..

theorem Accepted.value_label (h : Accepted atoms r) (hplaced : WellPlaced atoms) {l : ℕ} {name : Name}
    (hl : LabelAt atoms l name) {i : ℕ} (hi : i ≤ atoms.length) :
    (stateAt atoms i).globals.symbols.value name = if i ≤ l + 1 then 0 else labelAddress r atoms l := by
  induction i with
  | zero => rfl
  | succ i ih =>
    have hstep := ih (by omega)
    by_cases hil : i = l + 1
    · rw [hil, if_neg (by omega), (h.label hl).2.1, Function.update_self, h.pc_label hplaced hl]
    obtain ⟨atom, hget, heffect⟩ := h.effectAt hi
    have hsame : (stateAt atoms (i + 1)).globals.symbols.value name = (stateAt atoms i).globals.symbols.value name := by
      obtain hsame | hclose | ⟨rfl, hprev⟩ := heffect.value
      · exact hsame
      · exact hplaced.kept l name i hl ⟨atom, hget, hclose⟩
      · obtain ⟨l', rfl, hname⟩ := prevAtom_eq_some hprev
        have honce := hplaced.once l l' name hl ⟨hname, hget⟩
        omega
    rw [hsame, hstep]
    by_cases hle : i ≤ l + 1
    · rw [if_pos hle, if_pos (by omega)]
    · rw [if_neg hle, if_neg (by omega)]

/-- At the operand, the symbol has the address of the label when the label came first, and else 0. -/
theorem Accepted.value_operand (h : Accepted atoms r) (hplaced : WellPlaced atoms) {i j l : ℕ} {name : Name}
    (hoperand : OperandAt atoms i j name) (hl : LabelAt atoms l name) :
    (stateAt atoms j).globals.symbols.value name = if l < j then labelAddress r atoms l else 0 := by
  have hname : atoms[j]? = some (.alpha name) := hoperand.2.2.2
  obtain ⟨hj, -⟩ := List.getElem?_eq_some_iff.mp hname
  have hne : j ≠ l + 1 := by
    rintro rfl
    rw [hl.2] at hname
    cases hname
  rw [h.value_label hplaced hl (by omega)]
  by_cases hlj : l < j
  · rw [if_neg (by omega), if_pos hlj]
  · rw [if_pos (by omega), if_neg hlj]

end Run

/-- In a text without errors, every instruction whose operand is a label holds the address of the label
after pass 2, exactly when no bracket overwrites one: behind the operand and before the next op-code,
where the label came first and its address is not 0, the last bracket must evaluate to the address. -/
theorem labels_resolved_iff {text : List Char} {r : State} (h : assemble text = .ok r) (hok : r.globals.errors = [])
    (hplaced : WellPlaced (atomsOf text)) :
    (∀ i j name l, OperandAt (atomsOf text) i j name → LabelAt (atomsOf text) l name →
      (pass2 r (opCodesBefore (atomsOf text) i)).src1 = labelAddress r (atomsOf text) l) ↔
    ∀ i j name l c, OperandAt (atomsOf text) i j name → LabelAt (atomsOf text) l name → l < j →
      labelAddress r (atomsOf text) l ≠ 0 → LastBracket (atomsOf text) j c →
      bracketValue (stateAt (atomsOf text) c) = labelAddress r (atomsOf text) l := by
  have haccepted := accepted_of_assemble h hok
  generalize atomsOf text = atoms at haccepted hplaced
  constructor
  · intro hall i j name l c hoperand hl hlj hne hlast
    have hvalue := haccepted.value_operand hplaced hoperand hl
    rw [if_pos hlj] at hvalue
    rw [← hall i j name l hoperand hl]
    exact (((haccepted.src1_final hoperand).2 (by rw [hvalue]; exact hne)).2 c hlast).symm
  · intro hcond i j name l hoperand hl
    have hvalue := haccepted.value_operand hplaced hoperand hl
    obtain ⟨hforward, hbackward⟩ := haccepted.src1_final hoperand
    by_cases hzero : (stateAt atoms j).globals.symbols.value name = 0
    · obtain ⟨hlt, -⟩ := List.getElem?_eq_some_iff.mp hl.2
      have hend := haccepted.value_label hplaced hl (le_refl _)
      rw [haccepted.final, if_neg (by omega)] at hend
      rw [hforward hzero, hend]
    · obtain ⟨hkept, hbracket⟩ := hbackward hzero
      have hlj : l < j := by
        by_contra hlj
        rw [if_neg hlj] at hvalue
        exact hzero hvalue
      rw [if_pos hlj] at hvalue
      obtain hnone | ⟨c, hlast⟩ := lastBracket_or_noBracket atoms j
      · rw [hkept hnone, hvalue]
      · rw [hbracket c hlast]
        exact hcond i j name l c hoperand hl hlj (by rw [← hvalue]; exact hzero) hlast

/-- A jump back to `top`, with an assignment to another name behind it. -/
def jumpSource (digit : Char) : List Char := "NOOP\ntop: NOOP\nJMP top\n( a := ".toList ++ digit :: " )\n".toList

def jumpAtoms (value : BitVec 32) : List Atom := [
  .opCode ⟨"NOOP", 0x4d, .nothing, .nothing, .nothing⟩, .seperator [],
  .alpha "top".toList, .operator .lbl, .opCode ⟨"NOOP", 0x4d, .nothing, .nothing, .nothing⟩, .seperator [],
  .opCode ⟨"JMP", 0x85, .address, .nothing, .nothing⟩, .alpha "top".toList, .seperator [],
  .open, .alpha "a".toList, .operator .as, .numeric value, .close, .seperator [], newAtom]

theorem lt_of_jumpAtoms {value : BitVec 32} {i : ℕ} {atom : Atom} (h : (jumpAtoms value)[i]? = some atom) : i < 16 :=
  (List.getElem?_eq_some_iff.mp h).1

theorem labelAt_jumpAtoms {value : BitVec 32} {l : ℕ} {name : Name} (h : LabelAt (jumpAtoms value) l name) :
    l = 2 ∧ name = "top".toList := by
  obtain ⟨hname, hcolon⟩ := h
  have hl := lt_of_jumpAtoms hname
  interval_cases l <;> simp [jumpAtoms, newAtom] at hname hcolon
  exact ⟨rfl, hname.symm⟩

theorem closeAt_jumpAtoms {value : BitVec 32} {c : ℕ} (h : CloseAt (jumpAtoms value) c) : c = 13 := by
  obtain ⟨atom, hget, rfl | rfl⟩ := h
  all_goals
    have hc := lt_of_jumpAtoms hget
    interval_cases c <;> simp [jumpAtoms, newAtom] at hget
  rfl

theorem wellPlaced_jumpAtoms {value : BitVec 32}
    (hkept : (stateAt (jumpAtoms value) (13 + 1)).globals.symbols.value "top".toList =
      (stateAt (jumpAtoms value) 13).globals.symbols.value "top".toList) : WellPlaced (jumpAtoms value) := by
  have hdirective : ∀ d v, ¬ DirectiveAt (jumpAtoms value) d v := by
    rintro d v ⟨hnumber, hcolon⟩
    have hd := lt_of_jumpAtoms hnumber
    interval_cases d <;> simp [jumpAtoms, newAtom] at hnumber hcolon
  refine ⟨?_, ?_, ?_, ?_⟩
  · intro d _ v _ hd _
    exact absurd hd (hdirective d v)
  · intro d v _ _ hd _
    exact absurd hd (hdirective d v)
  · intro l l' name hl hl'
    rw [(labelAt_jumpAtoms hl).1, (labelAt_jumpAtoms hl').1]
  · intro l name c hl hc
    rw [(labelAt_jumpAtoms hl).2, closeAt_jumpAtoms hc]
    exact hkept

theorem atomsOf_jumpSource_one : atomsOf (jumpSource '1') = jumpAtoms 1 := by decide

theorem atomsOf_jumpSource_five : atomsOf (jumpSource '5') = jumpAtoms 5 := by decide

/-- The bracket evaluates to 1, which is the address of `top`. -/
theorem labels_resolved_one : ∃ r, assemble (jumpSource '1') = .ok r ∧
    ∀ i j name l, OperandAt (jumpAtoms 1) i j name → LabelAt (jumpAtoms 1) l name →
      (pass2 r (opCodesBefore (jumpAtoms 1) i)).src1 = labelAddress r (jumpAtoms 1) l := by
  obtain ⟨r, hrun, hok, hload⟩ : ∃ r, assemble (jumpSource '1') = .ok r ∧ r.globals.errors = [] ∧ r.loadAddress = 0 :=
    exists_assemble (by decide)
  have hplaced : WellPlaced (atomsOf (jumpSource '1')) := by
    rw [atomsOf_jumpSource_one]
    exact wellPlaced_jumpAtoms (by decide)
  have hiff := labels_resolved_iff hrun hok hplaced
  rw [atomsOf_jumpSource_one] at hiff
  refine ⟨r, hrun, hiff.mpr ?_⟩
  intro i j name l c _ hl _ _ hlast
  have hvalue : bracketValue (stateAt (jumpAtoms 1) 13) = 0 + BitVec.ofNat 32 (opCodesBefore (jumpAtoms 1) 2) := by
    decide
  rw [(labelAt_jumpAtoms hl).1, closeAt_jumpAtoms hlast.2.1, labelAddress, hload, hvalue]

/-- The assignment behind the jump to address 1 makes it a jump to address 5. -/
theorem bracket_overwrites_label : ∃ r, assemble (jumpSource '5') = .ok r ∧ r.globals.errors = [] ∧
    WellPlaced (atomsOf (jumpSource '5')) ∧ OperandAt (atomsOf (jumpSource '5')) 6 7 "top".toList ∧
    LabelAt (atomsOf (jumpSource '5')) 2 "top".toList ∧
    (pass2 r (opCodesBefore (atomsOf (jumpSource '5')) 6)).src1 = 5 ∧
    labelAddress r (atomsOf (jumpSource '5')) 2 = 1 := by
  obtain ⟨r, hrun, hok, hload, hsrc1⟩ : ∃ r, assemble (jumpSource '5') = .ok r ∧ r.globals.errors = [] ∧
      r.loadAddress = 0 ∧ (pass2 r 2).src1 = 5 := exists_assemble (by decide)
  rw [atomsOf_jumpSource_five]
  refine ⟨r, hrun, hok, wellPlaced_jumpAtoms (by decide), ?_, ⟨rfl, rfl⟩, hsrc1, ?_⟩
  · refine ⟨⟨_, rfl, .inr rfl⟩, by decide, ?_, rfl⟩
    intro m h₁ h₂
    omega
  · rw [labelAddress, hload]
    decide

end HtDrivers.Mttn
