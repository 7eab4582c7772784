import HtDrivers.Mttn.SourceLines

/-! Assembling what was disassembled. A line of the listing is read back atom by atom: its label, its op-code and its
operands. Where the address column runs into the name of the op-code the two are one atom, and the line is lost. -/
namespace HtDrivers.Mttn
set_option autoImplicit false

/-! ## Arguments -/

section Arguments
variable {g g' : Globals} {opcd : OpCode} {inst : Instruction}

/-- An atom that is what an argument is to be. -/
def Fits (arg : AtomType × String) (atom : Atom) : Prop :=
  compareAtomTypes atom.type arg.1 = true ∧ compareAtomTypes atom.type .seperator = false

theorem nextArg_fits {atom : Atom} (h : compareAtomTypes atom.type .seperator = false) (prev : Atom)
    (rest : List Atom) : nextArg prev (atom :: rest) = (atom, rest) := by
  rw [nextArg]
  cases rest with
  | nil => rfl
  | cons next rest => exact if_neg (by rw [h]; decide)

theorem confirmArgs_fits {args : List (AtomType × String)} {atoms : List Atom} (h : List.Forall₂ Fits args atoms)
    (args' : List (AtomType × String)) (rest : List Atom) (prev : Atom) :
    ∃ prev', confirmArgs g (args ++ args') (nextArg prev (atoms ++ rest)).1 (nextArg prev (atoms ++ rest)).2 =
      confirmArgs g args' (nextArg prev' rest).1 (nextArg prev' rest).2 := by
  induction h generalizing prev with
  | nil => exact ⟨prev, rfl⟩
  | @cons arg atom args atoms hfits _ ih =>
    obtain ⟨prev', hrest⟩ := ih atom
    refine ⟨prev', ?_⟩
    rw [← hrest, List.cons_append, List.cons_append, nextArg_fits hfits.2]
    exact if_pos hfits.1

def registerArgs (type : ArgType) : List (AtomType × String) :=
  if type = .register then [(.register, "Expected: Register")] else []

def sourceArgs (type : ArgType) : List (AtomType × String) :=
  (if type = .literal ∨ type = .address then [(.expression, "Expected: Symbol or literal value")] else []) ++
  registerArgs type

theorem args_expectOf (opcd : OpCode) :
    (expectOf opcd).args = sourceArgs opcd.src1 ++ (registerArgs opcd.src2 ++ registerArgs opcd.dest) := by
  unfold Expect.args expectOf sourceArgs registerArgs
  simp only [decide_eq_true_eq, List.append_assoc]

theorem fits_source (type : ArgType) (value : BitVec 32) :
    List.Forall₂ Fits (sourceArgs type) (operandAtoms type value) := by
  cases type with
  | nothing => exact .nil
  | literal => exact .cons ⟨rfl, rfl⟩ .nil
  | address => exact .cons ⟨rfl, rfl⟩ .nil
  | register => exact .cons ⟨rfl, rfl⟩ .nil

theorem fits_register {type : ArgType} (htype : type = .nothing ∨ type = .register) (value : BitVec 32) :
    List.Forall₂ Fits (registerArgs type) (operandAtoms type value) := by
  obtain rfl | rfl := htype
  · exact .nil
  · exact .cons ⟨rfl, rfl⟩ .nil

theorem getConfirm_line {comment : String} (hlisted : Listed opcd comment) (rest : List Atom) :
    getConfirm g (.opCode opcd)
      (operandAtoms opcd.src1 inst.src1 ++ (operandAtoms opcd.src2 (inst.src2.setWidth 32) ++
        (operandAtoms opcd.dest (inst.dest.setWidth 32) ++ rest))) (expectOf opcd) = .ok g := by
  obtain ⟨_, h₁⟩ := confirmArgs_fits (g := g) (fits_source opcd.src1 inst.src1) _ _ (.opCode opcd)
  obtain ⟨_, h₂⟩ := confirmArgs_fits (g := g) (fits_register hlisted.src2 (inst.src2.setWidth 32)) _ _ _
  obtain ⟨_, h₃⟩ := confirmArgs_fits (g := g) (fits_register hlisted.dest (inst.dest.setWidth 32)) [] rest _
  rw [List.append_nil] at h₃
  rw [getConfirm, args_expectOf]
  exact h₁.trans (h₂.trans h₃)

/-- A name where a register is expected is an error. -/
theorem getConfirm_glued (h : Glued opcd inst) {name : Name} {rest : List Atom}
    (hconfirm : getConfirm g (.opCode opcd) (operandAtoms opcd.src1 inst.src1 ++ .alpha name :: rest) (expectOf opcd) =
      .ok g') : g'.errors ≠ [] := by
  obtain ⟨prev, h₁⟩ := confirmArgs_fits (g := g) (fits_source opcd.src1 inst.src1)
    (registerArgs opcd.src2 ++ registerArgs opcd.dest) (.alpha name :: rest) (.opCode opcd)
  have hargs : registerArgs opcd.src2 ++ registerArgs opcd.dest =
      [(.register, "Expected: Register"), (.register, "Expected: Register")] := by
    rw [h.1, h.2.1]
    rfl
  have hname : compareAtomTypes (Atom.alpha name).type .seperator = false := rfl
  rw [getConfirm, args_expectOf, h₁, hargs, nextArg_fits hname, confirmArgs] at hconfirm
  exact report_errors hconfirm

end Arguments

/-! ## A whole line -/

section Step
variable {s : State} {inst : Instruction} {e : Expect} {p : Option Atom} {rest : List Atom}

/-- The state with one more instruction. -/
def emit (s : State) (inst : Instruction) (e : Expect) : State :=
  { s with
    program := Function.update s.program s.index inst
    index := s.index + 1
    pc := s.pc + 1
    expect := e }

theorem modifyInst_emit (f : Instruction → Instruction) : modifyInst (emit s inst e) f = emit s (f inst) e := by
  have hprogram : Function.update (Function.update s.program s.index inst) s.index
      (f (Function.update s.program s.index inst s.index)) = Function.update s.program s.index (f inst) := by
    rw [Function.update_self, Function.update_idem]
  unfold emit
  rw [← hprogram]
  rfl

theorem asmLoop_ok {s' : State} {atom : Atom} (h : asmStep s p atom rest = .ok s') :
    asmLoop s p (atom :: rest) = asmLoop s' (some atom) rest := by
  rw [asmLoop, h]

theorem asmLoop_source (s : State) (opcd : OpCode) (inst : Instruction) (p : Option Atom) (value : BitVec 32)
    (rest : List Atom) :
    ∃ p', asmLoop (emit s inst (expectOf opcd)) p (operandAtoms opcd.src1 value ++ rest) =
      asmLoop (emit s { inst with src1 := if opcd.src1 = .nothing then inst.src1 else value }
        ⟨false, false, opcd.src2 = .register, opcd.dest = .register⟩) p' rest := by
  have hnumber : (opcd.src1 = .literal ∨ opcd.src1 = .address) → operandAtoms opcd.src1 value = [.numeric value] →
      ∃ p', asmLoop (emit s inst (expectOf opcd)) p (operandAtoms opcd.src1 value ++ rest) =
        asmLoop (emit s { inst with src1 := if opcd.src1 = .nothing then inst.src1 else value }
          ⟨false, false, opcd.src2 = .register, opcd.dest = .register⟩) p' rest := by
    intro hlit hatoms
    have hsome : opcd.src1 ≠ .nothing := by
      obtain h | h := hlit
      · rw [h]
        decide
      · rw [h]
        decide
    have hsr1 : opcd.src1 ≠ .register := by
      obtain h | h := hlit
      · rw [h]
        decide
      · rw [h]
        decide
    refine ⟨some (.numeric value), ?_⟩
    rw [hatoms, if_neg hsome]
    apply asmLoop_ok
    have hexpect : (emit s inst (expectOf opcd)).expect.lit = true := decide_eq_true hlit
    rw [asmStep, stepNumeric, if_pos hexpect, setSrc1, modifyInst_emit]
    have hrest : ({ expectOf opcd with lit := false } : Expect) =
        ⟨false, false, opcd.src2 = .register, opcd.dest = .register⟩ := by
      unfold expectOf
      rw [decide_eq_false hsr1]
    change Except.ok (emit s _ { expectOf opcd with lit := false }) = _
    rw [hrest]
  cases htype : opcd.src1 with
  | nothing =>
    refine ⟨p, ?_⟩
    rw [if_pos rfl]
    unfold expectOf
    rw [htype]
    rfl
  | literal =>
    rw [htype] at hnumber
    exact hnumber (.inl rfl) rfl
  | address =>
    rw [htype] at hnumber
    exact hnumber (.inr rfl) rfl
  | register =>
    refine ⟨some (.register value), ?_⟩
    rw [if_neg (by decide)]
    apply asmLoop_ok
    have hexpect : (emit s inst (expectOf opcd)).expect.sr1 = true := decide_eq_true htype
    rw [asmStep, stepRegister, if_pos hexpect, setSrc1, modifyInst_emit]
    unfold expectOf
    rw [htype]
    rfl

theorem asmLoop_src2 {type : ArgType} (htype : type = .nothing ∨ type = .register) (s : State) (inst : Instruction)
    (dst : Bool) (p : Option Atom) (value : BitVec 32) (rest : List Atom) :
    ∃ p', asmLoop (emit s inst ⟨false, false, type = .register, dst⟩) p (operandAtoms type value ++ rest) =
      asmLoop (emit s { inst with src2 := if type = .nothing then inst.src2 else value.setWidth 8 }
        ⟨false, false, false, dst⟩) p' rest := by
  obtain rfl | rfl := htype
  · exact ⟨p, rfl⟩
  · refine ⟨some (.register value), ?_⟩
    rw [if_neg (by decide)]
    apply asmLoop_ok
    have hsr1 : ¬ (emit s inst ⟨false, false, true, dst⟩).expect.sr1 = true := Bool.false_ne_true
    have hsr2 : (emit s inst ⟨false, false, true, dst⟩).expect.sr2 = true := rfl
    rw [decide_eq_true (rfl : ArgType.register = .register), asmStep, stepRegister, if_neg hsr1, if_pos hsr2,
      modifyInst_emit]
    rfl

theorem asmLoop_dest {type : ArgType} (htype : type = .nothing ∨ type = .register) (s : State) (inst : Instruction)
    (p : Option Atom) (value : BitVec 32) (rest : List Atom) :
    ∃ p', asmLoop (emit s inst ⟨false, false, false, type = .register⟩) p (operandAtoms type value ++ rest) =
      asmLoop (emit s { inst with dest := if type = .nothing then inst.dest else value.setWidth 8 }
        ⟨false, false, false, false⟩) p' rest := by
  obtain rfl | rfl := htype
  · exact ⟨p, rfl⟩
  · refine ⟨some (.register value), ?_⟩
    rw [if_neg (by decide)]
    apply asmLoop_ok
    have hsr1 : ¬ (emit s inst ⟨false, false, false, true⟩).expect.sr1 = true := Bool.false_ne_true
    have hsr2 : ¬ (emit s inst ⟨false, false, false, true⟩).expect.sr2 = true := Bool.false_ne_true
    have hdst : (emit s inst ⟨false, false, false, true⟩).expect.dst = true := rfl
    rw [decide_eq_true (rfl : ArgType.register = .register), asmStep, stepRegister, if_neg hsr1, if_neg hsr2,
      if_pos hdst, modifyInst_emit]
    rfl

/-- A line that is read whole gives its instruction. -/
theorem asmLoop_line {opcd : OpCode} {comment : String} (hlisted : Listed opcd comment) (hwf : WellFormed opcd inst)
    (s : State) (p : Option Atom) (rest : List Atom) :
    ∃ p', asmLoop s p (lineAtoms opcd comment inst ++ rest) =
      asmLoop { emit s inst ⟨false, false, false, false⟩ with globals := resetStacks s.globals } p' rest := by
  have hbyte : ∀ b : BitVec 8, (b.setWidth 32).setWidth 8 = b := by
    intro b
    rw [BitVec.setWidth_setWidth_of_le b (by decide), BitVec.setWidth_eq]
  have hatoms : lineAtoms opcd comment inst ++ rest = .opCode opcd ::
      (operandAtoms opcd.src1 inst.src1 ++ (operandAtoms opcd.src2 (inst.src2.setWidth 32) ++
        (operandAtoms opcd.dest (inst.dest.setWidth 32) ++ (.seperator (' ' :: comment.toList) :: rest)))) := by
    simp [lineAtoms]
  have hopCode : asmStep s p (.opCode opcd)
      (operandAtoms opcd.src1 inst.src1 ++ (operandAtoms opcd.src2 (inst.src2.setWidth 32) ++
        (operandAtoms opcd.dest (inst.dest.setWidth 32) ++ (.seperator (' ' :: comment.toList) :: rest)))) =
      .ok (emit s { clearedInstruction with number := opcd.number } (expectOf opcd)) := by
    rw [asmStep, stepOpCode, getConfirm_line hlisted]
    rfl
  rw [hatoms, asmLoop_ok hopCode]
  obtain ⟨p₁, h₁⟩ := asmLoop_source s opcd { clearedInstruction with number := opcd.number } (some (.opCode opcd))
    inst.src1 _
  rw [h₁]
  obtain ⟨p₂, h₂⟩ := asmLoop_src2 hlisted.src2 s _ _ p₁ (inst.src2.setWidth 32) _
  rw [h₂]
  obtain ⟨p₃, h₃⟩ := asmLoop_dest hlisted.dest s _ p₂ (inst.dest.setWidth 32) _
  rw [h₃]
  have hfields : (⟨inst.dest, inst.src2, opcd.number, 0, inst.src1⟩ : Instruction) = inst := by
    rw [← hwf.number, ← hwf.crc]
  simp only [clearedInstruction, hbyte, hwf.src1.unused, hwf.src2.unused, hwf.dest.unused, hfields]
  exact ⟨some (.seperator (' ' :: comment.toList)), asmLoop_ok rfl⟩

end Step

/-! ## A whole program -/

section Program
variable {spare : Bool} {adr pc : BitVec 32} {opcd : OpCode} {inst : Instruction} {program : List Instruction}
  {lines : List DisLine} {atoms : List Atom} {P Q : BitVec 32 → BitVec 32 → OpCode → Instruction → Prop}

/-- The number is that of an op-code, and the fields are as it declares them. -/
def Valid (inst : Instruction) : Prop := ∃ opcd ∈ instructionSet, WellFormed opcd inst

/-- Each line of a program, with its address, its number and its op-code. -/
def EachLine (P : BitVec 32 → BitVec 32 → OpCode → Instruction → Prop) (adr pc : BitVec 32)
    (program : List Instruction) : Prop :=
  ∀ k inst opcd, program[k]? = some inst → opcd ∈ instructionSet → opcd.number = inst.number →
    P (adr + BitVec.ofNat 32 k) (pc + BitVec.ofNat 32 k) opcd inst

/-- The names of the registers fit in the buffer of `GetRegisterName`. -/
def NamesFit (spare : Bool) (opcd : OpCode) (inst : Instruction) : Prop :=
  spare = true ∨ (opcd.src1 = .register → inst.src1.toNat ≠ 215) ∧ (opcd.src2 = .register → inst.src2.toNat ≠ 215) ∧
    (opcd.dest = .register → inst.dest.toNat ≠ 215)

/-- A line that can be printed, with spaces between its words. -/
structure LineSafe (spare : Bool) (adr pc : BitVec 32) (opcd : OpCode) (inst : Instruction) : Prop where
  names : NamesFit spare opcd inst
  crowded : ¬ Crowded adr pc opcd
  glued : ¬ Glued opcd inst

/-- The lines behind the header, without their address columns, are assembled without an error to the instructions
that they were printed from. -/
def Reassembles (spare : Bool) (code : ProgramBuf) : Prop :=
  ∃ lines r, disAssemble spare code = some (columnHeads :: lines) ∧ assemble (sourceText lines) = .ok r ∧
    r.globals.errors = [] ∧ r.index = code.program.length ∧
    ∀ k inst, code.program[k]? = some inst → pass2 r k = inst

theorem number_unique {opcd' : OpCode} (h : opcd ∈ instructionSet) (h' : opcd' ∈ instructionSet)
    (heq : opcd.number = opcd'.number) : opcd = opcd' := by
  obtain ⟨comment, hlisted⟩ := listed h
  obtain ⟨comment', hlisted'⟩ := listed h'
  have hfound := hlisted.found
  rw [heq, hlisted'.found] at hfound
  exact (congrArg Prod.fst (Option.some.inj hfound)).symm

theorem eachLine_cons (hopcd : opcd ∈ instructionSet) (hnumber : opcd.number = inst.number) :
    EachLine P adr pc (inst :: program) ↔ P adr pc opcd inst ∧ EachLine P (adr + 1) (pc + 1) program := by
  have hnext : ∀ (a : BitVec 32) k, a + BitVec.ofNat 32 (k + 1) = a + 1 + BitVec.ofNat 32 k := by
    intro a k
    rw [BitVec.ofNat_add, BitVec.add_assoc, BitVec.add_comm (BitVec.ofNat 32 k)]
    rfl
  have hzero : ∀ a : BitVec 32, a + BitVec.ofNat 32 0 = a := BitVec.add_zero
  constructor
  · intro h
    refine ⟨?_, ?_⟩
    · have hfirst := h 0 inst opcd rfl hopcd hnumber
      rwa [hzero, hzero] at hfirst
    · intro k inst' opcd' hget hopcd' hnumber'
      have hk := h (k + 1) inst' opcd' hget hopcd' hnumber'
      rwa [hnext, hnext] at hk
  · rintro ⟨hfirst, hrest⟩ k inst' opcd' hget hopcd' hnumber'
    cases k with
    | zero =>
      obtain rfl := Option.some.inj hget
      obtain rfl := number_unique hopcd hopcd' (hnumber.trans hnumber'.symm)
      rwa [hzero, hzero]
    | succ k =>
      rw [hnext, hnext]
      exact hrest k inst' opcd' hget hopcd' hnumber'

theorem eachLine_nil : EachLine P adr pc [] := by
  intro k inst opcd hget
  cases hget

/-- What the atoms of all lines are. -/
inductive LinesRead : BitVec 32 → BitVec 32 → List Instruction → List Atom → Prop
  | nil {adr pc : BitVec 32} : LinesRead adr pc [] []
  | cons {adr pc : BitVec 32} {opcd : OpCode} {comment : String} {inst : Instruction} {program : List Instruction}
    {atoms rest : List Atom} (hopcd : opcd ∈ instructionSet) (hlisted : Listed opcd comment)
    (hwf : WellFormed opcd inst) (hline : LineRead adr pc opcd comment inst atoms)
    (hrest : LinesRead (adr + 1) (pc + 1) program rest) : LinesRead adr pc (inst :: program) (atoms ++ rest)

theorem disAssembleLoop_eq_some {comment : String} (hlisted : Listed opcd comment)
    (hnumber : inst.number = opcd.number) : disAssembleLoop spare adr pc (inst :: program) = some lines ↔ ∃ oln rest,
      instLine spare adr pc opcd comment inst = some oln ∧
      disAssembleLoop spare (adr + 1) (pc + 1) program = some rest ∧ lines = oln :: rest := by
  rw [disAssembleLoop, hnumber, hlisted.found]
  constructor
  · intro h
    obtain ⟨oln, hline, hmap⟩ := Option.bind_eq_some_iff.mp h
    obtain ⟨rest, hrest, heq⟩ := Option.map_eq_some_iff.mp hmap
    exact ⟨oln, rest, hline, hrest, heq.symm⟩
  · rintro ⟨oln, rest, hline, hrest, rfl⟩
    dsimp only
    rw [hline, hrest]
    rfl

theorem lexes_program (hvalid : ∀ inst ∈ program, Valid inst) (h : disAssembleLoop spare adr pc program = some lines) :
    ∃ atoms, Lexes (sourceText lines) atoms [] ∧ LinesRead adr pc program atoms := by
  induction program generalizing adr pc lines with
  | nil =>
    cases h
    exact ⟨[], Lexes.refl [], .nil⟩
  | cons inst program ih =>
    obtain ⟨opcd, hopcd, hwf⟩ := hvalid inst (List.mem_cons_self ..)
    obtain ⟨comment, hlisted⟩ := listed hopcd
    obtain ⟨oln, lines, hline, hlines, rfl⟩ := (disAssembleLoop_eq_some hlisted hwf.number).mp h
    obtain ⟨rest, hlex, hread⟩ := ih (fun inst' h' => hvalid inst' (List.mem_cons_of_mem _ h')) hlines
    obtain ⟨atoms, hlex', hread'⟩ := lexes_line hlisted hwf hline (sourceText lines)
    exact ⟨atoms ++ rest, hlex'.trans hlex, .cons hopcd hlisted hwf hread' hread⟩

theorem countP_operandAtoms (type : ArgType) (value : BitVec 32) : (operandAtoms type value).countP isOpCode = 0 := by
  cases type with
  | nothing | literal | address | register => rfl

/-- The atoms of a program have an op-code less, or a name for a register, or all lines are read whole. -/
theorem LinesRead.outcome (h : LinesRead adr pc program atoms) :
    atoms.countP isOpCode ≤ program.length ∧
    (EachLine (fun adr pc opcd inst => ¬ Crowded adr pc opcd ∧ ¬ Glued opcd inst) adr pc program ∨
      atoms.countP isOpCode < program.length ∨
      ∃ pre opcd inst name post, Glued opcd inst ∧
        atoms = pre ++ .opCode opcd :: (operandAtoms opcd.src1 inst.src1 ++ .alpha name :: post)) := by
  induction h with
  | nil => exact ⟨le_refl 0, .inl eachLine_nil⟩
  | @cons adr pc opcd comment inst program atoms rest hopcd hlisted hwf hline hrest ih =>
    obtain ⟨hcount, hcases⟩ := ih
    rw [List.countP_append, List.length_cons]
    cases hline with
    | crowded hcrowded hfree =>
      have hnone : atoms.countP isOpCode = 0 := by
        rw [List.countP_eq_zero]
        intro atom hatom
        rw [hfree atom hatom]
        exact Bool.false_ne_true
      exact ⟨by omega, .inr (.inl (by omega))⟩
    | @glued name hglued =>
      have hone : (Atom.opCode opcd :: (operandAtoms opcd.src1 inst.src1 ++
          [.alpha name, .seperator (' ' :: comment.toList)])).countP isOpCode = 1 := by
        rw [List.countP_cons, List.countP_append, countP_operandAtoms]
        rfl
      rw [hone]
      refine ⟨by omega, .inr (.inr ⟨[], opcd, inst, name, .seperator (' ' :: comment.toList) :: rest, hglued, ?_⟩)⟩
      simp
    | whole hcrowded hglued =>
      have hone : (lineAtoms opcd comment inst).countP isOpCode = 1 := by
        rw [lineAtoms, List.countP_cons, List.countP_append, List.countP_append, List.countP_append,
          countP_operandAtoms, countP_operandAtoms, countP_operandAtoms]
        rfl
      rw [hone]
      refine ⟨by omega, ?_⟩
      obtain hall | hless | ⟨pre, opcd', inst', name, post, hglued', heq⟩ := hcases
      · exact .inl ((eachLine_cons hopcd hwf.number.symm).mpr ⟨⟨hcrowded, hglued⟩, hall⟩)
      · exact .inr (.inl (by omega))
      · refine .inr (.inr ⟨lineAtoms opcd comment inst ++ pre, opcd', inst', name, post, hglued', ?_⟩)
        rw [heq, List.append_assoc]

/-- What the assembler does over the lines of a program. -/
structure Emitted (s s' : State) (program : List Instruction) : Prop where
  errors : s'.globals.errors = s.globals.errors
  forward : s'.forward = s.forward
  lit : s'.expect.lit = false
  index : s'.index = s.index + program.length
  before : ∀ k < s.index, s'.program k = s.program k
  after : ∀ k inst, program[k]? = some inst → s'.program (s.index + k) = inst

theorem Emitted.cons {s s' : State} (h : Emitted { emit s inst ⟨false, false, false, false⟩ with
    globals := resetStacks s.globals } s' program) : Emitted s s' (inst :: program) := by
  have hafter := h.after
  refine ⟨h.errors, h.forward, h.lit, ?_, ?_, ?_⟩
  · rw [h.index, List.length_cons]
    change s.index + 1 + program.length = _
    omega
  · intro k hk
    rw [h.before k (Nat.lt_succ_of_lt hk)]
    exact Function.update_of_ne (Nat.ne_of_lt hk) ..
  · intro k inst' hget
    cases k with
    | zero =>
      obtain rfl := Option.some.inj hget
      have hself : s'.program s.index = inst := by
        rw [h.before s.index (Nat.lt_succ_self _)]
        exact Function.update_self ..
      exact hself
    | succ k =>
      have hk := hafter k inst' hget
      rw [← hk]
      congr 1
      change s.index + (k + 1) = s.index + 1 + k
      omega

theorem LinesRead.emitted (h : LinesRead adr pc program atoms)
    (hsafe : EachLine (fun adr pc opcd inst => ¬ Crowded adr pc opcd ∧ ¬ Glued opcd inst) adr pc program)
    (s : State) (hlit : s.expect.lit = false) (p : Option Atom) (rest : List Atom) :
    ∃ s' p', asmLoop s p (atoms ++ rest) = asmLoop s' p' rest ∧ Emitted s s' program := by
  induction h generalizing s p with
  | nil =>
    refine ⟨s, p, rfl, rfl, rfl, hlit, rfl, fun _ _ => rfl, ?_⟩
    intro k inst hget
    cases hget
  | @cons adr pc opcd comment inst program atoms more hopcd hlisted hwf hline hrest ih =>
    obtain ⟨⟨hcrowded, hglued⟩, hnext⟩ := (eachLine_cons hopcd hwf.number.symm).mp hsafe
    cases hline with
    | crowded h => exact absurd h hcrowded
    | glued h => exact absurd h hglued
    | whole =>
      obtain ⟨p₁, hline⟩ := asmLoop_line hlisted hwf s p _
      rw [List.append_assoc, hline]
      obtain ⟨s', p', hloop, hemitted⟩ :=
        ih hnext { emit s inst ⟨false, false, false, false⟩ with globals := resetStacks s.globals } rfl p₁
      exact ⟨s', p', hloop, hemitted.cons⟩

theorem operandText_fits {type : ArgType} {value : BitVec 32} (hfield : FieldOk type value.toNat) :
    (∃ t, operandText spare type value = some t) ↔ (spare = true ∨ (type = .register → value.toNat ≠ 215)) := by
  cases type with
  | nothing => exact iff_of_true ⟨_, rfl⟩ (.inr fun h => by cases h)
  | literal => exact iff_of_true ⟨_, rfl⟩ (.inr fun h => by cases h)
  | address => exact iff_of_true ⟨_, rfl⟩ (.inr fun h => by cases h)
  | register =>
    obtain ⟨name, hname, ⟨-, hlength⟩, hfull, -⟩ := nameOf (hfield.2 rfl)
    have hfits : name.length < maxNameLength ↔ value.toNat ≠ 215 := by omega
    unfold operandText
    rw [getRegisterName_spare, hname, Option.filter_some]
    simp only [forall_const, ← hfits, Bool.or_eq_true, decide_eq_true_eq]
    split
    · rename_i h
      exact iff_of_true ⟨name, rfl⟩ h
    · rename_i h
      refine iff_of_false ?_ h
      intro ⟨t, ht⟩
      cases ht

theorem instLine_fits {comment : String} (hwf : WellFormed opcd inst) :
    (∃ oln, instLine spare adr pc opcd comment inst = some oln) ↔ NamesFit spare opcd inst := by
  have hsrc1 : (∃ t, operandText spare opcd.src1 inst.src1 = some t) ↔ _ := operandText_fits hwf.src1
  have hsrc2 : (∃ t, operandText spare opcd.src2 (inst.src2.setWidth 32) = some t) ↔ _ := operandText_fits hwf.src2_wide
  have hdest : (∃ t, operandText spare opcd.dest (inst.dest.setWidth 32) = some t) ↔ _ := operandText_fits hwf.dest_wide
  rw [toNat_field] at hsrc2 hdest
  unfold NamesFit
  rw [or_and_left, or_and_left, ← hsrc1, ← hsrc2, ← hdest]
  constructor
  · rintro ⟨oln, h⟩
    obtain ⟨src1, src2, dest, h₁, h₂, h₃, -⟩ := instLine_eq_some.mp h
    exact ⟨⟨src1, h₁⟩, ⟨src2, h₂⟩, ⟨dest, h₃⟩⟩
  · rintro ⟨⟨src1, h₁⟩, ⟨src2, h₂⟩, ⟨dest, h₃⟩⟩
    exact ⟨_, instLine_eq_some.mpr ⟨src1, src2, dest, h₁, h₂, h₃, rfl⟩⟩

theorem instLine_head {comment : String} {oln : DisLine} (hlisted : Listed opcd comment)
    (h : instLine spare adr pc opcd comment inst = some oln) (s : List Char) : (oln.text ++ s).head? ≠ some '.' := by
  obtain ⟨src1, src2, dest, -, -, -, rfl⟩ := instLine_eq_some.mp h
  obtain ⟨a, b, c, d, htext, -⟩ := operandLine_text adr pc opcd comment src1 src2 dest
  obtain ⟨first, rest, hname, halpha⟩ := hlisted.word.first
  rw [htext, hname]
  intro hdot
  obtain rfl := Option.some.inj hdot
  exact absurd halpha (by decide)

theorem disAssembleLoop_fits (hvalid : ∀ inst ∈ program, Valid inst) :
    (∃ lines, disAssembleLoop spare adr pc program = some lines) ↔
      EachLine (fun _ _ opcd inst => NamesFit spare opcd inst) adr pc program := by
  induction program generalizing adr pc with
  | nil => exact iff_of_true ⟨[], rfl⟩ eachLine_nil
  | cons inst program ih =>
    obtain ⟨opcd, hopcd, hwf⟩ := hvalid inst (List.mem_cons_self ..)
    obtain ⟨comment, hlisted⟩ := listed hopcd
    have hrest : (∃ lines, disAssembleLoop spare (adr + 1) (pc + 1) program = some lines) ↔ _ :=
      ih fun inst' h' => hvalid inst' (List.mem_cons_of_mem _ h')
    have hline : (∃ oln, instLine spare adr pc opcd comment inst = some oln) ↔ _ := instLine_fits hwf
    rw [eachLine_cons hopcd hwf.number.symm, ← hrest, ← hline]
    constructor
    · rintro ⟨lines, h⟩
      obtain ⟨oln, rest, h₁, h₂, -⟩ := (disAssembleLoop_eq_some hlisted hwf.number).mp h
      exact ⟨⟨oln, h₁⟩, ⟨rest, h₂⟩⟩
    · rintro ⟨⟨oln, h₁⟩, ⟨rest, h₂⟩⟩
      exact ⟨oln :: rest, (disAssembleLoop_eq_some hlisted hwf.number).mpr ⟨oln, rest, h₁, h₂, rfl⟩⟩

theorem sourceText_head (hvalid : ∀ inst ∈ program, Valid inst)
    (h : disAssembleLoop spare adr pc program = some lines) : (sourceText lines).head? ≠ some '.' := by
  cases program with
  | nil =>
    cases h
    intro hdot
    cases hdot
  | cons inst program =>
    obtain ⟨opcd, hopcd, hwf⟩ := hvalid inst (List.mem_cons_self ..)
    obtain ⟨comment, hlisted⟩ := listed hopcd
    obtain ⟨oln, lines, hline, -, rfl⟩ := (disAssembleLoop_eq_some hlisted hwf.number).mp h
    exact instLine_head hlisted hline _

theorem assemble_lines (hvalid : ∀ inst ∈ program, Valid inst)
    (h : disAssembleLoop spare adr pc program = some lines) :
    ∃ atoms, LinesRead adr pc program atoms ∧ sourceAtoms (sourceText lines) = .ok (atoms ++ [newAtom], []) := by
  obtain ⟨atoms, hlex, hread⟩ := lexes_program hvalid h
  refine ⟨atoms, hread, ?_⟩
  rw [sourceAtoms, hlex.getAtoms (sourceText_head hvalid h)]

/-- A part of a text that is assembled without an error is assembled without an error. -/
theorem asmLoop_suffix {s r : State} {p : Option Atom} {pre rest : List Atom} (h : asmLoop s p (pre ++ rest) = .ok r) :
    ∃ s' p', asmLoop s' p' rest = .ok r := by
  induction pre generalizing s p with
  | nil => exact ⟨s, p, h⟩
  | cons atom pre ih =>
    rw [List.cons_append, asmLoop] at h
    split at h
    · cases h
    · exact ih h

/-- A program that is given back was printed line by line as it should. -/
theorem LinesRead.whole {r : State} (h : LinesRead adr pc program atoms)
    (hrun : asmLoop (startState []) none (atoms ++ [newAtom]) = .ok r) (hok : r.globals.errors = [])
    (hindex : r.index = program.length) :
    EachLine (fun adr pc opcd inst => ¬ Crowded adr pc opcd ∧ ¬ Glued opcd inst) adr pc program := by
  obtain ⟨-, hall | hless | ⟨pre, opcd, inst, name, post, hglued, heq⟩⟩ := h.outcome
  · exact hall
  · obtain ⟨hfinal, hsteps⟩ := asmLoop_stateAt hok (atoms ++ [newAtom]) 0 rfl hrun
    have haccepted : Accepted (atoms ++ [newAtom]) r := by
      rw [Nat.zero_add] at hfinal
      exact ⟨fun i atom hatom => hsteps i (Nat.zero_le i) atom hatom, hfinal⟩
    have hcount := haccepted.index (le_refl _)
    rw [haccepted.final, opCodesBefore, List.take_length, List.countP_append] at hcount
    have hend : [newAtom].countP isOpCode = 0 := rfl
    omega
  · rw [heq, List.append_assoc] at hrun
    obtain ⟨s, p, hrest⟩ := asmLoop_suffix hrun
    rw [List.cons_append, asmLoop] at hrest
    split at hrest
    · cases hrest
    · rename_i s' hstep
      have hnone := asmLoop_errors hrest hok
      rw [asmStep, stepOpCode, List.append_assoc, List.cons_append] at hstep
      split at hstep
      · cases hstep
      · rename_i g hconfirm
        cases hstep
        exact absurd hnone (getConfirm_glued hglued hconfirm)

theorem Reassembles.safe {code : ProgramBuf} (hvalid : ∀ inst ∈ code.program, Valid inst) (h : Reassembles spare code) :
    EachLine (LineSafe spare) code.loadAddress 0 code.program := by
  obtain ⟨lines, r, hlines, hrun, hok, hindex, -⟩ := h
  obtain ⟨lines', hloop, heq⟩ := Option.map_eq_some_iff.mp hlines
  obtain rfl := (List.cons.inj heq).2
  obtain ⟨atoms, hread, hsource⟩ := assemble_lines hvalid hloop
  rw [assemble, hsource] at hrun
  have hspaced := hread.whole hrun hok hindex
  have hnames := (disAssembleLoop_fits hvalid).mp ⟨_, hloop⟩
  intro k inst opcd hget hopcd hnumber
  obtain ⟨hcrowded, hglued⟩ := hspaced k inst opcd hget hopcd hnumber
  exact ⟨hnames k inst opcd hget hopcd hnumber, hcrowded, hglued⟩

theorem reassembles_of_safe {code : ProgramBuf} (hvalid : ∀ inst ∈ code.program, Valid inst)
    (hsafe : EachLine (LineSafe spare) code.loadAddress 0 code.program) : Reassembles spare code := by
  have hnames : EachLine (fun _ _ opcd inst => NamesFit spare opcd inst) code.loadAddress 0 code.program :=
    fun k inst opcd hget hopcd hnumber => (hsafe k inst opcd hget hopcd hnumber).names
  have hspaced : EachLine (fun adr pc opcd inst => ¬ Crowded adr pc opcd ∧ ¬ Glued opcd inst) code.loadAddress 0
      code.program := by
    intro k inst opcd hget hopcd hnumber
    have hline := hsafe k inst opcd hget hopcd hnumber
    exact ⟨hline.crowded, hline.glued⟩
  obtain ⟨lines, hloop⟩ := (disAssembleLoop_fits hvalid).mpr hnames
  obtain ⟨atoms, hread, hsource⟩ := assemble_lines hvalid hloop
  obtain ⟨s', p', hrun, hemitted⟩ := hread.emitted hspaced (startState []) rfl none [newAtom]
  have hend : asmLoop s' p' [newAtom] = .ok { s' with globals := resetStacks s'.globals } := by
    rw [newAtom, asmLoop, asmStep, stepSeperator]
    simp only [hemitted.lit, Bool.false_eq_true, if_false]
    rfl
  refine ⟨lines, { s' with globals := resetStacks s'.globals }, ?_, ?_, hemitted.errors, ?_, ?_⟩
  · rw [disAssemble, hloop]
    rfl
  · rw [assemble, hsource]
    exact hrun.trans hend
  · rw [hemitted.index]
    exact Nat.zero_add _
  · intro k inst hget
    have hk := hemitted.after k inst hget
    have hforward : ({ s' with globals := resetStacks s'.globals } : State).forward = [] := hemitted.forward
    rw [pass2, hforward, List.foldl_nil, ← hk]
    change s'.program k = s'.program (0 + k)
    rw [Nat.zero_add]

/-- A program of valid instructions is given back exactly when all its lines are safe. -/
theorem reassembles_iff {code : ProgramBuf} (hvalid : ∀ inst ∈ code.program, Valid inst) :
    Reassembles spare code ↔ EachLine (LineSafe spare) code.loadAddress 0 code.program :=
  ⟨fun h => h.safe hvalid, reassembles_of_safe hvalid⟩

def addvInstruction : Instruction := ⟨1, 0, 0xe6, 0, 0xffffffff⟩

/-- `ADDV 0xFFFFFFFF GR1 GR2` -/
def addvProgram : ProgramBuf := ⟨0, 1, [addvInstruction], rfl⟩

theorem reassembles_iff_addv : Reassembles false addvProgram := by
  have hopcd : (⟨"ADDV", 0xe6, .literal, .register, .register⟩ : OpCode) ∈ instructionSet := by decide
  have hwf : WellFormed ⟨"ADDV", 0xe6, .literal, .register, .register⟩ addvInstruction := by
    have hgr : ∀ n ≤ 211, FieldOk .register n :=
      fun n hn => ⟨nofun, fun _ => ⟨⟨"GR", 0, 211, 1⟩, by decide, Nat.zero_le n, hn⟩⟩
    have hliteral : FieldOk .literal addvInstruction.src1.toNat := ⟨nofun, nofun⟩
    exact ⟨rfl, hliteral, hgr 0 (by decide), hgr 1 (by decide), rfl⟩
  have hvalid : ∀ inst ∈ addvProgram.program, Valid inst := by
    intro inst hinst
    obtain rfl := List.mem_singleton.mp hinst
    exact ⟨_, hopcd, hwf⟩
  have hsafe : LineSafe false 0 0 ⟨"ADDV", 0xe6, .literal, .register, .register⟩ addvInstruction := by
    refine ⟨.inr ⟨nofun, fun _ => by decide, fun _ => by decide⟩, ?_, ?_⟩
    · intro h
      exact absurd h.2 (by decide)
    · intro h
      exact absurd h.2.2 (by decide)
  exact (reassembles_iff hvalid).mpr ((eachLine_cons hopcd rfl).mpr ⟨hsafe, eachLine_nil⟩)

def gluedInstruction : Instruction := ⟨0, 215, 0x66, 0, 0⟩

/-- `ADDR GR1 EVOUTCNT GR1`, where no space is printed behind `EVOUTCNT`. -/
def gluedProgram : ProgramBuf := ⟨0, 1, [gluedInstruction], rfl⟩

theorem glued_not_reassembled : ¬ ∀ code, (∀ inst ∈ code.program, Valid inst) → Reassembles true code := by
  intro hall
  have hopcd : (⟨"ADDR", 0x66, .register, .register, .register⟩ : OpCode) ∈ instructionSet := by decide
  have hwf : WellFormed ⟨"ADDR", 0x66, .register, .register, .register⟩ gluedInstruction := by
    have hgr : FieldOk .register 0 :=
      ⟨nofun, fun _ => ⟨⟨"GR", 0, 211, 1⟩, by decide, by decide, by decide⟩⟩
    have hcount : FieldOk .register 215 :=
      ⟨nofun, fun _ => ⟨⟨"EVOUTCNT", 215, 215, 0⟩, by decide, by decide, by decide⟩⟩
    exact ⟨rfl, hgr, hcount, hgr, rfl⟩
  have hvalid : ∀ inst ∈ gluedProgram.program, Valid inst := by
    intro inst hinst
    obtain rfl := List.mem_singleton.mp hinst
    exact ⟨_, hopcd, hwf⟩
  have hsafe := (hall gluedProgram hvalid).safe hvalid 0 gluedInstruction _ rfl hopcd rfl
  exact hsafe.glued ⟨rfl, rfl, rfl⟩

end Program

end HtDrivers.Mttn
