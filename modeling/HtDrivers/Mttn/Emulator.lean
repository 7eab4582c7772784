import HtDrivers.Mttn.Opcodes

/-! The emulator of the MTT (`emu.c`), and the fields of an instruction that it reads. What `ShowDiffs` prepares for
the screen is left out. -/
namespace HtDrivers.Mttn
set_option autoImplicit false

/-! ## Op-codes -/

inductive IdNumber
  | halt | noop | int | weqv | weqr | wrlv | wrlr | worv | worr | movv | movr | movir | movri
  | addv | addr | subv | subr | lorv | lorr | andv | andr | xorv | xorr | lsv | lsr | rsv | rsr
  | wdog | jmp | beq | bne | blt | bgt | ble | bge | bcr
deriving DecidableEq

namespace IdNumber

def number : IdNumber → BitVec 8
  | halt => 0x00 | noop => 0x4d | int => 0xC1
  | weqv => 0x91 | weqr => 0x11 | wrlv => 0x92 | wrlr => 0x12 | worv => 0x93 | worr => 0x13
  | movv => 0xe2 | movr => 0x62 | movir => 0x64 | movri => 0x65
  | addv => 0xe6 | addr => 0x66 | subv => 0xe7 | subr => 0x67 | lorv => 0xe8 | lorr => 0x68
  | andv => 0xe9 | andr => 0x69 | xorv => 0xea | xorr => 0x6a | lsv => 0xeb | lsr => 0x6b
  | rsv => 0xec | rsr => 0x6c
  | wdog => 0x34 | jmp => 0x85 | beq => 0x86 | bne => 0x87 | blt => 0x88 | bgt => 0x89 | ble => 0x8a
  | bge => 0x8b | bcr => 0x8c

def all : List IdNumber :=
  [halt, noop, int, weqv, weqr, wrlv, wrlr, worv, worr, movv, movr, movir, movri, addv, addr, subv, subr, lorv, lorr,
    andv, andr, xorv, xorr, lsv, lsr, rsv, rsr, wdog, jmp, beq, bne, blt, bgt, ble, bge, bcr]

/-- The case of a `switch`. -/
def ofNumber (n : BitVec 8) : Option IdNumber := all.find? fun id => id.number = n

theorem ofNumber_number (id : IdNumber) : ofNumber id.number = some id := by
  cases id <;> decide

theorem number_of_ofNumber {n : BitVec 8} {id : IdNumber} (h : ofNumber n = some id) : id.number = n := by
  simpa using List.find?_some h

end IdNumber

/-! ## The machine -/

/-- The registers, and the state of the program. `waitr` and `regwa` are of the last wait that was begun. -/
structure Machine where
  regm : BitVec 8 → BitVec 32
  pSwd : BitVec 32
  pc : BitVec 32
  waiting : Bool
  waitr : BitVec 32
  regwa : BitVec 8

/-- `GREGS`, the register of the index. -/
def gregs : BitVec 8 := 224

def psEQ : BitVec 32 := 0x1
def psLT : BitVec 32 := 0x2
def psGT : BitVec 32 := 0x4
def psCR : BitVec 32 := 0x8

section Execute
variable (m : Machine) (inst : Instruction)

/-- A register number that comes from a `long`; one that is not in the table is no access of the emulator. -/
def registerAt (n : BitVec 32) : Option (BitVec 8) :=
  if 0 ≤ n.toInt ∧ n.toInt < 256 then some (n.setWidth 8) else none

def setPSwd (val : BitVec 32) : BitVec 32 :=
  (if val = 0 then psEQ else 0) ||| (if 0 < val.toInt then psGT else 0) ||| (if val.toInt < 0 then psLT else 0)

/-- The program counter of the next instruction. -/
def Machine.step : Machine := { m with pc := m.pc + 1 }

def Machine.store (r : BitVec 8) (val : BitVec 32) : Machine :=
  { m with regm := Function.update m.regm r val, pSwd := setPSwd val }

/-- A wait begins with the value it waits for, and is over as soon as `done` holds. -/
def Machine.wait (waitr : BitVec 32) (done : BitVec 32 → Bool) : Machine :=
  let m' := if m.waiting then m else { m with waiting := true, waitr := waitr, regwa := inst.src2 }
  if done m'.waitr then { m' with waiting := false, pc := m'.pc + 1 } else m'

/-- The result goes to the destination. -/
def Machine.result (val : BitVec 32) : Machine := (m.store inst.dest val).step

/-- A shift by at least the width of an `int` has no result. -/
def shiftBy (count : BitVec 32) (shift : ℕ → BitVec 32) : Option (BitVec 32) :=
  if 0 ≤ count.toInt ∧ count.toInt < 32 then some (shift count.toNat) else none

def Machine.branch (taken : Prop) [Decidable taken] : Machine := if taken then { m with pc := inst.src1 } else m.step

/-- One case of `Execute`, or none where the C program has no defined behaviour. -/
def executeCase (m : Machine) (inst : Instruction) : IdNumber → Option Machine
  | .halt => some m
  | .noop => some m.step
  | .int => some m.step
  | .weqv => some (m.wait inst inst.src1 fun _ => m.regm inst.src2 = inst.src1)
  | .weqr => (registerAt inst.src1).map fun r => m.wait inst (m.regm r) fun _ => m.regm inst.src2 = m.regm r
  | .wrlv => some (m.wait inst (m.regm inst.src2 + inst.src1) fun waitr => waitr.sle (m.regm inst.src2))
  | .wrlr =>
    -- The first register is read only where a wait begins.
    if m.waiting then some (m.wait inst 0 fun waitr => waitr.sle (m.regm inst.src2))
    else (registerAt inst.src1).map fun r =>
      m.wait inst (m.regm inst.src2 + m.regm r) fun waitr => waitr.sle (m.regm inst.src2)
  | .worv => some (m.wait inst inst.src1 fun _ => m.regm inst.src2 &&& inst.src1 ≠ 0)
  | .worr => (registerAt inst.src1).map fun r =>
      m.wait inst (m.regm r) fun _ => m.regm inst.src2 &&& m.regm r ≠ 0
  | .movv => some (m.result inst inst.src1)
  | .movr => (registerAt inst.src1).map fun r => m.result inst (m.regm r)
  | .movir =>
    match registerAt (m.regm gregs) with
    | some irg => some (m.result inst (m.regm irg))
    | none => some m.step
  | .movri =>
    match registerAt (m.regm gregs) with
    | some irg => some (m.store irg (m.regm inst.dest)).step
    | none => some m.step
  | .addr => (registerAt inst.src1).map fun r => m.result inst (m.regm r + m.regm inst.src2)
  | .subr => (registerAt inst.src1).map fun r => m.result inst (m.regm inst.src2 - m.regm r)
  | .lorr => (registerAt inst.src1).map fun r => m.result inst (m.regm inst.src2 ||| m.regm r)
  | .andr => (registerAt inst.src1).map fun r => m.result inst (m.regm inst.src2 &&& m.regm r)
  | .xorr => (registerAt inst.src1).map fun r => m.result inst (m.regm inst.src2 ^^^ m.regm r)
  | .lsr => (registerAt inst.src1).bind fun r =>
      (shiftBy (m.regm r) fun n => m.regm inst.src2 <<< n).map fun val => m.result inst val
  | .rsr => (registerAt inst.src1).bind fun r =>
      (shiftBy (m.regm r) fun n => (m.regm inst.src2).sshiftRight n).map fun val => m.result inst val
  | .addv => some (m.result inst (m.regm inst.src2 + inst.src1))
  | .subv => some (m.result inst (m.regm inst.src2 - inst.src1))
  | .lorv => some (m.result inst (m.regm inst.src2 ||| inst.src1))
  | .andv => some (m.result inst (m.regm inst.src2 &&& inst.src1))
  | .xorv => some (m.result inst (m.regm inst.src2 ^^^ inst.src1))
  | .lsv => (shiftBy inst.src1 fun n => m.regm inst.src2 <<< n).map fun val => m.result inst val
  | .rsv => (shiftBy inst.src1 fun n => (m.regm inst.src2).sshiftRight n).map fun val => m.result inst val
  | .wdog => some m.step
  | .jmp => some { m with pc := inst.src1 }
  | .beq => some (m.branch inst (m.pSwd &&& psEQ ≠ 0))
  | .bne => some (m.branch inst (m.pSwd &&& psEQ = 0))
  | .blt => some (m.branch inst (m.pSwd &&& psLT ≠ 0))
  | .bgt => some (m.branch inst (m.pSwd &&& psGT ≠ 0))
  | .ble => some (m.branch inst (m.pSwd &&& psEQ ≠ 0 ∨ m.pSwd &&& psLT ≠ 0))
  | .bge => some (m.branch inst (m.pSwd &&& psEQ ≠ 0 ∨ m.pSwd &&& psGT ≠ 0))
  | .bcr => some (m.branch inst (m.pSwd &&& psCR ≠ 0))

/-- `Execute`, with the instruction, which WDOG changes. Other numbers have no effect. -/
def execute : Option (Machine × Instruction) :=
  match IdNumber.ofNumber inst.number with
  | none => some (m, inst)
  | some .wdog => (executeCase m inst .wdog).map fun m' => (m', { inst with number := inst.number + 1 })
  | some id => (executeCase m inst id).map fun m' => (m', inst)

end Execute

/-! ## The fields that are read -/

section Fields
variable {m : Machine} {i j : Instruction} {id : IdNumber}

/-- The instructions agree on all fields that the table declares for their op-code. -/
structure Agree (i j : Instruction) : Prop where
  number : i.number = j.number
  src1 : ∀ op ∈ instructionSet, op.number = i.number → op.src1 ≠ .nothing → i.src1 = j.src1
  src2 : ∀ op ∈ instructionSet, op.number = i.number → op.src2 ≠ .nothing → i.src2 = j.src2
  dest : ∀ op ∈ instructionSet, op.number = i.number → op.dest ≠ .nothing → i.dest = j.dest

/-- Whether a case of `Execute` reads the fields `Src1`, `Src2` and `Dest`. -/
def IdNumber.reads : IdNumber → Bool × Bool × Bool
  | .halt | .noop | .int | .wdog => (false, false, false)
  | .weqv | .wrlv | .worv | .weqr | .wrlr | .worr => (true, true, false)
  | .movv | .movr => (true, false, true)
  | .movir | .movri => (false, false, true)
  | .jmp | .beq | .bne | .blt | .bgt | .ble | .bge | .bcr => (true, false, false)
  | _ => (true, true, true)

theorem executeCase_congr (hsrc1 : id.reads.1 = true → i.src1 = j.src1) (hsrc2 : id.reads.2.1 = true → i.src2 = j.src2)
    (hdest : id.reads.2.2 = true → i.dest = j.dest) : executeCase m i id = executeCase m j id := by
  cases id <;> simp only [IdNumber.reads, forall_const, Bool.false_eq_true, false_implies] at hsrc1 hsrc2 hdest <;>
    simp only [executeCase, Machine.wait, Machine.result, Machine.branch, hsrc1, hsrc2, hdest]

theorem mem_all (id : IdNumber) : id ∈ IdNumber.all := by
  cases id <;> decide

theorem exists_opCode (id : IdNumber) : ∃ op ∈ instructionSet, op.number = id.number := by
  have hall : ∀ id ∈ IdNumber.all, ∃ op ∈ instructionSet, op.number = id.number := by decide
  exact hall id (mem_all id)

/-- What is read is declared, except for one field of one op-code. -/
theorem reads_declared (id : IdNumber) (op : OpCode) (hop : op ∈ instructionSet) (hnumber : op.number = id.number) :
    (id.reads.1 = true → op.src1 ≠ .nothing) ∧ (id.reads.2.1 = true → op.src2 ≠ .nothing) ∧
    (id ≠ .movri → id.reads.2.2 = true → op.dest ≠ .nothing) := by
  have hall : ∀ id ∈ IdNumber.all, ∀ op ∈ instructionSet, op.number = id.number →
      (id.reads.1 = true → op.src1 ≠ .nothing) ∧ (id.reads.2.1 = true → op.src2 ≠ .nothing) ∧
      (id ≠ .movri → id.reads.2.2 = true → op.dest ≠ .nothing) := by decide
  exact hall id (mem_all id) op hop hnumber

theorem executeCase_agree (hagree : Agree i j) (hnumber : id.number = i.number) (hid : id ≠ .movri) :
    executeCase m i id = executeCase m j id := by
  obtain ⟨op, hop, hop'⟩ := exists_opCode id
  obtain ⟨hsrc1, hsrc2, hdest⟩ := reads_declared id op hop hop'
  have hopi := hop'.trans hnumber
  apply executeCase_congr
  · exact fun hread => hagree.src1 op hop hopi (hsrc1 hread)
  · exact fun hread => hagree.src2 op hop hopi (hsrc2 hread)
  · exact fun hread => hagree.dest op hop hopi (hdest hid hread)

theorem registerAt_eq_some {n : BitVec 32} : (∃ r, registerAt n = some r) ↔ 0 ≤ n.toInt ∧ n.toInt < 256 := by
  unfold registerAt
  split
  · rename_i hrange
    exact ⟨fun _ => hrange, fun _ => ⟨_, rfl⟩⟩
  · rename_i hrange
    exact ⟨fun ⟨_, hr⟩ => absurd hr (by simp), fun h => absurd h hrange⟩

/-- The value that an indexed move stores decides about all it does. -/
theorem executeCase_movri :
    executeCase m i .movri = executeCase m j .movri ↔
      (0 ≤ (m.regm gregs).toInt → (m.regm gregs).toInt < 256 → m.regm i.dest = m.regm j.dest) := by
  unfold executeCase
  cases hreg : registerAt (m.regm gregs) with
  | none =>
    refine ⟨fun _ hlow hhigh => ?_, fun _ => rfl⟩
    obtain ⟨r, hr⟩ := registerAt_eq_some.mpr ⟨hlow, hhigh⟩
    rw [hreg] at hr
    cases hr
  | some irg =>
    obtain ⟨hlow, hhigh⟩ := registerAt_eq_some.mp ⟨irg, hreg⟩
    constructor
    · intro hsame _ _
      have hregm := congrArg (fun m' => m'.regm irg) (Option.some.inj hsame)
      simpa [Machine.store, Machine.step] using hregm
    · intro hval
      simp only [hval hlow hhigh]

theorem execute_machine : (execute m i).map Prod.fst =
    match IdNumber.ofNumber i.number with
    | none => some m
    | some id => executeCase m i id := by
  unfold execute
  cases IdNumber.ofNumber i.number with
  | none => rfl
  | some id =>
    have hfst : ∀ (inst : Instruction) (res : Option Machine), (res.map fun m' => (m', inst)).map Prod.fst = res := by
      intro inst res
      cases res with
      | none => rfl
      | some m' => rfl
    cases id <;> exact hfst _ _

/-- Two instructions that agree on the declared fields do the same to the machine, unless they are indexed moves to
a register of the table and their undeclared fields `Dest` name registers with different values. -/
theorem execute_agree_iff (m : Machine) (hagree : Agree i j) :
    (execute m i).map Prod.fst = (execute m j).map Prod.fst ↔
      (i.number = IdNumber.movri.number → 0 ≤ (m.regm gregs).toInt → (m.regm gregs).toInt < 256 →
        m.regm i.dest = m.regm j.dest) := by
  rw [execute_machine, execute_machine, ← hagree.number]
  cases hid : IdNumber.ofNumber i.number with
  | none =>
    refine ⟨fun _ hmovri => ?_, fun _ => rfl⟩
    rw [hmovri, IdNumber.ofNumber_number] at hid
    cases hid
  | some id =>
    have hnumber := IdNumber.number_of_ofNumber hid
    dsimp only
    by_cases hmovri : id = .movri
    · subst hmovri
      rw [executeCase_movri]
      exact ⟨fun h _ => h, fun h => h hnumber.symm⟩
    · refine ⟨fun _ heq => ?_, fun _ => executeCase_agree hagree hnumber hmovri⟩
      rw [heq, IdNumber.ofNumber_number] at hid
      exact absurd (Option.some.inj hid).symm hmovri

/-- A machine whose first registers hold their own numbers, with `index` in the index register. -/
def machineWith (index : BitVec 32) : Machine :=
  ⟨fun r => if r = gregs then index else r.setWidth 32, 0, 0, false, 0, 0⟩

/-- `MOVRI INDEX GR4`, with `Dest` as the assembler leaves it and with another value. -/
def moveIndexed (dest : BitVec 8) : Instruction := ⟨dest, 3, 0x65, 0, 224⟩

theorem moveIndexed_agree (dest dest' : BitVec 8) : Agree (moveIndexed dest) (moveIndexed dest') := by
  have htable : ∀ op ∈ instructionSet, op.number = 0x65 → op.dest = .nothing := by decide
  exact ⟨rfl, fun _ _ _ _ => rfl, fun _ _ _ _ => rfl, fun op hop hnumber hdest => absurd (htable op hop hnumber) hdest⟩

/-- An index that is out of range moves nothing. -/
theorem execute_agree_outside :
    (execute (machineWith 256) (moveIndexed 0)).map Prod.fst =
    (execute (machineWith 256) (moveIndexed 7)).map Prod.fst :=
  (execute_agree_iff (machineWith 256) (moveIndexed_agree 0 7)).mpr fun _ _ hhigh => absurd hhigh (by decide)

theorem execute_reads_dest :
    Agree (moveIndexed 0) (moveIndexed 7) ∧
    ((execute (machineWith 5) (moveIndexed 0)).map fun m' => m'.1.regm 5) = some 0 ∧
    ((execute (machineWith 5) (moveIndexed 7)).map fun m' => m'.1.regm 5) = some 7 :=
  ⟨moveIndexed_agree 0 7, by decide, by decide⟩

end Fields

end HtDrivers.Mttn
