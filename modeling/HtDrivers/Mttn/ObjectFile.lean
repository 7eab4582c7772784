import HtDrivers.Lib.Numerals

/-! Object files of the MTT tools: the text that the assembler writes, and the three functions that
read it (of the assembler, of the emulator and of the library). `long` has 32 bits. -/
namespace HtDrivers.Mttn
open HtDrivers.Lib.Numerals
set_option autoImplicit false

/-! ## Data -/

/-- One hardware instruction, in two longs. -/
structure Instruction where
  dest : BitVec 8
  src2 : BitVec 8
  number : BitVec 8
  crc : BitVec 8
  src1 : BitVec 32
deriving DecidableEq

/-- A program is an array of instructions and its load address. -/
structure ProgramBuf where
  loadAddress : BitVec 32
  instructionCount : BitVec 32
  program : List Instruction
  length_program : program.length = instructionCount.toNat
deriving DecidableEq

inductive MttLibError
  | none | init | open | io | sys | path | file | read | nomem | norelo | toobig | empty | full | noload
  | isload | name | lreg | greg
deriving DecidableEq

/-! ## Writing -/

/-- `0x%X` of a value that was cast to `int`. -/
def hexField (v : BitVec 32) : List Char := '0' :: 'x' :: hexUpper v.toNat

def headerLine (code : ProgramBuf) : List Char :=
  hexField code.loadAddress ++ ' ' :: hexField code.instructionCount

def instructionLine (inst : Instruction) : List Char :=
  hexField (inst.number.setWidth 32) ++ ' ' :: (hexField inst.src1 ++ ' ' :: (hexField (inst.src2.setWidth 32) ++
    ' ' :: (hexField (inst.dest.setWidth 32) ++ ' ' :: hexField (inst.crc.setWidth 32))))

def writeProgram : List Instruction → List Char
  | [] => []
  | inst :: program => instructionLine inst ++ '\n' :: writeProgram program

def writeObject (code : ProgramBuf) : List Char := headerLine code ++ '\n' :: writeProgram code.program

/-! ## Reading -/

/-- `char ln[128]` of the assembler, `char ln[LN]` of the emulator and of the library. -/
def lineSize : ℕ := 128

def readHeader (ln : List Char) : BitVec 32 × BitVec 32 :=
  let (loadAddress, ep) := strtoul 32 ln
  let (instructionCount, _) := strtoul 32 ep
  (loadAddress, instructionCount)

/-- The chained conversions of one line; `byte` is how a long is stored in a byte. -/
def readInstruction (byte : BitVec 32 → BitVec 8) (ln : List Char) : Instruction :=
  let (number, ep) := strtoul 32 ln
  let (src1, ep) := strtoul 32 ep
  let (src2, ep) := strtoul 32 ep
  let (dest, ep) := strtoul 32 ep
  let (crc, _) := strtoul 32 ep
  { dest := byte dest, src2 := byte src2, number := byte number, crc := byte crc, src1 := src1 }

/-- The loop over the instructions from index `i` on. Where no line is left, the instruction is what
`malloc` returned at that place. -/
def readProgram (byte : BitVec 32 → BitVec 8) (heap : ℕ → Instruction) : ℕ → ℕ → List Char → List Instruction
  | 0, _, _ => []
  | k + 1, i, objFile => match fgets lineSize objFile with
    | some (ln, rest) => readInstruction byte ln :: readProgram byte heap k (i + 1) rest
    | .none => heap i :: readProgram byte heap k (i + 1) objFile

theorem length_readProgram (byte : BitVec 32 → BitVec 8) (heap : ℕ → Instruction) (k i : ℕ) (objFile : List Char) :
    (readProgram byte heap k i objFile).length = k := by
  induction k generalizing i objFile with
  | zero => rfl
  | succ k ih =>
    rw [readProgram]
    cases fgets lineSize objFile with
    | none => exact congrArg (· + 1) (ih (i + 1) objFile)
    | some read => exact congrArg (· + 1) (ih (i + 1) read.2)

def readInto (byte : BitVec 32 → BitVec 8) (heap : ℕ → Instruction) (header : BitVec 32 × BitVec 32)
    (objFile : List Char) : ProgramBuf where
  loadAddress := header.1
  instructionCount := header.2
  program := readProgram byte heap header.2.toNat 0 objFile
  length_program := length_readProgram byte heap header.2.toNat 0 objFile

def truncByte (v : BitVec 32) : BitVec 8 := v.setWidth 8

/-- `(unsigned short)` before the byte is stored. -/
def truncShort (v : BitVec 32) : BitVec 8 := (v.setWidth 16).setWidth 8

/-- The buffer that `ReadObject` fills. `prior` is the header that the buffer had, which stays when the
file is empty; `malloc` is the new memory. A null pointer is only harmless for an empty program. -/
def readObjectWith (malloc : Option (ℕ → Instruction)) (prior : BitVec 32 × BitVec 32) (objFile : List Char) :
    Option ProgramBuf :=
  let (header, rest) := match fgets lineSize objFile with
    | some (ln, rest) => (readHeader ln, rest)
    | .none => (prior, objFile)
  match malloc with
  | some heap => some (readInto truncByte heap header rest)
  | .none => if header.2 = 0 then some (readInto truncByte (fun _ => ⟨0, 0, 0, 0, 0⟩) header rest) else .none

def Asm.readObject (malloc : Option (ℕ → Instruction)) (prior : BitVec 32 × BitVec 32) (objFile : List Char) :
    Option ProgramBuf :=
  readObjectWith malloc prior objFile

def Emu.readObject (malloc : Option (ℕ → Instruction)) (prior : BitVec 32 × BitVec 32) (objFile : List Char) :
    Option ProgramBuf :=
  readObjectWith malloc prior objFile

def mttLibReadObject (malloc : Option (ℕ → Instruction)) (objFile : List Char) : Except MttLibError ProgramBuf :=
  match fgets lineSize objFile with
  | .none => .error .read
  | some (ln, rest) => match malloc with
    | .none => .error .nomem
    | some heap => .ok (readInto truncShort heap (readHeader ln) rest)

/-! ## The round trip -/

theorem strtoul_hexField (v : BitVec 32) {rest : List Char} (hrest : rest.head?.any (isDigitOf 16) = false) :
    strtoul 32 (hexField v ++ rest) = (v, rest) := by
  have h := strtoul_hex v.isLt [] (by simp) hrest
  rw [BitVec.ofNat_toNat, BitVec.setWidth_eq] at h
  exact h

theorem strtoul_space_hexField (v : BitVec 32) {rest : List Char}
    (hrest : rest.head?.any (isDigitOf 16) = false) : strtoul 32 (' ' :: (hexField v ++ rest)) = (v, rest) := by
  have h := strtoul_hex v.isLt [' '] (by simp [isSpace]) hrest
  rw [BitVec.ofNat_toNat, BitVec.setWidth_eq] at h
  exact h

theorem space_stops (s : List Char) : (' ' :: s).head?.any (isDigitOf 16) = false := by
  rw [List.head?_cons]
  decide

theorem newline_stops : (['\n'] : List Char).head?.any (isDigitOf 16) = false := by decide

theorem readHeader_headerLine (code : ProgramBuf) :
    readHeader (headerLine code ++ ['\n']) = (code.loadAddress, code.instructionCount) := by
  have hload := strtoul_hexField code.loadAddress (space_stops (hexField code.instructionCount ++ ['\n']))
  have hcount := strtoul_space_hexField code.instructionCount newline_stops
  unfold readHeader headerLine
  rw [List.append_assoc, List.cons_append]
  simp only [hload, hcount]

theorem readInstruction_instructionLine {byte : BitVec 32 → BitVec 8} (hbyte : ∀ v, byte (BitVec.setWidth 32 v) = v)
    (inst : Instruction) : readInstruction byte (instructionLine inst ++ ['\n']) = inst := by
  have hnumber := fun s => strtoul_hexField (inst.number.setWidth 32) (space_stops s)
  have hspace := fun v s => strtoul_space_hexField v (space_stops s)
  have hcrc := strtoul_space_hexField (inst.crc.setWidth 32) newline_stops
  unfold readInstruction instructionLine
  simp only [List.append_assoc, List.cons_append, hnumber, hspace, hcrc, hbyte]

/-! No line is longer than the buffers. -/

theorem newline_not_mem_hexField (v : BitVec 32) : '\n' ∉ hexField v := by
  intro h
  obtain h | h | h : '\n' = '0' ∨ '\n' = 'x' ∨ '\n' ∈ hexUpper v.toNat := by simpa [hexField] using h
  · exact absurd h (by decide)
  · exact absurd h (by decide)
  · exact absurd (isDigitOf_of_mem_hexUpper h) (by decide)

theorem length_hexField_le (v : BitVec 32) : (hexField v).length ≤ 10 := by
  have h := length_hexUpper_le (k := 8) (by decide) v.isLt
  unfold hexField
  simp only [List.length_cons]
  omega

theorem fgets_headerLine (code : ProgramBuf) (rest : List Char) :
    fgets lineSize (headerLine code ++ '\n' :: rest) = some (headerLine code ++ ['\n'], rest) := by
  have hload := length_hexField_le code.loadAddress
  have hcount := length_hexField_le code.instructionCount
  refine fgets_line ?_ ?_
  · simp [headerLine, newline_not_mem_hexField]
  · unfold lineSize headerLine
    simp only [List.length_append, List.length_cons]
    omega

theorem fgets_instructionLine (inst : Instruction) (rest : List Char) :
    fgets lineSize (instructionLine inst ++ '\n' :: rest) = some (instructionLine inst ++ ['\n'], rest) := by
  have hnumber := length_hexField_le (inst.number.setWidth 32)
  have hsrc1 := length_hexField_le inst.src1
  have hsrc2 := length_hexField_le (inst.src2.setWidth 32)
  have hdest := length_hexField_le (inst.dest.setWidth 32)
  have hcrc := length_hexField_le (inst.crc.setWidth 32)
  refine fgets_line ?_ ?_
  · simp [instructionLine, newline_not_mem_hexField]
  · unfold lineSize instructionLine
    simp only [List.length_append, List.length_cons]
    omega

/-- The loop reads back what `WriteObject` wrote, one line for each instruction. -/
theorem readProgram_writeProgram {byte : BitVec 32 → BitVec 8} (hbyte : ∀ v, byte (BitVec.setWidth 32 v) = v)
    (heap : ℕ → Instruction) (program : List Instruction) (i : ℕ) :
    readProgram byte heap program.length i (writeProgram program) = program := by
  induction program generalizing i with
  | nil => rfl
  | cons inst program ih =>
    rw [List.length_cons, readProgram, writeProgram, fgets_instructionLine]
    exact congrArg₂ List.cons (readInstruction_instructionLine hbyte inst) (ih (i + 1))

theorem readInto_writeProgram {byte : BitVec 32 → BitVec 8} (hbyte : ∀ v, byte (BitVec.setWidth 32 v) = v)
    (heap : ℕ → Instruction) (code : ProgramBuf) :
    readInto byte heap (readHeader (headerLine code ++ ['\n'])) (writeProgram code.program) = code := by
  rw [readHeader_headerLine]
  obtain ⟨load, count, program, hlength⟩ := code
  unfold readInto
  simp only [ProgramBuf.mk.injEq, true_and]
  rw [← hlength]
  exact readProgram_writeProgram hbyte heap program 0

theorem truncByte_setWidth (v : BitVec 8) : truncByte (v.setWidth 32) = v := by
  unfold truncByte
  rw [BitVec.setWidth_setWidth_of_le _ (by decide), BitVec.setWidth_eq]

theorem truncShort_setWidth (v : BitVec 8) : truncShort (v.setWidth 32) = v := by
  unfold truncShort
  rw [BitVec.setWidth_setWidth_of_le _ (by decide), BitVec.setWidth_setWidth_of_le _ (by decide), BitVec.setWidth_eq]

theorem readObjectWith_writeObject (heap : ℕ → Instruction) (prior : BitVec 32 × BitVec 32) (code : ProgramBuf) :
    readObjectWith (some heap) prior (writeObject code) = some code := by
  unfold readObjectWith writeObject
  rw [fgets_headerLine]
  exact congrArg some (readInto_writeProgram truncByte_setWidth heap code)

/-- Whatever the new memory and the buffer held before, all three readers give back the program that
was written. -/
theorem readObject_writeObject (heap : ℕ → Instruction) (prior : BitVec 32 × BitVec 32) (code : ProgramBuf) :
    Asm.readObject (some heap) prior (writeObject code) = some code ∧
    Emu.readObject (some heap) prior (writeObject code) = some code ∧
    mttLibReadObject (some heap) (writeObject code) = .ok code := by
  refine ⟨readObjectWith_writeObject heap prior code, readObjectWith_writeObject heap prior code, ?_⟩
  unfold mttLibReadObject writeObject
  rw [fgets_headerLine]
  exact congrArg Except.ok (readInto_writeProgram truncShort_setWidth heap code)

example : writeObject ⟨0, 1, [⟨0x12, 0, 0xff, 7, -1⟩], rfl⟩ =
    "0x0 0x1\n0xFF 0xFFFFFFFF 0x0 0x12 0x7\n".toList := by decide

end HtDrivers.Mttn
