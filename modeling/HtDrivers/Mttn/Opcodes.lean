import HtDrivers.Mttn.ObjectFile

/-! The instruction set and the registers of the MTT, as the tables of the assembler have them. -/
namespace HtDrivers.Mttn
set_option autoImplicit false

inductive ArgType
  | nothing | literal | address | register
deriving DecidableEq

structure OpCode where
  name : String
  number : BitVec 8
  src1 : ArgType
  src2 : ArgType
  dest : ArgType
deriving DecidableEq

def instructionSet : List OpCode := [
  ⟨"HALT", 0x00, .nothing, .nothing, .nothing⟩,
  ⟨"NOOP", 0x4d, .nothing, .nothing, .nothing⟩,
  ⟨"INT", 0xC1, .literal, .nothing, .nothing⟩,
  ⟨"WEQV", 0x91, .literal, .register, .nothing⟩,
  ⟨"WRLV", 0x92, .literal, .register, .nothing⟩,
  ⟨"WORV", 0x93, .literal, .register, .nothing⟩,
  ⟨"WEQR", 0x11, .register, .register, .nothing⟩,
  ⟨"WRLR", 0x12, .register, .register, .nothing⟩,
  ⟨"WORR", 0x13, .register, .register, .nothing⟩,
  ⟨"MOVV", 0xe2, .literal, .nothing, .register⟩,
  ⟨"MOVR", 0x62, .register, .nothing, .register⟩,
  ⟨"MOVIR", 0x64, .register, .nothing, .register⟩,
  ⟨"MOVRI", 0x65, .register, .register, .nothing⟩,
  ⟨"ADDR", 0x66, .register, .register, .register⟩,
  ⟨"SUBR", 0x67, .register, .register, .register⟩,
  ⟨"LORR", 0x68, .register, .register, .register⟩,
  ⟨"ANDR", 0x69, .register, .register, .register⟩,
  ⟨"XORR", 0x6a, .register, .register, .register⟩,
  ⟨"LSR", 0x6b, .register, .register, .register⟩,
  ⟨"RSR", 0x6c, .register, .register, .register⟩,
  ⟨"ADDV", 0xe6, .literal, .register, .register⟩,
  ⟨"SUBV", 0xe7, .literal, .register, .register⟩,
  ⟨"LORV", 0xe8, .literal, .register, .register⟩,
  ⟨"ANDV", 0xe9, .literal, .register, .register⟩,
  ⟨"XORV", 0xea, .literal, .register, .register⟩,
  ⟨"LSV", 0xeb, .literal, .register, .register⟩,
  ⟨"RSV", 0xec, .literal, .register, .register⟩,
  ⟨"WDOG", 0x34, .address, .nothing, .nothing⟩,
  ⟨"JMP", 0x85, .address, .nothing, .nothing⟩,
  ⟨"BEQ", 0x86, .address, .nothing, .nothing⟩,
  ⟨"BNE", 0x87, .address, .nothing, .nothing⟩,
  ⟨"BLT", 0x88, .address, .nothing, .nothing⟩,
  ⟨"BGT", 0x89, .address, .nothing, .nothing⟩,
  ⟨"BLE", 0x8a, .address, .nothing, .nothing⟩,
  ⟨"BGE", 0x8b, .address, .nothing, .nothing⟩,
  ⟨"BCR", 0x8c, .address, .nothing, .nothing⟩]

/-- A name for the registers from `start` to `stop`; the first one has the number `offset`. -/
structure RegisterDsc where
  name : String
  start : ℕ
  stop : ℕ
  offset : ℕ

def regs : List RegisterDsc := [
  ⟨"GR", 0, 211, 1⟩, ⟨"OUTPUTS", 212, 212, 0⟩, ⟨"EVIN", 213, 213, 0⟩, ⟨"EVINCNT", 214, 214, 0⟩,
  ⟨"EVOUTCNT", 215, 215, 0⟩, ⟨"EVOUTFB", 216, 216, 0⟩, ⟨"EVOUTL", 217, 217, 0⟩, ⟨"MSMR", 218, 218, 0⟩,
  ⟨"TSYNC", 219, 219, 0⟩, ⟨"VMEP2", 220, 220, 0⟩, ⟨"EVOUTH", 221, 221, 0⟩, ⟨"MSFR", 222, 222, 0⟩,
  ⟨"SYNCFR", 223, 223, 0⟩, ⟨"INDEX", 224, 224, 0⟩, ⟨"LR", 225, 255, 1⟩]

end HtDrivers.Mttn
