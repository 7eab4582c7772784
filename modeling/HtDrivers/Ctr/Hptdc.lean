import HtDrivers.Ctr.WorkingArea
import HtDrivers.Lib.Tap
import HtDrivers.Lib.Words

/-! # Scans of the HPTDC (`HptdcBitTransfer`, `HptdcStateReset`, `HptdcCommand`)

The driver moves the lines of the JTAG port by writing a register of the module and reads TDO back from it.
-/
namespace HtDrivers.Ctr
open HtDrivers.Lib.Tap HtDrivers.Lib.Masks
set_option autoImplicit false

/-- Active on zero. -/
def hptdcJtagTrst : BitVec 32 := 0x01

def hptdcJtagTck : BitVec 32 := 0x02

def hptdcJtagTdi : BitVec 32 := 0x04

def hptdcJtagTdo : BitVec 32 := 0x08

def hptdcJtagTms : BitVec 32 := 0x10

def hptdcCmdBits : ℕ := 4

structure HptdcRegisterVlaue where
  value : BitVec 32
  endBit : BitVec 16
  startBit : BitVec 16
deriving DecidableEq

def HptdcRegisterVlaue.bits (reg : HptdcRegisterVlaue) : ℕ :=
  (reg.endBit.setWidth 32 - reg.startBit.setWidth 32 + 1 : BitVec 32).toNat

/-- An access to the register. -/
inductive JtagAccess
  | write (jwd : BitVec 32)
  | read (value : BitVec 32)

/-- All accesses so far, the oldest first. -/
abbrev Jtag := List JtagAccess

/-- What a loop over bits carries; `msk` of its turn `i` is `1 << i`. -/
structure BitLoop where
  parity : BitVec 32
  rval : BitVec 32
  jtg : Jtag

structure RegisterLoop where
  parity : BitVec 32
  rreg : List HptdcRegisterVlaue
  jtg : Jtag

section Code
-- what the register reads as after such accesses
variable (hrd : Jtag → BitVec 32)

def hptdcBitTransfer (jtg : Jtag) (tdi tms : BitVec 32) : BitVec 32 × Jtag :=
  let jtg := jtg ++ [.write (hptdcJtagTrst ||| tdi ||| tms)]
  let jtg := jtg ++ [.write (hptdcJtagTrst ||| hptdcJtagTck ||| tdi ||| tms)]
  let tdo := hrd jtg
  let jtg := jtg ++ [.read tdo]
  let jtg := jtg ++ [.write (hptdcJtagTrst ||| tdi ||| tms)]
  (if tdo &&& hptdcJtagTdo ≠ 0 then 1 else 0, jtg)

def hptdcStateReset (jtg : Jtag) : Jtag :=
  let jtg := jtg ++ [.write hptdcJtagTrst, .write 0, .write hptdcJtagTck, .write (hptdcJtagTrst ||| hptdcJtagTck),
    .write hptdcJtagTrst]
  (hptdcBitTransfer hrd jtg 0 0).2

/-- A turn of the loop over the bits of the command or of a register, with TMS as that loop sets it. -/
def transferBit (tms : ℕ → BitVec 32) (word : BitVec 32) (s : BitLoop) (i : ℕ) : BitLoop :=
  let msk := BitVec.twoPow 32 i
  let tdi := if msk &&& word ≠ 0 then hptdcJtagTdi else 0
  let transfer := hptdcBitTransfer hrd s.jtg tdi (tms i)
  { parity := if msk &&& word ≠ 0 then s.parity + 1 else s.parity
    rval := if transfer.1 ≠ 0 then s.rval ||| msk else s.rval
    jtg := transfer.2 }

def transferBits (tms : ℕ → BitVec 32) (word : BitVec 32) (bits : ℕ) (s : BitLoop) : BitLoop :=
  (List.range bits).foldl (transferBit hrd tms word) s

/-- The parity bit, with TMS. -/
def transferParity (parity : BitVec 32) (jtg : Jtag) : Jtag :=
  if parity &&& 1 ≠ 0 then (hptdcBitTransfer hrd jtg hptdcJtagTdi hptdcJtagTms).2
  else (hptdcBitTransfer hrd jtg 0 hptdcJtagTms).2

/-- Without parity TMS goes with the last bit of every register. -/
def registerTms (pflg : BitVec 32) (bits i : ℕ) : BitVec 32 :=
  if pflg ≠ 0 then 0 else if i + 1 = bits then hptdcJtagTms else 0

/-- `readBack` says that `rreg` is not null. -/
def transferRegister (pflg : BitVec 32) (readBack : Bool) (s : RegisterLoop) (wreg : HptdcRegisterVlaue) :
    RegisterLoop :=
  let t := transferBits hrd (registerTms pflg wreg.bits) wreg.value wreg.bits ⟨s.parity, 0, s.jtg⟩
  { parity := t.parity
    rreg := if readBack then s.rreg ++ [⟨t.rval, wreg.endBit, wreg.startBit⟩] else s.rreg
    jtg := t.jtg }

/-- A transfer whose bit is not looked at. -/
def hptdcTransfer (tdi tms : BitVec 32) (jtg : Jtag) : Jtag := (hptdcBitTransfer hrd jtg tdi tms).2

/-- From Run-Test/Idle on: the command is shifted into the instruction register. -/
def selectCommand (cmd : BitVec 32) (jtg : Jtag) : Jtag :=
  let jtg := hptdcTransfer hrd 0 hptdcJtagTms jtg
  let jtg := hptdcTransfer hrd 0 hptdcJtagTms jtg
  let jtg := hptdcTransfer hrd 0 0 jtg
  let jtg := hptdcTransfer hrd 0 0 jtg
  let s := transferBits hrd (fun _ => 0) cmd hptdcCmdBits ⟨0, 0, jtg⟩
  let jtg := transferParity hrd s.parity s.jtg
  hptdcTransfer hrd 0 hptdcJtagTms jtg

/-- From there on: the registers are written and read back. -/
def scanRegisters (wreg : List HptdcRegisterVlaue) (readBack : Bool) (pflg : BitVec 32) (jtg : Jtag) :
    List HptdcRegisterVlaue × Jtag :=
  let jtg := hptdcTransfer hrd 0 hptdcJtagTms jtg
  let jtg := hptdcTransfer hrd 0 0 jtg
  let jtg := hptdcTransfer hrd 0 0 jtg
  let s := wreg.foldl (transferRegister hrd pflg readBack) ⟨0, [], jtg⟩
  let jtg := if pflg ≠ 0 then transferParity hrd s.parity s.jtg else s.jtg
  let jtg := hptdcTransfer hrd 0 hptdcJtagTms jtg
  (s.rreg, hptdcTransfer hrd 0 0 jtg)

/-- `size` is the length of `wreg`; the answer holds what was stored through `rreg`. -/
def hptdcCommand (pinged : Bool) (cmd : BitVec 32) (wreg : List HptdcRegisterVlaue) (readBack : Bool)
    (pflg rflg : BitVec 32) (jtg : Jtag) : Except CtrErrno (List HptdcRegisterVlaue) × Jtag :=
  if pinged then
    let jtg := if rflg ≠ 0 then hptdcStateReset hrd jtg else jtg
    let jtg := selectCommand hrd cmd jtg
    let scan := scanRegisters hrd wreg readBack pflg jtg
    (.ok scan.1, scan.2)
  else (.error .enxio, jtg)

end Code

/-! ## The lines as clocks of the port -/

/-- TCK, the clock period it is in, and the port; what goes through the port is TDI with TDO. -/
structure Lines where
  tck : Bool
  period : Option (Clock (Bool × Bool))
  port : Port (Bool × Bool)

/-- TMS and TDI are taken when TCK rises; the period is over when it falls. -/
def Lines.access (lines : Lines) : JtagAccess → Lines
  | .write jwd =>
    let tck := decide (jwd &&& hptdcJtagTck ≠ 0)
    if jwd &&& hptdcJtagTrst = 0 then ⟨tck, none, lines.port.reset⟩
    else if tck = true ∧ lines.tck = false then
      ⟨true, some ⟨decide (jwd &&& hptdcJtagTms ≠ 0), (decide (jwd &&& hptdcJtagTdi ≠ 0), false)⟩, lines.port⟩
    else if tck = false ∧ lines.tck = true then ⟨false, none, lines.port.run lines.period.toList⟩
    else lines
  | .read value =>
    { lines with period := lines.period.map fun c => ⟨c.tms, (c.bit.1, decide (value &&& hptdcJtagTdo ≠ 0))⟩ }

def Lines.run (lines : Lines) (jtg : Jtag) : Lines := jtg.foldl Lines.access lines

/-- TCK is low. -/
def resting (port : Port (Bool × Bool)) : Lines := ⟨false, none, port⟩

/-- The accesses from `jtg` to `jtg'` take the port to what `f` makes of it. -/
def Drives (jtg jtg' : Jtag) (f : Port (Bool × Bool) → Port (Bool × Bool)) : Prop :=
  ∃ accesses, jtg' = jtg ++ accesses ∧ ∀ port, (resting port).run accesses = resting (f port)

section Driving
variable (hrd : Jtag → BitVec 32) {jtg jtg₁ jtg₂ : Jtag} {f g : Port (Bool × Bool) → Port (Bool × Bool)}
  {cs ds : List (Clock (Bool × Bool))}

theorem Drives.refl (jtg : Jtag) : Drives jtg jtg fun port => port := ⟨[], (List.append_nil jtg).symm, fun _ => rfl⟩

theorem Drives.start (jtg : Jtag) : Drives jtg jtg fun port => port.run [] := Drives.refl jtg

theorem Drives.trans (h : Drives jtg jtg₁ f) (h' : Drives jtg₁ jtg₂ g) : Drives jtg jtg₂ fun port => g (f port) := by
  obtain ⟨accesses, rfl, hf⟩ := h
  obtain ⟨accesses', rfl, hg⟩ := h'
  refine ⟨accesses ++ accesses', List.append_assoc .., ?_⟩
  intro port
  rw [Lines.run, List.foldl_append]
  change Lines.run (Lines.run _ _) _ = _
  rw [hf, hg]

theorem Drives.clocks (h : Drives jtg jtg₁ fun port => port.run cs) (h' : Drives jtg₁ jtg₂ fun port => port.run ds) :
    Drives jtg jtg₂ fun port => port.run (cs ++ ds) := by
  simp only [run_append]
  exact h.trans h'

/-- The line that a word sets or clears. -/
def line (set : Bool) (mask : BitVec 32) : BitVec 32 := if set then mask else 0

/-- What a transfer answers, as the bit that it is. -/
def bitBack (hrd : Jtag → BitVec 32) (jtg : Jtag) (tdi tms : Bool) : Bool :=
  decide ((hptdcBitTransfer hrd jtg (line tdi hptdcJtagTdi) (line tms hptdcJtagTms)).1 ≠ 0)

theorem run_period (port : Port (Bool × Bool)) (tdi tms : Bool) (value : BitVec 32) :
    (resting port).run [.write (hptdcJtagTrst ||| line tdi hptdcJtagTdi ||| line tms hptdcJtagTms),
      .write (hptdcJtagTrst ||| hptdcJtagTck ||| line tdi hptdcJtagTdi ||| line tms hptdcJtagTms), .read value,
      .write (hptdcJtagTrst ||| line tdi hptdcJtagTdi ||| line tms hptdcJtagTms)] =
        resting (port.run [⟨tms, (tdi, decide (value &&& hptdcJtagTdo ≠ 0))⟩]) := by
  cases tdi <;> cases tms <;> rfl

/-- One transfer is one clock. -/
theorem hptdcBitTransfer_drives (jtg : Jtag) (tdi tms : Bool) :
    Drives jtg (hptdcBitTransfer hrd jtg (line tdi hptdcJtagTdi) (line tms hptdcJtagTms)).2
      fun port => port.run [⟨tms, (tdi, bitBack hrd jtg tdi tms)⟩] := by
  refine ⟨_, by simp only [hptdcBitTransfer, List.append_assoc]; rfl, ?_⟩
  intro port
  refine (run_period port tdi tms _).trans ?_
  simp [bitBack, hptdcBitTransfer]

theorem hptdcStateReset_drives (jtg : Jtag) :
    ∃ bit, Drives jtg (hptdcStateReset hrd jtg) fun port => port.reset.run [hold bit] := by
  have hreset : ∀ port, (resting port).run [.write hptdcJtagTrst, .write 0, .write hptdcJtagTck,
      .write (hptdcJtagTrst ||| hptdcJtagTck), .write hptdcJtagTrst] = resting port.reset := fun _ => rfl
  exact ⟨_, Drives.trans ⟨_, rfl, hreset⟩ (hptdcBitTransfer_drives hrd _ false false)⟩

theorem Drives.leave (h : Drives jtg jtg₁ fun port => port.run cs) : ∃ bit,
    Drives jtg (hptdcTransfer hrd 0 hptdcJtagTms jtg₁) fun port => port.run (cs ++ [Lib.Tap.leave bit]) :=
  ⟨_, h.clocks (hptdcBitTransfer_drives hrd jtg₁ false true)⟩

theorem Drives.hold (h : Drives jtg jtg₁ fun port => port.run cs) : ∃ bit,
    Drives jtg (hptdcTransfer hrd 0 0 jtg₁) fun port => port.run (cs ++ [Lib.Tap.hold bit]) :=
  ⟨_, h.clocks (hptdcBitTransfer_drives hrd jtg₁ false false)⟩

/-- One for an odd number of ones. -/
def evenParity (bits : List Bool) : Bool := decide (bits.count true % 2 = 1)

theorem transferParity_drives {parity : BitVec 32} {bits : List Bool} (jtg : Jtag)
    (hparity : parity.toNat % 2 = bits.count true % 2) :
    ∃ bit, Drives jtg (transferParity hrd parity jtg) fun port => port.run [leave (evenParity bits, bit)] := by
  have hodd : (parity &&& 1 ≠ 0) ↔ evenParity bits = true := by
    have hbit : (parity &&& 1).toNat = parity.toNat % 2 := Lib.Words.toNat_and_low _ _ (k := 1) rfl
    rw [ne_eq, ← BitVec.toNat_inj, hbit, evenParity, decide_eq_true_eq]
    change ¬parity.toNat % 2 = 0 ↔ _
    omega
  rw [transferParity]
  split
  · rename_i hset
    rw [hodd.mp hset]
    exact ⟨_, hptdcBitTransfer_drives hrd jtg true true⟩
  · rename_i hclear
    rw [Bool.eq_false_iff.mpr fun h => hclear (hodd.mpr h)]
    exact ⟨_, hptdcBitTransfer_drives hrd jtg false true⟩

end Driving

/-! ## The loops -/

/-- The low bits of a word, the least significant first. -/
def wordBits (word : BitVec 32) (bits : ℕ) : List Bool := (List.range bits).map word.getLsbD

/-- What goes in with what comes back. -/
def bitPairs (word rval : BitVec 32) (bits : ℕ) : List (Bool × Bool) :=
  (List.range bits).map fun k => (word.getLsbD k, rval.getLsbD k)

def bitClocks (last : ℕ → Bool) (word rval : BitVec 32) (bits : ℕ) : List (Clock (Bool × Bool)) :=
  (List.range bits).map fun k => ⟨last k, (word.getLsbD k, rval.getLsbD k)⟩

/-- What a loop over bits does. -/
structure Transferred (last : ℕ → Bool) (word : BitVec 32) (bits : ℕ) (s t : BitLoop) : Prop where
  drives : Drives s.jtg t.jtg fun port => port.run (bitClocks last word t.rval bits)
  above : ∀ k, bits ≤ k → t.rval.getLsbD k = false
  parity : t.parity.toNat % 2 = (s.parity.toNat + (wordBits word bits).count true) % 2

section Loops
variable (hrd : Jtag → BitVec 32) {last : ℕ → Bool} {word rval rval' : BitVec 32} {bits i : ℕ} {s t : BitLoop}

theorem bitClocks_congr (h : ∀ k < bits, rval.getLsbD k = rval'.getLsbD k) :
    bitClocks last word rval bits = bitClocks last word rval' bits := by
  refine List.map_congr_left ?_
  intro k hk
  rw [h k (List.mem_range.mp hk)]

theorem bitClocks_succ : bitClocks last word rval (bits + 1) =
    bitClocks last word rval bits ++ [⟨last bits, (word.getLsbD bits, rval.getLsbD bits)⟩] := by
  rw [bitClocks, List.range_succ, List.map_append]
  rfl

theorem wordBits_succ : wordBits word (bits + 1) = wordBits word bits ++ [word.getLsbD bits] := by
  rw [wordBits, List.range_succ, List.map_append]
  rfl

theorem tdi_eq (word : BitVec 32) (hi : i < 32) :
    (if BitVec.twoPow 32 i &&& word ≠ 0 then hptdcJtagTdi else 0) = line (word.getLsbD i) hptdcJtagTdi := by
  simp only [twoPow_and_ne_zero hi, line]

theorem transferBit_jtg (hi : i < 32) : (transferBit hrd (fun i => line (last i) hptdcJtagTms) word t i).jtg =
    (hptdcBitTransfer hrd t.jtg (line (word.getLsbD i) hptdcJtagTdi) (line (last i) hptdcJtagTms)).2 := by
  simp only [transferBit, tdi_eq word hi]

theorem transferBit_rval (hi : i < 32) (hnew : t.rval.getLsbD i = false) (k : ℕ) :
    (transferBit hrd (fun i => line (last i) hptdcJtagTms) word t i).rval.getLsbD k =
      if k = i then bitBack hrd t.jtg (word.getLsbD i) (last i) else t.rval.getLsbD k := by
  simp only [transferBit, tdi_eq word hi, bitBack]
  by_cases hback : (hptdcBitTransfer hrd t.jtg (line (word.getLsbD i) hptdcJtagTdi) (line (last i) hptdcJtagTms)).1 ≠ 0
  · rw [if_pos hback, decide_eq_true hback, Bool.eq_iff_iff, or_twoPow_bit hi]
    by_cases hk : k = i <;> simp [hk]
  · rw [if_neg hback, decide_eq_false hback]
    by_cases hk : k = i <;> simp [hk, hnew]

theorem transferBit_parity (hi : i < 32) (tms : ℕ → BitVec 32) : (transferBit hrd tms word t i).parity.toNat % 2 =
    (t.parity.toNat + [word.getLsbD i].count true) % 2 := by
  have hmask := twoPow_and_ne_zero (m := word) hi
  cases hbit : word.getLsbD i with
  | true =>
    have hset : (transferBit hrd tms word t i).parity = t.parity + 1 := if_pos (hmask.mpr hbit)
    rw [hset, BitVec.toNat_add]
    change (t.parity.toNat + 1) % 2 ^ 32 % 2 = (t.parity.toNat + 1) % 2
    omega
  | false =>
    have hclear : (transferBit hrd tms word t i).parity = t.parity := if_neg fun hset => by simp [hmask.mp hset] at hbit
    rw [hclear]
    rfl

theorem Transferred.step (hbits : bits < 32) (h : Transferred last word bits s t) :
    Transferred last word (bits + 1) s (transferBit hrd (fun i => line (last i) hptdcJtagTms) word t bits) := by
  have hrval : ∀ k, (transferBit hrd (fun i => line (last i) hptdcJtagTms) word t bits).rval.getLsbD k =
      if k = bits then bitBack hrd t.jtg (word.getLsbD bits) (last bits) else t.rval.getLsbD k :=
    transferBit_rval hrd hbits (h.above bits (Nat.le_refl bits))
  refine ⟨?_, ?_, ?_⟩
  · have hkept : bitClocks last word (transferBit hrd (fun i => line (last i) hptdcJtagTms) word t bits).rval bits =
        bitClocks last word t.rval bits := by
      refine bitClocks_congr ?_
      intro k hk
      rw [hrval, if_neg (by omega)]
    rw [transferBit_jtg hrd hbits, bitClocks_succ, hkept, hrval, if_pos rfl]
    exact h.drives.clocks (hptdcBitTransfer_drives hrd t.jtg (word.getLsbD bits) (last bits))
  · intro k hk
    rw [hrval, if_neg (by omega)]
    exact h.above k (by omega)
  · have hparity := h.parity
    rw [transferBit_parity hrd hbits, wordBits_succ, List.count_append]
    omega

theorem transferBits_transferred (last : ℕ → Bool) (word : BitVec 32) (hbits : bits ≤ 32) (s : BitLoop)
    (hrval : s.rval = 0) :
    Transferred last word bits s (transferBits hrd (fun i => line (last i) hptdcJtagTms) word bits s) := by
  induction bits with
  | zero => exact ⟨Drives.refl s.jtg, fun k _ => by simp [transferBits, hrval], rfl⟩
  | succ bits ih =>
    rw [transferBits, List.range_succ, List.foldl_append]
    exact (ih (by omega)).step hrd (by omega)

end Loops

/-- The values of the registers, one behind the other. -/
def registersBits (regs : List HptdcRegisterVlaue) : List Bool := regs.flatMap fun reg => wordBits reg.value reg.bits

/-- A register with what is read back for it. -/
structure RegisterScan where
  wreg : HptdcRegisterVlaue
  rval : BitVec 32

def RegisterScan.rreg (scan : RegisterScan) : HptdcRegisterVlaue := ⟨scan.rval, scan.wreg.endBit, scan.wreg.startBit⟩

def RegisterScan.pairs (scan : RegisterScan) : List (Bool × Bool) := bitPairs scan.wreg.value scan.rval scan.wreg.bits

def registerLast (pflg : BitVec 32) (bits k : ℕ) : Bool := decide (pflg = 0 ∧ k + 1 = bits)

def RegisterScan.clocks (pflg : BitVec 32) (scan : RegisterScan) : List (Clock (Bool × Bool)) :=
  bitClocks (registerLast pflg scan.wreg.bits) scan.wreg.value scan.rval scan.wreg.bits

/-- What the loop over the registers does. -/
structure RegistersTransferred (pflg : BitVec 32) (readBack : Bool) (scans : List RegisterScan) (s t : RegisterLoop) :
    Prop where
  drives : Drives s.jtg t.jtg fun port => port.run (scans.flatMap (RegisterScan.clocks pflg))
  rreg : t.rreg = if readBack then s.rreg ++ scans.map RegisterScan.rreg else s.rreg
  parity : t.parity.toNat % 2 = (s.parity.toNat + (registersBits (scans.map RegisterScan.wreg)).count true) % 2

section Registers
variable (hrd : Jtag → BitVec 32) {pflg : BitVec 32} {readBack : Bool} {wreg : List HptdcRegisterVlaue}
  {scans : List RegisterScan} {scan : RegisterScan}

theorem registerTms_eq (pflg : BitVec 32) (bits : ℕ) :
    registerTms pflg bits = fun i => line (registerLast pflg bits i) hptdcJtagTms := by
  funext i
  unfold registerTms registerLast line
  by_cases hpflg : pflg = 0#32 <;> simp [hpflg]

theorem transferRegister_transferred (pflg : BitVec 32) (readBack : Bool) (reg : HptdcRegisterVlaue)
    (hbits : reg.bits ≤ 32) (s : RegisterLoop) :
    ∃ rval, RegistersTransferred pflg readBack [⟨reg, rval⟩] s (transferRegister hrd pflg readBack s reg) := by
  have h := transferBits_transferred hrd (registerLast pflg reg.bits) reg.value hbits ⟨s.parity, 0, s.jtg⟩ rfl
  rw [← registerTms_eq] at h
  refine ⟨_, ⟨?_, rfl, ?_⟩⟩
  · rw [List.flatMap_singleton]
    exact h.drives
  · rw [registersBits, List.map_singleton, List.flatMap_singleton]
    exact h.parity

theorem RegistersTransferred.append {scans' : List RegisterScan} {s t u : RegisterLoop}
    (h : RegistersTransferred pflg readBack scans s t) (h' : RegistersTransferred pflg readBack scans' t u) :
    RegistersTransferred pflg readBack (scans ++ scans') s u := by
  refine ⟨?_, ?_, ?_⟩
  · rw [List.flatMap_append]
    exact h.drives.clocks h'.drives
  · rw [h'.rreg, h.rreg]
    cases readBack
    · rfl
    · rw [List.map_append, if_pos rfl, if_pos rfl, if_pos rfl, List.append_assoc]
  · have hparity := h.parity
    have hparity' := h'.parity
    rw [registersBits] at *
    rw [List.map_append, List.flatMap_append, List.count_append]
    omega

theorem registers_transferred (pflg : BitVec 32) (readBack : Bool) (hbits : ∀ reg ∈ wreg, reg.bits ≤ 32)
    (s : RegisterLoop) :
    ∃ scans, scans.map RegisterScan.wreg = wreg ∧
      RegistersTransferred pflg readBack scans s (wreg.foldl (transferRegister hrd pflg readBack) s) := by
  induction wreg generalizing s with
  | nil =>
    refine ⟨[], rfl, Drives.refl s.jtg, ?_, rfl⟩
    cases readBack <;> simp
  | cons reg wreg ih =>
    obtain ⟨rval, hone⟩ := transferRegister_transferred hrd pflg readBack reg (hbits reg (List.mem_cons_self ..)) s
    obtain ⟨scans, hwreg, hrest⟩ := ih (fun r hr => hbits r (List.mem_cons_of_mem reg hr))
      (transferRegister hrd pflg readBack s reg)
    refine ⟨⟨reg, rval⟩ :: scans, ?_, hone.append hrest⟩
    rw [List.map_cons, hwreg]

end Registers

/-! ## The whole command -/

/-- The parity bit of the data, if there is one. -/
def dataParity (pflg : BitVec 32) (bits : List Bool) (bit : Bool) : List (Bool × Bool) :=
  if pflg ≠ 0 then [(evenParity bits, bit)] else []

/-- The clocks that shift the registers. -/
def dataClocks (pflg : BitVec 32) (scans : List RegisterScan) (bit : Bool) : List (Clock (Bool × Bool)) :=
  scans.flatMap (RegisterScan.clocks pflg) ++
    (dataParity pflg (registersBits (scans.map RegisterScan.wreg)) bit).map leave

section Command
variable (hrd : Jtag → BitVec 32) {cmd pflg rflg : BitVec 32} {readBack : Bool} {wreg : List HptdcRegisterVlaue}
  {jtg : Jtag}

theorem reset_drives (rflg : BitVec 32) (jtg : Jtag) : ∃ front,
    Drives jtg (if rflg ≠ 0 then hptdcStateReset hrd jtg else jtg) front ∧
    ∀ words updates, front ⟨.runTestIdle, words, updates⟩ = ⟨.runTestIdle, words, updates⟩ := by
  split
  · obtain ⟨bit, h⟩ := hptdcStateReset_drives hrd jtg
    exact ⟨_, h, fun _ _ => rfl⟩
  · exact ⟨_, Drives.refl jtg, fun _ _ => rfl⟩

theorem bitClocks_hold {last : ℕ → Bool} {word rval : BitVec 32} {bits : ℕ} (h : ∀ k < bits, last k = false) :
    bitClocks last word rval bits = (bitPairs word rval bits).map hold := by
  rw [bitClocks, bitPairs, List.map_map]
  refine List.map_congr_left ?_
  intro k hk
  rw [h k (List.mem_range.mp hk)]
  rfl

theorem bitPairs_fst (word rval : BitVec 32) (bits : ℕ) :
    (bitPairs word rval bits).map Prod.fst = wordBits word bits := by
  rw [bitPairs, List.map_map]
  rfl

theorem Drives.command (cmd : BitVec 32) {jtg₁ : Jtag} {cs : List (Clock (Bool × Bool))}
    (h : Drives jtg jtg₁ fun port => port.run cs) :
    ∃ rval bit, Drives jtg
      (let s := transferBits hrd (fun _ => 0) cmd hptdcCmdBits ⟨0, 0, jtg₁⟩; transferParity hrd s.parity s.jtg)
      fun port => port.run
        (cs ++ shiftIn (bitPairs cmd rval hptdcCmdBits) (evenParity (wordBits cmd hptdcCmdBits), bit)) := by
  let t := transferBits hrd (fun _ => 0) cmd hptdcCmdBits ⟨0, 0, jtg₁⟩
  have hbits : Transferred (fun _ => false) cmd hptdcCmdBits ⟨0, 0, jtg₁⟩ t :=
    transferBits_transferred hrd _ cmd (by decide) ⟨0, 0, jtg₁⟩ rfl
  obtain ⟨bit, hbit⟩ := transferParity_drives hrd t.jtg
    (hbits.parity.trans (congrArg (· % 2) (Nat.zero_add _)))
  refine ⟨t.rval, bit, ?_⟩
  rw [shiftIn, ← bitClocks_hold fun _ _ => rfl]
  exact h.clocks (hbits.drives.clocks hbit)

theorem Drives.registers (pflg : BitVec 32) (readBack : Bool) {jtg₁ : Jtag} {cs : List (Clock (Bool × Bool))}
    (hbits : ∀ reg ∈ wreg, reg.bits ≤ 32) (h : Drives jtg jtg₁ fun port => port.run cs) :
    ∃ scans bit, scans.map RegisterScan.wreg = wreg ∧
      (wreg.foldl (transferRegister hrd pflg readBack) ⟨0, [], jtg₁⟩).rreg =
        (if readBack then scans.map RegisterScan.rreg else []) ∧
      Drives jtg
        (let s := wreg.foldl (transferRegister hrd pflg readBack) ⟨0, [], jtg₁⟩
          if pflg ≠ 0 then transferParity hrd s.parity s.jtg else s.jtg)
        fun port => port.run (cs ++ dataClocks pflg scans bit) := by
  obtain ⟨scans, hwreg, hscans⟩ := registers_transferred hrd pflg readBack hbits ⟨0, [], jtg₁⟩
  obtain ⟨bit, hbit⟩ := transferParity_drives hrd
    (wreg.foldl (transferRegister hrd pflg readBack) ⟨0, [], jtg₁⟩).jtg
    (hscans.parity.trans (congrArg (· % 2) (Nat.zero_add _)))
  refine ⟨scans, bit, hwreg, hscans.rreg, ?_⟩
  rw [dataClocks, dataParity]
  split
  · exact h.clocks (hscans.drives.clocks hbit)
  · rw [List.map_nil, List.append_nil]
    exact h.clocks hscans.drives

/-- The scan of the instruction register takes over the command with its parity. -/
theorem selectCommand_drives (cmd : BitVec 32) (jtg : Jtag) : ∃ scanned : List (Bool × Bool), ∃ f,
    Drives jtg (selectCommand hrd cmd jtg) f ∧
    scanned.map Prod.fst = wordBits cmd hptdcCmdBits ++ [evenParity (wordBits cmd hptdcCmdBits)] ∧
    ∀ words updates, f ⟨.runTestIdle, words, updates⟩ =
      ⟨.update .instruction, Function.update words .instruction scanned,
        Function.update updates .instruction (updates .instruction ++ [scanned])⟩ := by
  obtain ⟨a₁, h⟩ := Drives.leave hrd (Drives.start jtg)
  obtain ⟨a₂, h⟩ := h.leave hrd
  obtain ⟨a₃, h⟩ := h.hold hrd
  obtain ⟨a₄, h⟩ := h.hold hrd
  obtain ⟨rval, bit, h⟩ := h.command hrd cmd
  obtain ⟨a₅, h⟩ := h.leave hrd
  refine ⟨bitPairs cmd rval hptdcCmdBits ++ [(evenParity (wordBits cmd hptdcCmdBits), bit)], _, h, ?_, ?_⟩
  · rw [List.map_append, bitPairs_fst]
    rfl
  · intro words updates
    exact run_scan words updates a₅

/-- The clocks of the scan of the data register. -/
theorem scanRegisters_drives (pflg : BitVec 32) (readBack : Bool) (hbits : ∀ reg ∈ wreg, reg.bits ≤ 32) (jtg : Jtag) :
    ∃ scans bit, scans.map RegisterScan.wreg = wreg ∧
      (scanRegisters hrd wreg readBack pflg jtg).1 = (if readBack then scans.map RegisterScan.rreg else []) ∧
      ∃ a₁ a₂ a₃ a₄ a₅, Drives jtg (scanRegisters hrd wreg readBack pflg jtg).2 fun port =>
        port.run ([leave a₁, hold a₂, hold a₃] ++ dataClocks pflg scans bit ++ [leave a₄] ++ [hold a₅]) := by
  obtain ⟨a₁, h⟩ := Drives.leave hrd (Drives.start jtg)
  obtain ⟨a₂, h⟩ := h.hold hrd
  obtain ⟨a₃, h⟩ := h.hold hrd
  obtain ⟨scans, bit, hwreg, hrreg, h⟩ := h.registers hrd pflg readBack hbits
  obtain ⟨a₄, h⟩ := h.leave hrd
  obtain ⟨a₅, h⟩ := h.hold hrd
  exact ⟨scans, bit, hwreg, hrreg, a₁, a₂, a₃, a₄, a₅, h⟩

end Command

/-! ## What the scans come to -/

section Data
variable {pflg : BitVec 32} {scans : List RegisterScan} {scan : RegisterScan} {bit : Bool}

theorem clocks_parity (hpflg : pflg ≠ 0) : scan.clocks pflg = scan.pairs.map hold :=
  bitClocks_hold fun _ _ => decide_eq_false fun h => hpflg h.1

theorem clocks_last (hpflg : pflg = 0) (hone : 1 ≤ scan.wreg.bits) :
    ∃ init last, scan.pairs = init ++ [last] ∧ scan.clocks pflg = shiftIn init last := by
  obtain ⟨m, hm⟩ : ∃ m, scan.wreg.bits = m + 1 := ⟨scan.wreg.bits - 1, by omega⟩
  have hinit : ∀ k < m, registerLast pflg (m + 1) k = false := by
    intro k hk
    exact decide_eq_false fun h => by omega
  have hlast : registerLast pflg (m + 1) m = true := decide_eq_true ⟨hpflg, rfl⟩
  refine ⟨bitPairs scan.wreg.value scan.rval m, (scan.wreg.value.getLsbD m, scan.rval.getLsbD m), ?_, ?_⟩
  · rw [RegisterScan.pairs, hm, bitPairs, List.range_succ, List.map_append]
    rfl
  · rw [RegisterScan.clocks, hm, bitClocks_succ, bitClocks_hold hinit, hlast]
    rfl

theorem flatMap_pairs_fst : (scans.flatMap RegisterScan.pairs).map Prod.fst =
    registersBits (scans.map RegisterScan.wreg) := by
  rw [registersBits, List.map_flatMap, List.flatMap_map]
  simp only [RegisterScan.pairs, bitPairs_fst]

theorem flatMap_pairs_snd : (scans.flatMap RegisterScan.pairs).map Prod.snd =
    registersBits (scans.map RegisterScan.rreg) := by
  rw [registersBits, List.map_flatMap, List.flatMap_map]
  simp only [RegisterScan.pairs, bitPairs, List.map_map]
  rfl

/-- All the bits, and the parity. -/
def dataPairs (pflg : BitVec 32) (scans : List RegisterScan) (bit : Bool) : List (Bool × Bool) :=
  scans.flatMap RegisterScan.pairs ++ dataParity pflg (registersBits (scans.map RegisterScan.wreg)) bit

/-- With parity, or for one register, the port shifts all the bits. -/
theorem dataClocks_shiftIn (bit : Bool) (hgood : pflg ≠ 0 ∨ scans.length = 1)
    (hone : ∀ scan ∈ scans, 1 ≤ scan.wreg.bits) :
    ∃ init last, dataPairs pflg scans bit = init ++ [last] ∧ dataClocks pflg scans bit = shiftIn init last := by
  by_cases hpflg : pflg = 0
  · obtain hne | hlen := hgood
    · exact absurd hpflg hne
    obtain ⟨scan, rfl⟩ := List.length_eq_one_iff.mp hlen
    obtain ⟨init, last, hpairs, hclocks⟩ := clocks_last hpflg (hone scan (List.mem_singleton_self scan))
    refine ⟨init, last, ?_, ?_⟩
    · rw [dataPairs, dataParity, if_neg (not_not.mpr hpflg), List.flatMap_singleton, List.append_nil, hpairs]
    · rw [dataClocks, dataParity, if_neg (not_not.mpr hpflg), List.flatMap_singleton, List.map_nil, List.append_nil,
        hclocks]
  · refine ⟨scans.flatMap RegisterScan.pairs, (evenParity (registersBits (scans.map RegisterScan.wreg)), bit), ?_, ?_⟩
    · rw [dataPairs, dataParity, if_pos hpflg]
    · rw [dataClocks, dataParity, if_pos hpflg, shiftIn, List.map_flatMap]
      refine congrArg (· ++ [leave _]) (List.flatMap_congr ?_)
      intro scan _
      exact clocks_parity hpflg

/-- Without parity the last register ends with TMS as well. -/
theorem flatMap_clocks_last (hpflg : pflg = 0) (hone : ∀ scan ∈ scans, 1 ≤ scan.wreg.bits) (hne : scans ≠ []) :
    ∃ init last, scans.flatMap (RegisterScan.clocks pflg) = init ++ [leave last] ∧
      init.length + 1 = (scans.flatMap RegisterScan.pairs).length := by
  obtain ⟨front, scan, rfl⟩ := List.eq_nil_or_concat scans |>.resolve_left hne
  obtain ⟨init, last, hpairs, hclocks⟩ := clocks_last hpflg (hone scan (by simp))
  have hfront : (front.flatMap (RegisterScan.clocks pflg)).length = (front.flatMap RegisterScan.pairs).length := by
    simp only [List.length_flatMap, RegisterScan.clocks, RegisterScan.pairs, bitClocks, bitPairs, List.length_map]
  refine ⟨front.flatMap (RegisterScan.clocks pflg) ++ init.map hold, last, ?_, ?_⟩
  · rw [List.concat_eq_append, List.flatMap_append, List.flatMap_singleton, hclocks, shiftIn, List.append_assoc]
  · rw [List.concat_eq_append, List.flatMap_append, List.flatMap_singleton, hpairs]
    simp only [List.length_append, List.length_map, List.length_singleton]
    omega

end Data

/-! ## The state machine is followed -/

/-- One scan of the command with its parity, one of all registers with theirs, and what came back is in `rreg`. -/
structure FollowsTap (before after : Port (Bool × Bool)) (rreg : List HptdcRegisterVlaue) (cmd : BitVec 32)
    (wreg : List HptdcRegisterVlaue) (readBack : Bool) (pflg : BitVec 32) : Prop where
  idle : after.state = .runTestIdle
  command : ∃ scanned, after.updates .instruction = before.updates .instruction ++ [scanned] ∧
    scanned.map Prod.fst = wordBits cmd hptdcCmdBits ++ [evenParity (wordBits cmd hptdcCmdBits)]
  data : ∃ scanned, after.updates .data = before.updates .data ++ [scanned] ∧
    scanned.map Prod.fst = registersBits wreg ++ (if pflg ≠ 0 then [evenParity (registersBits wreg)] else []) ∧
    (readBack = true → rreg.map (fun reg => (reg.endBit, reg.startBit)) =
      wreg.map (fun reg => (reg.endBit, reg.startBit)) ∧ registersBits rreg <+: scanned.map Prod.snd)

/-- The command as it is seen on lines that went through `jtg` before. -/
def HptdcCommandFollows (hrd : Jtag → BitVec 32) (lines : Lines) (jtg : Jtag) (cmd : BitVec 32)
    (wreg : List HptdcRegisterVlaue) (readBack : Bool) (pflg rflg : BitVec 32) : Prop :=
  ∃ rreg jtg', hptdcCommand hrd true cmd wreg readBack pflg rflg jtg = (.ok rreg, jtg') ∧
    FollowsTap (lines.run jtg).port (lines.run jtg').port rreg cmd wreg readBack pflg

/-- TCK is low and the port is in Run-Test/Idle. -/
def Idle (lines : Lines) : Prop := ∃ words updates, lines = resting ⟨.runTestIdle, words, updates⟩

section Follows
variable (hrd : Jtag → BitVec 32) {lines : Lines} {jtg : Jtag} {cmd pflg rflg : BitVec 32} {readBack : Bool}
  {wreg : List HptdcRegisterVlaue} {scan : RegisterScan} {scans : List RegisterScan} {a₁ a₂ a₃ a₄ a₅ : Bool × Bool}
  {b : Bool}
  {words : Scan → List (Bool × Bool)} {updates : Scan → List (List (Bool × Bool))}

/-- The port after the command: the instruction is taken over, then the data clocks run. -/
theorem hptdcCommand_port (cmd pflg rflg : BitVec 32) (readBack : Bool) (hbits : ∀ reg ∈ wreg, reg.bits ≤ 32)
    (hidle : lines.run jtg = resting ⟨.runTestIdle, words, updates⟩) :
    ∃ scans bit scanned a₁ a₂ a₃ a₄ a₅, scans.map RegisterScan.wreg = wreg ∧
      scanned.map Prod.fst = wordBits cmd hptdcCmdBits ++ [evenParity (wordBits cmd hptdcCmdBits)] ∧
      (hptdcCommand hrd true cmd wreg readBack pflg rflg jtg).1 =
        .ok (if readBack then scans.map RegisterScan.rreg else []) ∧
      (lines.run (hptdcCommand hrd true cmd wreg readBack pflg rflg jtg).2).port =
        (⟨.update .instruction, Function.update words .instruction scanned,
          Function.update updates .instruction (updates .instruction ++ [scanned])⟩ : Port (Bool × Bool)).run
            ([leave a₁, hold a₂, hold a₃] ++ dataClocks pflg scans bit ++ [leave a₄] ++ [hold a₅]) := by
  obtain ⟨front, hfront, hkept⟩ := reset_drives hrd rflg jtg
  obtain ⟨scanned, select, hselect, hscanned, hupdate⟩ :=
    selectCommand_drives hrd cmd (if rflg ≠ 0 then hptdcStateReset hrd jtg else jtg)
  obtain ⟨scans, bit, hwreg, hrreg, a₁, a₂, a₃, a₄, a₅, hdata⟩ := scanRegisters_drives hrd pflg readBack
    hbits (selectCommand hrd cmd (if rflg ≠ 0 then hptdcStateReset hrd jtg else jtg))
  obtain ⟨accesses, hjtg, hrun⟩ := (hfront.trans hselect).trans hdata
  refine ⟨scans, bit, scanned, a₁, a₂, a₃, a₄, a₅, hwreg, hscanned, congrArg Except.ok hrreg, ?_⟩
  have hend : (hptdcCommand hrd true cmd wreg readBack pflg rflg jtg).2 = jtg ++ accesses := hjtg
  have hafter : lines.run (jtg ++ accesses) = (lines.run jtg).run accesses := List.foldl_append
  rw [hend, hafter, hidle, hrun]
  change (select (front _)).run _ = _
  rw [hkept, hupdate]

/-- The data clocks take over what they shift, if they shift all of it. -/
theorem run_dataClocks {init : List (Bool × Bool)} {last : Bool × Bool}
    (hclocks : dataClocks pflg scans b = shiftIn init last) :
    (⟨.update .instruction, words, updates⟩ : Port (Bool × Bool)).run
      ([leave a₁, hold a₂, hold a₃] ++ dataClocks pflg scans b ++ [leave a₄] ++ [hold a₅]) =
        ⟨.runTestIdle, Function.update words .data (init ++ [last]),
          Function.update updates .data (updates .data ++ [init ++ [last]])⟩ := by
  have hscan : (⟨.update .instruction, words, updates⟩ : Port (Bool × Bool)).run
      ([leave a₁, hold a₂, hold a₃] ++ shiftIn init last ++ [leave a₄]) =
        ⟨.update .data, Function.update words .data (init ++ [last]),
          Function.update updates .data (updates .data ++ [init ++ [last]])⟩ := run_scan words updates a₄
  rw [hclocks, run_append, hscan]
  rfl

theorem hptdcCommand_follows (hbits : ∀ reg ∈ wreg, 1 ≤ reg.bits ∧ reg.bits ≤ 32)
    (hidle : lines.run jtg = resting ⟨.runTestIdle, words, updates⟩) (hgood : pflg ≠ 0 ∨ wreg.length = 1) :
    HptdcCommandFollows hrd lines jtg cmd wreg readBack pflg rflg := by
  obtain ⟨scans, bit, scanned, a₁, a₂, a₃, a₄, a₅, rfl, hscanned, hrreg, hport⟩ :=
    hptdcCommand_port hrd cmd pflg rflg readBack (fun reg hreg => (hbits reg hreg).2) hidle
  rw [List.length_map] at hgood
  obtain ⟨init, last, hpairs, hclocks⟩ := dataClocks_shiftIn bit hgood
    fun scan hscan => (hbits scan.wreg (List.mem_map_of_mem hscan)).1
  rw [run_dataClocks hclocks] at hport
  refine ⟨_, _, Prod.ext hrreg rfl, ?_⟩
  rw [hport, hidle]
  refine ⟨rfl, ⟨scanned, rfl, hscanned⟩, init ++ [last], rfl, ?_, ?_⟩
  · rw [← hpairs, dataPairs, List.map_append, flatMap_pairs_fst, dataParity]
    split <;> rfl
  · rintro rfl
    refine ⟨?_, ?_⟩
    · rw [if_pos rfl, List.map_map, List.map_map]
      rfl
    · rw [← hpairs, dataPairs, List.map_append, flatMap_pairs_snd]
      exact List.prefix_append _ _

/-- Without parity the port is out of Shift-DR after the first of several registers. -/
theorem dataClocks_short (words : Scan → List (Bool × Bool)) (updates : Scan → List (List (Bool × Bool)))
    (a₁ a₂ a₃ a₄ a₅ : Bool × Bool) (b : Bool) (hpflg : pflg = 0)
    (hone : ∀ scan' ∈ scan :: scans, 1 ≤ scan'.wreg.bits) (hne : scans ≠ []) :
    ∃ added, ((⟨.update .instruction, words, updates⟩ : Port (Bool × Bool)).run
      ([leave a₁, hold a₂, hold a₃] ++ dataClocks pflg (scan :: scans) b ++ [leave a₄] ++ [hold a₅])).updates .data =
        updates .data ++ added ∧ ∀ word ∈ added, word.length < ((scan :: scans).flatMap RegisterScan.pairs).length := by
  obtain ⟨init, last, hpairs, hclocks⟩ := clocks_last hpflg (hone scan (List.mem_cons_self ..))
  obtain ⟨front, x, hrest, hlength⟩ := flatMap_clocks_last hpflg
    (fun scan' hscan => hone scan' (List.mem_cons_of_mem scan hscan)) hne
  have hdata : [leave a₁, hold a₂, hold a₃] ++ dataClocks pflg (scan :: scans) b ++ [leave a₄] ++ [hold a₅] =
      [leave a₁, hold a₂, hold a₃] ++ shiftIn init last ++ (front ++ [leave x] ++ [leave a₄, hold a₅]) := by
    rw [dataClocks, dataParity, if_neg (not_not.mpr hpflg), List.flatMap_cons, hclocks, hrest]
    simp only [List.map_nil, List.append_nil, List.append_assoc]
    rfl
  have hfirst : (⟨.update .instruction, words, updates⟩ : Port (Bool × Bool)).run
      ([leave a₁, hold a₂, hold a₃] ++ shiftIn init last) =
        ⟨.exit1 .data, Function.update words .data (init ++ [last]), updates⟩ := by
    refine (run_shiftIn (Function.update words .data []) updates).trans ?_
    rw [Function.update_self, Function.update_idem, List.nil_append]
  obtain ⟨added, hadded, hshort⟩ := run_updates_length (r := .data)
    (⟨.exit1 .data, Function.update words .data (init ++ [last]), updates⟩ : Port (Bool × Bool))
    (front ++ [leave x] ++ [leave a₄, hold a₅])
  refine ⟨added, ?_, ?_⟩
  · rw [hdata, run_append, hfirst, hadded]
  · intro word hword
    have hle : word.length ≤ (Function.update words .data (init ++ [last]) .data).length +
      shifts .data (.exit1 .data) (front ++ [leave x] ++ [leave a₄, hold a₅]) := hshort word hword
    have hshifts : shifts .data (.exit1 .data) (front ++ [leave x] ++ [leave a₄, hold a₅]) ≤ front.length :=
      shifts_leaving (by simp)
    rw [Function.update_self] at hle
    rw [List.flatMap_cons, List.length_append, hpairs]
    omega

/-- Words that are too short are not all the bits. -/
theorem not_hptdcCommand_follows (hbits : ∀ reg ∈ wreg, 1 ≤ reg.bits ∧ reg.bits ≤ 32)
    (hidle : lines.run jtg = resting ⟨.runTestIdle, words, updates⟩) (hpflg : pflg = 0) (hlen : 2 ≤ wreg.length) :
    ¬HptdcCommandFollows hrd lines jtg cmd wreg readBack pflg rflg := by
  obtain ⟨scans, bit, scanned, a₁, a₂, a₃, a₄, a₅, rfl, -, -, hport⟩ :=
    hptdcCommand_port hrd cmd pflg rflg readBack (fun reg hreg => (hbits reg hreg).2) hidle
  rintro ⟨rreg, jtg', hcommand, hfollows⟩
  rw [List.length_map] at hlen
  obtain ⟨scan, scans, rfl⟩ := List.exists_cons_of_length_pos (by omega : 0 < scans.length)
  have hne : scans ≠ [] := by
    rintro rfl
    rw [List.length_singleton] at hlen
    omega
  obtain ⟨added, hadded, hshort⟩ := dataClocks_short (Function.update words .instruction scanned)
    (Function.update updates .instruction (updates .instruction ++ [scanned])) a₁ a₂ a₃ a₄ a₅ bit hpflg
    (fun scan' hscan => (hbits scan'.wreg (List.mem_map_of_mem hscan)).1) hne
  obtain ⟨shifted, hshifted, hfst, -⟩ := hfollows.data
  have hjtg : jtg' = (hptdcCommand hrd true cmd ((scan :: scans).map RegisterScan.wreg) readBack pflg rflg jtg).2 := by
    rw [hcommand]
  rw [hjtg, hport, hadded, hidle] at hshifted
  have hword : added = [shifted] := List.append_cancel_left hshifted
  have hlt := hshort shifted (by rw [hword]; exact List.mem_singleton_self shifted)
  have hall := congrArg List.length hfst
  rw [if_neg (not_not.mpr hpflg), List.append_nil, ← flatMap_pairs_fst, List.length_map, List.length_map] at hall
  omega

end Follows

/-- The TAP is followed with parity and for one register; several registers without parity leave Shift-DR early. -/
theorem hptdcCommand_follows_iff (hrd : Jtag → BitVec 32) (lines : Lines) (jtg : Jtag) (cmd : BitVec 32)
    (wreg : List HptdcRegisterVlaue) (readBack : Bool) (pflg rflg : BitVec 32) (hsize : 1 ≤ wreg.length)
    (hbits : ∀ reg ∈ wreg, 1 ≤ reg.bits ∧ reg.bits ≤ 32) (hidle : Idle (lines.run jtg)) :
    HptdcCommandFollows hrd lines jtg cmd wreg readBack pflg rflg ↔ pflg ≠ 0 ∨ wreg.length = 1 := by
  obtain ⟨words, updates, hidle⟩ := hidle
  constructor
  · intro hfollows
    by_contra hbad
    rw [not_or, not_not] at hbad
    exact not_hptdcCommand_follows hrd hbits hidle hbad.1 (by omega) hfollows
  · exact hptdcCommand_follows hrd hbits hidle

/-- A port in Run-Test/Idle that has taken over nothing. -/
def idleLines : Lines := resting ⟨.runTestIdle, fun _ => [], fun _ => []⟩

/-- One register of 14 bits is scanned without parity. -/
theorem hptdcCommand_follows_one : HptdcCommandFollows (fun _ => 0) idleLines [] 10 [⟨0, 13, 0⟩] true 0 1 :=
  (hptdcCommand_follows_iff _ _ _ _ _ _ _ _ (by decide) (by decide) ⟨_, _, rfl⟩).mpr (.inr rfl)

/-- Two registers of one bit. -/
theorem not_hptdcCommand_follows_two :
    ¬∀ (hrd : Jtag → BitVec 32) (lines : Lines) (jtg : Jtag) (cmd : BitVec 32) (wreg : List HptdcRegisterVlaue)
      (readBack : Bool) (pflg rflg : BitVec 32), 1 ≤ wreg.length → (∀ reg ∈ wreg, 1 ≤ reg.bits ∧ reg.bits ≤ 32) →
        Idle (lines.run jtg) → HptdcCommandFollows hrd lines jtg cmd wreg readBack pflg rflg := by
  intro h
  exact not_hptdcCommand_follows _ (by decide) rfl rfl (by decide)
    (h (fun _ => 0) idleLines [] 8 [⟨1, 0, 0⟩, ⟨1, 1, 1⟩] true 0 0 (by decide) (by decide) ⟨_, _, rfl⟩)

end HtDrivers.Ctr
