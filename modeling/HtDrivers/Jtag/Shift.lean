import HtDrivers.Jtag.Lenval
import HtDrivers.Jtag.Ports

/-! Shifting words through a device and comparing what comes back (`xsvfShiftOnly`, `xsvfShift`, `micro.c`). The device
is its TDO level after everything that it has seen. -/
namespace HtDrivers.Jtag
open HtDrivers.Lib.Tap HtDrivers.Lib.BigEndian
set_option autoImplicit false

/-! ## Shifting -/

section Shift
variable (tdo : List Event → Bool)

/-- The bits of one byte, where the first argument counts the places that are left of it: the bits to shift that remain,
the TDO byte and the pins. TDO is read while TCK is low. -/
def shiftBits (iExitShift : Bool) : ℕ → ℕ → BitVec 8 → BitVec 8 → Io → ℕ × BitVec 8 × Io
  | 0, lNumBits, _, ucTdoByte, io => (lNumBits, ucTdoByte, io)
  | _ + 1, 0, _, ucTdoByte, io => (0, ucTdoByte, io)
  | places + 1, lNumBits + 1, ucTdiByte, ucTdoByte, io =>
    let io := if iExitShift ∧ lNumBits = 0 then setPort .tms true io else io
    let io := setPort .tck false (setPort .tdi (ucTdiByte.getLsbD 0) io)
    let ucTdoByte := ucTdoByte ||| (BitVec.ofBool (tdo io.events)).setWidth 8 <<< (7 - places)
    shiftBits iExitShift places lNumBits (ucTdiByte >>> 1) ucTdoByte (setPort .tck true io)

/-- The bytes from the last one on, with the bytes of TDO in the same places; there is a fault when they are used up. -/
def shiftBytes (iExitShift : Bool) (tdi : ℕ → BitVec 8) :
    ℕ → ℕ → (ℕ → BitVec 8) → Io → Except Trap ((ℕ → BitVec 8) × Io)
  | _, 0, tdoVal, io => .ok (tdoVal, io)
  | 0, _ + 1, _, _ => .error .fault
  | k + 1, lNumBits + 1, tdoVal, io =>
    let turn := shiftBits tdo iExitShift 8 (lNumBits + 1) (tdi k) 0 io
    shiftBytes iExitShift tdi k turn.1 (Function.update tdoVal k turn.2.1) turn.2.2

/-- What was captured, where it is asked for, and the pins. -/
def xsvfShiftOnly (lNumBits : ℕ) (tdi : LenVal) (captured : Option LenVal) (iExitShift : Bool) (io : Io) :
    Except Trap (Option LenVal × Io) :=
  let tdoVal := captured.elim (fun _ => 0) LenVal.val
  match shiftBytes tdo iExitShift tdi.val tdi.len lNumBits tdoVal io with
  | .error trap => .error trap
  | .ok (tdoVal, io) => .ok (captured.map fun _ => ⟨tdi.len, tdoVal⟩, io)

end Shift

/-! ## What is shifted -/

section Clocks
variable {tdo : List Event → Bool} {tdi : LenVal} {exit : Bool} {io : Io} {n q j k l m : ℕ} {byte out : BitVec 8}
  {tdoVal : ℕ → BitVec 8}

/-- The clock of bit `q` of `n`; the last one leaves Shift if it is asked to. -/
def shiftClock (exit : Bool) (n : ℕ) (tdi : LenVal) (q : ℕ) : Clock Bool := ⟨exit && decide (q + 1 = n), tdi.bit q⟩

/-- The pins after `q` bits. -/
def afterBits (exit : Bool) (n : ℕ) (tdi : LenVal) (io : Io) : ℕ → Io
  | 0 => io
  | q + 1 => ⟨exit && decide (q + 1 = n), tdi.bit q, true,
      (afterBits exit n tdi io q).events ++ [.clock (shiftClock exit n tdi q)]⟩

theorem afterBits_tms (hio : io.tms = false) (hq : q < n) : (afterBits exit n tdi io q).tms = false := by
  cases q with
  | zero => exact hio
  | succ q =>
    have hne : ¬q + 1 = n := by omega
    simp [afterBits, hne]

/-- The turn for one bit. -/
theorem afterBits_turn (hio : io.tms = false) (hq : q + l + 1 = n) :
    setPort .tck true (setPort .tck false (setPort .tdi (tdi.bit q)
        (if exit = true ∧ l = 0 then setPort .tms true (afterBits exit n tdi io q) else afterBits exit n tdi io q))) =
      afterBits exit n tdi io (q + 1) := by
  have htms : (afterBits exit n tdi io q).tms = false := afterBits_tms hio (by omega)
  have hlast : (exit && decide (q + 1 = n)) = decide (exit = true ∧ l = 0) := by
    have hiff : q + 1 = n ↔ l = 0 := by omega
    simp [hiff]
  rw [pulse_eq, afterBits, shiftClock, hlast]
  split
  · rename_i hexit
    simp [setPort, hexit]
  · rename_i hexit
    simp [setPort, hexit, htms]

/-- What the device answers to bit `q` of the word. -/
def readBit (tdo : List Event → Bool) (exit : Bool) (n : ℕ) (tdi : LenVal) (io : Io) (q : ℕ) : Bool :=
  tdo (afterBits exit n tdi io q).events

theorem captureBit (b : Bool) {i : ℕ} (hi : i < 8) :
    (out ||| (BitVec.ofBool b).setWidth 8 <<< j).getLsbD i = (out.getLsbD i || decide (i = j) && b) := by
  have hbit : ((BitVec.ofBool b).setWidth 8 <<< j).getLsbD i = (decide (i = j) && b) := by
    rw [BitVec.getLsbD_shiftLeft, BitVec.getLsbD_setWidth, BitVec.getLsbD_ofBool]
    by_cases hij : i < j
    · have hne : i ≠ j := by omega
      simp [hij, hne]
    · have hsub : i - j = 0 ↔ i = j := by omega
      have hlt : i - j < 8 := by omega
      simp [hij, hi, hlt, hsub]
  rw [BitVec.getLsbD_or, hbit]

/-- A turn over the places of one byte from `j` on. -/
theorem shiftBits_spec (hio : io.tms = false) (hl : 8 * k + j + l = n) (hj : j + m = 8) :
    ∃ out', shiftBits tdo exit m l (tdi.val (tdi.len - 1 - k) >>> j) out (afterBits exit n tdi io (8 * k + j)) =
        (l - m, out', afterBits exit n tdi io (8 * k + j + min m l)) ∧
      ∀ i < 8, out'.getLsbD i =
        (out.getLsbD i || decide (j ≤ i ∧ i < j + min m l) && readBit tdo exit n tdi io (8 * k + i)) := by
  induction m generalizing j l out with
  | zero =>
    exact ⟨out, by simp [shiftBits], fun i _ => by simp⟩
  | succ m ih =>
    cases l with
    | zero =>
      exact ⟨out, by simp [shiftBits], fun i _ => by simp⟩
    | succ l =>
      have hbit : (tdi.val (tdi.len - 1 - k) >>> j).getLsbD 0 = tdi.bit (8 * k + j) := by
        have hdiv : (8 * k + j) / 8 = k := by omega
        have hmod : (8 * k + j) % 8 = j := by omega
        rw [LenVal.bit, bitAt, hdiv, hmod, BitVec.getLsbD_ushiftRight, Nat.add_zero]
      have hplace : 7 - m = j := by omega
      have hread : (setPort .tck false (setPort .tdi (tdi.bit (8 * k + j)) (if exit = true ∧ l = 0 then
          setPort .tms true (afterBits exit n tdi io (8 * k + j)) else afterBits exit n tdi io (8 * k + j)))).events =
          (afterBits exit n tdi io (8 * k + j)).events := by
        split
        · rfl
        · rfl
      obtain ⟨out', hout, hbits⟩ := @ih (j + 1) l
        (out ||| (BitVec.ofBool (readBit tdo exit n tdi io (8 * k + j))).setWidth 8 <<< j) (by omega) (by omega)
      refine ⟨out', ?_, fun i hi => ?_⟩
      · rw [shiftBits]
        rw [hbit, hread, hplace, afterBits_turn hio (by omega), ← BitVec.shiftRight_add]
        have hcount : 8 * k + j + min (m + 1) (l + 1) = 8 * k + (j + 1) + min m l := by omega
        rw [hcount, Nat.add_sub_add_right]
        exact hout
      · rw [hbits i hi, captureBit _ hi, Bool.or_assoc]
        congr 1
        by_cases hij : i = j
        · subst hij
          simp
        · have hiff : (j + 1 ≤ i ∧ i < j + 1 + min m l) ↔ j ≤ i ∧ i < j + min (m + 1) (l + 1) := by omega
          rw [decide_eq_decide.mpr hiff, decide_eq_false hij, Bool.false_and, Bool.false_or]

theorem shiftBits_left (m l : ℕ) (byte out : BitVec 8) (io : Io) : (shiftBits tdo exit m l byte out io).1 = l - m := by
  induction m generalizing l byte out io with
  | zero => rfl
  | succ m ih =>
    cases l with
    | zero => simp [shiftBits]
    | succ l =>
      rw [shiftBits, ih]
      omega

theorem shiftBytes_zero (tdiVal : ℕ → BitVec 8) : shiftBytes tdo exit tdiVal m 0 tdoVal io = .ok (tdoVal, io) := by
  cases m <;> rfl

theorem shiftBytes_fault (tdiVal : ℕ → BitVec 8) (hl : 8 * m < l) :
    shiftBytes tdo exit tdiVal m l tdoVal io = .error .fault := by
  induction m generalizing l tdoVal io with
  | zero =>
    cases l with
    | zero => omega
    | succ l => rfl
  | succ m ih =>
    cases l with
    | zero => omega
    | succ l =>
      rw [shiftBytes]
      apply ih
      rw [shiftBits_left]
      omega

/-- The bytes that hold a bit of the word are written whole, with zeros behind its end. -/
theorem shiftBytes_spec (hio : io.tms = false) (hk : k + m = tdi.len) (hl : 8 * k + l = n) (hn : n ≤ 8 * tdi.len) :
    ∃ val', shiftBytes tdo exit tdi.val m l tdoVal (afterBits exit n tdi io (8 * k)) =
        .ok (val', afterBits exit n tdi io n) ∧
      (∀ i, m ≤ i → val' i = tdoVal i) ∧
      ∀ p, 8 * k ≤ p → 8 * (p / 8) < n →
        bitAt val' tdi.len p = (decide (p < n) && readBit tdo exit n tdi io p) := by
  induction m generalizing k l tdoVal with
  | zero =>
    obtain rfl : l = 0 := by omega
    obtain rfl : n = 8 * k := by omega
    exact ⟨tdoVal, rfl, fun i _ => rfl, fun p hp hpn => by omega⟩
  | succ m ih =>
    cases l with
    | zero =>
      obtain rfl : n = 8 * k := by omega
      exact ⟨tdoVal, rfl, fun i _ => rfl, fun p hp hpn => by omega⟩
    | succ l =>
      obtain ⟨out, hout, hbits⟩ := @shiftBits_spec tdo tdi exit io n 0 k (l + 1) 8 0 hio hl rfl
      have hbyte : tdi.len - 1 - k = m := by omega
      simp only [hbyte, BitVec.ushiftRight_zero, Nat.add_zero] at hout
      have hrest : ∃ val', shiftBytes tdo exit tdi.val m (l + 1 - 8) (Function.update tdoVal m out)
            (afterBits exit n tdi io (8 * k + min 8 (l + 1))) = .ok (val', afterBits exit n tdi io n) ∧
          (∀ i, m ≤ i → val' i = Function.update tdoVal m out i) ∧
          ∀ p, 8 * (k + 1) ≤ p → 8 * (p / 8) < n →
            bitAt val' tdi.len p = (decide (p < n) && readBit tdo exit n tdi io p) := by
        by_cases hlast : l + 1 ≤ 8
        · have hleft : l + 1 - 8 = 0 := by omega
          have hend : 8 * k + min 8 (l + 1) = n := by omega
          rw [hleft, hend, shiftBytes_zero]
          exact ⟨_, rfl, fun i _ => rfl, fun p hp hpn => by omega⟩
        · have hnext : 8 * k + min 8 (l + 1) = 8 * (k + 1) := by omega
          rw [hnext]
          exact ih (by omega) (by omega)
      obtain ⟨val', hval, hkept, hlater⟩ := hrest
      refine ⟨val', ?_, fun i hi => ?_, fun p hp hpn => ?_⟩
      · rw [shiftBytes, hout]
        exact hval
      · rw [hkept i (by omega), Function.update_of_ne (by omega)]
      · by_cases hthis : p / 8 = k
        · have hp8 : 8 * k + p % 8 = p := by omega
          have hzero : BitVec.getLsbD (0 : BitVec 8) (p % 8) = false := BitVec.getLsbD_zero
          have hplace : (0 ≤ p % 8 ∧ p % 8 < 0 + min 8 (l + 1)) ↔ p < n := by omega
          rw [bitAt, hthis, hbyte, hkept m (Nat.le_refl m), Function.update_self, hbits (p % 8) (by omega), hp8,
            decide_eq_decide.mpr hplace, hzero, Bool.false_or]
        · exact hlater p (by omega) hpn

/-- A word with enough bytes is shifted whole, and what is captured are the answers of the device to its bits. -/
theorem xsvfShiftOnly_spec (captured : Option LenVal) (hio : io.tms = false) (hn : n ≤ 8 * tdi.len) :
    ∃ captured', xsvfShiftOnly tdo n tdi captured exit io = .ok (captured', afterBits exit n tdi io n) ∧
      captured'.isSome = captured.isSome ∧ ∀ c ∈ captured', c.len = tdi.len ∧
        ∀ p, 8 * (p / 8) < n → c.bit p = (decide (p < n) && readBit tdo exit n tdi io p) := by
  obtain ⟨val', hval, -, hbits⟩ := @shiftBytes_spec tdo tdi exit io n 0 n tdi.len
    (captured.elim (fun _ => 0) LenVal.val) hio (Nat.zero_add _) (by omega) hn
  refine ⟨captured.map fun _ => ⟨tdi.len, val'⟩, ?_, Option.isSome_map, ?_⟩
  · rw [xsvfShiftOnly]
    rw [Nat.mul_zero, afterBits] at hval
    rw [hval]
  · intro c hc
    obtain ⟨_, -, rfl⟩ := Option.map_eq_some_iff.mp hc
    exact ⟨rfl, fun p hp => hbits p (Nat.zero_le _) hp⟩

theorem xsvfShiftOnly_fault (captured : Option LenVal) (hn : 8 * tdi.len < n) :
    xsvfShiftOnly tdo n tdi captured exit io = .error .fault := by
  rw [xsvfShiftOnly, shiftBytes_fault _ hn]

end Clocks
end HtDrivers.Jtag
