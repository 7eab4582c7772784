import HtDrivers.Jtag.Sight
import HtDrivers.Lib.ByteMemory

/-! Programs for the player: what their commands tell a device, and that the player tells it to every device, up to the
first answer that was not expected. `XREPEAT` and the compressed words are left to their own modules. -/
namespace HtDrivers.Jtag
open HtDrivers.Lib.Tap HtDrivers.Lib.BigEndian HtDrivers.Lib.Checked HtDrivers.Lib.ByteMemory
set_option autoImplicit false

/-! ## Programs -/

/-- The first, a later and the last one of the commands for a long word. -/
inductive Part
  | first | next | last

/-- A command with its operands; the words are given by their bytes, with the most significant first. -/
inductive Item
  | tdoMask (w : List (BitVec 8))
  | sir (n : BitVec 8) (w : List (BitVec 8))
  | sir2 (n : BitVec 16) (w : List (BitVec 8))
  | sdr (w : List (BitVec 8))
  | runTest (usec : BitVec 32)
  | sdrSize (n : BitVec 32)
  | sdrTdo (tdi tdo : List (BitVec 8))
  | sdrPart (k : Part) (tdi : List (BitVec 8))
  | sdrTdoPart (k : Part) (tdi tdo : List (BitVec 8))
  | state (t : BitVec 8)
  | endIr (pause : Bool)
  | endDr (pause : Bool)
  | comment (text : List (BitVec 8))
  | wait (s t : BitVec 8) (usec : BitVec 32)

def beBytes (k n : ℕ) : List (BitVec 8) := (bytesOf k n).reverse

def Part.code : Part → ℕ
  | first => 0
  | next => 1
  | last => 2

/-- The stream of a command. -/
def Item.encode : Item → List (BitVec 8)
  | tdoMask w => 1 :: w
  | sir n w => 2 :: n :: w
  | sir2 n w => 21 :: (beBytes 2 n.toNat ++ w)
  | sdr w => 3 :: w
  | runTest usec => 4 :: beBytes 4 usec.toNat
  | sdrSize n => 8 :: beBytes 4 n.toNat
  | sdrTdo tdi tdo => 9 :: (tdi ++ tdo)
  | sdrPart k tdi => BitVec.ofNat 8 (12 + k.code) :: tdi
  | sdrTdoPart k tdi tdo => BitVec.ofNat 8 (15 + k.code) :: (tdi ++ tdo)
  | state t => [18, t]
  | endIr pause => [19, if pause then 1 else 0]
  | endDr pause => [20, if pause then 1 else 0]
  | comment text => 22 :: (text ++ [0])
  | wait s t usec => 23 :: s :: t :: beBytes 4 usec.toNat

/-- What a program has set. -/
structure Settings where
  size : BitVec 32
  runTest : BitVec 32
  endIR : ℕ
  endDR : ℕ

def Settings.after (S : Settings) : Item → Settings
  | .runTest usec => { S with runTest := usec }
  | .sdrSize n => { S with size := n }
  | .endIr pause => { S with endIR := if pause then 13 else 1 }
  | .endDr pause => { S with endDR := if pause then 6 else 1 }
  | _ => S

/-- The bits of a word in the order in which they are shifted. -/
def bitsOf (n : ℕ) (w : List (BitVec 8)) : List Bool := (List.range n).map (bitAt (fun i => w.getD i 0) w.length)

/-- The bytes that `n` bits take. -/
def Words (n : ℕ) (w : List (BitVec 8)) : Prop := w.length = (n + 7) / 8 ∧ n ≤ 8 * maxLen

/-- What the format asks of a command; states that are named are stable ones. -/
def Settings.Accepts (S : Settings) : Item → Prop
  | .tdoMask w => Words S.size.toNat w
  | .sir n w => Words n.toNat w
  | .sir2 n w => Words n.toNat w
  | .sdr w => Words S.size.toNat w
  | .sdrSize n => n.toNat ≤ 8 * maxLen
  | .sdrTdo tdi tdo => Words S.size.toNat tdi ∧ Words S.size.toNat tdo
  | .sdrPart _ tdi => Words S.size.toNat tdi
  | .sdrTdoPart _ tdi tdo => Words S.size.toNat tdi ∧ Words S.size.toNat tdo
  | .state t => t.toNat ∈ [0, 1, 6, 13]
  | .comment text => 0 ∉ text
  | .wait s t _ => s.toNat ∈ [0, 1, 6, 13] ∧ t.toNat ∈ [0, 1, 6, 13]
  | _ => True

/-- The commands that look at what comes back. -/
def Item.Compares : Item → Prop
  | sdr _ | sdrTdo _ _ | sdrTdoPart _ _ _ => True
  | _ => False

/-! ## What they tell a device -/

def Sight.idle (σ : Sight) (usec : BitVec 32) : Sight := if usec ≠ 0 then (σ.goto 1).wait usec else σ

/-- A word of no bits is only waited for. -/
def Sight.shift (σ : Sight) (r : Scan) (bits : List Bool) (endState : ℕ) (usec : BitVec 32) : Sight :=
  if bits = [] then σ.idle usec
  else if shiftState r = endState then σ.scan r false bits
  else ((σ.scan r true bits).goto endState).idle usec

def Part.endState (S : Settings) : Part → ℕ
  | last => S.endDR
  | _ => 4

def Sight.gotoUnless (σ : Sight) (t : ℕ) : Sight := if σ.state ≠ t then σ.goto t else σ

def Settings.tell (S : Settings) (σ : Sight) : Item → Sight
  | .sir n w => σ.shift .instruction (bitsOf n.toNat w) S.endIR S.runTest
  | .sir2 n w => σ.shift .instruction (bitsOf n.toNat w) S.endIR S.runTest
  | .sdr w => σ.shift .data (bitsOf S.size.toNat w) S.endDR S.runTest
  | .sdrTdo tdi _ => σ.shift .data (bitsOf S.size.toNat tdi) S.endDR S.runTest
  | .sdrPart k tdi => σ.shift .data (bitsOf S.size.toNat tdi) (k.endState S) 0
  | .sdrTdoPart k tdi _ => σ.shift .data (bitsOf S.size.toNat tdi) (k.endState S) 0
  | .state t => σ.goto t.toNat
  | .wait s t usec => ((σ.gotoUnless s.toNat).wait usec).gotoUnless t.toNat
  | _ => σ

def tellAll (S : Settings) (σ : Sight) : List Item → Sight
  | [] => σ
  | item :: items => tellAll (S.after item) (S.tell σ item) items

def AcceptsAll (S : Settings) : List Item → Prop
  | [] => True
  | item :: items => S.Accepts item ∧ AcceptsAll (S.after item) items

/-! ## Reading the stream of a command -/

section Stream
variable {n : BitVec 16} {w rest : List (BitVec 8)} {k m : ℕ}

theorem number_reverse (bs : List (BitVec 8)) : number (fun i => bs.reverse.getD i 0) bs.length = valueOf bs := by
  induction bs with
  | nil => rfl
  | cons b bs ih =>
    have hbefore : number (fun i => (b :: bs).reverse.getD i 0) bs.length = number (fun i => bs.reverse.getD i 0)
      bs.length := by
      apply number_congr
      intro i hi
      rw [List.reverse_cons, List.getD_append _ _ _ _ (by rw [List.length_reverse]; exact hi)]
    have hlast : (b :: bs).reverse.getD bs.length 0 = b := by
      rw [List.reverse_cons, List.getD_append_right _ _ _ _ (by rw [List.length_reverse])]
      simp
    rw [List.length_cons, number, hbefore, ih, hlast, valueOf]
    omega

theorem readVal_bytes (x : LenVal) (hlen : w.length = n.toNat) (hn : n.toNat ≤ maxLen + 1) (rest : List (BitVec 8)) :
    ∃ x', readVal x n (w ++ rest) = .ok (x', rest) ∧ x'.len = w.length ∧ ∀ i < w.length, x'.val i = w.getD i 0 := by
  obtain ⟨x', hread, hlen', hval⟩ := readVal_ok x hn (w ++ rest)
  refine ⟨x', ?_, by rw [hlen', hlen], fun i hi => ?_⟩
  · rw [hread, ← hlen, List.drop_left]
  · rw [hval i (by omega), List.getD_append _ _ _ _ hi]
    simp [List.getD_eq_getElem?_getD, hi]

theorem readVal_value (x : LenVal) (hk : k ≤ 4) (hn : n.toNat = k) (m : ℕ) (hm : m < 256 ^ k) (rest : List (BitVec 8)) :
    ∃ x', readVal x n (beBytes k m ++ rest) = .ok (x', rest) ∧ value x' = BitVec.ofNat 32 m := by
  have hlen : (beBytes k m).length = k := by simp [beBytes]
  obtain ⟨x', hread, hlen', hval⟩ := readVal_bytes x (hlen.trans hn.symm) (by unfold maxLen; omega) rest
  refine ⟨x', hread, ?_⟩
  have hnumber := number_reverse (bytesOf k m)
  rw [bytesOf_length, valueOf_bytesOf, Nat.mod_eq_of_lt hm] at hnumber
  rw [value_eq, LenVal.toNat, hlen', hlen, number_congr _ fun i hi => hval i (by omega)]
  exact congrArg _ hnumber

theorem bits_eq {x : LenVal} (hlen : x.len = w.length) (hval : ∀ i < w.length, x.val i = w.getD i 0)
    (hm : m ≤ 8 * w.length) : (List.range m).map x.bit = bitsOf m w := by
  apply List.map_congr_left
  intro p hp
  have hlt := List.mem_range.mp hp
  rw [LenVal.bit, bitAt, bitAt, hlen, hval _ (by omega)]

end Stream

/-! ## One command -/

/-- A player that goes on with these settings. -/
structure Ready (S : Settings) (p : Player) : Prop where
  size : p.info.lShiftLengthBits = S.size
  bytes : p.info.sShiftLengthBytes = xsvfGetAsNumBytes S.size
  small : S.size.toNat ≤ 8 * maxLen
  runTest : p.info.lRunTestTime = S.runTest
  endIR : p.info.ucEndIR = S.endIR ∧ (S.endIR = 1 ∨ S.endIR = 13)
  endDR : p.info.ucEndDR = S.endDR ∧ (S.endDR = 1 ∨ S.endDR = 6)
  maxRepeat : p.info.ucMaxRepeat = 0
  expected : p.info.lvTdoExpected.len ≤ maxLen + 1
  complete : p.info.ucComplete = false

/-- The command was played: the device has been told, and the run goes on unless a comparison has failed. -/
def Played (start : Port Bool) (S : Settings) (σ : Sight) (item : Item) (rest : List (BitVec 8)) (p : Player) : Prop :=
  p.inp = rest ∧ Ready (S.after item) p ∧ Sees start p.port (S.tell σ item) ∧
    (p.info.iErrorCode = .none ∨ item.Compares ∧ p.info.iErrorCode = .tdoMismatch)

section Items
variable {start : Port Bool} {tdo : List Event → Bool} {S : Settings} {σ : Sight} {p : Player} {rest : List (BitVec 8)}
  {args : ShiftArgs} {captured : Option LenVal} {b : Bool} {usec : BitVec 32}

theorem idleOps_sight : (idleOps usec).foldl Sight.op σ = σ.idle usec := by
  rw [idleOps, Sight.idle]
  split <;> rfl

theorem scanOps_sight : (scanOps args 0 b usec).foldl Sight.op σ =
    σ.shift args.scan ((List.range args.lNumBits.toNat).map args.tdi.bit) args.ucEndState usec := by
  rw [scanOps, Sight.shift]
  by_cases hzero : args.lNumBits = 0
  · rw [if_pos hzero, idleOps_sight, if_pos (by rw [hzero]; rfl)]
  · have hbits : (List.range args.lNumBits.toNat).map args.tdi.bit ≠ [] := by
      have hn := BitVec.toNat_pos_of_ne_zero hzero
      simp only [ne_eq, List.map_eq_nil_iff, List.range_eq_nil]
      omega
    rw [if_neg hzero, if_neg hbits, failedOps, List.nil_append, turnOps, ShiftArgs.iExitShift]
    by_cases hstay : shiftState args.scan = args.ucEndState
    · simp [hstay, Sight.op]
    · simp [hstay, Sight.op, idleOps_sight]

theorem EndState.target {t : ℕ} (h : EndState t) : t ∈ targets := by
  obtain rfl | rfl | rfl | rfl := h
  all_goals decide

theorem idleOps_stable : ∀ op ∈ idleOps usec, op.Stable := by
  intro op hop
  rw [idleOps] at hop
  split at hop
  · obtain rfl := List.mem_singleton.mp hop
    trivial
  · cases hop

theorem turnOps_stable (hn : 0 < args.lNumBits.toNat) (hend : EndState args.ucEndState) {retry : Bool} :
    ∀ op ∈ turnOps args retry b usec, op.Stable := by
  have hpause : 6 ∈ targets := by decide
  have hback : 4 ∈ targets := by decide
  rw [turnOps]
  refine List.forall_mem_cons.mpr ⟨hn, ?_⟩
  split
  · split
    · exact List.forall_mem_cons.mpr ⟨hpause, List.forall_mem_cons.mpr ⟨hback, idleOps_stable⟩⟩
    · exact List.forall_mem_cons.mpr ⟨hend.target, idleOps_stable⟩
  · intro op hop
    cases hop

theorem failedOps_stable (hn : 0 < args.lNumBits.toNat) (hend : EndState args.ucEndState) (k : ℕ) :
    ∀ op ∈ failedOps args k usec, op.Stable := by
  induction k generalizing usec with
  | zero =>
    intro op hop
    cases hop
  | succ k ih => exact List.forall_mem_append.mpr ⟨turnOps_stable hn hend, ih⟩

theorem scanOps_stable (hend : EndState args.ucEndState) (k : ℕ) : ∀ op ∈ scanOps args k b usec, op.Stable := by
  rw [scanOps]
  split
  · exact idleOps_stable
  · rename_i hbits
    have hn := BitVec.toNat_pos_of_ne_zero hbits
    exact List.forall_mem_append.mpr ⟨failedOps_stable hn hend k, turnOps_stable hn hend⟩

/-- A scan without retries. -/
theorem shift_tells (h : Sees start p.port σ) (hend : EndState args.ucEndState) (hrepeat : args.ucMaxRepeat = 0)
    (hroom : args.Room captured) (haligned : args.tdi.len = (args.lNumBits.toNat + 7) / 8) (usec : BitVec 32) :
    ∃ b p', p.shift tdo args captured usec = .ok (if b then .tdoMismatch else .none, p') ∧
    (args.expected = none → b = false) ∧
      Sees start p'.port (σ.shift args.scan ((List.range args.lNumBits.toNat).map args.tdi.bit) args.ucEndState usec) ∧
      p' = { p with
        info := { p.info with ucTapState := p'.info.ucTapState, lvTdoCaptured := p'.info.lvTdoCaptured }
        io := p'.io } := by
  have houtcome : Outcome _ _ (p.shift tdo args captured usec) := Player.shift_outcome h.tracks hend usec
  cases hshift : p.shift tdo args captured usec with
  | error t =>
    obtain ⟨-, -, hnot⟩ := houtcome.of_error hshift
    exact absurd hroom hnot
  | ok r =>
    obtain ⟨e, p'⟩ := r
    obtain ⟨k, hk, b, hb, he, hrun, hframe, hanswers⟩ := houtcome.of_ok hshift
    rw [hrepeat] at hk
    obtain rfl : k = 0 := Nat.le_zero.mp hk
    have herror : args.iErrorCode = .tdoMismatch := by simp [ShiftArgs.iErrorCode, hrepeat]
    rw [herror] at he
    dsimp only at he hrun hframe
    refine ⟨b, p', by rw [he], fun hnone => ?_, ?_, hframe⟩
    · by_contra hmismatch
      rw [Bool.not_eq_false] at hmismatch
      have haligned : Aligned args := ⟨haligned, fun e hexpected => by cases hnone.symm.trans hexpected⟩
      obtain ⟨io, -, hanswer⟩ := hanswers (hb hmismatch).1 haligned 0 (Nat.le_refl 0)
      have hall : Answered tdo args io := fun e hexpected => by cases hnone.symm.trans hexpected
      rw [(hanswer.mp hall).2] at hmismatch
      cases hmismatch
    · rw [← scanOps_sight]
      exact Sees.runOps h (scanOps_stable hend 0) hrun

/-- What has been read changes no setting. -/
theorem Ready.reads (h : Ready S p) (c : BitVec 8) (x y : LenVal) (hy : y.len ≤ maxLen + 1) (inp : List (BitVec 8)) :
    Ready S { p with info := { p.info with ucCommand := c, lvTdi := x, lvTdoExpected := y }, inp := inp } :=
  ⟨h.size, h.bytes, h.small, h.runTest, h.endIR, h.endDR, h.maxRepeat, hy, h.complete⟩

/-- A scan without retries, and its error. -/
theorem scan_played (hready : Ready S p) (hsees : Sees start p.port σ) (hnone : p.info.iErrorCode = .none)
    (hend : EndState args.ucEndState) (hrepeat : args.ucMaxRepeat = 0) (hroom : args.Room captured)
    (haligned : args.tdi.len = (args.lNumBits.toNat + 7) / 8) (usec : BitVec 32) :
    ∃ e p', p.shift tdo args captured usec = .ok (e, p') ∧ (p'.noting e).inp = p.inp ∧ Ready S (p'.noting e) ∧
      Sees start (p'.noting e).port
        (σ.shift args.scan ((List.range args.lNumBits.toNat).map args.tdi.bit) args.ucEndState usec) ∧
      ((p'.noting e).info.iErrorCode = .none ∨ args.expected ≠ none ∧
        (p'.noting e).info.iErrorCode = .tdoMismatch) := by
  obtain ⟨b, p', hshift, hquiet, htold, hframe⟩ := shift_tells hsees hend hrepeat hroom haligned usec
  have hready' : Ready S p' := by
    rw [hframe]
    exact ⟨hready.size, hready.bytes, hready.small, hready.runTest, hready.endIR, hready.endDR, hready.maxRepeat,
      hready.expected, hready.complete⟩
  have hinp : p'.inp = p.inp := by rw [hframe]
  have hnone' : p'.info.iErrorCode = .none := by
    rw [hframe]
    exact hnone
  refine ⟨_, p', hshift, ?_⟩
  cases b with
  | false => exact ⟨hinp, hready', htold, .inl hnone'⟩
  | true =>
    refine ⟨hinp, ?_, htold, .inr ⟨fun habsent => (by cases hquiet habsent), rfl⟩⟩
    exact ⟨hready'.size, hready'.bytes, hready'.small, hready'.runTest, hready'.endIR, hready'.endDR, hready'.maxRepeat,
      hready'.expected, hready'.complete⟩

theorem run_command (hrunning : p.Running) {c : BitVec 8} {inp : List (BitVec 8)} (hinp : p.inp = c :: inp) :
    xsvfRun tdo p = pfDoCmd tdo { p with info := { p.info with ucCommand := c }, inp := inp } c.toNat := by
  rw [xsvfRun, if_pos hrunning, Player.fetch, readByte, hinp]
  rfl

theorem Ready.bytes_toNat (h : Ready S p) : (xsvfGetAsNumBytes S.size).toNat = (S.size.toNat + 7) / 8 := by
  have hsmall := h.small
  unfold maxLen at hsmall
  exact numBytes_toNat (by omega)

/-- The words of the size that was told. -/
theorem Ready.read (h : Ready S p) {w : List (BitVec 8)} (hw : Words S.size.toNat w) (x : LenVal)
    (rest : List (BitVec 8)) :
    ∃ x', readVal x p.info.sShiftLengthBytes (w ++ rest) = .ok (x', rest) ∧ x'.len = (S.size.toNat + 7) / 8 ∧
      x'.len ≤ maxLen + 1 ∧ (List.range S.size.toNat).map x'.bit = bitsOf S.size.toNat w := by
  have hbytes := h.bytes_toNat
  obtain ⟨hlen, hsmall⟩ := hw
  rw [h.bytes]
  obtain ⟨x', hread, hlen', hval⟩ := readVal_bytes (n := xsvfGetAsNumBytes S.size) x (hlen.trans hbytes.symm)
    (by omega) rest
  exact ⟨x', hread, hlen'.trans hlen, by omega, bits_eq hlen' hval (by omega)⟩

theorem Ready.ends (h : Ready S p) : EndState p.info.ucEndIR ∧ EndState p.info.ucEndDR := by
  have hir := h.endIR
  have hdr := h.endDR
  exact ⟨by unfold EndState; omega, by unfold EndState; omega⟩

/-- The two commands that shift an instruction. -/
theorem shiftIr_played (hready : Ready S p) (hsees : Sees start p.port σ) (hnone : p.info.iErrorCode = .none)
    {n : BitVec 32} {w : List (BitVec 8)} (hw : Words n.toNat w) (hinp : p.inp = w ++ rest) :
    ∃ p', shiftIr tdo p n = .ok p' ∧ p'.inp = rest ∧ Ready S p' ∧
      Sees start p'.port (σ.shift .instruction (bitsOf n.toNat w) S.endIR S.runTest) ∧ p'.info.iErrorCode = .none := by
  obtain ⟨hlen, hsmall⟩ := hw
  unfold maxLen at hsmall
  have hbytes : (xsvfGetAsNumBytes n).toNat = _ := numBytes_toNat (by omega)
  have hfits : ¬overflows (xsvfGetAsNumBytes n) := by
    rw [overflows, BitVec.toInt_eq_toNat_of_lt (by omega), maxLen]
    omega
  obtain ⟨x, hread, hlen', hval⟩ := readVal_bytes (n := xsvfGetAsNumBytes n) p.info.lvTdi (hlen.trans hbytes.symm)
    (by unfold maxLen; omega) rest
  have hq := hready.reads p.info.ucCommand x p.info.lvTdoExpected hready.expected rest
  obtain ⟨e, p', hshift, hrest, hready', htold, herror⟩ := @scan_played start tdo S σ _
    ⟨.instruction, n, x, none, none, p.info.ucEndIR, 0⟩ none hq hsees hnone hready.ends.1 rfl
    ⟨by dsimp only; omega, fun e he => by cases he⟩ (hlen'.trans hlen) p.info.lRunTestTime
  refine ⟨_, ?_, hrest, hready', ?_, herror.resolve_right fun h => h.1 rfl⟩
  · rw [shiftIr, if_neg hfits, hinp, hread]
    change (Player.shift tdo _ _ _ _ >>= _) = _
    rw [hshift]
    rfl
  · dsimp only at htold
    rw [bits_eq hlen' hval (by omega), hready.endIR.1, hready.runTest] at htold
    exact htold

/-- The words of `XSDRTDO` and of the commands for parts of a word, as they are read. -/
theorem readTdiTdo_ok (hready : Ready S p) {tdi tdo : List (BitVec 8)} (compared : Bool) (hw : Words S.size.toNat tdi)
    (hw' : compared = true → Words S.size.toNat tdo) (hinp : p.inp = tdi ++ ((if compared then tdo else []) ++ rest)) :
    ∃ x y, p.readTdiTdo compared = .ok { p with info := { p.info with lvTdi := x, lvTdoExpected := y }, inp := rest } ∧
      y.len ≤ maxLen + 1 ∧ x.len = (S.size.toNat + 7) / 8 ∧
      (List.range S.size.toNat).map x.bit = bitsOf S.size.toNat tdi := by
  obtain ⟨x, hread, hlen, -, hbits⟩ := hready.read hw p.info.lvTdi ((if compared then tdo else []) ++ rest)
  cases compared with
  | false =>
    refine ⟨x, p.info.lvTdoExpected, ?_, hready.expected, hlen, hbits⟩
    rw [Player.readTdiTdo, hinp, hread]
    rfl
  | true =>
    obtain ⟨y, hread', -, hy, -⟩ := hready.read (hw' rfl) p.info.lvTdoExpected rest
    refine ⟨x, y, ?_, hy, hlen, hbits⟩
    rw [Player.readTdiTdo, hinp, hread]
    change (readVal p.info.lvTdoExpected p.info.sShiftLengthBytes (tdo ++ rest) >>= _) = _
    rw [hread']
    rfl

/-- A scan of the data register, when its words have been read. -/
theorem shiftDr_played (hready : Ready S p) (hsees : Sees start p.port σ) (hnone : p.info.iErrorCode = .none)
    (hlen : p.info.lvTdi.len = (S.size.toNat + 7) / 8) :
    ∃ e p', p.shiftDr tdo = .ok (e, p') ∧ (p'.noting e).inp = p.inp ∧ Ready S (p'.noting e) ∧
      Sees start (p'.noting e).port
        (σ.shift .data ((List.range S.size.toNat).map p.info.lvTdi.bit) S.endDR S.runTest) ∧
      ((p'.noting e).info.iErrorCode = .none ∨ (p'.noting e).info.iErrorCode = .tdoMismatch) := by
  have hsize := hready.size
  obtain ⟨e, p', hshift, hinp, hready', htold, herror⟩ :=
    @scan_played start tdo S σ p p.drArgs (some p.info.lvTdoCaptured)
    hready hsees hnone hready.ends.2 hready.maxRepeat
    ⟨by rw [Player.drArgs, hsize, hlen]; dsimp only; omega, fun e he => ⟨rfl, by cases he; exact hready.expected⟩⟩
    (by rw [Player.drArgs, hsize, hlen]) p.info.lRunTestTime
  refine ⟨e, p', hshift, hinp, hready', ?_, herror.imp_right And.right⟩
  simp only [Player.drArgs, hsize, hready.endDR.1, hready.runTest] at htold
  exact htold

theorem sdr_played (hready : Ready S p) (hsees : Sees start p.port σ) (hrunning : p.Running) {w : List (BitVec 8)}
    (hw : Words S.size.toNat w) (hinp : p.inp = (Item.sdr w).encode ++ rest) :
    ∃ p', xsvfRun tdo p = .ok p' ∧ Played start S σ (.sdr w) rest p' := by
  obtain ⟨x, hread, hlen, -, hbits⟩ := hready.read hw p.info.lvTdi rest
  obtain ⟨e, p', hshift, hrest, hready', htold, herror⟩ := @shiftDr_played start tdo S σ _
    (hready.reads 3 x p.info.lvTdoExpected hready.expected rest) hsees hrunning.1 hlen
  rw [hbits] at htold
  refine ⟨p'.noting e, ?_, hrest, hready', htold, herror.imp_right fun h => ⟨trivial, h⟩⟩
  rw [run_command hrunning hinp]
  change (readVal p.info.lvTdi p.info.sShiftLengthBytes (w ++ rest) >>= _) = _
  rw [hread]
  change (Player.shiftDr tdo _ >>= _) = _
  rw [hshift]
  rfl

theorem sdrTdo_played (hready : Ready S p) (hsees : Sees start p.port σ) (hrunning : p.Running)
    {tdi expected : List (BitVec 8)} (hw : Words S.size.toNat tdi) (hw' : Words S.size.toNat expected)
    (hinp : p.inp = (Item.sdrTdo tdi expected).encode ++ rest) :
    ∃ p', xsvfRun tdo p = .ok p' ∧ Played start S σ (.sdrTdo tdi expected) rest p' := by
  have hinp' : p.inp = 9 :: (tdi ++ (expected ++ rest)) := by
    rw [hinp, Item.encode, List.cons_append, List.append_assoc]
  obtain ⟨x, y, hread, hy, hlen, hbits⟩ := readTdiTdo_ok
    (hready.reads 9 p.info.lvTdi p.info.lvTdoExpected hready.expected (tdi ++ (expected ++ rest))) true hw
      (fun _ => hw') rfl
  obtain ⟨e, p', hshift, hrest, hready', htold, herror⟩ := @shiftDr_played start tdo S σ _
    (hready.reads 9 x y hy rest) hsees hrunning.1 hlen
  rw [hbits] at htold
  refine ⟨p'.noting e, ?_, hrest, hready', htold, herror.imp_right fun h => ⟨trivial, h⟩⟩
  rw [run_command hrunning hinp']
  change (Player.readTdiTdo _ true >>= _) = _
  rw [hread]
  change (Player.shiftDr tdo _ >>= _) = _
  rw [hshift]
  rfl

theorem Part.endState_ok (hready : Ready S p) (k : Part) : EndState (k.endState S) := by
  have hend := hready.ends.2
  rw [hready.endDR.1] at hend
  cases k with
  | last => exact hend
  | _ => exact .inr (.inl rfl)

theorem part_played (hready : Ready S p) (hsees : Sees start p.port σ) (hrunning : p.Running) {tdi : List (BitVec 8)}
    (expected : List (BitVec 8)) (k : Part) (compared : Bool) (hw : Words S.size.toNat tdi)
    (hw' : compared = true → Words S.size.toNat expected)
    (hinp : p.inp = BitVec.ofNat 8 ((if compared then 15 else 12) + k.code) ::
      (tdi ++ ((if compared then expected else []) ++ rest))) :
    ∃ p', xsvfRun tdo p = .ok p' ∧ p'.inp = rest ∧ Ready S p' ∧
      Sees start p'.port (σ.shift .data (bitsOf S.size.toNat tdi) (k.endState S) 0) ∧
      (p'.info.iErrorCode = .none ∨ compared = true ∧ p'.info.iErrorCode = .tdoMismatch) := by
  generalize hcommand : BitVec.ofNat 8 ((if compared then 15 else 12) + k.code) = c at hinp
  obtain ⟨x, y, hread, hy, hlen, hbits⟩ := readTdiTdo_ok
    (hready.reads c p.info.lvTdi p.info.lvTdoExpected hready.expected
      (tdi ++ ((if compared then expected else []) ++ rest))) compared hw hw' rfl
  have hend : (if c.toNat = (if compared then 17 else 14) then p.info.ucEndDR else 4) = k.endState S := by
    rw [← hcommand, hready.endDR.1]
    cases compared <;> cases k <;> rfl
  have hsize := hready.size
  obtain ⟨e, p', hshift, hrest, hready', htold, herror⟩ := @scan_played start tdo S σ _
    ⟨.data, p.info.lShiftLengthBits, x, if compared then some y else none, none, k.endState S, 0⟩
    (if compared then some p.info.lvTdoCaptured else none) (hready.reads c x y hy rest) hsees hrunning.1
    (Part.endState_ok hready k) rfl
    ⟨by dsimp only; rw [hsize]; omega, fun e he => by
      cases compared with
      | false => cases he
      | true =>
        cases he
        exact ⟨rfl, hy⟩⟩ (by dsimp only; rw [hsize, hlen]) 0
  dsimp only at htold herror
  rw [hsize, hbits] at htold
  refine ⟨p'.noting e, ?_, hrest, hready', htold, herror.imp_right fun h => ⟨?_, h.2⟩⟩
  · have hrun : pfDoCmd tdo { p with
        info := { p.info with ucCommand := c }, inp := tdi ++ ((if compared then expected else []) ++ rest) } c.toNat =
        doBCE tdo { p with
          info := { p.info with ucCommand := c }, inp := tdi ++ ((if compared then expected else []) ++ rest) } compared
          (if compared then 17 else 14) := by
      rw [← hcommand]
      cases compared <;> cases k <;> rfl
    rw [run_command hrunning hinp, hrun, doBCE]
    dsimp only
    rw [hend]
    change (Player.readTdiTdo _ compared >>= _) = _
    rw [hread]
    change (Player.shift tdo _ _ _ _ >>= _) = _
    rw [hshift]
    rfl
  · cases compared with
    | false => exact absurd rfl h.1
    | true => rfl

theorem sir_played (hready : Ready S p) (hsees : Sees start p.port σ) (hrunning : p.Running) {n : BitVec 8}
    {w : List (BitVec 8)} (hw : Words n.toNat w) (hinp : p.inp = (Item.sir n w).encode ++ rest) :
    ∃ p', xsvfRun tdo p = .ok p' ∧ Played start S σ (.sir n w) rest p' := by
  have hwide : (n.setWidth 32).toNat = n.toNat := by
    have hn := n.isLt
    rw [BitVec.toNat_setWidth]
    omega
  rw [← hwide] at hw
  obtain ⟨p', hrun, hrest, hready', htold, hnone⟩ := @shiftIr_played start tdo S σ
    { p with info := { p.info with ucCommand := 2 }, inp := w ++ rest } rest
    (hready.reads 2 p.info.lvTdi p.info.lvTdoExpected hready.expected _) hsees hrunning.1 (n.setWidth 32) w hw rfl
  rw [hwide] at htold
  exact ⟨p', (run_command hrunning hinp).trans hrun, hrest, hready', htold, .inl hnone⟩

theorem sir2_played (hready : Ready S p) (hsees : Sees start p.port σ) (hrunning : p.Running) {n : BitVec 16}
    {w : List (BitVec 8)} (hw : Words n.toNat w) (hinp : p.inp = (Item.sir2 n w).encode ++ rest) :
    ∃ p', xsvfRun tdo p = .ok p' ∧ Played start S σ (.sir2 n w) rest p' := by
  have hinp' : p.inp = 21 :: (beBytes 2 n.toNat ++ (w ++ rest)) := by
    rw [hinp, Item.encode, List.cons_append, List.append_assoc]
  have hn := n.isLt
  obtain ⟨x, hread, hvalue⟩ := readVal_value (n := 2) p.info.lvTdi (k := 2)
    (by decide) rfl n.toNat (by omega) (w ++ rest)
  have hwide : (BitVec.ofNat 32 n.toNat).toNat = n.toNat := by
    rw [BitVec.toNat_ofNat]
    omega
  rw [← hwide] at hw
  obtain ⟨p', hrun, hrest, hready', htold, hnone⟩ := @shiftIr_played start tdo S σ
    { p with info := { p.info with ucCommand := 21, lvTdi := x }, inp := w ++ rest } rest
    (hready.reads 21 x p.info.lvTdoExpected hready.expected _) hsees hrunning.1 (BitVec.ofNat 32 n.toNat) w hw rfl
  rw [hwide] at htold
  refine ⟨p', ?_, hrest, hready', htold, .inl hnone⟩
  rw [run_command hrunning hinp']
  change (readVal p.info.lvTdi 2 _ >>= _) = _
  rw [hread]
  change shiftIr tdo _ (value x) = _
  rw [hvalue]
  exact hrun

/-- The commands that only read a number. -/
theorem number_read (tdo : List Event → Bool) (hrunning : p.Running) {c : BitVec 8} (usec : BitVec 32)
    (hinp : p.inp = c :: (beBytes 4 usec.toNat ++ rest)) :
    ∃ x, readVal p.info.lvTdi 4 (beBytes 4 usec.toNat ++ rest) = .ok (x, rest) ∧ value x = usec ∧
      xsvfRun tdo p = pfDoCmd tdo { p with info := { p.info with ucCommand := c }, inp := beBytes 4 usec.toNat ++ rest }
      c.toNat := by
  have husec := usec.isLt
  obtain ⟨x, hread, hvalue⟩ := readVal_value (n := 4) p.info.lvTdi (k := 4) (Nat.le_refl 4) rfl usec.toNat
    (by omega) rest
  exact ⟨x, hread, hvalue.trans (by rw [BitVec.ofNat_toNat, BitVec.setWidth_eq]), run_command hrunning hinp⟩

theorem runTest_played (hready : Ready S p) (hsees : Sees start p.port σ) (hrunning : p.Running) {usec : BitVec 32}
    (hinp : p.inp = (Item.runTest usec).encode ++ rest) :
    ∃ p', xsvfRun tdo p = .ok p' ∧ Played start S σ (.runTest usec) rest p' := by
  obtain ⟨x, hread, hvalue, hrun⟩ := number_read tdo hrunning usec hinp
  refine ⟨{ p with info := { p.info with ucCommand := 4, lvTdi := x, lRunTestTime := usec }, inp := rest }, ?_, rfl,
    ⟨hready.size, hready.bytes, hready.small, rfl, hready.endIR, hready.endDR, hready.maxRepeat, hready.expected,
      hready.complete⟩, hsees, .inl hrunning.1⟩
  rw [hrun]
  change (readVal p.info.lvTdi 4 _ >>= _) = _
  rw [hread, ← hvalue]
  rfl

theorem sdrSize_played (hready : Ready S p) (hsees : Sees start p.port σ) (hrunning : p.Running) {n : BitVec 32}
    (hn : n.toNat ≤ 8 * maxLen) (hinp : p.inp = (Item.sdrSize n).encode ++ rest) :
    ∃ p', xsvfRun tdo p = .ok p' ∧ Played start S σ (.sdrSize n) rest p' := by
  obtain ⟨x, hread, hvalue, hrun⟩ := number_read tdo hrunning n hinp
  have hfits : ¬overflows (xsvfGetAsNumBytes n) := by
    unfold maxLen at hn
    have hbytes : (xsvfGetAsNumBytes n).toNat = _ := numBytes_toNat (by omega)
    rw [overflows, BitVec.toInt_eq_toNat_of_lt (by omega), maxLen]
    omega
  refine ⟨{ p with
      info := { p.info with
        ucCommand := 8, lvTdi := x, lShiftLengthBits := n, sShiftLengthBytes := xsvfGetAsNumBytes n }
      inp := rest }, ?_, rfl,
    ⟨rfl, rfl, hn, hready.runTest, hready.endIR, hready.endDR, hready.maxRepeat, hready.expected, hready.complete⟩,
    hsees, .inl hrunning.1⟩
  rw [hrun]
  change (readVal p.info.lvTdi 4 _ >>= _) = _
  rw [hread]
  change Except.ok (if overflows (xsvfGetAsNumBytes (value x)) then _ else _) = _
  rw [hvalue, if_neg hfits]

theorem tdoMask_played (hready : Ready S p) (hsees : Sees start p.port σ) (hrunning : p.Running) {w : List (BitVec 8)}
    (hw : Words S.size.toNat w) (hinp : p.inp = (Item.tdoMask w).encode ++ rest) :
    ∃ p', xsvfRun tdo p = .ok p' ∧ Played start S σ (.tdoMask w) rest p' := by
  obtain ⟨x, hread, -⟩ := hready.read hw p.info.lvTdoMask rest
  refine ⟨{ p with info := { p.info with ucCommand := 1, lvTdoMask := x }, inp := rest }, ?_, rfl,
    ⟨hready.size, hready.bytes, hready.small, hready.runTest, hready.endIR, hready.endDR, hready.maxRepeat,
      hready.expected, hready.complete⟩, hsees, .inl hrunning.1⟩
  rw [run_command hrunning hinp]
  change (readVal p.info.lvTdoMask p.info.sShiftLengthBytes (w ++ rest) >>= _) = _
  rw [hread]
  rfl

/-- A move to a stable state. -/
theorem goto_played (hsees : Sees start p.port σ) {t : ℕ} (ht : t ∈ [0, 1, 6, 13]) :
    ∃ io, p.goto t = .ok (.none, { p with info := { p.info with ucTapState := t }, io := io }) ∧
      Sees start (t, io) (σ.goto t) := by
  have htarget : t ∈ targets := by
    simp only [List.mem_cons, List.not_mem_nil, or_false] at ht
    obtain rfl | rfl | rfl | rfl := ht
    all_goals decide
  obtain ⟨hcode, hnot⟩ := targets_not_refused (s := p.info.ucTapState) htarget
  obtain ⟨io, hgoto, -⟩ : ∃ io, xsvfGotoTapState p.info.ucTapState t p.io = .ok (t, io, .none) ∧ Tracks start t io :=
    Tracks.goto_not_refused hsees.tracks hcode hnot
  refine ⟨io, ?_, hsees.goto htarget hgoto⟩
  rw [Player.goto, hgoto]
  rfl

theorem gotoUnless_played (hsees : Sees start p.port σ) {t : ℕ} (ht : t ∈ [0, 1, 6, 13]) :
    ∃ io, p.gotoUnless t = .ok { p with info := { p.info with ucTapState := t }, io := io } ∧
      Sees start (t, io) (σ.gotoUnless t) := by
  have hstate : p.info.ucTapState = σ.state := hsees.state
  rw [Player.gotoUnless, Sight.gotoUnless, hstate]
  by_cases hthere : σ.state = t
  · rw [if_neg (not_not.mpr hthere), if_neg (not_not.mpr hthere), ← hthere, ← hstate]
    exact ⟨p.io, rfl, hsees⟩
  · rw [if_pos hthere, if_pos hthere]
    obtain ⟨io, hgoto, hsees'⟩ := goto_played hsees ht
    exact ⟨io, by rw [hgoto]; rfl, hsees'⟩

theorem state_played (hready : Ready S p) (hsees : Sees start p.port σ) (hrunning : p.Running) {t : BitVec 8}
    (ht : t.toNat ∈ [0, 1, 6, 13]) (hinp : p.inp = (Item.state t).encode ++ rest) :
    ∃ p', xsvfRun tdo p = .ok p' ∧ Played start S σ (.state t) rest p' := by
  let q : Player := { p with info := { p.info with ucCommand := 18 }, inp := rest }
  obtain ⟨io, hgoto, htold⟩ := @goto_played start σ q hsees _ ht
  refine ⟨{ p with info := { p.info with ucCommand := 18, ucTapState := t.toNat }, io := io, inp := rest }, ?_, rfl,
    ⟨hready.size, hready.bytes, hready.small, hready.runTest, hready.endIR, hready.endDR, hready.maxRepeat,
      hready.expected, hready.complete⟩, htold, .inl hrunning.1⟩
  rw [run_command hrunning hinp]
  change (q.goto t.toNat >>= _) = _
  rw [hgoto]
  rfl

theorem endIr_played (hready : Ready S p) (hsees : Sees start p.port σ) (hrunning : p.Running) {pause : Bool}
    (hinp : p.inp = (Item.endIr pause).encode ++ rest) :
    ∃ p', xsvfRun tdo p = .ok p' ∧ Played start S σ (.endIr pause) rest p' := by
  refine ⟨{ p with info := { p.info with ucCommand := 19, ucEndIR := if pause then 13 else 1 }, inp := rest }, ?_, rfl,
    ⟨hready.size, hready.bytes, hready.small, hready.runTest, ⟨rfl, ?_⟩, hready.endDR, hready.maxRepeat,
      hready.expected, hready.complete⟩, hsees, .inl hrunning.1⟩
  · rw [run_command hrunning hinp]
    cases pause <;> rfl
  · cases pause <;> simp [Settings.after]

theorem endDr_played (hready : Ready S p) (hsees : Sees start p.port σ) (hrunning : p.Running) {pause : Bool}
    (hinp : p.inp = (Item.endDr pause).encode ++ rest) :
    ∃ p', xsvfRun tdo p = .ok p' ∧ Played start S σ (.endDr pause) rest p' := by
  refine ⟨{ p with info := { p.info with ucCommand := 20, ucEndDR := if pause then 6 else 1 }, inp := rest }, ?_, rfl,
    ⟨hready.size, hready.bytes, hready.small, hready.runTest, hready.endIR, ⟨rfl, ?_⟩, hready.maxRepeat,
      hready.expected, hready.complete⟩, hsees, .inl hrunning.1⟩
  · rw [run_command hrunning hinp]
    cases pause <;> rfl
  · cases pause <;> simp [Settings.after]

theorem commentLoop_text {text : List (BitVec 8)} (h : 0 ∉ text) : commentLoop (text ++ 0 :: rest) = .ok rest := by
  induction text with
  | nil => rfl
  | cons b text ih =>
    rw [List.mem_cons, not_or] at h
    rw [List.cons_append, commentLoop, if_pos (Ne.symm h.1), ih h.2]

theorem comment_played (hready : Ready S p) (hsees : Sees start p.port σ) (hrunning : p.Running)
    {text : List (BitVec 8)} (htext : 0 ∉ text) (hinp : p.inp = (Item.comment text).encode ++ rest) :
    ∃ p', xsvfRun tdo p = .ok p' ∧ Played start S σ (.comment text) rest p' := by
  have hinp' : p.inp = 22 :: (text ++ 0 :: rest) := by
    rw [hinp, Item.encode, List.cons_append, List.append_assoc]
    rfl
  refine ⟨{ p with info := { p.info with ucCommand := 22, iErrorCode := .none }, inp := rest }, ?_, rfl,
    ⟨hready.size, hready.bytes, hready.small, hready.runTest, hready.endIR, hready.endDR, hready.maxRepeat,
      hready.expected, hready.complete⟩, hsees, .inl rfl⟩
  rw [run_command hrunning hinp']
  change (commentLoop (text ++ 0 :: rest) >>= _) = _
  rw [commentLoop_text htext]
  rfl

theorem wait_played (hready : Ready S p) (hsees : Sees start p.port σ) (hrunning : p.Running) {s t : BitVec 8}
    {usec : BitVec 32} (hs : s.toNat ∈ [0, 1, 6, 13]) (ht : t.toNat ∈ [0, 1, 6, 13])
    (hinp : p.inp = (Item.wait s t usec).encode ++ rest) :
    ∃ p', xsvfRun tdo p = .ok p' ∧ Played start S σ (.wait s t usec) rest p' := by
  have husec := usec.isLt
  have hone : (1 : BitVec 16).toNat ≤ maxLen + 1 := by decide
  obtain ⟨x, hread, -, hx⟩ := readVal_bytes (n := 1) (w := [s]) p.info.lvTdi rfl hone
    ([t] ++ (beBytes 4 usec.toNat ++ rest))
  obtain ⟨y, hread', -, hy⟩ := readVal_bytes (n := 1) (w := [t]) x rfl hone (beBytes 4 usec.toNat ++ rest)
  obtain ⟨z, hread'', hvalue⟩ := readVal_value (n := 4) y (k := 4) (Nat.le_refl 4) rfl usec.toNat (by omega) rest
  rw [BitVec.ofNat_toNat, BitVec.setWidth_eq] at hvalue
  have hwait : x.val 0 = s := hx 0 Nat.one_pos
  have hend : y.val 0 = t := hy 0 Nat.one_pos
  obtain ⟨io, hgoto, htold⟩ := @gotoUnless_played start σ
    { p with info := { p.info with ucCommand := 23, lvTdi := z }, inp := rest } hsees _ hs
  obtain ⟨io', hgoto', htold'⟩ := @gotoUnless_played start (Sight.wait (σ.gotoUnless s.toNat) usec)
    { p with
      info := { p.info with ucCommand := 23, lvTdi := z, ucTapState := s.toNat }, io := waitTime usec io, inp := rest }
    htold.wait _ ht
  refine ⟨{ p with info := { p.info with ucCommand := 23, lvTdi := z, ucTapState := t.toNat }, io := io', inp := rest },
    ?_, rfl, ⟨hready.size, hready.bytes, hready.small, hready.runTest, hready.endIR, hready.endDR, hready.maxRepeat,
      hready.expected, hready.complete⟩, htold', .inl hrunning.1⟩
  rw [run_command hrunning hinp]
  change (readVal p.info.lvTdi 1 ([s] ++ ([t] ++ (beBytes 4 usec.toNat ++ rest))) >>= _) = _
  rw [hread, ok_bind]
  dsimp only
  rw [hread', ok_bind]
  dsimp only
  rw [hread'', ok_bind]
  dsimp only
  rw [hwait, hend, hvalue, hgoto, ok_bind]
  exact hgoto'

/-- Every command of a program is played. -/
theorem item_played (hready : Ready S p) (hsees : Sees start p.port σ) (hrunning : p.Running) {item : Item}
    (haccepts : S.Accepts item) (hinp : p.inp = item.encode ++ rest) :
    ∃ p', xsvfRun tdo p = .ok p' ∧ Played start S σ item rest p' := by
  cases item with
  | tdoMask w => exact tdoMask_played hready hsees hrunning haccepts hinp
  | sir n w => exact sir_played hready hsees hrunning haccepts hinp
  | sir2 n w => exact sir2_played hready hsees hrunning haccepts hinp
  | sdr w => exact sdr_played hready hsees hrunning haccepts hinp
  | runTest usec => exact runTest_played hready hsees hrunning hinp
  | sdrSize n => exact sdrSize_played hready hsees hrunning haccepts hinp
  | sdrTdo tdi tdo => exact sdrTdo_played hready hsees hrunning haccepts.1 haccepts.2 hinp
  | sdrPart k tdi =>
    obtain ⟨p', hrun, hrest, hready', htold, herror⟩ := part_played hready hsees hrunning [] k false haccepts
      (fun h => (by cases h)) hinp
    exact ⟨p', hrun, hrest, hready', htold, .inl (herror.resolve_right fun h => (by cases h.1))⟩
  | sdrTdoPart k tdi expected =>
    have hinp' : p.inp = BitVec.ofNat 8 (15 + k.code) :: (tdi ++ (expected ++ rest)) := by
      rw [hinp, Item.encode, List.cons_append, List.append_assoc]
    obtain ⟨p', hrun, hrest, hready', htold, herror⟩ := part_played hready hsees hrunning expected k true haccepts.1
      (fun _ => haccepts.2) hinp'
    exact ⟨p', hrun, hrest, hready', htold, herror.imp_right fun h => ⟨trivial, h.2⟩⟩
  | state t => exact state_played hready hsees hrunning haccepts hinp
  | endIr pause => exact endIr_played hready hsees hrunning hinp
  | endDr pause => exact endDr_played hready hsees hrunning hinp
  | comment text => exact comment_played hready hsees hrunning haccepts hinp
  | wait s t usec => exact wait_played hready hsees hrunning haccepts.1 haccepts.2 hinp

end Items

/-! ## Whole programs -/

section Programs
variable {start : Port Bool} {tdo : List Event → Bool} {S : Settings} {σ : Sight} {p p₀ : Player} {items : List Item}
  {rest : List (BitVec 8)}

/-- How a program ends after `m` of its commands: it is complete, or the last one of them has seen an answer that it did
not expect. -/
def Ended (items : List Item) (m : ℕ) (p : Player) : Prop :=
  p.info.iErrorCode = .none ∧ p.info.ucComplete = true ∧ m = items.length ∨
    p.info.iErrorCode = .tdoMismatch ∧ ∃ item ∈ (items.take m).getLast?, item.Compares

theorem play_stopped (hstopped : ¬p.Running) {fuel : ℕ} (hfuel : 0 < fuel) : play tdo fuel p = .ok p := by
  obtain ⟨fuel, rfl⟩ : ∃ f, fuel = f + 1 := Nat.exists_eq_succ_of_ne_zero (by omega)
  rw [play, if_neg hstopped]

theorem play_program {fuel : ℕ} (hready : Ready S p) (hsees : Sees start p.port σ) (hrunning : p.Running)
    (haccepts : AcceptsAll S items) (hinp : p.inp = items.flatMap Item.encode ++ 0 :: rest)
    (hfuel : items.length + 1 < fuel) :
    ∃ m p', play tdo fuel p = .ok p' ∧ Sees start p'.port (tellAll S σ (items.take m)) ∧ Ended items m p' := by
  induction items generalizing S σ p fuel with
  | nil =>
    obtain ⟨fuel, rfl⟩ : ∃ f, fuel = f + 1 := Nat.exists_eq_succ_of_ne_zero (by omega)
    refine ⟨0, { p with info := { p.info with ucCommand := 0, ucComplete := true }, inp := rest }, ?_, hsees,
      .inl ⟨hrunning.1, rfl, rfl⟩⟩
    rw [play, if_pos hrunning, run_command hrunning hinp]
    exact play_stopped (fun hrun => by cases hrun.2) (by simp only [List.length_nil] at hfuel; omega)
  | cons item items ih =>
    obtain ⟨fuel, rfl⟩ : ∃ f, fuel = f + 1 := Nat.exists_eq_succ_of_ne_zero (by omega)
    rw [List.length_cons] at hfuel
    rw [List.flatMap_cons, List.append_assoc] at hinp
    obtain ⟨p₁, hrun, hinp₁, hready₁, hsees₁, herror⟩ :=
      @item_played start tdo S σ p _ hready hsees hrunning item haccepts.1 hinp
    rw [play, if_pos hrunning, hrun]
    obtain hnone | ⟨hcompares, hmismatch⟩ := herror
    · obtain ⟨m, p', hplay, htold, hended⟩ := @ih _ _ p₁ fuel hready₁ hsees₁ ⟨hnone, hready₁.complete⟩ haccepts.2 hinp₁
        (by omega)
      refine ⟨m + 1, p', hplay, htold, ?_⟩
      obtain ⟨hnone', hcomplete, rfl⟩ | ⟨hmismatch, item', hlast, hcompares⟩ := hended
      · exact .inl ⟨hnone', hcomplete, rfl⟩
      · refine .inr ⟨hmismatch, item', ?_, hcompares⟩
        rw [List.take_succ_cons, List.getLast?_cons, hlast]
        rfl
    · refine ⟨1, p₁, play_stopped (fun hrunning₁ => ?_) (by omega), hsees₁, .inr ⟨hmismatch, item, rfl, hcompares⟩⟩
      have hnone := hmismatch.symm.trans hrunning₁.1
      cases hnone

theorem encode_length (item : Item) : 0 < item.encode.length := by
  cases item <;> simp [Item.encode]

theorem length_le_encode (items : List Item) : items.length ≤ (items.flatMap Item.encode).length := by
  induction items with
  | nil => exact Nat.le_refl 0
  | cons item items ih =>
    have hitem := encode_length item
    rw [List.flatMap_cons, List.length_append, List.length_cons]
    omega

/-- After `xsvfInitialize`. -/
def firstSettings : Settings := ⟨0, 0, 1, 1⟩

/-- The device after the reset of `xsvfInitialize`, whatever it was told before. -/
def afterReset (start : Port Bool) (io : Io) : Sight :=
  ⟨0, [], io.tdi, acts start (pulses 5 (xsvfTmsTransition true io)).events⟩

theorem initialize_ready (start : Port Bool) (hexpected : p₀.info.lvTdoExpected.len ≤ maxLen + 1) :
    ∃ p, xsvfInitialize p₀ = .ok p ∧ Ready firstSettings p ∧ Sees start p.port (afterReset start p₀.io) ∧ p.Running ∧
      p.inp = p₀.inp := by
  have hbytes : (0 : BitVec 16) = xsvfGetAsNumBytes 0 := by decide
  have hsmall : (0 : BitVec 32).toNat ≤ 8 * maxLen := by decide
  have hrest : 0 ∈ restStates := by decide
  exact ⟨_, rfl, ⟨rfl, hbytes, hsmall, rfl, ⟨rfl, .inl rfl⟩, ⟨rfl, .inl rfl⟩, rfl, hexpected, rfl⟩,
    ⟨tracks_reset p₀.io, rfl, hrest, fun r hr => (by cases hr), rfl, rfl⟩, ⟨rfl, rfl⟩, rfl⟩

/-- The fuel of `xsvfExecute` is enough for a program. -/
theorem program_fuel (hinp : p.inp = items.flatMap Item.encode ++ 0 :: rest) : items.length + 1 < p.inp.length + 2 := by
  have hle := length_le_encode items
  rw [hinp, List.length_append]
  omega

end Programs

end HtDrivers.Jtag
