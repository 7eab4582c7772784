import HtDrivers.Jtag.Shift
import HtDrivers.Lib.Checked

/-! Scans with the comparison of what comes back and with the retries (`xsvfShift`, `micro.c`), and the operations on
the port that they come down to. -/
namespace HtDrivers.Jtag
open HtDrivers.Lib.Tap HtDrivers.Lib.BigEndian HtDrivers.Lib.Checked
set_option autoImplicit false

/-! ## The code -/

/-- `XTAPSTATE_SHIFTDR` and `XTAPSTATE_SHIFTIR`. -/
def shiftState : Scan → ℕ
  | .data => 4
  | .instruction => 11

/-- What a scan is called with. -/
structure ShiftArgs where
  scan : Scan
  lNumBits : BitVec 32
  tdi : LenVal
  expected : Option LenVal
  mask : Option LenVal
  ucEndState : ℕ
  ucMaxRepeat : BitVec 8

structure ShiftState where
  ucTapState : ℕ
  captured : Option LenVal
  lRunTestTime : BitVec 32
  io : Io

def ShiftArgs.iExitShift (args : ShiftArgs) : Bool := shiftState args.scan ≠ args.ucEndState

/-- The comparison starts with the last byte of the expected word. -/
def ShiftArgs.iMismatch (args : ShiftArgs) (captured : Option LenVal) : Except Trap Bool :=
  match args.expected, captured with
  | none, _ => .ok false
  | some _, none => .error .fault
  | some expected, some captured =>
    if maxLen + 1 < expected.len then .error .fault else .ok !equalLenVal expected captured args.mask

/-- The wait in Run-Test/Idle. -/
def runTest (lRunTestTime : BitVec 32) (ucTapState : ℕ) (io : Io) : Except Trap (ℕ × Io) :=
  if lRunTestTime ≠ 0 then do
    let (ucTapState, io, _) ← xsvfGotoTapState ucTapState 1 io
    pure (ucTapState, waitTime lRunTestTime io)
  else pure (ucTapState, io)

/-- On the way to a retry the time grows by a quarter. -/
def longer (lRunTestTime : BitVec 32) : BitVec 32 := lRunTestTime + lRunTestTime.sshiftRight 2

section Device
variable (tdo : List Event → Bool) (args : ShiftArgs)

/-- One turn of the loop, where `retry` tells whether there may be another one. -/
def shiftTurn (retry : Bool) (s : ShiftState) : Except Trap (Bool × ShiftState) := do
  let (ucTapState, io, _) ← xsvfGotoTapState s.ucTapState (shiftState args.scan) s.io
  let (captured, io) ← xsvfShiftOnly tdo args.lNumBits.toNat args.tdi s.captured args.iExitShift io
  let iMismatch ← args.iMismatch captured
  if args.iExitShift then
    if iMismatch ∧ s.lRunTestTime ≠ 0 ∧ retry then
      let (ucTapState, io, _) ← xsvfGotoTapState (ucTapState + 1) 6 io
      let (ucTapState, io, _) ← xsvfGotoTapState ucTapState 4 io
      let (ucTapState, io) ← runTest (longer s.lRunTestTime) ucTapState io
      pure (iMismatch, ⟨ucTapState, captured, longer s.lRunTestTime, io⟩)
    else
      let (ucTapState, io, _) ← xsvfGotoTapState (ucTapState + 1) args.ucEndState io
      let (ucTapState, io) ← runTest s.lRunTestTime ucTapState io
      pure (iMismatch, ⟨ucTapState, captured, s.lRunTestTime, io⟩)
  else pure (iMismatch, ⟨ucTapState, captured, s.lRunTestTime, io⟩)

/-- The loop, with as many retries as are left. -/
def shiftLoop : ℕ → ShiftState → Except Trap (Bool × ShiftState)
  | 0, s => shiftTurn tdo args false s
  | left + 1, s => do
    let (iMismatch, s) ← shiftTurn tdo args true s
    if iMismatch then shiftLoop left s else pure (false, s)

/-- The error for a mismatch: the counter of the retries is one more than `ucMaxRepeat` then, if it has not wrapped. -/
def ShiftArgs.iErrorCode : XsvfError :=
  if args.ucMaxRepeat ≠ 0 ∧ args.ucMaxRepeat < args.ucMaxRepeat + 1 then .maxRetries else .tdoMismatch

def xsvfShift (s : ShiftState) : Except Trap (XsvfError × ShiftState) :=
  if args.lNumBits = 0 then do
    let (ucTapState, io) ← runTest s.lRunTestTime s.ucTapState s.io
    pure (.none, { s with ucTapState := ucTapState, io := io })
  else do
    let (iMismatch, s) ← shiftLoop tdo args args.ucMaxRepeat.toNat s
    pure (if iMismatch then args.iErrorCode else .none, s)

end Device

/-! ## Operations on the port -/

/-- What the player does with the port. -/
inductive Op
  | goto (ucTargetState : ℕ)
  | scan (r : Scan) (exit : Bool) (n : ℕ) (tdi : LenVal)
  | idle (usec : BitVec 32)
  | wait (usec : BitVec 32)

/-- The state that the player has noted, and the pins. -/
def Op.run (x : ℕ × Io) : Op → Except Trap (ℕ × Io)
  | .goto ucTargetState => do
    let (ucTapState, io, _) ← xsvfGotoTapState x.1 ucTargetState x.2
    pure (ucTapState, io)
  | .scan r exit n tdi => do
    let (ucTapState, io, _) ← xsvfGotoTapState x.1 (shiftState r) x.2
    if n ≤ 8 * tdi.len then pure (if exit then ucTapState + 1 else ucTapState, afterBits exit n tdi io n)
    else .error .fault
  | .idle usec => do
    let (ucTapState, io, _) ← xsvfGotoTapState x.1 1 x.2
    pure (ucTapState, waitTime usec io)
  | .wait usec => pure (x.1, waitTime usec x.2)

/-- A word that is shifted has bits. -/
def Op.Valid : Op → Prop
  | .scan _ _ n _ => 0 < n
  | _ => True

/-- What is done by all commands but `XWAIT`. -/
def Op.Plain : Op → Prop
  | .scan _ _ n _ => 0 < n
  | .wait _ => False
  | _ => True

theorem Op.Plain.valid {op : Op} (h : op.Plain) : op.Valid := by
  cases op with
  | scan r exit n tdi => exact h
  | _ => trivial

def runOps (ops : List Op) (x : ℕ × Io) : Except Trap (ℕ × Io) := ops.foldlM Op.run x

def idleOps (usec : BitVec 32) : List Op := if usec ≠ 0 then [.idle usec] else []

/-- The operations of one turn. -/
def turnOps (args : ShiftArgs) (retry iMismatch : Bool) (lRunTestTime : BitVec 32) : List Op :=
  .scan args.scan args.iExitShift args.lNumBits.toNat args.tdi ::
    if args.iExitShift then
      if iMismatch ∧ lRunTestTime ≠ 0 ∧ retry then .goto 6 :: .goto 4 :: idleOps (longer lRunTestTime)
      else .goto args.ucEndState :: idleOps lRunTestTime
    else []

/-- The time that a turn leaves for the next one. -/
def turnTime (args : ShiftArgs) (lRunTestTime : BitVec 32) : BitVec 32 :=
  if args.iExitShift ∧ lRunTestTime ≠ 0 then longer lRunTestTime else lRunTestTime

/-- The operations of `k` turns that fail. -/
def failedOps (args : ShiftArgs) : ℕ → BitVec 32 → List Op
  | 0, _ => []
  | k + 1, lRunTestTime => turnOps args true true lRunTestTime ++ failedOps args k (turnTime args lRunTestTime)

/-- The operations of a scan with `k` turns that fail and one that tells the outcome. -/
def scanOps (args : ShiftArgs) (k : ℕ) (iMismatch : Bool) (lRunTestTime : BitVec 32) : List Op :=
  if args.lNumBits = 0 then idleOps lRunTestTime
  else failedOps args k lRunTestTime ++ turnOps args false iMismatch ((turnTime args)^[k] lRunTestTime)

/-- Whether the device answers to a scan from these pins what is expected, in the bits of the mask. -/
def Answered (tdo : List Event → Bool) (args : ShiftArgs) (io : Io) : Prop :=
  ∀ e ∈ args.expected, ∀ p < 8 * e.len, (∀ m ∈ args.mask, bitAt m.val e.len p = true) →
    e.bit p = (decide (p < args.lNumBits.toNat) &&
      readBit tdo args.iExitShift args.lNumBits.toNat args.tdi io p)

/-- The words of a scan have the bytes that its bits need. -/
structure Aligned (args : ShiftArgs) : Prop where
  tdi : args.tdi.len = (args.lNumBits.toNat + 7) / 8
  expected : ∀ e ∈ args.expected, e.len = args.tdi.len

section Goto
variable {start : Port Bool} {io io' : Io} {s s' t : ℕ} {e : XsvfError} {r : Scan}

theorem shiftState_not_refused : ¬Refused s (shiftState r) := by
  cases r <;> simp [Refused, shiftState]

/-- Whatever the target is, a move that ends keeps track of the device. -/
theorem Tracks.goto_ok (h : Tracks start s io) (hgoto : xsvfGotoTapState s t io = .ok (s', io', e)) :
    t < 16 ∧ Tracks start s' io' ∧ (Refused s t → s' = s ∧ io' = io ∧ e = .illegalState) ∧
      (¬Refused s t → s' = t ∧ e = .none) := by
  by_cases ht : t < 16
  · obtain ⟨s₁, io₁, e₁, hgoto₁, hspec⟩ := h.goto ht
    cases hgoto₁.symm.trans hgoto
    exact ⟨ht, hspec⟩
  · rw [xsvfGotoTapState_hangs h.code (by omega)] at hgoto
    cases hgoto

theorem Tracks.goto_not_refused (h : Tracks start s io) (ht : t < 16) (hnot : ¬Refused s t) :
    ∃ io', xsvfGotoTapState s t io = .ok (t, io', .none) ∧ Tracks start t io' := by
  obtain ⟨s₁, io₁, e₁, hgoto, htracks, -, hmoved⟩ := h.goto ht
  obtain ⟨rfl, rfl⟩ := hmoved hnot
  exact ⟨io₁, hgoto, htracks⟩

theorem Tracks.goto_shift (h : Tracks start s io) (r : Scan) :
    ∃ io', xsvfGotoTapState s (shiftState r) io = .ok (shiftState r, io', .none) ∧ Tracks start (shiftState r) io' ∧
      io'.tms = false := by
  have hcode : shiftState r < 16 := by cases r <;> decide
  obtain ⟨io', hgoto, htracks⟩ := h.goto_not_refused hcode shiftState_not_refused
  refine ⟨io', hgoto, htracks, htracks.shift ?_⟩
  cases r with
  | data => exact .inl rfl
  | instruction => exact .inr rfl

end Goto

/-! ## The port below a shift -/

section Port
variable {start : Port Bool} {io : Io} {exit : Bool} {n q : ℕ} {tdi : LenVal} {r : Scan}

/-- What a word does to the port: its bits follow those that were shifted before. -/
theorem afterBits_port (hstate : (portAt start io.events).state = .shift r) (hn : 0 < n) (hq : q ≤ n) :
    portAt start (afterBits exit n tdi io q).events =
      ⟨if exit = true ∧ q = n then .exit1 r else .shift r,
        Function.update (portAt start io.events).words r
          ((portAt start io.events).words r ++ (List.range q).map tdi.bit),
        (portAt start io.events).updates⟩ := by
  induction q with
  | zero =>
    have hzero : ¬(exit = true ∧ 0 = n) := by omega
    rw [if_neg hzero, List.range_zero, List.map_nil, List.append_nil, Function.update_eq_self, ← hstate]
    rfl
  | succ q ih =>
    have hnot : ¬(exit = true ∧ q = n) := by omega
    have hclock : ∀ (words : Scan → List Bool) (updates : Scan → List (List Bool)) (c : Clock Bool),
        (⟨.shift r, words, updates⟩ : Port Bool).clock c =
          ⟨if c.tms then .exit1 r else .shift r, Function.update words r (words r ++ [c.bit]), updates⟩ := by
      intro words updates c
      cases hc : c.tms <;> simp [Port.clock, Port.shifted, Port.updated, TapState.next, hc]
    rw [afterBits, portAt_clock, ih (by omega), if_neg hnot, hclock, Function.update_self, Function.update_idem,
      List.append_assoc, List.range_succ, List.map_append]
    simp [shiftClock]

theorem Tracks.shifted (h : Tracks start (shiftState r) io) (exit : Bool) (tdi : LenVal) (hn : 0 < n) :
    Tracks start (if exit then shiftState r + 1 else shiftState r) (afterBits exit n tdi io n) := by
  have hstate : (portAt start io.events).state = .shift r := by
    rw [h.state]
    cases r <;> rfl
  have hport : portAt start (afterBits exit n tdi io n).events = _ := afterBits_port hstate hn (Nat.le_refl n)
  have hleft : exit = false → (afterBits exit n tdi io n).tms = false := by
    intro hexit
    obtain ⟨q, rfl⟩ : ∃ q, n = q + 1 := Nat.exists_eq_succ_of_ne_zero (by omega)
    simp [afterBits, hexit]
  cases exit with
  | true =>
    refine ⟨by cases r <;> decide, ?_, fun hshift => ?_⟩
    · rw [hport]
      cases r <;> simp [shiftState, tapState]
    · cases r <;> simp [shiftState] at hshift
  | false =>
    refine ⟨by cases r <;> decide, ?_, fun _ => hleft rfl⟩
    rw [hport]
    cases r <;> simp [shiftState, tapState]

theorem Tracks.op {op : Op} {x y : ℕ × Io} (h : Tracks start x.1 x.2) (hvalid : op.Valid) (hrun : op.run x = .ok y) :
    Tracks start y.1 y.2 := by
  cases op with
  | goto t =>
    obtain ⟨⟨s₁, io₁, e₁⟩, hgoto, hpure⟩ := bind_eq_ok.mp hrun
    cases hpure
    exact (h.goto_ok hgoto).2.1
  | scan r exit n tdi =>
    obtain ⟨io₁, hgoto, htracks, -⟩ := h.goto_shift r
    rw [Op.run, bind_eq_ok] at hrun
    obtain ⟨x, hx, hrun⟩ := hrun
    cases hgoto.symm.trans hx
    dsimp only at hrun
    split at hrun
    · cases hrun
      exact htracks.shifted exit tdi hvalid
    · cases hrun
  | idle usec =>
    obtain ⟨⟨s₁, io₁, e₁⟩, hgoto, hpure⟩ := bind_eq_ok.mp hrun
    cases hpure
    exact (h.goto_ok hgoto).2.1.wait
  | wait usec =>
    cases hrun
    exact h.wait

end Port

/-! ## The code in operations -/

section Turn
variable {start : Port Bool} {tdo : List Event → Bool} {args : ShiftArgs} {s s' : ShiftState} {retry b : Bool}
  {usec : BitVec 32} {x y : ℕ × Io} {ops : List Op}

theorem runOps_append (ops ops' : List Op) (x : ℕ × Io) : runOps (ops ++ ops') x = runOps ops x >>= runOps ops' :=
  List.foldlM_append

theorem runOps_cons (op : Op) (ops : List Op) (x : ℕ × Io) : runOps (op :: ops) x = op.run x >>= runOps ops :=
  List.foldlM_cons

theorem Tracks.runOps (h : Tracks start x.1 x.2) (hvalid : ∀ op ∈ ops, op.Valid) (hrun : runOps ops x = .ok y) :
    Tracks start y.1 y.2 :=
  foldlM_keeps (I := fun x => Tracks start x.1 x.2) (fun op hop _ _ hx hstep => hx.op (hvalid op hop) hstep) h hrun

theorem idleOps_plain : ∀ op ∈ idleOps usec, op.Plain := by
  intro op hop
  rw [idleOps] at hop
  split at hop
  · obtain rfl := List.mem_singleton.mp hop
    trivial
  · cases hop

theorem turnOps_plain (hn : 0 < args.lNumBits.toNat) : ∀ op ∈ turnOps args retry b usec, op.Plain := by
  rw [turnOps]
  refine List.forall_mem_cons.mpr ⟨hn, ?_⟩
  split
  · split
    · exact List.forall_mem_cons.mpr ⟨trivial, List.forall_mem_cons.mpr ⟨trivial, idleOps_plain⟩⟩
    · exact List.forall_mem_cons.mpr ⟨trivial, idleOps_plain⟩
  · intro op hop
    cases hop

theorem failedOps_plain (hn : 0 < args.lNumBits.toNat) (k : ℕ) (usec : BitVec 32) :
    ∀ op ∈ failedOps args k usec, op.Plain := by
  induction k generalizing usec with
  | zero =>
    intro op hop
    cases hop
  | succ k ih => exact List.forall_mem_append.mpr ⟨turnOps_plain hn, ih _⟩

theorem scanOps_plain (k : ℕ) : ∀ op ∈ scanOps args k b usec, op.Plain := by
  rw [scanOps]
  split
  · exact idleOps_plain
  · rename_i hbits
    have hn : 0 < args.lNumBits.toNat := BitVec.toNat_pos_of_ne_zero hbits
    exact List.forall_mem_append.mpr ⟨failedOps_plain hn k usec, turnOps_plain hn⟩

theorem turnOps_match (args : ShiftArgs) (usec : BitVec 32) :
    turnOps args retry false usec = turnOps args false false usec := by
  simp [turnOps]

theorem runOps_goto {s s' t : ℕ} {io io' : Io} {e : XsvfError} (hgoto : xsvfGotoTapState s t io = .ok (s', io', e))
    (ops : List Op) : runOps (.goto t :: ops) (s, io) = runOps ops (s', io') := by
  rw [runOps_cons, Op.run, hgoto]
  rfl

theorem runTest_eq (usec : BitVec 32) (ucTapState : ℕ) (io : Io) :
    runTest usec ucTapState io = runOps (idleOps usec) (ucTapState, io) := by
  rw [runTest, idleOps]
  split
  · exact (bind_pure _).symm
  · rfl

/-- What is compared are the answers. -/
theorem iMismatch_answered {captured : Option LenVal} {io : Io} (haligned : Aligned args)
    (hcaptured : ∀ c ∈ captured, c.len = args.tdi.len ∧ ∀ p, 8 * (p / 8) < args.lNumBits.toNat →
      c.bit p = (decide (p < args.lNumBits.toNat) && readBit tdo args.iExitShift args.lNumBits.toNat args.tdi io p))
    (h : args.iMismatch captured = .ok b) : Answered tdo args io ↔ b = false := by
  unfold ShiftArgs.iMismatch at h
  unfold Answered
  split at h
  · rename_i hnone
    cases h
    simp [hnone]
  · cases h
  · rename_i e c hexpected
    split at h
    · cases h
    cases h
    obtain ⟨hlen, hbits⟩ := hcaptured c rfl
    have helen := haligned.expected e hexpected
    have htdi := haligned.tdi
    rw [Bool.not_eq_false', equalLenVal_bits, hexpected]
    simp only [Option.mem_def, Option.some.injEq, forall_eq']
    apply forall_congr'
    intro p
    apply forall_congr'
    intro hp
    rw [← hbits p (by omega), LenVal.bit, LenVal.bit, hlen, helen]

/-- A turn of the loop: its operations, the time that it leaves, and that a match is an answer that was expected. -/
theorem shiftTurn_spec (h : Tracks start s.ucTapState s.io) (hturn : shiftTurn tdo args retry s = .ok (b, s')) :
    runOps (turnOps args retry b s.lRunTestTime) (s.ucTapState, s.io) = .ok (s'.ucTapState, s'.io) ∧
      s'.lRunTestTime = (if b ∧ retry then turnTime args s.lRunTestTime else s.lRunTestTime) ∧
      s'.captured.isSome = s.captured.isSome ∧
      ∃ io, runOps [.goto (shiftState args.scan)] (s.ucTapState, s.io) = .ok (shiftState args.scan, io) ∧
        (Aligned args → (Answered tdo args io ↔ b = false)) := by
  obtain ⟨io₁, hgoto, htracks, htms⟩ := h.goto_shift args.scan
  rw [shiftTurn, bind_eq_ok] at hturn
  obtain ⟨x, hx, hturn⟩ := hturn
  cases hgoto.symm.trans hx
  dsimp only at hturn
  have hroom : args.lNumBits.toNat ≤ 8 * args.tdi.len := by
    by_contra hshort
    rw [xsvfShiftOnly_fault _ (by omega)] at hturn
    cases hturn
  obtain ⟨captured, hshift, hsome, hcaptured⟩ :=
    @xsvfShiftOnly_spec tdo args.tdi args.iExitShift io₁ args.lNumBits.toNat s.captured htms hroom
  obtain ⟨y, hy, hturn⟩ := bind_eq_ok.mp hturn
  cases hshift.symm.trans hy
  obtain ⟨iMismatch, hcompare, hturn⟩ := bind_eq_ok.mp hturn
  have hscan : (Op.scan args.scan args.iExitShift args.lNumBits.toNat args.tdi).run (s.ucTapState, s.io) =
      .ok (if args.iExitShift then shiftState args.scan + 1 else shiftState args.scan,
        afterBits args.iExitShift args.lNumBits.toNat args.tdi io₁ args.lNumBits.toNat) := by
    rw [Op.run, hgoto]
    exact if_pos hroom
  have hanswer : ∃ io, runOps [.goto (shiftState args.scan)] (s.ucTapState, s.io) = .ok (shiftState args.scan, io) ∧
      (Aligned args → (Answered tdo args io ↔ iMismatch = false)) := by
    exact ⟨io₁, runOps_goto hgoto [], fun haligned => iMismatch_answered haligned hcaptured hcompare⟩
  rw [turnOps, runOps_cons, hscan, turnTime]
  change runOps _ _ = _ ∧ _
  split at hturn
  · rename_i hexit
    split at hturn
    · rename_i hretry
      obtain ⟨hmismatch, htime, hretry⟩ := hretry
      obtain ⟨⟨s₂, io₂, e₂⟩, hpause, hturn⟩ := bind_eq_ok.mp hturn
      obtain ⟨⟨s₃, io₃, e₃⟩, hback, hturn⟩ := bind_eq_ok.mp hturn
      obtain ⟨⟨s₄, io₄⟩, hidle, hturn⟩ := bind_eq_ok.mp hturn
      cases hturn
      rw [if_pos hexit, if_pos hexit, if_pos ⟨hmismatch, htime, hretry⟩, if_pos ⟨hmismatch, hretry⟩,
        if_pos ⟨hexit, htime⟩, runOps_goto hpause, runOps_goto hback, ← runTest_eq]
      exact ⟨hidle, rfl, hsome, hanswer⟩
    · rename_i hretry
      obtain ⟨⟨s₂, io₂, e₂⟩, hend, hturn⟩ := bind_eq_ok.mp hturn
      obtain ⟨⟨s₃, io₃⟩, hidle, hturn⟩ := bind_eq_ok.mp hturn
      cases hturn
      have htime : (if b = true ∧ retry = true then
          if args.iExitShift = true ∧ s.lRunTestTime ≠ 0 then longer s.lRunTestTime else s.lRunTestTime
          else s.lRunTestTime) = s.lRunTestTime := by
        split
        · rename_i hboth
          exact if_neg fun hlong => hretry ⟨hboth.1, hlong.2, hboth.2⟩
        · rfl
      rw [if_pos hexit, if_pos hexit, if_neg hretry, htime, runOps_goto hend, ← runTest_eq]
      exact ⟨hidle, rfl, hsome, hanswer⟩
  · rename_i hexit
    cases hturn
    simp only [hexit, Bool.false_eq_true, false_and, if_false, ite_self]
    exact ⟨rfl, trivial, hsome, hanswer⟩

/-- The loop: turns that fail, and a last one, which fails only when no retry is left. -/
theorem shiftLoop_spec {left : ℕ} (h : Tracks start s.ucTapState s.io) (hn : 0 < args.lNumBits.toNat)
    (hloop : shiftLoop tdo args left s = .ok (b, s')) :
    ∃ k ≤ left, (b = true → k = left) ∧
      runOps (failedOps args k s.lRunTestTime ++ turnOps args false b ((turnTime args)^[k] s.lRunTestTime))
        (s.ucTapState, s.io) = .ok (s'.ucTapState, s'.io) ∧
      s'.captured.isSome = s.captured.isSome ∧
      (Aligned args → ∀ j ≤ k, ∃ io, runOps (failedOps args j s.lRunTestTime ++ [.goto (shiftState args.scan)])
        (s.ucTapState, s.io) = .ok (shiftState args.scan, io) ∧ (Answered tdo args io ↔ j = k ∧ b = false)) := by
  induction left generalizing s with
  | zero =>
    obtain ⟨hrun, -, hsome, io, hgoto, hanswer⟩ := shiftTurn_spec h hloop
    refine ⟨0, Nat.le_refl 0, fun _ => rfl, hrun, hsome, fun haligned j hj => ⟨io, ?_⟩⟩
    obtain rfl : j = 0 := Nat.le_zero.mp hj
    exact ⟨hgoto, (hanswer haligned).trans (iff_and_self.mpr fun _ => rfl)⟩
  | succ left ih =>
    obtain ⟨⟨iMismatch, s₁⟩, hturn, hrest⟩ := bind_eq_ok.mp hloop
    obtain ⟨hrun, htime, hsome, io, hgoto, hanswer⟩ := shiftTurn_spec h hturn
    cases iMismatch with
    | false =>
      cases hrest
      rw [turnOps_match] at hrun
      refine ⟨0, Nat.zero_le _, fun hb => absurd hb (by decide), hrun, hsome, fun haligned j hj => ⟨io, ?_⟩⟩
      obtain rfl : j = 0 := Nat.le_zero.mp hj
      exact ⟨hgoto, (hanswer haligned).trans (iff_and_self.mpr fun _ => rfl)⟩
    | true =>
      have htracks : Tracks start s₁.ucTapState s₁.io := h.runOps (fun op hop => (turnOps_plain hn op hop).valid) hrun
      obtain ⟨k, hk, hlast, hlater, hsome', hanswers⟩ := ih htracks hrest
      rw [if_pos ⟨rfl, rfl⟩] at htime
      rw [htime] at hlater hanswers
      refine ⟨k + 1, Nat.succ_le_succ hk, fun hb => congrArg (· + 1) (hlast hb), ?_, hsome'.trans hsome,
        fun haligned j hj => ?_⟩
      · rw [failedOps, List.append_assoc, runOps_append, hrun, Function.iterate_succ_apply]
        exact hlater
      · cases j with
        | zero =>
          refine ⟨io, hgoto, (hanswer haligned).trans ?_⟩
          simp
        | succ j =>
          obtain ⟨io', hgoto', hanswer'⟩ := hanswers haligned j (Nat.le_of_succ_le_succ hj)
          refine ⟨io', ?_, hanswer'.trans ?_⟩
          · rw [failedOps, List.append_assoc, runOps_append, hrun]
            exact hgoto'
          · rw [Nat.add_right_cancel_iff]

/-- A scan: turns with answers that were not expected, as many as there are retries at most, and a last one; the outcome
is that of the last one, and it is a failure only when no retry is left. -/
theorem xsvfShift_spec {e : XsvfError} (h : Tracks start s.ucTapState s.io)
    (hshift : xsvfShift tdo args s = .ok (e, s')) :
    ∃ k ≤ args.ucMaxRepeat.toNat, ∃ b, (b = true → args.lNumBits ≠ 0 ∧ k = args.ucMaxRepeat.toNat) ∧
      e = (if b then args.iErrorCode else .none) ∧
      runOps (scanOps args k b s.lRunTestTime) (s.ucTapState, s.io) = .ok (s'.ucTapState, s'.io) ∧
      s'.captured.isSome = s.captured.isSome ∧
      (args.lNumBits ≠ 0 → Aligned args → ∀ j ≤ k, ∃ io,
        runOps (failedOps args j s.lRunTestTime ++ [.goto (shiftState args.scan)]) (s.ucTapState, s.io) =
          .ok (shiftState args.scan, io) ∧ (Answered tdo args io ↔ j = k ∧ b = false)) := by
  rw [xsvfShift] at hshift
  split at hshift
  · rename_i hzero
    obtain ⟨⟨s₁, io₁⟩, hidle, hpure⟩ := bind_eq_ok.mp hshift
    cases hpure
    rw [runTest_eq] at hidle
    refine ⟨0, Nat.zero_le _, false, fun hb => absurd hb (by decide), rfl, ?_, rfl,
      fun hbits => absurd hzero hbits⟩
    rw [scanOps, if_pos hzero]
    exact hidle
  · rename_i hbits
    have hn : 0 < args.lNumBits.toNat := BitVec.toNat_pos_of_ne_zero hbits
    obtain ⟨⟨b, s₁⟩, hloop, hpure⟩ := bind_eq_ok.mp hshift
    cases hpure
    obtain ⟨k, hk, hlast, hrun, hsome, hanswers⟩ := shiftLoop_spec h hn hloop
    refine ⟨k, hk, b, fun hb => ⟨hbits, hlast hb⟩, rfl, ?_, hsome, fun _ => hanswers⟩
    rw [scanOps, if_neg hbits]
    exact hrun

end Turn

/-! ## Scans that stay inside the arrays -/

/-- The bits are there, and the expected word fits in its array. -/
def ShiftArgs.Room (args : ShiftArgs) (captured : Option LenVal) : Prop :=
  args.lNumBits.toNat ≤ 8 * args.tdi.len ∧ ∀ e ∈ args.expected, captured.isSome = true ∧ e.len ≤ maxLen + 1

/-- The states that a scan may end in. -/
def EndState (t : ℕ) : Prop := t = 1 ∨ t = 4 ∨ t = 6 ∨ t = 13

section Room
variable {start : Port Bool} {tdo : List Event → Bool} {args : ShiftArgs} {s : ShiftState} {retry : Bool}
  {usec : BitVec 32} {x : ℕ × Io}

theorem EndState.goto {t : ℕ} {s : ℕ} {io : Io} (ht : EndState t) (h : Tracks start s io) :
    ∃ io', xsvfGotoTapState s t io = .ok (t, io', .none) ∧ Tracks start t io' := by
  obtain rfl | rfl | rfl | rfl := ht
  all_goals exact h.goto_not_refused (by decide) (by simp [Refused])

theorem runTest_ends {s : ℕ} {io : Io} (h : Tracks start s io) : ∃ y, runTest usec s io = .ok y := by
  rw [runTest]
  split
  · obtain ⟨io', hgoto, -⟩ := EndState.goto (.inl rfl) h
    exact exists_bind_ok hgoto ⟨_, rfl⟩
  · exact ⟨_, rfl⟩

theorem iMismatch_ends {captured : Option LenVal} (hroom : args.Room captured) :
    ∃ b, args.iMismatch captured = .ok b := by
  obtain ⟨-, hroom⟩ := hroom
  unfold ShiftArgs.iMismatch
  split
  · exact ⟨_, rfl⟩
  · rename_i hexpected
    exact absurd (hroom _ hexpected).1 (by decide)
  · rename_i e c hexpected
    have hlen := (hroom e hexpected).2
    rw [if_neg (by omega)]
    exact ⟨_, rfl⟩

theorem iMismatch_fault {captured : Option LenVal} (hbits : args.lNumBits.toNat ≤ 8 * args.tdi.len)
    (hroom : ¬args.Room captured) : args.iMismatch captured = .error .fault := by
  unfold ShiftArgs.iMismatch
  split
  · rename_i hnone
    exact absurd ⟨hbits, fun e he => by cases hnone.symm.trans he⟩ hroom
  · rfl
  · rename_i e c hexpected
    rw [if_pos]
    by_contra hlen
    refine hroom ⟨hbits, fun e' he' => ?_⟩
    cases hexpected.symm.trans he'
    exact ⟨rfl, by omega⟩

theorem Room.of_isSome {captured captured' : Option LenVal} (h : captured'.isSome = captured.isSome) :
    args.Room captured' ↔ args.Room captured := by
  rw [ShiftArgs.Room, ShiftArgs.Room, h]

theorem shiftTurn_ends (h : Tracks start s.ucTapState s.io) (hn : 0 < args.lNumBits.toNat)
    (hend : EndState args.ucEndState) (hroom : args.Room s.captured) : ∃ r, shiftTurn tdo args retry s = .ok r := by
  obtain ⟨io₁, hgoto, htracks, htms⟩ := h.goto_shift args.scan
  obtain ⟨captured, hshift, hsome, -⟩ :=
    @xsvfShiftOnly_spec tdo args.tdi args.iExitShift io₁ args.lNumBits.toNat s.captured htms hroom.1
  obtain ⟨b, hcompare⟩ := iMismatch_ends ((Room.of_isSome hsome).mpr hroom)
  refine exists_bind_ok hgoto (exists_bind_ok hshift (exists_bind_ok hcompare ?_))
  dsimp only
  split
  · rename_i hexit
    have hout := htracks.shifted args.iExitShift args.tdi hn
    rw [if_pos hexit] at hout
    split
    · obtain ⟨io₂, hpause, hout⟩ := EndState.goto (.inr (.inr (.inl rfl))) hout
      obtain ⟨io₃, hback, hout⟩ := EndState.goto (.inr (.inl rfl)) hout
      obtain ⟨y, hidle⟩ := runTest_ends hout
      exact exists_bind_ok hpause (exists_bind_ok hback (exists_bind_ok hidle ⟨_, rfl⟩))
    · obtain ⟨io₂, hrest, hout⟩ := hend.goto hout
      obtain ⟨y, hidle⟩ := runTest_ends hout
      exact exists_bind_ok hrest (exists_bind_ok hidle ⟨_, rfl⟩)
  · exact ⟨_, rfl⟩

theorem shiftTurn_fault (h : Tracks start s.ucTapState s.io) (hroom : ¬args.Room s.captured) :
    shiftTurn tdo args retry s = .error .fault := by
  obtain ⟨io₁, hgoto, htracks, htms⟩ := h.goto_shift args.scan
  rw [shiftTurn, hgoto]
  change (xsvfShiftOnly tdo args.lNumBits.toNat args.tdi s.captured args.iExitShift io₁ >>= _) = _
  by_cases hbits : args.lNumBits.toNat ≤ 8 * args.tdi.len
  · obtain ⟨captured, hshift, hsome, -⟩ :=
      @xsvfShiftOnly_spec tdo args.tdi args.iExitShift io₁ args.lNumBits.toNat s.captured htms hbits
    rw [hshift]
    change (args.iMismatch captured >>= _) = _
    rw [iMismatch_fault hbits (hroom ∘ (Room.of_isSome hsome).mp)]
    rfl
  · rw [xsvfShiftOnly_fault _ (by omega)]
    rfl

theorem shiftLoop_ends {left : ℕ} (h : Tracks start s.ucTapState s.io) (hn : 0 < args.lNumBits.toNat)
    (hend : EndState args.ucEndState) (hroom : args.Room s.captured) : ∃ r, shiftLoop tdo args left s = .ok r := by
  induction left generalizing s with
  | zero => exact shiftTurn_ends h hn hend hroom
  | succ left ih =>
    obtain ⟨⟨b, s₁⟩, hturn⟩ : ∃ r, shiftTurn tdo args true s = .ok r := shiftTurn_ends h hn hend hroom
    obtain ⟨hrun, -, hsome, -⟩ := shiftTurn_spec h hturn
    refine exists_bind_ok hturn ?_
    dsimp only
    split
    · exact ih (h.runOps (fun op hop => (turnOps_plain hn op hop).valid) hrun) ((Room.of_isSome hsome).mpr hroom)
    · exact ⟨_, rfl⟩

/-- A scan ends, and it leaves its arrays if and only if there is something to shift that does not fit. -/
theorem xsvfShift_ends (tdo : List Event → Bool) (h : Tracks start s.ucTapState s.io)
    (hend : EndState args.ucEndState) :
    (∃ r, xsvfShift tdo args s = .ok r) ∧ (args.lNumBits ≠ 0 → args.Room s.captured) ∨
      xsvfShift tdo args s = .error .fault ∧ args.lNumBits ≠ 0 ∧ ¬args.Room s.captured := by
  rw [xsvfShift]
  split
  · rename_i hzero
    obtain ⟨y, hidle⟩ := runTest_ends h
    exact .inl ⟨exists_bind_ok hidle ⟨_, rfl⟩, fun hbits => absurd hzero hbits⟩
  · rename_i hbits
    by_cases hroom : args.Room s.captured
    · obtain ⟨r, hloop⟩ := shiftLoop_ends h (BitVec.toNat_pos_of_ne_zero hbits) hend hroom
      exact .inl ⟨exists_bind_ok hloop ⟨_, rfl⟩, fun _ => hroom⟩
    · refine .inr ⟨?_, hbits, hroom⟩
      have hloop : shiftLoop tdo args args.ucMaxRepeat.toNat s = .error .fault := by
        cases args.ucMaxRepeat.toNat with
        | zero => exact shiftTurn_fault h hroom
        | succ left =>
          rw [shiftLoop, shiftTurn_fault h hroom]
          rfl
      rw [hloop]
      rfl

end Room
end HtDrivers.Jtag
