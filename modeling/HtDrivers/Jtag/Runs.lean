import HtDrivers.Jtag.Micro
import HtDrivers.Lib.Transition

/-! What holds in every run of the player: it knows the state of the device, it stays inside of its arrays when the
sizes that it is told are not too large, it waits in Run-Test/Idle, and it comes to an end. -/
namespace HtDrivers.Jtag
open HtDrivers.Lib.Tap HtDrivers.Lib.BigEndian HtDrivers.Lib.Checked
set_option autoImplicit false

/-! ## Reading -/

section Read
variable {n i j : ℕ} {val : ℕ → BitVec 8} {inp : List (BitVec 8)} {x : LenVal} {sNumBytes : BitVec 16}
    {lNumBits : BitVec 32}

theorem readLoop_outcome (n i : ℕ) (val : ℕ → BitVec 8) (inp : List (BitVec 8)) :
    Outcome (fun r => r.2 = inp.drop n ∧ (n = 0 ∨ i + n ≤ maxLen + 1) ∧
        ∀ j, r.1 j = if i ≤ j ∧ j < i + n then inp.getD (j - i) 0xFF else val j)
      (fun t => t = .fault ∧ maxLen + 1 < i + n) (readLoop n i val inp) := by
  induction n generalizing i val inp with
  | zero =>
    refine ⟨rfl, .inl rfl, fun j => ?_⟩
    rw [if_neg (by omega)]
  | succ n ih =>
    rw [readLoop]
    split
    · exact ⟨rfl, by omega⟩
    · apply (ih (i + 1) _ _).mono
      · rintro r ⟨hrest, hroom, hval⟩
        refine ⟨?_, .inr (by omega), fun j => ?_⟩
        · rw [hrest, readByte, List.drop_tail]
        · rw [hval]
          by_cases hij : j = i
          · subst hij
            rw [if_neg (by omega), if_pos (by omega), Function.update_self, readByte, Nat.sub_self]
            cases inp <;> rfl
          · rw [Function.update_of_ne hij]
            by_cases hin : i + 1 ≤ j ∧ j < i + 1 + n
            · have hindex : j - i = (j - (i + 1)) + 1 := by omega
              rw [if_pos hin, if_pos (by omega), hindex, readByte]
              cases inp <;> simp
            · rw [if_neg hin, if_neg (by omega)]
      · rintro t ⟨rfl, hroom⟩
        exact ⟨rfl, by omega⟩

/-- The bytes at the front of the stream, with `EOF` behind its end; there is a fault when they do not fit. -/
theorem readVal_outcome (x : LenVal) (sNumBytes : BitVec 16) (inp : List (BitVec 8)) :
    Outcome (fun r => r.2 = inp.drop sNumBytes.toNat ∧ r.1.len = sNumBytes.toNat ∧ sNumBytes.toNat ≤ maxLen + 1 ∧
        ∀ j < sNumBytes.toNat, r.1.val j = inp.getD j 0xFF)
      (fun t => t = .fault ∧ maxLen + 1 < sNumBytes.toNat) (readVal x sNumBytes inp) := by
  have hloop := readLoop_outcome sNumBytes.toNat 0 x.val inp
  rw [Nat.zero_add] at hloop
  refine hloop.bind ?_
  rintro ⟨val, rest⟩ ⟨hrest, hroom, hval⟩
  refine ⟨hrest, rfl, by omega, fun j hj => ?_⟩
  exact (hval j).trans (if_pos ⟨Nat.zero_le j, hj⟩)

theorem readVal_ok (x : LenVal) (h : sNumBytes.toNat ≤ maxLen + 1) (inp : List (BitVec 8)) :
    ∃ x', readVal x sNumBytes inp = .ok (x', inp.drop sNumBytes.toNat) ∧ x'.len = sNumBytes.toNat ∧
      ∀ j < sNumBytes.toNat, x'.val j = inp.getD j 0xFF := by
  have houtcome := readVal_outcome x sNumBytes inp
  cases hread : readVal x sNumBytes inp with
  | error t =>
    have hroom := (houtcome.of_error hread).2
    omega
  | ok r =>
    obtain ⟨hrest, hlen, -, hval⟩ := houtcome.of_ok hread
    exact ⟨r.1, by rw [← hrest], hlen, hval⟩

/-- The number of bytes, as long as it is a `short`. -/
theorem numBytes_toNat (h : lNumBits.toNat < 2^18) : (xsvfGetAsNumBytes lNumBits).toNat = (lNumBits.toNat + 7) / 8 := by
  have hsum : (lNumBits + 7).toNat = lNumBits.toNat + 7 := by
    have hseven : (7 : BitVec 32).toNat = 7 := rfl
    rw [BitVec.toNat_add, hseven]
    omega
  have hmsb : (lNumBits + 7).msb = false := by
    rw [BitVec.msb_eq_false_iff_two_mul_lt]
    omega
  have height : (8 : BitVec 32).msb = false := rfl
  rw [xsvfGetAsNumBytes, BitVec.sdiv_eq, hmsb, height]
  simp only [BitVec.toNat_setWidth, BitVec.udiv_eq, BitVec.toNat_udiv, hsum]
  change (lNumBits.toNat + 7) / 8 % 2^16 = _
  omega

end Read

/-! ## What a command can do -/

def Player.port (p : Player) : ℕ × Io := (p.info.ucTapState, p.io)

/-- What the player relies on: the device is where it thinks, and scans end in a state that is stable. -/
structure Sound (start : Port Bool) (p : Player) : Prop where
  tracks : Tracks start p.info.ucTapState p.io
  endIR : p.info.ucEndIR = 1 ∨ p.info.ucEndIR = 13
  endDR : p.info.ucEndDR = 1 ∨ p.info.ucEndDR = 6

/-- The words of the size that was told fit in the arrays. -/
structure Sized (p : Player) : Prop where
  bits : p.info.lShiftLengthBits.toNat ≤ 8 * p.info.sShiftLengthBytes.toNat
  bytes : p.info.sShiftLengthBytes.toNat ≤ maxLen + 1
  expected : p.info.lvTdoExpected.len ≤ maxLen + 1

/-- What command `n` can do. -/
structure Did (n : ℕ) (p p' : Player) : Prop where
  moved : ∃ ops, (∀ op ∈ ops, op.Valid ∧ (n ≠ 23 → op.Plain)) ∧ runOps ops p.port = .ok p'.port
  inp : p'.inp <:+ p.inp
  endIR : p'.info.ucEndIR = p.info.ucEndIR ∨ p'.info.ucEndIR = 1 ∨ p'.info.ucEndIR = 13
  endDR : p'.info.ucEndDR = p.info.ucEndDR ∨ p'.info.ucEndDR = 1 ∨ p'.info.ucEndDR = 6
  size : n ≠ 8 → p'.info.lShiftLengthBits = p.info.lShiftLengthBits ∧
    p'.info.sShiftLengthBytes = p.info.sShiftLengthBytes
  expected : p.info.lvTdoExpected.len ≤ maxLen + 1 → p'.info.lvTdoExpected.len ≤ maxLen + 1

/-- The words that a scan leaves alone. -/
def Player.SameWords (p p' : Player) : Prop := p'.info.lvTdi = p.info.lvTdi ∧ p'.info.lvDataMask = p.info.lvDataMask

/-- How a command can fail to return. -/
def Traps (p : Player) (hangs : Prop) : Trap → Prop
  | .fault => ¬Sized p
  | .hang => hangs

section Commands
variable {start : Port Bool} {tdo : List Event → Bool} {n : ℕ} {p p' p'' : Player} {hangs : Prop} {e : XsvfError}

/-- A command that leaves the port and the settings alone. -/
theorem Did.quiet (hport : p'.port = p.port) (hinp : p'.inp <:+ p.inp) (hir : p'.info.ucEndIR = p.info.ucEndIR)
    (hdr : p'.info.ucEndDR = p.info.ucEndDR) (hbits : p'.info.lShiftLengthBits = p.info.lShiftLengthBits)
    (hbytes : p'.info.sShiftLengthBytes = p.info.sShiftLengthBytes)
    (hexpected : p.info.lvTdoExpected.len ≤ maxLen + 1 → p'.info.lvTdoExpected.len ≤ maxLen + 1) : Did n p p' :=
  ⟨⟨[], fun _ hop => absurd hop List.not_mem_nil, congrArg _ hport.symm⟩, hinp, .inl hir, .inl hdr,
    fun _ => ⟨hbits, hbytes⟩, hexpected⟩

theorem Did.trans (h : Did n p p') (h' : Did n p' p'') : Did n p p'' := by
  obtain ⟨⟨ops, hops, hrun⟩, hinp, hir, hdr, hsize, hexpected⟩ := h
  obtain ⟨⟨ops', hops', hrun'⟩, hinp', hir', hdr', hsize', hexpected'⟩ := h'
  refine ⟨⟨ops ++ ops', List.forall_mem_append.mpr ⟨hops, hops'⟩, ?_⟩, hinp'.trans hinp, ?_, ?_, fun hn => ?_,
    hexpected' ∘ hexpected⟩
  · rw [runOps_append, hrun]
    exact hrun'
  · exact hir'.elim (fun hsame => hsame ▸ hir) .inr
  · exact hdr'.elim (fun hsame => hsame ▸ hdr) .inr
  · exact ⟨(hsize' hn).1.trans (hsize hn).1, (hsize' hn).2.trans (hsize hn).2⟩

theorem Did.sound (h : Did n p p') (hp : Sound start p) : Sound start p' := by
  obtain ⟨ops, hops, hrun⟩ := h.moved
  refine ⟨Tracks.runOps (x := p.port) (y := p'.port) hp.tracks (fun op hop => (hops op hop).1) hrun, ?_, ?_⟩
  · exact h.endIR.elim (fun hsame => hsame ▸ hp.endIR) id
  · exact h.endDR.elim (fun hsame => hsame ▸ hp.endDR) id

theorem Did.sized (h : Did n p p') (hn : n ≠ 8) (hp : Sized p) : Sized p' := by
  obtain ⟨hbits, hbytes⟩ := h.size hn
  refine ⟨?_, ?_, h.expected hp.expected⟩
  · rw [hbits, hbytes]
    exact hp.bits
  · rw [hbytes]
    exact hp.bytes

theorem Did.noting (h : Did n p p') : Did n p (p'.noting e) := by
  rw [Player.noting]
  split
  · exact ⟨h.moved, h.inp, h.endIR, h.endDR, h.size, h.expected⟩
  · exact h

/-- A scan, as it is called from a command. -/
theorem Player.shift_outcome {args : ShiftArgs} {captured : Option LenVal} (h : Tracks start p.info.ucTapState p.io)
    (hend : EndState args.ucEndState) (lRunTestTime : BitVec 32) :
    Outcome (fun r => ∃ k ≤ args.ucMaxRepeat.toNat, ∃ b, (b = true → args.lNumBits ≠ 0 ∧ k = args.ucMaxRepeat.toNat) ∧
        r.1 = (if b then args.iErrorCode else .none) ∧
        runOps (scanOps args k b lRunTestTime) p.port = .ok r.2.port ∧
        r.2 = { p with
          info := { p.info with ucTapState := r.2.info.ucTapState, lvTdoCaptured := r.2.info.lvTdoCaptured },
          io := r.2.io } ∧
        (args.lNumBits ≠ 0 → Aligned args → ∀ j ≤ k, ∃ io,
          runOps (failedOps args j lRunTestTime ++ [.goto (shiftState args.scan)]) p.port =
            .ok (shiftState args.scan, io) ∧
            (Answered tdo args io ↔ j = k ∧ b = false)))
      (fun t => t = .fault ∧ args.lNumBits ≠ 0 ∧ ¬args.Room captured) (p.shift tdo args captured lRunTestTime) := by
  have hscan : Tracks start (ShiftState.mk p.info.ucTapState captured lRunTestTime p.io).ucTapState
      (ShiftState.mk p.info.ucTapState captured lRunTestTime p.io).io := h
  rw [Player.shift]
  obtain ⟨⟨⟨e, s⟩, hshift⟩, -⟩ | ⟨hfault, hbits, hroom⟩ := xsvfShift_ends tdo hscan hend
  · obtain ⟨k, hk, b, hlast, he, hrun, -, hanswers⟩ := xsvfShift_spec hscan hshift
    rw [hshift]
    exact ⟨k, hk, b, hlast, he, hrun, rfl, hanswers⟩
  · rw [hfault]
    exact ⟨rfl, hbits, hroom⟩

theorem Player.shift_did {args : ShiftArgs} {captured : Option LenVal} (h : Tracks start p.info.ucTapState p.io)
    (hend : EndState args.ucEndState) (lRunTestTime : BitVec 32) :
    Outcome (fun r => Did n p r.2 ∧ p.SameWords r.2)
      (fun t => t = .fault ∧ args.lNumBits ≠ 0 ∧ ¬args.Room captured)
      (p.shift tdo args captured lRunTestTime) := by
  refine (Player.shift_outcome h hend lRunTestTime).mono ?_ fun _ ht => ht
  rintro ⟨e, p'⟩ ⟨k, -, b, -, -, hrun, hframe, -⟩
  have hplain : ∀ op ∈ scanOps args k b lRunTestTime, op.Valid ∧ (n ≠ 23 → op.Plain) :=
    fun op hop => ⟨(scanOps_plain k op hop).valid, fun _ => scanOps_plain k op hop⟩
  dsimp only at hframe hrun
  rw [hframe] at hrun ⊢
  exact ⟨⟨⟨_, hplain, hrun⟩, List.suffix_refl _, .inl rfl, .inl rfl, fun _ => ⟨rfl, rfl⟩, id⟩, rfl, rfl⟩

theorem Sound.endState (h : Sound start p) : EndState p.info.ucEndDR ∧ EndState p.info.ucEndIR := by
  have hdr := h.endDR
  have hir := h.endIR
  exact ⟨by unfold EndState; omega, by unfold EndState; omega⟩

/-- The reads of the words whose size was told. -/
theorem read_traps (hbytes : p'.info.sShiftLengthBytes = p.info.sShiftLengthBytes) (x : LenVal)
    (inp : List (BitVec 8)) :
    Outcome (fun r => r.2 = inp.drop p.info.sShiftLengthBytes.toNat ∧ r.1.len = p.info.sShiftLengthBytes.toNat ∧
      p.info.sShiftLengthBytes.toNat ≤ maxLen + 1) (Traps p hangs) (readVal x p'.info.sShiftLengthBytes inp) := by
  rw [hbytes]
  refine (readVal_outcome x _ inp).mono (fun r hr => ⟨hr.1, hr.2.1, hr.2.2.1⟩) ?_
  rintro t ⟨rfl, hlong⟩ hsized
  have hbytes := hsized.bytes
  omega

/-- The reads of a few bytes. -/
theorem read_short {m : BitVec 16} (hm : m.toNat ≤ maxLen + 1) (x : LenVal) (inp : List (BitVec 8)) :
    Outcome (fun r => r.2 = inp.drop m.toNat) (Traps p hangs) (readVal x m inp) := by
  refine (readVal_outcome x m inp).mono (fun r hr => hr.1) ?_
  rintro t ⟨-, hlong⟩
  omega

/-- A scan of the data register with words of the size that was told. -/
theorem shift_traps {args : ShiftArgs} {captured : Option LenVal} (h : Sound start p) (hdid : Did n p p')
    (hend : EndState args.ucEndState) (hbits : args.lNumBits = p.info.lShiftLengthBits)
    (htdi : args.tdi.len = p.info.sShiftLengthBytes.toNat)
    (hexpected : ∀ e ∈ args.expected, captured.isSome = true ∧ e = p'.info.lvTdoExpected) (lRunTestTime : BitVec 32) :
    Outcome (fun r => Did n p r.2 ∧ p'.SameWords r.2) (Traps p hangs)
      (p'.shift tdo args captured lRunTestTime) := by
  refine (Player.shift_did (hdid.sound h).tracks hend lRunTestTime).mono (fun r hr => ⟨hdid.trans hr.1, hr.2⟩) ?_
  rintro t ⟨rfl, -, hroom⟩ hsized
  refine hroom ⟨?_, fun e he => ⟨(hexpected e he).1, ?_⟩⟩
  · rw [hbits, htdi]
    exact hsized.bits
  · rw [(hexpected e he).2]
    exact hdid.expected hsized.expected

theorem Traps.of_did (h : Did n p p') (hn : n ≠ 8) {t : Trap} (ht : Traps p' hangs t) : Traps p hangs t := by
  cases t with
  | fault => exact fun hsized => ht (h.sized hn hsized)
  | hang => exact ht

/-- One part of a command after the other. -/
theorem Did.outcome {r : Except Trap Player} (h : Did n p p') (hn : n ≠ 8)
    (hr : Outcome (Did n p') (Traps p' hangs) r) : Outcome (Did n p) (Traps p hangs) r :=
  hr.mono (fun _ h' => h.trans h') fun _ ht => ht.of_did h hn

theorem xsvfDoXTDOMASK_outcome : Outcome (Did n p) (Traps p hangs) (xsvfDoXTDOMASK p) := by
  refine (read_traps rfl _ _).bind ?_
  rintro ⟨x, inp⟩ ⟨rfl, -⟩
  exact .quiet rfl (List.drop_suffix _ _) rfl rfl rfl rfl id

theorem shiftIr_outcome (h : Sound start p) {lShiftIrBits : BitVec 32} (hbits : lShiftIrBits.toNat < 2^16) :
    Outcome (Did n p) (Traps p hangs) (shiftIr tdo p lShiftIrBits) := by
  have hbytes : (xsvfGetAsNumBytes lShiftIrBits).toNat = _ := numBytes_toNat (by omega)
  rw [shiftIr]
  split
  · exact (Did.quiet rfl (List.suffix_refl _) rfl rfl rfl rfl id).noting
  · rename_i hfits
    have hsmall : (xsvfGetAsNumBytes lShiftIrBits).toNat ≤ maxLen := by
      rw [overflows, BitVec.toInt_eq_toNat_of_lt (by omega)] at hfits
      omega
    refine ((readVal_outcome _ _ _).mono (fun _ hr => hr) ?_).bind ?_
    · rintro t ⟨-, hlong⟩
      omega
    · rintro ⟨x, inp⟩ ⟨rfl, hlen, -, -⟩
      have hread : Did n p { p with
          info := { p.info with lvTdi := x }, inp := p.inp.drop (xsvfGetAsNumBytes lShiftIrBits).toNat } :=
        .quiet rfl (List.drop_suffix _ _) rfl rfl rfl rfl id
      refine (((Player.shift_did (hread.sound h).tracks ?_ _).mono (fun r hr => hread.trans hr.1) ?_)).bind ?_
      · exact h.endState.2
      · rintro t ⟨-, -, hroom⟩
        refine absurd ⟨?_, fun e he => by cases he⟩ hroom
        dsimp only at hlen ⊢
        omega
      · rintro ⟨e, p'⟩ hdid
        exact hdid.noting

theorem xsvfDoXSIR_outcome (h : Sound start p) (hn : n ≠ 8) : Outcome (Did n p) (Traps p hangs) (xsvfDoXSIR tdo p) := by
  have hread : Did n p { p with inp := p.inp.tail } := .quiet rfl (List.tail_suffix _) rfl rfl rfl rfl id
  have hbyte := (readByte p.inp).1.isLt
  refine hread.outcome hn (shiftIr_outcome (hread.sound h) ?_)
  rw [BitVec.toNat_setWidth]
  omega

theorem xsvfDoXSIR2_outcome (h : Sound start p) (hn : n ≠ 8) : Outcome (Did n p) (Traps p hangs)
    (xsvfDoXSIR2 tdo p) := by
  refine ((readVal_outcome p.info.lvTdi 2 p.inp).mono (fun _ hr => hr) ?_).bind ?_
  · rintro t ⟨-, hlong⟩
    exact absurd hlong (by decide)
  · rintro ⟨x, inp⟩ ⟨rfl, hlen, -, -⟩
    have hread : Did n p { p with info := { p.info with lvTdi := x }, inp := p.inp.drop (2 : BitVec 16).toNat } :=
      .quiet rfl (List.drop_suffix _ _) rfl rfl rfl rfl id
    refine hread.outcome hn (shiftIr_outcome (hread.sound h) ?_)
    have htwo : x.len = 2 := hlen
    have hlt := number_lt x.val x.len
    rw [htwo] at hlt
    rw [value_eq, BitVec.toNat_ofNat, LenVal.toNat, htwo]
    omega

/-- `XSDR`, with what was read before. -/
theorem shiftDr_outcome (h : Sound start p) (hdid : Did n p p') (hn : n ≠ 8)
    (hlen : p'.info.lvTdi.len = p.info.sShiftLengthBytes.toNat) :
    Outcome (fun r => Did n p r.2 ∧ p'.SameWords r.2) (Traps p hangs) (p'.shiftDr tdo) := by
  refine shift_traps h hdid ?_ (hdid.size hn).1 hlen ?_ _
  · exact (hdid.sound h).endState.1
  · intro e he
    exact ⟨rfl, (Option.some.inj he).symm⟩

theorem xsvfDoXSDR_outcome (h : Sound start p) (hn : n ≠ 8) : Outcome (Did n p) (Traps p hangs) (xsvfDoXSDR tdo p) := by
  refine (read_traps rfl _ _).bind ?_
  rintro ⟨x, inp⟩ ⟨rfl, hlen, -⟩
  have hread : Did n p { p with
      info := { p.info with lvTdi := x }, inp := p.inp.drop p.info.sShiftLengthBytes.toNat } :=
    .quiet rfl (List.drop_suffix _ _) rfl rfl rfl rfl id
  refine (shiftDr_outcome h hread hn hlen).bind ?_
  rintro ⟨e, p'⟩ ⟨hdid, -⟩
  exact hdid.noting

theorem xsvfDoXRUNTEST_outcome : Outcome (Did n p) (Traps p hangs) (xsvfDoXRUNTEST p) := by
  refine (read_short (by decide) _ _).bind ?_
  rintro ⟨x, inp⟩ rfl
  exact .quiet rfl (List.drop_suffix _ _) rfl rfl rfl rfl id

theorem xsvfDoXREPEAT_outcome : Outcome (Did n p) (Traps p hangs) (xsvfDoXREPEAT p) :=
  .quiet rfl (List.tail_suffix _) rfl rfl rfl rfl id

theorem xsvfDoXSDRSIZE_outcome : Outcome (Did 8 p) (Traps p hangs) (xsvfDoXSDRSIZE p) := by
  refine (read_short (by decide) _ _).bind ?_
  rintro ⟨x, inp⟩ rfl
  have hdid : ∀ info : SXsvfInfo, info.ucTapState = p.info.ucTapState → info.ucEndIR = p.info.ucEndIR →
      info.ucEndDR = p.info.ucEndDR → info.lvTdoExpected = p.info.lvTdoExpected →
      Did 8 p { p with info := info, inp := p.inp.drop (4 : BitVec 16).toNat } := by
    intro info hstate hir hdr hexpected
    refine ⟨⟨[], fun _ hop => absurd hop List.not_mem_nil, ?_⟩, List.drop_suffix _ _, .inl hir, .inl hdr,
      fun hn => absurd rfl hn, fun hlen => ?_⟩
    · rw [Player.port, Player.port, hstate]
      rfl
    · rw [hexpected]
      exact hlen
  change Outcome _ _ (Except.ok _)
  rw [Outcome]
  split
  · apply Did.noting
    exact hdid _ rfl rfl rfl rfl
  · exact hdid _ rfl rfl rfl rfl

theorem readTdiTdo_outcome (compared : Bool) :
    Outcome (fun p' => Did n p p' ∧ p'.info.lvTdi.len = p.info.sShiftLengthBytes.toNat)
    (Traps p hangs) (p.readTdiTdo compared) := by
  refine (read_traps rfl _ _).bind ?_
  rintro ⟨x, inp⟩ ⟨rfl, hlen, -⟩
  dsimp only
  split
  · refine (read_traps rfl _ _).bind ?_
    rintro ⟨y, inp⟩ ⟨rfl, hexpected, hbytes⟩
    refine ⟨.quiet rfl ((List.drop_suffix _ _).trans (List.drop_suffix _ _)) rfl rfl rfl rfl fun _ => ?_, hlen⟩
    dsimp only at hexpected ⊢
    omega
  · exact ⟨.quiet rfl (List.drop_suffix _ _) rfl rfl rfl rfl id, hlen⟩

theorem xsvfDoXSDRTDO_outcome (h : Sound start p) (hn : n ≠ 8) :
    Outcome (Did n p) (Traps p hangs) (xsvfDoXSDRTDO tdo p) := by
  refine (readTdiTdo_outcome (n := n) true).bind ?_
  rintro p' ⟨hdid, hlen⟩
  refine (shiftDr_outcome h hdid hn hlen).bind ?_
  rintro ⟨e, p''⟩ ⟨hdid', -⟩
  exact hdid'.noting

theorem xsvfDoXSETSDRMASKS_outcome : Outcome (Did n p) (Traps p hangs) (xsvfDoXSETSDRMASKS p) := by
  refine (read_traps rfl _ _).bind ?_
  rintro ⟨x, inp⟩ ⟨rfl, -⟩
  refine (read_traps rfl _ _).bind ?_
  rintro ⟨y, inp⟩ ⟨rfl, -⟩
  exact .quiet rfl ((List.drop_suffix _ _).trans (List.drop_suffix _ _)) rfl rfl rfl rfl id

theorem doBCE_outcome (h : Sound start p) (hn : n ≠ 8) (compared : Bool) (last : ℕ) :
    Outcome (Did n p) (Traps p hangs) (doBCE tdo p compared last) := by
  refine (readTdiTdo_outcome (n := n) compared).bind ?_
  rintro p' ⟨hdid, hlen⟩
  refine (shift_traps h hdid ?_ (hdid.size hn).1 hlen ?_ _).bind ?_
  · dsimp only
    split
    · exact h.endState.1
    · exact .inr (.inl rfl)
  · intro e he
    cases compared with
    | false => cases he
    | true => exact ⟨rfl, (Option.some.inj he).symm⟩
  · rintro ⟨e, p''⟩ ⟨hdid', -⟩
    exact hdid'.noting

theorem countOnes_le (m : ℕ) (b : BitVec 8) : countOnes m b ≤ m := by
  induction m generalizing b with
  | zero => exact Nat.le_refl 0
  | succ m ih =>
    have hrest := ih (b >>> 1)
    have hone : (b &&& 1).toNat ≤ 1 := by
      rw [BitVec.toNat_and]
      exact Nat.and_le_right
    rw [countOnes]
    split <;> omega

theorem dataMaskLen_outcome (dataMask : LenVal) :
    Outcome (fun m => m ≤ 2040) (fun t => t = .hang ∧ 256 ≤ dataMask.len) (dataMaskLen dataMask) := by
  rw [dataMaskLen]
  split
  · have hsum := List.sum_le_card_nsmul ((List.range dataMask.len).map fun i => countOnes 8 (dataMask.val i)) 8 (by
      intro x hx
      obtain ⟨i, -, rfl⟩ := List.mem_map.mp hx
      exact countOnes_le 8 _)
    rw [List.length_map, List.length_range, smul_eq_mul] at hsum
    change _ ≤ 2040
    omega
  · exact ⟨rfl, by omega⟩

theorem incLoop_outcome {m : ℕ} (hm : m ≤ 2040) (h : Sound start p) (hn : n ≠ 8) (times : ℕ) (hdid : Did n p p')
    (hlen : p'.info.lvTdi.len = p.info.sShiftLengthBytes.toNat) :
    Outcome (fun r => Did n p r.2) (Traps p hangs) (incLoop tdo m times p') := by
  induction times generalizing p' with
  | zero => exact hdid
  | succ times ih =>
    have hofNat : (BitVec.ofNat 32 m).toNat = m := by
      rw [BitVec.toNat_ofNat]
      omega
    have hbytes : (xsvfGetAsNumBytes (BitVec.ofNat 32 m)).toNat = _ := numBytes_toNat (by omega)
    refine (read_short ?_ _ _).bind ?_
    · rw [hbytes, hofNat, maxLen]
      omega
    rintro ⟨x, inp⟩ rfl
    have hread : Did n p' { p' with
        info := { p'.info with
          lvNextData := x
          lvTdi := xsvfDoSDRMasking p'.info.lvTdi x p'.info.lvAddressMask p'.info.lvDataMask }
        inp := p'.inp.drop (xsvfGetAsNumBytes (BitVec.ofNat 32 m)).toNat } :=
      .quiet rfl (List.drop_suffix _ _) rfl rfl rfl rfl id
    refine (shiftDr_outcome h (hdid.trans hread) hn hlen).bind ?_
    rintro ⟨e, p''⟩ ⟨hdid', hwords⟩
    dsimp only at hwords ⊢
    split
    · apply ih hdid'
      rw [hwords.1]
      exact hlen
    · exact hdid'

theorem xsvfDoXSDRINC_outcome (h : Sound start p) (hn : n ≠ 8) :
    Outcome (Did n p) (Traps p (256 ≤ p.info.lvDataMask.len)) (xsvfDoXSDRINC tdo p) := by
  refine (read_traps rfl _ _).bind ?_
  rintro ⟨x, inp⟩ ⟨rfl, hlen, -⟩
  have hread : Did n p { p with
      info := { p.info with lvTdi := x }, inp := p.inp.drop p.info.sShiftLengthBytes.toNat } :=
    .quiet rfl (List.drop_suffix _ _) rfl rfl rfl rfl id
  refine (shiftDr_outcome h hread hn hlen).bind ?_
  rintro ⟨e, p'⟩ ⟨hdid, hwords⟩
  dsimp only at hwords ⊢
  split
  · refine ((dataMaskLen_outcome _).mono (fun _ hm => hm) ?_).bind ?_
    · rintro t ⟨rfl, hlong⟩
      rw [hwords.2] at hlong
      exact hlong
    · intro m hm
      have hcount : Did n p' { p' with inp := p'.inp.tail } := .quiet rfl (List.tail_suffix _) rfl rfl rfl rfl id
      have htdi : p'.info.lvTdi.len = p.info.sShiftLengthBytes.toNat := by
        rw [hwords.1]
        exact hlen
      refine (incLoop_outcome hm h hn _ (hdid.trans hcount) htdi).bind ?_
      rintro ⟨e, p''⟩ hdid'
      exact hdid'.noting
  · exact hdid.noting

theorem Player.goto_outcome (h : Sound start p) (t : ℕ) :
    Outcome (fun r => Did n p r.2) (fun trap => trap = .hang ∧ 16 ≤ t) (p.goto t) := by
  rw [Player.goto]
  by_cases ht : t < 16
  · obtain ⟨s, io, e, hgoto, -⟩ := h.tracks.goto ht
    have hrun : runOps [.goto t] p.port = .ok (s, io) := runOps_goto hgoto []
    rw [hgoto]
    refine ⟨⟨[.goto t], ?_, hrun⟩, List.suffix_refl _, .inl rfl, .inl rfl, fun _ => ⟨rfl, rfl⟩, id⟩
    intro op hop
    obtain rfl := List.mem_singleton.mp hop
    exact ⟨trivial, fun _ => trivial⟩
  · rw [xsvfGotoTapState_hangs h.tracks.code (by omega)]
    exact ⟨rfl, by omega⟩

theorem xsvfDoXSTATE_outcome (h : Sound start p) :
    Outcome (Did n p) (Traps p (16 ≤ (p.inp.getD 0 0xFF).toNat)) (xsvfDoXSTATE p) := by
  have hread : Did n p { p with inp := p.inp.tail } := .quiet rfl (List.tail_suffix _) rfl rfl rfl rfl id
  have hbyte : (readByte p.inp).1 = p.inp.getD 0 0xFF := by
    rw [readByte]
    cases p.inp <;> rfl
  refine ((Player.goto_outcome (n := n) (hread.sound h) _).mono (fun _ hr => hr) ?_).bind ?_
  · rintro t ⟨rfl, hlarge⟩
    rw [← hbyte]
    exact hlarge
  · rintro ⟨e, p'⟩ hdid
    exact (hread.trans hdid).noting

theorem xsvfDoXENDXR_outcome : Outcome (Did n p) (Traps p hangs) (xsvfDoXENDXR p) := by
  have hread : Did n p { p with inp := p.inp.tail } := .quiet rfl (List.tail_suffix _) rfl rfl rfl rfl id
  rw [xsvfDoXENDXR]
  dsimp only
  split
  · exact hread.noting
  split
  · refine ⟨hread.moved, hread.inp, .inr ?_, .inl rfl, fun _ => ⟨rfl, rfl⟩, id⟩
    dsimp only
    split <;> simp
  · refine ⟨hread.moved, hread.inp, .inl rfl, .inr ?_, fun _ => ⟨rfl, rfl⟩, id⟩
    dsimp only
    split <;> simp

theorem commentLoop_outcome (inp : List (BitVec 8)) :
    Outcome (fun rest => rest <:+ inp) (fun t => t = .hang ∧ 0 ∉ inp) (commentLoop inp) := by
  induction inp with
  | nil => exact ⟨rfl, List.not_mem_nil⟩
  | cons b inp ih =>
    rw [commentLoop]
    split
    · rename_i hb
      refine ih.mono (fun rest hrest => hrest.trans (List.suffix_cons b inp)) ?_
      rintro t ⟨rfl, hnone⟩
      refine ⟨rfl, fun hmem => ?_⟩
      obtain hzero | hmem := List.mem_cons.mp hmem
      · exact hb hzero.symm
      · exact hnone hmem
    · exact List.suffix_cons b inp

theorem xsvfDoXCOMMENT_outcome : Outcome (Did n p) (Traps p (0 ∉ p.inp)) (xsvfDoXCOMMENT p) := by
  refine ((commentLoop_outcome p.inp).mono (fun _ hr => hr) ?_).bind ?_
  · rintro t ⟨rfl, hnone⟩
    exact hnone
  · intro rest hrest
    exact .quiet rfl hrest rfl rfl rfl rfl id

theorem Player.gotoUnless_outcome (h : Sound start p) (t : ℕ) :
    Outcome (Did n p) (fun trap => trap = .hang ∧ 16 ≤ t) (p.gotoUnless t) := by
  rw [Player.gotoUnless]
  split
  · refine (Player.goto_outcome (n := n) h t).bind ?_
    rintro ⟨e, p'⟩ hdid
    exact hdid
  · exact .quiet rfl (List.suffix_refl _) rfl rfl rfl rfl id

theorem xsvfDoXWAIT_outcome (h : Sound start p) :
    Outcome (Did 23 p) (Traps p (16 ≤ (p.inp.getD 0 0xFF).toNat ∨ 16 ≤ (p.inp.getD 1 0xFF).toNat)) (xsvfDoXWAIT p) := by
  have hbyte (x : LenVal) (inp : List (BitVec 8)) {H : Prop} :
      Outcome (fun r => r.2 = inp.drop 1 ∧ r.1.val 0 = inp.getD 0 0xFF) (Traps p H) (readVal x 1 inp) := by
    refine (readVal_outcome x 1 inp).mono (fun r hr => ⟨hr.1, hr.2.2.2 0 (by decide)⟩) ?_
    rintro t ⟨-, hlong⟩
    exact absurd hlong (by decide)
  refine (hbyte _ _).bind ?_
  rintro ⟨waitState, inp⟩ ⟨rfl, hwait⟩
  refine (hbyte _ _).bind ?_
  rintro ⟨endState, inp⟩ ⟨rfl, hend⟩
  rw [List.getD_eq_getElem?_getD, List.getElem?_drop, ← List.getD_eq_getElem?_getD] at hend
  refine (read_short (by decide) _ _).bind ?_
  rintro ⟨x, inp⟩ rfl
  have hread : Did 23 p { p with
      info := { p.info with lvTdi := x }, inp := ((p.inp.drop 1).drop 1).drop (4 : BitVec 16).toNat } :=
    .quiet rfl ((List.drop_suffix _ _).trans ((List.drop_suffix _ _).trans (List.drop_suffix _ _))) rfl rfl rfl rfl id
  refine ((Player.gotoUnless_outcome (n := 23) (hread.sound h) _).mono (fun _ hr => hr) ?_).bind ?_
  · rintro t ⟨rfl, hlarge⟩
    rw [hwait] at hlarge
    exact .inl hlarge
  · intro p' hdid
    have hdone : Did 23 p' { p' with io := waitTime (value x) p'.io } := by
      refine ⟨⟨[.wait (value x)], ?_, rfl⟩, List.suffix_refl _, .inl rfl, .inl rfl, fun _ => ⟨rfl, rfl⟩, id⟩
      intro op hop
      obtain rfl := List.mem_singleton.mp hop
      exact ⟨trivial, fun hn => absurd rfl hn⟩
    have hall := (hread.trans hdid).trans hdone
    refine (Player.gotoUnless_outcome (hall.sound h) _).mono (fun r hr => hall.trans hr) ?_
    rintro t ⟨rfl, hlarge⟩
    rw [hend] at hlarge
    exact .inr hlarge

/-- When command `n` has no end. -/
def Player.Hangs (p : Player) : ℕ → Prop
  | 11 => 256 ≤ p.info.lvDataMask.len
  | 18 => 16 ≤ (p.inp.getD 0 0xFF).toNat
  | 22 => 0 ∉ p.inp
  | 23 => 16 ≤ (p.inp.getD 0 0xFF).toNat ∨ 16 ≤ (p.inp.getD 1 0xFF).toNat
  | _ => False

theorem pfDoCmd_outcome (h : Sound start p) (n : ℕ) : Outcome (Did n p) (Traps p (p.Hangs n)) (pfDoCmd tdo p n) := by
  have hsame : Did n p p := .quiet rfl (List.suffix_refl _) rfl rfl rfl rfl id
  have hcomplete : Outcome (Did n p) (Traps p (p.Hangs n)) (xsvfDoXCOMPLETE p) :=
    .quiet rfl (List.suffix_refl _) rfl rfl rfl rfl id
  have hillegal : Outcome (Did n p) (Traps p (p.Hangs n)) (xsvfDoIllegalCmd p) := hsame.noting
  unfold pfDoCmd
  split
  · exact hcomplete
  · exact xsvfDoXTDOMASK_outcome
  · exact xsvfDoXSIR_outcome h (by decide)
  · exact xsvfDoXSDR_outcome h (by decide)
  · exact xsvfDoXRUNTEST_outcome
  · exact hillegal
  · exact hillegal
  · exact xsvfDoXREPEAT_outcome
  · exact xsvfDoXSDRSIZE_outcome
  · exact xsvfDoXSDRTDO_outcome h (by decide)
  · exact xsvfDoXSETSDRMASKS_outcome
  · exact xsvfDoXSDRINC_outcome h (by decide)
  · exact doBCE_outcome h (by decide) false 14
  · exact doBCE_outcome h (by decide) false 14
  · exact doBCE_outcome h (by decide) false 14
  · exact doBCE_outcome h (by decide) true 17
  · exact doBCE_outcome h (by decide) true 17
  · exact doBCE_outcome h (by decide) true 17
  · exact xsvfDoXSTATE_outcome h
  · exact xsvfDoXENDXR_outcome
  · exact xsvfDoXENDXR_outcome
  · exact xsvfDoXSIR2_outcome h (by decide)
  · exact xsvfDoXCOMMENT_outcome
  · exact xsvfDoXWAIT_outcome h
  · exact hillegal

theorem fetch_did (p : Player) (n : ℕ) : Did n p p.fetch := .quiet rfl (List.tail_suffix _) rfl rfl rfl rfl id

/-- One step of a run that goes on. -/
theorem xsvfRun_outcome (h : Sound start p) (hrunning : p.Running) :
    Outcome (Did p.fetch.info.ucCommand.toNat p.fetch)
      (Traps p.fetch (p.fetch.Hangs p.fetch.info.ucCommand.toNat)) (xsvfRun tdo p) := by
  rw [xsvfRun, if_pos hrunning]
  exact pfDoCmd_outcome ((fetch_did p 0).sound h) _

theorem xsvfRun_stopped (hstopped : ¬p.Running) : xsvfRun tdo p = .ok p := if_neg hstopped

end Commands

/-! ## Runs -/

section Runs
variable {start : Port Bool} {tdo : List Event → Bool} {ok : ℕ → Prop} {p₀ p p' : Player}

def freshPort : Port Bool := ⟨.testLogicReset, fun _ => [], fun _ => []⟩

/-- The states of the player from `xsvfInitialize` on, in runs of the commands that are `ok`. -/
inductive Reached (tdo : List Event → Bool) (ok : ℕ → Prop) (p₀ : Player) : Player → Prop
  | init {p : Player} : xsvfInitialize p₀ = .ok p → Reached tdo ok p₀ p
  | run {p p' : Player} : Reached tdo ok p₀ p → p.Running → ok p.fetch.info.ucCommand.toNat → xsvfRun tdo p = .ok p' →
      Reached tdo ok p₀ p'

/-- What the size that was told says about the arrays, as long as the run goes on. -/
structure Told (p : Player) : Prop where
  bytes : p.info.sShiftLengthBytes = xsvfGetAsNumBytes p.info.lShiftLengthBits
  fits : p.Running → ¬overflows p.info.sShiftLengthBytes

theorem xsvfInitialize_ok (p₀ : Player) : ∃ p, xsvfInitialize p₀ = .ok p ∧ (∀ start, Sound start p) ∧ Told p ∧
    p.inp = p₀.inp ∧ p.info.lvTdoExpected = p₀.info.lvTdoExpected := by
  refine ⟨_, rfl, fun start => ⟨tracks_reset p₀.io, .inl rfl, .inl rfl⟩, ⟨?_, fun _ => ?_⟩, rfl, rfl⟩
  · change 0 = xsvfGetAsNumBytes 0
    decide
  · change ¬overflows 0
    decide

/-- After `XSDRSIZE`. -/
theorem xsvfDoXSDRSIZE_told (h : xsvfDoXSDRSIZE p = .ok p') : Told p' := by
  obtain ⟨⟨x, inp⟩, -, h⟩ := bind_eq_ok.mp h
  cases h
  dsimp only
  split
  · rename_i hlarge
    refine ⟨rfl, fun hrunning => ?_⟩
    obtain ⟨hnone, -⟩ := hrunning
    simp [Player.noting] at hnone
  · rename_i hfits
    exact ⟨rfl, fun _ => hfits⟩

/-- What every step of a run keeps. -/
theorem run_keeps (hp : Sound start p) (htold : Told p) (hrunning : p.Running) (hrun : xsvfRun tdo p = .ok p') :
    Sound start p' ∧ Told p' ∧ (p.info.lvTdoExpected.len ≤ maxLen + 1 → p'.info.lvTdoExpected.len ≤ maxLen + 1) := by
  have hdid := (xsvfRun_outcome hp hrunning).of_ok hrun
  refine ⟨hdid.sound ((fetch_did p 0).sound hp), ?_, hdid.expected⟩
  by_cases hsize : p.fetch.info.ucCommand.toNat = 8
  · rw [xsvfRun, if_pos hrunning, hsize] at hrun
    exact xsvfDoXSDRSIZE_told hrun
  · obtain ⟨hbits, hbytes⟩ := hdid.size hsize
    refine ⟨?_, fun _ => ?_⟩
    · rw [hbits, hbytes]
      exact htold.bytes
    · rw [hbytes]
      exact htold.fits hrunning

theorem Reached.keeps (h : Reached tdo ok p₀ p) : (∀ start, Sound start p) ∧ Told p ∧
    (p₀.info.lvTdoExpected.len ≤ maxLen + 1 → p.info.lvTdoExpected.len ≤ maxLen + 1) := by
  induction h with
  | init hinit =>
    obtain ⟨p₁, hinit₁, hsound, htold, -, hexpected⟩ := xsvfInitialize_ok p₀
    cases hinit₁.symm.trans hinit
    exact ⟨hsound, htold, fun hlen => hexpected ▸ hlen⟩
  | run _ hrunning _ hrun ih =>
    obtain ⟨hsound, htold, hexpected⟩ := ih
    have hstep (start : Port Bool) := run_keeps (hsound start) htold hrunning hrun
    exact ⟨fun start => (hstep start).1, (hstep freshPort).2.1,
      fun hlen => (hstep freshPort).2.2 (hexpected hlen)⟩

/-- In every run, whatever state the device was in and whatever it answers, the player knows the state of the device
after each command, and scans will end in Run-Test/Idle or in the Pause state of their register. -/
theorem run_tracks (start : Port Bool) (h : Reached tdo ok p₀ p) :
    (portAt start p.io.events).state = tapState p.info.ucTapState ∧
      (p.info.ucEndIR = 1 ∨ p.info.ucEndIR = 13) ∧ (p.info.ucEndDR = 1 ∨ p.info.ucEndDR = 6) := by
  obtain ⟨hsound, -, -⟩ := h.keeps
  exact ⟨(hsound start).tracks.state, (hsound start).endIR, (hsound start).endDR⟩

/-- A player before anything is known of it. -/
def blankPlayer (inp : List (BitVec 8)) : Player :=
  let x : LenVal := ⟨0, fun _ => 0⟩
  ⟨⟨false, 0, .none, 0, 0, 0, 0, 0, 0, 0, x, x, x, x, x, x, x⟩, io0, inp⟩

/-- A command that ends scans in Pause-IR, and one that takes the device there. -/
theorem run_tracks_pause : ∃ p, Reached (fun _ => false) (fun _ => True) (blankPlayer [19, 1, 18, 13]) p ∧
    (portAt freshPort p.io.events).state = .pause .instruction := by
  have hrun : Reached (fun _ => false) (fun _ => True) (blankPlayer [19, 1, 18, 13]) _ :=
    .run (.run (.init rfl) ⟨rfl, rfl⟩ trivial rfl) ⟨rfl, rfl⟩ trivial rfl
  exact ⟨_, hrun, (run_tracks freshPort hrun).1⟩

theorem Told.sized (h : Told p) (hexpected : p.info.lvTdoExpected.len ≤ maxLen + 1)
    (hbits : p.info.lShiftLengthBits.toNat ≤ 8 * maxLen) : Sized p := by
  have hbytes : (xsvfGetAsNumBytes p.info.lShiftLengthBits).toNat = _ :=
    numBytes_toNat (by unfold maxLen at hbits; omega)
  refine ⟨?_, ?_, hexpected⟩
  · rw [h.bytes, hbytes]
    omega
  · rw [h.bytes, hbytes]
    omega

/-- No command leaves the arrays as long as the sizes that are told are not larger than the arrays. -/
theorem run_no_fault (hexpected : p₀.info.lvTdoExpected.len ≤ maxLen + 1) (h : Reached tdo ok p₀ p)
    (hbits : p.info.lShiftLengthBits.toNat ≤ 8 * maxLen) : xsvfRun tdo p ≠ .error .fault := by
  obtain ⟨hsound, htold, hlen⟩ := h.keeps
  have hsized := htold.sized (hlen hexpected) hbits
  intro hfault
  by_cases hrunning : p.Running
  · have houtcome := (xsvfRun_outcome (hsound freshPort) hrunning).of_error hfault
    exact houtcome ⟨hsized.bits, hsized.bytes, hsized.expected⟩
  · rw [xsvfRun_stopped hrunning] at hfault
    cases hfault

/-- The check of `XSDRSIZE` lets larger sizes through, and then `XSDR` leaves the arrays. -/
theorem run_xsdr_fault_iff (hexpected : p₀.info.lvTdoExpected.len ≤ maxLen + 1) (h : Reached tdo ok p₀ p)
    (hrunning : p.Running) (hxsdr : p.inp.head? = some 3) :
    xsvfRun tdo p = .error .fault ↔ 8 * maxLen < p.info.lShiftLengthBits.toNat := by
  constructor
  · intro hfault
    by_contra hbits
    exact run_no_fault hexpected h (by omega) hfault
  intro hbits
  obtain ⟨hsound, htold, -⟩ := h.keeps
  have hfits := htold.fits hrunning
  have hcommand : p.fetch.info.ucCommand.toNat = 3 := by
    obtain ⟨rest, hinp⟩ : ∃ rest, p.inp = 3 :: rest := List.head?_eq_some_iff.mp hxsdr
    rw [Player.fetch, readByte, hinp]
    rfl
  rw [xsvfRun, if_pos hrunning, hcommand]
  change xsvfDoXSDR tdo p.fetch = _
  have hread := readVal_outcome p.info.lvTdi p.info.sShiftLengthBytes p.fetch.inp
  rw [xsvfDoXSDR]
  change (readVal p.info.lvTdi p.info.sShiftLengthBytes p.fetch.inp >>= _) = _
  cases hval : readVal p.info.lvTdi p.info.sShiftLengthBytes p.fetch.inp with
  | error t =>
    obtain ⟨rfl, -⟩ := hread.of_error hval
    rfl
  | ok r =>
    obtain ⟨x, inp⟩ := r
    obtain ⟨-, hlen, hbytes, -⟩ := hread.of_ok hval
    have hsmall : p.info.sShiftLengthBytes.toNat ≤ maxLen := by
      unfold maxLen at hbytes
      rw [overflows, BitVec.toInt_eq_toNat_of_lt (by omega)] at hfits
      omega
    let q : Player := { p.fetch with info := { p.fetch.info with lvTdi := x }, inp := inp }
    have htracks : Tracks freshPort
      (ShiftState.mk q.info.ucTapState (some q.info.lvTdoCaptured) q.info.lRunTestTime q.io).ucTapState
        (ShiftState.mk q.info.ucTapState (some q.info.lvTdoCaptured) q.info.lRunTestTime q.io).io :=
          (hsound freshPort).tracks
    have hshift : xsvfShift tdo q.drArgs ⟨q.info.ucTapState, some q.info.lvTdoCaptured, q.info.lRunTestTime, q.io⟩ =
        .error .fault := by
      have hends : (∃ r, xsvfShift tdo q.drArgs _ = .ok r) ∧ _ ∨ _ :=
        xsvfShift_ends tdo htracks (hsound freshPort).endState.1
      obtain ⟨-, hroom⟩ | ⟨hfault, -⟩ := hends
      · have hnonzero : p.info.lShiftLengthBits ≠ 0 := by
          intro hzero
          rw [hzero] at hbits
          exact absurd hbits (by decide)
        have hroom : p.info.lShiftLengthBits.toNat ≤ 8 * x.len := (hroom hnonzero).1
        dsimp only at hlen
        omega
      · exact hfault
    change ((xsvfShift tdo q.drArgs _ >>= _) >>= _) = _
    rw [hshift]
    rfl

/-- 0x40000 bits, whose bytes are counted as -32768. -/
theorem run_xsdr_fault_size : ∃ p, Reached (fun _ => false) (fun _ => True) (blankPlayer [8, 0, 4, 0, 0, 3]) p ∧
    p.Running ∧ xsvfRun (fun _ => false) p = .error .fault := by
  have hrun : Reached (fun _ => false) (fun _ => True) (blankPlayer [8, 0, 4, 0, 0, 3]) _ :=
    .run (.init rfl) ⟨rfl, rfl⟩ trivial rfl
  exact ⟨_, hrun, ⟨rfl, rfl⟩, (run_xsdr_fault_iff (by decide) hrun ⟨rfl, rfl⟩ rfl).mpr (by decide)⟩

/-- A run that goes on takes a byte, or it stops at the end of the stream. -/
theorem run_shortens (h : Reached tdo ok p₀ p) (hrunning : p.Running) (hrun : xsvfRun tdo p = .ok p') :
    p'.inp.length < p.inp.length ∨ ¬p'.Running := by
  obtain ⟨hsound, -, -⟩ := h.keeps
  have hdid := (xsvfRun_outcome (hsound freshPort) hrunning).of_ok hrun
  have hlength := hdid.inp.length_le
  cases hinp : p.inp with
  | nil =>
    right
    have hcommand : p.fetch.info.ucCommand.toNat = 255 := by
      rw [Player.fetch, readByte, hinp]
      rfl
    rw [xsvfRun, if_pos hrunning, hcommand] at hrun
    cases hrun
    rintro ⟨hnone, -⟩
    simp [Player.noting] at hnone
  | cons b inp =>
    left
    have htail : p.fetch.inp = inp := by
      rw [Player.fetch, readByte, hinp]
      rfl
    rw [htail] at hlength
    rw [List.length_cons]
    omega

/-- Why a run does not return. -/
def Stuck (p : Player) : Trap → Prop
  | .hang => p.Running ∧ p.fetch.Hangs p.fetch.info.ucCommand.toNat
  | .fault => p.Running ∧ 8 * maxLen < p.info.lShiftLengthBits.toNat

theorem play_outcome (hexpected : p₀.info.lvTdoExpected.len ≤ maxLen + 1) {fuel : ℕ}
    (h : Reached tdo (fun _ => True) p₀ p) (hfuel : p.inp.length + 1 < fuel ∨ 0 < fuel ∧ ¬p.Running) :
    Outcome (fun p' => Reached tdo (fun _ => True) p₀ p' ∧ ¬p'.Running)
    (fun t => ∃ p', Reached tdo (fun _ => True) p₀ p' ∧ Stuck p' t) (play tdo fuel p) := by
  induction fuel generalizing p with
  | zero => omega
  | succ fuel ih =>
    rw [play]
    split
    · rename_i hrunning
      cases hrun : xsvfRun tdo p with
      | error t =>
        refine ⟨p, h, ?_⟩
        cases t with
        | hang =>
          obtain ⟨hsound, -, -⟩ := h.keeps
          exact ⟨hrunning, (xsvfRun_outcome (hsound freshPort) hrunning).of_error hrun⟩
        | fault =>
          refine ⟨hrunning, ?_⟩
          by_contra hbits
          exact run_no_fault hexpected h (by omega) hrun
      | ok p' =>
        have hlater := h.run hrunning trivial hrun
        have hlong := hfuel.resolve_right fun hstop => hstop.2 hrunning
        refine ih hlater ?_
        obtain hshort | hstopped := run_shortens h hrunning hrun
        · left
          omega
        · exact .inr ⟨by omega, hstopped⟩
    · rename_i hstopped
      exact ⟨h, hstopped⟩

/-- `xsvfExecute` returns, with the run stopped by an error or by `XCOMPLETE`, unless it comes to a command that has no
end or leaves the arrays after a size that is too large for them. -/
theorem xsvfExecute_outcome (hexpected : p₀.info.lvTdoExpected.len ≤ maxLen + 1) :
    Outcome (fun p => Reached tdo (fun _ => True) p₀ p ∧ ¬p.Running)
    (fun t => ∃ p, Reached tdo (fun _ => True) p₀ p ∧ Stuck p t) (xsvfExecute tdo p₀) := by
  obtain ⟨p, hinit, -⟩ := xsvfInitialize_ok p₀
  rw [xsvfExecute, hinit]
  exact play_outcome hexpected (.init hinit) (.inl (Nat.lt_succ_self _))

/-- A move to Pause-DR and the end of the stream. -/
theorem xsvfExecute_outcome_pause : Outcome
    (fun p => Reached (fun _ => false) (fun _ => True) (blankPlayer [18, 6, 0]) p ∧ ¬p.Running)
    (fun t => ∃ p, Reached (fun _ => false) (fun _ => True) (blankPlayer [18, 6, 0]) p ∧ Stuck p t)
    (xsvfExecute (fun _ => false) (blankPlayer [18, 6, 0])) :=
  xsvfExecute_outcome (by decide)

end Runs
end HtDrivers.Jtag
