import HtDrivers.Lib.Tap

/-! The pins of the JTAG port (`ports.c`) and the moves of the player through the states of the test access port
(`xsvfGotoTapState`, `micro.c`). -/
namespace HtDrivers.Jtag
open HtDrivers.Lib.Tap
set_option autoImplicit false

/-! ## Pins -/

inductive Pin
  | tck | tms | tdi

/-- What the device sees: TMS and TDI when TCK rises, and the waits in microseconds. -/
inductive Event
  | clock (c : Clock Bool)
  | wait (usec : BitVec 32)

structure Io where
  tms : Bool
  tdi : Bool
  tck : Bool
  events : List Event

def setPort (p : Pin) (val : Bool) (io : Io) : Io :=
  match p with
  | .tms => { io with tms := val }
  | .tdi => { io with tdi := val }
  | .tck =>
    let events := if val && !io.tck then io.events ++ [.clock ⟨io.tms, io.tdi⟩] else io.events
    { io with tck := val, events := events }

def waitTime (usec : BitVec 32) (io : Io) : Io :=
  let io := setPort .tck false io
  { io with events := io.events ++ [.wait usec] }

def xsvfTmsTransition (sTms : Bool) (io : Io) : Io := setPort .tck true (setPort .tck false (setPort .tms sTms io))

/-- The pins as the player finds them. -/
def io0 : Io := ⟨true, true, true, []⟩

/-! ## Moves -/

inductive XsvfError
  | none | unknown | tdoMismatch | maxRetries | illegalCmd | illegalState | dataOverflow
deriving DecidableEq

/-- A loop without end, or an access outside of the arrays. -/
inductive Trap
  | hang | fault
deriving DecidableEq

/-- The states as the player numbers them. -/
def tapState : ℕ → TapState
  | 0 => .testLogicReset
  | 1 => .runTestIdle
  | 2 => .select .data
  | 3 => .capture .data
  | 4 => .shift .data
  | 5 => .exit1 .data
  | 6 => .pause .data
  | 7 => .exit2 .data
  | 8 => .update .data
  | 9 => .select .instruction
  | 10 => .capture .instruction
  | 11 => .shift .instruction
  | 12 => .exit1 .instruction
  | 13 => .pause .instruction
  | 14 => .exit2 .instruction
  | 15 => .update .instruction
  | _ => .testLogicReset

/-- The switch on the state: TMS and the next state. -/
def tapSwitch (ucTargetState : ℕ) : ℕ → Option (Bool × ℕ)
  | 0 => some (false, 1)
  | 1 => some (true, 2)
  | 2 => if 9 ≤ ucTargetState then some (true, 9) else some (false, 3)
  | 3 => if ucTargetState = 4 then some (false, 4) else some (true, 5)
  | 4 => some (true, 5)
  | 5 => if ucTargetState = 6 then some (false, 6) else some (true, 8)
  | 6 => some (true, 7)
  | 7 => if ucTargetState = 4 then some (false, 4) else some (true, 8)
  | 8 => if ucTargetState = 1 then some (false, 1) else some (true, 2)
  | 9 => some (false, 10)
  | 10 => if ucTargetState = 11 then some (false, 11) else some (true, 12)
  | 11 => some (true, 12)
  | 12 => if ucTargetState = 13 then some (false, 13) else some (true, 15)
  | 13 => some (true, 14)
  | 14 => if ucTargetState = 11 then some (false, 11) else some (true, 15)
  | 15 => if ucTargetState = 1 then some (false, 1) else some (true, 2)
  | _ => none

/-- The loop towards the target; it has no end when it runs out of any fuel. -/
def gotoLoop (ucTargetState : ℕ) : ℕ → ℕ → Io → Except Trap (ℕ × Io × XsvfError)
  | 0, _, _ => .error .hang
  | fuel + 1, ucTapState, io =>
    if ucTargetState = ucTapState then .ok (ucTapState, io, .none)
    else match tapSwitch ucTargetState ucTapState with
      | some (sTms, next) => gotoLoop ucTargetState fuel next (xsvfTmsTransition sTms io)
      | none => .ok (ucTargetState, io, .illegalState)

def pulses : ℕ → Io → Io
  | 0, io => io
  | n + 1, io => pulses n (setPort .tck true (setPort .tck false io))

/-- The moves that the player refuses: into Exit2, but from Pause. -/
def Refused (ucTapState ucTargetState : ℕ) : Prop :=
  ucTargetState ≠ ucTapState ∧ (ucTargetState = 7 ∧ ucTapState ≠ 6 ∨ ucTargetState = 14 ∧ ucTapState ≠ 13)

instance (ucTapState ucTargetState : ℕ) : Decidable (Refused ucTapState ucTargetState) :=
  inferInstanceAs (Decidable (_ ∧ _))

/-- The state and the pins afterwards, and the error. -/
def xsvfGotoTapState (ucTapState ucTargetState : ℕ) (io : Io) : Except Trap (ℕ × Io × XsvfError) :=
  if ucTargetState = 0 then .ok (0, pulses 5 (xsvfTmsTransition true io), .none)
  else if Refused ucTapState ucTargetState then .ok (ucTapState, io, .illegalState)
  -- in a Pause state the player leaves it and comes back
  else if ucTargetState = ucTapState ∧ ucTargetState = 6 then gotoLoop ucTargetState 16 7 (xsvfTmsTransition true io)
  else if ucTargetState = ucTapState ∧ ucTargetState = 13 then gotoLoop ucTargetState 16 14 (xsvfTmsTransition true io)
  else gotoLoop ucTargetState 16 ucTapState io

/-! ## The device -/

def clocks (events : List Event) : List (Clock Bool) :=
  events.filterMap fun
    | .clock c => some c
    | .wait _ => none

/-- The port of a device that was in `start` when the player began. -/
def portAt (start : Port Bool) (events : List Event) : Port Bool := start.run (clocks events)

section Pins
variable {start : Port Bool} {c : Clock Bool} {usec : BitVec 32} {events : List Event}

@[simp] theorem portAt_clock : portAt start (events ++ [.clock c]) = (portAt start events).clock c := by
  have hclocks : clocks (events ++ [.clock c]) = clocks events ++ [c] := by simp [clocks]
  rw [portAt, hclocks, run_append]
  rfl

@[simp] theorem portAt_wait : portAt start (events ++ [.wait usec]) = portAt start events := by
  have hclocks : clocks (events ++ [.wait usec]) = clocks events := by simp [clocks]
  rw [portAt, hclocks]
  rfl

theorem tmsTransition_eq (sTms : Bool) (io : Io) :
    xsvfTmsTransition sTms io = ⟨sTms, io.tdi, true, io.events ++ [.clock ⟨sTms, io.tdi⟩]⟩ := rfl

theorem pulse_eq (io : Io) :
    setPort .tck true (setPort .tck false io) = ⟨io.tms, io.tdi, true, io.events ++ [.clock ⟨io.tms, io.tdi⟩]⟩ := rfl

theorem waitTime_events (usec : BitVec 32) (io : Io) : (waitTime usec io).events = io.events ++ [.wait usec] := by
  simp [waitTime, setPort]

end Pins

/-! ## The state that the player believes in -/

/-- The device is in the state that the player has noted, and where words are shifted TMS does not leave it. -/
structure Tracks (start : Port Bool) (ucTapState : ℕ) (io : Io) : Prop where
  code : ucTapState < 16
  state : (portAt start io.events).state = tapState ucTapState
  shift : ucTapState = 4 ∨ ucTapState = 11 → io.tms = false

section Goto
variable {start : Port Bool} {io io' : Io} {ucTapState ucTargetState s s' fuel : ℕ} {sTms : Bool} {e : XsvfError}
  {usec : BitVec 32}

theorem tapSwitch_next (h : tapSwitch ucTargetState s = some (sTms, s')) :
    s' < 16 ∧ tapState s' = (tapState s).next sTms ∧ (s' = 4 ∨ s' = 11 → sTms = false) := by
  unfold tapSwitch at h
  split at h
  all_goals
    try split at h
    all_goals
      cases h
      try exact ⟨by decide, rfl, by decide⟩

theorem tapSwitch_isSome (hs : s < 16) : (tapSwitch ucTargetState s).isSome = true := by
  interval_cases s
  all_goals
    simp only [tapSwitch]
    first
    | rfl
    | (split <;> rfl)

theorem Tracks.transition (h : Tracks start s io) (hnext : tapSwitch ucTargetState s = some (sTms, s')) :
    Tracks start s' (xsvfTmsTransition sTms io) := by
  obtain ⟨hcode, hstate, hshift⟩ := tapSwitch_next hnext
  refine ⟨hcode, ?_, hshift⟩
  rw [tmsTransition_eq, portAt_clock, hstate, ← h.state]
  rfl

theorem Tracks.wait (h : Tracks start s io) : Tracks start s (waitTime usec io) := by
  refine ⟨h.code, ?_, h.shift⟩
  rw [waitTime_events, portAt_wait]
  exact h.state

theorem Tracks.gotoLoop (h : Tracks start s io) (hgoto : gotoLoop ucTargetState fuel s io = .ok (s', io', e)) :
    Tracks start s' io' ∧ s' = ucTargetState ∧ e = .none := by
  induction fuel generalizing s io with
  | zero => cases hgoto
  | succ fuel ih =>
    rw [Jtag.gotoLoop] at hgoto
    split at hgoto
    · rename_i htarget
      cases hgoto
      exact ⟨h, htarget.symm, rfl⟩
    · split at hgoto
      · rename_i hnext
        exact ih (h.transition hnext) hgoto
      · rename_i hnone
        have hsome : (tapSwitch ucTargetState s).isSome = true := tapSwitch_isSome h.code
        rw [hnone] at hsome
        cases hsome

/-- Whether the loop comes to its target. -/
def arrives (ucTargetState : ℕ) : ℕ → ℕ → Bool
  | 0, _ => false
  | fuel + 1, s => ucTargetState = s || (tapSwitch ucTargetState s).any fun next => arrives ucTargetState fuel next.2

theorem gotoLoop_ends (h : arrives ucTargetState fuel s = true) (io : Io) :
    ∃ io', Jtag.gotoLoop ucTargetState fuel s io = .ok (ucTargetState, io', .none) := by
  induction fuel generalizing s io with
  | zero => cases h
  | succ fuel ih =>
    rw [arrives, Bool.or_eq_true, decide_eq_true_eq] at h
    rw [Jtag.gotoLoop]
    split
    · rename_i htarget
      exact ⟨io, by rw [htarget]⟩
    · rename_i htarget
      have hgo := h.resolve_left htarget
      cases hnext : tapSwitch ucTargetState s with
      | none =>
        rw [hnext] at hgo
        cases hgo
      | some next =>
        rw [hnext] at hgo
        exact ih hgo _

theorem arrives_all : ∀ t < 16, ∀ s < 16, t ∉ [0, 7, 14] → arrives t 16 s = true := by
  decide

theorem arrives_exit2 : arrives 7 16 6 = true ∧ arrives 14 16 13 = true := by
  decide

theorem gotoLoop_hangs (hs : s < 16) (htarget : 16 ≤ ucTargetState) (fuel : ℕ) (io : Io) :
    Jtag.gotoLoop ucTargetState fuel s io = .error .hang := by
  induction fuel generalizing s io with
  | zero => rfl
  | succ fuel ih =>
    have hsome : (tapSwitch ucTargetState s).isSome = true := tapSwitch_isSome hs
    obtain ⟨next, hnext⟩ := Option.isSome_iff_exists.mp hsome
    rw [Jtag.gotoLoop, if_neg (by omega), hnext]
    exact ih (tapSwitch_next hnext).1 _

theorem tracks_reset (io : Io) : Tracks start 0 (pulses 5 (xsvfTmsTransition true io)) := by
  refine ⟨by decide, ?_, by omega⟩
  simp only [pulses, tmsTransition_eq, pulse_eq, portAt_clock]
  generalize portAt start io.events = port
  obtain ⟨state, words, updates⟩ := port
  cases state with
  | select r => cases r <;> rfl
  | _ => rfl

/-- A move to any state of the port ends with the device in the state that the player notes, which is the one it asked
for unless the move is refused. -/
theorem Tracks.goto (h : Tracks start s io) (htarget : ucTargetState < 16) :
    ∃ s' io' e, xsvfGotoTapState s ucTargetState io = .ok (s', io', e) ∧ Tracks start s' io' ∧
      (Refused s ucTargetState → s' = s ∧ io' = io ∧ e = .illegalState) ∧
      (¬Refused s ucTargetState → s' = ucTargetState ∧ e = .none) := by
  have hloop : ∀ {s io}, Tracks start s io → arrives ucTargetState 16 s = true →
      ∃ s' io' e, Jtag.gotoLoop ucTargetState 16 s io = .ok (s', io', e) ∧ Tracks start s' io' ∧
        s' = ucTargetState ∧ e = .none := by
    intro s io htracks harrives
    obtain ⟨io', hio⟩ := gotoLoop_ends harrives io
    exact ⟨_, io', _, hio, (htracks.gotoLoop hio).1, rfl, rfl⟩
  rw [xsvfGotoTapState]
  by_cases hreset : ucTargetState = 0
  · have hnot : ¬Refused s ucTargetState := by
      rintro ⟨-, h7 | h14⟩
      · omega
      · omega
    rw [if_pos hreset]
    exact ⟨0, _, _, rfl, tracks_reset io, fun href => absurd href hnot, fun _ => ⟨hreset.symm, rfl⟩⟩
  by_cases href : Refused s ucTargetState
  · rw [if_neg hreset, if_pos href]
    exact ⟨s, io, _, rfl, h, fun _ => ⟨rfl, rfl, rfl⟩, fun hnot => absurd href hnot⟩
  suffices hgo : ∃ s' io' e, (if ucTargetState = s ∧ ucTargetState = 6 then
      Jtag.gotoLoop ucTargetState 16 7 (xsvfTmsTransition true io)
      else if ucTargetState = s ∧ ucTargetState = 13 then Jtag.gotoLoop ucTargetState 16 14 (xsvfTmsTransition true io)
      else Jtag.gotoLoop ucTargetState 16 s io) = .ok (s', io', e) ∧ Tracks start s' io' ∧ s' = ucTargetState ∧
        e = .none by
    obtain ⟨s', io', e, hgoto, htracks, harrived⟩ := hgo
    rw [if_neg hreset, if_neg href]
    exact ⟨s', io', e, hgoto, htracks, fun h => absurd h href, fun _ => harrived⟩
  split
  · rename_i hpause
    obtain ⟨rfl, rfl⟩ := hpause
    have hswitch : tapSwitch 6 6 = some (true, 7) := rfl
    exact hloop (h.transition hswitch) (arrives_all 6 (by decide) 7 (by decide) (by decide))
  split
  · rename_i hpause
    obtain ⟨rfl, rfl⟩ := hpause
    have hswitch : tapSwitch 13 13 = some (true, 14) := rfl
    exact hloop (h.transition hswitch) (arrives_all 13 (by decide) 14 (by decide) (by decide))
  · apply hloop h
    by_cases hexit2 : ucTargetState ∈ [0, 7, 14]
    · have hfrom : ucTargetState = s ∨ ucTargetState = 7 ∧ s = 6 ∨ ucTargetState = 14 ∧ s = 13 := by
        simp only [List.mem_cons, List.not_mem_nil, or_false] at hexit2
        simp only [Refused, not_and_or, not_or] at href
        omega
      obtain rfl | ⟨rfl, rfl⟩ | ⟨rfl, rfl⟩ := hfrom
      · simp [arrives]
      · exact arrives_exit2.1
      · exact arrives_exit2.2
    · exact arrives_all ucTargetState htarget s h.code hexit2

theorem xsvfGotoTapState_hangs (hs : s < 16) (htarget : 16 ≤ ucTargetState) (io : Io) :
    xsvfGotoTapState s ucTargetState io = .error .hang := by
  have hnot : ¬Refused s ucTargetState := by
    rintro ⟨-, h7 | h14⟩
    · omega
    · omega
  rw [xsvfGotoTapState, if_neg (by omega), if_neg hnot, if_neg (by omega), if_neg (by omega)]
  exact gotoLoop_hangs hs htarget 16 io

end Goto
end HtDrivers.Jtag
