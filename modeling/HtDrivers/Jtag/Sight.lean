import HtDrivers.Jtag.Runs

/-! What a device is told: the words that its Update states take over, the resets and the waits, in their order. The
operations of the player are read as operations on the word in progress, and the pins follow them. -/
namespace HtDrivers.Jtag
open HtDrivers.Lib.Tap HtDrivers.Lib.BigEndian HtDrivers.Lib.Checked
set_option autoImplicit false

/-! ## What the device is told -/

inductive Act
  | word (r : Scan) (bits : List Bool)
  | wait (s : TapState) (usec : BitVec 32)
  | reset
deriving DecidableEq

/-- On a clock: an Update takes over the word, and Test-Logic-Reset is entered. -/
def clockActs (port : Port Bool) (c : Clock Bool) : List Act :=
  match (port.clock c).state with
  | .update r => [.word r ((port.clock c).words r)]
  | .testLogicReset => if port.state = .testLogicReset then [] else [.reset]
  | _ => []

def acts (port : Port Bool) : List Event → List Act
  | [] => []
  | .clock c :: events => clockActs port c ++ acts (port.clock c) events
  | .wait usec :: events => .wait port.state usec :: acts port events

section Acts
variable {port : Port Bool} {events events' : List Event} {s t s' fuel : ℕ} {io io' : Io} {e : XsvfError}

theorem acts_append : acts port (events ++ events') = acts port events ++ acts (portAt port events) events' := by
  induction events generalizing port with
  | nil => rfl
  | cons event events ih =>
    cases event with
    | clock c =>
      rw [List.cons_append, acts, acts, ih, List.append_assoc]
      rfl
    | wait usec =>
      rw [List.cons_append, acts, acts, ih]
      rfl

theorem portAt_append : portAt port (events ++ events') = portAt (portAt port events) events' := by
  rw [portAt, portAt, portAt, clocks, List.filterMap_append, run_append]
  rfl

/-! ## The clocks of a move -/

/-- TMS on the way to the target. -/
def loopPath (t : ℕ) : ℕ → ℕ → List Bool
  | 0, _ => []
  | fuel + 1, s =>
    if t = s then []
    else match tapSwitch t s with
      | some (sTms, next) => sTms :: loopPath t fuel next
      | none => []

def path (s t : ℕ) : List Bool :=
  if t = 0 then List.replicate 6 true
  else if t = s ∧ (t = 6 ∨ t = 13) then true :: loopPath t 16 (s + 1)
  else loopPath t 16 s

def pathEvents (tdi : Bool) (tms : List Bool) : List Event := tms.map fun sTms => .clock ⟨sTms, tdi⟩

theorem gotoLoop_path (h : gotoLoop t fuel s io = .ok (s', io', .none)) :
    io'.events = io.events ++ pathEvents io.tdi (loopPath t fuel s) ∧ io'.tdi = io.tdi := by
  induction fuel generalizing s io with
  | zero => cases h
  | succ fuel ih =>
    rw [gotoLoop] at h
    rw [loopPath]
    split at h
    · cases h
      simp [*, pathEvents]
    · rename_i hne
      rw [if_neg hne]
      cases hnext : tapSwitch t s with
      | none =>
        rw [hnext] at h
        cases h
      | some next =>
        rw [hnext] at h
        obtain ⟨hevents, htdi⟩ := ih h
        rw [hevents, htdi, tmsTransition_eq, List.append_assoc]
        exact ⟨rfl, rfl⟩

theorem goto_path (h : xsvfGotoTapState s t io = .ok (s', io', .none)) :
    io'.events = io.events ++ pathEvents io.tdi (path s t) ∧ io'.tdi = io.tdi := by
  rw [xsvfGotoTapState] at h
  rw [path]
  split at h
  · rename_i hreset
    cases h
    rw [if_pos hreset]
    simp [pulses, pulse_eq, tmsTransition_eq, pathEvents]
  rename_i hreset
  rw [if_neg hreset]
  have hpause {next : ℕ} (hloop : gotoLoop t 16 next (xsvfTmsTransition true io) = .ok (s', io', .none)) :
      io'.events = io.events ++ pathEvents io.tdi (true :: loopPath t 16 next) ∧ io'.tdi = io.tdi := by
    obtain ⟨hevents, htdi⟩ := gotoLoop_path hloop
    rw [hevents, htdi, tmsTransition_eq, List.append_assoc]
    exact ⟨rfl, rfl⟩
  split at h
  · cases h
  split at h
  · rename_i hsix
    obtain ⟨rfl, rfl⟩ := hsix
    exact hpause h
  split at h
  · rename_i hthirteen
    obtain ⟨rfl, rfl⟩ := hthirteen
    exact hpause h
  · rename_i hsix hthirteen
    rw [if_neg (by omega)]
    exact gotoLoop_path h

end Acts

/-! ## Where the player waits -/

section Waits
variable {port start : Port Bool} {x y : ℕ × Io} {o : Op} {tdo : List Event → Bool} {ok : ℕ → Prop} {p₀ p : Player}
  {s : TapState} {usec : BitVec 32}

/-- Every wait is one in Run-Test/Idle, or it is one of `before`. -/
def Idles (before : List Act) (acts : List Act) : Prop := ∀ s usec, Act.wait s usec ∈ acts → Act.wait s usec ∈ before ∨
    s = .runTestIdle

theorem clocks_wait (cs : List (Clock Bool)) : Act.wait s usec ∉ acts port (cs.map .clock) := by
  induction cs generalizing port with
  | nil => exact List.not_mem_nil
  | cons c cs ih =>
    rw [List.map_cons, acts, List.mem_append]
    rintro (hfirst | hlater)
    · unfold clockActs at hfirst
      split at hfirst
      · simp at hfirst
      · split at hfirst <;> simp at hfirst
      · cases hfirst
    · exact ih hlater

theorem Idles.clocks {before : List Act} {events events' : List Event} (h : Idles before (acts start events))
    {cs : List (Clock Bool)} (hevents : events' = events ++ cs.map .clock) : Idles before (acts start events') := by
  intro s usec hmem
  rw [hevents, acts_append, List.mem_append] at hmem
  exact hmem.elim (h s usec) fun hnew => absurd hnew (clocks_wait cs)

theorem goto_clocks {s t s' : ℕ} {io io' : Io} {e : XsvfError} (h : Tracks start s io)
    (hgoto : xsvfGotoTapState s t io = .ok (s', io', e)) : ∃ cs : List (Clock Bool), io'.events = io.events ++
    cs.map .clock := by
  obtain ⟨-, -, hrefused, hmoved⟩ := h.goto_ok hgoto
  by_cases hnot : Refused s t
  · obtain ⟨-, rfl, -⟩ := hrefused hnot
    exact ⟨[], (List.append_nil _).symm⟩
  · obtain ⟨-, rfl⟩ := hmoved hnot
    refine ⟨(path s t).map fun sTms => ⟨sTms, io.tdi⟩, ?_⟩
    rw [(goto_path hgoto).1, pathEvents, List.map_map]
    rfl

theorem afterBits_clocks (exit : Bool) (n : ℕ) (tdi : LenVal) (io : Io) (q : ℕ) :
    ∃ cs : List (Clock Bool), (afterBits exit n tdi io q).events = io.events ++ cs.map .clock := by
  induction q with
  | zero => exact ⟨[], (List.append_nil _).symm⟩
  | succ q ih =>
    obtain ⟨cs, hcs⟩ := ih
    refine ⟨cs ++ [shiftClock exit n tdi q], ?_⟩
    rw [afterBits, hcs, List.map_append, List.append_assoc]
    rfl

theorem Idles.op {before : List Act} (h : Idles before (acts start x.2.events)) (htracks : Tracks start x.1 x.2)
    (hplain : o.Plain) (hrun : o.run x = .ok y) : Idles before (acts start y.2.events) := by
  cases o with
  | goto t =>
    obtain ⟨⟨s₁, io₁, e₁⟩, hgoto, hpure⟩ := bind_eq_ok.mp hrun
    cases hpure
    obtain ⟨cs, hevents⟩ := goto_clocks htracks hgoto
    exact h.clocks hevents
  | scan r exit n tdi =>
    obtain ⟨⟨s₁, io₁, e₁⟩, hgoto, hrun⟩ := bind_eq_ok.mp hrun
    obtain ⟨cs, hevents⟩ := goto_clocks htracks hgoto
    obtain ⟨ds, hshift⟩ := afterBits_clocks exit n tdi io₁ n
    dsimp only at hrun
    split at hrun
    · cases hrun
      exact (h.clocks hevents).clocks hshift
    · cases hrun
  | idle usec =>
    obtain ⟨⟨s₁, io₁, e₁⟩, hgoto, hpure⟩ := bind_eq_ok.mp hrun
    cases hpure
    obtain ⟨cs, hevents⟩ := goto_clocks htracks hgoto
    obtain ⟨-, htracks₁, -, hmoved⟩ := htracks.goto_ok hgoto
    obtain ⟨rfl, -⟩ := hmoved (by simp [Refused])
    intro s usec hmem
    dsimp only at hmem
    rw [waitTime_events, acts_append, List.mem_append] at hmem
    obtain hold | hnew := hmem
    · exact h.clocks hevents s usec hold
    · obtain heq := List.mem_singleton.mp hnew
      cases heq
      exact .inr htracks₁.state
  | wait usec => cases hplain

theorem Idles.runOps {before : List Act} {ops : List Op} (h : Idles before (acts start x.2.events))
    (htracks : Tracks start x.1 x.2) (hplain : ∀ op ∈ ops, op.Plain) (hrun : runOps ops x = .ok y) :
    Idles before (acts start y.2.events) := by
  have hkeep := foldlM_keeps (I := fun x => Tracks start x.1 x.2 ∧ Idles before (acts start x.2.events))
    (fun op hop x y hx hstep => ⟨hx.1.op (hplain op hop).valid hstep, hx.2.op hx.1 (hplain op hop) hstep⟩)
      ⟨htracks, h⟩ hrun
  exact hkeep.2

/-- But for `XWAIT`, the player never waits in another state than Run-Test/Idle. -/
theorem run_idles (start : Port Bool) (h : Reached tdo (· ≠ 23) p₀ p) :
    Idles (acts start p₀.io.events) (acts start p.io.events) := by
  induction h with
  | init hinit =>
    obtain ⟨⟨e, p⟩, hgoto, hpure⟩ := bind_eq_ok.mp hinit
    cases hpure
    cases hgoto
    have hbefore : Idles (acts start p₀.io.events) (acts start p₀.io.events) := fun s usec hmem => .inl hmem
    have hsix : (pulses 5 (xsvfTmsTransition true p₀.io)).events =
        p₀.io.events ++ (List.replicate 6 ⟨true, p₀.io.tdi⟩).map .clock := by
      simp [pulses, pulse_eq, tmsTransition_eq]
    exact hbefore.clocks hsix
  | run hbefore hrunning hwait hrun ih =>
    obtain ⟨hsound, -, -⟩ := hbefore.keeps
    obtain ⟨ops, hops, hmoved⟩ := ((xsvfRun_outcome (hsound start) hrunning).of_ok hrun).moved
    exact Idles.runOps (x := _) (y := _) ih (hsound start).tracks (fun op hop => (hops op hop).2 hwait) hmoved

/-- An instruction of eight bits, and the microseconds behind it. -/
theorem run_idles_sir : ∃ p, Reached (fun _ => false) (· ≠ 23) (blankPlayer [4, 0, 0, 0, 9, 2, 8, 0x3C]) p ∧
    p.io.events.getLast? = some (.wait 9) ∧ ∀ s usec, .wait s usec ∈ acts freshPort p.io.events → s = .runTestIdle := by
  have hrun : Reached (fun _ => false) (· ≠ 23) (blankPlayer [4, 0, 0, 0, 9, 2, 8, 0x3C]) _ :=
    .run (.run (.init rfl) ⟨rfl, rfl⟩ (by decide) rfl) ⟨rfl, rfl⟩ (by decide) rfl
  refine ⟨_, hrun, rfl, fun s usec hwait => ?_⟩
  exact (run_idles freshPort hrun s usec hwait).resolve_left List.not_mem_nil

end Waits

/-! ## The word in progress -/

/-- The register whose scan is under way, in the states where the player rests. -/
def reg : ℕ → Option Scan
  | 4 | 5 | 6 => some .data
  | 11 | 12 | 13 => some .instruction
  | _ => none

/-- The player's state, the word in progress, the level of TDI, and what the device has been told. -/
structure Sight where
  state : ℕ
  word : List Bool
  level : Bool
  acts : List Act

/-- The moves that go on with the word in progress. -/
def goesOn (s t : ℕ) : Prop :=
  (s, t) = (4, 4) ∨ (s, t) = (4, 6) ∨ (s, t) = (5, 6) ∨ (s, t) = (6, 4) ∨
    (s, t) = (11, 11) ∨ (s, t) = (11, 13) ∨ (s, t) = (12, 13) ∨ (s, t) = (13, 11)

instance (s t : ℕ) : Decidable (goesOn s t) := by
  unfold goesOn
  infer_instance

/-- On the way out of a Shift state the level of TDI is shifted once more. -/
def leftWord (s t : ℕ) (word : List Bool) (level : Bool) : List Bool :=
  if (s = 4 ∨ s = 11) ∧ t ≠ s then word ++ [level] else word

def takenWord (s t : ℕ) (word : List Bool) (level : Bool) : List Act :=
  match reg s with
  | some r => [.word r (leftWord s t word level)]
  | none => []

def Sight.goto (σ : Sight) (t : ℕ) : Sight :=
  if goesOn σ.state t then ⟨t, leftWord σ.state t σ.word σ.level, σ.level, σ.acts⟩
  else
    let reset := if t = 0 ∧ σ.state ≠ 0 then [.reset] else []
    ⟨t, [], σ.level, σ.acts ++ (takenWord σ.state t σ.word σ.level ++ reset)⟩

def Sight.scan (σ : Sight) (r : Scan) (exit : Bool) (bits : List Bool) : Sight :=
  let σ := σ.goto (shiftState r)
  { σ with
    state := if exit then σ.state + 1 else σ.state
    word := σ.word ++ bits
    level := bits.getLastD σ.level }

def Sight.wait (σ : Sight) (usec : BitVec 32) : Sight := { σ with acts := σ.acts ++ [.wait (tapState σ.state) usec] }

def Sight.op (σ : Sight) : Op → Sight
  | .goto t => σ.goto t
  | .scan r exit n tdi => σ.scan r exit ((List.range n).map tdi.bit)
  | .idle usec => (σ.goto 1).wait usec
  | .wait usec => σ.wait usec

/-- The states between operations, and those that moves lead to. -/
def restStates : List ℕ := [0, 1, 4, 5, 6, 11, 12, 13]

def targets : List ℕ := [0, 1, 4, 6, 11, 13]

def Op.Stable : Op → Prop
  | .goto t => t ∈ targets
  | .scan _ _ n _ => 0 < n
  | _ => True

/-- The pins and the device behind a sight. -/
structure Sees (start : Port Bool) (x : ℕ × Io) (σ : Sight) : Prop where
  tracks : Tracks start x.1 x.2
  state : x.1 = σ.state
  rests : σ.state ∈ restStates
  word : ∀ r ∈ reg σ.state, (portAt start x.2.events).words r = σ.word
  level : x.2.tdi = σ.level
  acts : acts start x.2.events = σ.acts

section Sees
variable {start : Port Bool} {x y : ℕ × Io} {σ : Sight} {s t : ℕ} {io io' : Io} {ops : List Op}

/-- What the clocks of a move tell the device, and what is left in the register. -/
theorem path_acts (hs : s ∈ restStates) (ht : t ∈ targets) (words : Scan → List Bool)
    (updates : Scan → List (List Bool)) (level : Bool) (word : List Bool) (hword : ∀ r ∈ reg s, words r = word) :
    acts ⟨tapState s, words, updates⟩ (pathEvents level (path s t)) =
        (if goesOn s t then [] else takenWord s t word level ++ if t = 0 ∧ s ≠ 0 then [.reset] else []) ∧
      ∀ r ∈ reg t, (portAt ⟨tapState s, words, updates⟩ (pathEvents level (path s t))).words r =
        if goesOn s t then leftWord s t word level else [] := by
  simp only [restStates, List.mem_cons, List.not_mem_nil, or_false] at hs
  simp only [targets, List.mem_cons, List.not_mem_nil, or_false] at ht
  obtain rfl | rfl | rfl | rfl | rfl | rfl | rfl | rfl := hs
  all_goals obtain rfl | rfl | rfl | rfl | rfl | rfl := ht
  all_goals
    try obtain rfl := hword _ rfl
    refine ⟨rfl, fun r hr => ?_⟩
    cases hr
    try rfl

theorem targets_not_refused (ht : t ∈ targets) : t < 16 ∧ ¬Refused s t := by
  simp only [targets, List.mem_cons, List.not_mem_nil, or_false] at ht
  obtain rfl | rfl | rfl | rfl | rfl | rfl := ht
  all_goals exact ⟨by decide, by simp [Refused]⟩

theorem targets_rest (ht : t ∈ targets) : t ∈ restStates := by
  simp only [targets, List.mem_cons, List.not_mem_nil, or_false] at ht
  obtain rfl | rfl | rfl | rfl | rfl | rfl := ht
  all_goals decide

@[simp] theorem Sight.goto_state (σ : Sight) (t : ℕ) : (σ.goto t).state = t := by
  rw [Sight.goto]
  split <;> rfl

theorem Sees.goto (h : Sees start (s, io) σ) (ht : t ∈ targets) {s' : ℕ} {e : XsvfError}
    (hgoto : xsvfGotoTapState s t io = .ok (s', io', e)) : Sees start (s', io') (σ.goto t) := by
  obtain ⟨hcode, hnot⟩ := targets_not_refused (s := s) ht
  obtain ⟨-, htracks, -, hmoved⟩ := h.tracks.goto_ok hgoto
  obtain ⟨rfl, rfl⟩ := hmoved hnot
  obtain ⟨hevents, htdi⟩ := goto_path hgoto
  obtain rfl : s = σ.state := h.state
  have hport : portAt start io.events =
      ⟨tapState σ.state, (portAt start io.events).words, (portAt start io.events).updates⟩ := by
    rw [← h.tracks.state]
  obtain ⟨hacts, hword⟩ := path_acts h.rests ht (portAt start io.events).words (portAt start io.events).updates io.tdi
    σ.word h.word
  have hlevel : io.tdi = σ.level := h.level
  rw [← hport, hlevel] at hacts hword
  refine ⟨htracks, (σ.goto_state s').symm, ?_, ?_, ?_, ?_⟩
  · rw [Sight.goto_state]
    exact targets_rest ht
  · intro r hr
    rw [Sight.goto_state] at hr
    change (portAt start io'.events).words r = _
    rw [hevents, portAt_append, hlevel, hword r hr, Sight.goto]
    split <;> rfl
  · change io'.tdi = _
    rw [htdi, hlevel, Sight.goto]
    split <;> rfl
  · change Jtag.acts start io'.events = _
    have hbefore : Jtag.acts start io.events = σ.acts := h.acts
    rw [hevents, acts_append, hlevel, hacts, hbefore, Sight.goto]
    split
    · exact List.append_nil _
    · rfl

theorem Sees.wait {usec : BitVec 32} (h : Sees start (s, io) σ) : Sees start (s, waitTime usec io) (σ.wait usec) := by
  have hevents := waitTime_events usec io
  refine ⟨h.tracks.wait, h.state, h.rests, fun r hr => ?_, h.level, ?_⟩
  · change (portAt start (waitTime usec io).events).words r = _
    rw [hevents, portAt_wait]
    exact h.word r hr
  · have hstate : (portAt start io.events).state = tapState σ.state := h.tracks.state.trans (congrArg tapState h.state)
    have hbefore : Jtag.acts start io.events = σ.acts := h.acts
    change Jtag.acts start (waitTime usec io).events = _
    rw [hevents, acts_append, hbefore, Jtag.acts, Jtag.acts, hstate]
    rfl

theorem afterBits_acts {exit : Bool} {n q : ℕ} {tdi : LenVal} {r : Scan}
    (hstate : (portAt start io.events).state = .shift r)
    (hn : 0 < n) (hq : q ≤ n) : Jtag.acts start (afterBits exit n tdi io q).events = Jtag.acts start io.events := by
  induction q with
  | zero => rfl
  | succ q ih =>
    have hnot : ¬(exit = true ∧ q = n) := by omega
    have hquiet : ∀ (words : Scan → List Bool) (updates : Scan → List (List Bool)) (c : Clock Bool),
        clockActs ⟨.shift r, words, updates⟩ c = [] := by
      intro words updates c
      cases hc : c.tms <;> simp [clockActs, Port.clock, TapState.next, hc]
    rw [afterBits, acts_append, ih (by omega), afterBits_port hstate hn (by omega), if_neg hnot, acts, hquiet, acts]
    exact List.append_nil _

theorem Sees.scan {r : Scan} {exit : Bool} {n : ℕ} {tdi : LenVal} (h : Sees start x σ) (hn : 0 < n)
    (hrun : (Op.scan r exit n tdi).run x = .ok y) : Sees start y (σ.scan r exit ((List.range n).map tdi.bit)) := by
  obtain ⟨⟨s₁, io₁, e₁⟩, hgoto, hrun⟩ := bind_eq_ok.mp hrun
  have hmoved := h.goto (t := shiftState r) (by cases r <;> decide) hgoto
  dsimp only at hrun
  split at hrun
  · cases hrun
    obtain ⟨-, htracks, -, hcode⟩ := h.tracks.goto_ok hgoto
    obtain ⟨rfl, rfl⟩ := hcode shiftState_not_refused
    have hstate : (portAt start io₁.events).state = .shift r := by
      rw [htracks.state]
      cases r <;> rfl
    have hafter : (σ.scan r exit ((List.range n).map tdi.bit)).state =
        if exit then shiftState r + 1 else shiftState r := by
      rw [Sight.scan, Sight.goto_state]
    have hport : portAt start (afterBits exit n tdi io₁ n).events = _ := afterBits_port hstate hn (Nat.le_refl n)
    refine ⟨htracks.shifted exit tdi hn, hafter.symm, ?_, fun r' hr' => ?_, ?_, ?_⟩
    · rw [hafter]
      cases exit <;> cases r <;> decide
    · have hreg : reg (σ.scan r exit ((List.range n).map tdi.bit)).state = some r := by
        rw [hafter]
        cases exit <;> cases r <;> rfl
      obtain rfl : r = r' := Option.some.inj (hreg.symm.trans hr')
      have hword : (portAt start io₁.events).words r = (σ.goto (shiftState r)).word := by
        apply hmoved.word r
        rw [Sight.goto_state]
        cases r <;> rfl
      change (portAt start (afterBits exit n tdi io₁ n).events).words r = _
      rw [hport]
      exact (Function.update_self r _ _).trans (congrArg (· ++ (List.range n).map tdi.bit) hword)
    · obtain ⟨q, rfl⟩ : ∃ q, n = q + 1 := Nat.exists_eq_succ_of_ne_zero (by omega)
      simp [afterBits, Sight.scan, List.range_succ]
    · exact (afterBits_acts hstate hn (Nat.le_refl n)).trans hmoved.acts
  · cases hrun

/-- Every operation acts on the device as it acts on the word in progress. -/
theorem Sees.op {o : Op} (h : Sees start x σ) (hstable : o.Stable) (hrun : o.run x = .ok y) :
    Sees start y (σ.op o) := by
  cases o with
  | goto t =>
    obtain ⟨⟨s₁, io₁, e₁⟩, hgoto, hpure⟩ := bind_eq_ok.mp hrun
    cases hpure
    exact h.goto hstable hgoto
  | scan r exit n tdi => exact h.scan hstable hrun
  | idle usec =>
    obtain ⟨⟨s₁, io₁, e₁⟩, hgoto, hpure⟩ := bind_eq_ok.mp hrun
    cases hpure
    exact (h.goto (by decide) hgoto).wait
  | wait usec =>
    cases hrun
    exact h.wait

theorem Sees.runOps (h : Sees start x σ) (hstable : ∀ op ∈ ops, op.Stable) (hrun : runOps ops x = .ok y) :
    Sees start y (ops.foldl Sight.op σ) := by
  induction ops generalizing x σ with
  | nil =>
    cases hrun
    exact h
  | cons op ops ih =>
    rw [runOps_cons] at hrun
    obtain ⟨z, hz, hrest⟩ := bind_eq_ok.mp hrun
    exact ih (h.op (hstable op List.mem_cons_self) hz) (fun op hop => hstable op (List.mem_cons_of_mem _ hop)) hrest

end Sees
end HtDrivers.Jtag
