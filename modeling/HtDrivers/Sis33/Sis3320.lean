import HtDrivers.Sis33.Frozen

/-! # The sis3320 driver (`sis3320.c`)

Starting, cancelling and finishing an acquisition. Neither the cancel nor the work item takes the lock of the card,
so every access is a step of its own. The numbers of the acquisitions are not in the source: a place carries the
number of the acquisition that it arms the hardware for, or whose interrupt it handles.
-/
namespace HtDrivers.Sis33
open HtDrivers.Lib.Transition
set_option autoImplicit false

def sis3320EvLengths : List ℕ :=
  [33554432, 16777216, 4194304, 1048576, 262144, 65536, 16384, 4096, 1024, 512, 256, 128, 64]

def limits3320 : CardLimits where
  maxNrEvents := 512
  nChannels := 8
  evLengths := sis3320EvLengths
  nSegmentsMax := 2
  nSegmentsMin := 1

/-- Why the next allocation or the next read of the event directory fails. -/
inductive Fault
  | none
  | alloc
  | read
  deriving DecidableEq, Repr

/-- The hardware, with what its next reads and the next allocations give. -/
structure Hw3320 where
  /-- The acquisition that the sampling logic is armed for. -/
  armed : Option ℕ
  /-- The last-event status (`INTCTL_ST_LEV`), with the acquisition that has set it. -/
  lev : Option ℕ
  /-- `SIS3320_EV_COUNTER`. -/
  counter : ℕ
  fault : Fault
  fresh : ℕ

inductive Event3320
  /-- The acquisition ends by itself. -/
  | lastEvent
  | counter (n : ℕ)
  | fault (f : Fault)
  deriving DecidableEq

def hw3320Init : Hw3320 := ⟨none, none, 0, .none, 0⟩

def hw3320Next : Event3320 → Hw3320 → Option Hw3320
  | .lastEvent, hw =>
    match hw.armed with
    | some no => some { hw with armed := none, lev := some no }
    | none => none
  | .counter n, hw => some { hw with counter := n }
  | .fault f, hw => some { hw with fault := f }

/-- The places in the operations. `by` of `acq_complete` is the interrupt it is called for, if any. -/
inductive Place3320
  /-- `sis3320_acq_start`. -/
  | initCompletion (no : ℕ)
  | arm (no : ℕ)
  /-- `sis3320_acq_cancel`. -/
  | disarm
  /-- `sis3320_acq_complete`. -/
  | complete (cause : Option ℕ)
  | clear (cause : Option ℕ) (segmentNr : ℕ)
  | completeAll (cause : Option ℕ)
  /-- `sis3320_irq_work`. -/
  | status
  | disableLev (no : ℕ)
  /-- `sis3320_read_segment`. -/
  | readSegment (no : ℕ)
  | freeEvents (no segmentNr : ℕ)
  | count (no segmentNr : ℕ)
  | allocEvents (no segmentNr : ℕ)
  | readEventsDir (no segmentNr : ℕ)
  /-- `sis3320_read_prevticks`. -/
  | readPrevticks (no : ℕ)
  | freePrevticks (no segmentNr : ℕ)
  | fillPrevticks (no segmentNr : ℕ)
  | enableLev
  /-- `sis3320_fetch`. -/
  | fetch (segmentNr nrEvents : ℕ)
  deriving DecidableEq

/-- `EV_COUNTER_MASK` -/
def evCounterMask : ℕ := 0xfffff

/-- What `sis3320_read_event` returns before it reads the samples. -/
def readEvent3320 (segment : Segment Caches) (fault : Fault) (nrEvents : ℕ) : Ret :=
  if segment.nrEvents = 0 ∨ segment.cache.events = .null then .error .enodata
  else if segment.cache.events = .err ∨ segment.cache.prevticks = .err then .error .enomem
  else if fault = .read then .error .eio
  else .value nrEvents

def step3320 (version : ℕ) : Place3320 → Dev Caches Hw3320 → Move Place3320 × Dev Caches Hw3320
  | .initCompletion no, dev => (.goto (.arm no), { dev with completion := false })
  | .arm no, dev => (.ret (.value 0), { dev with hw := { dev.hw with armed := some no } })
  | .disarm, dev => (.goto (.complete none), { dev with hw := { dev.hw with armed := none } })
  | .complete cause, dev => (.goto (.clear cause dev.card.currSegment), dev)
  | .clear cause i, dev => (.goto (.completeAll cause), dev.clearAcquiring i)
  | .completeAll cause, dev =>
    (if cause = none then .ret (.value 0) else .goto .enableLev, { dev with completion := true })
  | .status, dev =>
    match dev.hw.lev with
    | some no => (.goto (.disableLev no), dev)
    | none => (.ret (.value 0), dev)
  | .disableLev no, dev => (.goto (.readSegment no), { dev with hw := { dev.hw with lev := none } })
  | .readSegment no, dev => (.goto (.freeEvents no dev.card.currSegment), dev)
  | .freeEvents no i, dev =>
    match (dev.segment i).cache.events with
    | .block _ => (.goto (.count no i), dev.setEvents i .null 0)
    | _ => (.goto (.count no i), dev)
  | .count no i, dev =>
    let n := dev.hw.counter &&& evCounterMask
    (if n = 0 then .goto (.readPrevticks no) else .goto (.allocEvents no i),
      dev.setEvents i (dev.segment i).cache.events n)
  | .allocEvents no i, dev =>
    if dev.hw.fault = .alloc then
      (.goto (.readPrevticks no), dev.setEvents i .err (dev.segment i).nrEvents)
    else
      (.goto (.readEventsDir no i),
        { dev.setEvents i (.block dev.hw.fresh) (dev.segment i).nrEvents with
          hw := { dev.hw with fresh := dev.hw.fresh + 1 } })
  | .readEventsDir no i, dev =>
    (.goto (.readPrevticks no), if dev.hw.fault = .read then dev.setEvents i .null 0 else dev)
  | .readPrevticks no, dev =>
    -- only the sis3302 timestamps its events
    if version ≠ 3302 ∨ (dev.segment dev.card.currSegment).nrEvents = 0 then (.goto (.complete (some no)), dev)
    else (.goto (.freePrevticks no dev.card.currSegment), dev)
  | .freePrevticks no i, dev => (.goto (.fillPrevticks no i), dev.setPrevticks i .null)
  | .fillPrevticks no i, dev =>
    match dev.hw.fault with
    | .alloc => (.goto (.complete (some no)), dev.setPrevticks i .err)
    | .read => (.goto (.complete (some no)), dev)
    | .none =>
      (.goto (.complete (some no)),
        { dev.setPrevticks i (.block dev.hw.fresh) with hw := { dev.hw with fresh := dev.hw.fresh + 1 } })
  | .enableLev, dev => (.ret (.value 0), dev)
  | .fetch i n, dev => (.ret (readEvent3320 (dev.segment i) dev.hw.fault n), dev)

/-- `sis3320_ops`. What `conf_ev` writes is read by the hardware only. -/
def sis3320 (version : ℕ) : Driver Caches Hw3320 Place3320 Event3320 where
  confEv _ hw := hw
  acqStart no := .initCompletion no
  acqCancel := .disarm
  irqWork := .status
  fetch i _ n := .fetch i n
  step := step3320 version
  hw := hw3320Next

/-! ## The contract -/

def Place3320.role : Place3320 → Role
  | .initCompletion _ | .arm _ => .acqStart
  | .disarm | .complete none | .clear none _ | .completeAll none => .acqCancel
  | .fetch _ _ => .fetch
  | _ => .irqWork

/-- The acquisition that a place is about, until it is marked finished. -/
def Place3320.no : Place3320 → Option ℕ
  | .initCompletion no | .arm no | .disableLev no | .readSegment no | .freeEvents no _ | .count no _
  | .allocEvents no _ | .readEventsDir no _ | .readPrevticks no | .freePrevticks no _ | .fillPrevticks no _ => some no
  | .complete cause | .clear cause _ => cause
  | _ => none

/-- The segment whose contents the work item is about to change. -/
def Place3320.writes : Place3320 → Option ℕ
  | .freeEvents _ i | .count _ i | .allocEvents _ i | .readEventsDir _ i | .freePrevticks _ i
  | .fillPrevticks _ i => some i
  | _ => none

def Place3320.handles : Place3320 → Option ℕ
  | .clear cause _ => cause
  | _ => none

def Place3320.fetches : Place3320 → Option ℕ
  | .fetch i _ => some i
  | _ => none

section Contract
variable {version : ℕ}

theorem step3320_framed : (sis3320 version).Framed := by
  intro p dev
  cases p
  all_goals simp only [sis3320, step3320]
  case clear => exact clearAcquiring_frame dev _
  case freeEvents =>
    split
    · exact setEvents_frame dev _ _ _
    · exact .refl _
  case count => exact setEvents_frame dev _ _ _
  case allocEvents =>
    split
    · exact setEvents_frame dev _ _ _
    · exact setEvents_frame dev _ _ _
  case readEventsDir =>
    split
    · exact setEvents_frame dev _ _ _
    · exact .refl _
  case readPrevticks =>
    split
    · exact .refl _
    · exact .refl _
  case freePrevticks => exact setPrevticks_frame dev _ _
  case fillPrevticks =>
    split
    · exact setPrevticks_frame dev _ _
    · exact .refl _
    · exact setPrevticks_frame dev _ _
  case status =>
    split
    · exact .refl _
    · exact .refl _
  all_goals exact .refl _

def Hw3320.Has (hw : Hw3320) (no : ℕ) : Prop := hw.armed = some no ∨ hw.lev = some no

theorem step3320_role (p : Place3320) (dev : Dev Caches Hw3320) (q : Place3320)
    (h : (step3320 version p dev).1 = .goto q) : q.role = p.role := by
  cases p
  case complete cause =>
    cases h
    cases cause <;> rfl
  case clear cause i =>
    cases h
    cases cause <;> rfl
  case completeAll cause =>
    cases cause
    · cases h
    · cases h
      rfl
  case status =>
    simp only [step3320] at h
    split at h
    · cases h
      rfl
    · cases h
  case freeEvents | allocEvents | readPrevticks | fillPrevticks =>
    simp only [step3320] at h
    split at h
    all_goals
      cases h
      rfl
  case count =>
    simp only [step3320] at h
    split at h
    all_goals
      cases h
      rfl
  all_goals
    cases h
    try rfl

theorem step3320_hw (p : Place3320) (dev : Dev Caches Hw3320) (no : ℕ)
    (h : (step3320 version p dev).2.hw.Has no) : dev.hw.Has no ∨ p.no = some no := by
  cases p
  case arm k =>
    obtain h | h := h
    · exact .inr h
    · exact .inl (.inr h)
  case disarm =>
    obtain h | h := h
    · cases h
    · exact .inl (.inr h)
  case disableLev k =>
    obtain h | h := h
    · exact .inl (.inl h)
    · cases h
  case status | freeEvents | allocEvents | readEventsDir | readPrevticks | fillPrevticks =>
    simp only [step3320] at h
    split at h
    all_goals exact .inl h
  all_goals exact .inl h

/-- The numbers are handed on from place to place, and taken from the status at first. -/
theorem step3320_no (p : Place3320) (dev : Dev Caches Hw3320) (q : Place3320) (no : ℕ)
    (h : (step3320 version p dev).1 = .goto q) (hq : q.no = some no) : dev.hw.Has no ∨ p.no = some no := by
  cases p
  case completeAll cause =>
    cases cause
    · cases h
    · cases h
      cases hq
  case status =>
    simp only [step3320] at h
    split at h
    · rename_i hlev
      cases h
      exact .inl (.inr (hlev.trans hq))
    · cases h
  case freeEvents | allocEvents | readPrevticks | fillPrevticks | count =>
    simp only [step3320] at h
    split at h
    all_goals
      cases h
      exact .inr hq
  case clear cause i =>
    cases h
    cases hq
  case disarm =>
    cases h
    cases hq
  case arm | enableLev | fetch => cases h
  all_goals
    cases h
    exact .inr hq

theorem step3320_contents (p : Place3320) (dev : Dev Caches Hw3320) (i : ℕ) :
    Frozen (dev.segment i) ((step3320 version p dev).2.segment i) ∨ p.writes = some i ∨
      (dev.segment i).acquiring = true := by
  have hset : ∀ j segment, Frozen (dev.segment i) ((dev.setSegment j segment).segment i) ∨ some j = some i ∨
      (dev.segment i).acquiring = true := by
    intro j segment
    obtain h | h := setSegment_frozen dev j segment i
    · exact .inl h
    · exact .inr (.inl (congrArg some h))
  cases p
  case clear cause j => exact .inl (clearAcquiring_frozen dev j i)
  case count no j => exact hset j _
  case freePrevticks no j => exact hset j _
  case freeEvents no j =>
    simp only [step3320]
    split
    · exact hset j _
    · exact .inl (Frozen.refl _)
  case allocEvents no j =>
    simp only [step3320]
    split
    · exact hset j _
    · exact hset j _
  case readEventsDir no j =>
    simp only [step3320]
    split
    · exact hset j _
    · exact .inl (Frozen.refl _)
  case fillPrevticks no j =>
    simp only [step3320]
    split
    · exact hset j _
    · exact .inl (Frozen.refl _)
    · exact hset j _
  case status | readPrevticks =>
    simp only [step3320]
    split
    all_goals exact .inl (Frozen.refl _)
  all_goals exact .inl (Frozen.refl _)

/-- Only `acq_complete` marks an acquisition finished. -/
theorem step3320_finish (p : Place3320) (dev : Dev Caches Hw3320) (i : ℕ) (hacq : (dev.segment i).acquiring = true)
    (hdone : ((step3320 version p dev).2.segment i).acquiring = false) :
    p.role = .acqCancel ∨ p.role = .irqWork ∧ ∃ no, p.handles = some no := by
  have hkept : ((step3320 version p dev).2.segment i).acquiring = (dev.segment i).acquiring ∨
      ∃ cause j, p = .clear cause j := by
    cases p
    case clear cause j => exact .inr ⟨cause, j, rfl⟩
    case freeEvents | readEventsDir =>
      simp only [step3320]
      split
      · exact .inl (setEvents_acquiring ..)
      · exact .inl rfl
    case allocEvents =>
      simp only [step3320]
      split
      · exact .inl (setEvents_acquiring ..)
      · exact .inl (setEvents_acquiring ..)
    case fillPrevticks =>
      simp only [step3320]
      split
      · exact .inl (setPrevticks_acquiring ..)
      · exact .inl rfl
      · exact .inl (setPrevticks_acquiring ..)
    case count => exact .inl (setEvents_acquiring ..)
    case freePrevticks => exact .inl (setPrevticks_acquiring ..)
    case status | readPrevticks =>
      simp only [step3320]
      split
      all_goals exact .inl rfl
    all_goals exact .inl rfl
  obtain h | ⟨cause, j, rfl⟩ := hkept
  · rw [h, hacq] at hdone
    cases hdone
  · cases cause with
    | none => exact .inl rfl
    | some no => exact .inr ⟨rfl, no, rfl⟩

/-- A transfer is one step. -/
theorem step3320_fetches (p : Place3320) (dev : Dev Caches Hw3320) (q : Place3320) (i : ℕ)
    (h : (step3320 version p dev).1 = .goto q) (hq : q.fetches = some i) : p.fetches = some i := by
  have hrole := step3320_role p dev q h
  cases q
  case fetch j n =>
    cases p
    case fetch => cases h
    case complete cause | clear cause _ | completeAll cause => cases cause <;> cases hrole
    all_goals cases hrole
  all_goals cases hq

def contract3320 (version : ℕ) : Contract (sis3320 version) where
  role := Place3320.role
  inHw := Hw3320.Has
  inPlace p no := p.no = some no
  writes p _ := p.writes
  handles p _ no := p.handles = some no
  fetches := Place3320.fetches
  drops _ := False
  fails _ _ := False
  framed := step3320_framed
  role_acqStart _ := rfl
  role_acqCancel := rfl
  role_irqWork := rfl
  role_fetch _ _ _ := rfl
  role_step := step3320_role
  acqStart_no _ _ h := (Option.some.inj h).symm
  acqCancel_no _ h := by cases h
  irqWork_no _ h := by cases h
  fetch_no _ _ _ _ h := by cases h
  fetch_fetches _ _ _ := rfl
  fetch_drops _ _ _ h := h
  drops_role _ h := h.elim
  step_fetches := step3320_fetches
  step_drops _ _ _ _ h := h
  step_hw := step3320_hw
  step_no := step3320_no
  confEv_hw _ _ _ h := h
  hw_hw e hw hw' no h hhas := by
    cases e with
    | lastEvent =>
      simp only [sis3320, hw3320Next] at h
      split at h
      · rename_i k harmed
        cases h
        obtain hhas | hhas := hhas
        · cases hhas
        · exact .inl (harmed.trans hhas)
      · cases h
    | counter n =>
      cases h
      exact hhas
    | fault f =>
      cases h
      exact hhas
  contents p dev i := by
    obtain h | h | h := step3320_contents p dev i
    · exact .inl h
    · exact .inr (.inl h)
    · exact .inr (.inr (.inl h))
  finish := step3320_finish
  handles_no p dev no h := by
    cases p
    case clear cause i => exact .inr h
    all_goals cases h

end Contract

end HtDrivers.Sis33
