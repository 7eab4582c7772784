import HtDrivers.Sis33.Sis3320

/-! # The sis3300 driver (`sis3300.c`)

The cancel and the work item take the lock of the card, so each is one step. The work item handles what it finds
latched; a status that is latched while it runs, which the loop of the source would find, is handled by another run
here. `acq_start` and the transfers run without the lock.
-/
namespace HtDrivers.Sis33
open HtDrivers.Lib.Transition
set_option autoImplicit false

def sis3300EvLengths : List ℕ := [131072, 16384, 4096, 2048, 1024, 512, 256, 128]

/-- From revision 0x0308 on. -/
def sis330008EvLengths : List ℕ := [131072, 32768, 16384, 8192, 4096, 2048, 1024, 512, 256, 128]

def limits3300 (rev : ℕ) : CardLimits where
  maxNrEvents := 1024
  nChannels := 8
  evLengths := if 0x0308 ≤ rev then sis330008EvLengths else sis3300EvLengths
  nSegmentsMax := 2
  nSegmentsMin := 2

structure Hw3300 where
  /-- The acquisition that a bank is armed for. -/
  armed : Option ℕ
  /-- The event status (`INTCTL_ST_EV`), with the acquisition that has set it. -/
  ev : Option ℕ
  /-- The last-event status (`INTCTL_ST_LEV`). -/
  lev : Option ℕ
  /-- `EV_COUNTER` of each segment. -/
  counter : ℕ → ℕ
  /-- `ACQ_BUSY`. -/
  busy : Bool
  reqEvents : ℕ
  fault : Fault
  fresh : ℕ

inductive Event3300
  | event
  /-- The bank is full. -/
  | lastEvent
  | counter (segmentNr n : ℕ)
  | busy (b : Bool)
  | fault (f : Fault)
  deriving DecidableEq

def hw3300Init : Hw3300 := ⟨none, none, none, fun _ => 0, false, 0, .none, 0⟩

def hw3300Next : Event3300 → Hw3300 → Option Hw3300
  | .event, hw =>
    match hw.armed with
    | some no => some { hw with ev := some no }
    | none => none
  | .lastEvent, hw =>
    match hw.armed with
    | some no => some { hw with armed := none, lev := some no }
    | none => none
  | .counter i n, hw => some { hw with counter := Function.update hw.counter i n }
  | .busy b, hw => some { hw with busy := b }
  | .fault f, hw => some { hw with fault := f }

inductive Place3300
  /-- `sis3300_acq_start`. -/
  | freeEvents (no : ℕ)
  | freeSamples (no k : ℕ)
  | freePrevticks (no : ℕ)
  | initCompletion (no : ℕ)
  | arm (no : ℕ)
  | acqCancel
  | irqWork
  /-- `sis3300_fetch`. -/
  | getEvents (segmentNr channelNr nrEvents : ℕ)
  | fillEvents (segmentNr channelNr nrEvents : ℕ)
  | dropEvents (segmentNr : ℕ) (e : Errno)
  | getSamples (segmentNr channelNr nrEvents : ℕ)
  | getPrevticks (segmentNr nrEvents : ℕ)
  | readEvents (nrEvents : ℕ)
  deriving DecidableEq

/-- `SIS3300_NR_ADCGROUPS` -/
def nrAdcGroups : ℕ := 4

/-- `sis3300_finish_acquisition`, with the number of events that the callers set beside it. -/
def finishAcquisition (dev : Dev Caches Hw3300) (nrEvents : ℕ) : Dev Caches Hw3300 :=
  let i := dev.card.currSegment
  { dev.setSegment i { dev.segment i with acquiring := false, nrEvents := nrEvents } with
    completion := true
    hw := { dev.hw with armed := none } }

/-- The number of events is unsigned, so a cancel during the first event does not stop at 0. -/
def acqCancel3300 (dev : Dev Caches Hw3300) : Dev Caches Hw3300 :=
  let i := dev.card.currSegment
  if (dev.segment i).acquiring then
    let currEvent := dev.hw.counter i
    finishAcquisition dev (if dev.hw.busy then (currEvent + 2 ^ 32 - 1) % 2 ^ 32 else currEvent)
  else dev

def eventThreshold (hw : Hw3300) : ℕ := if hw.busy then hw.reqEvents + 1 else hw.reqEvents

/-- The branch of `sis3300_do_irq` for `INTCTL_ST_EV`. -/
def doIrqEv (dev : Dev Caches Hw3300) (currEvent : ℕ) : Dev Caches Hw3300 :=
  let dev := { dev with hw := { dev.hw with ev := none } }
  if decide (eventThreshold dev.hw ≤ currEvent) && (dev.segment dev.card.currSegment).acquiring then
    finishAcquisition dev dev.hw.reqEvents
  else dev

/-- The branch for `INTCTL_ST_LEV`. -/
def doIrqLev (dev : Dev Caches Hw3300) (currEvent : ℕ) : Dev Caches Hw3300 :=
  let dev := { dev with hw := { dev.hw with lev := none } }
  if (dev.segment dev.card.currSegment).acquiring then finishAcquisition dev currEvent else dev

def doIrq (dev : Dev Caches Hw3300) : Dev Caches Hw3300 :=
  let currEvent := dev.hw.counter dev.card.currSegment
  let lev := dev.hw.lev
  let dev := if dev.hw.ev.isSome then doIrqEv dev currEvent else dev
  if lev.isSome then doIrqLev dev currEvent else dev

/-- What allocating and filling a cache gives. -/
def fill3300 (hw : Hw3300) : Except Errno (Buf × Hw3300) :=
  match hw.fault with
  | .alloc => .error .enomem
  | .read => .error .eio
  | .none => .ok (.block hw.fresh, { hw with fresh := hw.fresh + 1 })

def step3300 : Place3300 → Dev Caches Hw3300 → Move Place3300 × Dev Caches Hw3300
  | .freeEvents no, dev =>
    let i := dev.card.currSegment
    (.goto (.freeSamples no 0), dev.setEvents i .null (dev.segment i).nrEvents)
  | .freeSamples no k, dev =>
    (.goto (if k + 1 < nrAdcGroups then .freeSamples no (k + 1) else .freePrevticks no),
      dev.setSamples dev.card.currSegment k .null)
  | .freePrevticks no, dev => (.goto (.initCompletion no), dev.setPrevticks dev.card.currSegment .null)
  | .initCompletion no, dev => (.goto (.arm no), { dev with completion := false })
  | .arm no, dev => (.ret (.value 0), { dev with hw := { dev.hw with armed := some no } })
  | .acqCancel, dev => (.ret (.value 0), acqCancel3300 dev)
  | .irqWork, dev => (.ret (.value 0), doIrq dev)
  | .getEvents i j n, dev =>
    if (dev.segment i).cache.events = .null then
      if dev.hw.fault = .alloc then (.ret (.error .enomem), dev)
      else
        (.goto (.fillEvents i j n),
          { dev.setEvents i (.block dev.hw.fresh) (dev.segment i).nrEvents with
            hw := { dev.hw with fresh := dev.hw.fresh + 1 } })
    else (.goto (.getSamples i j n), dev)
  | .fillEvents i j n, dev =>
    -- the buffer for the directory, and the directory
    match dev.hw.fault with
    | .alloc => (.goto (.dropEvents i .enomem), dev)
    | .read => (.goto (.dropEvents i .eio), dev)
    | .none => (.goto (.getSamples i j n), dev)
  | .dropEvents i e, dev => (.ret (.error e), dev.setEvents i .null (dev.segment i).nrEvents)
  | .getSamples i j n, dev =>
    if (dev.segment i).cache.samples (j / 2) = .null then
      match fill3300 dev.hw with
      | .error e => (.ret (.error e), dev)
      | .ok (buf, hw) => (.goto (.getPrevticks i n), { dev.setSamples i (j / 2) buf with hw := hw })
    else (.goto (.getPrevticks i n), dev)
  | .getPrevticks i n, dev =>
    if (dev.segment i).cache.prevticks = .null then
      match fill3300 dev.hw with
      | .error e => (.ret (.error e), dev)
      | .ok (buf, hw) => (.goto (.readEvents n), { dev.setPrevticks i buf with hw := hw })
    else (.goto (.readEvents n), dev)
  | .readEvents n, dev => (.ret (.value n), dev)

/-- `sis3300_ops` -/
def sis3300 : Driver Caches Hw3300 Place3300 Event3300 where
  confEv desc hw := { hw with reqEvents := desc.nrEvents }
  acqStart no := .freeEvents no
  acqCancel := .acqCancel
  irqWork := .irqWork
  fetch i j n := .getEvents i j n
  step := step3300
  hw := hw3300Next

/-! ## The contract -/

def Place3300.role : Place3300 → Role
  | .acqCancel => .acqCancel
  | .irqWork => .irqWork
  | .getEvents _ _ _ | .fillEvents _ _ _ | .dropEvents _ _ | .getSamples _ _ _ | .getPrevticks _ _
  | .readEvents _ => .fetch
  | _ => .acqStart

def Place3300.no : Place3300 → Option ℕ
  | .freeEvents no | .freeSamples no _ | .freePrevticks no | .initCompletion no | .arm no => some no
  | _ => none

/-- The segment whose caches `acq_start` is about to free, "because the segment is in the 'acquiring' state". -/
def Place3300.writes : Place3300 → Card Caches → Option ℕ
  | .freeEvents _, card | .freeSamples _ _, card | .freePrevticks _, card => some card.currSegment
  | _, _ => none

/-- The segment that is transferred. -/
def Place3300.fetches : Place3300 → Option ℕ
  | .getEvents i _ _ | .fillEvents i _ _ | .dropEvents i _ | .getSamples i _ _ | .getPrevticks i _ => some i
  | _ => none

def Place3300.drops : Place3300 → Prop
  | .dropEvents _ _ => True
  | _ => False

/-- The events are published, and the buffer for the directory or the directory cannot be had. -/
def Place3300.fails (p : Place3300) (hw : Hw3300) : Prop := (∃ i j n, p = .fillEvents i j n) ∧ hw.fault ≠ .none

def Hw3300.Has (hw : Hw3300) (no : ℕ) : Prop := hw.armed = some no ∨ hw.ev = some no ∨ hw.lev = some no

def Place3300.handles (p : Place3300) (hw : Hw3300) (no : ℕ) : Prop :=
  p = .irqWork ∧ (hw.ev = some no ∨ hw.lev = some no)

section Contract
variable {dev : Dev Caches Hw3300}

/-- The segment is no longer acquiring, the others are as before. -/
structure Finished (dev dev' : Dev Caches Hw3300) : Prop where
  frame : DriverFrame dev.card dev'.card
  has : ∀ no, dev'.hw.Has no → dev.hw.Has no
  segment : ∀ i, dev'.segment i = dev.segment i ∨ (dev.segment i).acquiring = true

theorem Finished.refl (dev : Dev Caches Hw3300) : Finished dev dev :=
  ⟨.refl _, fun _ h => h, fun _ => .inl rfl⟩

theorem Finished.trans {dev' dev'' : Dev Caches Hw3300} (h : Finished dev dev') (h' : Finished dev' dev'') :
    Finished dev dev'' where
  frame := h.frame.trans h'.frame
  has no hno := h.has no (h'.has no hno)
  segment i := by
    obtain hi | hi := h'.segment i
    · rw [hi]
      exact h.segment i
    · exact .inr (h.frame.acquiring i hi)

/-- Taking back a status leaves the card alone. -/
theorem Finished.hw {hw : Hw3300} (h : ∀ no, hw.Has no → dev.hw.Has no) : Finished dev { dev with hw := hw } :=
  ⟨.refl _, h, fun _ => .inl rfl⟩

theorem finishAcquisition_finished (n : ℕ) (h : (dev.segment dev.card.currSegment).acquiring = true) :
    Finished dev (finishAcquisition dev n) where
  frame := setSegment_frame rfl rfl fun h => by cases h
  has no hno := by
    obtain hno | hno := hno
    · cases hno
    · exact .inr hno
  segment i := by
    obtain hi | hi := setSegment_other dev dev.card.currSegment
      { dev.segment dev.card.currSegment with acquiring := false, nrEvents := n } i
    · exact .inl hi
    · rw [← hi]
      exact .inr h

theorem acqCancel3300_finished (dev : Dev Caches Hw3300) : Finished dev (acqCancel3300 dev) := by
  unfold acqCancel3300
  dsimp only
  split
  · exact finishAcquisition_finished _ ‹_›
  · exact .refl _

theorem doIrqEv_finished (dev : Dev Caches Hw3300) (n : ℕ) : Finished dev (doIrqEv dev n) := by
  have hclear : Finished dev { dev with hw := { dev.hw with ev := none } } := by
    refine .hw fun no hno => ?_
    obtain hno | hno | hno := hno
    · exact .inl hno
    · cases hno
    · exact .inr (.inr hno)
  unfold doIrqEv
  dsimp only
  split
  · rename_i hacq
    exact hclear.trans (finishAcquisition_finished _ (Bool.and_eq_true_iff.mp hacq).2)
  · exact hclear

theorem doIrqLev_finished (dev : Dev Caches Hw3300) (n : ℕ) : Finished dev (doIrqLev dev n) := by
  have hclear : Finished dev { dev with hw := { dev.hw with lev := none } } := by
    refine .hw fun no hno => ?_
    obtain hno | hno | hno := hno
    · exact .inl hno
    · exact .inr (.inl hno)
    · cases hno
  unfold doIrqLev
  dsimp only
  split
  · exact hclear.trans (finishAcquisition_finished _ ‹_›)
  · exact hclear

theorem doIrq_finished (dev : Dev Caches Hw3300) : Finished dev (doIrq dev) := by
  unfold doIrq
  dsimp only
  have hev : Finished dev (if dev.hw.ev.isSome then doIrqEv dev (dev.hw.counter dev.card.currSegment) else dev) := by
    split
    · exact doIrqEv_finished _ _
    · exact .refl _
  split
  · exact hev.trans (doIrqLev_finished _ _)
  · exact hev

/-- Without a status the work item does nothing. -/
theorem doIrq_idle (hev : dev.hw.ev = none) (hlev : dev.hw.lev = none) : doIrq dev = dev := by
  unfold doIrq
  rw [hev, hlev]
  rfl

theorem fill3300_ok {hw hw' : Hw3300} {buf : Buf} (h : fill3300 hw = .ok (buf, hw')) (no : ℕ) :
    hw'.Has no ↔ hw.Has no := by
  unfold fill3300 at h
  split at h
  · cases h
  · cases h
  · cases h
    rfl

/-- A cache that is filled was not there before. -/
theorem Frozen.fill {i : ℕ} {segment : Segment Caches} (hevents : segment.nrEvents = (dev.segment i).nrEvents)
    (hsamp : segment.nrSampPerEv = (dev.segment i).nrSampPerEv)
    (hcache : (dev.segment i).cache.events.Kept segment.cache.events ∧
      (dev.segment i).cache.prevticks.Kept segment.cache.prevticks ∧
        ∀ k, ((dev.segment i).cache.samples k).Kept (segment.cache.samples k)) (j : ℕ) :
    Frozen (dev.segment j) ((dev.setSegment i segment).segment j) := by
  obtain h | h := setSegment_frozen dev i segment j
  · exact h
  · subst h
    change Frozen _ ((dev.card.setSegment i segment).segments i)
    rw [setSegment_self]
    exact ⟨hevents, hsamp, hcache.1, hcache.2.1, hcache.2.2⟩

theorem Buf.Kept.null {buf buf' : Buf} (h : buf = .null) : buf.Kept buf' := by
  rintro id hid
  rw [h] at hid
  cases hid

theorem setEvents_frozen {i : ℕ} {buf : Buf} (h : (dev.segment i).cache.events = .null) (j : ℕ) :
    Frozen (dev.segment j) ((dev.setEvents i buf (dev.segment i).nrEvents).segment j) := by
  refine Frozen.fill ?_ ?_ ⟨Buf.Kept.null h, ?_, ?_⟩ j
  · rfl
  · rfl
  · exact Buf.Kept.refl _
  · exact fun k => Buf.Kept.refl _

/-- Only the events go. -/
theorem dropEvents_frozen (dev : Dev Caches Hw3300) (i : ℕ) :
    Frozen (dev.segment i).withoutEvents ((dev.setEvents i .null (dev.segment i).nrEvents).segment i) := by
  change Frozen _ ((dev.card.setSegment i _).segments i)
  rw [setSegment_self]
  exact Frozen.of_eq rfl rfl rfl

theorem setPrevticks_frozen {i : ℕ} {buf : Buf} (h : (dev.segment i).cache.prevticks = .null) (j : ℕ) :
    Frozen (dev.segment j) ((dev.setPrevticks i buf).segment j) := by
  refine Frozen.fill ?_ ?_ ⟨?_, Buf.Kept.null h, ?_⟩ j
  · rfl
  · rfl
  · exact Buf.Kept.refl _
  · exact fun k => Buf.Kept.refl _

theorem setSamples_frozen {i k : ℕ} {buf : Buf} (h : (dev.segment i).cache.samples k = .null) (j : ℕ) :
    Frozen (dev.segment j) ((dev.setSamples i k buf).segment j) := by
  refine Frozen.fill ?_ ?_ ⟨?_, ?_, ?_⟩ j
  · rfl
  · rfl
  · exact Buf.Kept.refl _
  · exact Buf.Kept.refl _
  · intro m
    by_cases hm : m = k
    · subst hm
      exact Buf.Kept.null h
    · change Buf.Kept _ (Function.update (dev.segment i).cache.samples k buf m)
      rw [Function.update_of_ne hm]
      exact Buf.Kept.refl _

theorem step3300_framed : sis3300.Framed := by
  intro p dev
  cases p
  case freeEvents => exact setEvents_frame dev _ _ _
  case freeSamples => exact setSamples_frame dev _ _ _
  case freePrevticks => exact setPrevticks_frame dev _ _
  case acqCancel => exact (acqCancel3300_finished dev).frame
  case irqWork => exact (doIrq_finished dev).frame
  case getEvents i j n =>
    simp only [sis3300, step3300]
    split
    · split
      · exact .refl _
      · exact setEvents_frame dev _ _ _
    · exact .refl _
  case fillEvents =>
    simp only [sis3300, step3300]
    split <;> exact .refl _
  case dropEvents => exact setEvents_frame dev _ _ _
  case getSamples i j n =>
    simp only [sis3300, step3300]
    split
    · split
      · exact .refl _
      · exact setSamples_frame dev _ _ _
    · exact .refl _
  case getPrevticks i n =>
    simp only [sis3300, step3300]
    split
    · split
      · exact .refl _
      · exact setPrevticks_frame dev _ _
    · exact .refl _
  all_goals exact .refl _

/-- A transfer goes on in the order of the source, or returns an error. -/
theorem step3300_fetch {p q : Place3300} (hp : p.role = .fetch) (h : (step3300 p dev).1 = .goto q) :
    q.role = .fetch ∧ q.no = none := by
  cases p
  case fillEvents =>
    simp only [step3300] at h
    split at h
    all_goals
      cases h
      exact ⟨rfl, rfl⟩
  case dropEvents => cases h
  case getEvents | getSamples | getPrevticks =>
    simp only [step3300] at h
    split at h
    · split at h
      · cases h
      · cases h
        exact ⟨rfl, rfl⟩
    · cases h
      exact ⟨rfl, rfl⟩
  case readEvents => cases h
  all_goals cases hp

/-- A transfer stays with its segment. -/
theorem step3300_fetches (p : Place3300) (dev : Dev Caches Hw3300) (q : Place3300) (i : ℕ)
    (h : (step3300 p dev).1 = .goto q) (hq : q.fetches = some i) : p.fetches = some i := by
  cases p
  case getEvents | getSamples | getPrevticks =>
    simp only [step3300] at h
    split at h
    · split at h
      · cases h
      · cases h
        first
        | exact hq
        | cases hq
    · cases h
      first
      | exact hq
      | cases hq
  case fillEvents =>
    simp only [step3300] at h
    split at h
    all_goals
      cases h
      exact hq
  case freeSamples no k =>
    simp only [step3300] at h
    split at h
    all_goals
      cases h
      cases hq
  case freeEvents | freePrevticks | initCompletion =>
    cases h
    cases hq
  all_goals cases h

/-- The events are given back only where they could not be filled. -/
theorem step3300_drops (p : Place3300) (dev : Dev Caches Hw3300) (q : Place3300)
    (h : (step3300 p dev).1 = .goto q) (hq : q.drops) : p.fails dev.hw := by
  cases p
  case fillEvents i j n =>
    refine ⟨⟨i, j, n, rfl⟩, fun hfault => ?_⟩
    simp only [step3300, hfault] at h
    cases h
    exact hq
  case getEvents | getSamples | getPrevticks =>
    simp only [step3300] at h
    split at h
    · split at h
      · cases h
      · cases h
        exact hq.elim
    · cases h
      exact hq.elim
  case freeSamples no k =>
    simp only [step3300] at h
    split at h
    all_goals
      cases h
      exact hq.elim
  case freeEvents | freePrevticks | initCompletion =>
    cases h
    exact hq.elim
  all_goals cases h

/-- `acq_start` goes on with its own acquisition. -/
theorem step3300_acqStart {p q : Place3300} (hp : p.role = .acqStart) (h : (step3300 p dev).1 = .goto q) :
    q.role = .acqStart ∧ q.no = p.no := by
  cases p
  case freeSamples no k =>
    simp only [step3300] at h
    split at h
    all_goals
      cases h
      exact ⟨rfl, rfl⟩
  case freeEvents | freePrevticks | initCompletion =>
    cases h
    exact ⟨rfl, rfl⟩
  case arm => cases h
  all_goals cases hp

theorem step3300_role (p : Place3300) (dev : Dev Caches Hw3300) (q : Place3300)
    (h : (step3300 p dev).1 = .goto q) : q.role = p.role := by
  cases hp : p.role with
  | acqStart => exact (step3300_acqStart hp h).1
  | fetch => exact (step3300_fetch hp h).1
  | acqCancel =>
    cases p
    case acqCancel => cases h
    all_goals cases hp
  | irqWork =>
    cases p
    case irqWork => cases h
    all_goals cases hp

theorem step3300_no (p : Place3300) (dev : Dev Caches Hw3300) (q : Place3300) (no : ℕ)
    (h : (step3300 p dev).1 = .goto q) (hq : q.no = some no) : p.no = some no := by
  have hrole := step3300_role p dev q h
  cases hp : p.role with
  | acqStart => rwa [← (step3300_acqStart hp h).2]
  | fetch =>
    rw [(step3300_fetch hp h).2] at hq
    cases hq
  | acqCancel =>
    rw [hp] at hrole
    cases q
    case acqCancel => cases hq
    all_goals cases hrole
  | irqWork =>
    rw [hp] at hrole
    cases q
    case irqWork => cases hq
    all_goals cases hrole

theorem step3300_hw (p : Place3300) (dev : Dev Caches Hw3300) (no : ℕ) (h : (step3300 p dev).2.hw.Has no) :
    dev.hw.Has no ∨ p.no = some no := by
  cases p
  case arm k =>
    obtain h | h := h
    · exact .inr h
    · exact .inl (.inr h)
  case acqCancel => exact .inl ((acqCancel3300_finished dev).has no h)
  case irqWork => exact .inl ((doIrq_finished dev).has no h)
  case getEvents =>
    simp only [step3300] at h
    split at h
    · split at h
      · exact .inl h
      · exact .inl h
    · exact .inl h
  case fillEvents =>
    simp only [step3300] at h
    split at h <;> exact .inl h
  case getSamples | getPrevticks =>
    simp only [step3300] at h
    split at h
    · split at h
      · exact .inl h
      · rename_i hfill
        exact .inl ((fill3300_ok hfill no).mp h)
    · exact .inl h
  all_goals exact .inl h

theorem Finished.contents {dev' : Dev Caches Hw3300} (h : Finished dev dev') (i : ℕ) :
    Frozen (dev.segment i) (dev'.segment i) ∨ (dev.segment i).acquiring = true := by
  obtain hi | hi := h.segment i
  · rw [hi]
    exact .inl (Frozen.refl _)
  · exact .inr hi

theorem step3300_contents (p : Place3300) (dev : Dev Caches Hw3300) (i : ℕ) :
    Frozen (dev.segment i) ((step3300 p dev).2.segment i) ∨ p.writes dev.card = some i ∨
      (dev.segment i).acquiring = true ∨
        p.drops ∧ p.fetches = some i ∧ Frozen (dev.segment i).withoutEvents ((step3300 p dev).2.segment i) := by
  cases p
  case freeEvents | freeSamples | freePrevticks =>
    obtain h | h := setSegment_frozen dev dev.card.currSegment _ i
    · exact .inl h
    · exact .inr (.inl (congrArg some h))
  case acqCancel =>
    obtain h | h := (acqCancel3300_finished dev).contents i
    · exact .inl h
    · exact .inr (.inr (.inl h))
  case irqWork =>
    obtain h | h := (doIrq_finished dev).contents i
    · exact .inl h
    · exact .inr (.inr (.inl h))
  case fillEvents =>
    simp only [step3300]
    split <;> exact .inl (Frozen.refl _)
  case dropEvents j e =>
    obtain h | rfl := setSegment_frozen dev j _ i
    · exact .inl h
    · exact .inr (.inr (.inr ⟨trivial, rfl, dropEvents_frozen dev j⟩))
  case getEvents =>
    simp only [step3300]
    split
    · rename_i hnull
      split
      · exact .inl (Frozen.refl _)
      · exact .inl (setEvents_frozen hnull i)
    · exact .inl (Frozen.refl _)
  case getSamples =>
    simp only [step3300]
    split
    · rename_i hnull
      split
      · exact .inl (Frozen.refl _)
      · exact .inl (setSamples_frozen hnull i)
    · exact .inl (Frozen.refl _)
  case getPrevticks =>
    simp only [step3300]
    split
    · rename_i hnull
      split
      · exact .inl (Frozen.refl _)
      · exact .inl (setPrevticks_frozen hnull i)
    · exact .inl (Frozen.refl _)
  all_goals exact .inl (Frozen.refl _)

/-- Only the cancel and the work item finish an acquisition, the work item for an interrupt. -/
theorem step3300_finish (p : Place3300) (dev : Dev Caches Hw3300) (i : ℕ) (hacq : (dev.segment i).acquiring = true)
    (hdone : ((step3300 p dev).2.segment i).acquiring = false) :
    p.role = .acqCancel ∨ p.role = .irqWork ∧ ∃ no, p.handles dev.hw no := by
  have hkept : ((step3300 p dev).2.segment i).acquiring = (dev.segment i).acquiring ∨ p = .acqCancel ∨
      p = .irqWork := by
    cases p
    case acqCancel => exact .inr (.inl rfl)
    case irqWork => exact .inr (.inr rfl)
    case freeEvents => exact .inl (setEvents_acquiring ..)
    case freeSamples => exact .inl (setSamples_acquiring ..)
    case freePrevticks => exact .inl (setPrevticks_acquiring ..)
    case getEvents =>
      simp only [step3300]
      split
      · split
        · exact .inl rfl
        · exact .inl (setEvents_acquiring ..)
      · exact .inl rfl
    case fillEvents =>
      simp only [step3300]
      split <;> exact .inl rfl
    case dropEvents => exact .inl (setEvents_acquiring ..)
    case getSamples =>
      simp only [step3300]
      split
      · split
        · exact .inl rfl
        · exact .inl (setSamples_acquiring ..)
      · exact .inl rfl
    case getPrevticks =>
      simp only [step3300]
      split
      · split
        · exact .inl rfl
        · exact .inl (setPrevticks_acquiring ..)
      · exact .inl rfl
    all_goals exact .inl rfl
  obtain h | rfl | rfl := hkept
  · rw [h, hacq] at hdone
    cases hdone
  · exact .inl rfl
  · refine .inr ⟨rfl, ?_⟩
    cases hev : dev.hw.ev with
    | some no => exact ⟨no, rfl, .inl hev⟩
    | none =>
      cases hlev : dev.hw.lev with
      | some no => exact ⟨no, rfl, .inr hlev⟩
      | none =>
        change ((doIrq dev).segment i).acquiring = false at hdone
        rw [doIrq_idle hev hlev, hacq] at hdone
        cases hdone

def contract3300 : Contract sis3300 where
  role := Place3300.role
  inHw := Hw3300.Has
  inPlace p no := p.no = some no
  writes := Place3300.writes
  handles := Place3300.handles
  fetches := Place3300.fetches
  drops := Place3300.drops
  fails := Place3300.fails
  framed := step3300_framed
  role_acqStart _ := rfl
  role_acqCancel := rfl
  role_irqWork := rfl
  role_fetch _ _ _ := rfl
  role_step := step3300_role
  acqStart_no _ _ h := (Option.some.inj h).symm
  acqCancel_no _ h := by cases h
  irqWork_no _ h := by cases h
  fetch_no _ _ _ _ h := by cases h
  fetch_fetches _ _ _ := rfl
  fetch_drops _ _ _ h := h
  drops_role p h := by
    cases p
    case dropEvents => rfl
    all_goals exact h.elim
  step_fetches := step3300_fetches
  step_drops := step3300_drops
  step_hw := step3300_hw
  step_no p dev q no h hq := .inr (step3300_no p dev q no h hq)
  confEv_hw _ _ _ h := h
  hw_hw e hw hw' no h hhas := by
    cases e with
    | event =>
      simp only [sis3300, hw3300Next] at h
      split at h
      · rename_i k harmed
        cases h
        obtain hhas | hhas | hhas := hhas
        · exact .inl hhas
        · exact .inl (harmed.trans hhas)
        · exact .inr (.inr hhas)
      · cases h
    | lastEvent =>
      simp only [sis3300, hw3300Next] at h
      split at h
      · rename_i k harmed
        cases h
        obtain hhas | hhas | hhas := hhas
        · cases hhas
        · exact .inr (.inl hhas)
        · exact .inl (harmed.trans hhas)
      · cases h
    | counter i n =>
      cases h
      exact hhas
    | busy b =>
      cases h
      exact hhas
    | fault f =>
      cases h
      exact hhas
  contents := step3300_contents
  finish := step3300_finish
  handles_no p dev no h := .inl (.inr h.2)

end Contract

end HtDrivers.Sis33
