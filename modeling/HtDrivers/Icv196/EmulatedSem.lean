import HtDrivers.Cdcm.CdcmTime
import HtDrivers.Icv196.Ring
import HtDrivers.Lib.Transition

/-! One client of the ICV196 with the semaphores of the common driver layer, which know `Ring->Evtsem` by its address
and read it only once. A read is taken step by step, and an interrupt may come between its steps. -/
namespace HtDrivers.Icv196
open HtDrivers.Cdcm HtDrivers.Lib.Transition
set_option autoImplicit false

/-- The integer, and the semaphore of the list for its address; `up` marks the waiter of the reader. -/
structure Emulated where
  integer : ℤ
  sem : Option (CdcmSem Unit)
  up : Bool

section Calls
variable (e : Emulated)

/-- `get_sema`. -/
def getSema : CdcmSem Unit := e.sem.getD ⟨e.integer.toNat, []⟩

def emulatedSignal : Emulated :=
  let (sem, woken) := cdcmUp (getSema e)
  { e with sem := some sem, up := e.up || woken.isSome }

def emulatedReset : Emulated :=
  let (sem, woken) := sreset (getSema e)
  { e with sem := some sem, up := e.up || !woken.isEmpty }

/-- `swait` with SEM_SIGIGNORE, up to where the task sleeps. -/
def emulatedWait : Emulated × Bool :=
  let (sem, down) := cdcmDown (getSema e) ()
  ({ e with sem := some sem }, down = .acquired)

def emulatedCalls : SemCalls Emulated := ⟨Emulated.integer, emulatedSignal, emulatedReset, emulatedWait⟩

end Calls

/-! ## The client -/

/-- Where `icv196_read` is; `left` is the room in the buffer, and `bn` counts the events that are in it. -/
inductive ReadPlace
  | idle
  | pulling (left bn : ℕ)
  | inPull (left bn : ℕ)
  | inWait (left : ℕ)
  | awake (left : ℕ)
deriving DecidableEq

/-- `queued` counts the events that were pushed and not pulled since; `armed` is the timer of the client. -/
structure Client where
  ring : RingBuffer Emulated
  inuse : Bool
  waits : Bool
  timid : ℤ
  armed : Bool
  place : ReadPlace
  queued : ℕ

inductive ClientStep
  | openFile
  | close
  | read (longs : ℕ) (waits : Bool)
  | pull (timer : Option ℕ)
  | resume
  | goOn
  | userWakeup
  | push (atom : RingAtom)

section Steps
variable (s : Client)

/-- `Init_Ring`. -/
def initRing : RingBuffer Emulated :=
  { s.ring with evtsem := { s.ring.evtsem with integer := 0 }, reader := 0, writer := 0 }

/-- An atom was pulled into the buffer of the read. -/
def pulledAtom (ring : RingBuffer Emulated) (left bn : ℕ) : Client :=
  { s with
    ring := ring
    queued := s.queued - 1
    place := if left ≤ 1 then .idle else .pulling (left - 1) (bn + 1) }

/-- The ring is empty: wait if nothing was read so far and the client waits. -/
def ringEmpty (left bn : ℕ) (timer : Option ℕ) : Client :=
  if bn = 0 ∧ s.waits = true then
    let (evtsem, acquired) := emulatedWait s.ring.evtsem
    { s with
      ring := { s.ring with evtsem := evtsem }
      timid := timer.elim (-1) fun tid => tid + 1
      armed := timer.isSome
      place := if acquired then .awake left else .inWait left }
  else { s with place := .idle }

/-- The read is through `swait`; with the timer still running it reminds of the event for the `swait` by reading. -/
def afterWait (left : ℕ) : Client :=
  if s.timid < 0 then { s with place := .idle }
  else
    { s with
      ring := { s.ring with evtsem := { s.ring.evtsem with integer := s.ring.evtsem.integer + 1 } }
      armed := false
      place := .pulling left 0 }

def clientNext : ClientStep → Option Client
  | .openFile => if s.inuse then none else some { s with ring := initRing s, inuse := true, queued := 0 }
  | .close =>
    if s.inuse = true ∧ s.place = .idle then
      some { s with
        ring := { s.ring with evtsem := emulatedReset s.ring.evtsem }, inuse := false, armed := false, queued := 0 }
    else none
  | .read longs waits =>
    if s.inuse = true ∧ s.place = .idle ∧ 0 < longs then some { s with waits := waits, place := .pulling longs 0 }
      else none
  | .pull timer =>
    match s.place with
    | .pulling left bn =>
      match ringPull emulatedCalls s.ring with
      | .empty => some (ringEmpty s left bn timer)
      | .asleep ring => some { s with ring := ring, place := .inPull left bn }
      | .atom _ ring => some (pulledAtom s ring left bn)
    | _ => none
  | .resume =>
    if s.ring.evtsem.up then
      let ring := { s.ring with evtsem := { s.ring.evtsem with up := false } }
      match s.place with
      | .inPull left bn => some (pulledAtom s (takeAtom ring) left bn)
      | .inWait left => some { s with ring := ring, place := .awake left }
      | _ => none
    else none
  | .goOn =>
    match s.place with
    | .awake left => some (afterWait s left)
    | _ => none
  | .userWakeup =>
    if s.armed then
      some { s with ring := { s.ring with evtsem := emulatedSignal s.ring.evtsem }, armed := false, timid := -1 }
    else none
  | .push atom =>
    if s.inuse then
      some { s with
        ring := (pushToRing emulatedCalls s.ring atom).1
        queued := if evtNb ≤ s.ring.evtsem.integer then 2 else s.queued + 1 }
    else none

end Steps

/-- The statics of the driver, before the first open. -/
def clientStart : Client := ⟨⟨⟨0, none, false⟩, 0, 0, fun _ => ⟨none, ⟨0, 0, 0⟩⟩⟩, false, true, 0, false, .idle, 0⟩

/-! ## The integer and the semaphore -/

/-- What the driver takes for granted: the integer is the semaphore. -/
structure InStep (s : Client) : Prop where
  integer : s.ring.evtsem.integer = s.queued
  count : (getSema s.ring.evtsem).count = s.queued
  pulls : (∃ atom ring, ringPull emulatedCalls s.ring = .atom atom ring) ↔ 0 < s.queued
  never_sleeps : ∀ ring, ringPull emulatedCalls s.ring ≠ .asleep ring
  full : evtNb ≤ s.ring.evtsem.integer ↔ s.queued = evtNb

/-- A client whose line is silent. -/
structure Eventless (s : Client) : Prop where
  integer : s.ring.evtsem.integer = 0
  queued : s.queued = 0
  count : (getSema s.ring.evtsem).count = 0
  armed : s.armed = true → (getSema s.ring.evtsem).waitList ≠ []
  waits : (getSema s.ring.evtsem).waitList ≠ [] →
    (getSema s.ring.evtsem).waitList = [()] ∧ (∃ left, s.place = .inWait left) ∧ s.ring.evtsem.up = false
  woken : s.ring.evtsem.up = true → s.timid < 0 ∧ ∃ left, s.place = .inWait left
  awake : ∀ left, s.place = .awake left → s.timid < 0
  not_inPull : ∀ left bn, s.place ≠ .inPull left bn

section Silent
variable {s s' : Client} {act : ClientStep} {left bn : ℕ}

theorem ringPull_empty {ring : RingBuffer Emulated} (h : ring.evtsem.integer = 0) :
    ringPull emulatedCalls ring = .empty :=
  if_pos h

theorem Eventless.inStep (h : Eventless s) : InStep s where
  integer := by rw [h.integer, h.queued, Nat.cast_zero]
  count := by rw [h.count, h.queued]
  pulls := by
    rw [ringPull_empty h.integer, h.queued]
    simp
  never_sleeps ring := by
    rw [ringPull_empty h.integer]
    exact fun heq => by cases heq
  full := by
    rw [h.integer, h.queued]
    decide

theorem Eventless.no_waiter (h : Eventless s) (hplace : ∀ left, s.place ≠ .inWait left) :
    (getSema s.ring.evtsem).waitList = [] := by
  by_contra hne
  obtain ⟨-, ⟨left, hleft⟩, -⟩ := h.waits hne
  exact hplace left hleft

theorem Eventless.not_up (h : Eventless s) (hplace : ∀ left, s.place ≠ .inWait left) : s.ring.evtsem.up = false := by
  by_contra hup
  rw [Bool.not_eq_false] at hup
  obtain ⟨-, left, hleft⟩ := h.woken hup
  exact hplace left hleft

theorem eventless_start : Eventless clientStart where
  integer := rfl
  queued := rfl
  count := rfl
  armed h := by cases h
  waits h := absurd rfl h
  woken h := by cases h
  awake left h := by cases h
  not_inPull left bn h := by cases h

theorem Eventless.openFile (h : Eventless s) :
    Eventless { s with ring := initRing s, inuse := true, queued := 0 } := by
  have hsame : ({ s.ring.evtsem with integer := 0 } : Emulated) = s.ring.evtsem := by rw [← h.integer]
  unfold initRing
  rw [hsame]
  exact ⟨h.integer, rfl, h.count, h.armed, h.waits, h.woken, h.awake, h.not_inPull⟩

theorem Eventless.close (h : Eventless s) (hidle : s.place = .idle) : Eventless { s with
    ring := { s.ring with evtsem := emulatedReset s.ring.evtsem }, inuse := false, armed := false, queued := 0 } := by
  have hnone : (getSema s.ring.evtsem).waitList = [] := h.no_waiter fun left hleft => by
    rw [hidle] at hleft; cases hleft
  have hreset : emulatedReset s.ring.evtsem = { s.ring.evtsem with sem := some ⟨0, []⟩ } := by
    unfold emulatedReset sreset
    rw [if_pos h.count, h.count, hnone]
    simp
  rw [hreset]
  exact ⟨h.integer, rfl, rfl, fun harmed => (by cases harmed), fun hne => absurd rfl hne, h.woken, h.awake,
    h.not_inPull⟩

theorem Eventless.moved (h : Eventless s) (hplace : ∀ left, s.place ≠ .inWait left) (waits : Bool) {place : ReadPlace}
    (hawake : ∀ left, place ≠ .awake left) (hpull : ∀ left bn, place ≠ .inPull left bn) :
    Eventless { s with waits := waits, place := place } where
  integer := h.integer
  queued := h.queued
  count := h.count
  armed := h.armed
  waits hne := absurd (h.no_waiter hplace) hne
  woken hup := absurd hup (by rw [h.not_up hplace]; exact Bool.false_ne_true)
  awake left hleft := absurd hleft (hawake left)
  not_inPull := hpull

theorem emulatedWait_asleep {e : Emulated} (hcount : (getSema e).count = 0) :
    emulatedWait e = ({ e with sem := some ⟨0, (getSema e).waitList ++ [()]⟩ }, false) := by
  unfold emulatedWait cdcmDown
  rw [if_neg (by rw [hcount]; exact Nat.lt_irrefl 0), hcount]
  rfl

theorem Eventless.ringEmpty (h : Eventless s) (hplace : s.place = .pulling left bn) (timer : Option ℕ) :
    Eventless (ringEmpty s left bn timer) := by
  have hwait : ∀ left, s.place ≠ .inWait left := fun l hl => by rw [hplace] at hl; cases hl
  unfold HtDrivers.Icv196.ringEmpty
  split
  · rw [emulatedWait_asleep h.count, h.no_waiter hwait]
    exact ⟨h.integer, h.queued, rfl, fun _ hnil => (by cases hnil), fun _ => ⟨rfl, ⟨left, rfl⟩, h.not_up hwait⟩,
      fun hup => absurd hup (by rw [h.not_up hwait]; exact Bool.false_ne_true), fun l hl => (by cases hl),
      fun l n hl => (by cases hl)⟩
  · exact h.moved hwait s.waits (fun l hl => by cases hl) fun l n hl => by cases hl

theorem Eventless.userWakeup (h : Eventless s) (harmed : s.armed = true) : Eventless { s with
    ring := { s.ring with evtsem := emulatedSignal s.ring.evtsem }, armed := false, timid := -1 } := by
  obtain ⟨hlist, hplace, -⟩ := h.waits (h.armed harmed)
  have hsignal : emulatedSignal s.ring.evtsem = { s.ring.evtsem with sem := some ⟨0, []⟩, up := true } := by
    unfold emulatedSignal cdcmUp
    rw [hlist, h.count]
    simp
  have htimid : (-1 : ℤ) < 0 := by decide
  rw [hsignal]
  exact ⟨h.integer, h.queued, rfl, fun hfalse => (by cases hfalse), fun hne => absurd rfl hne,
    fun _ => ⟨htimid, hplace⟩, fun _ _ => htimid, h.not_inPull⟩

theorem Eventless.resume (h : Eventless s) (hup : s.ring.evtsem.up = true) : Eventless { s with
    ring := { s.ring with evtsem := { s.ring.evtsem with up := false } }, place := .awake left } := by
  obtain ⟨htimid, -⟩ := h.woken hup
  have hnone : (getSema s.ring.evtsem).waitList = [] := by
    by_contra hne
    obtain ⟨-, -, hdown⟩ := h.waits hne
    rw [hup] at hdown
    cases hdown
  exact ⟨h.integer, h.queued, h.count, h.armed, fun hne => absurd hnone hne, fun hfalse => (by cases hfalse),
    fun _ _ => htimid, fun l n hl => (by cases hl)⟩

theorem Eventless.step (h : Eventless s) (hsilent : ∀ atom, act ≠ .push atom) (hnext : clientNext s act = some s') :
    Eventless s' := by
  cases act with
  | openFile =>
    rw [clientNext, Option.ite_none_left_eq_some] at hnext
    obtain ⟨-, hnext⟩ := hnext
    cases hnext
    exact h.openFile
  | close =>
    rw [clientNext, Option.ite_none_right_eq_some] at hnext
    obtain ⟨⟨-, hidle⟩, hnext⟩ := hnext
    cases hnext
    exact h.close hidle
  | read longs waits =>
    rw [clientNext, Option.ite_none_right_eq_some] at hnext
    obtain ⟨⟨-, hidle, -⟩, hnext⟩ := hnext
    cases hnext
    exact h.moved (fun l hl => by rw [hidle] at hl; cases hl) waits (fun l hl => by cases hl) fun l n hl => by cases hl
  | pull timer =>
    rw [clientNext] at hnext
    cases hplace : s.place with
    | pulling left bn =>
      simp only [hplace, ringPull_empty h.integer] at hnext
      cases hnext
      exact h.ringEmpty hplace timer
    | idle => simp only [hplace, reduceCtorEq] at hnext
    | inPull left bn => exact absurd hplace (h.not_inPull left bn)
    | inWait left => simp only [hplace, reduceCtorEq] at hnext
    | awake left => simp only [hplace, reduceCtorEq] at hnext
  | resume =>
    rw [clientNext, Option.ite_none_right_eq_some] at hnext
    obtain ⟨hup, hnext⟩ := hnext
    obtain ⟨-, left, hplace⟩ := h.woken hup
    simp only [hplace] at hnext
    cases hnext
    exact h.resume hup
  | goOn =>
    rw [clientNext] at hnext
    cases hplace : s.place with
    | awake left =>
      simp only [hplace, afterWait, if_pos (h.awake left hplace)] at hnext
      cases hnext
      exact h.moved (fun l hl => by rw [hplace] at hl; cases hl) s.waits (fun l hl => by cases hl) fun l n hl => by
        cases hl
    | idle => simp only [hplace, reduceCtorEq] at hnext
    | pulling left bn => simp only [hplace, reduceCtorEq] at hnext
    | inPull left bn => simp only [hplace, reduceCtorEq] at hnext
    | inWait left => simp only [hplace, reduceCtorEq] at hnext
  | userWakeup =>
    rw [clientNext, Option.ite_none_right_eq_some] at hnext
    obtain ⟨harmed, hnext⟩ := hnext
    cases hnext
    exact h.userWakeup harmed
  | push atom => exact absurd rfl (hsilent atom)

end Silent

/-! ## Events -/

section Events
variable {s s' : Client} {atom : RingAtom}

theorem pushToRing_integer (ring : RingBuffer Emulated) (atom : RingAtom) :
    (pushToRing emulatedCalls ring atom).1.evtsem.integer = ring.evtsem.integer := by
  unfold pushToRing
  dsimp only
  split <;> rfl

/-- A push changes the number of events, and so the integer is no longer in step. -/
theorem push_breaks (h : InStep s) (hnext : clientNext s (.push atom) = some s') : ¬InStep s' := by
  rw [clientNext, Option.ite_none_right_eq_some] at hnext
  obtain ⟨-, hnext⟩ := hnext
  cases hnext
  intro hafter
  have hinteger := hafter.integer
  rw [pushToRing_integer, h.integer] at hinteger
  dsimp only at hinteger
  split at hinteger
  · rename_i hfull
    have hle : (evtNb : ℤ) = 8 := rfl
    omega
  · omega

/-- The integer is the semaphore as long as there are no events, and not behind the first one. -/
theorem evtsem_inStep (s : Client) :
    (Reach clientNext (fun _ step => ∀ atom, step ≠ .push atom) clientStart s → InStep s) ∧
      ∀ atom s', InStep s → clientNext s (.push atom) = some s' → ¬InStep s' :=
  ⟨fun h => (h.invariant eventless_start fun _ _ _ hbefore hsilent hnext => hbefore.step hsilent hnext).inStep,
    fun _ _ h hnext => push_breaks h hnext⟩

/-- A read that waits until its timer goes off. -/
def timedRead : List ClientStep := [.openFile, .read 1 true, .pull (some 0), .userWakeup, .resume, .goOn]

theorem timedRead_inStep : ∃ s, Reach clientNext (fun _ step => ∀ atom, step ≠ .push atom) clientStart s ∧
    s.place = .idle ∧ s.timid = -1 ∧ InStep s := by
  have hrun : (timedRead.foldlM clientNext clientStart).map (fun s => (s.place, s.timid)) = some (.idle, -1) := by
    decide
  obtain ⟨s, hs, hval⟩ := Option.map_eq_some_iff.mp hrun
  simp only [Prod.mk.injEq] at hval
  have hreach : Reach clientNext (fun _ step => ∀ atom, step ≠ .push atom) clientStart s := by
    refine Reach.of_foldlM .refl (fun step hstep _ atom => ?_) hs
    simp only [timedRead, List.mem_cons, List.not_mem_nil, or_false] at hstep
    obtain rfl | rfl | rfl | rfl | rfl | rfl := hstep <;> exact fun heq => by cases heq
  exact ⟨s, hreach, hval.1, hval.2, (evtsem_inStep s).1 hreach⟩

/-- An event is in the ring, and the driver takes the ring for empty; the read that gets to know of the event sleeps in
`PullFrom_Ring`. -/
theorem evtsem_not_inStep :
    (¬∀ s, Reach clientNext (fun _ _ => True) clientStart s → s.place = .idle → InStep s) ∧
      ∃ s, Reach clientNext (fun _ _ => True) clientStart s ∧ s.queued = 1 ∧ s.place = .inPull 1 0 := by
  constructor
  · intro hall
    have hrun : (([.openFile, .push purgeAtom] : List ClientStep).foldlM clientNext clientStart).map
        (fun s => (s.place, s.ring.evtsem.integer, s.queued)) = some (.idle, 0, 1) := by
      decide
    obtain ⟨s, hs, hval⟩ := Option.map_eq_some_iff.mp hrun
    simp only [Prod.mk.injEq] at hval
    have hinteger := (hall s (Reach.of_foldlM .refl (fun _ _ _ => trivial) hs) hval.1).integer
    rw [hval.2.1, hval.2.2] at hinteger
    exact absurd hinteger (by decide)
  · have hrun :
      (([.openFile, .push purgeAtom, .read 1 true, .pull (some 0), .goOn, .pull none] : List ClientStep).foldlM
        clientNext clientStart).map (fun s => (s.queued, s.place)) = some (1, .inPull 1 0) := by
      decide
    obtain ⟨s, hs, hval⟩ := Option.map_eq_some_iff.mp hrun
    simp only [Prod.mk.injEq] at hval
    exact ⟨s, Reach.of_foldlM .refl (fun _ _ _ => trivial) hs, hval.1, hval.2⟩

end Events

end HtDrivers.Icv196
