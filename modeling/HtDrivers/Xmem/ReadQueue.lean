import HtDrivers.Cdcm.CdcmTime
import HtDrivers.Lib.Transition

/-! The queue of a client and its one reader (`xmemDrvr.c`). `E` is the type of the entries. Each block with the
interrupts disabled is a step, and so are `swait`, the arming of the timer and each test of `ccon->Timer`. -/
namespace HtDrivers.Xmem
open HtDrivers.Cdcm HtDrivers.Lib.Transition
set_option autoImplicit false

def xmemDrvrQueueSize : ℕ := 128

/-- `inIdx` and `outIdx` are the fields `in` and `out`. -/
structure XmemDrvrQueue (E : Type) where
  queueOff : Bool
  missed : ℕ
  elems : ℕ
  inIdx : ℕ
  outIdx : ℕ
  entries : ℕ → E

/-- A `timer` of 0 is none. -/
structure XmemDrvrClientContext (E : Type) where
  timeout : ℕ
  timer : ℤ
  semaphore : CdcmSem Unit
  queue : XmemDrvrQueue E

/-- Places in `XmemDrvrRead`: before the call, before the timer is armed, behind a `timeout` that has failed, before
`swait`, asleep in it, behind one that was interrupted, behind one that was not and before the test of the timer, before
its cancellation, behind a test that found no timer, and before the block that takes the entry. -/
inductive ReadPlace
  | idle | entered | untimed | armed | waiting | interrupted | granted | cancelling | timedOut | getting
deriving DecidableEq

/-- The client, its reader, the timers that are running, and whether the `XMEM_BUG_ON` of `__q_get` was hit. -/
structure XmemReader (E : Type) where
  ccon : XmemDrvrClientContext E
  place : ReadPlace
  pending : List ℕ
  bugOn : Bool

/-- `fail` is the block in which a read without a timer, an interrupted read and one that has timed out end. -/
inductive QueueStep (E : Type)
  | put (rb : E)
  | setQueueFlag (value : Bool)
  | enter
  | arm (timer : Option ℕ)
  | wait
  | abort
  | check
  | cancel
  | fail
  | get
  | expire (timer : ℕ)

section Operations
variable {E : Type}

/-- `__q_put`, with the reader that is woken up. -/
def qPut (rb : E) (ccon : XmemDrvrClientContext E) : XmemDrvrClientContext E × Option Unit :=
  let fifo := ccon.queue
  if xmemDrvrQueueSize ≤ fifo.elems then ({ ccon with queue := { fifo with missed := fifo.missed + 1 } }, none)
  else
    let fifo : XmemDrvrQueue E := { fifo with
      entries := Function.update fifo.entries fifo.inIdx rb
      inIdx := (fifo.inIdx + 1) % xmemDrvrQueueSize
      elems := fifo.elems + 1 }
    ({ ccon with queue := fifo, semaphore := (cdcmUp ccon.semaphore).1 }, (cdcmUp ccon.semaphore).2)

/-- `__q_get`, which hits its `XMEM_BUG_ON` where there is no entry. -/
def qGet (ccon : XmemDrvrClientContext E) : Option E × XmemDrvrClientContext E :=
  let fifo := ccon.queue
  if fifo.elems = 0 then (none, ccon)
  else
    (some (fifo.entries fifo.outIdx), { ccon with queue := { fifo with
      outIdx := (fifo.outIdx + 1) % xmemDrvrQueueSize
      elems := fifo.elems - 1 } })

/-- `__q_reset`. -/
def qReset (ccon : XmemDrvrClientContext E) : XmemDrvrClientContext E :=
  { ccon with
    queue := { ccon.queue with missed := 0, elems := 0, outIdx := 0, inIdx := 0 }
    semaphore := (sreset ccon.semaphore).1 }

/-- The reader behind an operation that wakes these up. -/
def ReadPlace.wake (place : ReadPlace) (woken : List Unit) : ReadPlace := if woken = [] then place else .granted

def putEntry (s : XmemReader E) (rb : E) : XmemReader E :=
  { s with ccon := (qPut rb s.ccon).1, place := s.place.wake (qPut rb s.ccon).2.toList }

def enterRead (s : XmemReader E) : XmemReader E :=
  { s with ccon := if s.ccon.queue.queueOff then qReset s.ccon else s.ccon, place := .entered }

/-- `timeout` returns the timer, or a negative number where there is none. -/
def armTimer (s : XmemReader E) (timer : Option ℕ) : XmemReader E :=
  if s.ccon.timeout = 0 then { s with place := .armed }
  else match timer with
    | none => { s with ccon.timer := -1, place := .untimed }
    | some id => { s with ccon.timer := id, pending := id :: s.pending, place := .armed }

def waitEntry (s : XmemReader E) : XmemReader E :=
  { s with
    ccon.semaphore := (cdcmDown s.ccon.semaphore ()).1
    place := if (cdcmDown s.ccon.semaphore ()).2 = .acquired then .granted else .waiting }

def checkTimer (s : XmemReader E) : XmemReader E :=
  if s.ccon.timeout = 0 then { s with place := .getting }
  else if s.ccon.timer = 0 then { s with place := .timedOut }
  else { s with place := .cancelling }

/-- `CancelTimeout`. -/
def cancelTimeout (s : XmemReader E) : XmemReader E :=
  if s.ccon.timer = 0 then { s with place := .getting }
  else { s with ccon.timer := 0, pending := s.pending.erase s.ccon.timer.toNat, place := .getting }

/-- The read ends; a failed `timeout` also leaves no timer behind. -/
def failRead (s : XmemReader E) : XmemReader E :=
  { s with
    ccon := if s.place = .untimed then { qReset s.ccon with timer := 0 } else qReset s.ccon
    place := .idle }

def getEntry (s : XmemReader E) : XmemReader E :=
  if (qGet s.ccon).1.isSome then { s with ccon := (qGet s.ccon).2, place := .idle }
  else { s with ccon := qReset s.ccon, place := .idle, bugOn := true }

/-- `ReadTimeout`. -/
def readTimeout (s : XmemReader E) (timer : ℕ) : XmemReader E :=
  { s with
    ccon := { qReset s.ccon with timer := 0 }
    place := s.place.wake (sreset s.ccon.semaphore).2
    pending := s.pending.erase timer }

def queueNext (s : XmemReader E) : QueueStep E → Option (XmemReader E)
  | .put rb => some (putEntry s rb)
  | .setQueueFlag value =>
    if s.place = .idle then some { s with ccon := qReset { s.ccon with queue.queueOff := value } } else none
  | .enter => if s.place = .idle then some (enterRead s) else none
  | .arm timer =>
    if s.place = .entered ∧ ∀ id ∈ timer, id ≠ 0 ∧ id ∉ s.pending then some (armTimer s timer) else none
  | .wait => if s.place = .armed then some (waitEntry s) else none
  | .abort =>
    if s.place = .waiting then
      some { s with ccon.semaphore := leaveWait s.ccon.semaphore (), place := .interrupted }
    else none
  | .check => if s.place = .granted then some (checkTimer s) else none
  | .cancel => if s.place = .cancelling then some (cancelTimeout s) else none
  | .fail => if s.place = .untimed ∨ s.place = .interrupted ∨ s.place = .timedOut then some (failRead s) else none
  | .get => if s.place = .getting then some (getEntry s) else none
  | .expire timer => if timer ∈ s.pending then some (readTimeout s timer) else none

/-- An open client with an empty queue. -/
def readerStart (timeout : ℕ) (queueOff : Bool) (entries : ℕ → E) : XmemReader E :=
  ⟨⟨timeout, 0, ⟨0, []⟩, ⟨queueOff, 0, 0, 0, 0, entries⟩⟩, .idle, [], false⟩

end Operations

/-! ## The ring -/

section Ring
variable {E : Type} {ccon : XmemDrvrClientContext E}

structure XmemDrvrQueue.Sound (queue : XmemDrvrQueue E) : Prop where
  elems_le : queue.elems ≤ xmemDrvrQueueSize
  inIdx_eq : queue.inIdx = (queue.outIdx + queue.elems) % xmemDrvrQueueSize

theorem qPut_sound (rb : E) (h : ccon.queue.Sound) : (qPut rb ccon).1.queue.Sound := by
  unfold qPut
  dsimp only
  split
  · exact ⟨h.elems_le, h.inIdx_eq⟩
  · rename_i hroom
    refine ⟨Nat.lt_of_not_le hroom, ?_⟩
    dsimp only
    rw [h.inIdx_eq, Nat.mod_add_mod, Nat.add_assoc]

theorem qGet_sound (h : ccon.queue.Sound) : (qGet ccon).2.queue.Sound := by
  have hle := h.elems_le
  unfold qGet
  dsimp only
  split
  · exact h
  · rename_i hsome
    have hnext : ccon.queue.outIdx + 1 + (ccon.queue.elems - 1) = ccon.queue.outIdx + ccon.queue.elems := by omega
    refine ⟨?_, ?_⟩
    · dsimp only
      omega
    · dsimp only
      rw [h.inIdx_eq, Nat.mod_add_mod, hnext]

theorem qReset_sound : (qReset ccon).queue.Sound := by
  refine ⟨Nat.zero_le _, ?_⟩
  show 0 = (0 + 0) % xmemDrvrQueueSize
  rfl

end Ring

/-! ## The semaphore of a client with one reader -/

section Semaphore
variable {E : Type} {ccon : XmemDrvrClientContext E} {sem : CdcmSem Unit} {place : ReadPlace}

/-- Without a reader asleep, or without units, a reset leaves nothing behind. -/
theorem sreset_eq (h : sem.Sound) : sreset sem = (⟨0, []⟩, sem.waitList) := by
  unfold sreset
  by_cases hzero : sem.count = 0
  · rw [if_pos hzero, hzero]
  · rw [if_neg hzero, h (Nat.pos_of_ne_zero hzero)]

/-- A put with room either adds a unit or gives it to the reader. -/
theorem qPut_room (rb : E) (hroom : ccon.queue.elems < xmemDrvrQueueSize) :
    (qPut rb ccon).1.queue.elems = ccon.queue.elems + 1 ∧
      ((qPut rb ccon).1.semaphore, (qPut rb ccon).2) = cdcmUp ccon.semaphore := by
  unfold qPut
  simp only [if_neg (Nat.not_le.mpr hroom)]
  exact ⟨trivial, trivial⟩

theorem qPut_full (rb : E) (hfull : ¬ccon.queue.elems < xmemDrvrQueueSize) :
    (qPut rb ccon).1.queue.elems = ccon.queue.elems ∧ (qPut rb ccon).1.semaphore = ccon.semaphore ∧
      (qPut rb ccon).2 = none := by
  unfold qPut
  simp only [if_pos (Nat.le_of_not_lt hfull)]
  exact ⟨trivial, trivial, trivial⟩

theorem qPut_timer (rb : E) : (qPut rb ccon).1.timer = ccon.timer ∧ (qPut rb ccon).1.timeout = ccon.timeout := by
  unfold qPut
  dsimp only
  split <;> exact ⟨rfl, rfl⟩

@[simp] theorem wake_nil : place.wake [] = place := if_pos rfl

@[simp] theorem wake_singleton : place.wake [()] = .granted := if_neg (List.cons_ne_nil _ _)

end Semaphore

/-! ## Each entry has its unit -/

section Invariant
variable {E : Type} {s s' : XmemReader E} {a : QueueStep E}

/-- A reader that `swait` has let through has a unit beside those of the semaphore, unless its timer is gone; what it
leaves behind when it fails is reset. -/
def Backed (place : ReadPlace) (timer : ℤ) (elems count : ℕ) : Prop :=
  match place with
  | .granted => timer ≠ 0 → elems = count + 1
  | .cancelling | .getting => elems = count + 1
  | .interrupted | .timedOut => True
  | _ => elems = count

structure ReaderInv (s : XmemReader E) : Prop where
  timeout : s.ccon.timeout ≠ 0
  ring : s.ccon.queue.Sound
  asleep : s.place = .waiting → s.ccon.semaphore = ⟨0, [()]⟩
  awake : s.place ≠ .waiting → s.ccon.semaphore.waitList = []
  backed : Backed s.place s.ccon.timer s.ccon.queue.elems s.ccon.semaphore.count
  bugOn : s.bugOn = false

theorem ReaderInv.semSound (h : ReaderInv s) : s.ccon.semaphore.Sound := by
  by_cases hplace : s.place = .waiting
  · rw [h.asleep hplace]
    exact fun hpos => absurd hpos (Nat.lt_irrefl 0)
  · exact fun _ => h.awake hplace

theorem backed_succ {place : ReadPlace} {timer : ℤ} {elems count : ℕ} (h : Backed place timer elems count) :
    Backed place timer (elems + 1) (count + 1) := by
  unfold Backed at h ⊢
  cases place with
  | granted => exact fun htimer => congrArg (· + 1) (h htimer)
  | interrupted | timedOut => trivial
  | _ => exact congrArg (· + 1) h

theorem ReaderInv.put (h : ReaderInv s) (rb : E) : ReaderInv (putEntry s rb) := by
  obtain ⟨htimer, htimeout⟩ : (qPut rb s.ccon).1.timer = s.ccon.timer ∧ (qPut rb s.ccon).1.timeout = s.ccon.timeout :=
    qPut_timer rb
  have hbacked := h.backed
  unfold putEntry
  by_cases hroom : s.ccon.queue.elems < xmemDrvrQueueSize
  · obtain ⟨helems, hup⟩ := qPut_room rb hroom
    unfold cdcmUp at hup
    by_cases hplace : s.place = .waiting
    · rw [h.asleep hplace] at hup
      obtain ⟨hsem, hwoken⟩ := Prod.mk.inj hup
      rw [hplace, h.asleep hplace] at hbacked
      refine ⟨htimeout ▸ h.timeout, qPut_sound rb h.ring, ?_, ?_, ?_, h.bugOn⟩
      · simp [hwoken]
      · simp [hsem]
      · dsimp only
        rw [hwoken, hsem, helems]
        exact fun _ => congrArg (· + 1) hbacked
    · rw [h.awake hplace] at hup
      obtain ⟨hsem, hwoken⟩ := Prod.mk.inj hup
      refine ⟨htimeout ▸ h.timeout, qPut_sound rb h.ring, ?_, ?_, ?_, h.bugOn⟩
      · simp [hwoken, hplace]
      · simp [hsem]
      · dsimp only
        rw [hwoken, hsem, helems, htimer]
        exact backed_succ hbacked
  · obtain ⟨helems, hsem, hwoken⟩ := qPut_full rb hroom
    refine ⟨htimeout ▸ h.timeout, qPut_sound rb h.ring, ?_, ?_, ?_, h.bugOn⟩
    · simpa [hwoken, hsem] using h.asleep
    · simpa [hwoken, hsem] using h.awake
    · dsimp only
      rw [hwoken, hsem, helems, htimer]
      exact hbacked

/-- A reset at a place where the reader is awake. -/
theorem ReaderInv.resetTo (h : ReaderInv s) {ccon : XmemDrvrClientContext E} {place : ReadPlace} (pending : List ℕ)
    (hqueue : ccon.queue.Sound) (helems : ccon.queue.elems = 0) (hreset : ccon.semaphore = (sreset s.ccon.semaphore).1)
    (htimeout : ccon.timeout = s.ccon.timeout) (hplace : place ≠ .waiting) (hbacked : Backed place ccon.timer 0 0) :
    ReaderInv ⟨ccon, place, pending, s.bugOn⟩ := by
  have hsem : ccon.semaphore = ⟨0, []⟩ := by rw [hreset, sreset_eq h.semSound]
  refine ⟨?_, hqueue, fun hwaiting => absurd hwaiting hplace, fun _ => ?_, ?_, h.bugOn⟩
  · dsimp only
    rw [htimeout]
    exact h.timeout
  · dsimp only
    rw [hsem]
  · dsimp only
    rw [hsem, helems]
    exact hbacked

/-- A move between places at which the reader is awake. -/
theorem ReaderInv.moveTo (h : ReaderInv s) (timer : ℤ) (place : ReadPlace) (pending : List ℕ)
    (hold : s.place ≠ .waiting) (hnew : place ≠ .waiting)
    (hbacked : Backed place timer s.ccon.queue.elems s.ccon.semaphore.count) :
    ReaderInv ⟨{ s.ccon with timer := timer }, place, pending, s.bugOn⟩ :=
  ⟨h.timeout, h.ring, fun hwaiting => absurd hwaiting hnew, fun _ => h.awake hold, hbacked, h.bugOn⟩

theorem ReaderInv.wait (h : ReaderInv s) (hplace : s.place = .armed) : ReaderInv (waitEntry s) := by
  have hawake : s.ccon.semaphore.waitList = [] := h.awake (by rw [hplace]; decide)
  have hbacked : s.ccon.queue.elems = s.ccon.semaphore.count := by
    have hb := h.backed
    rw [hplace] at hb
    exact hb
  unfold waitEntry cdcmDown
  by_cases hpos : 0 < s.ccon.semaphore.count
  · simp only [if_pos hpos, if_true]
    refine ⟨h.timeout, h.ring, (by intro hwaiting; cases hwaiting), fun _ => hawake, fun _ => ?_, h.bugOn⟩
    dsimp only
    omega
  · have hzero : s.ccon.semaphore.count = 0 := Nat.eq_zero_of_not_pos hpos
    simp only [if_neg hpos]
    refine ⟨h.timeout, h.ring, fun _ => ?_, fun hne => absurd rfl hne, hbacked, h.bugOn⟩
    dsimp only
    rw [hzero, hawake]
    rfl

theorem ReaderInv.abort (h : ReaderInv s) (hplace : s.place = .waiting) :
    ReaderInv { s with ccon.semaphore := leaveWait s.ccon.semaphore (), place := .interrupted } := by
  refine ⟨h.timeout, h.ring, (by intro hwaiting; cases hwaiting), fun _ => ?_, trivial, h.bugOn⟩
  dsimp only
  rw [h.asleep hplace]
  rfl

theorem ReaderInv.check (h : ReaderInv s) (hplace : s.place = .granted) : ReaderInv (checkTimer s) := by
  have hbacked := h.backed
  have hawake : s.place ≠ .waiting := by
    rw [hplace]
    decide
  rw [hplace] at hbacked
  unfold checkTimer
  rw [if_neg h.timeout]
  split
  · exact h.moveTo s.ccon.timer .timedOut s.pending hawake (by decide) trivial
  · rename_i htimer
    exact h.moveTo s.ccon.timer .cancelling s.pending hawake (by decide) (hbacked htimer)

theorem ReaderInv.cancel (h : ReaderInv s) (hplace : s.place = .cancelling) : ReaderInv (cancelTimeout s) := by
  have hbacked := h.backed
  have hawake : s.place ≠ .waiting := by
    rw [hplace]
    decide
  rw [hplace] at hbacked
  unfold cancelTimeout
  split
  · exact h.moveTo s.ccon.timer .getting s.pending hawake (by decide) hbacked
  · exact h.moveTo 0 .getting _ hawake (by decide) hbacked

theorem ReaderInv.get (h : ReaderInv s) (hplace : s.place = .getting) : ReaderInv (getEntry s) := by
  have hawake : s.ccon.semaphore.waitList = [] := h.awake (by rw [hplace]; decide)
  have hbacked : s.ccon.queue.elems = s.ccon.semaphore.count + 1 := by
    have hb := h.backed
    rw [hplace] at hb
    exact hb
  have hsome : s.ccon.queue.elems ≠ 0 := by omega
  have hring := qGet_sound h.ring
  unfold qGet at hring
  unfold getEntry qGet
  simp only [if_neg hsome, Option.isSome_some, if_true] at hring ⊢
  refine ⟨h.timeout, hring, (by intro hwaiting; cases hwaiting), fun _ => hawake, ?_, h.bugOn⟩
  show s.ccon.queue.elems - 1 = s.ccon.semaphore.count
  omega

/-- The handler of the timer resets the queue wherever the reader is, except between its test and the entry. -/
theorem ReaderInv.expire (h : ReaderInv s) (hcancelling : s.place ≠ .cancelling) (hgetting : s.place ≠ .getting)
    (timer : ℕ) : ReaderInv (readTimeout s timer) := by
  have hwoken : (sreset s.ccon.semaphore).2 = s.ccon.semaphore.waitList := by rw [sreset_eq h.semSound]
  unfold readTimeout
  by_cases hplace : s.place = .waiting
  · rw [hwoken, h.asleep hplace, wake_singleton]
    exact h.resetTo _ qReset_sound rfl rfl rfl (by decide) fun hzero => absurd rfl hzero
  · rw [hwoken, h.awake hplace, wake_nil]
    refine h.resetTo _ qReset_sound rfl rfl rfl hplace ?_
    unfold Backed
    cases hs : s.place with
    | granted => exact fun hzero => absurd rfl hzero
    | cancelling => exact absurd hs hcancelling
    | getting => exact absurd hs hgetting
    | interrupted | timedOut => trivial
    | _ => rfl

/-! ## Runs -/

/-- No timer runs out while the reader is between the test that finds its timer and the block that takes the entry. -/
def TimerApart (s : XmemReader E) : QueueStep E → Prop
  | .expire _ => s.place ≠ .cancelling ∧ s.place ≠ .getting
  | _ => True

instance (s : XmemReader E) : (a : QueueStep E) → Decidable (TimerApart s a)
  | .expire _ => inferInstanceAs (Decidable (s.place ≠ .cancelling ∧ s.place ≠ .getting))
  | .put _ | .setQueueFlag _ | .enter | .arm _ | .wait | .abort | .check | .cancel | .fail | .get =>
    inferInstanceAs (Decidable True)

theorem ReaderInv.enter (h : ReaderInv s) (hplace : s.place = .idle) : ReaderInv (enterRead s) := by
  have hbacked := h.backed
  have hawake : s.place ≠ .waiting := by
    rw [hplace]
    decide
  rw [hplace] at hbacked
  unfold enterRead
  split
  · exact h.resetTo s.pending qReset_sound rfl rfl rfl (by decide) rfl
  · exact h.moveTo s.ccon.timer .entered s.pending hawake (by decide) hbacked

theorem ReaderInv.arm (h : ReaderInv s) (hplace : s.place = .entered) (timer : Option ℕ) :
    ReaderInv (armTimer s timer) := by
  have hbacked := h.backed
  have hawake : s.place ≠ .waiting := by
    rw [hplace]
    decide
  rw [hplace] at hbacked
  unfold armTimer
  rw [if_neg h.timeout]
  cases timer with
  | none => exact h.moveTo (-1) .untimed s.pending hawake (by decide) hbacked
  | some id => exact h.moveTo id .armed (id :: s.pending) hawake (by decide) hbacked

theorem ReaderInv.fail (h : ReaderInv s) : ReaderInv (failRead s) := by
  unfold failRead
  split
  · exact h.resetTo s.pending qReset_sound rfl rfl rfl (by decide) rfl
  · exact h.resetTo s.pending qReset_sound rfl rfl rfl (by decide) rfl

theorem ReaderInv.step (h : ReaderInv s) (hok : TimerApart s a) (hnext : queueNext s a = some s') : ReaderInv s' := by
  cases a with
  | put rb =>
    cases hnext
    exact h.put rb
  | setQueueFlag value =>
    obtain ⟨hplace, heq⟩ := Option.ite_none_right_eq_some.mp hnext
    cases heq
    refine h.resetTo s.pending qReset_sound rfl rfl rfl ?_ ?_
    · rw [hplace]
      decide
    · rw [hplace]
      rfl
  | enter =>
    obtain ⟨hplace, heq⟩ := Option.ite_none_right_eq_some.mp hnext
    cases heq
    exact h.enter hplace
  | arm timer =>
    obtain ⟨hplace, heq⟩ := Option.ite_none_right_eq_some.mp hnext
    cases heq
    exact h.arm hplace.1 timer
  | wait =>
    obtain ⟨hplace, heq⟩ := Option.ite_none_right_eq_some.mp hnext
    cases heq
    exact h.wait hplace
  | abort =>
    obtain ⟨hplace, heq⟩ := Option.ite_none_right_eq_some.mp hnext
    cases heq
    exact h.abort hplace
  | check =>
    obtain ⟨hplace, heq⟩ := Option.ite_none_right_eq_some.mp hnext
    cases heq
    exact h.check hplace
  | cancel =>
    obtain ⟨hplace, heq⟩ := Option.ite_none_right_eq_some.mp hnext
    cases heq
    exact h.cancel hplace
  | fail =>
    obtain ⟨hplace, heq⟩ := Option.ite_none_right_eq_some.mp hnext
    cases heq
    exact h.fail
  | get =>
    obtain ⟨hplace, heq⟩ := Option.ite_none_right_eq_some.mp hnext
    cases heq
    exact h.get hplace
  | expire timer =>
    obtain ⟨hpending, heq⟩ := Option.ite_none_right_eq_some.mp hnext
    cases heq
    exact h.expire hok.1 hok.2 timer

theorem readerInv_start {timeout : ℕ} (htimeout : timeout ≠ 0) (queueOff : Bool) (entries : ℕ → E) :
    ReaderInv (readerStart timeout queueOff entries) :=
  ⟨htimeout, ⟨Nat.zero_le _, rfl⟩, (by intro hwaiting; cases hwaiting), fun _ => rfl, rfl, rfl⟩

/-- The queue is never found empty; it is a ring; and outside a read the semaphore counts its entries. -/
structure ReadSound (s : XmemReader E) : Prop where
  bugOn : s.bugOn = false
  elems_le : s.ccon.queue.elems ≤ xmemDrvrQueueSize
  inIdx_eq : s.ccon.queue.inIdx = (s.ccon.queue.outIdx + s.ccon.queue.elems) % xmemDrvrQueueSize
  idle : s.place = .idle → s.ccon.semaphore.count = s.ccon.queue.elems

theorem readSound_reach {timeout : ℕ} (htimeout : timeout ≠ 0) {queueOff : Bool} {entries : ℕ → E}
    (h : Reach queueNext TimerApart (readerStart timeout queueOff entries) s) : ReadSound s := by
  have hinv : ReaderInv s :=
    h.invariant (readerInv_start htimeout queueOff entries) fun _ _ _ hs hok hnext => hs.step hok hnext
  refine ⟨hinv.bugOn, hinv.ring.elems_le, hinv.ring.inIdx_eq, fun hplace => ?_⟩
  have hbacked := hinv.backed
  rw [hplace] at hbacked
  exact hbacked.symm

end Invariant

/-! ## A timer that runs out behind its test -/

section Example

/-- A read that takes an entry, one that times out, and an entry behind it. -/
def timedReads : List (QueueStep ℕ) :=
  [.put 7, .enter, .arm (some 1), .wait, .check, .cancel, .get, .enter, .arm (some 2), .wait, .expire 2, .check,
    .fail, .put 8]

theorem timedReads_sound : ∃ s : XmemReader ℕ, Reach queueNext TimerApart (readerStart 100 false id) s ∧ ReadSound s ∧
    (s.place, s.ccon.semaphore.count, s.ccon.queue.inIdx) = (.idle, 1, 1) := by
  have hrun : (replay queueNext TimerApart (readerStart 100 false id) timedReads).map
      (fun s => (s.place, s.ccon.semaphore.count, s.ccon.queue.inIdx)) = some (.idle, 1, 1) := by decide
  obtain ⟨s, hs, hval⟩ := Option.map_eq_some_iff.mp hrun
  have hreach : Reach queueNext TimerApart (readerStart 100 false id) s := Reach.of_replay .refl hs
  exact ⟨s, hreach, readSound_reach (by decide) hreach, hval⟩

/-- The timer runs out between its test and its cancellation. -/
def lateTimer : List (QueueStep ℕ) := [.put 7, .enter, .arm (some 1), .wait, .check, .expire 1, .cancel, .get]

theorem lateTimer_bugOn : ∃ s : XmemReader ℕ,
    Reach queueNext (fun _ _ => True) (readerStart 100 false id) s ∧ s.bugOn = true := by
  have hrun : (lateTimer.foldlM queueNext (readerStart 100 false id)).map XmemReader.bugOn = some true := by decide
  obtain ⟨s, hs, hbug⟩ := Option.map_eq_some_iff.mp hrun
  exact ⟨s, Reach.of_foldlM .refl (fun _ _ _ => trivial) hs, hbug⟩

end Example

end HtDrivers.Xmem
