import HtDrivers.Cdcm.CdcmTime
import HtDrivers.Lib.Transition

/-! The queue of a client of the CTR driver and the reads from it (`ctrdrvr.c`). `T` is the type of the tasks that may
read with this client, and `E` that of the entries. Every operation on the semaphore is a step of its own, and so is
every block with the interrupts disabled. -/
namespace HtDrivers.Ctr
open HtDrivers.Cdcm HtDrivers.Lib.Transition
set_option autoImplicit false

def ctrDrvrQueueSize : ℕ := 64

structure CtrDrvrQueue (E : Type) where
  queueOff : Bool
  missed : ℕ
  size : ℕ
  rdPntr : ℕ
  wrPntr : ℕ
  entries : ℕ → E

/-- A `timer` of 0 is none. -/
structure CtrDrvrClientContext (T E : Type) where
  timeout : ℕ
  timer : ℕ
  semaphore : CdcmSem T
  queue : CtrDrvrQueue E

/-- Places of a task in `CtrDrvrRead`: before the call, before the block that resets the queue, before the timer is
armed, before `swait`, asleep in it, and behind it before the test of the timer, before its cancellation, before the
test of the size and before the block that takes the entry. A task behind `swait` has a unit of the semaphore, or was
woken by a reset. -/
inductive ReadPc
  | idle | resetting | entered | armed | waiting
  | granted (unit : Bool)
  | cancelling (unit : Bool)
  | checked (unit : Bool)
  | taking (unit : Bool)
deriving DecidableEq

/-- The client, its readers, the timers that are running, and the number of timers that have run out and are about to
reset the semaphore. -/
structure CtrReaders (T E : Type) where
  ccon : CtrDrvrClientContext T E
  pc : T → ReadPc
  pending : List ℕ
  firing : ℕ

inductive ReadStep (T E : Type)
  | put (rb : E)
  | setQueueFlag (value : Bool)
  | enter (t : T)
  | resetQueue (t : T)
  | arm (t : T) (timer : Option ℕ)
  | wait (t : T)
  | abort (t : T)
  | check (t : T)
  | cancel (t : T)
  | test (t : T)
  | take (t : T)
  | expire (timer : ℕ)
  | sreset

section Operations
variable {T E : Type}

/-- The block of `IntrHandler` that fills a queue, with the reader that is woken up. -/
def queuePut (rbf : E) (ccon : CtrDrvrClientContext T E) : CtrDrvrClientContext T E × Option T :=
  let queue : CtrDrvrQueue E := { ccon.queue with
    entries := Function.update ccon.queue.entries ccon.queue.wrPntr rbf
    wrPntr := (ccon.queue.wrPntr + 1) % ctrDrvrQueueSize }
  if queue.size < ctrDrvrQueueSize then
    let up := cdcmUp ccon.semaphore
    ({ ccon with queue := { queue with size := queue.size + 1 }, semaphore := up.1 }, up.2)
  else
    let missed := (queue.missed + 1) % 2 ^ 16
    ({ ccon with queue := { queue with missed := missed, rdPntr := (queue.rdPntr + 1) % ctrDrvrQueueSize } }, none)

/-- The block at the start of a read with the queue off, with the readers that are woken up. -/
def queueReset (ccon : CtrDrvrClientContext T E) : CtrDrvrClientContext T E × List T :=
  let reset := sreset ccon.semaphore
  let queue := { ccon.queue with size := 0, missed := 0, wrPntr := 0, rdPntr := 0 }
  ({ ccon with queue := queue, semaphore := reset.1 }, reset.2)

/-- The block that takes an entry; `Size` has 16 bits. -/
def queueTake (ccon : CtrDrvrClientContext T E) : E × CtrDrvrClientContext T E :=
  (ccon.queue.entries ccon.queue.rdPntr,
    { ccon with queue := { ccon.queue with
      rdPntr := (ccon.queue.rdPntr + 1) % ctrDrvrQueueSize
      size := if ccon.queue.size = 0 then 2 ^ 16 - 1 else ccon.queue.size - 1 } })

variable [DecidableEq T]

def wakeUp (pc : T → ReadPc) (woken : List T) (unit : Bool) : T → ReadPc :=
  fun t => if t ∈ woken then .granted unit else pc t

def goto (s : CtrReaders T E) (t : T) (p : ReadPc) : CtrReaders T E := { s with pc := Function.update s.pc t p }

def putStep (s : CtrReaders T E) (rb : E) : CtrReaders T E :=
  let put := queuePut rb s.ccon
  { s with ccon := put.1, pc := wakeUp s.pc put.2.toList true }

def resetStep (s : CtrReaders T E) (t : T) : CtrReaders T E :=
  let reset := queueReset s.ccon
  goto { s with ccon := reset.1, pc := wakeUp s.pc reset.2 false } t .entered

/-- Arms the timer that was got; without one the read fails with EBUSY. -/
def armStep (s : CtrReaders T E) (t : T) (timer : Option ℕ) : CtrReaders T E :=
  if s.ccon.timeout = 0 then goto s t .armed
  else match timer with
    | none => goto { s with ccon := { s.ccon with timer := 0 } } t .idle
    | some id => goto { s with ccon := { s.ccon with timer := id }, pending := id :: s.pending } t .armed

/-- `swait` up to where the task sleeps. -/
def waitStep (s : CtrReaders T E) (t : T) : CtrReaders T E :=
  let down := cdcmDown s.ccon.semaphore t
  goto { s with ccon := { s.ccon with semaphore := down.1 } } t (if down.2 = .acquired then .granted true else .waiting)

/-- With the timer gone the read fails with ETIME. -/
def checkStep (s : CtrReaders T E) (t : T) (unit : Bool) : CtrReaders T E :=
  if s.ccon.timeout = 0 then goto s t (.checked unit)
  else if s.ccon.timer = 0 then goto s t .idle
  else goto s t (.cancelling unit)

/-- `CancelTimeout`. -/
def cancelStep (s : CtrReaders T E) (t : T) (unit : Bool) : CtrReaders T E :=
  if s.ccon.timer = 0 then goto s t (.checked unit)
  else
    goto { s with ccon := { s.ccon with timer := 0 }, pending := s.pending.erase s.ccon.timer } t (.checked unit)

def readNext (s : CtrReaders T E) : ReadStep T E → Option (CtrReaders T E)
  | .put rb => some (putStep s rb)
  | .setQueueFlag value => some { s with ccon.queue.queueOff := value }
  | .enter t =>
    if s.pc t = .idle then some (goto s t (if s.ccon.queue.queueOff then .resetting else .entered)) else none
  | .resetQueue t => if s.pc t = .resetting then some (resetStep s t) else none
  | .arm t timer =>
    if s.pc t = .entered ∧ ∀ id ∈ timer, id ≠ 0 ∧ id ∉ s.pending then some (armStep s t timer) else none
  | .wait t => if s.pc t = .armed then some (waitStep s t) else none
  | .abort t =>
    if s.pc t = .waiting then
      some (goto { s with ccon := { s.ccon with semaphore := leaveWait s.ccon.semaphore t } } t .idle)
    else none
  | .check t =>
    match s.pc t with
    | .granted unit => some (checkStep s t unit)
    | _ => none
  | .cancel t =>
    match s.pc t with
    | .cancelling unit => some (cancelStep s t unit)
    | _ => none
  | .test t =>
    match s.pc t with
    | .checked unit => some (goto s t (if s.ccon.queue.size = 0 then .idle else .taking unit))
    | _ => none
  | .take t =>
    match s.pc t with
    | .taking _ => some (goto { s with ccon := (queueTake s.ccon).2 } t .idle)
    | _ => none
  -- `ReadTimeout`, up to the reset of the semaphore
  | .expire timer =>
    if timer ∈ s.pending then
      some { s with ccon := { s.ccon with timer := 0 }, pending := s.pending.erase timer, firing := s.firing + 1 }
    else none
  | .sreset =>
    if 0 < s.firing then
      let reset := sreset s.ccon.semaphore
      some { s with
        ccon := { s.ccon with semaphore := reset.1 }, pc := wakeUp s.pc reset.2 false, firing := s.firing - 1 }
    else none

/-- A client that was just opened, with a semaphore that was reset. -/
def readStart (timeout : ℕ) (entry : E) : CtrReaders T E where
  ccon :=
    { timeout := timeout
      timer := 0
      semaphore := ⟨0, []⟩
      queue := { queueOff := false, missed := 0, size := 0, rdPntr := 0, wrPntr := 0, entries := fun _ => entry } }
  pc := fun _ => .idle
  pending := []
  firing := 0

end Operations

end HtDrivers.Ctr
