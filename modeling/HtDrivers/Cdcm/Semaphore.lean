import HtDrivers.Cdcm.CdcmTime
import HtDrivers.Lib.Transition

/-! # The semaphore (`cdcmTime.c`, and the same code in `cdcmSem.c`)

All the calls on one semaphore. Each section under the semaphore's lock is a step. A call is known by its number, in the
order of the arrivals, and so is its waiter on the stack. `upWaiter`, `upCall` and `resetCalls` are `__cdcm_up_waiter`,
`__cdcm_up` and `__sreset`; `downCall` is a `__cdcm_down_common` with its first section, `downLoop` its loop up to where
the task sleeps, and `wakeCall` the section behind a sleep. The kinds of a call are those of `cdcm_down`,
`cdcm_down_interruptible` and `cdcm_down_timeout`. -/
namespace HtDrivers.Cdcm
open Lib.Transition
set_option autoImplicit false

inductive Result
  | ok | etime | eintr | failed
deriving DecidableEq

/-- A granted call is one whose waiter is `up`, and that has not returned yet. -/
inductive CallStatus
  | waiting | granted
  | returned (result : Result)
deriving DecidableEq

inductive DownKind
  | ignore | abort | timeout
deriving DecidableEq

/-- The task sleeps as TASK_INTERRUPTIBLE. -/
def DownKind.interruptible : DownKind → Bool
  | .abort => true
  | _ => false

/-- The timeout is not MAX_SCHEDULE_TIMEOUT. -/
def DownKind.timed : DownKind → Bool
  | .timeout => true
  | _ => false

structure DownCall (T : Type) where
  task : T
  kind : DownKind
  status : CallStatus
deriving DecidableEq

/-- `signals` and `resets` count what has happened so far. -/
structure SemTasks (T : Type) where
  count : BitVec 32
  waitList : List ℕ
  calls : List (DownCall T)
  signals : ℕ
  resets : ℕ
deriving DecidableEq

section Operations
variable {T : Type}

def setStatus (calls : List (DownCall T)) (i : ℕ) (status : CallStatus) : List (DownCall T) :=
  calls.modify i fun call => { call with status := status }

/-- `waiter->up = 1`, which means nothing to a call that has returned. -/
def grant (calls : List (DownCall T)) (i : ℕ) : List (DownCall T) :=
  calls.modify i fun call => if call.status = .waiting then { call with status := .granted } else call

def upWaiter (s : SemTasks T) : SemTasks T :=
  match s.waitList with
  | [] => s
  | i :: waitList => { s with waitList := waitList, calls := grant s.calls i }

def upCall (s : SemTasks T) : SemTasks T :=
  let s := { s with signals := s.signals + 1 }
  if s.waitList.isEmpty then { s with count := s.count + 1 } else upWaiter s

def resetCalls (s : SemTasks T) : SemTasks T :=
  let s := { s with resets := s.resets + 1 }
  if s.count = 0 then upWaiter^[s.waitList.length] s else { s with count := 0 }

/-- `list_del`, and the call returns. -/
def unlink (s : SemTasks T) (i : ℕ) (result : Result) : SemTasks T :=
  { s with waitList := s.waitList.erase i, calls := setStatus s.calls i (.returned result) }

def downLoop (s : SemTasks T) (i : ℕ) (kind : DownKind) (signal expired : Bool) : SemTasks T :=
  if kind.interruptible && signal then unlink s i .eintr
  else if kind.timed && expired then unlink s i .etime
  else s

def downCall (s : SemTasks T) (task : T) (kind : DownKind) (signal expired : Bool) : SemTasks T :=
  if 0 < s.count then { s with count := s.count - 1, calls := s.calls ++ [⟨task, kind, .returned .ok⟩] }
  else
    let i := s.calls.length
    let s := { s with waitList := s.waitList ++ [i], calls := s.calls ++ [⟨task, kind, .waiting⟩] }
    downLoop s i kind signal expired

/-- `cdcm_down_trylock`, where the new count is an `int`. -/
def trylockCall (s : SemTasks T) (task : T) : SemTasks T :=
  let count := s.count - 1
  if 0 ≤ count.toInt then { s with count := count, calls := s.calls ++ [⟨task, .ignore, .returned .ok⟩] }
  else { s with calls := s.calls ++ [⟨task, .ignore, .returned .failed⟩] }

/-- A waiter that is up returns, as does any waiter of a thread that should stop. -/
def wakeCall (s : SemTasks T) (i : ℕ) (call : DownCall T) (signal expired stop : Bool) : SemTasks T :=
  if call.status = .granted ∨ stop = true then { s with calls := setStatus s.calls i (.returned .ok) }
  else downLoop s i call.kind signal expired

/-- `swait` with SIGIGNORE, or with SIGABORT or SIGRETRY; with another flag it fails before it takes the lock. -/
def swaitCall (s : SemTasks T) (task : T) (sigIgnore signal : Bool) : SemTasks T :=
  downCall s task (if sigIgnore then .ignore else .abort) signal false

def tswaitCall (s : SemTasks T) (task : T) (sigIgnore : Bool) (interval : ℤ) (signal expired : Bool) : SemTasks T :=
  if interval = 0 then trylockCall s task
  else if interval < 0 then swaitCall s task sigIgnore signal
  else downCall s task .timeout signal expired

/-- The sections; those of a wait are told whether a signal is pending, the time has expired and the thread should stop.
-/
inductive SemStep (T : Type)
  | swait (task : T) (sigIgnore signal : Bool)
  | tswait (task : T) (sigIgnore : Bool) (interval : ℤ) (signal expired : Bool)
  | wake (i : ℕ) (signal expired stop : Bool)
  | ssignal
  | ssignaln (n : ℕ)
  | sreset

def Idle (s : SemTasks T) (task : T) : Prop :=
  ∀ call ∈ s.calls, call.task = task → call.status ≠ .waiting ∧ call.status ≠ .granted

instance [DecidableEq T] (s : SemTasks T) (task : T) : Decidable (Idle s task) :=
  inferInstanceAs (Decidable (∀ call ∈ s.calls, _))

def semNext [DecidableEq T] (s : SemTasks T) : SemStep T → Option (SemTasks T)
  | .swait task sigIgnore signal => if Idle s task then some (swaitCall s task sigIgnore signal) else none
  | .tswait task sigIgnore interval signal expired =>
    if Idle s task then some (tswaitCall s task sigIgnore interval signal expired) else none
  | .wake i signal expired stop =>
    match s.calls[i]? with
    | none => none
    | some call =>
      if call.status = .waiting ∨ call.status = .granted then some (wakeCall s i call signal expired stop) else none
  | .ssignal => some (upCall s)
  | .ssignaln n => some (upCall^[n] s)
  | .sreset => some (resetCalls s)

/-- `cdcm_sem_init`. -/
def semInit (T : Type) (count : BitVec 32) : SemTasks T := ⟨count, [], [], 0, 0⟩

end Operations

end HtDrivers.Cdcm
