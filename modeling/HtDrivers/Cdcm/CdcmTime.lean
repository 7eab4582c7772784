import Mathlib.Data.List.Basic
import Mathlib.Tactic

/-! The semaphores of the common driver layer (`cdcmTime.c`). `T` is the type of the tasks that may wait. A
waiter that was marked `up` is no longer on the list, and its wait returns 0 whatever else happens to it. -/
namespace HtDrivers.Cdcm
set_option autoImplicit false

/-- `struct cdcm_sem`. -/
structure CdcmSem (T : Type) where
  count : ℕ
  waitList : List T
deriving DecidableEq

variable {T : Type}

/-- `__cdcm_up`, with the waiter that is woken up. -/
def cdcmUp (sem : CdcmSem T) : CdcmSem T × Option T :=
  match sem.waitList with
  | [] => ({ sem with count := sem.count + 1 }, none)
  | waiter :: waitList => ({ sem with waitList := waitList }, some waiter)

/-- `__sreset`, with the waiters that are woken up. -/
def sreset (sem : CdcmSem T) : CdcmSem T × List T :=
  if sem.count = 0 then ({ sem with waitList := [] }, sem.waitList) else ({ sem with count := 0 }, [])

inductive Down
  | acquired | waiting | failed
deriving DecidableEq

/-- `cdcm_down_interruptible` and `cdcm_down_timeout` up to where the task sleeps. -/
def cdcmDown (sem : CdcmSem T) (task : T) : CdcmSem T × Down :=
  if 0 < sem.count then ({ sem with count := sem.count - 1 }, .acquired)
  else ({ sem with waitList := sem.waitList ++ [task] }, .waiting)

def cdcmDownTrylock (sem : CdcmSem T) : CdcmSem T × Down :=
  if 0 < sem.count then ({ sem with count := sem.count - 1 }, .acquired) else (sem, .failed)

/-- `tswait`; `interval` is an `int`, and only 0 does not wait. -/
def tswait (sem : CdcmSem T) (task : T) (interval : BitVec 32) : CdcmSem T × Down :=
  if interval = 0 then cdcmDownTrylock sem else cdcmDown sem task

/-- A wait that is interrupted or times out. -/
def leaveWait [DecidableEq T] (sem : CdcmSem T) (task : T) : CdcmSem T :=
  { sem with waitList := sem.waitList.erase task }

/-- If the count is bigger than 0, there are no waiters. -/
def CdcmSem.Sound (sem : CdcmSem T) : Prop := 0 < sem.count → sem.waitList = []

section Sound
variable {sem : CdcmSem T}

theorem CdcmSem.Sound.tswait (h : sem.Sound) (task : T) (interval : BitVec 32) :
    (tswait sem task interval).1.Sound := by
  unfold Cdcm.tswait cdcmDownTrylock cdcmDown
  intro hcount
  by_cases hpos : 0 < sem.count
  · simp only [if_pos hpos, ite_self] at hcount ⊢
    exact h hpos
  · by_cases hinterval : interval = 0
    · simp only [if_pos hinterval, if_neg hpos] at hcount ⊢
      exact absurd hcount hpos
    · simp only [if_neg hinterval, if_neg hpos] at hcount ⊢
      exact absurd hcount hpos

theorem CdcmSem.Sound.leaveWait [DecidableEq T] (h : sem.Sound) (task : T) : (leaveWait sem task).Sound := by
  intro hcount
  have hnil := h hcount
  change sem.waitList.erase task = []
  rw [hnil]
  rfl

end Sound

end HtDrivers.Cdcm
