import HtDrivers.Lib.Transition
import HtDrivers.Cdcm.CdcmTime

/-! The lock of a module that its flash is opened with (`skeldrvr.c`). `T` is the type of the tasks that call the
driver. A task that waits in JTAG_OPEN makes no other call. -/
namespace HtDrivers.Skel
open HtDrivers.Cdcm HtDrivers.Lib.Transition
set_option autoImplicit false

/-! ## Operations -/

section Operations
variable {T : Type}

/-- A timeout of 0, or one that is not used, means to wait forever. -/
def lockModule (timeout : BitVec 32) (useTimer : Bool) (sem : CdcmSem T) (task : T) : CdcmSem T × Down :=
  tswait sem task (if useTimer = true ∧ timeout ≠ 0 then timeout else -1)

def unLockModule (sem : CdcmSem T) : CdcmSem T × Option T := cdcmUp sem

/-- What `Reset` does to the semaphore, with the tasks that are woken up. -/
def reset (sem : CdcmSem T) : CdcmSem T × List T :=
  let zero := sreset sem
  let up := cdcmUp zero.1
  (up.1, zero.2 ++ up.2.toList)

/-- The part of the module that its flash lock uses. `flashOpen` is the bit of the status, and `opens` are the tasks
whose JTAG_OPEN has succeeded since the last JTAG_CLOSE. -/
structure FlashModule (T : Type) where
  semaphore : CdcmSem T
  timeout : BitVec 32
  flashOpen : Bool
  opens : List T

inductive FlashCall (T : Type)
  | jtagOpen (task : T)
  | interrupted (task : T)
  | jtagClose (task : T)
  | reset (task : T)

def flashNext [DecidableEq T] (mcon : FlashModule T) : FlashCall T → Option (FlashModule T)
  | .jtagOpen task =>
    if task ∈ mcon.semaphore.waitList then none
    else
      let lock := lockModule mcon.timeout false mcon.semaphore task
      match lock.2 with
      | .acquired => some { mcon with semaphore := lock.1, flashOpen := true, opens := task :: mcon.opens }
      | .waiting => some { mcon with semaphore := lock.1 }
      | .failed => some { mcon with semaphore := lock.1 }
  | .interrupted task =>
    if task ∈ mcon.semaphore.waitList then some { mcon with semaphore := leaveWait mcon.semaphore task } else none
  | .jtagClose task =>
    if task ∈ mcon.semaphore.waitList then none
    else
      let zero := reset mcon.semaphore
      let up := unLockModule zero.1
      let woken := zero.2 ++ up.2.toList
      some { mcon with semaphore := up.1, flashOpen := !woken.isEmpty, opens := woken }
  | .reset task =>
    if task ∈ mcon.semaphore.waitList then none
    else
      let one := reset mcon.semaphore
      some { mcon with
        semaphore := one.1, flashOpen := mcon.flashOpen || !one.2.isEmpty, opens := one.2 ++ mcon.opens }

/-- The module when it is installed, with whatever count its memory had. -/
def flashStart (T : Type) (timeout : BitVec 32) (count : ℕ) : FlashModule T :=
  ⟨(reset ⟨count, []⟩).1, timeout, false, []⟩

end Operations

/-! ## Exclusive access -/

section Exclusive
variable {T : Type} {mcon mcon' : FlashModule T} {sem : CdcmSem T}

structure Exclusive (mcon : FlashModule T) : Prop where
  semaphore : mcon.semaphore.count ≤ 1
  opens : mcon.opens.length ≤ 1

/-- The flash is never closed, reset only as long as no second task can get it, and not opened again after that. -/
def FlashSafe (mcon : FlashModule T) : FlashCall T → Prop
  | .jtagOpen _ => 0 < mcon.semaphore.count → mcon.opens = []
  | .interrupted _ => True
  | .jtagClose _ => False
  | .reset _ => mcon.opens.length + mcon.semaphore.waitList.length ≤ 1

theorem cdcmUp_nil (h : sem.waitList = []) : cdcmUp sem = ({ sem with count := sem.count + 1 }, none) := by
  unfold cdcmUp
  rw [h]

theorem reset_spec (h : sem.Sound) : reset sem = (⟨1, []⟩, sem.waitList) := by
  unfold reset
  by_cases hzero : sem.count = 0
  · have hsem : sreset sem = ({ sem with waitList := [] }, sem.waitList) := if_pos hzero
    simp only [hsem, hzero]
    rw [cdcmUp_nil rfl]
    simp
  · have hnil := h (Nat.pos_of_ne_zero hzero)
    have hsem : sreset sem = ({ sem with count := 0 }, []) := if_neg hzero
    simp only [hsem, hnil]
    rfl

/-- Whatever a JTAG_CLOSE finds, it leaves the semaphore with two units. -/
theorem close_semaphore (h : sem.Sound) : unLockModule (Skel.reset sem).1 = (⟨2, []⟩, none) := by
  rw [reset_spec h]
  exact cdcmUp_nil rfl

variable [DecidableEq T] {call : FlashCall T}

theorem sound_next (h : mcon.semaphore.Sound) (hnext : flashNext mcon call = some mcon') : mcon'.semaphore.Sound := by
  cases call with
  | jtagOpen task =>
    have hlock : (lockModule mcon.timeout false mcon.semaphore task).1.Sound := h.tswait task _
    rw [flashNext] at hnext
    split at hnext
    · cases hnext
    · dsimp only at hnext
      split at hnext
      · cases hnext
        exact hlock
      · cases hnext
        exact hlock
      · cases hnext
        exact hlock
  | interrupted task =>
    rw [flashNext] at hnext
    split at hnext
    · cases hnext
      exact h.leaveWait task
    · cases hnext
  | jtagClose task =>
    rw [flashNext] at hnext
    split at hnext
    · cases hnext
    · cases hnext
      dsimp only
      rw [close_semaphore h]
      exact fun _ => rfl
  | reset task =>
    rw [flashNext] at hnext
    split at hnext
    · cases hnext
    · cases hnext
      dsimp only
      rw [reset_spec h]
      exact fun _ => rfl

/-- A step keeps the lock exclusive exactly when it is safe. -/
theorem exclusive_next (hsound : mcon.semaphore.Sound) (h : Exclusive mcon)
    (hnext : flashNext mcon call = some mcon') : Exclusive mcon' ↔ FlashSafe mcon call := by
  have hone := h.semaphore
  cases call with
  | jtagOpen task =>
    rw [flashNext] at hnext
    split at hnext
    · cases hnext
    · by_cases hpos : 0 < mcon.semaphore.count
      · have hlock : lockModule mcon.timeout false mcon.semaphore task =
            ({ mcon.semaphore with count := mcon.semaphore.count - 1 }, .acquired) := by
          simp [lockModule, tswait, cdcmDown, hpos]
        simp only [hlock] at hnext
        cases hnext
        constructor
        · intro h' _
          have hlength := h'.opens
          rw [List.length_cons] at hlength
          exact List.eq_nil_of_length_eq_zero (by omega)
        · intro hsafe
          refine ⟨?_, ?_⟩
          · change mcon.semaphore.count - 1 ≤ 1
            omega
          · rw [hsafe hpos]
            exact le_refl 1
      · have hlock : lockModule mcon.timeout false mcon.semaphore task =
            ({ mcon.semaphore with waitList := mcon.semaphore.waitList ++ [task] }, .waiting) := by
          simp [lockModule, tswait, cdcmDown, hpos]
        simp only [hlock] at hnext
        cases hnext
        exact ⟨fun _ hcount => absurd hcount hpos, fun _ => ⟨h.semaphore, h.opens⟩⟩
  | interrupted task =>
    rw [flashNext] at hnext
    split at hnext
    · cases hnext
      exact ⟨fun _ => trivial, fun _ => ⟨h.semaphore, h.opens⟩⟩
    · cases hnext
  | jtagClose task =>
    rw [flashNext] at hnext
    split at hnext
    · cases hnext
    · cases hnext
      refine ⟨fun h' => ?_, False.elim⟩
      have htwo := h'.semaphore
      dsimp only at htwo
      rw [close_semaphore hsound] at htwo
      exact absurd (show 2 ≤ 1 from htwo) (by decide)
  | reset task =>
    rw [flashNext] at hnext
    split at hnext
    · cases hnext
    · cases hnext
      simp only [reset_spec hsound]
      constructor
      · intro h'
        have hlength := h'.opens
        rw [List.length_append] at hlength
        change mcon.opens.length + mcon.semaphore.waitList.length ≤ 1
        omega
      · intro hsafe
        change mcon.opens.length + mcon.semaphore.waitList.length ≤ 1 at hsafe
        refine ⟨le_refl 1, ?_⟩
        change (mcon.semaphore.waitList ++ mcon.opens).length ≤ 1
        rw [List.length_append]
        omega

/-- The lock is exclusive as long as all calls are safe, and no longer. -/
theorem flash_exclusive {timeout : BitVec 32} {count : ℕ}
    (h : Reach flashNext FlashSafe (flashStart T timeout count) mcon) :
    Exclusive mcon ∧ ∀ call mcon', flashNext mcon call = some mcon' → (Exclusive mcon' ↔ FlashSafe mcon call) := by
  have hinv : mcon.semaphore.Sound ∧ Exclusive mcon := by
    refine h.invariant (I := fun mcon => mcon.semaphore.Sound ∧ Exclusive mcon) ?_ ?_
    · have hstart : (reset (⟨count, []⟩ : CdcmSem T)).1 = ⟨1, []⟩ := by
        rw [reset_spec fun _ => rfl]
      unfold flashStart
      rw [hstart]
      exact ⟨fun _ => rfl, le_refl 1, Nat.zero_le 1⟩
    · rintro mcon call mcon' ⟨hsound, hexcl⟩ hsafe hnext
      exact ⟨sound_next hsound hnext, (exclusive_next hsound hexcl hnext).mpr hsafe⟩
  refine ⟨hinv.2, ?_⟩
  intro call mcon' hnext
  exact exclusive_next hinv.1 hinv.2 hnext

theorem flash_exclusive_open : Exclusive (⟨⟨0, [1]⟩, 0, true, [0]⟩ : FlashModule ℕ) := by
  have hrun : Reach flashNext FlashSafe (flashStart ℕ 0 0) ⟨⟨0, [1]⟩, 0, true, [0]⟩ :=
    .step (a := .jtagOpen 1) (.step (a := .jtagOpen 0) .refl (fun _ => rfl) rfl)
      (fun hpos => absurd hpos (by decide)) rfl
  exact (flash_exclusive hrun).1

/-- After one task has opened and closed the flash, the semaphore lets in two. -/
theorem flash_shared : ¬ ∀ mcon, Reach flashNext (fun _ _ => True) (flashStart ℕ 0 0) mcon → Exclusive mcon := by
  intro hall
  have hrun : Reach flashNext (fun _ _ => True) (flashStart ℕ 0 0) ⟨⟨2, []⟩, 0, false, []⟩ :=
    .step (a := .jtagClose 0) (.step (a := .jtagOpen 0) .refl trivial rfl) trivial rfl
  have htwo := (hall _ hrun).semaphore
  exact absurd htwo (by decide)

end Exclusive

end HtDrivers.Skel
