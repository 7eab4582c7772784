import HtDrivers.Ctr.ReadQueue

/-! The queue of a client and its semaphore stay in step as long as no timer runs out beside an event. -/
namespace HtDrivers.Ctr
open HtDrivers.Cdcm HtDrivers.Lib.Transition
set_option autoImplicit false

/-! ## The ring -/

section Ring
variable {T E : Type} {ccon : CtrDrvrClientContext T E}

structure CtrDrvrQueue.Sound (queue : CtrDrvrQueue E) : Prop where
  size_le : queue.size ≤ ctrDrvrQueueSize
  rdPntr_lt : queue.rdPntr < ctrDrvrQueueSize
  wrPntr_eq : queue.wrPntr = (queue.rdPntr + queue.size) % ctrDrvrQueueSize

theorem queuePut_room (rbf : E) (h : ccon.queue.Sound) (hroom : ccon.queue.size < ctrDrvrQueueSize) :
    (queuePut rbf ccon).1.queue.Sound ∧ (queuePut rbf ccon).1.queue.size = ccon.queue.size + 1 ∧
      ((queuePut rbf ccon).1.semaphore, (queuePut rbf ccon).2) = cdcmUp ccon.semaphore := by
  unfold queuePut
  simp only [if_pos hroom]
  refine ⟨⟨hroom, h.rdPntr_lt, ?_⟩, trivial, trivial⟩
  show (ccon.queue.wrPntr + 1) % ctrDrvrQueueSize = (ccon.queue.rdPntr + (ccon.queue.size + 1)) % ctrDrvrQueueSize
  rw [h.wrPntr_eq, Nat.mod_add_mod, Nat.add_assoc]

theorem queuePut_full (rbf : E) (h : ccon.queue.Sound) (hfull : ¬ccon.queue.size < ctrDrvrQueueSize) :
    (queuePut rbf ccon).1.queue.Sound ∧ (queuePut rbf ccon).1.queue.size = ccon.queue.size ∧
      (queuePut rbf ccon).1.semaphore = ccon.semaphore ∧ (queuePut rbf ccon).2 = none := by
  have hsize : ccon.queue.size = ctrDrvrQueueSize := Nat.le_antisymm h.size_le (Nat.le_of_not_lt hfull)
  unfold queuePut
  simp only [if_neg hfull]
  refine ⟨⟨h.size_le, Nat.mod_lt _ (by decide), ?_⟩, trivial, trivial, trivial⟩
  show (ccon.queue.wrPntr + 1) % ctrDrvrQueueSize =
    ((ccon.queue.rdPntr + 1) % ctrDrvrQueueSize + ccon.queue.size) % ctrDrvrQueueSize
  rw [h.wrPntr_eq, hsize, Nat.mod_add_mod, Nat.mod_add_mod, Nat.add_right_comm]

theorem queueTake_sound (h : ccon.queue.Sound) (hsize : 0 < ccon.queue.size) : (queueTake ccon).2.queue.Sound ∧
    (queueTake ccon).2.queue.size + 1 = ccon.queue.size := by
  have hle := h.size_le
  unfold ctrDrvrQueueSize at hle
  have hnew : (queueTake ccon).2.queue.size = ccon.queue.size - 1 := if_neg (by omega)
  refine ⟨⟨?_, Nat.mod_lt _ (by decide), ?_⟩, by omega⟩
  · rw [hnew]
    unfold ctrDrvrQueueSize
    omega
  · rw [hnew]
    have hrd : (queueTake ccon).2.queue.rdPntr = (ccon.queue.rdPntr + 1) % ctrDrvrQueueSize := rfl
    have hwr : (queueTake ccon).2.queue.wrPntr = ccon.queue.wrPntr := rfl
    have hnext : ccon.queue.rdPntr + 1 + (ccon.queue.size - 1) = ccon.queue.rdPntr + ccon.queue.size := by omega
    rw [hrd, hwr, Nat.mod_add_mod, h.wrPntr_eq, hnext]

end Ring

/-! ## The invariant -/

/-- The reader has a unit of the semaphore. -/
def ReadPc.holds : ReadPc → Bool
  | .granted unit | .cancelling unit | .checked unit | .taking unit => unit
  | _ => false

def ReadPc.units (p : ReadPc) : ℕ := if p.holds then 1 else 0

section Invariant
variable {T E : Type} [DecidableEq T] [Fintype T] {s s' : CtrReaders T E} {t : T} {p : ReadPc}

/-- The number of units that readers have. -/
def held (s : CtrReaders T E) : ℕ := tally ReadPc.units s.pc

/-- Each entry of the queue belongs to a unit of the semaphore, or to a reader that has one. -/
structure QueueInv (s : CtrReaders T E) : Prop where
  ring : s.ccon.queue.Sound
  sound : s.ccon.semaphore.Sound
  waiters : ∀ t, t ∈ s.ccon.semaphore.waitList ↔ s.pc t = .waiting
  nodup : s.ccon.semaphore.waitList.Nodup
  units : s.ccon.queue.size = s.ccon.semaphore.count + held s
  taking : ∀ t, s.pc t ≠ .taking false

theorem held_update (s : CtrReaders T E) (t : T) (p : ReadPc) :
    tally ReadPc.units (Function.update s.pc t p) + (s.pc t).units = held s + p.units :=
  tally_update _ s.pc t p

omit [DecidableEq T] in
theorem held_pos (h : (s.pc t).holds = true) : 0 < held s := by
  have hle := le_tally ReadPc.units s.pc t
  have hone : (s.pc t).units = 1 := if_pos h
  rw [hone] at hle
  exact hle

omit [DecidableEq T] in
theorem held_zero (h : ∀ t, (s.pc t).holds = false) : held s = 0 := by
  refine Finset.sum_eq_zero fun t _ => if_neg ?_
  rw [h t]
  decide

/-- A task that does not wait goes to a place where it does not wait either, with the unit it has; the client changes in
its timer and in the flag of its queue. -/
theorem QueueInv.move (h : QueueInv s) (ccon : CtrDrvrClientContext T E) (hqueue : ccon.queue.Sound)
    (hsize : ccon.queue.size = s.ccon.queue.size) (hsem : ccon.semaphore = s.ccon.semaphore)
    (hold : s.pc t ≠ .waiting) (hnew : p ≠ .waiting) (hholds : p.holds = (s.pc t).holds) (htaking : p ≠ .taking false)
    (pending : List ℕ) (firing : ℕ) :
    QueueInv (goto { s with ccon := ccon, pending := pending, firing := firing } t p) := by
  unfold goto
  refine ⟨hqueue, ?_, fun u => ?_, ?_, ?_, fun u => ?_⟩
  · show ccon.semaphore.Sound
    rw [hsem]
    exact h.sound
  · show u ∈ ccon.semaphore.waitList ↔ Function.update s.pc t p u = .waiting
    rw [hsem, h.waiters u]
    by_cases hu : u = t
    · rw [hu, Function.update_self]
      exact ⟨fun hw => absurd hw hold, fun hw => absurd hw hnew⟩
    · rw [Function.update_of_ne hu]
  · show ccon.semaphore.waitList.Nodup
    rw [hsem]
    exact h.nodup
  · show ccon.queue.size = ccon.semaphore.count + tally _ (Function.update s.pc t p)
    have hunits := h.units
    have hheld := held_update s t p
    have hsame : p.units = (s.pc t).units := by
      unfold ReadPc.units
      rw [hholds]
    rw [hsize, hsem]
    omega
  · show Function.update s.pc t p u ≠ .taking false
    by_cases hu : u = t
    · rw [hu, Function.update_self]
      exact htaking
    · rw [Function.update_of_ne hu]
      exact h.taking u

/-- The same with the client as it is. -/
theorem QueueInv.goto (h : QueueInv s) (hold : s.pc t ≠ .waiting) (hnew : p ≠ .waiting)
    (hholds : p.holds = (s.pc t).holds) (htaking : p ≠ .taking false) : QueueInv (goto s t p) :=
  h.move s.ccon h.ring rfl rfl hold hnew hholds htaking s.pending s.firing

/-! ### Puts -/

omit [Fintype T] in
theorem wakeUp_nil (pc : T → ReadPc) (unit : Bool) : wakeUp pc [] unit = pc := by
  funext u
  simp [wakeUp]

omit [Fintype T] in
theorem wakeUp_singleton (pc : T → ReadPc) (t : T) (unit : Bool) :
    wakeUp pc [t] unit = Function.update pc t (.granted unit) := by
  funext u
  by_cases hu : u = t
  · rw [hu, Function.update_self]
    simp [wakeUp]
  · rw [Function.update_of_ne hu]
    simp [wakeUp, hu]

theorem QueueInv.put (h : QueueInv s) (rb : E) : QueueInv (putStep s rb) := by
  by_cases hroom : s.ccon.queue.size < ctrDrvrQueueSize
  · obtain ⟨hring, hsize, hup⟩ := queuePut_room rb h.ring hroom
    unfold cdcmUp at hup
    unfold putStep
    cases hlist : s.ccon.semaphore.waitList with
    | nil =>
      rw [hlist] at hup
      obtain ⟨hsem, hwoken⟩ := Prod.mk.inj hup
      simp only [hwoken, Option.toList_none, wakeUp_nil]
      refine ⟨hring, ?_, fun u => ?_, ?_, ?_, h.taking⟩
      · rw [hsem]
        exact fun _ => rfl
      · dsimp only
        rw [hsem, ← h.waiters u, hlist]
      · dsimp only
        rw [hsem]
        exact List.nodup_nil
      · have hunits := h.units
        show (queuePut rb s.ccon).1.queue.size = (queuePut rb s.ccon).1.semaphore.count + held s
        rw [hsize, hsem]
        dsimp only
        omega
    | cons waiter waitList =>
      rw [hlist] at hup
      obtain ⟨hsem, hwoken⟩ := Prod.mk.inj hup
      have hwaiting : s.pc waiter = .waiting := (h.waiters waiter).mp (by rw [hlist]; exact List.mem_cons_self ..)
      have hnodup := h.nodup
      rw [hlist] at hnodup
      obtain ⟨hnew, hrest⟩ := List.nodup_cons.mp hnodup
      have hzero : ¬0 < s.ccon.semaphore.count := by
        intro hpos
        have hnil := h.sound hpos
        rw [hlist] at hnil
        cases hnil
      simp only [hwoken, Option.toList_some, wakeUp_singleton]
      refine ⟨hring, ?_, fun u => ?_, ?_, ?_, fun u => ?_⟩
      · rw [hsem]
        exact fun hpos => absurd hpos hzero
      · dsimp only
        rw [hsem]
        dsimp only
        by_cases hu : u = waiter
        · rw [hu, Function.update_self]
          simpa using hnew
        · rw [Function.update_of_ne hu, ← h.waiters u, hlist, List.mem_cons]
          simp [hu]
      · dsimp only
        rw [hsem]
        exact hrest
      · have hunits := h.units
        have hheld : tally ReadPc.units (Function.update s.pc waiter (.granted true)) + (s.pc waiter).units =
          held s + 1 :=
          held_update s waiter (.granted true)
        have hnone : (s.pc waiter).units = 0 := by
          rw [hwaiting]
          rfl
        show (queuePut rb s.ccon).1.queue.size =
          (queuePut rb s.ccon).1.semaphore.count + tally ReadPc.units (Function.update s.pc waiter (.granted true))
        rw [hsize, hsem]
        dsimp only
        omega
      · dsimp only
        by_cases hu : u = waiter
        · rw [hu, Function.update_self]
          simp
        · rw [Function.update_of_ne hu]
          exact h.taking u
  · obtain ⟨hring, hsize, hsem, hwoken⟩ := queuePut_full rb h.ring hroom
    unfold putStep
    simp only [hwoken, Option.toList_none, wakeUp_nil]
    refine ⟨hring, ?_, ?_, ?_, ?_, h.taking⟩
    · rw [hsem]
      exact h.sound
    · dsimp only
      rw [hsem]
      exact h.waiters
    · dsimp only
      rw [hsem]
      exact h.nodup
    · show (queuePut rb s.ccon).1.queue.size = (queuePut rb s.ccon).1.semaphore.count + held s
      rw [hsize, hsem]
      exact h.units

/-! ### Resets of the semaphore -/

/-- A reset of a semaphore with a count of zero wakes the waiters up without units. -/
theorem QueueInv.wakeAll (h : QueueInv s) (ccon : CtrDrvrClientContext T E) (hqueue : ccon.queue.Sound)
    (hsem : ccon.semaphore = (sreset s.ccon.semaphore).1) (hsize : ccon.queue.size = held s) (firing : ℕ) :
    QueueInv { s with ccon := ccon, pc := wakeUp s.pc (sreset s.ccon.semaphore).2 false, firing := firing } := by
  have hreset : (sreset s.ccon.semaphore).1 = ⟨0, []⟩ ∧
      (sreset s.ccon.semaphore).2 = s.ccon.semaphore.waitList := by
    unfold sreset
    by_cases hzero : s.ccon.semaphore.count = 0
    · rw [if_pos hzero, hzero]
      exact ⟨rfl, rfl⟩
    · have hnil := h.sound (Nat.pos_of_ne_zero hzero)
      rw [if_neg hzero, hnil]
      exact ⟨rfl, rfl⟩
  rw [hreset.2]
  have hholds : ∀ u, (wakeUp s.pc s.ccon.semaphore.waitList false u).holds = (s.pc u).holds := by
    intro u
    unfold wakeUp
    split
    · rename_i hu
      rw [(h.waiters u).mp hu]
      rfl
    · rfl
  refine ⟨hqueue, ?_, fun u => ?_, ?_, ?_, fun u => ?_⟩
  · rw [hsem, hreset.1]
    exact fun hpos => absurd hpos (Nat.lt_irrefl 0)
  · dsimp only
    rw [hsem, hreset.1]
    unfold wakeUp
    split
    · simp
    · rename_i hu
      rw [h.waiters u] at hu
      simpa using hu
  · dsimp only
    rw [hsem, hreset.1]
    exact List.nodup_nil
  · show ccon.queue.size = ccon.semaphore.count + tally _ (wakeUp s.pc s.ccon.semaphore.waitList false)
    have hsame : tally ReadPc.units (wakeUp s.pc s.ccon.semaphore.waitList false) = held s := by
      refine Finset.sum_congr rfl fun u _ => ?_
      unfold ReadPc.units
      rw [hholds u]
    rw [hsame, hsem, hreset.1, hsize]
    exact (Nat.zero_add _).symm
  · show wakeUp s.pc s.ccon.semaphore.waitList false u ≠ .taking false
    unfold wakeUp
    split
    · simp
    · exact h.taking u

/-! ### Waits -/

theorem QueueInv.wait (h : QueueInv s) (ht : s.pc t = .armed) : QueueInv (waitStep s t) := by
  have hout : t ∉ s.ccon.semaphore.waitList := by
    rw [h.waiters t, ht]
    simp
  have hunits := h.units
  unfold waitStep cdcmDown
  by_cases hpos : 0 < s.ccon.semaphore.count
  · have hnil := h.sound hpos
    simp only [if_pos hpos, if_true]
    unfold Ctr.goto
    refine ⟨h.ring, fun _ => hnil, fun u => ?_, h.nodup, ?_, fun u => ?_⟩
    · show u ∈ s.ccon.semaphore.waitList ↔ Function.update s.pc t (.granted true) u = .waiting
      by_cases hu : u = t
      · rw [hu, Function.update_self]
        simpa using hout
      · rw [Function.update_of_ne hu]
        exact h.waiters u
    · have hheld : tally ReadPc.units (Function.update s.pc t (.granted true)) + (s.pc t).units = held s + 1 :=
        held_update s t (.granted true)
      have hnone : (s.pc t).units = 0 := by
        rw [ht]
        rfl
      show s.ccon.queue.size = s.ccon.semaphore.count - 1 + tally ReadPc.units (Function.update s.pc t (.granted true))
      omega
    · show Function.update s.pc t (.granted true) u ≠ .taking false
      by_cases hu : u = t
      · rw [hu, Function.update_self]
        simp
      · rw [Function.update_of_ne hu]
        exact h.taking u
  · simp only [if_neg hpos, reduceCtorEq, if_false]
    unfold Ctr.goto
    refine ⟨h.ring, fun hpos' => absurd hpos' hpos, fun u => ?_, ?_, ?_, fun u => ?_⟩
    · show u ∈ s.ccon.semaphore.waitList ++ [t] ↔ Function.update s.pc t .waiting u = .waiting
      by_cases hu : u = t
      · rw [hu, Function.update_self]
        simp
      · rw [Function.update_of_ne hu, ← h.waiters u]
        simp [hu]
    · refine List.nodup_append.mpr ⟨h.nodup, List.nodup_singleton t, fun a ha b hb heq => ?_⟩
      obtain rfl := List.mem_singleton.mp hb
      exact hout (heq ▸ ha)
    · have hheld := held_update s t .waiting
      have hnone : (s.pc t).units = 0 := by
        rw [ht]
        rfl
      have hwaiting : ReadPc.waiting.units = 0 := rfl
      show s.ccon.queue.size = s.ccon.semaphore.count + tally ReadPc.units (Function.update s.pc t .waiting)
      omega
    · show Function.update s.pc t .waiting u ≠ .taking false
      by_cases hu : u = t
      · rw [hu, Function.update_self]
        simp
      · rw [Function.update_of_ne hu]
        exact h.taking u

theorem QueueInv.abort (h : QueueInv s) (ht : s.pc t = .waiting) :
    QueueInv (Ctr.goto { s with ccon := { s.ccon with semaphore := leaveWait s.ccon.semaphore t } } t .idle) := by
  unfold Ctr.goto
  refine ⟨h.ring, h.sound.leaveWait t, fun u => ?_, h.nodup.erase t, ?_, fun u => ?_⟩
  · show u ∈ s.ccon.semaphore.waitList.erase t ↔ Function.update s.pc t .idle u = .waiting
    rw [h.nodup.mem_erase_iff]
    by_cases hu : u = t
    · rw [hu, Function.update_self]
      simp
    · rw [Function.update_of_ne hu, ← h.waiters u]
      simp [hu]
  · have hunits := h.units
    have hheld := held_update s t .idle
    have hnone : (s.pc t).units = 0 := by
      rw [ht]
      rfl
    have hidle : ReadPc.idle.units = 0 := rfl
    show s.ccon.queue.size = s.ccon.semaphore.count + tally ReadPc.units (Function.update s.pc t .idle)
    omega
  · show Function.update s.pc t .idle u ≠ .taking false
    by_cases hu : u = t
    · rw [hu, Function.update_self]
      simp
    · rw [Function.update_of_ne hu]
      exact h.taking u

theorem QueueInv.take (h : QueueInv s) {unit : Bool} (ht : s.pc t = .taking unit) :
    QueueInv (Ctr.goto { s with ccon := (queueTake s.ccon).2 } t .idle) := by
  have hunit : unit = true := by
    by_contra hne
    rw [Bool.not_eq_true] at hne
    subst hne
    exact h.taking t ht
  subst hunit
  have hholds : (s.pc t).holds = true := by
    rw [ht]
    rfl
  have hpos := held_pos hholds
  have hunits := h.units
  obtain ⟨hring, hsize⟩ := queueTake_sound h.ring (by omega)
  have hsem : (queueTake s.ccon).2.semaphore = s.ccon.semaphore := rfl
  unfold Ctr.goto
  generalize (queueTake s.ccon).2 = ccon at hring hsize hsem
  refine ⟨hring, ?_, fun u => ?_, ?_, ?_, fun u => ?_⟩
  · show ccon.semaphore.Sound
    rw [hsem]
    exact h.sound
  · show u ∈ ccon.semaphore.waitList ↔ Function.update s.pc t .idle u = .waiting
    rw [hsem, h.waiters u]
    by_cases hu : u = t
    · rw [hu, Function.update_self, ht]
      simp
    · rw [Function.update_of_ne hu]
  · show ccon.semaphore.waitList.Nodup
    rw [hsem]
    exact h.nodup
  · have hheld := held_update s t .idle
    have hone : (s.pc t).units = 1 := if_pos hholds
    have hidle : ReadPc.idle.units = 0 := rfl
    show ccon.queue.size = ccon.semaphore.count + tally ReadPc.units (Function.update s.pc t .idle)
    rw [hsem]
    omega
  · show Function.update s.pc t .idle u ≠ .taking false
    by_cases hu : u = t
    · rw [hu, Function.update_self]
      simp
    · rw [Function.update_of_ne hu]
      exact h.taking u

/-! ## Steps that keep the queue and the semaphore in step -/

/-- A timer that has run out resets a semaphore without units; a reader with a unit finds its timer; one without finds
the queue empty; and no queue is reset that a reader is about to read. -/
def Matched (s : CtrReaders T E) : ReadStep T E → Prop
  | .sreset => s.ccon.semaphore.count = 0
  | .check t => s.pc t = .granted true → s.ccon.timeout ≠ 0 → s.ccon.timer ≠ 0
  | .test t => s.pc t = .checked false → s.ccon.queue.size = 0
  | .resetQueue _ => ∀ u, (s.pc u).holds = false
  | _ => True

instance (s : CtrReaders T E) : (a : ReadStep T E) → Decidable (Matched s a)
  | .sreset => inferInstanceAs (Decidable (s.ccon.semaphore.count = 0))
  | .check t => inferInstanceAs (Decidable (s.pc t = .granted true → s.ccon.timeout ≠ 0 → s.ccon.timer ≠ 0))
  | .test t => inferInstanceAs (Decidable (s.pc t = .checked false → s.ccon.queue.size = 0))
  | .resetQueue _ => inferInstanceAs (Decidable (∀ u, (s.pc u).holds = false))
  | .put _ | .setQueueFlag _ | .enter _ | .arm .. | .wait _ | .abort _ | .cancel _ | .take _ | .expire _ =>
    inferInstanceAs (Decidable True)

theorem QueueInv.resetQueue (h : QueueInv s) (ht : s.pc t = .resetting) (hnone : ∀ u, (s.pc u).holds = false) :
    QueueInv (resetStep s t) := by
  have hempty : (queueReset s.ccon).1.queue.Sound := ⟨by simp [queueReset], by simp [queueReset, ctrDrvrQueueSize],
    by simp [queueReset]⟩
  have hwoken := h.wakeAll (queueReset s.ccon).1 hempty rfl (held_zero hnone).symm s.firing
  have hout : t ∉ (sreset s.ccon.semaphore).2 := by
    unfold sreset
    split
    · dsimp only
      rw [h.waiters t, ht]
      simp
    · simp
  have hstill : wakeUp s.pc (sreset s.ccon.semaphore).2 false t = .resetting := by
    unfold wakeUp
    rw [if_neg hout]
    exact ht
  unfold resetStep
  refine hwoken.goto ?_ (by simp) ?_ (by simp)
  · show wakeUp s.pc (sreset s.ccon.semaphore).2 false t ≠ .waiting
    rw [hstill]
    simp
  · show _ = (wakeUp s.pc (sreset s.ccon.semaphore).2 false t).holds
    rw [hstill]
    rfl

theorem QueueInv.arm (h : QueueInv s) (ht : s.pc t = .entered) (timer : Option ℕ) : QueueInv (armStep s t timer) := by
  have hholds : (s.pc t).holds = false := by simp [ht, ReadPc.holds]
  unfold armStep
  split
  · exact h.goto (by simp [ht]) (by simp) hholds.symm (by simp)
  · cases timer with
    | none =>
      exact h.move (t := t) (p := .idle) { s.ccon with timer := 0 } h.ring rfl rfl (by simp [ht]) (by simp) hholds.symm
        (by simp) s.pending s.firing
    | some id =>
      exact h.move (t := t) (p := .armed) { s.ccon with timer := id } h.ring rfl rfl (by simp [ht])
        (by simp) hholds.symm
        (by simp) (id :: s.pending) s.firing

/-- Whoever has a unit finds the timer, unless there is none for the client. -/
theorem QueueInv.check (h : QueueInv s) {unit : Bool} (ht : s.pc t = .granted unit)
    (hok : unit = true → s.ccon.timeout ≠ 0 → s.ccon.timer ≠ 0) : QueueInv (checkStep s t unit) := by
  have hholds : (s.pc t).holds = unit := by rw [ht, ReadPc.holds]
  unfold checkStep
  by_cases htimeout : s.ccon.timeout = 0
  · rw [if_pos htimeout]
    exact h.goto (by simp [ht]) (by simp) hholds.symm (by simp)
  · rw [if_neg htimeout]
    by_cases htimer : s.ccon.timer = 0
    · have hunit : unit = false := by
        by_contra hne
        rw [Bool.not_eq_false] at hne
        exact hok hne htimeout htimer
      subst hunit
      rw [if_pos htimer]
      exact h.goto (by simp [ht]) (by simp) hholds.symm (by simp)
    · rw [if_neg htimer]
      exact h.goto (by simp [ht]) (by simp) hholds.symm (by simp)

theorem QueueInv.cancel (h : QueueInv s) {unit : Bool} (ht : s.pc t = .cancelling unit) :
    QueueInv (cancelStep s t unit) := by
  have hholds : (s.pc t).holds = unit := by rw [ht, ReadPc.holds]
  unfold cancelStep
  split
  · exact h.goto (by simp [ht]) (by simp) hholds.symm (by simp)
  · exact h.move (t := t) (p := .checked unit) { s.ccon with timer := 0 } h.ring rfl rfl (by simp [ht]) (by simp)
      hholds.symm (by simp) (s.pending.erase s.ccon.timer) s.firing

/-- Whoever reads on has a unit, and with the queue empty nobody has one. -/
theorem QueueInv.test (h : QueueInv s) {unit : Bool} (ht : s.pc t = .checked unit)
    (hok : unit = false → s.ccon.queue.size = 0) :
    QueueInv (Ctr.goto s t (if s.ccon.queue.size = 0 then .idle else .taking unit)) := by
  have hholds : (s.pc t).holds = unit := by rw [ht, ReadPc.holds]
  have hunits := h.units
  by_cases hsize : s.ccon.queue.size = 0
  · have hunit : unit = false := by
      by_contra hne
      rw [Bool.not_eq_false] at hne
      have hpos : 0 < held s := held_pos (hholds.trans hne)
      omega
    subst hunit
    rw [if_pos hsize]
    exact h.goto (by simp [ht]) (by simp) hholds.symm (by simp)
  · have hunit : unit = true := by
      by_contra hne
      rw [Bool.not_eq_true] at hne
      exact hsize (hok hne)
    subst hunit
    rw [if_neg hsize]
    exact h.goto (by simp [ht]) (by simp) hholds.symm (by simp)

theorem QueueInv.next {a : ReadStep T E} (h : QueueInv s) (hok : Matched s a) (hnext : readNext s a = some s') :
    QueueInv s' := by
  cases a with
  | put rb =>
    obtain rfl := Option.some.inj hnext
    exact h.put rb
  | setQueueFlag value =>
    obtain rfl := Option.some.inj hnext
    exact ⟨⟨h.ring.size_le, h.ring.rdPntr_lt, h.ring.wrPntr_eq⟩, h.sound, h.waiters, h.nodup, h.units, h.taking⟩
  | enter t =>
    obtain ⟨ht, heq⟩ := Option.ite_none_right_eq_some.mp hnext
    obtain rfl := Option.some.inj heq
    split
    · exact h.goto (by simp [ht]) (by simp) (by simp [ht, ReadPc.holds]) (by simp)
    · exact h.goto (by simp [ht]) (by simp) (by simp [ht, ReadPc.holds]) (by simp)
  | resetQueue t =>
    obtain ⟨ht, heq⟩ := Option.ite_none_right_eq_some.mp hnext
    obtain rfl := Option.some.inj heq
    exact h.resetQueue ht hok
  | arm t timer =>
    obtain ⟨⟨ht, -⟩, heq⟩ := Option.ite_none_right_eq_some.mp hnext
    obtain rfl := Option.some.inj heq
    exact h.arm ht timer
  | wait t =>
    obtain ⟨ht, heq⟩ := Option.ite_none_right_eq_some.mp hnext
    obtain rfl := Option.some.inj heq
    exact h.wait ht
  | abort t =>
    obtain ⟨ht, heq⟩ := Option.ite_none_right_eq_some.mp hnext
    obtain rfl := Option.some.inj heq
    exact h.abort ht
  | check t =>
    cases ht : s.pc t with
    | granted unit =>
      simp only [readNext, ht, Option.some.injEq] at hnext
      subst hnext
      exact h.check ht fun hunit => hok (hunit ▸ ht)
    | _ => simp [readNext, ht] at hnext
  | cancel t =>
    cases ht : s.pc t with
    | cancelling unit =>
      simp only [readNext, ht, Option.some.injEq] at hnext
      subst hnext
      exact h.cancel ht
    | _ => simp [readNext, ht] at hnext
  | test t =>
    cases ht : s.pc t with
    | checked unit =>
      simp only [readNext, ht, Option.some.injEq] at hnext
      subst hnext
      exact h.test ht fun hunit => hok (hunit ▸ ht)
    | _ => simp [readNext, ht] at hnext
  | take t =>
    cases ht : s.pc t with
    | taking unit =>
      simp only [readNext, ht, Option.some.injEq] at hnext
      subst hnext
      exact h.take ht
    | _ => simp [readNext, ht] at hnext
  | expire timer =>
    obtain ⟨-, heq⟩ := Option.ite_none_right_eq_some.mp hnext
    obtain rfl := Option.some.inj heq
    exact ⟨h.ring, h.sound, h.waiters, h.nodup, h.units, h.taking⟩
  | sreset =>
    obtain ⟨-, heq⟩ := Option.ite_none_right_eq_some.mp hnext
    obtain rfl := Option.some.inj heq
    have hcount : s.ccon.semaphore.count = 0 := hok
    have hunits := h.units
    have hheld : s.ccon.queue.size = held s := by omega
    exact h.wakeAll { s.ccon with semaphore := (Cdcm.sreset s.ccon.semaphore).1 } h.ring rfl hheld (s.firing - 1)

/-! ## Runs -/

/-- The ring is sound; with no read in progress the count of the semaphore is the number of events; while a reader waits
each event is for another one that was granted it; and a reader that was granted an event finds one. -/
structure InStep (s : CtrReaders T E) : Prop where
  ring : s.ccon.queue.Sound
  idle : (∀ t, s.pc t = .idle) → s.ccon.semaphore.count = s.ccon.queue.size
  waiting : ∀ t, s.pc t = .waiting → s.ccon.queue.size = held s
  granted : ∀ t, (s.pc t).holds = true → 0 < s.ccon.queue.size

omit [DecidableEq T] in
theorem QueueInv.inStep (h : QueueInv s) : InStep s := by
  have hunits := h.units
  refine ⟨h.ring, fun hidle => ?_, fun t ht => ?_, fun t ht => ?_⟩
  · have hzero : held s = 0 := by
      apply held_zero
      intro t
      rw [hidle t]
      rfl
    omega
  · have hmem := (h.waiters t).mpr ht
    have hcount : ¬0 < s.ccon.semaphore.count := by
      intro hpos
      rw [h.sound hpos] at hmem
      cases hmem
    omega
  · have hpos := held_pos ht
    omega

omit [DecidableEq T] in
theorem queueInv_readStart (timeout : ℕ) (entry : E) : QueueInv (readStart timeout entry : CtrReaders T E) := by
  have hheld : held (readStart timeout entry : CtrReaders T E) = 0 := held_zero fun _ => rfl
  refine ⟨⟨Nat.zero_le _, ?_, rfl⟩, fun _ => rfl, fun t => ?_, List.nodup_nil, ?_, fun t => ?_⟩
  · show 0 < ctrDrvrQueueSize
    decide
  · simp [readStart]
  · rw [hheld]
    rfl
  · simp [readStart]

/-- In every state of a run whose steps are matched the queue and the semaphore are in step. -/
theorem inStep_reach (timeout : ℕ) (entry : E) (s : CtrReaders T E)
    (h : Reach readNext Matched (readStart timeout entry) s) : InStep s := by
  have hinv : QueueInv s := by
    refine h.invariant (queueInv_readStart timeout entry) ?_
    intro s a s' hs hok hnext
    exact hs.next hok hnext
  exact hinv.inStep

end Invariant

/-! ## A timer that outlives its read -/

section Example

/-- A read that takes an event, one that times out, and an event behind it. -/
def timedRun {T : Type} (first second : T) : List (ReadStep T ℕ) :=
  [.put 7, .enter first, .arm first (some 1), .wait first, .check first, .cancel first, .test first, .take first,
    .enter second, .arm second (some 2), .wait second, .expire 2, .sreset, .check second, .put 8]

theorem inStep_timedRun : ∃ s : CtrReaders (Fin 2) ℕ, Reach readNext Matched (readStart 100 0) s ∧ InStep s ∧
    (s.ccon.semaphore.count, s.ccon.queue.size, s.ccon.queue.wrPntr) = (1, 1, 2) := by
  have hrun : (replay readNext Matched (readStart 100 0) (timedRun (0 : Fin 2) 1)).map
      (fun s => (s.ccon.semaphore.count, s.ccon.queue.size, s.ccon.queue.wrPntr)) = some (1, 1, 2) := by
    decide
  obtain ⟨s, hs, hval⟩ := Option.map_eq_some_iff.mp hrun
  have hreach : Reach readNext Matched (readStart 100 0) s := Reach.of_replay .refl hs
  exact ⟨s, hreach, inStep_reach 100 0 s hreach, hval⟩

/-- A read is interrupted with its timer running; an event comes; and the timer takes the event's unit away. -/
def interruptedRun : List (ReadStep (Fin 1) ℕ) :=
  [.enter 0, .arm 0 (some 1), .wait 0, .abort 0, .put 7, .expire 1, .sreset]

theorem not_inStep_interrupted : ∃ s : CtrReaders (Fin 1) ℕ,
    Reach readNext (fun _ _ => True) (readStart 100 0) s ∧ (∀ t, s.pc t = .idle) ∧
      s.ccon.semaphore.count = 0 ∧ s.ccon.queue.size = 1 ∧ ¬InStep s := by
  have hrun : (interruptedRun.foldlM readNext (readStart 100 0)).map
      (fun s => (s.pc 0, s.ccon.semaphore.count, s.ccon.queue.size)) = some (.idle, 0, 1) := by decide
  obtain ⟨s, hs, hval⟩ := Option.map_eq_some_iff.mp hrun
  have hreach : Reach readNext (fun _ _ => True) (readStart 100 0) s :=
    Reach.of_foldlM .refl (fun _ _ _ => trivial) hs
  simp only [Prod.mk.injEq] at hval
  obtain ⟨hpc, hcount, hsize⟩ := hval
  have hidle : ∀ t, s.pc t = .idle := by
    intro t
    obtain rfl : t = 0 := Subsingleton.elim t 0
    exact hpc
  refine ⟨s, hreach, hidle, hcount, hsize, fun hstep => ?_⟩
  have heq := hstep.idle hidle
  omega

end Example

end HtDrivers.Ctr
