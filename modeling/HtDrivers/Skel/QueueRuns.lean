import HtDrivers.Lib.Transition
import HtDrivers.Skel.Queue

/-! Readers of one client and the interrupts that fill its queue (`SkelDrvrRead`). The tasks take their steps in
any order; each critical section is one step, and so is each operation on the semaphore. -/
namespace HtDrivers.Skel
open HtDrivers.Cdcm HtDrivers.Lib.Transition HtDrivers.Lib.Fifo
set_option autoImplicit false

/-- Places of a task in `SkelDrvrRead`: before the call, before `tswait`, asleep in it, behind it with a unit of
the semaphore, and behind it without one. -/
inductive ReadPc
  | idle | entered | waiting | granted | failed
deriving DecidableEq

/-- The client and its readers. The rest is history: the entries that were put, the number of the put that filled
each slot, the entries that reads returned, and the puts whose entries were overwritten. -/
structure Readers (T : Type) where
  ccon : SkelDrvrClientContext T
  pc : T → ReadPc
  puts : List SkelDrvrReadBuf
  stamp : ℕ → ℕ
  returned : List (SkelDrvrReadBuf × ℕ)
  lost : List ℕ

inductive ReadStep (T : Type)
  | put (rb : SkelDrvrReadBuf)
  | enter (t : T)
  | wait (t : T)
  | leave (t : T)
  | timeout (t : T)
  | get (t : T)
  | getOverflow
  | setQueueFlag (value : U32)
  | setTimeout (value : U32)

section Step
variable {T : Type} [DecidableEq T] (user : SkelUser)

/-- Waiters that were marked `up` return from their wait. -/
def wake (pc : T → ReadPc) (woken : List T) : T → ReadPc := fun t => if t ∈ woken then .granted else pc t

def goto (s : Readers T) (t : T) (p : ReadPc) : Readers T := { s with pc := Function.update s.pc t p }

def putStep (s : Readers T) (rb : SkelDrvrReadBuf) : Readers T :=
  let put := qPut user rb s.ccon
  { s with
    ccon := put.1
    pc := wake s.pc put.2.toList
    puts := s.puts ++ [rb]
    stamp := Function.update s.stamp s.ccon.queue.wrPntr s.puts.length
    lost := if s.ccon.queue.size < (user.queueSize : Int) then s.lost else s.stamp s.ccon.queue.wrPntr :: s.lost }

/-- The start of a read: with the queue off it empties the queue. -/
def enterStep (s : Readers T) (t : T) : Readers T :=
  if s.ccon.queue.queueOff then
    goto { s with ccon := (resetQueue s.ccon).1, pc := wake s.pc (resetQueue s.ccon).2 } t .entered
  else goto s t .entered

def placeOf : Down → ReadPc
  | .acquired => .granted
  | .waiting => .waiting
  | .failed => .failed

def waitStep (s : Readers T) (t : T) : Readers T :=
  let down := tswait s.ccon.semaphore t s.ccon.timeout
  goto { s with ccon := { s.ccon with semaphore := down.1 } } t (placeOf down.2)

def getStep (s : Readers T) (t : T) : Readers T :=
  let get := qGet user s.ccon
  goto { s with ccon := get.2, returned := s.returned ++ [(get.1, s.stamp s.ccon.queue.rdPntr)] } t .idle

def readNext (s : Readers T) : ReadStep T → Option (Readers T)
  | .put rb => some (putStep user s rb)
  | .enter t => if s.pc t = .idle then some (enterStep s t) else none
  | .wait t => if s.pc t = .entered then some (waitStep s t) else none
  | .leave t =>
    if s.pc t = .waiting then
      some (goto { s with ccon := { s.ccon with semaphore := leaveWait s.ccon.semaphore t } } t .failed)
    else none
  | .timeout t => if s.pc t = .failed then some (goto { s with ccon := clientTimeout s.ccon } t .idle) else none
  | .get t => if s.pc t = .granted then some (getStep user s t) else none
  | .getOverflow => some { s with ccon := (getQueueOverflow s.ccon).2 }
  | .setQueueFlag value => some { s with ccon := setQueueFlag s.ccon value }
  | .setTimeout value => some { s with ccon := { s.ccon with timeout := value } }

/-- A client that was just opened. -/
def readStart (modnr : U32) (flp : ℕ) : Readers T where
  ccon := clientInit ⟨0, []⟩ modnr flp
  pc := fun _ => .idle
  puts := []
  stamp := fun _ => 0
  returned := []
  lost := []

end Step

/-! ## What the steps keep -/

section Invariant
variable {T : Type} [DecidableEq T] [Fintype T] {user : SkelUser}

/-- The number of readers between their wait and their get. -/
def holders (s : Readers T) : ℕ := tally (fun p => if p = ReadPc.granted then 1 else 0) s.pc

/-- Each entry in the queue belongs to a unit of the semaphore, or to a reader that has taken one. -/
structure ReadInv (user : SkelUser) (s : Readers T) : Prop where
  ring : s.ccon.queue.Sound user
  waiters : ∀ t, t ∈ s.ccon.semaphore.waitList → s.pc t = .waiting
  nodup : s.ccon.semaphore.waitList.Nodup
  units : s.ccon.queue.size = s.ccon.semaphore.count + holders s

omit [Fintype T] in
theorem wake_nil (pc : T → ReadPc) : wake pc [] = pc := by
  funext u
  simp [wake]

omit [Fintype T] in
theorem wake_singleton (pc : T → ReadPc) (t : T) : wake pc [t] = Function.update pc t .granted := by
  funext u
  by_cases hu : u = t
  · rw [hu, Function.update_self]
    simp [wake]
  · rw [Function.update_of_ne hu]
    simp [wake, hu]

theorem holders_update {s : Readers T} {t : T} {p : ReadPc} (hold : s.pc t ≠ .granted) :
    tally (fun p => if p = ReadPc.granted then 1 else 0) (Function.update s.pc t p) =
      holders s + if p = .granted then 1 else 0 := by
  have htally := tally_update (fun p => if p = ReadPc.granted then 1 else 0) s.pc t p
  simp only [if_neg hold] at htally
  unfold holders
  omega

omit [DecidableEq T] in
theorem holders_pos {s : Readers T} {t : T} (h : s.pc t = .granted) : 0 < holders s := by
  have hle := le_tally (fun p => if p = ReadPc.granted then 1 else 0) s.pc t
  simp only [if_pos h] at hle
  exact hle

theorem holders_release {s : Readers T} {t : T} {p : ReadPc} (hold : s.pc t = .granted) (hp : p ≠ .granted) :
    tally (fun p => if p = ReadPc.granted then 1 else 0) (Function.update s.pc t p) + 1 = holders s := by
  have htally := tally_update (fun p => if p = ReadPc.granted then 1 else 0) s.pc t p
  simp only [if_pos hold, if_neg hp] at htally
  unfold holders
  omega

/-- A signal goes to the first waiter, or else to the count. -/
theorem ReadInv.signal {s : Readers T} {ccon : SkelDrvrClientContext T} {woken : Option T} {s' : Readers T}
    (h : ReadInv user s) (hring : ccon.queue.Sound user) (hsize : ccon.queue.size = s.ccon.queue.size + 1)
    (hup : (ccon.semaphore, woken) = cdcmUp s.ccon.semaphore) (hccon : s'.ccon = ccon)
    (hpc : s'.pc = wake s.pc woken.toList) : ReadInv user s' := by
  obtain ⟨-, hwaiters, hnodup, hunits⟩ := h
  unfold cdcmUp at hup
  cases hlist : s.ccon.semaphore.waitList with
  | nil =>
    rw [hlist] at hup
    obtain ⟨hsem, rfl⟩ := Prod.mk.inj hup
    rw [Option.toList_none, wake_nil] at hpc
    refine ⟨by rw [hccon]; exact hring, ?_, ?_, ?_⟩
    · rw [hccon, hsem]
      intro t ht
      cases ht
    · rw [hccon, hsem]
      exact List.nodup_nil
    · rw [hccon, hsize, hunits, hsem]
      unfold holders
      rw [hpc]
      push_cast
      omega
  | cons waiter waitList =>
    rw [hlist] at hup hwaiters hnodup
    obtain ⟨hsem, rfl⟩ := Prod.mk.inj hup
    rw [Option.toList_some, wake_singleton] at hpc
    have hwaiting : s.pc waiter = .waiting := hwaiters waiter (List.mem_cons_self ..)
    obtain ⟨hnew, hrest⟩ := List.nodup_cons.mp hnodup
    refine ⟨by rw [hccon]; exact hring, ?_, ?_, ?_⟩
    · rw [hccon, hsem, hpc]
      intro t ht
      have hne : t ≠ waiter := fun heq => hnew (heq ▸ ht)
      rw [Function.update_of_ne hne]
      exact hwaiters t (List.mem_cons_of_mem _ ht)
    · rw [hccon, hsem]
      exact hrest
    · have hholders := holders_update (p := .granted) (by rw [hwaiting]; decide : s.pc waiter ≠ .granted)
      rw [hccon, hsize, hunits, hsem]
      unfold holders at hholders ⊢
      rw [hpc, hholders]
      push_cast
      simp
      omega

theorem ReadInv.put {s : Readers T} (h : ReadInv user s) (rb : SkelDrvrReadBuf) : ReadInv user (putStep user s rb) := by
  by_cases hroom : s.ccon.queue.size < user.queueSize
  · obtain ⟨hring, -, hsize, -, hup⟩ := qPut_room rb s.stamp 0 h.ring hroom
    exact h.signal hring hsize hup rfl rfl
  · obtain ⟨hring, -, -, hsize, -, hsem, hwoken⟩ := qPut_full rb s.stamp 0 h.ring hroom
    have hpc : (putStep user s rb).pc = s.pc := by
      change wake s.pc (qPut user rb s.ccon).2.toList = s.pc
      rw [hwoken, Option.toList_none, wake_nil]
    refine ⟨hring, ?_, ?_, ?_⟩
    · rw [hpc]
      change ∀ t, t ∈ (qPut user rb s.ccon).1.semaphore.waitList → _
      rw [hsem]
      exact h.waiters
    · change (qPut user rb s.ccon).1.semaphore.waitList.Nodup
      rw [hsem]
      exact h.nodup
    · change (qPut user rb s.ccon).1.queue.size = (qPut user rb s.ccon).1.semaphore.count + holders (putStep user s rb)
      unfold holders
      rw [hpc, hsize, hsem]
      exact h.units

/-- A task goes to another place that does not count, and the semaphore stays. -/
theorem ReadInv.goto {s : Readers T} {t : T} {p : ReadPc} (h : ReadInv user s) (hold : s.pc t ≠ .granted)
    (hwait : s.pc t ≠ .waiting) (hp : p ≠ .granted) : ReadInv user (goto s t p) := by
  refine ⟨h.ring, ?_, h.nodup, ?_⟩
  · intro u hu
    have hne : u ≠ t := fun heq => hwait (heq ▸ h.waiters u hu)
    exact (Function.update_of_ne hne _ _).trans (h.waiters u hu)
  · have hholders := holders_update (p := p) hold
    rw [if_neg hp, Nat.add_zero] at hholders
    change s.ccon.queue.size = s.ccon.semaphore.count + holders (Skel.goto s t p)
    unfold holders Skel.goto
    rw [hholders]
    exact h.units

theorem ReadInv.wait {s : Readers T} {t : T} (h : ReadInv user s) (ht : s.pc t = .entered) :
    ReadInv user (waitStep s t) := by
  have hold : s.pc t ≠ .granted := by rw [ht]; decide
  have hwait : s.pc t ≠ .waiting := by rw [ht]; decide
  have hout : t ∉ s.ccon.semaphore.waitList := fun hmem => hwait (h.waiters t hmem)
  -- with a unit left, both kinds of wait take it
  by_cases hpos : 0 < s.ccon.semaphore.count
  · have hdown : tswait s.ccon.semaphore t s.ccon.timeout =
        ({ s.ccon.semaphore with count := s.ccon.semaphore.count - 1 }, .acquired) := by
      unfold tswait cdcmDownTrylock cdcmDown
      rw [if_pos hpos, if_pos hpos, ite_self]
    unfold waitStep
    rw [hdown]
    refine ⟨h.ring, ?_, h.nodup, ?_⟩
    · intro u hu
      have hne : u ≠ t := fun heq => hout (heq ▸ hu)
      exact (Function.update_of_ne hne _ _).trans (h.waiters u hu)
    · have hholders := holders_update (p := .granted) hold
      have hunits := h.units
      rw [if_pos rfl] at hholders
      change s.ccon.queue.size = ((s.ccon.semaphore.count - 1 : ℕ) : Int) +
        (tally _ (Function.update s.pc t .granted) : ℕ)
      rw [hholders]
      omega
  · by_cases hzero : s.ccon.timeout = 0
    · have hdown : tswait s.ccon.semaphore t s.ccon.timeout = (s.ccon.semaphore, .failed) := by
        unfold tswait cdcmDownTrylock
        rw [if_pos hzero, if_neg hpos]
      have hfailed : placeOf .failed ≠ .granted := by decide
      unfold waitStep
      rw [hdown]
      exact h.goto hold hwait hfailed
    · have hdown : tswait s.ccon.semaphore t s.ccon.timeout =
          ({ s.ccon.semaphore with waitList := s.ccon.semaphore.waitList ++ [t] }, .waiting) := by
        unfold tswait cdcmDown
        rw [if_neg hzero, if_neg hpos]
      unfold waitStep
      rw [hdown]
      refine ⟨h.ring, ?_, ?_, ?_⟩
      · intro u hu
        by_cases hut : u = t
        · rw [hut]
          exact Function.update_self ..
        · have hmem : u ∈ s.ccon.semaphore.waitList := by
            obtain hmem | hmem := List.mem_append.mp hu
            · exact hmem
            · exact absurd (List.mem_singleton.mp hmem) hut
          exact (Function.update_of_ne hut _ _).trans (h.waiters u hmem)
      · exact List.nodup_append.mpr ⟨h.nodup, List.nodup_singleton t, fun a ha b hb heq =>
          hout ((List.mem_singleton.mp hb) ▸ heq ▸ ha)⟩
      · have hholders := holders_update (p := .waiting) hold
        rw [if_neg (by decide), Nat.add_zero] at hholders
        change s.ccon.queue.size = s.ccon.semaphore.count + (tally _ (Function.update s.pc t .waiting) : ℕ)
        rw [hholders]
        exact h.units

theorem ReadInv.leave {s : Readers T} {t : T} (h : ReadInv user s) (ht : s.pc t = .waiting) :
    ReadInv user
      (Skel.goto { s with ccon := { s.ccon with semaphore := leaveWait s.ccon.semaphore t } } t .failed) := by
  have hold : s.pc t ≠ .granted := by rw [ht]; decide
  refine ⟨h.ring, ?_, h.nodup.erase t, ?_⟩
  · intro u hu
    obtain ⟨hne, hmem⟩ := (List.Nodup.mem_erase_iff h.nodup).mp hu
    exact (Function.update_of_ne hne _ _).trans (h.waiters u hmem)
  · have hholders := holders_update (p := .failed) hold
    rw [if_neg (by decide), Nat.add_zero] at hholders
    change s.ccon.queue.size = s.ccon.semaphore.count + (tally _ (Function.update s.pc t .failed) : ℕ)
    rw [hholders]
    exact h.units

theorem ReadInv.get {s : Readers T} {t : T} (h : ReadInv user s) (ht : s.pc t = .granted) :
    ReadInv user (getStep user s t) := by
  have hpos := holders_pos ht
  have hunits := h.units
  have hsize : 0 < s.ccon.queue.size := by omega
  have hwait : s.pc t ≠ .waiting := by rw [ht]; decide
  refine ⟨(qGet_cons s.stamp h.ring hsize).1, ?_, h.nodup, ?_⟩
  · intro u hu
    have hne : u ≠ t := fun heq => hwait (heq ▸ h.waiters u hu)
    exact (Function.update_of_ne hne _ _).trans (h.waiters u hu)
  · have hholders := holders_release (p := .idle) ht (by decide)
    change s.ccon.queue.size - 1 = s.ccon.semaphore.count + (tally _ (Function.update s.pc t .idle) : ℕ)
    omega

end Invariant

/-! ## Steps that keep the units -/

section Safe
variable {T : Type} [DecidableEq T] [Fintype T] {user : SkelUser}

/-- The queue is empty when a read that failed clears it, and nobody waits or is about to get an entry when a
read resets it. -/
def ReadSafe (s : Readers T) : ReadStep T → Prop
  | .enter _ => s.ccon.queue.queueOff = true → s.ccon.semaphore.waitList = [] ∧ ∀ u, s.pc u ≠ .granted
  | .timeout _ => s.ccon.queue.size = 0
  | _ => True

omit [DecidableEq T] [Fintype T] in
theorem resetQueue_idle {ccon : SkelDrvrClientContext T} (h : ccon.semaphore.waitList = []) :
    (resetQueue ccon).2 = [] ∧ (resetQueue ccon).1.semaphore = ⟨0, []⟩ := by
  unfold resetQueue sreset
  by_cases hzero : ccon.semaphore.count = 0
  · simp only [if_pos hzero]
    exact ⟨h, by rw [hzero]⟩
  · simp only [if_neg hzero]
    exact ⟨trivial, by rw [h]⟩

omit [DecidableEq T] in
theorem holders_zero {s : Readers T} (h : ∀ u, s.pc u ≠ .granted) : holders s = 0 :=
  Finset.sum_eq_zero fun u _ => if_neg (h u)

theorem readInv_reset {s : Readers T} (hlist : s.ccon.semaphore.waitList = [])
    (hnone : ∀ u, s.pc u ≠ .granted) :
    ReadInv user { s with ccon := (resetQueue s.ccon).1, pc := wake s.pc (resetQueue s.ccon).2 } := by
  obtain ⟨hwoken, hsem⟩ := resetQueue_idle hlist
  rw [hwoken, wake_nil]
  refine ⟨⟨le_refl _, ?_, user.queueSize_pos, ?_⟩, ?_, ?_, ?_⟩
  · change (0 : Int) ≤ user.queueSize
    omega
  · exact (Nat.zero_mod _).symm
  · rw [hsem]
    intro t ht
    cases ht
  · rw [hsem]
    exact List.nodup_nil
  · rw [hsem]
    change (0 : Int) = (0 : ℕ) + (holders s : ℕ)
    rw [holders_zero hnone]
    rfl

/-- A safe step keeps the invariant. -/
theorem ReadInv.next {s s' : Readers T} {a : ReadStep T} (h : ReadInv user s) (hsafe : ReadSafe s a)
    (hnext : readNext user s a = some s') : ReadInv user s' := by
  cases a with
  | put rb =>
    cases hnext
    exact h.put rb
  | enter t =>
    obtain ⟨ht, heq⟩ := Option.ite_none_right_eq_some.mp hnext
    cases heq
    have hold : s.pc t ≠ .granted := by rw [ht]; decide
    have hwait : s.pc t ≠ .waiting := by rw [ht]; decide
    unfold enterStep
    by_cases hoff : s.ccon.queue.queueOff = true
    · obtain ⟨hlist, hnone⟩ := hsafe hoff
      rw [if_pos hoff]
      refine (readInv_reset hlist hnone).goto ?_ ?_ (by decide)
      · rw [(resetQueue_idle hlist).1, wake_nil]
        exact hold
      · rw [(resetQueue_idle hlist).1, wake_nil]
        exact hwait
    · rw [if_neg hoff]
      exact h.goto hold hwait (by decide)
  | wait t =>
    obtain ⟨ht, heq⟩ := Option.ite_none_right_eq_some.mp hnext
    cases heq
    exact h.wait ht
  | leave t =>
    obtain ⟨ht, heq⟩ := Option.ite_none_right_eq_some.mp hnext
    cases heq
    exact h.leave ht
  | timeout t =>
    obtain ⟨ht, heq⟩ := Option.ite_none_right_eq_some.mp hnext
    cases heq
    have hzero : s.ccon.queue.size = 0 := hsafe
    have hclear : ReadInv user { s with ccon := clientTimeout s.ccon } := by
      obtain ⟨⟨hnonneg, hle, hrd, hwr⟩, hwaiters, hnodup, hunits⟩ := h
      rw [hzero] at hwr hunits hle
      exact ⟨⟨le_refl _, hle, hrd, hwr⟩, hwaiters, hnodup, hunits⟩
    exact hclear.goto (by change s.pc t ≠ _; rw [ht]; decide) (by change s.pc t ≠ _; rw [ht]; decide) (by decide)
  | get t =>
    obtain ⟨ht, heq⟩ := Option.ite_none_right_eq_some.mp hnext
    cases heq
    exact h.get ht
  | getOverflow | setQueueFlag | setTimeout =>
    cases hnext
    exact ⟨⟨h.ring.1, h.ring.2, h.ring.3, h.ring.4⟩, h.waiters, h.nodup, h.units⟩

omit [DecidableEq T] in
theorem readInv_start (modnr : U32) (flp : ℕ) : ReadInv user (readStart modnr flp : Readers T) := by
  refine ⟨⟨le_refl _, ?_, user.queueSize_pos, (Nat.zero_mod _).symm⟩, ?_, List.nodup_nil, ?_⟩
  · change (0 : Int) ≤ user.queueSize
    omega
  · intro t ht
    cases ht
  · change (0 : Int) = (0 : ℕ) + (holders (readStart modnr flp : Readers T) : ℕ)
    rw [holders_zero fun u => by change ReadPc.idle ≠ _; decide]
    rfl

end Safe

/-! ## Completed reads only -/

section Fifo
variable {T : Type} [DecidableEq T] [Fintype T] {user : SkelUser}

/-- Puts and reads, without a wait that ends early or a reset. -/
def Completes : ReadStep T → Prop
  | .put _ | .enter _ | .wait _ | .get _ | .setTimeout _ => True
  | .leave _ | .timeout _ | .getOverflow | .setQueueFlag _ => False

instance : DecidablePred (Completes (T := T))
  | .put _ | .enter _ | .wait _ | .get _ | .setTimeout _ => inferInstanceAs (Decidable True)
  | .leave _ | .timeout _ | .getOverflow | .setQueueFlag _ => inferInstanceAs (Decidable False)

structure FifoInv (user : SkelUser) (s : Readers T) : Prop where
  read : ReadInv user s
  queueing : s.ccon.queue.queueOff = false
  account : Account s.puts s.returned (s.ccon.queue.stamped user s.stamp) s.lost
  missed : s.ccon.queue.missed = BitVec.ofNat 16 s.lost.length

omit [DecidableEq T] [Fintype T] in
theorem qPut_queueOff (rb : SkelDrvrReadBuf) (ccon : SkelDrvrClientContext T) :
    (qPut user rb ccon).1.queue.queueOff = ccon.queue.queueOff := by
  unfold qPut
  by_cases hroom : ccon.queue.size < user.queueSize
  · simp only [if_pos hroom]
  · simp only [if_neg hroom]

theorem FifoInv.put {s : Readers T} (h : FifoInv user s) (rb : SkelDrvrReadBuf) : FifoInv user (putStep user s rb) := by
  refine ⟨h.read.put rb, ?_, ?_, ?_⟩
  · exact (qPut_queueOff rb s.ccon).trans h.queueing
  · by_cases hroom : s.ccon.queue.size < user.queueSize
    · obtain ⟨-, hstamped, -⟩ := qPut_room rb s.stamp s.puts.length h.read.ring hroom
      change Account (s.puts ++ [rb]) s.returned ((qPut user rb s.ccon).1.queue.stamped user
        (Function.update s.stamp s.ccon.queue.wrPntr s.puts.length)) (if _ then _ else _)
      rw [hstamped, if_pos hroom]
      exact h.account.put
    · obtain ⟨-, hstamped, hhead, -⟩ := qPut_full rb s.stamp s.puts.length h.read.ring hroom
      have haccount := h.account
      rw [hhead] at haccount
      change Account (s.puts ++ [rb]) s.returned ((qPut user rb s.ccon).1.queue.stamped user
        (Function.update s.stamp s.ccon.queue.wrPntr s.puts.length)) (if _ then _ else _)
      rw [hstamped, if_neg hroom]
      exact haccount.drop.put
  · change (qPut user rb s.ccon).1.queue.missed = BitVec.ofNat 16 (if _ then s.lost else _).length
    by_cases hroom : s.ccon.queue.size < user.queueSize
    · obtain ⟨-, -, -, hmissed, -⟩ := qPut_room rb s.stamp 0 h.read.ring hroom
      rw [if_pos hroom, hmissed]
      exact h.missed
    · obtain ⟨-, -, -, -, hmissed, -⟩ := qPut_full rb s.stamp 0 h.read.ring hroom
      rw [if_neg hroom, hmissed, h.missed, List.length_cons, BitVec.ofNat_add]
      rfl

theorem FifoInv.get {s : Readers T} {t : T} (h : FifoInv user s) (ht : s.pc t = .granted) :
    FifoInv user (getStep user s t) := by
  have hpos := holders_pos ht
  have hunits := h.read.units
  obtain ⟨-, hstamped⟩ := qGet_cons s.stamp h.read.ring (by omega)
  have haccount := h.account
  rw [hstamped] at haccount
  exact ⟨h.read.get ht, h.queueing, haccount.get, h.missed⟩

theorem FifoInv.next {s s' : Readers T} {a : ReadStep T} (h : FifoInv user s) (hok : Completes a)
    (hnext : readNext user s a = some s') : FifoInv user s' := by
  cases a with
  | put rb =>
    cases hnext
    exact h.put rb
  | enter t =>
    have hsafe : ReadSafe s (.enter t) := fun hoff => by rw [h.queueing] at hoff; cases hoff
    have hread := h.read.next hsafe hnext
    obtain ⟨-, heq⟩ := Option.ite_none_right_eq_some.mp hnext
    have hon : ¬ s.ccon.queue.queueOff = true := by rw [h.queueing]; decide
    rw [enterStep, if_neg hon] at heq
    cases heq
    exact ⟨hread, h.queueing, h.account, h.missed⟩
  | wait t =>
    have hread := h.read.next (a := .wait t) trivial hnext
    obtain ⟨-, heq⟩ := Option.ite_none_right_eq_some.mp hnext
    cases heq
    exact ⟨hread, h.queueing, h.account, h.missed⟩
  | get t =>
    obtain ⟨ht, heq⟩ := Option.ite_none_right_eq_some.mp hnext
    cases heq
    exact h.get ht
  | setTimeout value =>
    have hread := h.read.next (a := .setTimeout value) trivial hnext
    cases hnext
    exact ⟨hread, h.queueing, h.account, h.missed⟩
  | leave | timeout | getOverflow | setQueueFlag => exact hok.elim

omit [DecidableEq T] in
theorem fifoInv_start (modnr : U32) (flp : ℕ) : FifoInv user (readStart modnr flp : Readers T) :=
  ⟨readInv_start modnr flp, rfl, Account.empty, rfl⟩

/-- In every interleaving of puts and completed reads, the queue is a ring whose size is that of the semaphore
and of the readers on their way to their entry; what was read and what is queued are all entries in order, except
for those that were overwritten, which `missed` counts. -/
theorem queue_fifo (modnr : U32) (flp : ℕ) {s : Readers T}
    (h : Reach (readNext user) (fun _ a => Completes a) (readStart modnr flp) s) :
    0 ≤ s.ccon.queue.size ∧ s.ccon.queue.size ≤ user.queueSize ∧
    (s.ccon.queue.wrPntr : Int) = (s.ccon.queue.rdPntr + s.ccon.queue.size) % user.queueSize ∧
    s.ccon.queue.size = s.ccon.semaphore.count + holders s ∧
    s.returned.map Prod.fst ++ s.ccon.queue.queued user =
      ((numbered s.puts).filter fun p => decide (p.2 ∉ s.lost)).map Prod.fst ∧
    s.lost.Nodup ∧ s.ccon.queue.missed = BitVec.ofNat 16 s.lost.length := by
  have hinv := h.invariant (I := FifoInv user) (fifoInv_start modnr flp) fun _ _ _ hs hok hnext => hs.next hok hnext
  have hring := hinv.read.ring
  refine ⟨hring.size_nonneg, hring.size_le, hring.wrPntr_int, hinv.read.units, ?_, hinv.account.nodup, hinv.missed⟩
  rw [← map_fst_stamped _ s.stamp, ← List.map_append, hinv.account.entries]

end Fifo

/-- A queue of one entry, for one reader. -/
def oneSlot : SkelUser := ⟨1, 1, by decide, by decide⟩

def eventAt (second : U32) : SkelDrvrReadBuf := ⟨⟨1, 1⟩, ⟨second, 0⟩⟩

/-- The second event overwrites the first one, and the reader gets it. -/
theorem queue_fifo_overwrite :
    ∃ s : Readers (Fin 1), s.returned.map Prod.fst = [eventAt 2] ∧ s.lost = [0] ∧
      s.returned.map Prod.fst ++ s.ccon.queue.queued oneSlot =
        ((numbered s.puts).filter fun p => decide (p.2 ∉ s.lost)).map Prod.fst := by
  have hrun : (replay (readNext oneSlot) (fun _ a => Completes a) (readStart 1 0)
      [.put (eventAt 1), .put (eventAt 2), .enter (0 : Fin 1), .wait 0, .get 0]).map
      (fun s => (s.returned.map Prod.fst, s.lost)) = some ([eventAt 2], [0]) := by decide
  obtain ⟨s, hs, he⟩ := Option.map_eq_some_iff.mp hrun
  obtain ⟨hreturned, hlost⟩ := Prod.mk.inj he
  exact ⟨s, hreturned, hlost, (queue_fifo 1 0 (Reach.refl.of_replay hs)).2.2.2.2.1⟩

/-! ## Timeouts and resets -/

section Resets
variable {T : Type} [DecidableEq T] [Fintype T] {user : SkelUser}

instance (s : Readers T) : DecidablePred (ReadSafe s)
  | .enter _ => inferInstanceAs (Decidable (_ → _ ∧ _))
  | .timeout _ => inferInstanceAs (Decidable (_ = _))
  | .put _ | .wait _ | .leave _ | .get _ | .getOverflow | .setQueueFlag _ | .setTimeout _ =>
    inferInstanceAs (Decidable True)

structure QueueInv (user : SkelUser) (s : Readers T) : Prop where
  read : ReadInv user s
  order : InOrder s.puts s.returned (s.ccon.queue.stamped user s.stamp)

theorem QueueInv.put {s : Readers T} (h : QueueInv user s) (rb : SkelDrvrReadBuf) :
    QueueInv user (putStep user s rb) := by
  refine ⟨h.read.put rb, ?_⟩
  change InOrder (s.puts ++ [rb]) s.returned ((qPut user rb s.ccon).1.queue.stamped user
    (Function.update s.stamp s.ccon.queue.wrPntr s.puts.length))
  by_cases hroom : s.ccon.queue.size < user.queueSize
  · obtain ⟨-, hstamped, -⟩ := qPut_room rb s.stamp s.puts.length h.read.ring hroom
    rw [hstamped]
    exact h.order.put
  · obtain ⟨-, hstamped, -⟩ := qPut_full rb s.stamp s.puts.length h.read.ring hroom
    rw [hstamped]
    exact (h.order.drop (List.tail_sublist _)).put

theorem QueueInv.get {s : Readers T} {t : T} (h : QueueInv user s) (ht : s.pc t = .granted) :
    QueueInv user (getStep user s t) := by
  have hpos := holders_pos ht
  have hunits := h.read.units
  obtain ⟨-, hstamped⟩ := qGet_cons s.stamp h.read.ring (by omega)
  have horder := h.order
  rw [hstamped] at horder
  exact ⟨h.read.get ht, horder.get⟩

theorem QueueInv.next {s s' : Readers T} {a : ReadStep T} (h : QueueInv user s) (hsafe : ReadSafe s a)
    (hnext : readNext user s a = some s') : QueueInv user s' := by
  have hread := h.read.next hsafe hnext
  refine ⟨hread, ?_⟩
  cases a with
  | put rb =>
    cases hnext
    exact (h.put rb).order
  | enter t =>
    obtain ⟨-, heq⟩ := Option.ite_none_right_eq_some.mp hnext
    cases heq
    unfold enterStep
    by_cases hoff : s.ccon.queue.queueOff = true
    · rw [if_pos hoff]
      exact h.order.drop (List.nil_sublist _)
    · rw [if_neg hoff]
      exact h.order
  | timeout t =>
    obtain ⟨-, heq⟩ := Option.ite_none_right_eq_some.mp hnext
    cases heq
    exact h.order.drop (List.nil_sublist _)
  | get t =>
    obtain ⟨ht, heq⟩ := Option.ite_none_right_eq_some.mp hnext
    cases heq
    exact (h.get ht).order
  | wait | leave =>
    obtain ⟨-, heq⟩ := Option.ite_none_right_eq_some.mp hnext
    cases heq
    exact h.order
  | getOverflow | setQueueFlag | setTimeout =>
    cases hnext
    exact h.order

omit [DecidableEq T] in
theorem queueInv_start (modnr : U32) (flp : ℕ) : QueueInv user (readStart modnr flp : Readers T) :=
  ⟨readInv_start modnr flp, InOrder.empty⟩

/-- In every run whose steps are safe, the queue is a ring, no unit of the semaphore is without an entry, and
the reads return entries that were put, in the order of the puts and none twice. -/
theorem queue_consistent (modnr : U32) (flp : ℕ) {s : Readers T}
    (h : Reach (readNext user) ReadSafe (readStart modnr flp) s) :
    0 ≤ s.ccon.queue.size ∧ s.ccon.queue.size ≤ user.queueSize ∧
    (s.ccon.queue.wrPntr : Int) = (s.ccon.queue.rdPntr + s.ccon.queue.size) % user.queueSize ∧
    (s.ccon.semaphore.count : Int) ≤ s.ccon.queue.size ∧ s.returned.Sublist (numbered s.puts) := by
  have hinv := h.invariant (I := QueueInv user) (queueInv_start modnr flp) fun _ _ _ hs hok hnext => hs.next hok hnext
  have hring := hinv.read.ring
  have hunits := hinv.read.units
  refine ⟨hring.size_nonneg, hring.size_le, hring.wrPntr_int, by omega, ?_⟩
  exact (List.sublist_append_left _ _).trans hinv.order

end Resets

/-- A read that times out, an event behind it, and a read with the queue off. -/
theorem queue_consistent_reset :
    ∃ s : Readers (Fin 1), s.returned = [(eventAt 2, 1)] ∧ s.returned.Sublist (numbered s.puts) := by
  have hrun : (replay (readNext template) ReadSafe (readStart 1 0)
      [.enter (0 : Fin 1), .wait 0, .leave 0, .timeout 0, .put (eventAt 1), .setQueueFlag 1, .enter 0, .wait 0,
        .put (eventAt 2), .get 0]).map Readers.returned = some [(eventAt 2, 1)] := by decide
  obtain ⟨s, hs, hreturned⟩ := Option.map_eq_some_iff.mp hrun
  exact ⟨s, hreturned, (queue_consistent 1 0 (Reach.refl.of_replay hs)).2.2.2.2⟩

/-- An event arrives after the wait of a reader timed out and before the reader clears the queue: the next read
finds a unit of the semaphore and takes the size below 0. A read with the queue off resets it while another reader
is on its way to an entry. -/
theorem queue_breaks :
    (∃ s : Readers (Fin 1), Reach (readNext template) (fun _ _ => True) (readStart 1 0) s ∧
      s.ccon.semaphore.count = 1 ∧ s.ccon.queue.size = 0) ∧
    ∃ s : Readers (Fin 2), Reach (readNext template) (fun _ _ => True) (readStart 1 0) s ∧ s.ccon.queue.size = -1 := by
  have hlate : (replay (readNext template) (fun _ _ => True) (readStart 1 0)
      [.enter (0 : Fin 1), .wait 0, .leave 0, .put (eventAt 1), .timeout 0]).map
      (fun s => (s.ccon.semaphore.count, s.ccon.queue.size)) = some (1, 0) := by decide
  have hreset : (replay (readNext template) (fun _ _ => True) (readStart 1 0)
      [.put (eventAt 1), .enter (0 : Fin 2), .wait 0, .setQueueFlag 1, .enter 1, .get 0]).map
      (fun s => s.ccon.queue.size) = some (-1) := by decide
  obtain ⟨s, hs, he⟩ := Option.map_eq_some_iff.mp hlate
  obtain ⟨s', hs', he'⟩ := Option.map_eq_some_iff.mp hreset
  obtain ⟨hcount, hsize⟩ := Prod.mk.inj he
  exact ⟨⟨s, Reach.refl.of_replay hs, hcount, hsize⟩, s', Reach.refl.of_replay hs', he'⟩

end HtDrivers.Skel
