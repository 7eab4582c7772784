import HtDrivers.Lib.Transition
import HtDrivers.Vmebridge.Vmebus

/-! # Sharing the DMA channels (`vme_dma.c`)

Any number of tasks run `__vme_do_dma`, one of them may run `vme_dma_exit`, and `dma_disable` may be
set at any time. Every access to the semaphore, the mutex, the flag and a busy field is a step of its
own. The transfer itself, between `vme_dma_channel_acquire` and `vme_dma_channel_release`, is the
stay in `Pc.owns`.
-/
namespace HtDrivers.Vmebridge
open HtDrivers.Lib.Transition
set_option autoImplicit false

abbrev tsi148NumDmaChannels : ℕ := 2

abbrev Channel := Fin tsi148NumDmaChannels

/-! ## States -/

/-- Where a task is in `__vme_do_dma`. -/
inductive Pc where
  /-- Not in the function. -/
  | idle
  /-- Has read `dma_disable` as 0, before `down_interruptible`. -/
  | checked
  /-- Holds a unit, before the second read of `dma_disable`. -/
  | downed
  /-- Has read `dma_disable` as 1, before `up`. -/
  | refused
  /-- Before `mutex_lock`. -/
  | wantLock
  /-- In the loop of `__lock_avail_channel`, before the read of channel `k`. -/
  | scan (k : ℕ)
  /-- Has read the channel as free, before the write of its busy field. -/
  | found (i : Channel)
  /-- Before `mutex_unlock`. -/
  | marked (i : Channel)
  /-- About to return `-EDEADLK`. -/
  | deadlk
  | owns (i : Channel)
  /-- In `vme_dma_channel_release`, before the write of the busy field. -/
  | clearing (i : Channel)
  /-- Before `mutex_unlock`. -/
  | cleared
  /-- Before `up`. -/
  | needUp
  deriving DecidableEq, Repr

/-- Where the module exit is in `vme_dma_exit`. -/
inductive ExitPc where
  | notStarted
  /-- Before the `down` of iteration `k`. -/
  | draining (k : ℕ)
  /-- Before the `up` of iteration `k`. -/
  | holding (k : ℕ)
  /-- Behind the loop. -/
  | done
  deriving DecidableEq, Repr

structure Sys (n : ℕ) where
  sem : ℕ
  busy : Channel → Bool
  lock : Option (Fin n)
  disable : Bool
  exit : ExitPc
  pc : Fin n → Pc

def vmeDmaInit (n : ℕ) : Sys n :=
  { sem := tsi148NumDmaChannels, busy := fun _ => false, lock := none, disable := false
    exit := .notStarted, pc := fun _ => .idle }

inductive Act (n : ℕ) where
  /-- The next step of a task. -/
  | task (t : Fin n)
  /-- A signal wakes the task from `down_interruptible`. -/
  | signal (t : Fin n)
  /-- `dma_disable` is set. -/
  | disable
  /-- The next step of `vme_dma_exit`. -/
  | exit
  deriving DecidableEq, Repr

/-! ## Steps -/

variable {n : ℕ}

def Sys.goto (s : Sys n) (t : Fin n) (p : Pc) : Sys n := { s with pc := Function.update s.pc t p }

/-- The next step of task `t`; `none` while it waits. -/
def taskNext (s : Sys n) (t : Fin n) : Option (Sys n) :=
  match s.pc t with
  | .idle => some (if s.disable then s else s.goto t .checked)
  | .checked => if 0 < s.sem then some ({ s with sem := s.sem - 1 }.goto t .downed) else none
  | .downed => some (s.goto t (if s.disable then .refused else .wantLock))
  | .refused => some ({ s with sem := s.sem + 1 }.goto t .idle)
  | .wantLock => if s.lock = none then some ({ s with lock := some t }.goto t (.scan 0)) else none
  | .scan k =>
    if h : k < tsi148NumDmaChannels then
      some (s.goto t (if s.busy ⟨k, h⟩ then .scan (k + 1) else .found ⟨k, h⟩))
    else some (s.goto t .deadlk)
  | .found i => some ({ s with busy := Function.update s.busy i true }.goto t (.marked i))
  | .marked i => some ({ s with lock := none }.goto t (.owns i))
  | .deadlk => some ({ s with lock := none }.goto t .idle)
  | .owns i => if s.lock = none then some ({ s with lock := some t }.goto t (.clearing i)) else none
  | .clearing i => some ({ s with busy := Function.update s.busy i false }.goto t .cleared)
  | .cleared => some ({ s with lock := none }.goto t .needUp)
  | .needUp => some ({ s with sem := s.sem + 1 }.goto t .idle)

/-- The next step of `vme_dma_exit`. Its register writes do not touch this state. -/
def exitNext (s : Sys n) : Option (Sys n) :=
  match s.exit with
  | .notStarted => some { s with disable := true, exit := .draining 0 }
  | .draining k => if 0 < s.sem then some { s with sem := s.sem - 1, exit := .holding k } else none
  | .holding k =>
    some { s with
      sem := s.sem + 1
      exit := if k + 1 < tsi148NumDmaChannels then .draining (k + 1) else .done }
  | .done => none

def dmaNext (s : Sys n) : Act n → Option (Sys n)
  | .task t => taskNext s t
  | .signal t => if s.pc t = .checked then some (s.goto t .idle) else none
  | .disable => some { s with disable := true }
  | .exit => exitNext s

/-- The states of all interleavings. -/
def DmaReach (s : Sys n) : Prop := Reach dmaNext (fun _ _ => True) (vmeDmaInit n) s

/-! ## The invariant -/

/-- The channel a task has marked and not cleared yet. -/
def Pc.owned : Pc → Option Channel
  | .marked i | .owns i | .clearing i => some i
  | _ => none

def Pc.locks : Pc → Bool
  | .scan _ | .found _ | .marked _ | .deadlk | .clearing _ | .cleared => true
  | _ => false

/-- The task holds a semaphore unit and has not marked a channel. -/
def Pc.holds : Pc → Bool
  | .downed | .refused | .wantLock | .scan _ | .found _ | .deadlk => true
  | _ => false

/-- The task has cleared its busy field and has not done the `up` yet. -/
def Pc.clearedBusy : Pc → Bool
  | .cleared | .needUp => true
  | _ => false

/-- The units a task holds beside those of the busy channels. -/
def Pc.units (p : Pc) : ℕ := (if p.holds then 1 else 0) + if p.clearedBusy then 1 else 0

def ExitPc.units : ExitPc → ℕ
  | .holding _ => 1
  | _ => 0

def busyUnit (b : Bool) : ℕ := if b then 1 else 0

/-- What the busy fields and the mutex say about a task at `p`. -/
structure TaskInv (busy : Channel → Bool) (lock : Option (Fin n)) (t : Fin n) (p : Pc) : Prop where
  lock : p.locks = true ↔ lock = some t
  scanned : ∀ k, p = .scan k → ∀ j : Channel, j.val < k → busy j = true
  free : ∀ i, p = .found i → busy i = false
  owned : ∀ i, p.owned = some i → busy i = true
  alive : p ≠ .deadlk

structure DmaInv (s : Sys n) : Prop where
  units : s.sem + tally busyUnit s.busy + tally Pc.units s.pc + s.exit.units = tsi148NumDmaChannels
  task : ∀ t, TaskInv s.busy s.lock t (s.pc t)
  exclusive : ∀ t u i, (s.pc t).owned = some i → (s.pc u).owned = some i → t = u
  busyOwned : ∀ i, s.busy i = true → ∃ t, (s.pc t).owned = some i

/-- The place says something about the busy fields the task has read. -/
def Pc.looks : Pc → Bool
  | .scan _ | .found _ | .deadlk => true
  | _ => false

section Moves
variable {s s' : Sys n} {t : Fin n} {p q : Pc}

/-- One task moves to `p`: what has to be checked for it and for the others. -/
theorem DmaInv.move (hi : DmaInv s) (hpc : s'.pc = Function.update s.pc t p) (hexit : s'.exit = s.exit)
    (hunits : s'.sem + tally busyUnit s'.busy + p.units = s.sem + tally busyUnit s.busy + (s.pc t).units)
    (hself : TaskInv s'.busy s'.lock t p)
    (hother : ∀ u, u ≠ t → TaskInv s.busy s.lock u (s.pc u) → TaskInv s'.busy s'.lock u (s.pc u))
    (hexcl : ∀ i, p.owned = some i → ∀ u, u ≠ t → (s.pc u).owned ≠ some i)
    (hbusy : ∀ i, s'.busy i = true → p.owned = some i ∨ ∃ u, u ≠ t ∧ (s.pc u).owned = some i) : DmaInv s' := by
  refine ⟨?_, ?_, ?_, ?_⟩
  · have htally := tally_update Pc.units s.pc t p
    have hold := hi.units
    rw [hpc, hexit]
    omega
  · intro u
    rw [hpc]
    by_cases hu : u = t
    · subst hu
      rw [Function.update_self]
      exact hself
    · rw [Function.update_of_ne hu]
      exact hother u hu (hi.task u)
  · intro u v i huo hvo
    rw [hpc] at huo hvo
    by_cases hu : u = t
    · subst hu
      rw [Function.update_self] at huo
      by_contra huv
      rw [Function.update_of_ne (Ne.symm huv)] at hvo
      exact hexcl i huo v (Ne.symm huv) hvo
    · rw [Function.update_of_ne hu] at huo
      by_cases hv : v = t
      · subst hv
        rw [Function.update_self] at hvo
        exact absurd huo (hexcl i hvo u hu)
      · rw [Function.update_of_ne hv] at hvo
        exact hi.exclusive u v i huo hvo
  · intro i hb
    rw [hpc]
    obtain ho | ⟨u, hu, ho⟩ := hbusy i hb
    · exact ⟨t, by rw [Function.update_self]; exact ho⟩
    · exact ⟨u, by rw [Function.update_of_ne hu]; exact ho⟩

theorem DmaInv.busy_kept (hi : DmaInv s) (howned : p.owned = (s.pc t).owned) (i : Channel) (hb : s.busy i = true) :
    p.owned = some i ∨ ∃ u, u ≠ t ∧ (s.pc u).owned = some i := by
  obtain ⟨u, hu⟩ := hi.busyOwned i hb
  by_cases hut : u = t
  · subst hut
    exact .inl (howned.trans hu)
  · exact .inr ⟨u, hut, hu⟩

theorem DmaInv.excl_kept (hi : DmaInv s) (howned : p.owned = (s.pc t).owned) (i : Channel) (ho : p.owned = some i)
    (u : Fin n) (hu : u ≠ t) : (s.pc u).owned ≠ some i :=
  fun huo => hu (hi.exclusive u t i huo (howned ▸ ho))

/-- A step that touches neither the busy fields nor the mutex. -/
theorem DmaInv.plain (hi : DmaInv s) (hp : s.pc t = q) {m : ℕ} (hsem : m + p.units = s.sem + q.units)
    (hlocks : p.locks = q.locks) (howned : p.owned = q.owned)
    (hscan : ∀ k, p = .scan k → ∀ j : Channel, j.val < k → s.busy j = true)
    (hfree : ∀ i, p = .found i → s.busy i = false) (halive : p ≠ .deadlk) :
    DmaInv ({ s with sem := m }.goto t p) := by
  subst hp
  refine hi.move rfl rfl ?_ ⟨?_, hscan, hfree, ?_, halive⟩ (fun _ _ h => h) (hi.excl_kept howned)
    (hi.busy_kept howned)
  · change m + tally busyUnit s.busy + p.units = _
    omega
  · rw [hlocks]
    exact (hi.task t).lock
  · intro i ho
    exact (hi.task t).owned i (howned ▸ ho)

/-- The same for a place at which nothing is known from the busy fields. -/
theorem DmaInv.calm (hi : DmaInv s) (hp : s.pc t = q) {m : ℕ} (hsem : m + p.units = s.sem + q.units)
    (hlocks : p.locks = q.locks) (howned : p.owned = q.owned) (hlooks : p.looks = false) :
    DmaInv ({ s with sem := m }.goto t p) := by
  refine hi.plain hp hsem hlocks howned ?_ ?_ ?_
  · rintro k rfl
    cases hlooks
  · rintro i rfl
    cases hlooks
  · rintro rfl
    cases hlooks

theorem DmaInv.lock (hi : DmaInv s) (hp : s.pc t = q) (hfree : s.lock = none) (hlocks : p.locks = true)
    (howned : p.owned = q.owned) (hunits : p.units = q.units)
    (hscan : ∀ k, p = .scan k → k = 0) (hfound : ∀ i, p ≠ .found i) (halive : p ≠ .deadlk) :
    DmaInv ({ s with lock := some t }.goto t p) := by
  subst hp
  refine hi.move rfl rfl ?_ ⟨?_, ?_, fun i h => absurd h (hfound i), ?_, halive⟩ ?_ (hi.excl_kept howned)
    (hi.busy_kept howned)
  · rw [hunits]
    rfl
  · exact ⟨fun _ => rfl, fun _ => hlocks⟩
  · intro k hk j hj
    have := hscan k hk
    omega
  · intro i ho
    exact (hi.task t).owned i (howned ▸ ho)
  · intro u hu h
    refine ⟨?_, h.scanned, h.free, h.owned, h.alive⟩
    have hno : (s.pc u).locks ≠ true := fun hl => by
      have := h.lock.mp hl
      rw [hfree] at this
      cases this
    exact ⟨fun hl => absurd hl hno, fun hl => absurd (Option.some.inj hl).symm hu⟩

theorem DmaInv.unlock (hi : DmaInv s) (hp : s.pc t = q) (hlocked : q.locks = true) (hlocks : p.locks = false)
    (howned : p.owned = q.owned) (hunits : p.units = q.units) :
    DmaInv ({ s with lock := none }.goto t p) := by
  subst hp
  have hheld : s.lock = some t := (hi.task t).lock.mp hlocked
  refine hi.move rfl rfl ?_ ⟨?_, ?_, ?_, ?_, ?_⟩ ?_ (hi.excl_kept howned) (hi.busy_kept howned)
  · rw [hunits]
    rfl
  · rw [hlocks]
    constructor
    · intro h
      cases h
    · intro h
      cases h
  · rintro k rfl
    cases hlocks
  · rintro i rfl
    cases hlocks
  · intro i ho
    exact (hi.task t).owned i (howned ▸ ho)
  · rintro rfl
    cases hlocks
  · intro u hu h
    refine ⟨⟨fun hl => ?_, fun hl => by cases hl⟩, h.scanned, h.free, h.owned, h.alive⟩
    have := h.lock.mp hl
    rw [hheld] at this
    exact absurd (Option.some.inj this).symm hu

theorem DmaInv.other_blind (hi : DmaInv s) (hlocked : (s.pc t).locks = true) (u : Fin n) (hu : u ≠ t) :
    (s.pc u).locks = false := by
  have hheld : s.lock = some t := (hi.task t).lock.mp hlocked
  by_contra hl
  have := (hi.task u).lock.mp (by simpa using hl)
  rw [hheld] at this
  exact hu (Option.some.inj this).symm

/-- A task without the mutex keeps its invariant when a busy field changes, if the channel it owns
stays busy. -/
theorem TaskInv.update_busy {busy : Channel → Bool} {lock : Option (Fin n)} {u : Fin n} {q : Pc} {i : Channel}
    {b : Bool} (h : TaskInv busy lock u q) (hblind : q.locks = false) (hown : q.owned = some i → b = true) :
    TaskInv (Function.update busy i b) lock u q where
  lock := h.lock
  scanned := by
    rintro k rfl
    cases hblind
  free := by
    rintro j rfl
    cases hblind
  owned := by
    intro j ho
    by_cases hji : j = i
    · subst hji
      rw [Function.update_self]
      exact hown ho
    · rw [Function.update_of_ne hji]
      exact h.owned j ho
  alive := h.alive

theorem DmaInv.mark (hi : DmaInv s) {i : Channel} (ht : s.pc t = .found i) :
    DmaInv ({ s with busy := Function.update s.busy i true }.goto t (.marked i)) := by
  have hlocked : (s.pc t).locks = true := by rw [ht]; rfl
  have hidle : s.busy i = false := (hi.task t).free i ht
  have hnobody : ∀ u, (s.pc u).owned ≠ some i := by
    intro u ho
    rw [(hi.task u).owned i ho] at hidle
    cases hidle
  refine hi.move rfl rfl ?_ ⟨?_, ?_, ?_, ?_, ?_⟩ ?_ ?_ ?_
  · have htally := tally_update busyUnit s.busy i true
    rw [hidle] at htally
    rw [ht]
    change s.sem + tally busyUnit (Function.update s.busy i true) + 0 = s.sem + tally busyUnit s.busy + 1
    simp only [busyUnit, Bool.false_eq_true, if_false, if_true] at htally ⊢
    omega
  · exact ⟨fun _ => (hi.task t).lock.mp hlocked, fun _ => rfl⟩
  · intro k hk
    cases hk
  · intro j hj
    cases hj
  · intro j hj
    obtain rfl : i = j := by simpa [Pc.owned] using hj
    exact Function.update_self ..
  · exact fun h => by cases h
  · intro u hu h
    exact h.update_busy (hi.other_blind hlocked u hu) fun _ => rfl
  · intro j hj u _
    obtain rfl : i = j := by simpa [Pc.owned] using hj
    exact hnobody u
  · intro j hb
    by_cases hji : j = i
    · exact .inl (by rw [hji]; rfl)
    · have hb' : s.busy j = true := by
        have : Function.update s.busy i true j = true := hb
        rwa [Function.update_of_ne hji] at this
      obtain ⟨u, hu⟩ := hi.busyOwned j hb'
      refine .inr ⟨u, ?_, hu⟩
      rintro rfl
      rw [ht] at hu
      cases hu

theorem DmaInv.clear (hi : DmaInv s) {i : Channel} (ht : s.pc t = .clearing i) :
    DmaInv ({ s with busy := Function.update s.busy i false }.goto t .cleared) := by
  have hlocked : (s.pc t).locks = true := by rw [ht]; rfl
  have hown : (s.pc t).owned = some i := by rw [ht]; rfl
  have hbusy : s.busy i = true := (hi.task t).owned i hown
  have hnone : ∀ u, u ≠ t → (s.pc u).owned ≠ some i := fun u hu huo => hu (hi.exclusive u t i huo hown)
  refine hi.move rfl rfl ?_ ⟨?_, ?_, ?_, ?_, ?_⟩ ?_ ?_ ?_
  · have htally := tally_update busyUnit s.busy i false
    rw [hbusy] at htally
    rw [ht]
    change s.sem + tally busyUnit (Function.update s.busy i false) + 1 = s.sem + tally busyUnit s.busy + 0
    simp only [busyUnit, Bool.false_eq_true, if_false, if_true] at htally ⊢
    omega
  · exact ⟨fun _ => (hi.task t).lock.mp hlocked, fun _ => rfl⟩
  · intro k hk
    cases hk
  · intro j hj
    cases hj
  · intro j hj
    cases hj
  · exact fun h => by cases h
  · intro u hu h
    exact h.update_busy (hi.other_blind hlocked u hu) fun ho => absurd ho (hnone u hu)
  · intro j hj
    cases hj
  · intro j hb
    by_cases hji : j = i
    · subst hji
      have : Function.update s.busy j false j = true := hb
      rw [Function.update_self] at this
      cases this
    · have hb' : s.busy j = true := by
        have : Function.update s.busy i false j = true := hb
        rwa [Function.update_of_ne hji] at this
      obtain ⟨u, hu⟩ := hi.busyOwned j hb'
      refine .inr ⟨u, ?_, hu⟩
      rintro rfl
      rw [hown] at hu
      exact hji (Option.some.inj hu).symm

/-- The scan always finds a channel: the task holds a unit of its own. -/
theorem DmaInv.scan_lt (hi : DmaInv s) {k : ℕ} (ht : s.pc t = .scan k) : k < tsi148NumDmaChannels := by
  by_contra hk
  have hall : ∀ j : Channel, s.busy j = true := fun j => (hi.task t).scanned k ht j (by omega)
  have hfull : tally busyUnit s.busy = tsi148NumDmaChannels := by
    unfold tally
    rw [Finset.sum_congr rfl fun j _ => by rw [hall j]]
    rfl
  have hown := le_tally Pc.units s.pc t
  rw [ht] at hown
  have hone : (Pc.scan k).units = 1 := rfl
  have := hi.units
  omega

end Moves

/-! ## Every step keeps the invariant -/

section Steps
variable {s s' : Sys n} {t : Fin n}

theorem DmaInv.taskNext (hi : DmaInv s) (h : taskNext s t = some s') : DmaInv s' := by
  unfold HtDrivers.Vmebridge.taskNext at h
  cases hp : s.pc t with
  | idle =>
    simp only [hp, Option.some.injEq] at h
    subst h
    split
    · exact hi
    · exact hi.calm hp rfl rfl rfl rfl
  | checked =>
    simp only [hp] at h
    split at h
    · rename_i hpos
      obtain rfl := Option.some.inj h
      refine hi.calm hp ?_ rfl rfl rfl
      change s.sem - 1 + 1 = s.sem + 0
      omega
    · cases h
  | downed =>
    simp only [hp, Option.some.injEq] at h
    subst h
    split
    · exact hi.calm hp rfl rfl rfl rfl
    · exact hi.calm hp rfl rfl rfl rfl
  | refused =>
    simp only [hp, Option.some.injEq] at h
    subst h
    exact hi.calm hp rfl rfl rfl rfl
  | wantLock =>
    simp only [hp] at h
    split at h
    · rename_i hfree
      obtain rfl := Option.some.inj h
      exact hi.lock hp hfree rfl rfl rfl (by simp) (by simp) (by simp)
    · cases h
  | scan k =>
    have hk := hi.scan_lt hp
    simp only [hp, hk, dif_pos, Option.some.injEq] at h
    subst h
    split
    · rename_i hb
      refine hi.plain hp rfl rfl rfl ?_ (by simp) (by simp)
      intro m hm j hj
      obtain rfl : k + 1 = m := by simpa using hm
      by_cases hjk : j.val < k
      · exact (hi.task t).scanned k hp j hjk
      · have hjk' : j = ⟨k, hk⟩ := Fin.ext (by simp; omega)
        rw [hjk']
        exact hb
    · rename_i hb
      refine hi.plain hp rfl rfl rfl (by simp) ?_ (by simp)
      intro j hj
      obtain rfl : _ = j := by simpa using hj
      simpa using hb
  | found i =>
    simp only [hp, Option.some.injEq] at h
    subst h
    exact hi.mark hp
  | marked i =>
    simp only [hp, Option.some.injEq] at h
    subst h
    exact hi.unlock hp rfl rfl rfl rfl
  | deadlk => exact absurd hp (hi.task t).alive
  | owns i =>
    simp only [hp] at h
    split at h
    · rename_i hfree
      obtain rfl := Option.some.inj h
      exact hi.lock hp hfree rfl rfl rfl (by simp) (by simp) (by simp)
    · cases h
  | clearing i =>
    simp only [hp, Option.some.injEq] at h
    subst h
    exact hi.clear hp
  | cleared =>
    simp only [hp, Option.some.injEq] at h
    subst h
    exact hi.unlock hp rfl rfl rfl rfl
  | needUp =>
    simp only [hp, Option.some.injEq] at h
    subst h
    exact hi.calm hp rfl rfl rfl rfl

theorem DmaInv.exitNext (hi : DmaInv s) (h : exitNext s = some s') : DmaInv s' := by
  have hu := hi.units
  unfold HtDrivers.Vmebridge.exitNext at h
  cases he : s.exit with
  | notStarted =>
    simp only [he, Option.some.injEq] at h
    subst h
    rw [he] at hu
    exact ⟨hu, hi.task, hi.exclusive, hi.busyOwned⟩
  | draining k =>
    simp only [he] at h
    split at h
    · rename_i hpos
      obtain rfl := Option.some.inj h
      rw [he] at hu
      refine ⟨?_, hi.task, hi.exclusive, hi.busyOwned⟩
      change s.sem - 1 + tally busyUnit s.busy + tally Pc.units s.pc + 1 = _
      change s.sem + tally busyUnit s.busy + tally Pc.units s.pc + 0 = _ at hu
      omega
    · cases h
  | holding k =>
    simp only [he, Option.some.injEq] at h
    subst h
    rw [he] at hu
    refine ⟨?_, hi.task, hi.exclusive, hi.busyOwned⟩
    have hzero : (if k + 1 < tsi148NumDmaChannels then ExitPc.draining (k + 1) else .done).units = 0 := by
      split <;> rfl
    change s.sem + 1 + tally busyUnit s.busy + tally Pc.units s.pc +
      (if k + 1 < tsi148NumDmaChannels then ExitPc.draining (k + 1) else .done).units = _
    change s.sem + tally busyUnit s.busy + tally Pc.units s.pc + 1 = _ at hu
    omega
  | done => simp [he] at h

theorem DmaInv.dmaNext (hi : DmaInv s) (a : Act n) (h : dmaNext s a = some s') : DmaInv s' := by
  cases a with
  | task t => exact hi.taskNext h
  | signal t =>
    change (if s.pc t = .checked then some (s.goto t .idle) else none) = some s' at h
    split at h
    · rename_i hp
      obtain rfl := Option.some.inj h
      exact hi.calm hp rfl rfl rfl rfl
    · cases h
  | disable =>
    obtain rfl := Option.some.inj h
    exact ⟨hi.units, hi.task, hi.exclusive, hi.busyOwned⟩
  | exit => exact hi.exitNext h

theorem dmaInv_init (n : ℕ) : DmaInv (vmeDmaInit n) where
  units := by
    simp [vmeDmaInit, tally, busyUnit, Pc.units, Pc.holds, Pc.clearedBusy, ExitPc.units]
  task := fun t => ⟨by simp [vmeDmaInit, Pc.locks], by simp [vmeDmaInit], by simp [vmeDmaInit],
    by simp [vmeDmaInit, Pc.owned], by simp [vmeDmaInit]⟩
  exclusive := by simp [vmeDmaInit, Pc.owned]
  busyOwned := by simp [vmeDmaInit]

theorem dmaInv_of_reach (h : DmaReach s) : DmaInv s :=
  h.invariant (dmaInv_init n) fun _ a _ hi _ hnext => hi.dmaNext a hnext

end Steps

/-! ## Ownership -/

section Ownership
variable {s : Sys n}

def Sys.busyChannels (s : Sys n) : ℕ := (Finset.univ.filter fun i => s.busy i = true).card

/-- The tasks that hold a unit and have not marked a channel; `vme_dma_exit` counts as one. -/
def Sys.holders (s : Sys n) : ℕ := (Finset.univ.filter fun t => (s.pc t).holds = true).card + s.exit.units

def Sys.clearedTasks (s : Sys n) : ℕ := (Finset.univ.filter fun t => (s.pc t).clearedBusy = true).card

theorem tally_busyUnit (s : Sys n) : tally busyUnit s.busy = s.busyChannels := by
  unfold Sys.busyChannels
  rw [Finset.card_filter]
  rfl

theorem tally_units (s : Sys n) : tally Pc.units s.pc + s.exit.units = s.holders + s.clearedTasks := by
  unfold Sys.holders Sys.clearedTasks
  rw [Finset.card_filter, Finset.card_filter]
  unfold tally Pc.units
  rw [Finset.sum_add_distrib]
  omega

/-- In every interleaving the units add up, `__lock_avail_channel` finds a channel, and no channel has
two owners. -/
theorem dma_channel_ownership (h : DmaReach s) :
    s.sem + s.busyChannels + s.holders + s.clearedTasks = tsi148NumDmaChannels ∧
    (∀ t, s.pc t ≠ .deadlk) ∧
    ∀ t u i, (s.pc t).owned = some i → (s.pc u).owned = some i → t = u := by
  have hi := dmaInv_of_reach h
  refine ⟨?_, fun t => (hi.task t).alive, hi.exclusive⟩
  have hunits := hi.units
  have htasks := tally_units s
  rw [tally_busyUnit] at hunits
  omega

/-- The steps that take a task from outside to its own channel when channel `k` is the first free one. -/
def acquireSteps (t : Fin n) (k : ℕ) : List (Act n) := List.replicate (k + 7) (.task t)

theorem dma_channel_ownership_two_tasks :
    ∃ s : Sys 2, DmaReach s ∧ (s.pc 0).owned = some 0 ∧ (s.pc 1).owned = some 1 ∧
      s.sem + s.busyChannels + s.holders + s.clearedTasks = 2 := by
  have hrun : (replay dmaNext (fun _ _ => True) (vmeDmaInit 2) (acquireSteps 0 0 ++ acquireSteps 1 1)).map
      (fun s => ((s.pc 0).owned, (s.pc 1).owned)) = some (some 0, some 1) := by decide
  obtain ⟨s, hs, he⟩ := Option.map_eq_some_iff.mp hrun
  have hreach : DmaReach s := Reach.refl.of_replay hs
  simp only [Prod.mk.injEq] at he
  exact ⟨s, hreach, he.1, he.2, (dma_channel_ownership hreach).1⟩

end Ownership

/-! ## Shutdown

The loop of `vme_dma_exit` takes and gives back one unit for each channel. It waits for the transfers
only if no task is committed to a channel when its last `down` succeeds. -/

/-- The task has passed the second check of `dma_disable` and not cleared its busy field. -/
def Pc.committed : Pc → Bool
  | .wantLock | .scan _ | .found _ | .marked _ | .owns _ | .clearing _ => true
  | _ => false

/-- The next step of `vme_dma_exit` is the last `down` of its loop. -/
def ExitPc.lastDown : ExitPc → Bool
  | .draining k => !decide (k + 1 < tsi148NumDmaChannels)
  | _ => false

/-- The last `down` of the loop is taken only when no task is committed. -/
def DrainOk (s : Sys n) (a : Act n) : Prop :=
  a = .exit → s.exit.lastDown = true → ∀ t, (s.pc t).committed = false

instance (s : Sys n) (a : Act n) : Decidable (DrainOk s a) :=
  inferInstanceAs (Decidable (a = .exit → s.exit.lastDown = true → ∀ t, (s.pc t).committed = false))

/-- The last `down` has been taken. -/
def ExitPc.Drained (e : ExitPc) : Prop := e = .done ∨ ∃ k, e = .holding k ∧ ¬ k + 1 < tsi148NumDmaChannels

structure DrainInv (s : Sys n) : Prop where
  base : DmaInv s
  disabled : s.exit ≠ .notStarted → s.disable = true
  drained : s.exit.Drained → ∀ t, (s.pc t).committed = false

section Drain
variable {s s' : Sys n} {t : Fin n}

theorem Pc.committed_of_owned {p : Pc} {i : Channel} (h : p.owned = some i) : p.committed = true := by
  cases p <;> first | rfl | cases h

/-- What a task's step leaves alone. With `dma_disable` set the task does not become committed. -/
structure TaskFrame (s s' : Sys n) (t : Fin n) : Prop where
  exit : s'.exit = s.exit
  disable : s'.disable = s.disable
  other : ∀ u, u ≠ t → s'.pc u = s.pc u
  mover : s.disable = true → (s.pc t).committed = false → (s'.pc t).committed = false

theorem TaskFrame.of_goto {s₁ : Sys n} {p : Pc} (h : some (s₁.goto t p) = some s') (hexit : s₁.exit = s.exit)
    (hdis : s₁.disable = s.disable) (hpc : s₁.pc = s.pc)
    (hmover : s.disable = true → (s.pc t).committed = false → p.committed = false) : TaskFrame s s' t := by
  obtain rfl := Option.some.inj h
  refine ⟨hexit, hdis, fun u hu => ?_, fun hd hc => ?_⟩
  · change Function.update s₁.pc t p u = _
    rw [Function.update_of_ne hu, hpc]
  · change (Function.update s₁.pc t p t).committed = false
    rw [Function.update_self]
    exact hmover hd hc

theorem taskNext_frame (h : taskNext s t = some s') : TaskFrame s s' t := by
  -- from a committed place there is nothing to show about the mover
  have hstays : ∀ {p q : Pc}, s.pc t = p → p.committed = true →
      s.disable = true → (s.pc t).committed = false → q.committed = false := by
    intro p q hp hcom _ hnot
    rw [hp, hcom] at hnot
    cases hnot
  unfold taskNext at h
  split at h
  case h_1 hp =>
    by_cases hd : s.disable = true
    · rw [if_pos hd] at h
      obtain rfl := Option.some.inj h
      exact ⟨rfl, rfl, fun _ _ => rfl, fun _ hc => hc⟩
    · rw [if_neg hd] at h
      exact .of_goto h rfl rfl rfl (fun h1 => absurd h1 hd)
  case h_2 hp =>
    split at h
    · exact .of_goto h rfl rfl rfl (fun _ _ => rfl)
    · cases h
  case h_3 hp =>
    refine .of_goto h rfl rfl rfl (fun hd _ => ?_)
    rw [if_pos hd]
    rfl
  case h_4 hp => exact .of_goto h rfl rfl rfl (fun _ _ => rfl)
  case h_5 hp =>
    split at h
    · exact .of_goto h rfl rfl rfl (hstays hp rfl)
    · cases h
  case h_6 k hp =>
    split at h
    · exact .of_goto h rfl rfl rfl (hstays hp rfl)
    · exact .of_goto h rfl rfl rfl (hstays hp rfl)
  case h_7 i hp => exact .of_goto h rfl rfl rfl (hstays hp rfl)
  case h_8 i hp => exact .of_goto h rfl rfl rfl (hstays hp rfl)
  case h_9 hp => exact .of_goto h rfl rfl rfl (fun _ _ => rfl)
  case h_10 i hp =>
    split at h
    · exact .of_goto h rfl rfl rfl (hstays hp rfl)
    · cases h
  case h_11 i hp => exact .of_goto h rfl rfl rfl (hstays hp rfl)
  case h_12 hp => exact .of_goto h rfl rfl rfl (fun _ _ => rfl)
  case h_13 hp => exact .of_goto h rfl rfl rfl (fun _ _ => rfl)

theorem DrainInv.taskNext (hi : DrainInv s) (h : taskNext s t = some s') : DrainInv s' := by
  have hframe := taskNext_frame h
  refine ⟨hi.base.taskNext h, fun hne => ?_, fun hd u => ?_⟩
  · rw [hframe.disable]
    exact hi.disabled (hframe.exit ▸ hne)
  · rw [hframe.exit] at hd
    have hdisabled : s.disable = true := by
      apply hi.disabled
      intro he
      rw [he] at hd
      rcases hd with hd | ⟨k, hd, -⟩ <;> cases hd
    by_cases hu : u = t
    · subst hu
      exact hframe.mover hdisabled (hi.drained hd u)
    · rw [hframe.other u hu]
      exact hi.drained hd u

theorem DrainInv.exitNext (hi : DrainInv s) (hok : DrainOk s .exit) (h : exitNext s = some s') : DrainInv s' := by
  have hbase := hi.base.exitNext h
  unfold HtDrivers.Vmebridge.exitNext at h
  cases he : s.exit with
  | notStarted =>
    simp only [he, Option.some.injEq] at h
    subst h
    refine ⟨hbase, fun _ => rfl, ?_⟩
    rintro (hd | ⟨k, hd, -⟩) <;> cases hd
  | draining k =>
    have hdis : s.disable = true := hi.disabled (by simp [he])
    simp only [he] at h
    split at h
    · obtain rfl := Option.some.inj h
      refine ⟨hbase, fun _ => hdis, ?_⟩
      rintro (hd | ⟨m, hd, hm⟩)
      · cases hd
      · obtain rfl : k = m := by simpa using hd
        exact hok rfl (by simp [he, ExitPc.lastDown, hm])
    · cases h
  | holding k =>
    have hdis : s.disable = true := hi.disabled (by simp [he])
    simp only [he, Option.some.injEq] at h
    subst h
    refine ⟨hbase, fun _ => hdis, fun hd => hi.drained (.inr ⟨k, he, ?_⟩)⟩
    intro hk
    simp only [if_pos hk] at hd
    rcases hd with hd | ⟨m, hd, -⟩ <;> cases hd
  | done => simp [he] at h

theorem DrainInv.dmaNext (hi : DrainInv s) (a : Act n) (hok : DrainOk s a) (h : dmaNext s a = some s') :
    DrainInv s' := by
  cases a with
  | task t => exact hi.taskNext h
  | signal t =>
    have hbase := hi.base.dmaNext (.signal t) h
    change (if s.pc t = .checked then some (s.goto t .idle) else none) = some s' at h
    split at h
    · obtain rfl := Option.some.inj h
      refine ⟨hbase, hi.disabled, fun hd u => ?_⟩
      change (Function.update s.pc t .idle u).committed = false
      by_cases hu : u = t
      · subst hu
        rw [Function.update_self]
        rfl
      · rw [Function.update_of_ne hu]
        exact hi.drained hd u
    · cases h
  | disable =>
    have hbase := hi.base.dmaNext .disable h
    obtain rfl := Option.some.inj h
    exact ⟨hbase, fun _ => rfl, hi.drained⟩
  | exit => exact hi.exitNext hok h

/-- In every run that keeps `DrainOk`, no channel is busy and no task is in a transfer once the loop has
ended. -/
theorem drain_waits (h : Reach dmaNext DrainOk (vmeDmaInit n) s) (hdone : s.exit = .done) :
    (∀ i, s.busy i = false) ∧ ∀ t, (s.pc t).owned = none := by
  have hinit : DrainInv (vmeDmaInit n) := by
    refine ⟨dmaInv_init n, fun hne => absurd rfl hne, ?_⟩
    rintro (hd | ⟨k, hd, -⟩) <;> cases hd
  have hi : DrainInv s := h.invariant hinit fun _ a _ hi hok hnext => hi.dmaNext a hok hnext
  have hidle : ∀ t, (s.pc t).owned = none := by
    intro t
    cases ho : (s.pc t).owned with
    | none => rfl
    | some i =>
      have := Pc.committed_of_owned ho
      rw [hi.drained (.inl hdone) t] at this
      cases this
  refine ⟨fun i => ?_, hidle⟩
  cases hb : s.busy i with
  | false => rfl
  | true =>
    obtain ⟨t, ht⟩ := hi.base.busyOwned i hb
    rw [hidle t] at ht
    cases ht

/-- A transfer ends between the two iterations of the loop. -/
theorem drain_waits_one_task :
    ∃ s : Sys 1, s.exit = .done ∧ (∀ i, s.busy i = false) ∧ ∀ t, (s.pc t).owned = none := by
  have hrun : (replay dmaNext DrainOk (vmeDmaInit 1) (acquireSteps 0 0 ++ List.replicate 3 .exit ++
      List.replicate 4 (.task 0) ++ List.replicate 2 .exit)).map Sys.exit = some .done := by decide
  obtain ⟨s, hs, hdone⟩ := Option.map_eq_some_iff.mp hrun
  exact ⟨s, hdone, drain_waits (Reach.refl.of_replay hs) hdone⟩

/-- One task owns a channel and the loop takes and gives back the unit of the other channel twice. -/
theorem drain_misses_transfer :
    ∃ s : Sys 1, DmaReach s ∧ s.exit = .done ∧ s.busy 0 = true ∧ s.pc 0 = .owns 0 := by
  have hrun : (replay dmaNext (fun _ _ => True) (vmeDmaInit 1) (acquireSteps 0 0 ++ List.replicate 5 .exit)).map
      (fun s => (s.exit, s.busy 0, s.pc 0)) = some (.done, true, .owns 0) := by decide
  obtain ⟨s, hs, he⟩ := Option.map_eq_some_iff.mp hrun
  simp only [Prod.mk.injEq] at he
  exact ⟨s, Reach.refl.of_replay hs, he.1, he.2.1, he.2.2⟩

end Drain

end HtDrivers.Vmebridge
