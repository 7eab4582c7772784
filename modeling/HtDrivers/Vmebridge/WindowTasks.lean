import HtDrivers.Lib.Transition
import HtDrivers.Vmebridge.WindowContain

/-! # Tasks on the window table

Any number of tasks find, release and close mappings and create and destroy windows. A critical
section under the mutex of a window is one step, and so is each unlocked access. Two places are not
protected: `__vme_find_mapping` attaches its mapping to a window it has just created without the mutex,
and `__vme_release_mapping` gives the mutex back between seeing that the window has no more users and
destroying it. -/
namespace HtDrivers.Vmebridge
open HtDrivers.Lib.Transition
set_option autoImplicit false

/-! ## States -/

inductive Call where
  | find (m : VmeMapping) (force : Bool) (file : Option ℕ)
  | release (desc : VmeMapping) (force : Bool) (file : Option ℕ)
  | create (desc : VmeMapping)
  | destroy (num : Int)
  | close (file : ℕ)
  deriving DecidableEq, Repr

inductive Place where
  | idle
  /-- `__vme_find_mapping`, first loop: before the mutex of window `k`. -/
  | scan (k : ℕ) (m : VmeMapping) (force : Bool) (file : Option ℕ)
  /-- Second loop: before the unlocked read of window `k`. -/
  | seek (k : ℕ) (m : VmeMapping) (file : Option ℕ)
  /-- Before the section of `vme_create_window`. -/
  | make (i : WindowNum) (m : VmeMapping) (file : Option ℕ)
  /-- The window is created; before the reads of its VME, kernel and PCI address. -/
  | made (i : WindowNum) (m : VmeMapping) (file : Option ℕ)
  | readVa (i : WindowNum) (m : VmeMapping) (file : Option ℕ) (offset : U32)
  | readPci (i : WindowNum) (m : VmeMapping) (file : Option ℕ) (offset : U32)
  /-- Before the insertion in the list. -/
  | insert (i : WindowNum) (m : VmeMapping) (file : Option ℕ)
  /-- Before the increment of the user count. -/
  | count (i : WindowNum) (m : Mapping)
  /-- `__vme_find_mapping` has returned 0. -/
  | returned (i : WindowNum) (m : Mapping)
  /-- Before the section of `__vme_release_mapping`. -/
  | release (i : WindowNum) (desc : VmeMapping) (force : Bool) (file : Option ℕ)
  /-- `__vme_release_mapping` has called `vme_destroy_window`. -/
  | reap (i : WindowNum)
  /-- Before the section of `vme_create_window`, called by a user. -/
  | create (i : WindowNum) (desc : VmeMapping)
  /-- Before the section of `vme_destroy_window`, called by a user. -/
  | destroy (i : WindowNum)
  /-- `vme_window_release`: before the mutex of window `k`. -/
  | close (k : ℕ) (file : ℕ)
  deriving DecidableEq, Repr

structure Tasks (n : ℕ) where
  table : WindowTable
  pc : Fin n → Place

inductive Move (n : ℕ) where
  | start (t : Fin n) (call : Call)
  /-- The next step of a task, with the answers of the kernel. -/
  | step (t : Fin n) (create : CreateEnv) (add : AddEnv)
  /-- A signal interrupts the wait for a mutex. -/
  | signal (t : Fin n)
  deriving DecidableEq, Repr

variable {n : ℕ}

def tasksInit (n : ℕ) : Tasks n := { table := vmeWindowInit, pc := fun _ => .idle }

/-! ## Steps -/

/-- The checks a call makes before it takes a mutex. -/
def Call.entry : Call → Place
  | .find m force file => if vmeMappingSanityCheck m = 0 then .scan 0 m force file else .idle
  | .release desc force file => (windowIndex desc.windowNum).elim .idle fun i => .release i desc force file
  | .create desc =>
    (windowIndex desc.windowNum).elim .idle fun i => if desc.sizel = 0 then .idle else .create i (roundWindow desc)
  | .destroy num => (windowIndex num).elim .idle .destroy
  | .close file => .close 0 file

def Place.waiting : Place → Bool
  | .scan .. | .make .. | .release .. | .reap _ | .create .. | .destroy _ | .close .. => true
  | _ => false

def Tasks.goto (s : Tasks n) (t : Fin n) (p : Place) : Tasks n := { s with pc := Function.update s.pc t p }

def Tasks.put (s : Tasks n) (t : Fin n) (i : WindowNum) (w : Window) (p : Place) : Tasks n :=
  { table := s.table.setWindow i w, pc := Function.update s.pc t p }

/-- Window `i` is found under its mutex: the mapping is added and the call returns. -/
def Tasks.attachLocked (s : Tasks n) (t : Fin n) (add : AddEnv) (i : WindowNum) (m : VmeMapping) (file : Option ℕ) :
    Tasks n :=
  match newMapping add (attach i (s.table.window i).desc m) file with
  | none => s.goto t .idle
  | some mp => s.put t i ((s.table.window i).link mp).count (.returned i mp)

def taskStep (s : Tasks n) (t : Fin n) (create : CreateEnv) (add : AddEnv) : Option (Tasks n) :=
  match s.pc t with
  | .idle => none
  | .returned _ _ => none
  | .scan k m force file =>
    if h : k < tsi148NumOutWindows then
      some (if (s.table.window ⟨k, h⟩).matches m then s.attachLocked t add ⟨k, h⟩ m file
        else s.goto t (.scan (k + 1) m force file))
    else some (s.goto t (if force then .seek 0 m file else .idle))
  | .seek k m file =>
    if h : k < tsi148NumOutWindows then
      some (s.goto t (if (s.table.window ⟨k, h⟩).active then .seek (k + 1) m file else .make ⟨k, h⟩ m file))
    else some (s.goto t .idle)
  | .make i m file =>
    if (windowRequest i m).sizel = 0 then some (s.goto t .idle)
    else
      let (rc, _, table) := s.table.create create i (roundWindow (windowRequest i m))
      some ({ s with table := table }.goto t (if rc = 0 then .made i m file else .idle))
  | .made i m file => some (s.goto t (.readVa i m file (m.vmeAddrl - (s.table.window i).desc.vmeAddrl)))
  | .readVa i m file offset =>
    some (s.goto t (.readPci i { m with kernelVa := (s.table.window i).desc.kernelVa + offset } file offset))
  | .readPci i m file offset =>
    some (s.goto t (.insert i
      { m with pciAddrl := (s.table.window i).desc.pciAddrl + offset, windowNum := i.val } file))
  | .insert i m file =>
    some (match newMapping add m file with
      | none => s.goto t .idle
      | some mp => s.put t i ((s.table.window i).link mp) (.count i mp))
  | .count i mp => some (s.put t i (s.table.window i).count (.returned i mp))
  | .release i desc force file =>
    let (_, w, destroy) := releaseLocked (s.table.window i) desc force file
    some (s.put t i w (if destroy then .reap i else .idle))
  | .create i desc =>
    let (_, _, table) := s.table.create create i desc
    some ({ s with table := table }.goto t .idle)
  | .reap i | .destroy i => some ({ s with table := (s.table.destroy i).2 }.goto t .idle)
  | .close k file =>
    if h : k < tsi148NumOutWindows then
      some (s.put t ⟨k, h⟩ (closeLocked file (s.table.window ⟨k, h⟩)) (.close (k + 1) file))
    else some (s.goto t .idle)

def tasksNext (s : Tasks n) : Move n → Option (Tasks n)
  | .start t call =>
    match s.pc t with
    | .idle | .returned _ _ => some (s.goto t call.entry)
    | _ => none
  | .step t create add => taskStep s t create add
  | .signal t => if (s.pc t).waiting then some (s.goto t .idle) else none

/-! ## What a step can do -/

/-- The window a task has created and not finished attaching its mapping to. -/
def Place.gap : Place → Option WindowNum
  | .made i _ _ | .readVa i _ _ _ | .readPci i _ _ _ | .insert i _ _ | .count i _ => some i
  | _ => none

/-- The window whose list has the task's mapping and whose user count has not. -/
def Place.uncounted : Place → Option WindowNum
  | .count i _ => some i
  | _ => none

/-- The task's mapping is on the list of window `i`, or was when it got there. -/
def Place.Added (i : WindowNum) (m : Mapping) (p : Place) : Prop := p = .count i m ∨ p = .returned i m

instance (i : WindowNum) (m : Mapping) (p : Place) : Decidable (p.Added i m) := inferInstanceAs (Decidable (_ ∨ _))

inductive Effect (s : Tasks n) (t : Fin n) : Tasks n → Prop
  | move (p : Place) (hgap : p.gap = none ∨ p.gap = (s.pc t).gap) (hold : (s.pc t).uncounted = none)
      (hnew : p.uncounted = none) (hadded : ∀ i m, ¬ p.Added i m) : Effect s t (s.goto t p)
  | attach (i : WindowNum) (m : Mapping) (hold : (s.pc t).uncounted = none)
      (hactive : (s.table.window i).active = true) :
      Effect s t (s.put t i ((s.table.window i).link m).count (.returned i m))
  | create (i : WindowNum) (env : CreateEnv) (desc : VmeMapping) (p : Place) (hold : (s.pc t).uncounted = none)
      (hp : p.gap = none ∨ p.gap = some i ∧ (s.table.create env i desc).1 = 0) (hnew : p.uncounted = none)
      (hadded : ∀ i m, ¬ p.Added i m) :
      Effect s t ({ s with table := (s.table.create env i desc).2.2 }.goto t p)
  | insert (i : WindowNum) (m : Mapping) (hold : (s.pc t).uncounted = none) (hgap : (s.pc t).gap = some i) :
      Effect s t (s.put t i ((s.table.window i).link m) (.count i m))
  | count (i : WindowNum) (m : Mapping) (hpc : s.pc t = .count i m) :
      Effect s t (s.put t i (s.table.window i).count (.returned i m))
  | release (i : WindowNum) (desc : VmeMapping) (force : Bool) (file : Option ℕ) (p : Place)
      (hpc : s.pc t = .release i desc force file) (hp : p = .reap i ∨ p = .idle) :
      Effect s t (s.put t i (releaseLocked (s.table.window i) desc force file).2.1 p)
  | destroy (i : WindowNum) (hpc : s.pc t = .reap i ∨ s.pc t = .destroy i) :
      Effect s t ({ s with table := (s.table.destroy i).2 }.goto t .idle)
  | close (i : WindowNum) (file : ℕ) (hpc : s.pc t = .close i.val file) :
      Effect s t (s.put t i (closeLocked file (s.table.window i)) (.close (i.val + 1) file))

section Effects
variable {s s' : Tasks n} {t : Fin n}

theorem Effect.leave (p : Place) (hold : (s.pc t).uncounted = none) (hgap : p.gap = none) (hnew : p.uncounted = none)
    (hadded : ∀ i m, ¬ p.Added i m) : Effect s t (s.goto t p) := .move p (.inl hgap) hold hnew hadded

theorem taskStep_effect {create : CreateEnv} {add : AddEnv} (h : taskStep s t create add = some s') :
    Effect s t s' := by
  have hidle : ∀ i m, ¬ Place.idle.Added i m := by simp [Place.Added]
  unfold taskStep at h
  cases hp : s.pc t with
  | idle => simp [hp] at h
  | returned i m => simp [hp] at h
  | scan k m force file =>
    have hold : (s.pc t).uncounted = none := by rw [hp]; rfl
    simp only [hp] at h
    split at h
    · rename_i hk
      obtain rfl := Option.some.inj h
      split
      · rename_i hmatch
        unfold Tasks.attachLocked
        split
        · exact .leave .idle hold rfl rfl hidle
        · exact .attach _ _ hold (Window.matches_iff.mp hmatch).1
      · exact .leave _ hold rfl rfl (by simp [Place.Added])
    · obtain rfl := Option.some.inj h
      split
      · exact .leave _ hold rfl rfl (by simp [Place.Added])
      · exact .leave .idle hold rfl rfl hidle
  | seek k m file =>
    have hold : (s.pc t).uncounted = none := by rw [hp]; rfl
    simp only [hp] at h
    split at h
    · obtain rfl := Option.some.inj h
      split
      · exact .leave _ hold rfl rfl (by simp [Place.Added])
      · exact .leave _ hold rfl rfl (by simp [Place.Added])
    · obtain rfl := Option.some.inj h
      exact .leave .idle hold rfl rfl hidle
  | make i m file =>
    have hold : (s.pc t).uncounted = none := by rw [hp]; rfl
    simp only [hp] at h
    split at h
    · obtain rfl := Option.some.inj h
      exact .leave .idle hold rfl rfl hidle
    · obtain rfl := Option.some.inj h
      split
      · rename_i hrc
        exact .create i create _ _ hold (.inr ⟨rfl, hrc⟩) rfl (by simp [Place.Added])
      · exact .create i create _ .idle hold (.inl rfl) rfl hidle
  | made i m file =>
    simp only [hp] at h
    obtain rfl := Option.some.inj h
    exact .move _ (.inr (by rw [hp]; rfl)) (by rw [hp]; rfl) rfl (by simp [Place.Added])
  | readVa i m file offset =>
    simp only [hp] at h
    obtain rfl := Option.some.inj h
    exact .move _ (.inr (by rw [hp]; rfl)) (by rw [hp]; rfl) rfl (by simp [Place.Added])
  | readPci i m file offset =>
    simp only [hp] at h
    obtain rfl := Option.some.inj h
    exact .move _ (.inr (by rw [hp]; rfl)) (by rw [hp]; rfl) rfl (by simp [Place.Added])
  | insert i m file =>
    have hold : (s.pc t).uncounted = none := by rw [hp]; rfl
    simp only [hp] at h
    obtain rfl := Option.some.inj h
    split
    · exact .leave .idle hold rfl rfl hidle
    · exact .insert i _ hold (by rw [hp]; rfl)
  | count i m =>
    simp only [hp] at h
    obtain rfl := Option.some.inj h
    exact .count i m hp
  | release i desc force file =>
    simp only [hp] at h
    obtain rfl := Option.some.inj h
    refine .release i desc force file _ hp ?_
    split
    · exact .inl rfl
    · exact .inr rfl
  | create i desc =>
    simp only [hp] at h
    obtain rfl := Option.some.inj h
    exact .create i create desc .idle (by rw [hp]; rfl) (.inl rfl) rfl hidle
  | reap i =>
    simp only [hp] at h
    obtain rfl := Option.some.inj h
    exact .destroy i (.inl hp)
  | destroy i =>
    simp only [hp] at h
    obtain rfl := Option.some.inj h
    exact .destroy i (.inr hp)
  | close k file =>
    simp only [hp] at h
    split at h
    · rename_i hk
      obtain rfl := Option.some.inj h
      exact .close ⟨k, hk⟩ file hp
    · obtain rfl := Option.some.inj h
      exact .leave .idle (by rw [hp]; rfl) rfl rfl hidle

/-- A task enters a call or leaves it, and no window changes. -/
structure Detour (s s' : Tasks n) (t : Fin n) (p : Place) : Prop where
  goto : s' = s.goto t p
  old : (s.pc t).uncounted = none
  gap : p.gap = none
  new : p.uncounted = none
  added : ∀ i m, ¬ p.Added i m

theorem entry_outside (call : Call) :
    call.entry.gap = none ∧ call.entry.uncounted = none ∧ ∀ i m, ¬ call.entry.Added i m := by
  cases call with
  | find m force file =>
    by_cases hsane : vmeMappingSanityCheck m = 0 <;>
      simp [Call.entry, hsane, Place.gap, Place.uncounted, Place.Added]
  | release desc force file =>
    cases hi : windowIndex desc.windowNum <;> simp [Call.entry, hi, Place.gap, Place.uncounted, Place.Added]
  | create desc =>
    cases hi : windowIndex desc.windowNum with
    | none => simp [Call.entry, hi, Place.gap, Place.uncounted, Place.Added]
    | some i =>
      simp only [Call.entry, hi, Option.elim_some]
      by_cases hsize : desc.sizel = 0
      · rw [if_pos hsize]
        simp [Place.gap, Place.uncounted, Place.Added]
      · rw [if_neg hsize]
        simp [Place.gap, Place.uncounted, Place.Added]
  | destroy num =>
    cases hi : windowIndex num <;> simp [Call.entry, hi, Place.gap, Place.uncounted, Place.Added]
  | close file => simp [Call.entry, Place.gap, Place.uncounted, Place.Added]

theorem start_detour {call : Call} (h : tasksNext s (.start t call) = some s') : Detour s s' t call.entry := by
  obtain ⟨hgap, hnew, hadded⟩ := entry_outside call
  unfold tasksNext at h
  simp only at h
  split at h
  · rename_i hp
    exact ⟨(Option.some.inj h).symm, by rw [hp]; rfl, hgap, hnew, hadded⟩
  · rename_i hp
    exact ⟨(Option.some.inj h).symm, by rw [hp]; rfl, hgap, hnew, hadded⟩
  · cases h

theorem signal_detour (h : tasksNext s (.signal t) = some s') : Detour s s' t .idle := by
  unfold tasksNext at h
  simp only at h
  split at h
  · rename_i hwait
    refine ⟨(Option.some.inj h).symm, ?_, rfl, rfl, by simp [Place.Added]⟩
    cases hp : s.pc t with
    | count i m => simp [hp, Place.waiting] at hwait
    | _ => rfl
  · cases h

end Effects

/-! ## The invariant -/

def uncountedOn (i : WindowNum) (p : Place) : ℕ := if p.uncounted = some i then 1 else 0

/-- The user count of a window lags behind its list by the mappings that are not counted yet. -/
structure TasksInv (s : Tasks n) : Prop where
  users : ∀ i, (s.table.window i).users + tally (uncountedOn i) s.pc = (s.table.window i).mappings.length
  empty : ∀ i, (s.table.window i).active = false → (s.table.window i).mappings = []
  gap : ∀ t i, (s.pc t).gap = some i → (s.table.window i).active = true

/-- The window a task is about to destroy. -/
def Place.target : Place → Option WindowNum
  | .reap i | .destroy i => some i
  | _ => none

/-- A window is destroyed only while no task is attaching its mapping without the mutex, and after a
release only while its list is empty. -/
def DestroyOk (s : Tasks n) : Move n → Prop
  | .step t _ _ => ∀ i, (s.pc t).target = some i →
      (∀ u, (s.pc u).gap ≠ some i) ∧ (s.pc t = .reap i → (s.table.window i).mappings = [])
  | _ => True

instance (s : Tasks n) : (a : Move n) → Decidable (DestroyOk s a)
  | .step _ _ _ => inferInstanceAs (Decidable (∀ _, _))
  | .start _ _ => isTrue trivial
  | .signal _ => isTrue trivial

section Invariant
variable {s s' : Tasks n} {t : Fin n} {i : WindowNum} {w : Window} {p : Place}

theorem uncountedOn_of_none (h : p.uncounted = none) (i : WindowNum) : uncountedOn i p = 0 := by
  simp [uncountedOn, h]

/-- One task moves to `p` and window `i` becomes `w`. -/
theorem TasksInv.change (h : TasksInv s) (hpc : s'.pc = Function.update s.pc t p)
    (hwindow : s'.table.window = Function.update s.table.window i w)
    (hself : w.users + uncountedOn i p + (s.table.window i).mappings.length =
      (s.table.window i).users + uncountedOn i (s.pc t) + w.mappings.length)
    (hother : ∀ j, j ≠ i → uncountedOn j p = uncountedOn j (s.pc t))
    (hempty : w.active = false → w.mappings = [])
    (hactive : ∀ u, u ≠ t → (s.pc u).gap = some i → w.active = true)
    (hgap : ∀ j, p.gap = some j → (s'.table.window j).active = true) : TasksInv s' := by
  refine ⟨fun j => ?_, fun j => ?_, fun u j hu => ?_⟩
  · have htally := tally_update (uncountedOn j) s.pc t p
    have hold := h.users j
    rw [hpc, hwindow]
    by_cases hj : j = i
    · subst hj
      rw [Function.update_self]
      omega
    · rw [Function.update_of_ne hj]
      have := hother j hj
      omega
  · rw [hwindow]
    by_cases hj : j = i
    · subst hj
      rw [Function.update_self]
      exact hempty
    · rw [Function.update_of_ne hj]
      exact h.empty j
  · rw [hpc] at hu
    by_cases hut : u = t
    · subst hut
      rw [Function.update_self] at hu
      exact hgap j hu
    · rw [Function.update_of_ne hut] at hu
      rw [hwindow]
      by_cases hj : j = i
      · subst hj
        rw [Function.update_self]
        exact hactive u hut hu
      · rw [Function.update_of_ne hj]
        exact h.gap u j hu

theorem TasksInv.goto (h : TasksInv s) (hcount : ∀ i, uncountedOn i p = uncountedOn i (s.pc t))
    (hgap : ∀ j, p.gap = some j → (s.table.window j).active = true) : TasksInv (s.goto t p) := by
  let i : WindowNum := 0
  refine h.change (i := i) (w := s.table.window i) rfl (Function.update_eq_self i s.table.window).symm ?_
    (fun j _ => hcount j) (h.empty i) (fun u _ hu => h.gap u i hu) hgap
  have := hcount i
  omega

/-- The section of `vme_create_window` touches neither the list nor the count, and the window is active
when it succeeds. -/
theorem create_window (env : CreateEnv) (i : WindowNum) (desc : VmeMapping) (table : WindowTable) :
    ∃ w, (table.create env i desc).2.2.window = Function.update table.window i w ∧
      w.mappings = (table.window i).mappings ∧ w.users = (table.window i).users ∧
      ((table.window i).active = true → w.active = true) ∧
      ((table.create env i desc).1 = 0 → w.active = true) ∧
      (w.active = false → (table.window i).active = false) := by
  unfold WindowTable.create
  rcases hcall : createLocked env i desc (table.window i) (table.otrans i) with ⟨rc, desc', w, trans'⟩
  refine ⟨w, rfl, ?_⟩
  obtain ⟨hrc, -, rsrc, rfl⟩ | ⟨-, -, -, rsrc, rfl⟩ := createLocked_cases hcall
  · exact ⟨rfl, rfl, id, fun h => absurd h hrc, id⟩
  · exact ⟨rfl, rfl, fun _ => rfl, fun _ => rfl, fun h => by cases h⟩

theorem TasksInv.create (h : TasksInv s) (env : CreateEnv) (desc : VmeMapping) (hold : (s.pc t).uncounted = none)
    (hp : p.gap = none ∨ p.gap = some i ∧ (s.table.create env i desc).1 = 0) (hnew : p.uncounted = none) :
    TasksInv ({ s with table := (s.table.create env i desc).2.2 }.goto t p) := by
  obtain ⟨w, hwindow, hmappings, husers, hkeeps, hmade, hoff⟩ := create_window env i desc s.table
  refine h.change rfl hwindow ?_ ?_ ?_ ?_ ?_
  · rw [hmappings, husers, uncountedOn_of_none hold, uncountedOn_of_none hnew]
  · intro j _
    rw [uncountedOn_of_none hold, uncountedOn_of_none hnew]
  · intro hw
    rw [hmappings]
    exact h.empty i (hoff hw)
  · intro u _ hu
    exact hkeeps (h.gap u i hu)
  · intro j hj
    obtain hnone | ⟨hsome, hrc⟩ := hp
    · rw [hnone] at hj
      cases hj
    · obtain rfl : i = j := Option.some.inj (hsome.symm.trans hj)
      change ((s.table.create env i desc).2.2.window i).active = true
      rw [hwindow, Function.update_self]
      exact hmade hrc

/-- A release or a close. -/
theorem TasksInv.shrink (h : TasksInv s) (hs : Shrinks (s.table.window i) w) (hold : (s.pc t).uncounted = none)
    (hnew : p.uncounted = none) (hgap : p.gap = none) : TasksInv (s.put t i w p) := by
  refine h.change rfl rfl ?_ ?_ ?_ ?_ ?_
  · have husers := hs.users
    rw [uncountedOn_of_none hold, uncountedOn_of_none hnew]
    omega
  · intro j _
    rw [uncountedOn_of_none hold, uncountedOn_of_none hnew]
  · intro hw
    exact hs.nil (h.empty i (hs.active ▸ hw))
  · intro u _ hu
    rw [hs.active]
    exact h.gap u i hu
  · intro j hj
    rw [hgap] at hj
    cases hj

/-- With no task in the unprotected part the list of a destroyed window is empty. -/
theorem TasksInv.destroy (h : TasksInv s) (hgap : ∀ u, (s.pc u).gap ≠ some i) (hold : (s.pc t).uncounted = none) :
    TasksInv ({ s with table := (s.table.destroy i).2 }.goto t .idle) := by
  have hidle : ∀ j, uncountedOn j Place.idle = uncountedOn j (s.pc t) := by
    intro j
    rw [uncountedOn_of_none hold]
    rfl
  by_cases hactive : (s.table.window i).active = true
  · have hzero : tally (uncountedOn i) s.pc = 0 := by
      apply Finset.sum_eq_zero
      intro u _
      unfold uncountedOn
      rw [if_neg]
      intro hu
      apply hgap u
      cases hp : s.pc u with
      | count j m =>
        rw [hp] at hu
        exact hu
      | _ => simp [hp, Place.uncounted] at hu
    have husers := h.users i
    obtain ⟨hnil, hnone⟩ : (s.table.window i).dropMappings.mappings = [] ∧ (s.table.window i).dropMappings.users = 0 :=
      dropMappings_nil (by omega)
    have hwindow : (s.table.destroy i).2.window = Function.update s.table.window i
        { (s.table.window i).dropMappings with
          active := false
          desc := (tsi148RemoveWindow { (s.table.window i).dropMappings.desc with kernelVa := 0 }).1
          rsrc := zeroResource } := by
      unfold WindowTable.destroy
      simp only
      rw [if_pos hactive]
    refine h.change rfl hwindow ?_ (fun j _ => hidle j) (fun _ => hnil) (fun u _ hu => absurd hu (hgap u))
      (fun j hj => by cases hj)
    have := hidle i
    simp only [hnil, hnone, List.length_nil]
    omega
  · have hsame : (s.table.destroy i).2 = s.table := by
      unfold WindowTable.destroy
      simp only
      rw [if_neg hactive]
    rw [hsame]
    exact h.goto hidle fun j hj => by cases hj

/-- Every effect keeps the invariant, provided a window is destroyed only outside the unprotected part. -/
theorem TasksInv.effect (h : TasksInv s) (he : Effect s t s')
    (hdestroy : ∀ i, (s.pc t).target = some i → ∀ u, (s.pc u).gap ≠ some i) : TasksInv s' := by
  cases he with
  | move p hgap hold hnew _ =>
    refine h.goto (fun i => by rw [uncountedOn_of_none hold, uncountedOn_of_none hnew]) fun j hj => ?_
    obtain hnone | hsame := hgap
    · rw [hnone] at hj
      cases hj
    · exact h.gap t j (hsame ▸ hj)
  | attach i m hold hactive =>
    refine h.change rfl rfl ?_ (fun j _ => ?_) (fun hoff => ?_) (fun _ _ _ => hactive) (fun j hj => by cases hj)
    · rw [uncountedOn_of_none hold]
      change (s.table.window i).users + 1 + 0 + _ = _ + 0 + (((s.table.window i).mappings ++ [m]).length : Int)
      rw [List.length_append, List.length_singleton]
      omega
    · rw [uncountedOn_of_none hold]
      rfl
    · rw [show (s.table.window i).active = false from hoff] at hactive
      cases hactive
  | create i env desc p hold hp hnew _ => exact h.create env desc hold hp hnew
  | insert i m hold hgap =>
    have hactive := h.gap t i hgap
    refine h.change rfl rfl ?_ (fun j hj => ?_) (fun hoff => ?_) (fun _ _ _ => hactive) (fun j hj => ?_)
    · have hone : uncountedOn i (.count i m) = 1 := by simp [uncountedOn, Place.uncounted]
      rw [uncountedOn_of_none hold, hone]
      change (s.table.window i).users + _ + _ = _ + _ + (((s.table.window i).mappings ++ [m]).length : Int)
      rw [List.length_append, List.length_singleton]
      omega
    · rw [uncountedOn_of_none hold]
      simp [uncountedOn, Place.uncounted, Ne.symm hj]
    · rw [show (s.table.window i).active = false from hoff] at hactive
      cases hactive
    · obtain rfl : i = j := Option.some.inj hj
      change (Function.update s.table.window i _ i).active = true
      rw [Function.update_self]
      exact hactive
  | count i m hpc =>
    have hactive := h.gap t i (by rw [hpc]; rfl)
    refine h.change rfl rfl ?_ (fun j hj => ?_) (fun hoff => ?_) (fun _ _ _ => hactive) (fun j hj => by cases hj)
    · have hone : uncountedOn i (s.pc t) = 1 := by simp [uncountedOn, hpc, Place.uncounted]
      rw [hone]
      change (s.table.window i).users + 1 + 0 + _ = _ + 1 + ((s.table.window i).mappings.length : Int)
      omega
    · rw [hpc]
      simp [uncountedOn, Place.uncounted, Ne.symm hj]
    · rw [show (s.table.window i).active = false from hoff] at hactive
      cases hactive
  | release i desc force file p hpc hp =>
    have hs := releaseLocked_shrinks (s.table.window i) desc force file
    have hold : (s.pc t).uncounted = none := by rw [hpc]; rfl
    cases hp with
    | inl hreap => exact h.shrink hs hold (hreap ▸ rfl) (hreap ▸ rfl)
    | inr hidle => exact h.shrink hs hold (hidle ▸ rfl) (hidle ▸ rfl)
  | destroy i hpc =>
    obtain hpc | hpc := hpc
    · exact h.destroy (hdestroy i (by rw [hpc]; rfl)) (by rw [hpc]; rfl)
    · exact h.destroy (hdestroy i (by rw [hpc]; rfl)) (by rw [hpc]; rfl)
  | close i file hpc =>
    exact h.shrink (closeLocked_shrinks file _) (by rw [hpc]; rfl) rfl rfl

theorem TasksInv.detour (h : TasksInv s) (hd : Detour s s' t p) : TasksInv s' := by
  rw [hd.goto]
  refine h.goto (fun i => ?_) fun j hj => ?_
  · rw [uncountedOn_of_none hd.old, uncountedOn_of_none hd.new]
  · rw [hd.gap] at hj
    cases hj

theorem TasksInv.tasksNext (h : TasksInv s) (a : Move n) (hok : DestroyOk s a) (hnext : tasksNext s a = some s') :
    TasksInv s' := by
  cases a with
  | start t call => exact h.detour (start_detour hnext)
  | step t create add => exact h.effect (taskStep_effect hnext) fun i hi => (hok i hi).1
  | signal t => exact h.detour (signal_detour hnext)

theorem tasksInv_init (n : ℕ) : TasksInv (tasksInit n) where
  users := by
    intro i
    have hzero : tally (uncountedOn i) (tasksInit n).pc = 0 := Finset.sum_eq_zero fun u _ => rfl
    rw [hzero]
    rfl
  empty := fun _ _ => rfl
  gap := fun t i h => by cases h

end Invariant

/-! ## Mappings stay -/

/-- The step of a task at this place takes `m` off the list of window `i` on behalf of a caller: a
release that names it, the close of its file, or a call of `vme_destroy_window`. -/
def Place.removes (i : WindowNum) (m : Mapping) : Place → Bool
  | .release j desc _ file => j = i ∧ namesMapping desc file m
  | .close k file => k = i.val ∧ m.client.file = some file
  | .destroy j => j = i
  | _ => false

def Removes (i : WindowNum) (m : Mapping) (s : Tasks n) : Move n → Prop
  | .step t _ _ => (s.pc t).removes i m = true
  | _ => False

instance (i : WindowNum) (m : Mapping) (s : Tasks n) : (a : Move n) → Decidable (Removes i m s a)
  | .step _ _ _ => inferInstanceAs (Decidable (_ = true))
  | .start _ _ => isFalse id
  | .signal _ => isFalse id

section Stay
variable {s s' : Tasks n} {t : Fin n} {i : WindowNum} {m : Mapping}

theorem mem_put {w : Window} {j : WindowNum} {p : Place} (hm : m ∈ (s.table.window i).mappings)
    (hkeeps : i = j → m ∈ w.mappings) : m ∈ ((s.put t j w p).table.window i).mappings := by
  change m ∈ (Function.update s.table.window j w i).mappings
  by_cases hij : i = j
  · subst hij
    rw [Function.update_self]
    exact hkeeps rfl
  · rw [Function.update_of_ne hij]
    exact hm

theorem mem_put_self {w : Window} {p : Place} (hm : m ∈ w.mappings) :
    m ∈ ((s.put t i w p).table.window i).mappings := by
  change m ∈ (Function.update s.table.window i w i).mappings
  rwa [Function.update_self]

theorem mem_releaseLocked {w : Window} {desc : VmeMapping} {force : Bool} {file : Option ℕ} (hm : m ∈ w.mappings)
    (hnot : namesMapping desc file m = false) : m ∈ (releaseLocked w desc force file).2.1.mappings := by
  unfold releaseLocked
  split
  · change m ∈ (removeMapping w desc file).2.mappings
    unfold removeMapping
    split
    · exact (List.mem_eraseP_of_neg (by simp [hnot])).mpr hm
    · exact hm
  · exact hm

theorem mem_closeLocked {w : Window} {file : ℕ} (hm : m ∈ w.mappings) (hnot : m.client.file ≠ some file) :
    m ∈ (closeLocked file w).mappings := by
  unfold closeLocked
  split
  · exact List.mem_filter.mpr ⟨hm, by simpa using hnot⟩
  · exact hm

theorem mem_destroy {j : WindowNum} (hm : m ∈ (s.table.window i).mappings) (hij : i ≠ j) :
    m ∈ ((s.table.destroy j).2.window i).mappings := by
  unfold WindowTable.destroy
  simp only
  split
  · simp only [Function.update_of_ne hij]
    exact hm
  · exact hm

/-- A mapping leaves its list only by a step that removes it on behalf of a caller. -/
theorem Effect.mem (he : Effect s t s') (hm : m ∈ (s.table.window i).mappings)
    (hnot : (s.pc t).removes i m = false) (hreap : ∀ j, s.pc t = .reap j → (s.table.window j).mappings = []) :
    m ∈ (s'.table.window i).mappings := by
  cases he with
  | move p _ _ _ _ => exact hm
  | attach j m' _ _ => exact mem_put hm fun hij => List.mem_append_left _ (hij ▸ hm)
  | create j env desc p _ _ _ _ =>
    obtain ⟨w, hwindow, hmappings, -⟩ := create_window env j desc s.table
    change m ∈ ((s.table.create env j desc).2.2.window i).mappings
    rw [hwindow]
    by_cases hij : i = j
    · subst hij
      rw [Function.update_self, hmappings]
      exact hm
    · rw [Function.update_of_ne hij]
      exact hm
  | insert j m' _ _ => exact mem_put hm fun hij => List.mem_append_left _ (hij ▸ hm)
  | count j m' _ => exact mem_put hm fun hij => hij ▸ hm
  | release j desc force file p hpc _ =>
    refine mem_put hm fun hij => ?_
    subst hij
    exact mem_releaseLocked hm (by simpa [hpc, Place.removes] using hnot)
  | destroy j hpc =>
    have hij : i ≠ j := by
      rintro rfl
      obtain hpc | hpc := hpc
      · rw [hreap i hpc] at hm
        cases hm
      · simp [hpc, Place.removes] at hnot
    exact mem_destroy hm hij
  | close j file hpc =>
    refine mem_put hm fun hij => ?_
    subst hij
    exact mem_closeLocked hm (by simpa [hpc, Place.removes] using hnot)

theorem mem_tasksNext {a : Move n} (hok : DestroyOk s a) (hnot : ¬ Removes i m s a) (hnext : tasksNext s a = some s')
    (hm : m ∈ (s.table.window i).mappings) : m ∈ (s'.table.window i).mappings := by
  cases a with
  | start t call =>
    rw [(start_detour hnext).goto]
    exact hm
  | step t create add =>
    refine (taskStep_effect hnext).mem hm (by simpa [Removes] using hnot) fun j hj => ?_
    exact (hok j (by rw [hj]; rfl)).2 hj
  | signal t =>
    rw [(signal_detour hnext).goto]
    exact hm

/-- A task that has just added its mapping finds it on the list. -/
theorem Effect.added (he : Effect s t s') (hbefore : ¬ (s.pc t).Added i m) (hafter : (s'.pc t).Added i m) :
    m ∈ (s'.table.window i).mappings := by
  have hself : ∀ q : Place, (Function.update s.pc t q t).Added i m → q.Added i m := by
    intro q hq
    rwa [Function.update_self] at hq
  cases he with
  | move p _ _ _ hadded => exact absurd (hself p hafter) (hadded i m)
  | attach j m' _ _ =>
    obtain ⟨rfl, rfl⟩ : j = i ∧ m' = m := by simpa [Place.Added] using hself _ hafter
    exact mem_put_self (List.mem_append_right _ (List.mem_singleton_self m'))
  | create j env desc p _ _ _ hadded => exact absurd (hself p hafter) (hadded i m)
  | insert j m' _ _ =>
    obtain ⟨rfl, rfl⟩ : j = i ∧ m' = m := by simpa [Place.Added] using hself _ hafter
    exact mem_put_self (List.mem_append_right _ (List.mem_singleton_self m'))
  | count j m' hpc =>
    obtain ⟨rfl, rfl⟩ : j = i ∧ m' = m := by simpa [Place.Added] using hself _ hafter
    exact absurd (.inl hpc) hbefore
  | release j desc force file p hpc hp =>
    have := hself p hafter
    rcases hp with rfl | rfl <;> simp [Place.Added] at this
  | destroy j hpc =>
    have := hself _ hafter
    simp [Place.Added] at this
  | close j file hpc =>
    have := hself _ hafter
    simp [Place.Added] at this

theorem Effect.pc_other (he : Effect s t s') {u : Fin n} (hu : u ≠ t) : s'.pc u = s.pc u := by
  cases he <;> exact Function.update_of_ne hu _ _

theorem added_tasksNext {a : Move n} (hnext : tasksNext s a = some s') (hbefore : ¬ (s.pc t).Added i m)
    (hafter : (s'.pc t).Added i m) : m ∈ (s'.table.window i).mappings := by
  -- a task that enters or leaves a call adds nothing, and the other tasks stay where they are
  have hdetour : ∀ u p, ¬ Detour s s' u p := by
    intro u p hd
    rw [hd.goto] at hafter
    change (Function.update s.pc u p t).Added i m at hafter
    by_cases htu : t = u
    · subst htu
      rw [Function.update_self] at hafter
      exact hd.added i m hafter
    · rw [Function.update_of_ne htu] at hafter
      exact hbefore hafter
  cases a with
  | start u call => exact absurd (start_detour hnext) (hdetour u _)
  | step u create add =>
    have he := taskStep_effect hnext
    by_cases htu : t = u
    · subst htu
      exact he.added hbefore hafter
    · rw [he.pc_other htu] at hafter
      exact absurd hafter hbefore
  | signal u => exact absurd (signal_detour hnext) (hdetour u _)

/-- In every run that keeps `DestroyOk`, an inactive window has no mappings, and a mapping that a task
has added stays on its list until a caller has it removed. -/
theorem mappings_survive (h : Reach tasksNext DestroyOk (tasksInit n) s) :
    (∀ i, (s.table.window i).active = false → (s.table.window i).mappings = []) ∧
    ∀ a s₁ s₂ t i m, tasksNext s a = some s₁ → ¬ (s.pc t).Added i m → (s₁.pc t).Added i m →
      Reach tasksNext (fun s a => DestroyOk s a ∧ ¬ Removes i m s a) s₁ s₂ → m ∈ (s₂.table.window i).mappings := by
  have hinv : TasksInv s := h.invariant (tasksInv_init n) fun _ a _ hi hok hnext => hi.tasksNext a hok hnext
  refine ⟨hinv.empty, ?_⟩
  intro a s₁ s₂ t i m hnext hbefore hafter hrun
  have hstart : m ∈ (s₁.table.window i).mappings := added_tasksNext hnext hbefore hafter
  refine Reach.invariant (I := fun s => m ∈ (s.table.window i).mappings) hstart ?_ hrun
  intro s₃ a₃ s₄ hm hok hstep
  exact mem_tasksNext hok.1 hok.2 hstep hm

end Stay

/-! ## Three runs -/

/-- The next `k` steps of task `t`, with `addr` for a new mapping. -/
def steps (t : Fin n) (k addr : ℕ) : List (Move n) :=
  List.replicate k (.step t willingWindowEnv.create ⟨some addr, 1, "task"⟩)

/-- Task `t` asks the kernel for `size` bytes at `vmeAddr` in the A32 space. -/
def findCall (t : Fin n) (addr size : U32) : Move n := .start t (.find (request vmeA32UserDataSct addr size) true none)

/-- The mapping of `size` bytes at `addr` on a window at 0. -/
def mappingAt (id : ℕ) (addr size : U32) : Mapping :=
  { addr := id
    desc := { request vmeA32UserDataSct addr size with kernelVa := 0xd0000000 + addr, pciAddrl := 0x80000000 + addr }
    client := ⟨0, "kernel", none⟩ }

def releaseCall (t : Fin n) (m : Mapping) : Move n := .start t (.release m.desc true none)

theorem mappings_survive_two_tasks :
    ∃ s : Tasks 2, s.pc 1 = .idle ∧ mappingAt 10 0 0x10000 ∈ (s.table.window 0).mappings := by
  have hrun : ((replay tasksNext DestroyOk (tasksInit 2) (findCall 0 0 0x10000 :: steps 0 14 10)).bind fun s =>
      (tasksNext s (.step 0 willingWindowEnv.create ⟨some 10, 1, "task"⟩)).bind fun s₁ =>
      (replay tasksNext (fun s a => DestroyOk s a ∧ ¬ Removes 0 (mappingAt 10 0 0x10000) s a) s₁
        (steps 0 1 10 ++ findCall 1 0x100 0x100 :: steps 1 1 11 ++
          releaseCall 1 (mappingAt 11 0x100 0x100) :: steps 1 1 12)).map fun s₂ =>
      decide (¬ (s.pc 0).Added 0 (mappingAt 10 0 0x10000) ∧ (s₁.pc 0).Added 0 (mappingAt 10 0 0x10000) ∧
        s₂.pc 1 = .idle)) = some true := by decide
  obtain ⟨s, hs, hrest⟩ := Option.bind_eq_some_iff.mp hrun
  obtain ⟨s₁, hs₁, hrest⟩ := Option.bind_eq_some_iff.mp hrest
  obtain ⟨s₂, hs₂, hfacts⟩ := Option.map_eq_some_iff.mp hrest
  obtain ⟨hbefore, hafter, hidle⟩ := of_decide_eq_true hfacts
  have hreach : Reach tasksNext DestroyOk (tasksInit 2) s := Reach.refl.of_replay hs
  exact ⟨s₂, hidle, (mappings_survive hreach).2 _ s₁ s₂ 0 0 _ hs₁ hbefore hafter (Reach.refl.of_replay hs₂)⟩

/-- Without the condition: task 1 destroys the window that task 0 has just created and is attaching its
mapping to; and task 0, which has released the last mapping with force, destroys the window after task 1
has attached a mapping to it. -/
theorem mappings_lost :
    (∃ s : Tasks 2, Reach tasksNext (fun _ _ => True) (tasksInit 2) s ∧
      (s.table.window 0).active = false ∧ (s.table.window 0).mappings ≠ []) ∧
    ∃ (s s' : Tasks 2) (a : Move 2), Reach tasksNext (fun _ _ => True) (tasksInit 2) s ∧
      s.pc 1 = .returned 0 (mappingAt 11 0x100 0x100) ∧ mappingAt 11 0x100 0x100 ∈ (s.table.window 0).mappings ∧
      ¬ Removes 0 (mappingAt 11 0x100 0x100) s a ∧ tasksNext s a = some s' ∧
      mappingAt 11 0x100 0x100 ∉ (s'.table.window 0).mappings := by
  constructor
  · have hrun : (replay tasksNext (fun _ _ => True) (tasksInit 2)
        (findCall 0 0 0x10000 :: steps 0 11 10 ++ .start 1 (.destroy 0) :: steps 1 1 11 ++ steps 0 5 10)).map
        (fun s => decide ((s.table.window 0).active = false ∧ (s.table.window 0).mappings ≠ [])) = some true := by
      decide
    obtain ⟨s, hs, hfacts⟩ := Option.map_eq_some_iff.mp hrun
    exact ⟨s, Reach.refl.of_replay hs, of_decide_eq_true hfacts⟩
  · have hrun : ((replay tasksNext (fun _ _ => True) (tasksInit 2)
        (findCall 0 0 0x10000 :: steps 0 16 10 ++ releaseCall 0 (mappingAt 10 0 0x10000) :: steps 0 1 12 ++
          findCall 1 0x100 0x100 :: steps 1 1 11)).bind fun s =>
        (tasksNext s (.step 0 willingWindowEnv.create willingWindowEnv.add)).map fun s' =>
        decide (s.pc 1 = .returned 0 (mappingAt 11 0x100 0x100) ∧
          mappingAt 11 0x100 0x100 ∈ (s.table.window 0).mappings ∧
          ¬ Removes 0 (mappingAt 11 0x100 0x100) s (.step 0 willingWindowEnv.create willingWindowEnv.add) ∧
          mappingAt 11 0x100 0x100 ∉ (s'.table.window 0).mappings)) = some true := by decide
    obtain ⟨s, hs, hrest⟩ := Option.bind_eq_some_iff.mp hrun
    obtain ⟨s', hs', hfacts⟩ := Option.map_eq_some_iff.mp hrest
    obtain ⟨hreturned, hmem, hnot, hgone⟩ := of_decide_eq_true hfacts
    exact ⟨s, s', _, Reach.refl.of_replay hs, hreturned, hmem, hnot, hs', hgone⟩

end HtDrivers.Vmebridge
