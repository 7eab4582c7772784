import HtDrivers.Mttn.ObjectFile

/-! Tasks of an MTT module: the library loads a program into the program memory, behind the slots of
tasks whose names are empty, and takes a task out by clearing its name. The task range and size are the
defaults of the library. -/
namespace HtDrivers.Mttn
set_option autoImplicit false

/-! ## The module -/

def firstTask : ℕ := 1

def lastTask : ℕ := 16

/-- `MttLibTASK_SIZE`: the instructions of one slot. -/
def maxSize : ℕ := 256

/-- `MttDrvrINSTRUCTIONS`. -/
def instructions : ℕ := 4096

/-- What the driver and the hardware keep of one task. -/
structure Task where
  loadAddress : BitVec 32
  instructionCount : BitVec 32
  pcStart : BitVec 32
  pcOffset : BitVec 32
  pc : BitVec 32
  name : List Char
deriving DecidableEq

/-- The state behind the library: `mtt` tells whether the driver is open, tasks have the numbers 1 to 16,
and the program memory is addressed without a bound. -/
structure Module where
  mtt : Bool
  tasks : ℕ → Task
  running : ℕ → Bool
  programMem : ℕ → Instruction

def IsTask (t : ℕ) : Prop := firstTask ≤ t ∧ t ≤ lastTask

instance (t : ℕ) : Decidable (IsTask t) := inferInstanceAs (Decidable (_ ∧ _))

/-- `MTT_IOCSTASKS_STOP` of one task. -/
def stopTask (s : Module) (t : ℕ) : Module := { s with running := Function.update s.running t false }

/-- `MTT_IOCSTCB` with all fields; the driver refuses other task numbers. -/
def setTcb (s : Module) (t : ℕ) (tcb : Task) : Option Module :=
  if IsTask t then some { s with tasks := Function.update s.tasks t tcb } else .none

/-- `MTT_IOCSPROGRAM`, which fails when the kernel has no memory or the buffer cannot be copied. -/
def setProgram (ok : Bool) (s : Module) (loadAddress : ℕ) (program : List Instruction) : Option Module :=
  if ok then
    some { s with programMem := fun a =>
      if loadAddress ≤ a then (program[a - loadAddress]?).getD (s.programMem a) else s.programMem a }
  else .none

/-! ## Loading -/

def legalName (name : List Char) : Bool :=
  name ≠ [] ∧ name.length < 32 ∧ name ≠ "ALL".toList ∧ name.head?.any Char.isAlpha = true ∧
    name.tail.all (fun c => c = '_' ∨ c = '.' ∨ c.isAlphanum = true) = true ∧ 3 ≤ name.length

def isLoaded (s : Module) (name : List Char) : Bool :=
  (List.range' firstTask lastTask).any fun t => (s.tasks t).name = name

structure Search where
  ftn : ℕ
  tn : ℕ
  tval : ℕ
  running : ℕ → Bool

/-- The loop that looks for `tcnt` free tasks in a row, with `k` tasks left to look at. -/
def findSlots (tasks : ℕ → Task) (tcnt : ℕ) : ℕ → ℕ → Search → Search
  | 0, _, r => r
  | k + 1, i, r =>
    let tn := i + 1
    if (tasks tn).name = [] then
      let r := { ftn := if r.tval = 0 then tn else r.ftn, tn := tn, tval := r.tval + 1,
                 running := Function.update r.running tn false : Search }
      if tcnt ≤ r.tval then r else findSlots tasks tcnt k (i + 1) r
    else findSlots tasks tcnt k (i + 1) { r with tn := tn, tval := 0 }

/-- The loop that writes the control blocks of `k` tasks from `t` on. -/
def nameSlots (tcb : Task) : ℕ → ℕ → Module → MttLibError × Module
  | 0, _, s => (.none, s)
  | k + 1, t, s => match setTcb s t tcb with
    | some s => nameSlots tcb k (t + 1) s
    | .none => (.io, s)

def slotCount (pbf : ProgramBuf) : ℕ := pbf.instructionCount.toNat / (maxSize + 1) + 1

def searchSlots (s : Module) (tcnt : ℕ) : Search :=
  findSlots s.tasks tcnt (lastTask - (firstTask - 1)) (firstTask - 1) ⟨0, 0, 0, s.running⟩

/-- The control block of a program that was loaded at the slot of task `tn`. -/
def taskOf (name : List Char) (pbf : ProgramBuf) (tn : ℕ) : Task :=
  let loadAddress := BitVec.ofNat 32 (maxSize * (tn - 1))
  { loadAddress := loadAddress, instructionCount := pbf.instructionCount, pcStart := 0,
    pcOffset := loadAddress, pc := 0, name := name }

def mttLibLoadTaskObject (sprogram : Bool) (s : Module) (name : List Char) (pbf : ProgramBuf) :
    MttLibError × Module :=
  if s.mtt = false then (.init, s)
  else if legalName name = false then (.name, s)
  else if pbf.loadAddress ≠ 0 then (.norelo, s)
  else if pbf.instructionCount = 0 then (.empty, s)
  else if isLoaded s name = true then (.isload, s)
  else
    let r := searchSlots s (slotCount pbf)
    let s := { s with running := r.running }
    if r.tval = 0 then (.nomem, s)
    else
      let tcb := taskOf name pbf r.tn
      match setProgram sprogram s tcb.loadAddress.toNat pbf.program with
      | some s => nameSlots tcb r.tval r.ftn s
      | .none => (.io, s)

/-! ## Unloading -/

def unloadLoop (all : Bool) (name : List Char) : ℕ → ℕ → Module → Module
  | 0, _, s => s
  | k + 1, i, s =>
    let tn := i + 1
    if all = true ∨ name = (s.tasks tn).name then
      let s := stopTask s tn
      unloadLoop all name k (i + 1) { s with tasks := Function.update s.tasks tn { s.tasks tn with name := [] } }
    else unloadLoop all name k (i + 1) s

def mttLibUnloadTask (s : Module) (name : List Char) : MttLibError × Module :=
  if s.mtt = false then (.init, s)
  else (.none, unloadLoop (name = "ALL".toList) name (lastTask - (firstTask - 1)) (firstTask - 1) s)

/-! ## Histories of calls -/

inductive Call
  | load (sprogram : Bool) (name : List Char) (pbf : ProgramBuf)
  | unload (name : List Char)

def Call.run (s : Module) : Call → MttLibError × Module
  | load sprogram name pbf => mttLibLoadTaskObject sprogram s name pbf
  | unload name => mttLibUnloadTask s name

/-- The states of a history, when all its calls succeed. -/
def history : Module → List Call → Option (List Module)
  | s, [] => some [s]
  | s, c :: calls => match c.run s with
    | (.none, s') => (history s' calls).map (s :: ·)
    | _ => .none

/-- No task has a name, as the driver leaves a new module. -/
def Fresh (s : Module) : Prop := ∀ t, IsTask t → (s.tasks t).name = []

/-! ## What the slots are for -/

def Task.Holds (tcb : Task) (a : ℕ) : Prop :=
  tcb.loadAddress.toNat ≤ a ∧ a < tcb.loadAddress.toNat + tcb.instructionCount.toNat

instance (tcb : Task) (a : ℕ) : Decidable (tcb.Holds a) := inferInstanceAs (Decidable (_ ∧ _))

def InSlot (t a : ℕ) : Prop := maxSize * (t - 1) ≤ a ∧ a < maxSize * (t - 1) + maxSize

def Loaded (s : Module) (t : ℕ) : Prop := IsTask t ∧ (s.tasks t).name ≠ []

/-- Programs of different names share no instruction, stay in the program memory, and in the slots of
their name. -/
structure Separated (s : Module) : Prop where
  disjoint : ∀ t u, Loaded s t → Loaded s u → (s.tasks t).name ≠ (s.tasks u).name →
    ∀ a, (s.tasks t).Holds a → ¬ (s.tasks u).Holds a
  below : ∀ t, Loaded s t → ∀ a, (s.tasks t).Holds a → a < instructions
  inSlots : ∀ t, Loaded s t → ∀ a, (s.tasks t).Holds a →
    ∃ u, IsTask u ∧ (s.tasks u).name = (s.tasks t).name ∧ InSlot u a

/-- There are free slots in a row for all instructions of the program. -/
def HasRoom (s : Module) (pbf : ProgramBuf) : Prop :=
  ∃ ftn, firstTask ≤ ftn ∧ ftn + (pbf.instructionCount.toNat + (maxSize - 1)) / maxSize ≤ lastTask + 1 ∧
    ∀ t, ftn ≤ t → t < ftn + (pbf.instructionCount.toNat + (maxSize - 1)) / maxSize → (s.tasks t).name = []

def Call.HasRoom (s : Module) : Call → Prop
  | load _ _ pbf => Mttn.HasRoom s pbf
  | unload _ => True

/-- The program fits in one slot. -/
def Call.Short : Call → Prop
  | load _ _ pbf => pbf.instructionCount.toNat ≤ maxSize
  | unload _ => True

/-! ## The search -/

/-- The tasks that a search counts: free ones in a row, the last one where the search stands. -/
def Search.Row (tasks : ℕ → Task) (r : Search) : Prop :=
  1 ≤ r.ftn ∧ r.ftn + r.tval = r.tn + 1 ∧ ∀ t, r.ftn ≤ t → t ≤ r.tn → (tasks t).name = []

theorem row_step {tasks : ℕ → Task} {r : Search} {i : ℕ} (htn : r.tn = i) (hrow : r.tval = 0 ∨ r.Row tasks)
    (hfree : (tasks (i + 1)).name = []) (running : ℕ → Bool) :
    Search.Row tasks ⟨if r.tval = 0 then i + 1 else r.ftn, i + 1, r.tval + 1, running⟩ := by
  by_cases hzero : r.tval = 0
  · rw [if_pos hzero, hzero]
    refine ⟨Nat.le_add_left 1 i, rfl, ?_⟩
    intro t hlo hhi
    obtain rfl : t = i + 1 := by simp only at hlo hhi; omega
    exact hfree
  · obtain ⟨hone, hsum, hnames⟩ := hrow.resolve_left hzero
    rw [if_neg hzero]
    refine ⟨hone, by simp only; omega, ?_⟩
    intro t hlo hhi
    by_cases ht : t = i + 1
    · rw [ht]
      exact hfree
    · exact hnames t hlo (by simp only at hhi; omega)

/-- The search stops at the first row of `tcnt` tasks, or at the last task with the row that ends there. -/
theorem findSlots_spec {tasks : ℕ → Task} {tcnt : ℕ} (htcnt : 0 < tcnt) (k i : ℕ) (r : Search) (htn : r.tn = i)
    (hlt : r.tval < tcnt) (hrow : r.tval = 0 ∨ r.Row tasks) :
    ((findSlots tasks tcnt k i r).tval = 0 ∨ (findSlots tasks tcnt k i r).Row tasks) ∧
    (findSlots tasks tcnt k i r).tn ≤ i + k ∧
    ((findSlots tasks tcnt k i r).tval = tcnt ∨
      (findSlots tasks tcnt k i r).tval < tcnt ∧ (findSlots tasks tcnt k i r).tn = i + k) := by
  induction k generalizing i r with
  | zero =>
    rw [findSlots]
    exact ⟨hrow, by omega, .inr ⟨hlt, htn⟩⟩
  | succ k ih =>
    have hk : i + (k + 1) = i + 1 + k := by omega
    rw [findSlots, hk]
    by_cases hfree : (tasks (i + 1)).name = []
    · have hstep := row_step htn hrow hfree (Function.update r.running (i + 1) false)
      simp only [if_pos hfree]
      by_cases hstop : tcnt ≤ r.tval + 1
      · rw [if_pos hstop]
        exact ⟨.inr hstep, by simp only; omega, .inl (by simp only; omega)⟩
      · rw [if_neg hstop]
        exact ih (i + 1) _ rfl (by simp only; omega) (.inr hstep)
    · simp only [if_neg hfree]
      exact ih (i + 1) _ rfl htcnt (.inl rfl)

theorem searchSlots_spec (s : Module) {tcnt : ℕ} (htcnt : 0 < tcnt) :
    ((searchSlots s tcnt).tval = 0 ∨ (searchSlots s tcnt).Row s.tasks) ∧ (searchSlots s tcnt).tn ≤ lastTask ∧
    ((searchSlots s tcnt).tval = tcnt ∨
      (searchSlots s tcnt).tval < tcnt ∧ (searchSlots s tcnt).tn = lastTask) :=
  findSlots_spec htcnt _ _ _ rfl htcnt (.inl rfl)

theorem slotCount_pos (pbf : ProgramBuf) : 0 < slotCount pbf := Nat.succ_pos _

theorem nameSlots_spec (tcb : Task) (k t : ℕ) (s : Module) (hfirst : firstTask ≤ t) (hlast : t + k ≤ lastTask + 1) :
    nameSlots tcb k t s =
      (.none, { s with tasks := fun u => if t ≤ u ∧ u < t + k then tcb else s.tasks u }) := by
  induction k generalizing t s with
  | zero =>
    have hnone : (fun u => if t ≤ u ∧ u < t + 0 then tcb else s.tasks u) = s.tasks := by
      funext u
      exact if_neg (by omega)
    rw [nameSlots, hnone]
  | succ k ih =>
    have htask : IsTask t := ⟨hfirst, by omega⟩
    rw [nameSlots, setTcb, if_pos htask]
    simp only
    rw [ih (t + 1) _ (by omega) (by omega)]
    congr 2
    funext u
    by_cases hu : u = t
    · rw [hu, if_neg (by omega), if_pos (by omega)]
      exact Function.update_self ..
    · by_cases hin : t + 1 ≤ u ∧ u < t + 1 + k
      · rw [if_pos hin, if_pos (by omega)]
      · rw [if_neg hin, if_neg (by omega)]
        exact Function.update_of_ne hu ..

theorem isLoaded_iff {s : Module} {name : List Char} :
    isLoaded s name = true ↔ ∃ t, IsTask t ∧ (s.tasks t).name = name := by
  unfold isLoaded IsTask
  simp only [List.any_eq_true, List.mem_range'_1, decide_eq_true_eq]
  constructor
  · rintro ⟨t, ⟨hlo, hhi⟩, hname⟩
    exact ⟨t, ⟨hlo, by unfold firstTask lastTask at *; omega⟩, hname⟩
  · rintro ⟨t, ⟨hlo, hhi⟩, hname⟩
    exact ⟨t, ⟨hlo, by unfold firstTask lastTask at *; omega⟩, hname⟩

/-! ## What a call does -/

/-- The state after a program was loaded behind the tasks `ftn` to `tn`. -/
structure LoadedAt (s s' : Module) (name : List Char) (pbf : ProgramBuf) (ftn tn : ℕ) : Prop where
  legal : legalName name = true
  relocatable : pbf.loadAddress = 0
  nonempty : pbf.instructionCount ≠ 0
  isNew : ∀ t, IsTask t → (s.tasks t).name ≠ name
  first : firstTask ≤ ftn
  order : ftn ≤ tn
  last : tn ≤ lastTask
  free : ∀ t, ftn ≤ t → t ≤ tn → (s.tasks t).name = []
  count : tn + 1 - ftn = slotCount pbf ∨ tn + 1 - ftn < slotCount pbf ∧ tn = lastTask
  tasks : ∀ t, s'.tasks t = if ftn ≤ t ∧ t ≤ tn then taskOf name pbf tn else s.tasks t

/-- A load that fails leaves the tasks and the program memory; one that succeeds has found free tasks. -/
def LoadOutcome (s : Module) (name : List Char) (pbf : ProgramBuf) (out : MttLibError × Module) : Prop :=
  (out.1 ≠ .none ∧ out.2.tasks = s.tasks ∧ out.2.programMem = s.programMem) ∨
    (out.1 = .none ∧ ∃ ftn tn, LoadedAt s out.2 name pbf ftn tn)

theorem LoadOutcome.refused {s : Module} {name : List Char} {pbf : ProgramBuf} {err : MttLibError}
    (herr : err ≠ .none) (running : ℕ → Bool) : LoadOutcome s name pbf (err, { s with running := running }) :=
  .inl ⟨herr, rfl, rfl⟩

theorem mttLibLoadTaskObject_outcome (sprogram : Bool) (s : Module) (name : List Char) (pbf : ProgramBuf) :
    LoadOutcome s name pbf (mttLibLoadTaskObject sprogram s name pbf) := by
  unfold mttLibLoadTaskObject
  by_cases hmtt : s.mtt = false
  · rw [if_pos hmtt]
    exact .refused (by decide) s.running
  by_cases hname : legalName name = false
  · rw [if_neg hmtt, if_pos hname]
    exact .refused (by decide) s.running
  by_cases hload : pbf.loadAddress ≠ 0
  · rw [if_neg hmtt, if_neg hname, if_pos hload]
    exact .refused (by decide) s.running
  by_cases hcount : pbf.instructionCount = 0
  · rw [if_neg hmtt, if_neg hname, if_neg hload, if_pos hcount]
    exact .refused (by decide) s.running
  by_cases hloaded : isLoaded s name = true
  · rw [if_neg hmtt, if_neg hname, if_neg hload, if_neg hcount, if_pos hloaded]
    exact .refused (by decide) s.running
  rw [if_neg hmtt, if_neg hname, if_neg hload, if_neg hcount, if_neg hloaded]
  obtain ⟨hrow, hlast, hstop⟩ := searchSlots_spec s (slotCount_pos pbf)
  generalize searchSlots s (slotCount pbf) = r at hrow hlast hstop
  by_cases hzero : r.tval = 0
  · simp only [if_pos hzero]
    exact .refused (by decide) r.running
  simp only [if_neg hzero]
  cases sprogram with
  | false => exact .refused (by decide) r.running
  | true =>
    obtain ⟨hfirst, hsum, hfree⟩ := hrow.resolve_left hzero
    rw [setProgram, if_pos rfl]
    simp only
    rw [nameSlots_spec _ _ _ _ hfirst (by omega)]
    refine .inr ⟨rfl, r.ftn, r.tn, ?_⟩
    refine ⟨by simpa using hname, by simpa using hload, hcount, ?_, hfirst, by omega, hlast, hfree, by omega, ?_⟩
    · intro t ht heq
      exact hloaded (isLoaded_iff.mpr ⟨t, ht, heq⟩)
    · intro t
      have hiff : r.ftn ≤ t ∧ t < r.ftn + r.tval ↔ r.ftn ≤ t ∧ t ≤ r.tn := by omega
      simp only [hiff]

theorem unloadLoop_tasks (all : Bool) (name : List Char) (k i : ℕ) (s : Module) (t : ℕ) :
    (unloadLoop all name k i s).tasks t = s.tasks t ∨
      ((unloadLoop all name k i s).tasks t).name = [] := by
  induction k generalizing i s with
  | zero => exact .inl rfl
  | succ k ih =>
    rw [unloadLoop]
    split
    · obtain hsame | hfree := ih (i + 1)
        { stopTask s (i + 1) with
          tasks := Function.update s.tasks (i + 1) { s.tasks (i + 1) with name := [] } }
      · by_cases ht : t = i + 1
        · refine .inr ?_
          simp only [stopTask] at hsame ⊢
          rw [hsame, ht, Function.update_self]
        · refine .inl ?_
          simp only [stopTask] at hsame ⊢
          rw [hsame, Function.update_of_ne ht]
      · exact .inr hfree
    · exact ih (i + 1) s

theorem mttLibUnloadTask_tasks (s : Module) (name : List Char) (t : ℕ) :
    (mttLibUnloadTask s name).2.tasks t = s.tasks t ∨ ((mttLibUnloadTask s name).2.tasks t).name = [] := by
  unfold mttLibUnloadTask
  split
  · exact .inl rfl
  · exact unloadLoop_tasks _ name _ _ s t

/-! ## Short programs -/

/-- Every loaded program is in the slot of its own task. -/
def OwnSlots (s : Module) : Prop :=
  ∀ t, Loaded s t → (s.tasks t).loadAddress.toNat = maxSize * (t - 1) ∧ (s.tasks t).instructionCount.toNat ≤ maxSize

theorem inSlot_of_ownSlots {s : Module} (h : OwnSlots s) {t a : ℕ} (ht : Loaded s t) (ha : (s.tasks t).Holds a) :
    InSlot t a := by
  obtain ⟨hload, hcount⟩ := h t ht
  unfold Task.Holds at ha
  unfold InSlot
  omega

theorem inSlot_unique {t u a : ℕ} (ht : firstTask ≤ t) (hu : firstTask ≤ u) (hat : InSlot t a) (hau : InSlot u a) :
    t = u := by
  unfold InSlot maxSize at hat hau
  unfold firstTask at ht hu
  omega

theorem separated_of_ownSlots {s : Module} (h : OwnSlots s) : Separated s where
  disjoint := by
    intro t u ht hu hne a hat hau
    have heq := inSlot_unique ht.1.1 hu.1.1 (inSlot_of_ownSlots h ht hat) (inSlot_of_ownSlots h hu hau)
    rw [heq] at hne
    exact hne rfl
  below := by
    intro t ht a ha
    have hslot := inSlot_of_ownSlots h ht ha
    have hlast : t ≤ lastTask := ht.1.2
    unfold InSlot maxSize at hslot
    unfold lastTask at hlast
    unfold instructions
    omega
  inSlots := fun t ht a ha => ⟨t, ht.1, rfl, inSlot_of_ownSlots h ht ha⟩

theorem taskOf_loadAddress (name : List Char) (pbf : ProgramBuf) {tn : ℕ} (h : tn ≤ lastTask) :
    (taskOf name pbf tn).loadAddress.toNat = maxSize * (tn - 1) := by
  have hlt : maxSize * (tn - 1) < 2^32 := by
    unfold lastTask at h
    unfold maxSize
    omega
  unfold taskOf
  rw [BitVec.toNat_ofNat, Nat.mod_eq_of_lt hlt]

theorem LoadedAt.one_slot {s s' : Module} {name : List Char} {pbf : ProgramBuf} {ftn tn : ℕ}
    (h : LoadedAt s s' name pbf ftn tn) (hshort : pbf.instructionCount.toNat ≤ maxSize) : ftn = tn := by
  have hone : slotCount pbf = 1 := by
    unfold slotCount
    rw [Nat.div_eq_of_lt (by omega)]
  have hcount := h.count
  have horder := h.order
  omega

theorem LoadedAt.ownSlots {s s' : Module} {name : List Char} {pbf : ProgramBuf} {ftn tn : ℕ}
    (h : LoadedAt s s' name pbf ftn tn) (hshort : pbf.instructionCount.toNat ≤ maxSize) (hown : OwnSlots s) :
    OwnSlots s' := by
  have hone := h.one_slot hshort
  intro t ht
  have htask := h.tasks t
  by_cases hin : ftn ≤ t ∧ t ≤ tn
  · rw [if_pos hin] at htask
    obtain rfl : t = tn := by omega
    rw [htask, taskOf_loadAddress name pbf h.last]
    exact ⟨rfl, hshort⟩
  · rw [if_neg hin] at htask
    rw [htask]
    exact hown t ⟨ht.1, by rw [← htask]; exact ht.2⟩

theorem LoadedAt.hasRoom {s s' : Module} {name : List Char} {pbf : ProgramBuf} {ftn tn : ℕ}
    (h : LoadedAt s s' name pbf ftn tn) (hshort : pbf.instructionCount.toNat ≤ maxSize) : HasRoom s pbf := by
  have hone := h.one_slot hshort
  have hfirst := h.first
  have hlast := h.last
  have hslots : (pbf.instructionCount.toNat + (maxSize - 1)) / maxSize ≤ 1 := by
    unfold maxSize at *
    omega
  refine ⟨ftn, hfirst, by omega, ?_⟩
  intro t hlo hhi
  exact h.free t hlo (by omega)

/-- A program that is longer than a slot runs out of the slots that carry its name. -/
theorem LoadedAt.not_separated {s s' : Module} {name : List Char} {pbf : ProgramBuf} {ftn tn : ℕ}
    (h : LoadedAt s s' name pbf ftn tn) (hlong : ¬ pbf.instructionCount.toNat ≤ maxSize) : ¬ Separated s' := by
  intro hsep
  have hfirst := h.first
  have horder := h.order
  have hlast := h.last
  have htn := h.tasks tn
  rw [if_pos ⟨horder, le_refl tn⟩] at htn
  have hname : name ≠ [] := by
    intro hnil
    have hlegal := h.legal
    rw [hnil] at hlegal
    exact absurd hlegal (by decide)
  have hloaded : Loaded s' tn := ⟨⟨by omega, hlast⟩, by rw [htn]; exact hname⟩
  have hload := taskOf_loadAddress name pbf hlast
  have hone : 1 ≤ tn := le_trans hfirst horder
  have hholds : (s'.tasks tn).Holds (maxSize * tn) := by
    rw [htn]
    have hcount : (taskOf name pbf tn).instructionCount.toNat = pbf.instructionCount.toNat := rfl
    unfold Task.Holds
    rw [hload, hcount]
    unfold maxSize at *
    omega
  obtain ⟨u, hu, hsame, hslot⟩ := hsep.inSlots tn hloaded (maxSize * tn) hholds
  have hnext : u = tn + 1 := by
    have hfirstu : firstTask ≤ u := hu.1
    unfold InSlot maxSize at hslot
    unfold firstTask at hfirstu
    omega
  have htask := h.tasks u
  rw [if_neg (by omega)] at htask
  rw [htask, htn] at hsame
  exact h.isNew u hu hsame

/-! ## Histories -/

theorem Call.run_load {s s' : Module} {sprogram : Bool} {name : List Char} {pbf : ProgramBuf}
    (h : (Call.load sprogram name pbf).run s = (.none, s')) : ∃ ftn tn, LoadedAt s s' name pbf ftn tn := by
  have hout := mttLibLoadTaskObject_outcome sprogram s name pbf
  change mttLibLoadTaskObject sprogram s name pbf = _ at h
  rw [h] at hout
  obtain ⟨hne, -⟩ | ⟨-, hloaded⟩ := hout
  · exact absurd rfl hne
  · exact hloaded

theorem Call.run_ownSlots {s s' : Module} {c : Call} (h : c.run s = (.none, s')) (hshort : c.Short)
    (hown : OwnSlots s) : OwnSlots s' := by
  cases c with
  | load sprogram name pbf =>
    obtain ⟨ftn, tn, hloaded⟩ := Call.run_load h
    exact hloaded.ownSlots hshort hown
  | unload name =>
    obtain rfl : (mttLibUnloadTask s name).2 = s' := congrArg Prod.snd h
    intro t ht
    obtain hsame | hfree := mttLibUnloadTask_tasks s name t
    · rw [hsame]
      exact hown t ⟨ht.1, by rw [← hsame]; exact ht.2⟩
    · exact absurd hfree ht.2

theorem Call.run_hasRoom {s s' : Module} {c : Call} (h : c.run s = (.none, s')) (hshort : c.Short) : c.HasRoom s := by
  cases c with
  | load sprogram name pbf =>
    obtain ⟨ftn, tn, hloaded⟩ := Call.run_load h
    exact hloaded.hasRoom hshort
  | unload name => trivial

theorem Call.short_of_separated {s s' : Module} {c : Call} (h : c.run s = (.none, s')) (hsep : Separated s') :
    c.Short := by
  cases c with
  | load sprogram name pbf =>
    obtain ⟨ftn, tn, hloaded⟩ := Call.run_load h
    by_contra hlong
    exact hloaded.not_separated hlong hsep
  | unload name => trivial

theorem history_cons {s : Module} {c : Call} {calls : List Call} {states : List Module}
    (h : history s (c :: calls) = some states) :
    ∃ s' rest, c.run s = (.none, s') ∧ history s' calls = some rest ∧ states = s :: rest := by
  rw [history] at h
  split at h
  · rename_i s' hrun
    obtain ⟨rest, hrest, heq⟩ := Option.map_eq_some_iff.mp h
    exact ⟨s', rest, hrun, hrest, heq.symm⟩
  · cases h

theorem mem_history {s : Module} {calls : List Call} {states : List Module} (h : history s calls = some states) :
    s ∈ states := by
  cases calls with
  | nil =>
    obtain rfl : [s] = states := Option.some.inj h
    exact List.mem_singleton_self s
  | cons c calls =>
    obtain ⟨s', rest, -, -, rfl⟩ := history_cons h
    exact List.mem_cons_self

theorem history_short {s : Module} {calls : List Call} {states : List Module} (h : history s calls = some states)
    (hown : OwnSlots s) (hshort : ∀ c ∈ calls, c.Short) :
    (∀ s' ∈ states, Separated s') ∧ ∀ p ∈ states.zip calls, p.2.HasRoom p.1 := by
  induction calls generalizing s states with
  | nil =>
    obtain rfl : [s] = states := Option.some.inj h
    refine ⟨?_, by simp⟩
    intro s' hs'
    rw [List.mem_singleton.mp hs']
    exact separated_of_ownSlots hown
  | cons c calls ih =>
    obtain ⟨s', rest, hrun, hrest, rfl⟩ := history_cons h
    have hc : c.Short := hshort c List.mem_cons_self
    obtain ⟨hsep, hroom⟩ := ih hrest (Call.run_ownSlots hrun hc hown) fun c hc => hshort c (List.mem_cons_of_mem _ hc)
    refine ⟨?_, ?_⟩
    · intro u hu
      obtain rfl | hu := List.mem_cons.mp hu
      · exact separated_of_ownSlots hown
      · exact hsep u hu
    · intro p hp
      obtain rfl | hp := List.mem_cons.mp hp
      · exact Call.run_hasRoom hrun hc
      · exact hroom p hp

theorem short_of_history {s : Module} {calls : List Call} {states : List Module} (h : history s calls = some states)
    (hsep : ∀ s' ∈ states, Separated s') : ∀ c ∈ calls, c.Short := by
  induction calls generalizing s states with
  | nil => simp
  | cons c calls ih =>
    obtain ⟨s', rest, hrun, hrest, rfl⟩ := history_cons h
    have hrestsep : ∀ u ∈ rest, Separated u := fun u hu => hsep u (List.mem_cons_of_mem _ hu)
    intro d hd
    obtain rfl | hd := List.mem_cons.mp hd
    · exact Call.short_of_separated hrun (hrestsep s' (mem_history hrest))
    · exact ih hrest hrestsep d hd

/-- In a history of successful calls on a new module the programs stay apart, and each one had room when
it was loaded, exactly when none is longer than a slot. A load that fails writes no program memory, and a
short program is refused where no slot is free. -/
theorem taskMemory_separated_iff {start : Module} (hfresh : Fresh start) {calls : List Call} {states : List Module}
    (h : history start calls = some states) :
    ((∀ s ∈ states, Separated s) ∧ (∀ p ∈ states.zip calls, p.2.HasRoom p.1) ↔ ∀ c ∈ calls, c.Short) ∧
    ∀ s ∈ states, ∀ sprogram name pbf,
      ((mttLibLoadTaskObject sprogram s name pbf).1 ≠ .none →
        (mttLibLoadTaskObject sprogram s name pbf).2.programMem = s.programMem) ∧
      (pbf.instructionCount.toNat ≤ maxSize → ¬ HasRoom s pbf →
        (mttLibLoadTaskObject sprogram s name pbf).1 ≠ .none) := by
  have hown : OwnSlots start := fun t ht => absurd (hfresh t ht.1) ht.2
  refine ⟨⟨fun hall => short_of_history h hall.1, history_short h hown⟩, ?_⟩
  intro s _ sprogram name pbf
  obtain ⟨hne, -, hmem⟩ | ⟨hnone, ftn, tn, hloaded⟩ := mttLibLoadTaskObject_outcome sprogram s name pbf
  · exact ⟨fun _ => hmem, fun _ _ => hne⟩
  · exact ⟨fun hne => absurd hnone hne, fun hshort hroom => absurd (hloaded.hasRoom hshort) hroom⟩

def newModule : Module where
  mtt := true
  tasks := fun _ => ⟨0, 0, 0, 0, 0, []⟩
  running := fun _ => false
  programMem := fun _ => ⟨0, 0, 0, 0, 0⟩

/-- A relocatable program of `n` equal instructions. -/
def noops (n : BitVec 32) : ProgramBuf where
  loadAddress := 0
  instructionCount := n
  program := List.replicate n.toNat ⟨0, 0, 0, 0, 0⟩
  length_program := List.length_replicate

theorem taskMemory_separated_two :
    ∃ states, history newModule [.load true "abc".toList (noops 256), .load true "def".toList (noops 1)] =
      some states ∧ ∀ s ∈ states, Separated s := by
  obtain ⟨states, h⟩ : ∃ states, history newModule
      [.load true "abc".toList (noops 256), .load true "def".toList (noops 1)] = some states :=
    Option.isSome_iff_exists.mp (by decide)
  have hshort : ∀ c ∈ [Call.load true "abc".toList (noops 256), Call.load true "def".toList (noops 1)], c.Short := by
    intro c hc
    obtain rfl | rfl : c = .load true "abc".toList (noops 256) ∨ c = .load true "def".toList (noops 1) := by
      simpa using hc
    · exact Nat.le_refl 256
    · exact Nat.le_of_ble_eq_true rfl
  exact ⟨states, h, ((taskMemory_separated_iff (fun _ _ => rfl) h).1.mpr hshort).1⟩

/-- 257 instructions take two slots, are written from the second one on, and share the third one with
the next program. -/
theorem long_program_overlaps :
    ∃ states, history newModule [.load true "abc".toList (noops 257), .load true "def".toList (noops 1)] =
      some states ∧ ∃ s ∈ states, (s.tasks 2).name = "abc".toList ∧ (s.tasks 3).name = "def".toList ∧
        (s.tasks 2).Holds 512 ∧ (s.tasks 3).Holds 512 := by
  have hrun : (history newModule [.load true "abc".toList (noops 257), .load true "def".toList (noops 1)]).any
      (fun states => states.any fun s => decide ((s.tasks 2).name = "abc".toList ∧
        (s.tasks 3).name = "def".toList ∧ (s.tasks 2).Holds 512 ∧ (s.tasks 3).Holds 512)) = true := by
    decide
  obtain ⟨states, hstates, hany⟩ := (Option.any_eq_true _ _).mp hrun
  obtain ⟨s, hs, hholds⟩ := List.any_eq_true.mp hany
  exact ⟨states, hstates, s, hs, of_decide_eq_true hholds⟩

end HtDrivers.Mttn
