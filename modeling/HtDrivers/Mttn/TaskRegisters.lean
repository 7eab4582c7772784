import HtDrivers.Mttn.Tasks

/-! The local registers of the tasks: the driver sets registers of one task by a mask and gets all of them,
and the library sets and gets one register of a task that it finds by its name. -/
namespace HtDrivers.Mttn
set_option autoImplicit false

/-! ## The driver -/

/-- `MttDrvrLRAM_SIZE`: the local registers of one task. -/
def lramSize : ℕ := 32

def mttDrvrTasks : ℕ := 16

/-- `LocalMem`: for each task, from 0, the registers. -/
abbrev LocalMem := ℕ → ℕ → BitVec 32

structure MttDrvrTaskRegBuf where
  task : BitVec 32
  regMask : BitVec 32
  regVals : ℕ → BitVec 32

/-- `cdcm_iowrite32be` to register `i` of task `t`. -/
def LocalMem.write (mem : LocalMem) (t i : ℕ) (v : BitVec 32) : LocalMem :=
  Function.update mem t (Function.update (mem t) i v)

/-- The loop that sets, with `k` registers left from `i` on. It returns with the first register that it writes. -/
def setLoop (trbuf : MttDrvrTaskRegBuf) (t : ℕ) : ℕ → ℕ → LocalMem → Option LocalMem
  | 0, _, _ => none
  | k + 1, i, mem =>
    let regmask := (1 : BitVec 32) <<< i
    if regmask &&& trbuf.regMask = 0 then setLoop trbuf t k (i + 1) mem
    else some (mem.write t i (trbuf.regVals i))

def getLoop (mem : LocalMem) (t : ℕ) : ℕ → ℕ → (ℕ → BitVec 32) → ℕ → BitVec 32
  | 0, _, regVals => regVals
  | k + 1, i, regVals => getLoop mem t k (i + 1) (Function.update regVals i (mem t i))

/-- Without a result the call fails with `EINVAL`. -/
def mttGsTrvalIoctl (set : Bool) (mem : LocalMem) (trbuf : MttDrvrTaskRegBuf) : Option (LocalMem × MttDrvrTaskRegBuf) :=
  let tasknum := trbuf.task.toInt
  if ¬ (1 ≤ tasknum ∧ tasknum ≤ mttDrvrTasks) then none
  else
    let t := (tasknum - 1).toNat
    if set then (setLoop trbuf t lramSize 0 mem).map fun mem => (mem, trbuf)
    else some (mem, { trbuf with regVals := getLoop mem t lramSize 0 trbuf.regVals, regMask := 0xFFFFFFFF })

/-! ## The library -/

/-- The loop that asks for the name of one task after the other, with `k` tasks left. -/
def findTask (s : Module) (name : List Char) : ℕ → ℕ → Option ℕ
  | 0, _ => none
  | k + 1, i => if name = (s.tasks (i + 1)).name then some (i + 1) else findTask s name k (i + 1)

def taskNamed (s : Module) (name : List Char) : Option ℕ :=
  findTask s name (lastTask - (firstTask - 1)) (firstTask - 1)

/-- `lrb` is what the request on the stack holds before it is filled in. -/
def mttLibSetTaskRegister (s : Module) (lrb : MttDrvrTaskRegBuf) (mem : LocalMem) (name : List Char) (treg : ℕ)
    (val : BitVec 32) : MttLibError × LocalMem :=
  if s.mtt = false then (.init, mem)
  else if lramSize ≤ treg then (.lreg, mem)
  else match taskNamed s name with
    | none => (.noload, mem)
    | some tn =>
      let lrb : MttDrvrTaskRegBuf :=
        ⟨BitVec.ofNat 32 tn, (1 : BitVec 32) <<< treg, Function.update lrb.regVals treg val⟩
      match mttGsTrvalIoctl true mem lrb with
      | none => (.io, mem)
      | some (mem, _) => (.none, mem)

def mttLibGetTaskRegister (s : Module) (lrb : MttDrvrTaskRegBuf) (mem : LocalMem) (name : List Char) (treg : ℕ) :
    Except MttLibError (BitVec 32) :=
  if s.mtt = false then .error .init
  else if lramSize ≤ treg then .error .lreg
  else match taskNamed s name with
    | none => .error .noload
    | some tn =>
      match mttGsTrvalIoctl false mem { lrb with task := BitVec.ofNat 32 tn, regMask := (1 : BitVec 32) <<< treg } with
      | none => .error .io
      | some (_, lrb) => .ok (lrb.regVals treg)

/-! ## What is written -/

/-- A request with this task number that the driver takes. -/
def MttDrvrTaskRegBuf.Legal (trbuf : MttDrvrTaskRegBuf) : Prop := 1 ≤ trbuf.task.toInt ∧ trbuf.task.toInt ≤ mttDrvrTasks

def MttDrvrTaskRegBuf.slot (trbuf : MttDrvrTaskRegBuf) : ℕ := (trbuf.task.toInt - 1).toNat

/-- A set succeeds, writes the registers of the mask and no others, and a get behind it returns them. -/
def SetsMasked (mem : LocalMem) (trbuf : MttDrvrTaskRegBuf) : Prop :=
  ∃ mem', mttGsTrvalIoctl true mem trbuf = some (mem', trbuf) ∧
    (∀ i < lramSize, trbuf.regMask.getLsbD i = true → mem' trbuf.slot i = trbuf.regVals i) ∧
    (∀ t i, ¬ (t = trbuf.slot ∧ trbuf.regMask.getLsbD i = true) → mem' t i = mem t i) ∧
    ∀ buf, buf.task = trbuf.task → ∃ got, mttGsTrvalIoctl false mem' buf = some (mem', got) ∧
      ∀ i < lramSize, trbuf.regMask.getLsbD i = true → got.regVals i = trbuf.regVals i

/-- Register `j` is the lowest one of a mask. -/
def Lowest (mask : BitVec 32) (j : ℕ) : Prop := mask.getLsbD j = true ∧ ∀ i < j, mask.getLsbD i = false

/-- All registers of the mask but the lowest hold their values already. -/
def OthersHold (mem : LocalMem) (trbuf : MttDrvrTaskRegBuf) : Prop :=
  ∀ i j, trbuf.regMask.getLsbD i = true → trbuf.regMask.getLsbD j = true → j < i → mem trbuf.slot i = trbuf.regVals i

section Driver
variable {mem : LocalMem} {trbuf : MttDrvrTaskRegBuf} {t k i j : ℕ}

@[simp] theorem LocalMem.write_self (v : BitVec 32) : mem.write t i v t i = v := by
  rw [write, Function.update_self, Function.update_self]

theorem LocalMem.write_other {t' i' : ℕ} (v : BitVec 32) (h : ¬ (t' = t ∧ i' = i)) :
    mem.write t i v t' i' = mem t' i' := by
  unfold write
  by_cases ht : t' = t
  · have hi : i' ≠ i := fun hi => h ⟨ht, hi⟩
    rw [ht, Function.update_self, Function.update_of_ne hi]
  · rw [Function.update_of_ne ht]

theorem exists_lowest {mask : BitVec 32} (h : mask ≠ 0) : ∃ j < lramSize, Lowest mask j := by
  have hbit := BitVec.getLsbD_true_ctz_of_ne_zero h
  exact ⟨mask.ctz.toNat, BitVec.lt_of_getLsbD hbit, hbit, fun i hi => BitVec.getLsbD_false_of_lt_ctz hi⟩

theorem shiftLeft_eq_twoPow (i : ℕ) : (1 : BitVec 32) <<< i = BitVec.twoPow 32 i := (BitVec.twoPow_eq 32 i).symm

theorem regmask_and_eq_zero {mask : BitVec 32} : (1 : BitVec 32) <<< i &&& mask = 0 ↔ mask.getLsbD i = false := by
  rw [shiftLeft_eq_twoPow, BitVec.twoPow_and]
  by_cases hbit : mask.getLsbD i = true
  · have hi := BitVec.lt_of_getLsbD hbit
    have hone : (BitVec.twoPow 32 i).getLsbD i = true := by simp [hi]
    rw [if_pos hbit, hbit]
    refine iff_of_false (fun hzero => ?_) nofun
    rw [hzero] at hone
    exact absurd hone (by simp)
  · simp [hbit]

/-- The loop writes the lowest register of the mask, and only that one. -/
theorem setLoop_eq (hj : Lowest trbuf.regMask j) (hle : i ≤ j) (hlt : j < i + k) :
    setLoop trbuf t k i mem = some (mem.write t j (trbuf.regVals j)) := by
  induction k generalizing i with
  | zero => omega
  | succ k ih =>
    rw [setLoop]
    obtain rfl | hij := eq_or_lt_of_le hle
    · have hset : ¬ (1 : BitVec 32) <<< i &&& trbuf.regMask = 0 := by
        rw [regmask_and_eq_zero, hj.1]
        exact nofun
      exact if_neg hset
    · rw [if_pos (regmask_and_eq_zero.mpr (hj.2 i hij))]
      exact ih hij (by omega)

theorem getLoop_eq (regVals : ℕ → BitVec 32) (j : ℕ) :
    getLoop mem t k i regVals j = if i ≤ j ∧ j < i + k then mem t j else regVals j := by
  induction k generalizing i regVals with
  | zero =>
    rw [getLoop, if_neg (by omega)]
  | succ k ih =>
    rw [getLoop, ih]
    by_cases hj : j = i
    · rw [hj, if_neg (by omega), Function.update_self, if_pos (by omega)]
    · rw [Function.update_of_ne hj]
      exact if_congr (by omega) rfl rfl

theorem set_eq (h : trbuf.Legal) (hj : Lowest trbuf.regMask j) (hlt : j < lramSize) :
    mttGsTrvalIoctl true mem trbuf = some (mem.write trbuf.slot j (trbuf.regVals j), trbuf) := by
  unfold mttGsTrvalIoctl
  rw [if_neg (not_not.mpr ⟨h.1, h.2⟩), if_pos rfl]
  exact congrArg (Option.map _) (setLoop_eq hj (Nat.zero_le j) (by omega))

theorem get_eq (mem : LocalMem) (h : trbuf.Legal) : ∃ got, mttGsTrvalIoctl false mem trbuf = some (mem, got) ∧
    ∀ i < lramSize, got.regVals i = mem trbuf.slot i := by
  unfold mttGsTrvalIoctl
  rw [if_neg (not_not.mpr ⟨h.1, h.2⟩), if_neg Bool.false_ne_true]
  refine ⟨_, rfl, fun i hi => ?_⟩
  have hin : 0 ≤ i ∧ i < 0 + lramSize := by omega
  exact (getLoop_eq trbuf.regVals i).trans (if_pos hin)

theorem othersHold_of_setsMasked (h : trbuf.Legal) (hmask : trbuf.regMask ≠ 0) (hsets : SetsMasked mem trbuf) :
    OthersHold mem trbuf := by
  obtain ⟨j, hlt, hj⟩ := exists_lowest hmask
  obtain ⟨mem', hmem', hwritten, -⟩ := hsets
  intro i b hi hb hbi
  have heq : mem.write trbuf.slot j (trbuf.regVals j) = mem' :=
    congrArg Prod.fst (Option.some.inj ((set_eq h hj hlt).symm.trans hmem'))
  have hjb : j ≤ b := by
    by_contra hnot
    rw [hj.2 b (by omega)] at hb
    cases hb
  rw [← hwritten i (BitVec.lt_of_getLsbD hi) hi, ← heq, LocalMem.write_other]
  omega

theorem write_lowest (hj : Lowest trbuf.regMask j) (hold : OthersHold mem trbuf) (hi : trbuf.regMask.getLsbD i = true) :
    mem.write trbuf.slot j (trbuf.regVals j) trbuf.slot i = trbuf.regVals i := by
  by_cases hij : i = j
  · rw [hij, LocalMem.write_self]
  · have hji : j < i := by
      by_contra hnot
      rw [hj.2 i (by omega)] at hi
      cases hi
    rw [LocalMem.write_other _ (fun hsame => hij hsame.2)]
    exact hold i j hi hj.1 hji

/-- A set does what it is asked for exactly when all registers of the mask but the lowest hold their values. -/
theorem setsMasked_iff (h : trbuf.Legal) (hmask : trbuf.regMask ≠ 0) : SetsMasked mem trbuf ↔ OthersHold mem trbuf := by
  refine ⟨othersHold_of_setsMasked h hmask, fun hold => ?_⟩
  obtain ⟨j, hlt, hj⟩ := exists_lowest hmask
  refine ⟨_, set_eq h hj hlt, fun i _ hbit => write_lowest hj hold hbit, ?_, ?_⟩
  · intro t i hother
    apply LocalMem.write_other
    rintro ⟨rfl, rfl⟩
    exact hother ⟨rfl, hj.1⟩
  · intro buf hbuf
    have hslot : buf.slot = trbuf.slot := by
      unfold MttDrvrTaskRegBuf.slot
      rw [hbuf]
    have hlegal : buf.Legal := by
      unfold MttDrvrTaskRegBuf.Legal
      rw [hbuf]
      exact h
    obtain ⟨got, hgot, hvals⟩ := get_eq (mem.write trbuf.slot j (trbuf.regVals j)) hlegal
    refine ⟨got, hgot, fun i hi hbit => ?_⟩
    rw [hvals i hi, hslot]
    exact write_lowest hj hold hbit

/-- Register 4 of task 16. -/
theorem setsMasked_register :
    SetsMasked (fun _ _ => 0) ⟨16, 0x10, fun _ => 7⟩ := by
  refine (setsMasked_iff ⟨by decide, by decide⟩ (by decide)).mpr ?_
  intro i b hi hb hbi
  have hone : ∀ i : ℕ, (0x10 : BitVec 32).getLsbD i = true → i = 4 := by
    intro i hi
    have hlt := BitVec.lt_of_getLsbD hi
    interval_cases i <;> first | rfl | cases hi
  rw [hone i hi, hone b hb] at hbi
  omega

/-- With two registers in the mask, the second one is not written. -/
theorem set_two_registers :
    ¬ ∀ (mem : LocalMem) (trbuf : MttDrvrTaskRegBuf), trbuf.Legal → trbuf.regMask ≠ 0 → SetsMasked mem trbuf := by
  intro h
  have hlegal : MttDrvrTaskRegBuf.Legal ⟨1, 3, fun _ => 1⟩ := ⟨by decide, by decide⟩
  have hmask : (3 : BitVec 32) ≠ 0 := by decide
  have hold := othersHold_of_setsMasked hlegal hmask (h (fun _ _ => 0) _ hlegal hmask) 1 0 rfl rfl (by decide)
  exact absurd hold (by decide)

end Driver

/-! ## One register of a task -/

section Library
variable {s : Module} {lrb : MttDrvrTaskRegBuf} {mem : LocalMem} {name : List Char} {k i tn treg : ℕ} {val : BitVec 32}

theorem findTask_spec (h : findTask s name k i = some tn) : (s.tasks tn).name = name ∧ i < tn ∧ tn ≤ i + k := by
  induction k generalizing i with
  | zero => cases h
  | succ k ih =>
    rw [findTask] at h
    by_cases hname : name = (s.tasks (i + 1)).name
    · rw [if_pos hname] at h
      rw [← Option.some.inj h]
      exact ⟨hname.symm, by omega, by omega⟩
    · rw [if_neg hname] at h
      obtain ⟨htn, hlo, hhi⟩ := ih h
      exact ⟨htn, by omega, by omega⟩

theorem taskNamed_isTask (h : taskNamed s name = some tn) : IsTask tn := by
  obtain ⟨-, hlo, hhi⟩ := findTask_spec h
  exact ⟨hlo, hhi⟩

theorem toInt_task (h : IsTask tn) : (BitVec.ofNat 32 tn).toInt = tn := by
  have hle : tn ≤ 16 := h.2
  rw [BitVec.toInt_eq_toNat_cond, BitVec.toNat_ofNat]
  omega

theorem lowest_shiftLeft (h : treg < lramSize) : Lowest ((1 : BitVec 32) <<< treg) treg := by
  have hlt : treg < 32 := h
  rw [shiftLeft_eq_twoPow]
  refine ⟨by simp [hlt], fun i hi => ?_⟩
  have hne : treg ≠ i := by omega
  simp [BitVec.getLsbD_twoPow, hne]

/-- A register that the library sets is the only one that changes, and the library reads it back. -/
theorem mttLibSetTaskRegister_spec (hmtt : s.mtt = true) (htreg : treg < lramSize) (htn : taskNamed s name = some tn) :
    mttLibSetTaskRegister s lrb mem name treg val = (.none, mem.write (tn - 1) treg val) ∧
      ∀ lrb', mttLibGetTaskRegister s lrb' (mem.write (tn - 1) treg val) name treg = .ok val := by
  have htask := taskNamed_isTask htn
  have hint := toInt_task htask
  have hlegal : ∀ mask vals, MttDrvrTaskRegBuf.Legal ⟨BitVec.ofNat 32 tn, mask, vals⟩ := by
    intro mask vals
    obtain ⟨hlo, hhi⟩ := htask
    unfold MttDrvrTaskRegBuf.Legal
    rw [hint]
    exact ⟨by exact_mod_cast hlo, by exact_mod_cast hhi⟩
  have hslot : ∀ mask vals, MttDrvrTaskRegBuf.slot ⟨BitVec.ofNat 32 tn, mask, vals⟩ = tn - 1 := by
    intro mask vals
    unfold MttDrvrTaskRegBuf.slot
    rw [hint]
    omega
  have hopen : ¬ s.mtt = false := by
    rw [hmtt]
    exact nofun
  constructor
  · unfold mttLibSetTaskRegister
    rw [if_neg hopen, if_neg (not_le.mpr htreg), htn]
    simp only [set_eq (hlegal _ _) (lowest_shiftLeft htreg) htreg, hslot, Function.update_self]
  · intro lrb'
    obtain ⟨got, hgot, hvals⟩ := get_eq (mem.write (tn - 1) treg val) (hlegal ((1 : BitVec 32) <<< treg) lrb'.regVals)
    unfold mttLibGetTaskRegister
    rw [if_neg hopen, if_neg (not_le.mpr htreg), htn]
    simp only [hgot]
    rw [hvals treg htreg, hslot, LocalMem.write_self]

end Library

end HtDrivers.Mttn
