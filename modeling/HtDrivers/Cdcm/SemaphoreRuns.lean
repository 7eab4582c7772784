import HtDrivers.Cdcm.Semaphore

/-! The wait list and the calls agree in every run in which no thread is stopped while it waits. -/
namespace HtDrivers.Cdcm
open Lib.Transition
set_option autoImplicit false

section Calls
variable {T : Type} {calls : List (DownCall T)} {i j : ℕ} {call : DownCall T}

/-- The calls with a status. -/
def tallyStatus (status : CallStatus) (calls : List (DownCall T)) : ℕ := calls.countP fun call => call.status = status

theorem tallyStatus_append (status : CallStatus) (calls : List (DownCall T)) (call : DownCall T) :
    tallyStatus status (calls ++ [call]) = tallyStatus status calls + if call.status = status then 1 else 0 := by
  simp [tallyStatus, List.countP_append, List.countP_singleton]

theorem tallyStatus_modify (status : CallStatus) (f : DownCall T → DownCall T) (h : calls[i]? = some call) :
    tallyStatus status (calls.modify i f) + (if call.status = status then 1 else 0) =
      tallyStatus status calls + if (f call).status = status then 1 else 0 := by
  unfold tallyStatus
  induction calls generalizing i with
  | nil => simp at h
  | cons first calls ih =>
    cases i with
    | zero =>
      obtain rfl : first = call := by simpa using h
      rw [List.modify_zero_cons, List.countP_cons, List.countP_cons]
      simp only [decide_eq_true_eq]
      omega
    | succ i =>
      rw [List.getElem?_cons_succ] at h
      have hrest := ih h
      rw [List.modify_succ_cons, List.countP_cons, List.countP_cons]
      omega

theorem tallyStatus_set (status : CallStatus) (new : CallStatus) (h : calls[i]? = some call) :
    tallyStatus status (setStatus calls i new) + (if call.status = status then 1 else 0) =
      tallyStatus status calls + if new = status then 1 else 0 :=
  tallyStatus_modify status _ h

/-- A call that waits is granted as its status says. -/
theorem grant_waiting (h : calls[i]? = some call) (hwaiting : call.status = .waiting) :
    grant calls i = setStatus calls i .granted := by
  unfold grant setStatus
  apply List.ext_getElem?
  intro j
  rw [List.getElem?_modify, List.getElem?_modify]
  by_cases hj : i = j
  · subst hj
    rw [h]
    simp [hwaiting]
  · simp [hj]

theorem setStatus_get (new : CallStatus) (h : calls[i]? = some call) :
    (setStatus calls i new)[j]? = if j = i then some { call with status := new } else calls[j]? := by
  unfold setStatus
  by_cases hj : j = i
  · subst hj
    rw [List.getElem?_modify_eq, h, if_pos rfl]
    rfl
  · rw [if_neg hj, List.getElem?_modify_ne _ _ (Ne.symm hj)]

end Calls

/-! ## The invariant -/

section Invariant
variable {T : Type} {init : BitVec 32} {s s' : SemTasks T} {i : ℕ} {call : DownCall T}

/-- The call is inside and has not been granted. -/
def Waits (s : SemTasks T) (i : ℕ) : Prop := ∃ call, s.calls[i]? = some call ∧ call.status = .waiting

/-- The wait list holds the calls that wait, in the order of their arrivals, and none if the count is positive. -/
structure SemLists (s : SemTasks T) : Prop where
  empty : 0 < s.count → s.waitList = []
  waiters : ∀ i, i ∈ s.waitList ↔ Waits s i
  arrival : s.waitList.Pairwise (· < ·)

structure SemSound (init : BitVec 32) (s : SemTasks T) : Prop extends SemLists s where
  balance : s.resets = 0 → init.toNat + s.signals =
    s.count.toNat + tallyStatus (.returned .ok) s.calls + tallyStatus .granted s.calls

theorem waits_append (new : DownCall T) : Waits { s with calls := s.calls ++ [new] } i ↔
    Waits s i ∨ i = s.calls.length ∧ new.status = .waiting := by
  unfold Waits
  dsimp only
  rcases Nat.lt_trichotomy i s.calls.length with hlt | rfl | hgt
  · rw [List.getElem?_append_left hlt]
    have hne : i ≠ s.calls.length := by omega
    simp [hne]
  · rw [List.getElem?_concat_length, List.getElem?_eq_none (Nat.le_refl _)]
    simp
  · rw [List.getElem?_append_right (by omega), List.getElem?_eq_none (by simp; omega), List.getElem?_eq_none (by omega)]
    have hne : i ≠ s.calls.length := by omega
    simp [hne]

theorem waits_set (new : CallStatus) (h : s.calls[i]? = some call) (j : ℕ) :
    Waits { s with calls := setStatus s.calls i new } j ↔ if j = i then new = .waiting else Waits s j := by
  unfold Waits
  dsimp only
  rw [setStatus_get new h]
  by_cases hj : j = i
  · simp [hj]
  · rw [if_neg hj, if_neg hj]

theorem Waits.lt_length (h : Waits s i) : i < s.calls.length := by
  obtain ⟨call, hcall, -⟩ := h
  exact (List.getElem?_eq_some_iff.mp hcall).1

/-- A call that does not wait joins the others. -/
theorem SemSound.append (h : SemSound init s) (new : DownCall T) (hnew : new.status ≠ .waiting) (count : BitVec 32)
    (hcount : 0 < count → 0 < s.count)
    (hbalance : s.count.toNat = count.toNat + (if new.status = .returned .ok then 1 else 0) +
      if new.status = .granted then 1 else 0) :
    SemSound init { s with count := count, calls := s.calls ++ [new] } := by
  refine ⟨⟨fun hpos => h.empty (hcount hpos), fun i => ?_, h.arrival⟩, fun hresets => ?_⟩
  · show i ∈ s.waitList ↔ Waits { s with calls := s.calls ++ [new] } i
    rw [waits_append, h.waiters]
    simp [hnew]
  · have hs := h.balance hresets
    dsimp only
    rw [tallyStatus_append, tallyStatus_append]
    omega

/-- A call that waits joins the others. -/
theorem SemSound.enqueue (h : SemSound init s) (hcount : s.count = 0) (task : T) (kind : DownKind) :
    SemSound init { s with
      waitList := s.waitList ++ [s.calls.length], calls := s.calls ++ [⟨task, kind, .waiting⟩] } := by
  refine ⟨⟨fun hpos => ?_, fun i => ?_, ?_⟩, fun hresets => ?_⟩
  · dsimp only at hpos
    rw [hcount] at hpos
    exact absurd hpos (by decide)
  · show i ∈ s.waitList ++ [s.calls.length] ↔ Waits { s with calls := s.calls ++ [⟨task, kind, .waiting⟩] } i
    rw [waits_append, List.mem_append, List.mem_singleton, h.waiters]
    simp
  · refine List.pairwise_append.mpr ⟨h.arrival, List.pairwise_singleton _ _, fun i hi j hj => ?_⟩
    obtain rfl := List.mem_singleton.mp hj
    exact ((h.waiters i).mp hi).lt_length
  · have hs := h.balance hresets
    dsimp only
    rw [tallyStatus_append, tallyStatus_append]
    simpa using hs

/-- A call that waits leaves the list. -/
theorem SemSound.unlink (h : SemSound init s) (hcall : s.calls[i]? = some call) (hwaiting : call.status = .waiting)
    {result : Result} (hresult : result ≠ .ok) : SemSound init (unlink s i result) := by
  have hnodup : s.waitList.Nodup := h.arrival.imp fun hlt => Nat.ne_of_lt hlt
  refine ⟨⟨fun hpos => ?_, fun j => ?_, h.arrival.sublist List.erase_sublist⟩, fun hresets => ?_⟩
  · show s.waitList.erase i = []
    rw [h.empty hpos]
    rfl
  · show j ∈ s.waitList.erase i ↔ Waits { s with calls := setStatus s.calls i (.returned result) } j
    rw [waits_set _ hcall, hnodup.mem_erase_iff, h.waiters]
    by_cases hj : j = i <;> simp [hj]
  · have hs := h.balance hresets
    have hok := tallyStatus_set (.returned .ok) (.returned result) hcall
    have hgranted := tallyStatus_set .granted (.returned result) hcall
    simp only [hwaiting, CallStatus.returned.injEq, hresult, reduceCtorEq, if_false, Nat.add_zero] at hok hgranted
    show init.toNat + s.signals = s.count.toNat + tallyStatus (.returned .ok) (setStatus s.calls i (.returned result)) +
      tallyStatus .granted (setStatus s.calls i (.returned result))
    rw [hok, hgranted]
    exact hs

/-- A granted call returns. -/
theorem SemSound.leave (h : SemSound init s) (hcall : s.calls[i]? = some call) (hgranted : call.status = .granted) :
    SemSound init { s with calls := setStatus s.calls i (.returned .ok) } := by
  refine ⟨⟨h.empty, fun j => ?_, h.arrival⟩, fun hresets => ?_⟩
  · rw [waits_set _ hcall]
    show j ∈ s.waitList ↔ _
    rw [h.waiters]
    by_cases hj : j = i
    · subst hj
      simp [Waits, hcall, hgranted]
    · rw [if_neg hj]
  · have hs := h.balance hresets
    have hok := tallyStatus_set (.returned .ok) (.returned .ok) hcall
    have hrest := tallyStatus_set .granted (.returned .ok) hcall
    simp only [hgranted, reduceCtorEq, if_false, if_true, Nat.add_zero] at hok hrest
    dsimp only
    omega

/-- What the first waiter's grant does. -/
theorem upWaiter_cons (h : SemLists s) {rest : List ℕ} (hlist : s.waitList = i :: rest) :
    ∃ call, s.calls[i]? = some call ∧
    call.status = .waiting ∧ upWaiter s = { s with waitList := rest, calls := setStatus s.calls i .granted } := by
  obtain ⟨call, hcall, hwaiting⟩ := (h.waiters i).mp (by rw [hlist]; exact List.mem_cons_self ..)
  refine ⟨call, hcall, hwaiting, ?_⟩
  unfold upWaiter
  rw [hlist]
  dsimp only
  rw [grant_waiting hcall hwaiting]

theorem SemLists.upWaiter (h : SemLists s) : SemLists (upWaiter s) := by
  cases hlist : s.waitList with
  | nil =>
    have hsame : Cdcm.upWaiter s = s := by
      unfold Cdcm.upWaiter
      rw [hlist]
    rw [hsame]
    exact h
  | cons i rest =>
    obtain ⟨call, hcall, -, heq⟩ := upWaiter_cons h hlist
    have harrival := h.arrival
    rw [hlist, List.pairwise_cons] at harrival
    rw [heq]
    refine ⟨fun hpos => ?_, fun j => ?_, harrival.2⟩
    · exact absurd ((h.empty hpos).symm.trans hlist) (List.cons_ne_nil i rest).symm
    · show j ∈ rest ↔ Waits { s with calls := setStatus s.calls i .granted } j
      rw [waits_set _ hcall, ← h.waiters, hlist, List.mem_cons]
      by_cases hj : j = i
      · subst hj
        simpa using fun hmem => Nat.lt_irrefl _ (harrival.1 j hmem)
      · simp [hj]

theorem SemLists.resetCalls (h : SemLists s) : SemLists (resetCalls s) := by
  have hiterate : ∀ n (s : SemTasks T), SemLists s → SemLists (Cdcm.upWaiter^[n] s) := by
    intro n
    induction n with
    | zero => exact fun s hs => hs
    | succ n ih => exact fun s hs => ih _ hs.upWaiter
  unfold Cdcm.resetCalls
  dsimp only
  split
  · exact hiterate _ _ ⟨h.empty, h.waiters, h.arrival⟩
  · refine ⟨fun hpos => ?_, h.waiters, h.arrival⟩
    have hzero : (0 : BitVec 32) < 0 := hpos
    exact absurd hzero (by decide)

theorem resets_upWaiter : ∀ n (s : SemTasks T), (upWaiter^[n] s).resets = s.resets := by
  intro n
  induction n with
  | zero => exact fun _ => rfl
  | succ n ih =>
    intro s
    rw [Function.iterate_succ_apply, ih]
    unfold upWaiter
    split <;> rfl

theorem resets_resetCalls : (resetCalls s).resets = s.resets + 1 := by
  unfold resetCalls
  dsimp only
  split
  · exact resets_upWaiter _ _
  · rfl

/-! ### Signals -/

/-- A signal raises the count by one, or grants the call that waits longest. -/
inductive Signalled (s s' : SemTasks T) : Prop
  | raised (hnone : ∀ i, ¬Waits s i) (hcount : s'.count.toNat = s.count.toNat + 1) (hcalls : s'.calls = s.calls)
  | granted (i : ℕ) (hwaits : Waits s i) (hlongest : ∀ j, Waits s j → i ≤ j) (hcount : s'.count = s.count)
    (hcalls : s'.calls = setStatus s.calls i .granted)

theorem upCall_nil (hlist : s.waitList = []) :
    upCall s = { s with count := s.count + 1, signals := s.signals + 1 } := by
  unfold upCall
  simp only [hlist, List.isEmpty_nil, if_true]

theorem upCall_cons (h : SemLists s) {rest : List ℕ} (hlist : s.waitList = i :: rest) :
    ∃ call, s.calls[i]? = some call ∧ call.status = .waiting ∧
      upCall s = { s with waitList := rest, calls := setStatus s.calls i .granted, signals := s.signals + 1 } := by
  have hs : SemLists { s with signals := s.signals + 1 } := ⟨h.empty, h.waiters, h.arrival⟩
  obtain ⟨call, hcall, hwaiting, heq⟩ := upWaiter_cons hs hlist
  refine ⟨call, hcall, hwaiting, ?_⟩
  have hsome : ¬s.waitList.isEmpty = true := by
    rw [hlist]
    simp
  unfold upCall
  dsimp only
  rw [if_neg hsome, heq]

theorem count_succ (hfits : s.count.toNat + 1 < 2 ^ 32) : (s.count + 1).toNat = s.count.toNat + 1 := by
  rw [BitVec.toNat_add]
  exact Nat.mod_eq_of_lt hfits

theorem upCall_signalled (h : SemLists s) (hfits : s.count.toNat + 1 < 2 ^ 32) : Signalled s (upCall s) := by
  cases hlist : s.waitList with
  | nil =>
    rw [upCall_nil hlist]
    refine .raised (fun i hwaits => ?_) (count_succ hfits) rfl
    have hmem := (h.waiters i).mpr hwaits
    rw [hlist] at hmem
    cases hmem
  | cons i rest =>
    obtain ⟨call, hcall, hwaiting, heq⟩ := upCall_cons h hlist
    have harrival := h.arrival
    rw [hlist, List.pairwise_cons] at harrival
    rw [heq]
    refine .granted i ⟨call, hcall, hwaiting⟩ (fun j hj => ?_) rfl rfl
    have hmem := (h.waiters j).mpr hj
    rw [hlist, List.mem_cons] at hmem
    obtain rfl | hmem := hmem
    · exact Nat.le_refl _
    · exact Nat.le_of_lt (harrival.1 j hmem)

theorem SemSound.upCall (h : SemSound init s) (hfits : s.count.toNat + 1 < 2 ^ 32) : SemSound init (upCall s) := by
  cases hlist : s.waitList with
  | nil =>
    rw [upCall_nil hlist]
    refine ⟨⟨fun _ => hlist, h.waiters, h.arrival⟩, fun hresets => ?_⟩
    have hbalance := h.balance hresets
    dsimp only
    rw [count_succ hfits]
    omega
  | cons i rest =>
    obtain ⟨call, hcall, hwaiting, heq⟩ := upCall_cons h.toSemLists hlist
    have hs : SemLists { s with signals := s.signals + 1 } := ⟨h.empty, h.waiters, h.arrival⟩
    have hlists := hs.upWaiter
    obtain ⟨-, -, -, hup⟩ := upWaiter_cons hs hlist
    rw [hup] at hlists
    rw [heq]
    refine ⟨hlists, fun hresets => ?_⟩
    have hbalance := h.balance hresets
    have hok := tallyStatus_set (.returned .ok) .granted hcall
    have hgranted := tallyStatus_set .granted .granted hcall
    simp only [hwaiting, reduceCtorEq, if_false, if_true, Nat.add_zero] at hok hgranted
    dsimp only
    omega

/-- Signals raise the count by at most their number. -/
theorem SemSound.upCalls (n : ℕ) (h : SemSound init s) (hfits : s.count.toNat + n < 2 ^ 32) :
    SemSound init (Cdcm.upCall^[n] s) := by
  induction n generalizing s with
  | zero => exact h
  | succ n ih =>
    rw [Function.iterate_succ_apply]
    refine ih (h.upCall (by omega)) ?_
    obtain ⟨-, hcount, -⟩ | ⟨i, -, -, hcount, -⟩ := upCall_signalled h.toSemLists (by omega)
    · omega
    · rw [hcount]
      omega

/-! ### Calls -/

theorem SemSound.downLoop (h : SemSound init s) (hcall : s.calls[i]? = some call) (hwaiting : call.status = .waiting)
    (kind : DownKind) (signal expired : Bool) : SemSound init (downLoop s i kind signal expired) := by
  unfold Cdcm.downLoop
  split
  · exact h.unlink hcall hwaiting (by decide)
  split
  · exact h.unlink hcall hwaiting (by decide)
  · exact h

theorem SemSound.downCall (h : SemSound init s) (task : T) (kind : DownKind) (signal expired : Bool) :
    SemSound init (downCall s task kind signal expired) := by
  unfold Cdcm.downCall
  split
  · rename_i hpos
    have hlt : 0 < s.count.toNat := hpos
    have hcount : (s.count - 1).toNat = s.count.toNat - 1 := BitVec.toNat_sub_of_le hlt
    refine h.append ⟨task, kind, .returned .ok⟩ (by simp) (s.count - 1) (fun _ => hpos) ?_
    rw [hcount]
    simp
    omega
  · rename_i hpos
    have hzero : s.count = 0 := by
      apply BitVec.eq_of_toNat_eq
      exact Nat.eq_zero_of_not_pos hpos
    have hlist := h.enqueue hzero task kind
    have hcall : (s.calls ++ [⟨task, kind, .waiting⟩])[s.calls.length]? = some ⟨task, kind, .waiting⟩ :=
      List.getElem?_concat_length
    exact hlist.downLoop hcall rfl kind signal expired

theorem SemSound.trylockCall (h : SemSound init s) (task : T) : SemSound init (trylockCall s task) := by
  unfold Cdcm.trylockCall
  dsimp only
  split
  · rename_i hsign
    have hne : s.count ≠ 0 := by
      intro hzero
      rw [hzero] at hsign
      exact absurd hsign (by decide)
    have hpos : 0 < s.count.toNat := by
      refine Nat.pos_of_ne_zero fun hzero => hne (BitVec.eq_of_toNat_eq hzero)
    have hcount : (s.count - 1).toNat = s.count.toNat - 1 := BitVec.toNat_sub_of_le hpos
    refine h.append ⟨task, .ignore, .returned .ok⟩ (by simp) (s.count - 1) (fun _ => hpos) ?_
    rw [hcount]
    simp
    omega
  · exact h.append ⟨task, .ignore, .returned .failed⟩ (by simp) s.count id (by simp)

/-! ### The calls as a semaphore of `CdcmSem` -/

def SemTasks.sem (s : SemTasks T) : CdcmSem ℕ := ⟨s.count.toNat, s.waitList⟩

theorem upCall_sem (hfits : s.count.toNat + 1 < 2 ^ 32) : (upCall s).sem = (cdcmUp s.sem).1 := by
  unfold SemTasks.sem cdcmUp
  cases hlist : s.waitList with
  | nil =>
    rw [upCall_nil hlist]
    dsimp only
    rw [count_succ hfits, hlist]
  | cons i rest =>
    unfold upCall upWaiter
    simp [hlist]

theorem downCall_sem (task : T) (kind : DownKind) :
    (downCall s task kind false false).sem = (cdcmDown s.sem s.calls.length).1 := by
  unfold downCall cdcmDown SemTasks.sem
  by_cases hpos : 0 < s.count
  · have hlt : 0 < s.count.toNat := hpos
    rw [if_pos hpos, if_pos hlt]
    dsimp only
    congr 1
    exact BitVec.toNat_sub_of_le hlt
  · have hlt : ¬0 < s.count.toNat := hpos
    rw [if_neg hpos, if_neg hlt]
    simp [downLoop]

theorem resetCalls_sem : (resetCalls s).sem = (sreset s.sem).1 := by
  have hiterate : ∀ n (s : SemTasks T), s.waitList.length = n →
      (upWaiter^[n] s).count = s.count ∧ (upWaiter^[n] s).waitList = [] := by
    intro n
    induction n with
    | zero => exact fun s hs => ⟨rfl, List.length_eq_zero_iff.mp hs⟩
    | succ n ih =>
      intro s hs
      obtain ⟨i, rest, hlist⟩ := List.exists_cons_of_length_eq_add_one hs
      have hup : (upWaiter s).count = s.count ∧ (upWaiter s).waitList = rest := by
        unfold upWaiter
        rw [hlist]
        exact ⟨rfl, rfl⟩
      rw [hlist, List.length_cons, Nat.add_right_cancel_iff] at hs
      rw [Function.iterate_succ_apply, ← hup.1]
      exact ih _ (by rw [hup.2, hs])
  unfold resetCalls sreset SemTasks.sem
  dsimp only
  by_cases hzero : s.count = 0
  · obtain ⟨hcount, hlist⟩ := hiterate _ { s with resets := s.resets + 1 } rfl
    rw [if_pos hzero, if_pos (by rw [hzero]; rfl), hcount, hlist]
  · have hne : s.count.toNat ≠ 0 := fun h => hzero (BitVec.eq_of_toNat_eq h)
    rw [if_neg hzero, if_neg hne]
    rfl

end Invariant

/-! ## Runs -/

section Runs
variable {T : Type} [DecidableEq T] {init : BitVec 32} {s s' : SemTasks T}

instance (s : SemTasks T) (i : ℕ) : Decidable (Waits s i) :=
  decidable_of_iff (s.calls[i]?.any fun call => call.status = .waiting) (by simp [Waits, Option.any_eq_true])

/-- No thread sees that it should stop while it waits, and no signal carries the count past its 32 bits. -/
def Unstopped (s : SemTasks T) : SemStep T → Prop
  | .wake i _ _ stop => stop = true → ¬Waits s i
  | .ssignal => s.count.toNat + 1 < 2 ^ 32
  | .ssignaln n => s.count.toNat + n < 2 ^ 32
  | _ => True

instance (s : SemTasks T) (step : SemStep T) : Decidable (Unstopped s step) := by
  cases step <;> unfold Unstopped <;> infer_instance

theorem SemSound.step {step : SemStep T} (h : SemSound init s) (hok : Unstopped s step)
    (hnext : semNext s step = some s') : SemSound init s' := by
  cases step with
  | swait task sigIgnore signal =>
    simp only [semNext, Option.ite_none_right_eq_some, Option.some.injEq] at hnext
    rw [← hnext.2]
    exact h.downCall task _ signal false
  | tswait task sigIgnore interval signal expired =>
    simp only [semNext, Option.ite_none_right_eq_some, Option.some.injEq] at hnext
    rw [← hnext.2]
    unfold tswaitCall
    split
    · exact h.trylockCall task
    split
    · exact h.downCall task _ signal false
    · exact h.downCall task .timeout signal expired
  | wake i signal expired stop =>
    cases hcall : s.calls[i]? with
    | none => simp [semNext, hcall] at hnext
    | some call =>
      simp only [semNext, hcall, Option.ite_none_right_eq_some, Option.some.injEq] at hnext
      obtain ⟨hinside, hs'⟩ := hnext
      rw [← hs']
      unfold wakeCall
      split
      · rename_i hreturns
        have hgranted : call.status = .granted := by
          obtain hgranted | hstop := hreturns
          · exact hgranted
          · exact hinside.resolve_left fun hwaiting => hok hstop ⟨call, hcall, hwaiting⟩
        exact h.leave hcall hgranted
      · rename_i hreturns
        rw [not_or] at hreturns
        exact h.downLoop hcall (hinside.resolve_right hreturns.1) call.kind signal expired
  | ssignal =>
    obtain rfl := Option.some.inj hnext
    exact h.upCall hok
  | ssignaln n =>
    obtain rfl := Option.some.inj hnext
    exact h.upCalls n hok
  | sreset =>
    obtain rfl := Option.some.inj hnext
    refine ⟨h.toSemLists.resetCalls, fun hresets => ?_⟩
    rw [resets_resetCalls] at hresets
    omega

/-- A granted call returns success when it wakes up, whatever else it sees. -/
theorem granted_returns {i : ℕ} {call : DownCall T} (hcall : s.calls[i]? = some call)
    (hgranted : call.status = .granted) (signal expired stop : Bool) :
    semNext s (.wake i signal expired stop) = some { s with calls := setStatus s.calls i (.returned .ok) } := by
  simp only [semNext, hcall, wakeCall, hgranted, or_true, true_or, if_true]

/-- In every state of a run without stopped waiters the count is zero or the wait list empty; the list holds the calls
that wait, by their arrivals; without resets the signals are accounted for, by the count, the calls that have returned
success and those granted that are about to; and a signal raises the count or grants the call that waits longest. -/
theorem semSound_reach (init : BitVec 32) (s : SemTasks T) (h : Reach semNext Unstopped (semInit T init) s) :
    SemSound init s ∧ ∀ s', Unstopped s .ssignal → semNext s .ssignal = some s' → Signalled s s' := by
  have hsound : SemSound init s := by
    refine h.invariant ⟨⟨fun _ => rfl, fun i => ?_, List.Pairwise.nil⟩, fun _ => ?_⟩ ?_
    · simp [semInit, Waits]
    · simp [semInit, tallyStatus]
    · exact fun s step s' hs hok hnext => hs.step hok hnext
  refine ⟨hsound, fun s' hok hnext => ?_⟩
  obtain rfl := Option.some.inj hnext
  exact upCall_signalled hsound.toSemLists hok

end Runs

/-! ## A thread that is stopped -/

section Example

/-- Two tasks wait, one is granted and returns, the other is interrupted. -/
def grantRun : List (SemStep ℕ) :=
  [.tswait 0 true 5 false false, .swait 1 false false, .ssignal, .wake 0 false true false, .wake 1 true false false]

theorem semSound_grantRun : ∃ s : SemTasks ℕ, Reach semNext Unstopped (semInit ℕ 0) s ∧ SemSound 0 s ∧
    s.calls.map DownCall.status = [.returned .ok, .returned .eintr] := by
  obtain ⟨s, hrun⟩ : ∃ s, replay semNext Unstopped (semInit ℕ 0) grantRun = some s := ⟨_, rfl⟩
  have hreach : Reach semNext Unstopped (semInit ℕ 0) s := Reach.of_replay .refl hrun
  refine ⟨s, hreach, (semSound_reach 0 s hreach).1, ?_⟩
  cases hrun
  rfl

/-- A thread that is stopped while it waits returns success, and its waiter stays on the list. -/
theorem not_semSound_stopped : ∃ s : SemTasks ℕ, Reach semNext (fun _ _ => True) (semInit ℕ 0) s ∧
    s.calls.map DownCall.status = [.returned .ok] ∧ s.waitList = [0] ∧ s.signals = 0 ∧ s.resets = 0 ∧
    ¬SemSound 0 s := by
  obtain ⟨s, hrun⟩ : ∃ s, [.swait 0 true false, .wake 0 false false true].foldlM semNext (semInit ℕ 0) = some s :=
    ⟨_, rfl⟩
  have hreach : Reach semNext (fun _ _ => True) (semInit ℕ 0) s := Reach.of_foldlM .refl (fun _ _ _ => trivial) hrun
  cases hrun
  refine ⟨_, hreach, rfl, rfl, rfl, rfl, fun hsound => ?_⟩
  obtain ⟨call, hcall, hwaiting⟩ := (hsound.waiters 0).mp (List.mem_singleton.mpr rfl)
  obtain rfl := Option.some.inj hcall
  cases hwaiting

end Example

end HtDrivers.Cdcm
