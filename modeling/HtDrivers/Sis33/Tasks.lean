import HtDrivers.Lib.Transition
import HtDrivers.Sis33.Card

/-! # Tasks on one card (`sis33_core.c`)

Any number of tasks issue ACQUIRE, FETCH, acq_cancel and n_segments stores, and the work item of the card runs
beside them. A locked section is one step: the flags that it reads as clear are set under the lock only, and what
runs outside the lock does no more than clear them. The operations of a driver take a step for each access.

`T` are the tasks, `H` is the hardware with the private data of the driver, `P` are the places in the operations of
the driver and `E` what the hardware does by itself.
-/
namespace HtDrivers.Sis33
open HtDrivers.Lib.Transition
set_option autoImplicit false

structure Dev (K H : Type) where
  card : Card K
  /-- The completion that `acq_wait` waits for. -/
  completion : Bool
  hw : H

inductive Move (P : Type)
  | goto (p : P)
  | ret (r : Ret)
  deriving DecidableEq, Repr

/-- `sis33_card_ops`, with the work item and the hardware. -/
structure Driver (K H P E : Type) where
  confEv : AcqDesc → H → H
  /-- For the acquisition of that number. -/
  acqStart : ℕ → P
  acqCancel : P
  irqWork : P
  fetch : (segmentNr channelNr nrEvents : ℕ) → P
  step : P → Dev K H → Move P × Dev K H
  hw : E → H → Option H

/-- Where a task is. -/
inductive Pc (P : Type)
  /-- Not in a call, the last one has returned `ret`. -/
  | out (ret : Ret)
  /-- In `acq_wait`, without the lock. -/
  | fetchWait (list : AcqList)
  /-- Before the lock is taken again. -/
  | fetchRelock (list : AcqList)
  | fetching (list : AcqList) (p : P)
  /-- Before `transferring` is cleared. -/
  | fetched (list : AcqList) (ret : Ret)
  | starting (desc : AcqDesc) (p : P)
  | acqWait (desc : AcqDesc)
  | cancelling (p : P)

/-- The operation of the driver that a task is in. -/
def Pc.op {P : Type} : Pc P → Option P
  | .fetching _ p | .starting _ p | .cancelling p => some p
  | _ => none

structure Sys (T K H P : Type) where
  dev : Dev K H
  pc : T → Pc P
  work : Option P

inductive Act (T E : Type)
  | fetch (t : T) (list : AcqList)
  | acquire (t : T) (desc : AcqDesc)
  | store (t : T) (segments : ℤ) (count : ℕ)
  | cancel (t : T)
  /-- The next step of a task. -/
  | step (t : T)
  /-- A signal or the timeout ends a wait. -/
  | interrupted (t : T)
  | timedOut (t : T)
  /-- The next step of the work item. -/
  | work
  | hw (e : E)
  deriving DecidableEq

section Steps
variable {T K H P E : Type} [DecidableEq T]

def Sys.card (s : Sys T K H P) : Card K := s.dev.card

def Sys.goto (s : Sys T K H P) (t : T) (p : Pc P) : Sys T K H P := { s with pc := Function.update s.pc t p }

def Sys.setCard (s : Sys T K H P) (card : Card K) : Sys T K H P := { s with dev := { s.dev with card := card } }

/-- FETCH from where its segment is not found acquiring at first, or from the end of the wait. -/
def fetchClaim (D : Driver K H P E) (s : Sys T K H P) (t : T) (list : AcqList) : Sys T K H P :=
  match fetchCheck s.card list with
  | some e => s.goto t (.out (.error e))
  | none =>
    (s.setCard (setTransferring s.card list.segment true)).goto t
      (.fetching list (D.fetch list.segment list.channel (fetchEvents s.card list)))

def fetchIoctl (l : CardLimits) (D : Driver K H P E) (s : Sys T K H P) (t : T) (list : AcqList) : Sys T K H P :=
  match fetchArgs list with
  | some e => s.goto t (.out (.error e))
  | none =>
    match fetchRange l s.card list with
    | some e => s.goto t (.out (.error e))
    | none =>
      if (s.card.segments list.segment).acquiring then
        if dontwait list.flags then s.goto t (.out (.error .ebusy)) else s.goto t (.fetchWait list)
      else fetchClaim D s t list

def acqStartIoctl (l : CardLimits) (D : Driver K H P E) (s : Sys T K H P) (t : T) (desc : AcqDesc) : Sys T K H P :=
  match acqArgs desc with
  | some e => s.goto t (.out (.error e))
  | none =>
    match acqCheck l s.card desc with
    | some e => s.goto t (.out (.error e))
    | none =>
      { s with dev := { s.dev with card := acqAccept s.card desc, hw := D.confEv desc s.dev.hw } }.goto t
        (.starting desc (D.acqStart (s.card.acqNo + 1)))

def storeNSegments (l : CardLimits) (s : Sys T K H P) (t : T) (segments : ℤ) (count : ℕ) : Sys T K H P :=
  match storeCheck l s.card segments with
  | some e => s.goto t (.out (.error e))
  | none => (s.setCard (setNSegments l s.card segments)).goto t (.out (.value count))

/-- Where a task goes from an operation of the driver. -/
def Pc.after (pc : Pc P) : Move P → Pc P
  | .goto p =>
    match pc with
    | .fetching list _ => .fetching list p
    | .starting desc _ => .starting desc p
    | .cancelling _ => .cancelling p
    | pc => pc
  | .ret r =>
    match pc with
    | .fetching list _ => .fetched list r
    | .starting desc _ => if dontwait desc.flags then .out (.value 0) else .acqWait desc
    | .cancelling _ => .out r
    | pc => pc

/-- The next step of task `t`; `none` while it waits or is in no call. -/
def taskNext (D : Driver K H P E) (s : Sys T K H P) (t : T) : Option (Sys T K H P) :=
  match s.pc t with
  | .out _ => none
  | .fetchWait list => if s.dev.completion then some (s.goto t (.fetchRelock list)) else none
  | .fetchRelock list => some (fetchClaim D s t list)
  | .fetched list ret => some ((s.setCard (setTransferring s.card list.segment false)).goto t (.out ret))
  | .acqWait _ => if s.dev.completion then some (s.goto t (.out (.value 0))) else none
  | .fetching list p =>
    let r := D.step p s.dev
    some ({ s with dev := r.2 }.goto t ((Pc.fetching list p).after r.1))
  | .starting desc p =>
    let r := D.step p s.dev
    some ({ s with dev := r.2 }.goto t ((Pc.starting desc p).after r.1))
  | .cancelling p =>
    let r := D.step p s.dev
    some ({ s with dev := r.2 }.goto t ((Pc.cancelling p).after r.1))

def interruptedNext (s : Sys T K H P) (t : T) : Option (Sys T K H P) :=
  match s.pc t with
  | .fetchWait _ | .fetchRelock _ | .acqWait _ => some (s.goto t (.out (.error .eintr)))
  | _ => none

def timedOutNext (s : Sys T K H P) (t : T) : Option (Sys T K H P) :=
  match s.pc t with
  | .fetchWait list => if timeout list.flags then some (s.goto t (.out (.error .etime))) else none
  | .acqWait desc => if timeout desc.flags then some (s.goto t (.out (.error .etime))) else none
  | _ => none

def Move.work : Move P → Option P
  | .goto p => some p
  | .ret _ => none

def workNext (D : Driver K H P E) (s : Sys T K H P) : Sys T K H P :=
  match s.work with
  | none => { s with work := some D.irqWork }
  | some p =>
    let r := D.step p s.dev
    { s with dev := r.2, work := r.1.work }

/-- A task that is in no call may begin one. -/
def Pc.isOut : Pc P → Bool
  | .out _ => true
  | _ => false

def coreNext (l : CardLimits) (D : Driver K H P E) (s : Sys T K H P) : Act T E → Option (Sys T K H P)
  | .fetch t list => if (s.pc t).isOut then some (fetchIoctl l D s t list) else none
  | .acquire t desc => if (s.pc t).isOut then some (acqStartIoctl l D s t desc) else none
  | .store t segments count => if (s.pc t).isOut then some (storeNSegments l s t segments count) else none
  | .cancel t => if (s.pc t).isOut then some (s.goto t (.cancelling D.acqCancel)) else none
  | .step t => taskNext D s t
  | .interrupted t => interruptedNext s t
  | .timedOut t => timedOutNext s t
  | .work => some (workNext D s)
  | .hw e => (D.hw e s.dev.hw).map fun h => { s with dev := { s.dev with hw := h } }

end Steps

/-- A card with `n` segments after its driver has set it up. -/
def cardInit {K : Type} (cache : K) (n : ℕ) : Card K :=
  { nSegments := n
    segments := fun _ =>
      { acquiring := false, transferring := false, nrSampPerEv := 0, nrEvents := 0, cache := cache }
    currSegment := 0
    acqNo := 0 }

def coreInit (T : Type) {K H P : Type} (cache : K) (hw : H) (n : ℕ) : Sys T K H P :=
  { dev := { card := cardInit cache n, completion := false, hw := hw }
    pc := fun _ => .out (.value 0)
    work := none }

/-! ## What a step does -/

section Steps
variable {T K H P E : Type} [DecidableEq T] {l : CardLimits} {D : Driver K H P E} {s s' : Sys T K H P} {t : T}
  {a : Act T E}

/-- The ways to take a step. -/
inductive Stepped (l : CardLimits) (D : Driver K H P E) (s : Sys T K H P) : Act T E → Sys T K H P → Prop
  /-- Only the place of a task changes. -/
  | moves {a : Act T E} {t : T} {pc : Pc P} (hop : pc.op = none) : Stepped l D s a (s.goto t pc)
  | claims {a : Act T E} {t : T} {list : AcqList} (hcheck : fetchCheck s.card list = none)
      (hrange : list.segment < s.card.nSegments ∨ a = .step t ∧ s.pc t = .fetchRelock list) :
      Stepped l D s a ((s.setCard (setTransferring s.card list.segment true)).goto t
        (.fetching list (D.fetch list.segment list.channel (fetchEvents s.card list))))
  | accepts {t : T} {desc : AcqDesc} (hargs : acqArgs desc = none) (hcheck : acqCheck l s.card desc = none) :
      Stepped l D s (.acquire t desc)
        ({ s with dev := { s.dev with card := acqAccept s.card desc, hw := D.confEv desc s.dev.hw } }.goto t
          (.starting desc (D.acqStart (s.card.acqNo + 1))))
  | stores {t : T} {segments : ℤ} {count : ℕ} (hcheck : storeCheck l s.card segments = none) :
      Stepped l D s (.store t segments count)
        ((s.setCard (setNSegments l s.card segments)).goto t (.out (.value count)))
  | cancels {t : T} : Stepped l D s (.cancel t) (s.goto t (.cancelling D.acqCancel))
  | operates {t : T} {p : P} (hop : (s.pc t).op = some p) :
      Stepped l D s (.step t) ({ s with dev := (D.step p s.dev).2 }.goto t ((s.pc t).after (D.step p s.dev).1))
  | fetched {t : T} {list : AcqList} {ret : Ret} (hpc : s.pc t = .fetched list ret) :
      Stepped l D s (.step t) ((s.setCard (setTransferring s.card list.segment false)).goto t (.out ret))
  | workStarts (hwork : s.work = none) : Stepped l D s .work { s with work := some D.irqWork }
  | works {p : P} (hwork : s.work = some p) :
      Stepped l D s .work { s with dev := (D.step p s.dev).2, work := (D.step p s.dev).1.work }
  | hw {e : E} {h : H} (hnext : D.hw e s.dev.hw = some h) :
      Stepped l D s (.hw e) { s with dev := { s.dev with hw := h } }

theorem fetchClaim_stepped {list : AcqList}
    (hrange : list.segment < s.card.nSegments ∨ a = .step t ∧ s.pc t = .fetchRelock list) :
    Stepped l D s a (fetchClaim D s t list) := by
  unfold fetchClaim
  split
  · exact .moves rfl
  · exact .claims ‹_› hrange

theorem fetchIoctl_stepped (list : AcqList) : Stepped l D s a (fetchIoctl l D s t list) := by
  unfold fetchIoctl
  split
  · exact .moves rfl
  · split
    · exact .moves rfl
    · rename_i hrange
      split
      · split
        · exact .moves rfl
        · exact .moves rfl
      · refine fetchClaim_stepped (.inl ?_)
        unfold fetchRange at hrange
        split at hrange
        · cases hrange
        · omega

theorem acqStartIoctl_stepped (desc : AcqDesc) : Stepped l D s (.acquire t desc) (acqStartIoctl l D s t desc) := by
  unfold acqStartIoctl
  split
  · exact .moves rfl
  · split
    · exact .moves rfl
    · exact .accepts ‹_› ‹_›

theorem storeNSegments_stepped (segments : ℤ) (count : ℕ) :
    Stepped l D s (.store t segments count) (storeNSegments l s t segments count) := by
  unfold storeNSegments
  split
  · exact .moves rfl
  · exact .stores ‹_›

theorem taskNext_stepped (h : taskNext D s t = some s') : Stepped l D s (.step t) s' := by
  unfold taskNext at h
  split at h
  · cases h
  · split at h
    · cases h
      exact .moves rfl
    · cases h
  · rename_i list hpc
    cases h
    exact fetchClaim_stepped (.inr ⟨rfl, hpc⟩)
  · rename_i list ret hpc
    cases h
    exact .fetched hpc
  · split at h
    · cases h
      exact .moves rfl
    · cases h
  all_goals
    rename_i arg p hpc
    cases h
    have hop : (s.pc t).op = some p := by
      rw [hpc]
      rfl
    rw [← hpc]
    exact .operates hop

theorem coreNext_stepped (h : coreNext l D s a = some s') : Stepped l D s a s' := by
  cases a with
  | fetch t list =>
    obtain ⟨-, h⟩ := Option.ite_none_right_eq_some.mp h
    cases h
    exact fetchIoctl_stepped list
  | acquire t desc =>
    obtain ⟨-, h⟩ := Option.ite_none_right_eq_some.mp h
    cases h
    exact acqStartIoctl_stepped desc
  | store t segments count =>
    obtain ⟨-, h⟩ := Option.ite_none_right_eq_some.mp h
    cases h
    exact storeNSegments_stepped segments count
  | cancel t =>
    obtain ⟨-, h⟩ := Option.ite_none_right_eq_some.mp h
    cases h
    exact .cancels
  | step t => exact taskNext_stepped h
  | interrupted t =>
    simp only [coreNext, interruptedNext] at h
    split at h
    · cases h
      exact .moves rfl
    · cases h
      exact .moves rfl
    · cases h
      exact .moves rfl
    · cases h
  | timedOut t =>
    simp only [coreNext, timedOutNext] at h
    split at h
    · obtain ⟨-, h⟩ := Option.ite_none_right_eq_some.mp h
      cases h
      exact .moves rfl
    · obtain ⟨-, h⟩ := Option.ite_none_right_eq_some.mp h
      cases h
      exact .moves rfl
    · cases h
  | work =>
    simp only [coreNext, workNext] at h
    split at h
    · cases h
      exact .workStarts ‹_›
    · cases h
      exact .works ‹_›
  | hw e =>
    obtain ⟨hw, hnext, rfl⟩ := Option.map_eq_some_iff.mp h
    exact .hw hnext

theorem Move.work_eq {m : Move P} {q : P} (h : m.work = some q) : m = .goto q := by
  cases m with
  | goto p => rw [Option.some.inj h]
  | ret r => cases h

/-- A task leaves the operation of the driver when it returns. -/
theorem Pc.after_ret {pc : Pc P} {p : P} (hop : pc.op = some p) (r : Ret) : (pc.after (.ret r)).op = none := by
  cases pc
  case fetching | cancelling => rfl
  case starting desc p =>
    change Pc.op (if dontwait desc.flags = true then _ else _) = none
    split <;> rfl
  all_goals cases hop

theorem Pc.after_goto {pc : Pc P} {p : P} (hop : pc.op = some p) (q : P) : (pc.after (.goto q)).op = some q := by
  cases pc
  case fetching | starting | cancelling => rfl
  all_goals cases hop

/-- The operation that a task is in after an operation of the driver has taken a step. -/
theorem Pc.after_op {pc : Pc P} {p q : P} {m : Move P} (hop : pc.op = some p) (h : (pc.after m).op = some q) :
    m = .goto q := by
  cases m with
  | goto r =>
    rw [Pc.after_goto hop] at h
    rw [Option.some.inj h]
  | ret r =>
    rw [Pc.after_ret hop] at h
    cases h

end Steps

end HtDrivers.Sis33
