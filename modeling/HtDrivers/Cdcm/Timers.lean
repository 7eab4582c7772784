import HtDrivers.Lib.Transition

/-! The timers of the common driver layer (`cdcmTime.c`). A call of `timeout` is known by its number among the
successful ones, in the order of the calls; `P` is a function with its argument. -/
namespace HtDrivers.Cdcm
open Lib.Transition
set_option autoImplicit false

def maxCdcmTimers : ℕ := 16

/-- `call` is the call that filled the slot in, and `pending` says that the kernel has the timer. -/
structure CdcmTimer (P : Type) where
  ctOn : ℕ
  payload : P
  pending : Bool
  call : ℕ

/-- What became of the timer of a call; it is stopped where the cancellation was meant for another. -/
inductive TimerStatus
  | armed | expired | cancelled | stopped
deriving DecidableEq

/-- `runs` are the functions that ran for the call. -/
structure TimeoutCall (P : Type) where
  slot : ℕ
  payload : P
  status : TimerStatus
  runs : List P

structure Timers (P : Type) where
  timer : ℕ → CdcmTimer P
  calls : List (TimeoutCall P)

inductive TimerStep (P : Type)
  | timeout (pid : ℕ) (payload : P)
  | cancel (call : ℕ)
  | cancelNone (id : ℤ)
  | expire (tid : ℕ)
  | stremove (pid : ℕ)

section Operations
variable {P : Type} (s : Timers P)

/-- The loop of `timeout` for the first timer that is not used. -/
def freeTimer : Option ℕ := (List.range maxCdcmTimers).find? fun tid => (s.timer tid).ctOn = 0

/-- `cdcm_timer_init`, and the timer goes to the kernel. -/
def cdcmTimerInit (pid : ℕ) (payload : P) (tid : ℕ) : Timers P where
  timer := Function.update s.timer tid ⟨pid, payload, true, s.calls.length⟩
  calls := s.calls ++ [⟨tid, payload, .armed, []⟩]

def timeout (pid : ℕ) (payload : P) : Timers P :=
  match freeTimer s with
  | some tid => cdcmTimerInit s pid payload tid
  | none => s

/-- The call is over, unless it was so before. -/
def endCall (call : ℕ) (status : TimerStatus) : Timers P :=
  { s with calls := s.calls.modify call fun c => if c.status = .armed then { c with status := status } else c }

/-- `del_timer_sync`, and the slot is free again. -/
def stopTimer (tid : ℕ) : Timers P :=
  { s with timer := Function.update s.timer tid { s.timer tid with ctOn := 0, pending := false } }

/-- The body of `cancel_timeout` behind its test of the number. -/
def cancelTimer (tid : ℕ) : Timers P :=
  if (s.timer tid).ctOn = 0 then s
  else if (s.timer tid).pending then endCall (stopTimer s tid) (s.timer tid).call .stopped
  else stopTimer s tid

/-- `cancel_timeout` with the number that the call got: from now on it counts as cancelled. -/
def cancelTimeout (call : ℕ) (c : TimeoutCall P) : Timers P := cancelTimer (endCall s call .cancelled) c.slot

/-- `cdcm_timer_cb`. -/
def cdcmTimerCb (tid : ℕ) : Timers P :=
  let timer := s.timer tid
  let ended := endCall (stopTimer s tid) timer.call .expired
  { ended with calls := ended.calls.modify timer.call fun c => { c with runs := c.runs ++ [timer.payload] } }

/-- The cleanup of `stremove`, for one slot. -/
def removeTimer (pid : ℕ) (tid : ℕ) : Timers P :=
  if (s.timer tid).ctOn = pid then endCall (stopTimer s tid) (s.timer tid).call .cancelled else s

end Operations

section Steps
variable {P : Type}

def stremoveTimers (s : Timers P) (pid : ℕ) : Timers P := (List.range maxCdcmTimers).foldl (removeTimer · pid) s

/-- There is no task with the number 0, so `stremove` finds none. -/
def timerNext (s : Timers P) : TimerStep P → Option (Timers P)
  | .timeout pid payload => some (timeout s pid payload)
  | .cancel call => (s.calls[call]?).map (cancelTimeout s call)
  | .cancelNone id => if id < 1 ∨ maxCdcmTimers < id then some s else none
  | .expire tid => if (s.timer tid).pending then some (cdcmTimerCb s tid) else none
  | .stremove pid => if pid = 0 then none else some (stremoveTimers s pid)

/-- The statics of the layer. -/
def timersInit (payload : P) : Timers P := ⟨fun _ => ⟨0, payload, false, 0⟩, []⟩

end Steps

/-! ## Who owns a timer -/

/-- Every slot in use, and every timer in the kernel, belongs to one call that is not over; every call that is over ran
its own function once, or was cancelled and will not run. -/
structure Owned {P : Type} (s : Timers P) : Prop where
  running : ∀ t, (s.timer t).ctOn ≠ 0 → (s.timer t).pending = true
  armed : ∀ n c, s.calls[n]? = some c → c.status = .armed → c.runs = [] ∧ (s.timer c.slot).pending = true ∧
    (s.timer c.slot).call = n ∧ (s.timer c.slot).payload = c.payload
  pending : ∀ t, (s.timer t).pending = true → ∃ c, s.calls[(s.timer t).call]? = some c ∧ c.status = .armed ∧ c.slot = t
  expired : ∀ c ∈ s.calls, c.status = .expired → c.runs = [c.payload]
  cancelled : ∀ c ∈ s.calls, c.status = .cancelled → c.runs = []
  own : ∀ c ∈ s.calls, c.status ≠ .stopped

/-- No slot is filled in again while its timer is in the kernel; what is cancelled is in use exactly if it is the
caller's own. -/
def Fits {P : Type} (s : Timers P) : TimerStep P → Prop
  | .timeout _ _ => ∀ tid ∈ freeTimer s, (s.timer tid).pending = false
  | .cancel call => ∀ c ∈ s.calls[call]?, (c.status = .armed ↔ (s.timer c.slot).ctOn ≠ 0)
  | _ => True

section Finish
variable {P : Type} {s : Timers P} {t n : ℕ} {c : TimeoutCall P} {status : TimerStatus} {runs : List P}

/-- The timer of a slot is over, and so is its call. -/
def finishTimer (s : Timers P) (t : ℕ) (status : TimerStatus) (runs : List P) : Timers P :=
  { stopTimer s t with calls := s.calls.modify (s.timer t).call fun c => { c with status := status, runs := runs } }

theorem modify_congr {A : Type} {l : List A} {i : ℕ} {a : A} (f g : A → A) (h : l[i]? = some a) (hfg : f a = g a) :
    l.modify i f = l.modify i g := by
  apply List.ext_getElem?
  intro j
  rw [List.getElem?_modify, List.getElem?_modify]
  by_cases hij : i = j
  · subst hij
    rw [h]
    simpa using hfg
  · simp [hij]

theorem mem_modify {A : Type} {l : List A} {i : ℕ} {f : A → A} {b : A} (h : b ∈ l.modify i f) :
    b ∈ l ∨ ∃ a, l[i]? = some a ∧ b = f a := by
  obtain ⟨j, hj⟩ := List.mem_iff_getElem?.mp h
  rw [List.getElem?_modify] at hj
  obtain ⟨a, ha, hb⟩ := Option.map_eq_some_iff.mp hj
  by_cases hij : i = j
  · subst hij
    rw [if_pos rfl] at hb
    exact .inr ⟨a, ha, hb.symm⟩
  · rw [if_neg hij] at hb
    exact .inl (hb ▸ List.mem_of_getElem? ha)

theorem Owned.finish (h : Owned s) (ht : (s.timer t).pending = true) (hc : s.calls[(s.timer t).call]? = some c)
    (hstatus : status = .expired ∧ runs = [c.payload] ∨ status = .cancelled ∧ runs = []) :
    Owned (finishTimer s t status runs) := by
  obtain ⟨c', hc', harmed, hslot⟩ := h.pending t ht
  obtain rfl : c' = c := Option.some.inj (hc'.symm.trans hc)
  have hover : status ≠ .armed := by
    obtain ⟨rfl, -⟩ | ⟨rfl, -⟩ := hstatus <;> exact fun heq => by cases heq
  have hne : ∀ u, u ≠ t → (finishTimer s t status runs).timer u = s.timer u := fun u hu => Function.update_of_ne hu ..
  have hself : (finishTimer s t status runs).timer t = { s.timer t with ctOn := 0, pending := false } :=
    Function.update_self ..
  have hcalls : ∀ d ∈ (finishTimer s t status runs).calls, d ∈ s.calls ∨
    d = { c' with status := status, runs := runs } := by
    intro d hd
    obtain hold | ⟨a, ha, hb⟩ := mem_modify hd
    · exact .inl hold
    · obtain rfl : a = c' := Option.some.inj (ha.symm.trans hc)
      exact .inr hb
  refine ⟨fun u hu => ?_, fun n d hd hdarmed => ?_, fun u hu => ?_, fun d hd hexp => ?_, fun d hd hcan => ?_,
    fun d hd hstop => ?_⟩
  · by_cases hut : u = t
    · subst hut
      rw [hself] at hu
      exact absurd rfl hu
    · rw [hne u hut] at hu ⊢
      exact h.running u hu
  · by_cases hn : (s.timer t).call = n
    · subst hn
      have hget : (finishTimer s t status runs).calls[(s.timer t).call]? =
        some { c' with status := status, runs := runs } := by
        change (s.calls.modify _ _)[_]? = _
        rw [List.getElem?_modify_eq, hc]
        rfl
      obtain rfl := Option.some.inj (hget.symm.trans hd)
      exact absurd hdarmed hover
    · have hget : s.calls[n]? = some d := (List.getElem?_modify_ne _ _ hn).symm.trans hd
      obtain ⟨hruns, hpend, hcall, hpay⟩ := h.armed n d hget hdarmed
      have hdt : d.slot ≠ t := by
        intro heq
        rw [heq] at hcall
        exact hn hcall
      rw [hne d.slot hdt]
      exact ⟨hruns, hpend, hcall, hpay⟩
  · by_cases hut : u = t
    · subst hut
      rw [hself] at hu
      cases hu
    · rw [hne u hut] at hu ⊢
      obtain ⟨d, hd, hdarmed, hdslot⟩ := h.pending u hu
      have hn : (s.timer t).call ≠ (s.timer u).call := by
        intro heq
        rw [← heq, hc] at hd
        obtain rfl : c' = d := Option.some.inj hd
        exact hut (hdslot.symm.trans hslot)
      refine ⟨d, ?_, hdarmed, hdslot⟩
      exact (List.getElem?_modify_ne _ _ hn).trans hd
  · obtain hold | rfl := hcalls d hd
    · exact h.expired d hold hexp
    · obtain ⟨-, hruns⟩ | ⟨hcan, -⟩ := hstatus
      · exact hruns
      · rw [hcan] at hexp
        cases hexp
  · obtain hold | rfl := hcalls d hd
    · exact h.cancelled d hold hcan
    · obtain ⟨hexp, -⟩ | ⟨-, hruns⟩ := hstatus
      · rw [hexp] at hcan
        cases hcan
      · exact hruns
  · obtain hold | rfl := hcalls d hd
    · exact h.own d hold hstop
    · obtain ⟨hexp, -⟩ | ⟨hcan, -⟩ := hstatus
      · rw [hexp] at hstop
        cases hstop
      · rw [hcan] at hstop
        cases hstop

end Finish

section Preserved
variable {P : Type} {s s' : Timers P} {t n pid : ℕ} {c : TimeoutCall P} {payload : P}

theorem endCall_armed (hc : s.calls[n]? = some c) (h : c.status = .armed) (status : TimerStatus) :
    endCall s n status = { s with calls := s.calls.modify n fun c => { c with status := status } } := by
  exact congrArg (Timers.mk s.timer) (modify_congr _ _ hc (if_pos h))

theorem endCall_over (hc : s.calls[n]? = some c) (h : c.status ≠ .armed) (status : TimerStatus) :
    endCall s n status = s := by
  have hsame : s.calls.modify n id = s.calls := List.modify_id ..
  have hmodify : (endCall s n status).calls = s.calls.modify n id := modify_congr _ _ hc (if_neg h)
  rw [hsame] at hmodify
  exact congrArg (Timers.mk s.timer) hmodify

theorem cdcmTimerCb_finish (h : Owned s) (hc : s.calls[(s.timer t).call]? = some c) (harmed : c.status = .armed)
    (hslot : c.slot = t) : cdcmTimerCb s t = finishTimer s t .expired [c.payload] := by
  subst hslot
  obtain ⟨hruns, -, -, hpay⟩ := h.armed _ c hc harmed
  have hc' : (stopTimer s c.slot).calls[(s.timer c.slot).call]? = some c := hc
  unfold cdcmTimerCb finishTimer
  dsimp only
  rw [endCall_armed hc' harmed]
  simp only [Timers.mk.injEq]
  refine ⟨trivial, ?_⟩
  rw [List.modify_modify_eq]
  refine modify_congr _ _ hc ?_
  simp only [Function.comp_apply, hruns, hpay, List.nil_append]

theorem removeTimer_finish (h : Owned s) (hc : s.calls[(s.timer t).call]? = some c) (harmed : c.status = .armed)
    (hslot : c.slot = t) (hpid : (s.timer t).ctOn = pid) : removeTimer s pid t = finishTimer s t .cancelled [] := by
  subst hslot
  obtain ⟨hruns, -, -, -⟩ := h.armed _ c hc harmed
  have hc' : (stopTimer s c.slot).calls[(s.timer c.slot).call]? = some c := hc
  unfold removeTimer finishTimer
  rw [if_pos hpid, endCall_armed hc' harmed]
  simp only [Timers.mk.injEq]
  exact ⟨trivial, modify_congr _ _ hc (by simp only [hruns])⟩

theorem cancelTimeout_finish (h : Owned s) (hc : s.calls[n]? = some c) (harmed : c.status = .armed)
    (hon : (s.timer c.slot).ctOn ≠ 0) : cancelTimeout s n c = finishTimer s c.slot .cancelled [] := by
  obtain ⟨hruns, hpend, hcall, -⟩ := h.armed n c hc harmed
  unfold cancelTimeout
  rw [endCall_armed hc harmed]
  unfold cancelTimer
  rw [if_neg hon, if_pos hpend]
  have hended : (stopTimer { s with calls := s.calls.modify n fun c => { c with status := .cancelled } }
    c.slot).calls[n]? =
      some { c with status := .cancelled } := by
    change (s.calls.modify n _)[n]? = _
    rw [List.getElem?_modify_eq, hc]
    rfl
  have hover := endCall_over hended (fun heq => by cases heq) .stopped
  rw [← hcall] at hover
  dsimp only
  rw [← hcall] at hc ⊢
  rw [hover]
  unfold finishTimer stopTimer
  simp only [Timers.mk.injEq]
  exact ⟨trivial, modify_congr _ _ hc (by simp only [hruns])⟩

theorem Owned.timerInit (h : Owned s) (hfree : (s.timer t).pending = false) :
    Owned (cdcmTimerInit s pid payload t) := by
  have hne : ∀ u, u ≠ t → (cdcmTimerInit s pid payload t).timer u = s.timer u := fun u hu => Function.update_of_ne hu ..
  have hself : (cdcmTimerInit s pid payload t).timer t = ⟨pid, payload, true, s.calls.length⟩ := Function.update_self ..
  have hcalls : ∀ d ∈ (cdcmTimerInit s pid payload t).calls, d ∈ s.calls ∨ d = ⟨t, payload, .armed, []⟩ := by
    intro d hd
    simpa [cdcmTimerInit] using hd
  refine ⟨fun u hu => ?_, fun n d hd hdarmed => ?_, fun u hu => ?_, fun d hd hexp => ?_, fun d hd hcan => ?_,
    fun d hd hstop => ?_⟩
  · by_cases hut : u = t
    · subst hut
      rw [hself]
    · rw [hne u hut] at hu ⊢
      exact h.running u hu
  · obtain hlt | hge := Nat.lt_or_ge n s.calls.length
    · have hget : s.calls[n]? = some d := (List.getElem?_append_left hlt).symm.trans hd
      obtain ⟨hruns, hpend, hcall, hpay⟩ := h.armed n d hget hdarmed
      have hdt : d.slot ≠ t := by
        intro heq
        rw [heq, hfree] at hpend
        cases hpend
      rw [hne d.slot hdt]
      exact ⟨hruns, hpend, hcall, hpay⟩
    · have hget : [(⟨t, payload, .armed, []⟩ : TimeoutCall P)][n - s.calls.length]? = some d :=
        (List.getElem?_append_right hge).symm.trans hd
      obtain ⟨hlt, hval⟩ := List.getElem?_eq_some_iff.mp hget
      have hn : n = s.calls.length := by
        rw [List.length_singleton] at hlt
        omega
      subst hn
      simp only [Nat.sub_self, List.getElem_cons_zero] at hval
      subst hval
      rw [hself]
      exact ⟨rfl, rfl, rfl, rfl⟩
  · by_cases hut : u = t
    · subst hut
      rw [hself]
      exact ⟨_, List.getElem?_concat_length, rfl, rfl⟩
    · rw [hne u hut] at hu ⊢
      obtain ⟨d, hd, hdarmed, hdslot⟩ := h.pending u hu
      have hlt : (s.timer u).call < s.calls.length := (List.getElem?_eq_some_iff.mp hd).1
      exact ⟨d, (List.getElem?_append_left hlt).trans hd, hdarmed, hdslot⟩
  · obtain hold | rfl := hcalls d hd
    · exact h.expired d hold hexp
    · cases hexp
  · obtain hold | rfl := hcalls d hd
    · exact h.cancelled d hold hcan
    · rfl
  · obtain hold | rfl := hcalls d hd
    · exact h.own d hold hstop
    · cases hstop

theorem Owned.removeTimer (h : Owned s) (hpid : pid ≠ 0) (t : ℕ) : Owned (removeTimer s pid t) := by
  by_cases hon : (s.timer t).ctOn = pid
  · have hpend := h.running t (by rw [hon]; exact hpid)
    obtain ⟨c, hc, harmed, hslot⟩ := h.pending t hpend
    rw [removeTimer_finish h hc harmed hslot hon]
    exact h.finish hpend hc (.inr ⟨rfl, rfl⟩)
  · unfold HtDrivers.Cdcm.removeTimer
    rw [if_neg hon]
    exact h

theorem Owned.stremove (h : Owned s) (hpid : pid ≠ 0) : Owned (stremoveTimers s pid) := by
  unfold stremoveTimers
  generalize List.range maxCdcmTimers = tids
  induction tids generalizing s with
  | nil => exact h
  | cons t tids ih =>
    rw [List.foldl_cons]
    exact ih (h.removeTimer hpid t)

theorem Owned.step {act : TimerStep P} (h : Owned s) (hfits : Fits s act) (hnext : timerNext s act = some s') :
    Owned s' := by
  cases act with
  | timeout pid payload =>
    cases hnext
    unfold timeout
    cases hfree : freeTimer s with
    | none => exact h
    | some t => exact h.timerInit (hfits t hfree)
  | cancel n =>
    obtain ⟨c, hc, hcancel⟩ := Option.map_eq_some_iff.mp hnext
    subst hcancel
    by_cases harmed : c.status = .armed
    · obtain ⟨-, hpend, hcall, -⟩ := h.armed n c hc harmed
      rw [cancelTimeout_finish h hc harmed ((hfits c hc).mp harmed)]
      exact h.finish hpend (by rw [hcall]; exact hc) (.inr ⟨rfl, rfl⟩)
    · have hoff : (s.timer c.slot).ctOn = 0 := by
        by_contra hon
        exact harmed ((hfits c hc).mpr hon)
      unfold cancelTimeout
      rw [endCall_over hc harmed, cancelTimer, if_pos hoff]
      exact h
  | cancelNone id =>
    rw [timerNext, Option.ite_none_right_eq_some] at hnext
    obtain ⟨-, hnext⟩ := hnext
    cases hnext
    exact h
  | expire t =>
    rw [timerNext, Option.ite_none_right_eq_some] at hnext
    obtain ⟨hpend, hnext⟩ := hnext
    cases hnext
    obtain ⟨c, hc, harmed, hslot⟩ := h.pending t hpend
    rw [cdcmTimerCb_finish h hc harmed hslot]
    exact h.finish hpend hc (.inl ⟨rfl, rfl⟩)
  | stremove pid =>
    rw [timerNext, Option.ite_none_left_eq_some] at hnext
    obtain ⟨hpid, hnext⟩ := hnext
    rw [← Option.some.inj hnext]
    exact h.stremove hpid

theorem owned_init (payload : P) : Owned (timersInit payload) where
  running t h := absurd rfl h
  armed n c h := by cases h
  pending t h := by cases h
  expired c h := by cases h
  cancelled c h := by cases h
  own c h := by cases h

end Preserved

/-! ## Whole runs -/

/-- What callers rely on: timers that are armed never share a slot, and each of them will run the function of its own
call; what has expired ran its function once; what was cancelled ran nothing and never will; and no timer was stopped
for another's sake. -/
structure PerCaller {P : Type} (s : Timers P) : Prop where
  apart : ∀ (m n : ℕ) (c d : TimeoutCall P), s.calls[m]? = some c → s.calls[n]? = some d →
    c.status = .armed → d.status = .armed → c.slot = d.slot → m = n
  will_run : ∀ (n : ℕ) (c : TimeoutCall P), s.calls[n]? = some c → c.status = .armed →
    c.runs = [] ∧ (s.timer c.slot).pending = true ∧ (s.timer c.slot).payload = c.payload
  ran : ∀ c ∈ s.calls, c.status = .expired → c.runs = [c.payload]
  none : ∀ (n : ℕ) (c : TimeoutCall P), s.calls[n]? = some c → c.status = .cancelled →
    c.runs = [] ∧ ∀ t, (s.timer t).pending = true → (s.timer t).call ≠ n
  own : ∀ c ∈ s.calls, c.status ≠ .stopped

section Runs
variable {P : Type} {s s' : Timers P} {act : TimerStep P}

theorem Owned.perCaller (h : Owned s) : PerCaller s where
  apart m n c d hc hd hcarmed hdarmed hslot := by
    obtain ⟨-, -, hm, -⟩ := h.armed m c hc hcarmed
    obtain ⟨-, -, hn, -⟩ := h.armed n d hd hdarmed
    rw [hslot] at hm
    exact hm.symm.trans hn
  will_run n c hc harmed := by
    obtain ⟨hruns, hpend, -, hpay⟩ := h.armed n c hc harmed
    exact ⟨hruns, hpend, hpay⟩
  ran := h.expired
  none n c hc hcan := by
    refine ⟨h.cancelled c (List.mem_of_getElem? hc) hcan, fun t hpend hcall => ?_⟩
    obtain ⟨d, hd, harmed, -⟩ := h.pending t hpend
    rw [hcall, hc] at hd
    obtain rfl := Option.some.inj hd
    rw [hcan] at harmed
    cases harmed
  own := h.own

theorem Owned.fits (h : Owned s) (hnext : timerNext s act = some s') (hafter : PerCaller s') : Fits s act := by
  cases act with
  | timeout pid payload =>
    intro t hfree
    rw [← Option.some.inj hnext] at hafter
    by_contra hpend
    rw [Bool.not_eq_false] at hpend
    obtain ⟨c, hc, harmed, hslot⟩ := h.pending t hpend
    have hlt : (s.timer t).call < s.calls.length := (List.getElem?_eq_some_iff.mp hc).1
    unfold timeout at hafter
    rw [Option.mem_def.mp hfree] at hafter
    have hshared := hafter.apart _ _ c ⟨t, payload, .armed, []⟩ ((List.getElem?_append_left hlt).trans hc)
      List.getElem?_concat_length harmed rfl hslot
    omega
  | cancel n =>
    intro c hc
    rw [timerNext, Option.mem_def.mp hc] at hnext
    rw [← Option.some.inj hnext] at hafter
    constructor
    · intro harmed hoff
      obtain ⟨-, hpend, hcall, -⟩ := h.armed n c hc harmed
      unfold cancelTimeout at hafter
      rw [endCall_armed hc harmed, cancelTimer, if_pos hoff] at hafter
      have hcancelled : (s.calls.modify n fun c => { c with status := .cancelled })[n]? =
        some { c with status := .cancelled } := by
        rw [List.getElem?_modify_eq, Option.mem_def.mp hc]
        rfl
      exact (hafter.none n _ hcancelled rfl).2 c.slot hpend hcall
    · intro hon
      by_contra hover
      have hpend := h.running c.slot hon
      obtain ⟨d, hd, hdarmed, -⟩ := h.pending c.slot hpend
      unfold cancelTimeout at hafter
      have hd' : (stopTimer s c.slot).calls[(s.timer c.slot).call]? = some d := hd
      rw [endCall_over hc hover, cancelTimer, if_neg hon, if_pos hpend, endCall_armed hd' hdarmed] at hafter
      have hstopped : ((stopTimer s c.slot).calls.modify (s.timer c.slot).call fun c => { c with status := .stopped })[
          (s.timer c.slot).call]? = some { d with status := .stopped } := by
        rw [List.getElem?_modify_eq, hd']
        rfl
      exact hafter.own _ (List.mem_of_getElem? hstopped) rfl
  | cancelNone id => trivial
  | expire t => trivial
  | stremove pid => trivial

/-- Timers belong to their callers in every run whose steps fit, and a step that does not fit ends this. -/
theorem timers_perCaller (payload : P) : (∀ s, Reach timerNext Fits (timersInit payload) s → PerCaller s) ∧
    ∀ s act s', Reach timerNext Fits (timersInit payload) s → timerNext s act = some s' → ¬Fits s act →
    ¬PerCaller s' := by
  have howned : ∀ s, Reach timerNext Fits (timersInit payload) s → Owned s := fun s h =>
    h.invariant (owned_init payload) fun _ _ _ hbefore hfits hnext => hbefore.step hfits hnext
  exact ⟨fun s h => (howned s h).perCaller, fun s act s' h hnext hunfit hafter => hunfit
    ((howned s h).fits hnext hafter)⟩

end Runs

section Example

instance (s : Timers ℕ) : ∀ act, Decidable (Fits s act)
  | .timeout _ _ => inferInstanceAs (Decidable (∀ tid ∈ freeTimer s, _))
  | .cancel call => inferInstanceAs (Decidable (∀ c ∈ s.calls[call]?, _))
  | .cancelNone _ | .expire _ | .stremove _ => inferInstanceAs (Decidable True)

/-- Two timers; the first goes off and is cancelled late, while its slot is free. -/
def lateCancel : List (TimerStep ℕ) := [.timeout 5 10, .timeout 7 20, .expire 0, .cancel 0, .cancel 1]

theorem lateCancel_perCaller : ∃ s, Reach timerNext Fits (timersInit 0) s ∧
    s.calls.map TimeoutCall.runs = [[10], []] ∧ PerCaller s := by
  have hrun : (replay timerNext Fits (timersInit 0) lateCancel).map (fun s => s.calls.map TimeoutCall.runs) =
      some [[10], []] := by decide
  obtain ⟨s, hs, hruns⟩ := Option.map_eq_some_iff.mp hrun
  have hreach : Reach timerNext Fits (timersInit 0) s := Reach.of_replay .refl hs
  exact ⟨s, hreach, hruns, (timers_perCaller 0).1 s hreach⟩

/-- A late cancellation stops the timer that has the slot by now; and a timer that was armed in the idle task loses its
slot. -/
theorem timers_not_perCaller : (¬∀ s, Reach timerNext (fun _ _ => True) (timersInit 0) s → PerCaller s) ∧
    ∃ s, Reach timerNext (fun _ _ => True) (timersInit 0) s ∧
      s.calls.map (fun c => (c.slot, c.status)) = [(0, .armed), (0, .armed)] := by
  constructor
  · intro hall
    have hrun : (([.timeout 5 10, .expire 0, .timeout 7 20, .cancel 0] : List (TimerStep ℕ)).foldlM timerNext
        (timersInit 0)).map (fun s => s.calls.map TimeoutCall.status) = some [.expired, .stopped] := by
      decide
    obtain ⟨s, hs, hstatus⟩ := Option.map_eq_some_iff.mp hrun
    have hown := (hall s (Reach.of_foldlM .refl (fun _ _ _ => trivial) hs)).own
    have hstopped : TimerStatus.stopped ∈ s.calls.map TimeoutCall.status := by
      rw [hstatus]
      decide
    obtain ⟨c, hc, hstop⟩ := List.mem_map.mp hstopped
    exact hown c hc hstop
  · have hrun : (([.timeout 0 10, .timeout 7 20] : List (TimerStep ℕ)).foldlM timerNext (timersInit 0)).map
        (fun s => s.calls.map fun c => (c.slot, c.status)) = some [(0, .armed), (0, .armed)] := by
      decide
    obtain ⟨s, hs, hcalls⟩ := Option.map_eq_some_iff.mp hrun
    exact ⟨s, Reach.of_foldlM .refl (fun _ _ _ => trivial) hs, hcalls⟩

end Example

end HtDrivers.Cdcm
