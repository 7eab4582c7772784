import HtDrivers.Cdcm.CdcmTime
import HtDrivers.Xmem.SegmentBounds
import HtDrivers.Lib.Transition

/-! `PageCopy` beside the engines, their interrupts, its timers and signals (`xmemDrvr.c`). Each direction has an
engine, a semaphore and a timer of its own; `BusySemaphore` lets one call in at a time. -/
namespace HtDrivers.Xmem
open HtDrivers.Cdcm HtDrivers.Lib.Transition
set_option autoImplicit false

/-- The semaphore and the timer of a direction, with 0 for no timer; the timers that are running; the transfers that the
engine executes and whether its interrupt is raised; and how many handlers have run up to their `ssignal`. -/
structure DmaChannel where
  semaphore : CdcmSem Unit
  timer : ℤ
  pending : List ℕ
  running : List ℕ
  irq : Bool
  signalling : ℕ

/-- Places in `PageCopy`: before the timer is armed, before `sreset`, before the start of the engine, before `swait`,
asleep in it, behind it and before the test of the timer, before its cancellation, before the test of `DONE`, and before
the end. -/
inductive PagePlace
  | mapped | armed | ready | started | waiting | granted | cancelling | checking | finishing
deriving DecidableEq

/-- A call with the number of its transfer and its timer. -/
structure PageCall where
  iod : XmemDrvrIoDir
  mapped : Bool
  transfer : ℕ
  timer : Option ℕ
  place : PagePlace

/-- What there is when a call returns: its error, whether it has made a mapping and how often it has undone it, whether
its timer is running, whether the engine works on its transfer, and whether this has been completed. -/
structure PageReturn where
  error : Option XmemErrno
  made : Bool
  unmaps : ℕ
  timerPending : Bool
  engineBusy : Bool
  completed : Bool
deriving DecidableEq

structure PageDma where
  channel : XmemDrvrIoDir → DmaChannel
  call : Option PageCall
  transfers : ℕ
  completed : List ℕ
  returns : List PageReturn

/-- `dma` is the address that `cdcm_pci_map` returns or that the caller has put into the DMA operation. -/
inductive PageStep
  | call (siod : XmemDrvrSegIoDesc) (iod : XmemDrvrIoDir) (mapped : Bool) (dma : ℕ)
  | arm (timer : Option ℕ)
  | reset
  | start
  | wait
  | abort
  | test
  | cancel
  | check
  | finish
  | complete (iod : XmemDrvrIoDir) (transfer : ℕ)
  | interrupt (iod : XmemDrvrIoDir)
  | expire (iod : XmemDrvrIoDir) (timer : ℕ)
  | ssignal (iod : XmemDrvrIoDir)

section Operations
variable (wa : SegArea)

/-- The tests before the engine is set up. -/
def pageError (siod : XmemDrvrSegIoDesc) (iod : XmemDrvrIoDir) (mapped : Bool) (dma : ℕ) : Option XmemErrno :=
  if siod.userArray = .null ∧ mapped = false then some .efault
  else if siod.module = 0 ∨ wa.modules < siod.module then some .enodev
  else if siod.id = 0 then some .enodev
  else if segmentOf wa.segTable siod.id = none then some .enxio
  else if dma = 0 then some .eio
  else if iod = .write ∧ wrPermSeg wa.segTable siod.id (wa.moduleContexts (siod.module - 1)).nodeId = false
    then some .eacces
  else none

def setChannel (s : PageDma) (iod : XmemDrvrIoDir) (chan : DmaChannel) : PageDma :=
  { s with channel := Function.update s.channel iod chan }

def moveCall (s : PageDma) (call : PageCall) (place : PagePlace) : PageDma :=
  { s with call := some { call with place := place } }

def returnCall (s : PageDma) (call : PageCall) (error : Option XmemErrno) (unmaps : ℕ) : PageDma :=
  let chan := s.channel call.iod
  { s with call := none, returns := ⟨error, !call.mapped, unmaps, call.timer.any (chan.pending.contains ·),
    chan.running.contains call.transfer, s.completed.contains call.transfer⟩ :: s.returns }

/-- A buffer that is not mapped is mapped before the last test. -/
def callStep (s : PageDma) (siod : XmemDrvrSegIoDesc) (iod : XmemDrvrIoDir) (mapped : Bool) (dma : ℕ) : PageDma :=
  match pageError wa siod iod mapped dma with
  | some err => { s with returns := ⟨some err, !mapped && err == .eacces, 0, false, false, false⟩ :: s.returns }
  | none => { s with call := some ⟨iod, mapped, s.transfers, none, .mapped⟩, transfers := s.transfers + 1 }

def armStep (s : PageDma) (call : PageCall) (timer : Option ℕ) : PageDma :=
  let chan := s.channel call.iod
  match timer with
  | none => returnCall (setChannel s call.iod { chan with timer := 0 }) call (some .ebusy) 0
  | some id => moveCall (setChannel s call.iod { chan with timer := id, pending := id :: chan.pending })
      { call with timer := some id } .armed

def resetStep (s : PageDma) (call : PageCall) : PageDma :=
  let chan := s.channel call.iod
  moveCall (setChannel s call.iod { chan with semaphore := (sreset chan.semaphore).1 }) call .ready

def startStep (s : PageDma) (call : PageCall) : PageDma :=
  let chan := s.channel call.iod
  moveCall (setChannel s call.iod { chan with running := call.transfer :: chan.running }) call .started

def waitStep (s : PageDma) (call : PageCall) : PageDma :=
  let chan := s.channel call.iod
  let down := cdcmDown chan.semaphore ()
  moveCall (setChannel s call.iod { chan with semaphore := down.1 }) call
    (if down.2 = .acquired then .granted else .waiting)

def abortStep (s : PageDma) (call : PageCall) : PageDma :=
  let chan := s.channel call.iod
  returnCall (setChannel s call.iod { chan with semaphore := (sreset (leaveWait chan.semaphore ())).1 }) call
    (some .eintr) 0

/-- `CancelTimeout`. -/
def cancelStep (s : PageDma) (call : PageCall) : PageDma :=
  let chan := s.channel call.iod
  if chan.timer = 0 then moveCall s call .finishing
  else moveCall (setChannel s call.iod { chan with timer := 0, pending := chan.pending.erase chan.timer.toNat })
    call .finishing

/-- `DONE` says that the engine executes nothing. -/
def checkStep (s : PageDma) (call : PageCall) : PageDma :=
  if (s.channel call.iod).running = [] then moveCall s call .finishing else returnCall s call (some .ebusy) 0

def ssignalStep (s : PageDma) (iod : XmemDrvrIoDir) : PageDma :=
  let chan := s.channel iod
  let up := cdcmUp chan.semaphore
  let s := setChannel s iod { chan with semaphore := up.1, signalling := chan.signalling - 1 }
  match up.2, s.call with
  | some _, some call => moveCall s call .granted
  | _, _ => s

def atPlace (s : PageDma) (place : PagePlace) (step : PageCall → PageDma) : Option PageDma :=
  match s.call with
  | some call => if call.place = place then some (step call) else none
  | none => none

def pageNext (s : PageDma) : PageStep → Option PageDma
  | .call siod iod mapped dma => if s.call.isNone then some (callStep wa s siod iod mapped dma) else none
  | .arm timer =>
    if ∀ id ∈ timer, id ≠ 0 ∧ id ∉ (s.channel .read).pending ∧ id ∉ (s.channel .write).pending then
      atPlace s .mapped (armStep s · timer)
    else none
  | .reset => atPlace s .armed (resetStep s)
  | .start => atPlace s .ready (startStep s)
  | .wait => atPlace s .started (waitStep s)
  | .abort => atPlace s .waiting (abortStep s)
  | .test => atPlace s .granted fun call =>
      moveCall s call (if (s.channel call.iod).timer = 0 then .checking else .cancelling)
  | .cancel => atPlace s .cancelling (cancelStep s)
  | .check => atPlace s .checking (checkStep s)
  | .finish => atPlace s .finishing fun call => returnCall s call none (if call.mapped then 0 else 1)
  | .complete iod transfer =>
    let chan := s.channel iod
    if transfer ∈ chan.running then
      some { setChannel s iod { chan with running := chan.running.erase transfer, irq := true } with
        completed := transfer :: s.completed }
    else none
  | .interrupt iod =>
    let chan := s.channel iod
    if chan.irq then some (setChannel s iod { chan with irq := false, signalling := chan.signalling + 1 }) else none
  | .expire iod timer =>
    let chan := s.channel iod
    if timer ∈ chan.pending then
      some (setChannel s iod
        { chan with timer := 0, pending := chan.pending.erase timer, signalling := chan.signalling + 1 })
    else none
  | .ssignal iod => if 0 < (s.channel iod).signalling then some (ssignalStep s iod) else none

def pageDmaStart : PageDma := ⟨fun _ => ⟨⟨0, []⟩, 0, [], [], false, 0⟩, none, 0, [], []⟩

end Operations

/-! ## The tests are those of a page that is mapped -/

/-- What a page copy does once its engine has stopped, for a mapped page. -/
theorem pageCopy_eq (wa : SegArea) (siod : XmemDrvrSegIoDesc) (iod : XmemDrvrIoDir) (done : Bool) :
    (∀ err, pageError wa siod iod true (wa.moduleContexts (siod.module - 1)).dmaOp.dma = some err →
      pageCopy wa siod iod done = segFail wa err) ∧
    (pageError wa siod iod true (wa.moduleContexts (siod.module - 1)).dmaOp.dma = none →
      ∃ t, pageCopy wa siod iod done = ⟨if done then none else some .ebusy, [t], wa⟩) := by
  unfold pageError pageCopy
  rw [if_neg (by simp)]
  by_cases hmodule : siod.module = 0 ∨ wa.modules < siod.module
  · simp [hmodule]
  by_cases hid : siod.id = 0
  · simp [hmodule, hid]
  simp only [if_neg hmodule, if_neg hid]
  cases segmentOf wa.segTable siod.id with
  | none => simp
  | some segment =>
    rw [if_neg (by simp)]
    by_cases hdma : (wa.moduleContexts (siod.module - 1)).dmaOp.dma = 0
    · simp [hdma]
    by_cases hwrite : iod = .write ∧
        wrPermSeg wa.segTable siod.id (wa.moduleContexts (siod.module - 1)).nodeId = false
    · simp [hdma, hwrite]
    · simp only [if_neg hdma, if_neg hwrite]
      exact ⟨fun _ herr => absurd herr (by simp), fun _ => ⟨_, rfl⟩⟩

/-! ## A channel and its call -/

section Invariant
variable {wa : SegArea} {s s' : PageDma} {a : PageStep} {call : PageCall} {chan : DmaChannel} {iod : XmemDrvrIoDir}
  {completed : List ℕ}

/-- Success means that the transfer has been completed; and no timer, no mapping and no transfer is left behind. -/
structure PageReturn.Sound (r : PageReturn) : Prop where
  completed : r.error = none → r.completed = true
  timer : r.timerPending = false
  mapping : r.made = true → r.unmaps = 1
  engine : r.engineBusy = false

/-- The field holds the timer as long as it is running. -/
def ArmedTimer (chan : DmaChannel) : Prop :=
  chan.pending = [] ∧ chan.timer = 0 ∨ ∃ id, id ≠ 0 ∧ chan.pending = [id] ∧ chan.timer = (id : ℕ)

/-- The transfer is over, or the engine still executes it and nobody has signalled the semaphore. -/
def Transferring (call : PageCall) (chan : DmaChannel) (completed : List ℕ) : Prop :=
  chan.running = [] ∧ call.transfer ∈ completed ∨ chan.running = [call.transfer] ∧ chan.semaphore.count = 0

def AtPlace (call : PageCall) (chan : DmaChannel) (completed : List ℕ) : Prop :=
  match call.place with
  | .mapped => chan.pending = [] ∧ chan.running = []
  | .armed => ArmedTimer chan ∧ chan.running = []
  | .ready => ArmedTimer chan ∧ chan.running = [] ∧ chan.semaphore.count = 0
  | .started | .waiting => ArmedTimer chan ∧ Transferring call chan completed
  | .granted | .cancelling => ArmedTimer chan ∧ chan.running = [] ∧ call.transfer ∈ completed
  | .checking | .finishing => chan.pending = [] ∧ chan.running = [] ∧ call.transfer ∈ completed

structure Busy (call : PageCall) (chan : DmaChannel) (completed : List ℕ) : Prop where
  place : AtPlace call chan completed
  asleep : call.place = .waiting → chan.semaphore = ⟨0, [()]⟩
  awake : call.place ≠ .waiting → chan.semaphore.waitList = []

structure Quiet (chan : DmaChannel) : Prop where
  pending : chan.pending = []
  running : chan.running = []
  waitList : chan.semaphore.waitList = []

structure DmaInv (s : PageDma) : Prop where
  quiet : ∀ iod, (∀ call, s.call = some call → call.iod ≠ iod) → Quiet (s.channel iod)
  busy : ∀ call, s.call = some call → Busy call (s.channel call.iod) s.completed
  sound : ∀ r ∈ s.returns, r.Sound

/-- A transfer of this direction is about to be started or is being executed. -/
def Awaited (s : PageDma) (iod : XmemDrvrIoDir) : Prop :=
  ∃ call ∈ s.call, call.iod = iod ∧ (call.place = .ready ∨ call.transfer ∈ (s.channel iod).running)

/-- A write that needs a mapping is permitted, and there is a timer for every call that needs one; no signal ends a
wait; and no handler signals a semaphore whose transfer is still awaited. -/
def Undisturbed (wa : SegArea) (s : PageDma) : PageStep → Prop
  | .call siod iod mapped dma => mapped = false → pageError wa siod iod mapped dma ≠ some .eacces
  | .arm timer => timer = none → ∀ call ∈ s.call, call.mapped = true
  | .abort => False
  | .ssignal iod => ¬Awaited s iod
  | _ => True

instance (s : PageDma) (iod : XmemDrvrIoDir) : Decidable (Awaited s iod) :=
  inferInstanceAs (Decidable (∃ call ∈ s.call, _))

instance (s : PageDma) : (a : PageStep) → Decidable (Undisturbed wa s a)
  | .call siod iod mapped dma =>
    inferInstanceAs (Decidable (mapped = false → pageError wa siod iod mapped dma ≠ some .eacces))
  | .arm timer => inferInstanceAs (Decidable (timer = none → ∀ call ∈ s.call, call.mapped = true))
  | .abort => .isFalse id
  | .ssignal iod => inferInstanceAs (Decidable (¬Awaited s iod))
  | .reset | .start | .wait | .test | .cancel | .check | .finish | .complete .. | .interrupt _ | .expire .. =>
    .isTrue trivial

/-- The call in progress takes one step on its channel. -/
theorem DmaInv.moved (h : DmaInv s) (hcall : s.call = some call) (call' : PageCall) (hiod : call'.iod = call.iod)
    (hbusy : Busy call' chan s.completed) :
    DmaInv { setChannel s call.iod chan with call := some call' } := by
  refine ⟨fun iod hother => ?_, fun c hc => ?_, h.sound⟩
  · have hne : iod ≠ call.iod := by
      intro heq
      exact hother call' rfl (hiod.trans heq.symm)
    have hchannel : (setChannel s call.iod chan).channel iod = s.channel iod := Function.update_of_ne hne _ _
    dsimp only
    rw [hchannel]
    apply h.quiet
    intro c hc heq
    rw [hcall] at hc
    cases hc
    exact hne heq.symm
  · obtain rfl : call' = c := Option.some.inj hc
    have hchannel : (setChannel s call.iod chan).channel call'.iod = chan := by
      rw [hiod]
      exact Function.update_self ..
    dsimp only
    rw [hchannel]
    exact hbusy

/-- The same where the channel stays as it is. -/
theorem DmaInv.stepped (h : DmaInv s) (hcall : s.call = some call) {place : PagePlace}
    (hbusy : Busy { call with place := place } (s.channel call.iod) s.completed) : DmaInv (moveCall s call place) := by
  have hmoved := h.moved hcall { call with place := place } rfl hbusy
  have hsame : setChannel s call.iod (s.channel call.iod) = s := by
    unfold setChannel
    rw [Function.update_eq_self]
  rw [hsame] at hmoved
  exact hmoved

/-- A call that leaves its channel quiet returns. -/
theorem DmaInv.returned (h : DmaInv s) (hcall : s.call = some call) (hquiet : Quiet chan) {error : Option XmemErrno}
    {unmaps : ℕ} (hdone : error = none → call.transfer ∈ s.completed) (hunmaps : call.mapped = false → unmaps = 1) :
    DmaInv (returnCall (setChannel s call.iod chan) call error unmaps) := by
  have hchannel : (setChannel s call.iod chan).channel call.iod = chan := Function.update_self ..
  refine ⟨fun iod _ => ?_, (fun c hc => by cases hc), fun r hr => ?_⟩
  · show Quiet (Function.update s.channel call.iod chan iod)
    by_cases hiod : iod = call.iod
    · rw [hiod, Function.update_self]
      exact hquiet
    · rw [Function.update_of_ne hiod]
      apply h.quiet
      intro c hc heq
      rw [hcall] at hc
      cases hc
      exact hiod heq.symm
  · obtain rfl | hold := List.mem_cons.mp hr
    · rw [hchannel]
      refine ⟨fun hnone => ?_, ?_, fun hmade => ?_, ?_⟩
      · exact List.contains_iff_mem.mpr (hdone hnone)
      · dsimp only
        rw [hquiet.pending]
        cases call.timer <;> rfl
      · apply hunmaps
        simpa using hmade
      · dsimp only
        rw [hquiet.running]
        rfl
    · exact h.sound r hold

/-- What a call sees at its place. -/
theorem DmaInv.at (h : DmaInv s) (hcall : s.call = some call) {place : PagePlace} (hplace : call.place = place) :
    AtPlace { call with place := place } (s.channel call.iod) s.completed := by
  subst hplace
  exact (h.busy call hcall).place

theorem DmaInv.waitList (h : DmaInv s) (hcall : s.call = some call) (hawake : call.place ≠ .waiting) :
    (s.channel call.iod).semaphore.waitList = [] :=
  (h.busy call hcall).awake hawake

theorem busy_awake {place : PagePlace} (hplace : AtPlace { call with place := place } chan completed)
    (hawake : place ≠ .waiting) (hlist : chan.semaphore.waitList = []) :
      Busy { call with place := place } chan completed :=
  ⟨hplace, fun hwaiting => absurd hwaiting hawake, fun _ => hlist⟩

/-! ### The call -/

theorem DmaInv.called (h : DmaInv s) (hidle : s.call = none) {siod : XmemDrvrSegIoDesc} {mapped : Bool} {dma : ℕ}
    (hok : mapped = false → pageError wa siod iod mapped dma ≠ some .eacces) :
    DmaInv (callStep wa s siod iod mapped dma) := by
  have hquiet : ∀ d, Quiet (s.channel d) := by
    intro d
    apply h.quiet
    intro c hc
    rw [hidle] at hc
    cases hc
  unfold callStep
  split
  · rename_i err herr
    refine ⟨fun d _ => hquiet d, fun c hc => h.busy c hc, fun r hr => ?_⟩
    obtain rfl | hold := List.mem_cons.mp hr
    · refine ⟨(fun hnone => by cases hnone), rfl, fun hmade => ?_, rfl⟩
      rw [Bool.and_eq_true, Bool.not_eq_true', beq_iff_eq] at hmade
      obtain ⟨hmapped, rfl⟩ := hmade
      exact absurd herr (hok hmapped)
    · exact h.sound r hold
  · refine ⟨fun d _ => hquiet d, fun c hc => ?_, h.sound⟩
    cases hc
    exact ⟨⟨(hquiet iod).pending, (hquiet iod).running⟩, (fun hwaiting => by cases hwaiting),
      fun _ => (hquiet iod).waitList⟩

theorem DmaInv.armed (h : DmaInv s) (hcall : s.call = some call) (hplace : call.place = .mapped) {timer : Option ℕ}
    (hok : timer = none → call.mapped = true) (hid : ∀ id ∈ timer, id ≠ 0) : DmaInv (armStep s call timer) := by
  obtain ⟨hpending, hrunning⟩ := h.at hcall hplace
  have hlist := h.waitList hcall (by rw [hplace]; decide)
  unfold armStep
  cases timer with
  | none =>
    have hquiet : Quiet { s.channel call.iod with timer := 0 } := ⟨hpending, hrunning, hlist⟩
    refine h.returned hcall hquiet ?_ ?_
    · intro hnone
      cases hnone
    · intro hmapped
      rw [hok rfl] at hmapped
      cases hmapped
  | some id =>
    have hne : id ≠ 0 := hid id rfl
    refine h.moved hcall { call with timer := some id, place := .armed } rfl ⟨⟨Or.inr ⟨id, hne, ?_, rfl⟩, hrunning⟩,
      (fun hwaiting => by cases hwaiting), fun _ => hlist⟩
    exact congrArg (id :: ·) hpending

theorem DmaInv.reset (h : DmaInv s) (hcall : s.call = some call) (hplace : call.place = .armed) :
    DmaInv (resetStep s call) := by
  obtain ⟨harmed, hrunning⟩ := h.at hcall hplace
  have hlist := h.waitList hcall (by rw [hplace]; decide)
  have hreset : (sreset (s.channel call.iod).semaphore).1 = ⟨0, []⟩ := by
    unfold sreset
    split
    · rename_i hzero
      rw [hzero]
    · rw [hlist]
  refine h.moved hcall { call with place := .ready } rfl (busy_awake ⟨harmed, hrunning, ?_⟩ (by decide) ?_)
  · exact congrArg CdcmSem.count hreset
  · exact congrArg CdcmSem.waitList hreset

theorem DmaInv.start (h : DmaInv s) (hcall : s.call = some call) (hplace : call.place = .ready) :
    DmaInv (startStep s call) := by
  obtain ⟨harmed, hrunning, hcount⟩ := h.at hcall hplace
  have hlist := h.waitList hcall (by rw [hplace]; decide)
  refine h.moved hcall { call with place := .started } rfl (busy_awake ⟨harmed, Or.inr ⟨?_, hcount⟩⟩ (by decide) hlist)
  exact congrArg (call.transfer :: ·) hrunning

theorem DmaInv.wait (h : DmaInv s) (hcall : s.call = some call) (hplace : call.place = .started) :
    DmaInv (waitStep s call) := by
  obtain ⟨harmed, htransfer⟩ := h.at hcall hplace
  have hlist := h.waitList hcall (by rw [hplace]; decide)
  unfold waitStep cdcmDown
  by_cases hpos : 0 < (s.channel call.iod).semaphore.count
  · simp only [if_pos hpos, if_true]
    obtain hdone | ⟨-, hzero⟩ := htransfer
    · exact h.moved hcall { call with place := .granted } rfl (busy_awake ⟨harmed, hdone⟩ (by decide) hlist)
    · omega
  · have hzero : (s.channel call.iod).semaphore.count = 0 := Nat.eq_zero_of_not_pos hpos
    simp only [if_neg hpos, reduceCtorEq, if_false]
    refine h.moved hcall { call with place := .waiting } rfl
      ⟨⟨harmed, htransfer⟩, fun _ => ?_, fun hne => absurd rfl hne⟩
    dsimp only
    rw [hzero, hlist]
    rfl

theorem DmaInv.test (h : DmaInv s) (hcall : s.call = some call) (hplace : call.place = .granted) :
    DmaInv (moveCall s call (if (s.channel call.iod).timer = 0 then .checking else .cancelling)) := by
  obtain ⟨harmed, hdone⟩ := h.at hcall hplace
  have hlist := h.waitList hcall (by rw [hplace]; decide)
  split
  · rename_i htimer
    obtain ⟨hpending, -⟩ | ⟨id, hne, -, hid⟩ := harmed
    · exact h.stepped hcall (busy_awake ⟨hpending, hdone⟩ (by decide) hlist)
    · omega
  · exact h.stepped hcall (busy_awake ⟨harmed, hdone⟩ (by decide) hlist)

theorem DmaInv.cancel (h : DmaInv s) (hcall : s.call = some call) (hplace : call.place = .cancelling) :
    DmaInv (cancelStep s call) := by
  obtain ⟨harmed, hdone⟩ := h.at hcall hplace
  have hlist := h.waitList hcall (by rw [hplace]; decide)
  unfold cancelStep
  dsimp only
  split
  · rename_i htimer
    obtain ⟨hpending, -⟩ | ⟨id, hne, -, hid⟩ := harmed
    · exact h.stepped hcall (busy_awake ⟨hpending, hdone⟩ (by decide) hlist)
    · omega
  · rename_i htimer
    obtain ⟨-, hzero⟩ | ⟨id, hne, hpending, hid⟩ := harmed
    · exact absurd hzero htimer
    · refine h.moved hcall { call with place := .finishing } rfl (busy_awake ⟨?_, hdone⟩ (by decide) hlist)
      dsimp only
      rw [hpending, hid, Int.toNat_natCast]
      exact List.erase_cons_head ..

theorem DmaInv.check (h : DmaInv s) (hcall : s.call = some call) (hplace : call.place = .checking) :
    DmaInv (checkStep s call) := by
  have hat := h.at hcall hplace
  have hlist := h.waitList hcall (by rw [hplace]; decide)
  unfold checkStep
  rw [if_pos hat.2.1]
  exact h.stepped hcall (busy_awake hat (by decide) hlist)

theorem DmaInv.finish (h : DmaInv s) (hcall : s.call = some call) (hplace : call.place = .finishing) :
    DmaInv (returnCall s call none (if call.mapped then 0 else 1)) := by
  obtain ⟨hpending, hrunning, hdone⟩ := h.at hcall hplace
  have hlist := h.waitList hcall (by rw [hplace]; decide)
  have hsame : setChannel s call.iod (s.channel call.iod) = s := by
    unfold setChannel
    rw [Function.update_eq_self]
  have hreturned : DmaInv (returnCall (setChannel s call.iod (s.channel call.iod)) call none
      (if call.mapped then 0 else 1)) := by
    refine h.returned hcall ⟨hpending, hrunning, hlist⟩ (fun _ => hdone) fun hmapped => ?_
    rw [hmapped]
    rfl
  rw [hsame] at hreturned
  exact hreturned

/-! ### The engines and the handlers -/

theorem AtPlace.mono {completed' : List ℕ} (h : AtPlace call chan completed)
    (hkeep : ∀ transfer ∈ completed, transfer ∈ completed') : AtPlace call chan completed' := by
  unfold AtPlace Transferring at *
  cases hplace : call.place with
  | mapped | armed | ready => simpa [hplace] using h
  | started | waiting =>
    simp only [hplace] at h ⊢
    exact ⟨h.1, h.2.imp_left fun hdone => ⟨hdone.1, hkeep _ hdone.2⟩⟩
  | granted | cancelling | checking | finishing =>
    simp only [hplace] at h ⊢
    exact ⟨h.1, h.2.1, hkeep _ h.2.2⟩

/-- A step of a channel beside the call. -/
theorem DmaInv.beside (h : DmaInv s) (completed : List ℕ) (hquiet : Quiet (s.channel iod) → Quiet chan)
    (hbusy : ∀ call, s.call = some call → call.iod = iod → Busy call (s.channel iod) s.completed →
      Busy call chan completed) (hkeep : ∀ transfer ∈ s.completed, transfer ∈ completed) :
    DmaInv { setChannel s iod chan with completed := completed } := by
  refine ⟨fun d hother => ?_, fun call hcall => ?_, h.sound⟩
  · show Quiet (Function.update s.channel iod chan d)
    by_cases hd : d = iod
    · rw [hd, Function.update_self]
      exact hquiet (h.quiet iod (hd ▸ hother))
    · rw [Function.update_of_ne hd]
      exact h.quiet d hother
  · show Busy call (Function.update s.channel iod chan call.iod) completed
    have hold := h.busy call hcall
    by_cases hd : call.iod = iod
    · rw [hd] at hold ⊢
      rw [Function.update_self]
      exact hbusy call hcall hd hold
    · rw [Function.update_of_ne hd]
      exact ⟨hold.place.mono hkeep, hold.asleep, hold.awake⟩

/-- A transfer that is executed is that of the call. -/
theorem Busy.transferring (h : Busy call chan completed) {transfer : ℕ} (hmem : transfer ∈ chan.running) :
    (call.place = .started ∨ call.place = .waiting) ∧ ArmedTimer chan ∧ chan.running = [call.transfer] := by
  have hat := h.place
  unfold AtPlace Transferring at hat
  cases hplace : call.place with
  | mapped | armed => simp [hplace] at hat; simp [hat.2] at hmem
  | ready | granted | cancelling | checking | finishing => simp [hplace] at hat; simp [hat.2.1] at hmem
  | started | waiting =>
    simp only [hplace] at hat
    obtain ⟨harmed, ⟨hrunning, -⟩ | ⟨hrunning, -⟩⟩ := hat
    · rw [hrunning] at hmem
      cases hmem
    · exact ⟨by simp, harmed, hrunning⟩

theorem DmaInv.complete (h : DmaInv s) {transfer : ℕ} (hmem : transfer ∈ (s.channel iod).running) :
    DmaInv { setChannel s iod { s.channel iod with running := (s.channel iod).running.erase transfer, irq := true } with
      completed := transfer :: s.completed } := by
  refine h.beside (transfer :: s.completed) (fun hquiet => ?_) (fun call _ _ hbusy => ?_)
    fun _ hold => List.mem_cons_of_mem _ hold
  · rw [hquiet.running] at hmem
    cases hmem
  · obtain ⟨hplace, harmed, hrunning⟩ := hbusy.transferring hmem
    obtain rfl : transfer = call.transfer := by simpa [hrunning] using hmem
    refine ⟨?_, hbusy.asleep, hbusy.awake⟩
    have hover : (s.channel iod).running.erase call.transfer = [] := by simp [hrunning]
    unfold AtPlace Transferring
    obtain hplace | hplace := hplace
    · rw [hplace]
      exact ⟨harmed, Or.inl ⟨hover, List.mem_cons_self ..⟩⟩
    · rw [hplace]
      exact ⟨harmed, Or.inl ⟨hover, List.mem_cons_self ..⟩⟩

theorem DmaInv.interrupt (h : DmaInv s) : DmaInv (setChannel s iod
    { s.channel iod with irq := false, signalling := (s.channel iod).signalling + 1 }) :=
  h.beside s.completed (fun hquiet => ⟨hquiet.pending, hquiet.running, hquiet.waitList⟩)
    (fun _ _ _ hbusy => ⟨hbusy.place, hbusy.asleep, hbusy.awake⟩) fun _ hold => hold

theorem AtPlace.expired (h : AtPlace call chan completed) {timer : ℕ} (hmem : timer ∈ chan.pending) (n : ℕ) :
    AtPlace call { chan with timer := 0, pending := chan.pending.erase timer, signalling := n } completed := by
  have hover : ArmedTimer chan →
      ArmedTimer { chan with timer := 0, pending := chan.pending.erase timer, signalling := n } := by
    intro harmed
    obtain ⟨hnone, -⟩ | ⟨id, -, hone, -⟩ := harmed
    · rw [hnone] at hmem
      cases hmem
    · obtain rfl : timer = id := by simpa [hone] using hmem
      exact Or.inl ⟨by simp [hone], rfl⟩
  unfold AtPlace at h ⊢
  cases hplace : call.place with
  | mapped | checking | finishing =>
    simp only [hplace] at h
    rw [h.1] at hmem
    cases hmem
  | armed | ready | started | waiting | granted | cancelling =>
    simp only [hplace] at h ⊢
    exact ⟨hover h.1, h.2⟩

theorem DmaInv.expire (h : DmaInv s) {timer : ℕ} (hmem : timer ∈ (s.channel iod).pending) : DmaInv (setChannel s iod
    { s.channel iod with
      timer := 0
      pending := (s.channel iod).pending.erase timer
      signalling := (s.channel iod).signalling + 1 }) := by
  refine h.beside s.completed (fun hquiet => ?_)
    (fun _ _ _ hbusy => ⟨hbusy.place.expired hmem _, hbusy.asleep, hbusy.awake⟩) fun _ hold => hold
  rw [hquiet.pending] at hmem
  cases hmem

/-- A signal to a channel whose transfer is not awaited. -/
theorem AtPlace.signalled (h : AtPlace call chan completed) (hready : call.place ≠ .ready)
    (hover : call.transfer ∉ chan.running) (semaphore : CdcmSem Unit) (n : ℕ) :
    AtPlace call { chan with semaphore := semaphore, signalling := n } completed := by
  unfold AtPlace Transferring at *
  cases hplace : call.place with
  | ready => exact absurd hplace hready
  | started | waiting =>
    simp only [hplace] at h ⊢
    obtain ⟨harmed, hdone | ⟨hrunning, -⟩⟩ := h
    · exact ⟨harmed, Or.inl hdone⟩
    · rw [hrunning] at hover
      exact absurd (List.mem_singleton_self _) hover
  | mapped | armed | granted | cancelling | checking | finishing =>
    simp only [hplace] at h ⊢
    exact h

theorem DmaInv.ssignal (h : DmaInv s) (hok : ¬Awaited s iod) : DmaInv (ssignalStep s iod) := by
  have hapart : ∀ call, s.call = some call → call.iod = iod →
      call.place ≠ .ready ∧ call.transfer ∉ (s.channel iod).running := by
    intro call hcall hiod
    constructor
    · intro hready
      exact hok ⟨call, hcall, hiod, Or.inl hready⟩
    · intro hrunning
      exact hok ⟨call, hcall, hiod, Or.inr hrunning⟩
  by_cases hwaiting : ∃ call, s.call = some call ∧ call.iod = iod ∧ call.place = .waiting
  · obtain ⟨call, hcall, rfl, hplace⟩ := hwaiting
    have hsem := (h.busy call hcall).asleep hplace
    have hover := (hapart call hcall rfl).2
    obtain ⟨harmed, hdone | ⟨hrunning, -⟩⟩ := h.at hcall hplace
    · unfold ssignalStep cdcmUp
      simp only [hsem, setChannel, hcall]
      exact h.moved hcall { call with place := .granted } rfl (busy_awake ⟨harmed, hdone⟩ (by decide) rfl)
    · rw [hrunning] at hover
      exact absurd (List.mem_singleton_self _) hover
  · have hlist : (s.channel iod).semaphore.waitList = [] := by
      by_cases hcalled : ∃ call, s.call = some call ∧ call.iod = iod
      · obtain ⟨call, hcall, rfl⟩ := hcalled
        exact h.waitList hcall fun hplace => hwaiting ⟨call, hcall, rfl, hplace⟩
      · exact (h.quiet iod fun call hcall hiod => hcalled ⟨call, hcall, hiod⟩).waitList
    unfold ssignalStep cdcmUp
    simp only [hlist]
    refine h.beside s.completed (fun hquiet => ⟨hquiet.pending, hquiet.running, rfl⟩) (fun call hcall hiod hbusy => ?_)
      fun _ hold => hold
    obtain ⟨hready, hover⟩ := hapart call hcall hiod
    exact ⟨hbusy.place.signalled hready hover _ _, fun hplace => absurd ⟨call, hcall, hiod, hplace⟩ hwaiting,
      fun _ => rfl⟩

/-! ### Runs -/

theorem atPlace_some {place : PagePlace} {step : PageCall → PageDma} (h : atPlace s place step = some s') :
    ∃ call, s.call = some call ∧ call.place = place ∧ step call = s' := by
  unfold atPlace at h
  split at h
  · rename_i call hcall
    split at h
    · rename_i hplace
      exact ⟨call, hcall, hplace, Option.some.inj h⟩
    · cases h
  · cases h

theorem DmaInv.step (h : DmaInv s) (hok : Undisturbed wa s a) (hnext : pageNext wa s a = some s') : DmaInv s' := by
  cases a with
  | call siod iod mapped dma =>
    obtain ⟨hidle, heq⟩ := Option.ite_none_right_eq_some.mp hnext
    cases heq
    exact h.called (Option.isNone_iff_eq_none.mp hidle) hok
  | arm timer =>
    obtain ⟨hfresh, heq⟩ := Option.ite_none_right_eq_some.mp hnext
    obtain ⟨call, hcall, hplace, rfl⟩ := atPlace_some heq
    exact h.armed hcall hplace (fun hnone => hok hnone call hcall) fun id hid => (hfresh id hid).1
  | reset =>
    obtain ⟨call, hcall, hplace, rfl⟩ := atPlace_some hnext
    exact h.reset hcall hplace
  | start =>
    obtain ⟨call, hcall, hplace, rfl⟩ := atPlace_some hnext
    exact h.start hcall hplace
  | wait =>
    obtain ⟨call, hcall, hplace, rfl⟩ := atPlace_some hnext
    exact h.wait hcall hplace
  | abort => exact absurd hok id
  | test =>
    obtain ⟨call, hcall, hplace, rfl⟩ := atPlace_some hnext
    exact h.test hcall hplace
  | cancel =>
    obtain ⟨call, hcall, hplace, rfl⟩ := atPlace_some hnext
    exact h.cancel hcall hplace
  | check =>
    obtain ⟨call, hcall, hplace, rfl⟩ := atPlace_some hnext
    exact h.check hcall hplace
  | finish =>
    obtain ⟨call, hcall, hplace, rfl⟩ := atPlace_some hnext
    exact h.finish hcall hplace
  | complete iod transfer =>
    obtain ⟨hmem, heq⟩ := Option.ite_none_right_eq_some.mp hnext
    cases heq
    exact h.complete hmem
  | interrupt iod =>
    obtain ⟨-, heq⟩ := Option.ite_none_right_eq_some.mp hnext
    cases heq
    exact h.interrupt
  | expire iod timer =>
    obtain ⟨hmem, heq⟩ := Option.ite_none_right_eq_some.mp hnext
    cases heq
    exact h.expire hmem
  | ssignal iod =>
    obtain ⟨-, heq⟩ := Option.ite_none_right_eq_some.mp hnext
    cases heq
    exact h.ssignal hok

theorem dmaInv_start : DmaInv pageDmaStart :=
  ⟨fun _ _ => ⟨rfl, rfl, rfl⟩, (fun _ hcall => by cases hcall), (fun _ hr => by cases hr)⟩

/-- In every run that is not disturbed each call reports its own transfer and leaves nothing behind. -/
theorem returns_sound (h : Reach (pageNext wa) (Undisturbed wa) pageDmaStart s) : ∀ r ∈ s.returns, r.Sound :=
  (h.invariant dmaInv_start fun _ _ _ hs hok hnext => hs.step hok hnext).sound

end Invariant

/-! ## A signal in the middle of a transfer -/

section Example

def wholeTransfer : List PageStep :=
  [.call (wordAt 12) .write false 1, .arm (some 1), .reset, .start, .wait, .complete .write 0, .interrupt .write,
    .ssignal .write, .test, .cancel, .finish]

theorem wholeTransfer_sound : ∃ s, Reach (pageNext oneTable) (Undisturbed oneTable) pageDmaStart s ∧
    (∀ r ∈ s.returns, r.Sound) ∧ s.returns = [⟨none, true, 1, false, false, true⟩] := by
  have hrun : (replay (pageNext oneTable) (Undisturbed oneTable) pageDmaStart wholeTransfer).map PageDma.returns =
      some [⟨none, true, 1, false, false, true⟩] := by decide
  obtain ⟨s, hs, hreturns⟩ := Option.map_eq_some_iff.mp hrun
  have hreach := Reach.of_replay Reach.refl hs
  exact ⟨s, hreach, returns_sound hreach, hreturns⟩

/-- The wait is aborted: the timer runs on, and the engine works on a buffer whose mapping is still there. -/
def abortedTransfer : List PageStep :=
  [.call (wordAt 12) .write false 1, .arm (some 1), .reset, .start, .wait, .abort]

theorem abortedTransfer_unsound : ∃ s, Reach (pageNext oneTable) (fun _ _ => True) pageDmaStart s ∧
    ¬∀ r ∈ s.returns, r.Sound := by
  have hrun : (abortedTransfer.foldlM (pageNext oneTable) pageDmaStart).map PageDma.returns =
      some [⟨some .eintr, true, 0, true, true, false⟩] := by decide
  obtain ⟨s, hs, hreturns⟩ := Option.map_eq_some_iff.mp hrun
  refine ⟨s, Reach.of_foldlM .refl (fun _ _ _ => trivial) hs, fun hall => ?_⟩
  have hsound := hall _ (by rw [hreturns]; exact List.mem_singleton_self _)
  exact Bool.noConfusion hsound.timer

end Example

end HtDrivers.Xmem
