import HtDrivers.Lib.Transition
import HtDrivers.Sis33.AdcMemory

/-! # Transfers through the page register (`sis3320.c`)

Any number of tasks fetch events from one card, which the core allows on different segments. The page register and
its cached copy are shared; every access to one of them and every block read is a step of its own.
-/
namespace HtDrivers.Sis33
open HtDrivers.Lib.Transition
set_option autoImplicit false

/-- A card between its acquisitions: one segment or two, none of them in use, with events of a length that an
acquisition can have asked for. -/
structure ReadyCard where
  card : Card Unit
  segments : card.nSegments = 1 ∨ card.nSegments = 2
  idle : ∀ i, (card.segments i).acquiring = false ∧ (card.segments i).transferring = false
  evLength : ∀ i, (card.segments i).nrEvents ≠ 0 → (card.segments i).nrSampPerEv ∈ sis3320EvLengths

/-- A transfer of `nrEvents` events that has come to event `eventNr`, of which it has read `data`. -/
structure Transfer (α : Type) where
  list : AcqList
  nrEvents : ℕ
  eventNr : ℕ
  data : List α

/-- Where a task is with the block that it reads next. -/
inductive Stage
  /-- Before the test of the cached page. -/
  | test
  /-- Before the write of the cached page. -/
  | cache
  /-- Before the write of the register. -/
  | write
  /-- Before the block read. -/
  | read
  deriving DecidableEq, Repr

inductive FetchPc (α : Type)
  | out
  /-- Before an event, or behind the last. -/
  | event (x : Transfer α)
  | block (x : Transfer α) (stage : Stage) (block : BlockRead) (rest : List BlockRead)
  /-- Before `transferring` is cleared. -/
  | last (list : AcqList)

/-- A buffer that a transfer has filled. -/
structure Delivery (α : Type) where
  segment : ℕ
  channel : ℕ
  eventNr : ℕ
  data : List α

structure Paged (T α : Type) where
  card : Card Unit
  /-- `SIS3320_ADC_MEM_PAGE`. -/
  page : ℕ
  /-- `priv->curr_page`. -/
  currPage : ℕ
  pc : T → FetchPc α
  delivered : List (Delivery α)

def pagedInit (T α : Type) (c : ReadyCard) : Paged T α := ⟨c.card, 0, 0, fun _ => .out, []⟩

inductive PagedAct (T : Type)
  | fetch (t : T) (list : AcqList)
  | step (t : T)
  /-- The block read fails. -/
  | fault (t : T)
  deriving DecidableEq

section Steps
variable {T α : Type} [DecidableEq T]

def Paged.goto (s : Paged T α) (t : T) (p : FetchPc α) : Paged T α := { s with pc := Function.update s.pc t p }

/-- The blocks of the event that a transfer has come to. -/
def Transfer.blocks (card : Card Unit) (x : Transfer α) : List BlockRead :=
  getData (getSegmentBase limits3320 card x.list.segment) (card.segments x.list.segment).nrSampPerEv x.eventNr
    (x.list.acqs.getD x.eventNr 0)

/-- A transfer whose event is complete. -/
def Transfer.next (x : Transfer α) : Transfer α := { x with eventNr := x.eventNr + 1, data := [] }

def Transfer.delivery (x : Transfer α) : Delivery α := ⟨x.list.segment, x.list.channel, x.eventNr, x.data⟩

/-- The locked section of FETCH on a segment that is not acquiring. -/
def fetchPaged (s : Paged T α) (t : T) (list : AcqList) : Option (Paged T α) :=
  if fetchArgs list = none ∧ fetchRange limits3320 s.card list = none ∧ fetchCheck s.card list = none then
    some ({ s with card := setTransferring s.card list.segment true }.goto t
      (.event ⟨list, fetchEvents s.card list, 0, []⟩))
  else some s

/-- The first stage of the next block; the event is delivered behind its last block. -/
def nextBlock (s : Paged T α) (t : T) (x : Transfer α) : List BlockRead → Paged T α
  | block :: rest => s.goto t (.block x .test block rest)
  | [] => { s with delivered := s.delivered ++ [x.delivery] }.goto t (.event x.next)

def stepPaged (mem : ℕ → ℕ → α) (s : Paged T α) (t : T) : Option (Paged T α) :=
  match s.pc t with
  | .out => none
  | .event x =>
    if x.eventNr < x.nrEvents then some (nextBlock s t x (x.blocks s.card)) else some (s.goto t (.last x.list))
  | .block x .test block rest =>
    some (s.goto t (.block x (if block.page = s.currPage then .read else .cache) block rest))
  | .block x .cache block rest => some ({ s with currPage := block.page }.goto t (.block x .write block rest))
  | .block x .write block rest => some ({ s with page := block.page }.goto t (.block x .read block rest))
  | .block x .read block rest =>
    some (nextBlock s t { x with data := x.data ++ windowBytes (mem x.list.channel) s.page block } rest)
  | .last list => some ({ s with card := setTransferring s.card list.segment false }.goto t .out)

def pagedNext (mem : ℕ → ℕ → α) (s : Paged T α) : PagedAct T → Option (Paged T α)
  | .fetch t list =>
    match s.pc t with
    | .out => fetchPaged s t list
    | _ => none
  | .step t => stepPaged mem s t
  | .fault t =>
    match s.pc t with
    | .block x .read _ _ => some (s.goto t (.last x.list))
    | _ => none

/-! ## The property and the condition -/

/-- The buffer holds the bytes of its event. -/
def Delivery.Right (mem : ℕ → ℕ → α) (card : Card Unit) (d : Delivery α) : Prop :=
  d.data = eventBytes (mem d.channel) (getSegmentBase limits3320 card d.segment)
    (card.segments d.segment).nrSampPerEv d.eventNr

instance {mem : ℕ → ℕ → α} [DecidableEq α] {card : Card Unit} (d : Delivery α) : Decidable (d.Right mem card) :=
  inferInstanceAs (Decidable (d.data = _))

/-- Every buffer is right in every state, and every block is read on its own page. -/
structure PagesRight (mem : ℕ → ℕ → α) (ok : Paged T α → PagedAct T → Prop) (start : Paged T α) : Prop where
  delivered : ∀ s, Reach (pagedNext mem) ok start s → ∀ d ∈ s.delivered, d.Right mem s.card
  page : ∀ s, Reach (pagedNext mem) ok start s → ∀ t x block rest, s.pc t = .block x .read block rest →
    s.page = block.page

/-- The page of the block that is about to be read. -/
def FetchPc.reading : FetchPc α → Option ℕ
  | .block _ .read next _ => some next.page
  | _ => none

/-- Between the selection of a page and the block read nobody takes it away: a task that finds its page in the cached
copy finds it in the register too, and the register is written only when no other task is about to read a block of
another page. -/
structure PageHeld (s : Paged T α) (a : PagedAct T) : Prop where
  test : ∀ t x block rest, a = .step t → s.pc t = .block x .test block rest → block.page = s.currPage →
    s.page = block.page
  write : ∀ t x block rest, a = .step t → s.pc t = .block x .write block rest →
    ∀ u, u ≠ t → ∀ p, (s.pc u).reading = some p → p = block.page

/-! ## The invariant -/

variable {mem : ℕ → ℕ → α} {s s' : Paged T α} {a : PagedAct T} {t : T} {card : Card Unit} {x : Transfer α}
  {block : BlockRead} {rest : List BlockRead} {stage : Stage} {list : AcqList}

/-- Two cards that differ in the flags of their segments at most. -/
structure SameEvents (card card' : Card Unit) : Prop where
  nSegments : card'.nSegments = card.nSegments
  nrSampPerEv : ∀ i, (card'.segments i).nrSampPerEv = (card.segments i).nrSampPerEv
  nrEvents : ∀ i, (card'.segments i).nrEvents = (card.segments i).nrEvents

theorem SameEvents.setTransferring {card' : Card Unit} (h : SameEvents card card') (i : ℕ) (b : Bool) :
    SameEvents card (setTransferring card' i b) := by
  have hkept : ∀ j, ((Sis33.setTransferring card' i b).segments j).nrSampPerEv = (card'.segments j).nrSampPerEv ∧
      ((Sis33.setTransferring card' i b).segments j).nrEvents = (card'.segments j).nrEvents := by
    intro j
    unfold Sis33.setTransferring
    by_cases hj : j = i
    · subst hj
      rw [setSegment_self]
      exact ⟨rfl, rfl⟩
    · rw [setSegment_of_ne hj]
      exact ⟨rfl, rfl⟩
  exact ⟨h.nSegments, fun j => (hkept j).1.trans (h.nrSampPerEv j), fun j => (hkept j).2.trans (h.nrEvents j)⟩

theorem SameEvents.base {card' : Card Unit} (h : SameEvents card card') (i : ℕ) :
    getSegmentBase limits3320 card' i = getSegmentBase limits3320 card i := by
  unfold getSegmentBase
  rw [h.nSegments]

theorem SameEvents.blocks {card' : Card Unit} (h : SameEvents card card') (x : Transfer α) :
    x.blocks card' = x.blocks card := by
  unfold Transfer.blocks
  rw [h.base, h.nrSampPerEv]

theorem SameEvents.right {card' : Card Unit} (h : SameEvents card card') (d : Delivery α) :
    d.Right mem card' ↔ d.Right mem card := by
  unfold Delivery.Right
  rw [h.base, h.nrSampPerEv]

/-- The events of a transfer are on the card, and its buffers have the size of an event. -/
structure Transfer.Fits (card : Card Unit) (x : Transfer α) : Prop where
  segment : x.list.segment < card.nSegments
  evLength : (card.segments x.list.segment).nrSampPerEv ∈ sis3320EvLengths
  size : ∀ k < x.nrEvents, x.list.acqs.getD k 0 = 2 * (card.segments x.list.segment).nrSampPerEv

/-- What has been read of an event, with the blocks that are left. -/
def Partly (mem : ℕ → ℕ → α) (card : Card Unit) (x : Transfer α) (left : List BlockRead) : Prop :=
  x.eventNr < x.nrEvents ∧ ∃ read, read ++ left = x.blocks card ∧
    x.data = read.flatMap fun block => windowBytes (mem x.list.channel) block.page block

/-- What the place of a task says of the register. -/
def FetchPc.Ok (mem : ℕ → ℕ → α) (card : Card Unit) (page : ℕ) : FetchPc α → Prop
  | .out => True
  | .event x => x.Fits card ∧ x.data = []
  | .block x stage block rest => x.Fits card ∧ Partly mem card x (block :: rest) ∧ (stage = .read → page = block.page)
  | .last _ => True

theorem FetchPc.Ok.reading {pc : FetchPc α} {page p : ℕ} (h : pc.Ok mem card page) (hp : pc.reading = some p) :
    page = p := by
  cases pc with
  | out | event | last => cases hp
  | block x stage block rest =>
    cases stage with
    | test | cache | write => cases hp
    | read =>
      cases hp
      exact h.2.2 rfl

theorem FetchPc.Ok.page {pc : FetchPc α} {page page' : ℕ} (h : pc.Ok mem card page)
    (hpage : ∀ p, pc.reading = some p → page' = p) : pc.Ok mem card page' := by
  cases pc with
  | out | event | last => exact h
  | block x stage block rest =>
    refine ⟨h.1, h.2.1, fun hstage => hpage _ ?_⟩
    rw [hstage]
    rfl

structure PagedInv (mem : ℕ → ℕ → α) (card : Card Unit) (s : Paged T α) : Prop where
  same : SameEvents card s.card
  pc : ∀ t, (s.pc t).Ok mem card s.page
  delivered : ∀ d ∈ s.delivered, d.Right mem card

/-- A task moves; the register is left alone, or suits what the others are about to read. -/
theorem PagedInv.goto {pc : FetchPc α} (hi : PagedInv mem card s) (hpc : s'.pc = Function.update s.pc t pc)
    (hsame : SameEvents card s'.card) (hok : pc.Ok mem card s'.page)
    (hothers : ∀ u, u ≠ t → ∀ p, (s.pc u).reading = some p → s'.page = p)
    (hdelivered : ∀ d ∈ s'.delivered, d.Right mem card) : PagedInv mem card s' := by
  refine ⟨hsame, fun u => ?_, hdelivered⟩
  by_cases hu : u = t
  · rw [hpc, hu, Function.update_self]
    exact hok
  · rw [hpc, Function.update_of_ne hu]
    exact (hi.pc u).page (hothers u hu)

omit [DecidableEq T] in
theorem PagedInv.held (hi : PagedInv mem card s) (u : T) (_ : u ≠ t) (p : ℕ) (hp : (s.pc u).reading = some p) :
    s.page = p := (hi.pc u).reading hp

theorem Partly.start (h : x.eventNr < x.nrEvents) (hdata : x.data = []) : Partly mem card x (x.blocks card) :=
  ⟨h, [], rfl, hdata⟩

theorem Partly.read (h : Partly mem card x (block :: rest)) :
    Partly mem card { x with data := x.data ++ windowBytes (mem x.list.channel) block.page block } rest := by
  obtain ⟨hlt, read, hblocks, hdata⟩ := h
  refine ⟨hlt, read ++ [block], ?_, ?_⟩
  · rw [List.append_assoc]
    exact hblocks
  · dsimp only
    rw [hdata, List.flatMap_append, List.flatMap_singleton]

/-- Behind its last block the event is complete. -/
theorem Partly.delivery (hbase : x.list.segment < card.nSegments → pageSizeSamples ∣
    getSegmentBase limits3320 card x.list.segment) (hfits : x.Fits card) (h : Partly mem card x []) :
    x.delivery.Right mem card := by
  obtain ⟨hlt, read, hblocks, hdata⟩ := h
  rw [List.append_nil] at hblocks
  change x.data = _
  rw [hdata, hblocks, Transfer.blocks, hfits.size _ hlt]
  exact getData_bytes (evLength_pages hfits.evLength) (hbase hfits.segment)

/-- The task goes on with the next block, or with the next event. -/
theorem PagedInv.nextBlock {left : List BlockRead} (hi : PagedInv mem card s)
    (hbase : ∀ i < card.nSegments, pageSizeSamples ∣ getSegmentBase limits3320 card i) (hfits : x.Fits card)
    (hleft : Partly mem card x left) : PagedInv mem card (nextBlock s t x left) := by
  cases left with
  | cons block rest => exact hi.goto rfl hi.same ⟨hfits, hleft, nofun⟩ hi.held hi.delivered
  | nil =>
    refine hi.goto rfl hi.same ⟨⟨hfits.segment, hfits.evLength, hfits.size⟩, rfl⟩ hi.held ?_
    intro d hd
    obtain hd | hd := List.mem_append.mp hd
    · exact hi.delivered d hd
    · rw [List.mem_singleton.mp hd]
      exact hleft.delivery (hbase _) hfits

theorem PagedInv.step (hi : PagedInv mem card s)
    (hbase : ∀ i < card.nSegments, pageSizeSamples ∣ getSegmentBase limits3320 card i)
    (hheld : PageHeld s (.step t)) (h : stepPaged mem s t = some s') : PagedInv mem card s' := by
  have hok := hi.pc t
  unfold stepPaged at h
  split at h
  · cases h
  · rename_i x hpc
    rw [hpc] at hok
    obtain ⟨hfits, hdata⟩ := hok
    split at h
    · cases h
      rw [hi.same.blocks]
      exact hi.nextBlock hbase hfits (.start ‹_› hdata)
    · cases h
      exact hi.goto rfl hi.same trivial hi.held hi.delivered
  · rename_i x block rest hpc
    rw [hpc] at hok
    obtain ⟨hfits, hleft, -⟩ := hok
    cases h
    refine hi.goto rfl hi.same ⟨hfits, hleft, ?_⟩ hi.held hi.delivered
    split
    · rename_i hcached
      exact fun _ => hheld.test t x block rest rfl hpc hcached
    · exact nofun
  · rename_i x block rest hpc
    rw [hpc] at hok
    obtain ⟨hfits, hleft, -⟩ := hok
    cases h
    exact hi.goto rfl hi.same ⟨hfits, hleft, nofun⟩ hi.held hi.delivered
  · rename_i x block rest hpc
    rw [hpc] at hok
    obtain ⟨hfits, hleft, -⟩ := hok
    cases h
    refine hi.goto rfl hi.same ⟨hfits, hleft, fun _ => rfl⟩ ?_ hi.delivered
    exact fun u hu p hp => (hheld.write t x block rest rfl hpc u hu p hp).symm
  · rename_i x block rest hpc
    rw [hpc] at hok
    obtain ⟨hfits, hleft, hpage⟩ := hok
    cases h
    rw [hpage rfl]
    exact hi.nextBlock hbase ⟨hfits.segment, hfits.evLength, hfits.size⟩ hleft.read
  · rename_i list hpc
    cases h
    exact hi.goto rfl (hi.same.setTransferring _ _) trivial hi.held hi.delivered

omit [DecidableEq T] in
/-- The transfer of an accepted FETCH has events on the card and buffers of their size. -/
theorem Transfer.Fits.of_fetch (c : ReadyCard) (hsame : SameEvents c.card s.card)
    (hrange : fetchRange limits3320 s.card list = none) (hcheck : fetchCheck s.card list = none) :
    (⟨list, fetchEvents s.card list, 0, []⟩ : Transfer α).Fits c.card := by
  obtain ⟨-, -, hevents, hbuffers⟩ := fetchCheck_none hcheck
  refine ⟨?_, ?_, ?_⟩
  · unfold fetchRange at hrange
    split at hrange
    · cases hrange
    · rw [← hsame.nSegments]
      dsimp only
      omega
  · refine c.evLength _ ?_
    rw [← hsame.nrEvents]
    unfold fetchEvents at hevents
    dsimp only
    omega
  · intro k hk
    have hsize := (checkAcqBuffers_size hbuffers (Nat.min_le_right _ _) hk).2
    rw [hsame.nrSampPerEv] at hsize
    exact hsize.trans (Nat.mul_comm _ _)

theorem PagedInv.next (c : ReadyCard) (hi : PagedInv mem c.card s) (hheld : PageHeld s a)
    (h : pagedNext mem s a = some s') : PagedInv mem c.card s' := by
  cases a with
  | fetch t list =>
    simp only [pagedNext] at h
    split at h
    · unfold fetchPaged at h
      split at h
      · rename_i hchecks
        cases h
        exact hi.goto rfl (hi.same.setTransferring _ _) ⟨.of_fetch c hi.same hchecks.2.1 hchecks.2.2, rfl⟩ hi.held
          hi.delivered
      · cases h
        exact hi
    · cases h
  | step t =>
    refine hi.step (fun i hi => ?_) hheld h
    rw [segmentBase_pages c.segments hi]
    exact Dvd.dvd.mul_left (by decide) i
  | fault t =>
    simp only [pagedNext] at h
    split at h
    · cases h
      exact hi.goto rfl hi.same trivial hi.held hi.delivered
    · cases h

/-- After a step that takes a page away, some task is about to read its block from another page. -/
theorem pageHeld_of_right (h : pagedNext mem s a = some s')
    (hright : ∀ t x block rest, s'.pc t = .block x .read block rest → s'.page = block.page) : PageHeld s a := by
  refine ⟨?_, ?_⟩
  · rintro t x block rest rfl hpc hcached
    simp only [pagedNext, stepPaged, hpc, if_pos hcached] at h
    cases h
    exact hright t x block rest (Function.update_self ..)
  · rintro t x block rest rfl hpc u hu p hp
    simp only [pagedNext, stepPaged, hpc] at h
    cases h
    cases hother : s.pc u with
    | out | event | last =>
      rw [hother] at hp
      cases hp
    | block x' stage block' rest' =>
      rw [hother] at hp
      cases stage with
      | test | cache | write => cases hp
      | read =>
        cases hp
        exact (hright u x' block' rest' ((Function.update_of_ne hu ..).trans hother)).symm

end Steps

/-! ## Two transfers at once -/

/-- Two segments with one event of 64 samples each. -/
def twoEvents : ReadyCard where
  card :=
    { nSegments := 2
      segments := fun _ => { acquiring := false, transferring := false, nrSampPerEv := 64, nrEvents := 1, cache := () }
      currSegment := 0
      acqNo := 2 }
  segments := .inr rfl
  idle _ := ⟨rfl, rfl⟩
  evLength _ _ := by
    change 64 ∈ sis3320EvLengths
    decide

/-- Two transfers overlap, each with its page from its selection to its block read. -/
def interleavedTransfers : List (PagedAct Bool) :=
  [.fetch false ⟨0, 0, [128], 0⟩, .fetch true ⟨1, 0, [128], 0⟩, .step false, .step true, .step true, .step false,
    .step false, .step true, .step true, .step true]

example : (interleavedTransfers.foldlM (pagedNext fun _ address => address) (pagedInit Bool ℕ twoEvents)).map
    (fun s => (s.delivered.map Delivery.segment,
      decide (∀ d ∈ s.delivered, d.Right (fun _ address => address) s.card))) = some ([0, 1], true) := by
  decide

/-- Between the test of a task and its block read, the other task selects a page for the second segment. -/
def twoTransfers : List (PagedAct Bool) :=
  [.fetch false ⟨0, 0, [128], 0⟩, .step false, .step false, .fetch true ⟨1, 0, [128], 0⟩, .step true, .step true,
    .step true, .step true, .step false]

end HtDrivers.Sis33
