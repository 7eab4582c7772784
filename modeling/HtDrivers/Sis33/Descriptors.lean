import HtDrivers.Sis33.PageRegister

/-! # The descriptors that a transfer returns (`sis3320.c`)

Operations on one card, one after the other. An acquisition gives the length of the events when it starts and the
events when it finishes.
-/
namespace HtDrivers.Sis33
open HtDrivers.Lib.Transition
set_option autoImplicit false

/-- A pointer to a block, `NULL` or an `ERR_PTR`. -/
inductive Ptr (α : Type)
  | null
  | err (e : Errno)
  | to (a : α)

/-- `sis33_event` -/
structure EventDesc where
  nrSamples : ℕ
  firstSamp : ℕ
  deriving DecidableEq, Repr

structure EventData where
  /-- The descriptors of a channel are contiguous. -/
  events : Ptr (ℕ → EventDesc)
  prevticks : Ptr (List ℕ)

/-- What `sis3320_conf_ev` tells the hardware of an acquisition. -/
structure Program where
  nrEvents : ℕ
  evLength : ℕ
  base : ℕ
  deriving DecidableEq, Repr

/-! ## The end of an acquisition -/

/-- `EV_DIR_ADDR` -/
def evDirAddr : BitVec 32 := 0x1ffffff

/-- `EV_DIR_WRAP` -/
def evDirWrap (reg : BitVec 32) : Bool := reg.getLsbD 28

/-- `sis3320_process_event`: acquisitions are done in groups of 4 samples. -/
def processEvent (base nrSamp eventNr : ℕ) (reg : BitVec 32) : EventDesc :=
  let nextSample := (reg &&& evDirAddr) - BitVec.ofNat 32 (eventNr * nrSamp) - BitVec.ofNat 32 base
  let nextSample := nextSample &&& ~~~3#32
  if evDirWrap reg then ⟨nrSamp, nextSample.toNat⟩ else ⟨nextSample.toNat, 0⟩

/-- What the work item reads: the counter, the event directory of each channel and the timestamps. -/
structure Directory where
  counter : ℕ
  events : ℕ → ℕ → BitVec 32
  tstamps : List (BitVec 32 × BitVec 32)
  /-- What fails for the events, and for the prevticks. -/
  fault : Fault
  stampFault : Fault

def Directory.nrEvents (dir : Directory) : ℕ := dir.counter &&& evCounterMask

/-- The events of the acquisition before are freed. -/
def freeEvents (segment : Segment EventData) : Segment EventData :=
  match segment.cache.events with
  | .to _ => { segment with nrEvents := 0, cache := { segment.cache with events := .null } }
  | _ => segment

/-- `sis3320_read_segment` -/
def readSegment (card : Card EventData) (i : ℕ) (dir : Directory) : Segment EventData :=
  let segment := freeEvents (card.segments i)
  let n := dir.nrEvents
  let segment := { segment with nrEvents := n }
  if n = 0 then segment
  else
    match dir.fault with
    | .alloc => { segment with cache := { segment.cache with events := .err .enomem } }
    | .read => { segment with nrEvents := 0, cache := { segment.cache with events := .null } }
    | .none =>
      let base := getSegmentBase limits3320 card i
      let event := fun k => processEvent base segment.nrSampPerEv (k % n) (dir.events (k / n) (k % n))
      { segment with cache := { segment.cache with events := .to event } }

/-- `sis3302_pt_cache_fill` -/
def ptCacheFill (raw : List (BitVec 32 × BitVec 32)) (n : ℕ) : List ℕ :=
  (raw.take n).map fun stamp => (stamp.1 &&& 0xffff).toNat * 2 ^ 32 + stamp.2.toNat

/-- `sis3302_pt_cache_normalize` -/
def ptCacheNormalize (ptCache : List ℕ) : List ℕ :=
  (List.range ptCache.length).foldl (fun c i => c.set i ((c.getD i 0 + 2 ^ 64 - c.getD 0 0) % 2 ^ 64)) ptCache

/-- `sis3320_read_prevticks` -/
def readPrevticks (version : ℕ) (segment : Segment EventData) (dir : Directory) : Segment EventData :=
  if version ≠ 3302 ∨ segment.nrEvents = 0 then segment
  else
    match dir.stampFault with
    | .alloc => { segment with cache := { segment.cache with prevticks := .err .enomem } }
    | .read => { segment with cache := { segment.cache with prevticks := .null } }
    | .none =>
      { segment with
        cache := { segment.cache with
          prevticks := .to (ptCacheNormalize (ptCacheFill dir.tstamps segment.nrEvents)) } }

/-- `sis3320_irq_work` on the segment that acquires. -/
def irqSegment (version : ℕ) (card : Card EventData) (i : ℕ) (dir : Directory) : Segment EventData :=
  { readPrevticks version (readSegment card i dir) dir with acquiring := false }

/-! ## FETCH -/

/-- What a FETCH returns of an event, with the blocks that it has read for it. -/
structure AcqOut where
  nrSamples : ℕ
  firstSamp : ℕ
  be : ℕ
  prevticks : ℕ
  reads : List BlockRead

/-- `sis3320_read_event` -/
def readEvent (card : Card EventData) (list : AcqList) (eventNr : ℕ) : Except Errno AcqOut :=
  let segment := card.segments list.segment
  if segment.nrEvents = 0 then .error .enodata
  else
    match segment.cache.events with
    | .null => .error .enodata
    | .err e => .error e
    | .to events =>
      let out := fun prevticks =>
        let event := events (list.channel * segment.nrEvents + eventNr)
        ⟨event.nrSamples, event.firstSamp, 1, prevticks,
          getData (getSegmentBase limits3320 card list.segment) segment.nrSampPerEv eventNr
            (list.acqs.getD eventNr 0)⟩
      match segment.cache.prevticks with
      | .null => .ok (out 0)
      | .err e => .error e
      | .to ptCache => .ok (out (ptCache.getD eventNr 0))

/-- The events before event `n`, in order, up to the first error. -/
def fetchLoop (event : ℕ → Except Errno AcqOut) : ℕ → Except Errno (List AcqOut)
  | 0 => .ok []
  | n + 1 =>
    match fetchLoop event n with
    | .error e => .error e
    | .ok outs =>
      match event n with
      | .error e => .error e
      | .ok out => .ok (outs ++ [out])

/-- A FETCH on a card on which nothing else is under way. -/
def fetch3320 (card : Card EventData) (list : AcqList) : Except Errno (List AcqOut) :=
  match fetchArgs list with
  | some e => .error e
  | none =>
    match fetchRange limits3320 card list with
    | some e => .error e
    | none =>
      match fetchCheck card list with
      | some e => .error e
      | none => fetchLoop (readEvent card list) (fetchEvents card list)

/-! ## Operations -/

structure Sequential where
  card : Card EventData
  program : Program
  /-- Not in the source: the acquisition that has filled a segment last. -/
  made : ℕ → Program
  /-- Not in the source: the length that the acquisition asked for that has been cancelled on a segment last, after
  it was filled. -/
  cancelled : ℕ → Option ℕ

inductive Op
  | acquire (desc : AcqDesc)
  | finished (dir : Directory)
  | cancel
  | store (segments : ℤ)
  | fetch (list : AcqList)

def sequentialInit : Sequential := ⟨cardInit ⟨.null, .null⟩ 2, ⟨0, 0, 0⟩, fun _ => ⟨0, 0, 0⟩, fun _ => none⟩

def confEv (card : Card EventData) (desc : AcqDesc) : Program :=
  ⟨desc.nrEvents, desc.evLength, getSegmentBase limits3320 card desc.segment⟩

def opNext (version : ℕ) (s : Sequential) : Op → Option Sequential
  | .acquire desc =>
    if acqArgs desc = none ∧ acqCheck limits3320 s.card desc = none then
      some { s with card := acqAccept s.card desc, program := confEv s.card desc }
    else some s
  | .finished dir =>
    let i := s.card.currSegment
    if (s.card.segments i).acquiring then
      some { s with
        card := s.card.setSegment i (irqSegment version s.card i dir)
        made := Function.update s.made i s.program
        cancelled := Function.update s.cancelled i none }
    else none
  | .cancel =>
    let i := s.card.currSegment
    if (s.card.segments i).acquiring then
      some { s with
        card := s.card.setSegment i { s.card.segments i with acquiring := false }
        cancelled := Function.update s.cancelled i (some s.program.evLength) }
    else some s
  | .store segments =>
    if storeCheck limits3320 s.card segments = none then
      some { s with card := setNSegments limits3320 s.card segments }
    else some s
  | .fetch _ => some s

/-- The directory address of an event of the acquisition lies within the range of that event. -/
def InDirectory (s : Sequential) (op : Op) : Prop :=
  ∀ dir, op = .finished dir → ∀ channel < limits3320.nChannels, ∀ k < dir.nrEvents,
    s.program.base + k * s.program.evLength ≤ (dir.events channel k &&& evDirAddr).toNat ∧
      (dir.events channel k &&& evDirAddr).toNat < s.program.base + (k + 1) * s.program.evLength

instance (s : Sequential) (op : Op) : Decidable (InDirectory s op) :=
  match op with
  | .finished dir =>
    decidable_of_iff (∀ channel < limits3320.nChannels, ∀ k < dir.nrEvents,
      s.program.base + k * s.program.evLength ≤ (dir.events channel k &&& evDirAddr).toNat ∧
        (dir.events channel k &&& evDirAddr).toNat < s.program.base + (k + 1) * s.program.evLength)
      ⟨fun h _ hop => by cases hop; exact h, fun h => h dir rfl⟩
  | .acquire _ | .cancel | .store _ | .fetch _ => isTrue nofun

/-- What is returned of an event lies within its buffer, and is read where the acquisition has put the event. -/
structure Describes (program : Program) (size eventNr : ℕ) (out : AcqOut) : Prop where
  nrSamples : out.nrSamples * 2 ≤ size
  firstSamp : out.firstSamp * 2 < size ∨ out.nrSamples = 0 ∧ out.firstSamp = 0
  reads : out.reads = getData program.base program.evLength eventNr (2 * program.evLength)

/-- If an acquisition has been cancelled on the segment since it was filled, the last one asked for events of the
same length. -/
def CancelledAlike (s : Sequential) (i : ℕ) : Prop := ∀ len, s.cancelled i = some len → len = (s.made i).evLength

/-! ## One event -/

section Event
variable {base nrSamp eventNr : ℕ} {reg : BitVec 32}

/-- An address within the range of the event gives descriptors within the event. -/
theorem processEvent_inRange (hbase : base + eventNr * nrSamp ≤ (reg &&& evDirAddr).toNat)
    (hlt : (reg &&& evDirAddr).toNat < base + (eventNr + 1) * nrSamp) :
    (processEvent base nrSamp eventNr reg).nrSamples ≤ nrSamp ∧
      (processEvent base nrSamp eventNr reg).firstSamp < nrSamp := by
  have haddr : (reg &&& evDirAddr).toNat < 2 ^ 25 := by
    rw [BitVec.toNat_and]
    exact lt_of_le_of_lt Nat.and_le_right (by decide)
  have hstep : (eventNr + 1) * nrSamp = eventNr * nrSamp + nrSamp := Nat.succ_mul eventNr nrSamp
  have hoffset : ((reg &&& evDirAddr) - BitVec.ofNat 32 (eventNr * nrSamp) - BitVec.ofNat 32 base).toNat =
      (reg &&& evDirAddr).toNat - eventNr * nrSamp - base := by
    simp only [BitVec.toNat_sub, BitVec.toNat_ofNat]
    omega
  have hgroup : (((reg &&& evDirAddr) - BitVec.ofNat 32 (eventNr * nrSamp) - BitVec.ofNat 32 base) &&&
      ~~~3#32).toNat < nrSamp := by
    rw [BitVec.toNat_and]
    refine lt_of_le_of_lt Nat.and_le_left ?_
    omega
  unfold processEvent
  dsimp only
  split
  · exact ⟨le_rfl, hgroup⟩
  · exact ⟨hgroup.le, Nat.zero_lt_of_lt hgroup⟩

end Event

/-! ## Runs -/

section Runs
variable {version : ℕ} {s s' : Sequential} {op : Op} {i : ℕ}

/-- The descriptors of a segment lie within the events of the acquisition that has filled it. -/
def InEvents (segment : Segment EventData) (program : Program) : Prop :=
  ∀ events, segment.cache.events = .to events → ∀ channel < limits3320.nChannels, ∀ k < segment.nrEvents,
    (events (channel * segment.nrEvents + k)).nrSamples ≤ program.evLength ∧
      (events (channel * segment.nrEvents + k)).firstSamp < program.evLength

structure SequentialInv (s : Sequential) : Prop where
  acq : AcqInv s.card
  nSegments : s.card.nSegments = 1 ∨ s.card.nSegments = 2
  transferring : ∀ i, (s.card.segments i).transferring = false
  /-- What the hardware has been told of the acquisition in progress. -/
  program : ∀ i, (s.card.segments i).acquiring = true → i = s.card.currSegment ∧
    s.program.evLength = (s.card.segments i).nrSampPerEv ∧ s.program.base = i * 2 ^ 24
  evLength : ∀ i, (s.card.segments i).acquiring = true ∨ (s.card.segments i).nrEvents ≠ 0 →
    (s.card.segments i).nrSampPerEv ∈ sis3320EvLengths
  /-- What is known of the acquisition that has filled a segment. -/
  made : ∀ i, (s.card.segments i).nrEvents ≠ 0 → (s.made i).evLength ∈ sis3320EvLengths ∧
    (s.made i).base = i * 2 ^ 24 ∧ InEvents (s.card.segments i) (s.made i)
  /-- Without a cancelled acquisition the length is still that of the events. -/
  length : ∀ i, (s.card.segments i).acquiring = false → (s.card.segments i).nrEvents ≠ 0 →
    (s.card.segments i).nrSampPerEv = (s.cancelled i).getD (s.made i).evLength

theorem readPrevticks_kept (version : ℕ) (segment : Segment EventData) (dir : Directory) :
    (readPrevticks version segment dir).transferring = segment.transferring ∧
      (readPrevticks version segment dir).nrSampPerEv = segment.nrSampPerEv ∧
      (readPrevticks version segment dir).nrEvents = segment.nrEvents ∧
      (readPrevticks version segment dir).cache.events = segment.cache.events := by
  unfold readPrevticks
  split
  · exact ⟨rfl, rfl, rfl, rfl⟩
  · split
    · exact ⟨rfl, rfl, rfl, rfl⟩
    · exact ⟨rfl, rfl, rfl, rfl⟩
    · exact ⟨rfl, rfl, rfl, rfl⟩

theorem freeEvents_kept (segment : Segment EventData) : (freeEvents segment).transferring = segment.transferring ∧
    (freeEvents segment).nrSampPerEv = segment.nrSampPerEv := by
  unfold freeEvents
  split
  · exact ⟨rfl, rfl⟩
  · exact ⟨rfl, rfl⟩

theorem readSegment_kept (card : Card EventData) (i : ℕ) (dir : Directory) :
    (readSegment card i dir).transferring = (card.segments i).transferring ∧
      (readSegment card i dir).nrSampPerEv = (card.segments i).nrSampPerEv := by
  unfold readSegment
  dsimp only
  split
  · exact freeEvents_kept _
  · split
    · exact freeEvents_kept _
    · exact freeEvents_kept _
    · exact freeEvents_kept _

/-- The descriptors that are stored are those of the directory. -/
theorem readSegment_events (card : Card EventData) (i : ℕ) (dir : Directory) :
    (readSegment card i dir).nrEvents = 0 ∨ (∃ e, (readSegment card i dir).cache.events = .err e) ∨
      (readSegment card i dir).nrEvents = dir.nrEvents ∧
        (readSegment card i dir).cache.events = .to fun k =>
          processEvent (getSegmentBase limits3320 card i) (card.segments i).nrSampPerEv (k % dir.nrEvents)
            (dir.events (k / dir.nrEvents) (k % dir.nrEvents)) := by
  unfold readSegment
  dsimp only
  split
  · exact .inl ‹_›
  · split
    · exact .inr (.inl ⟨_, rfl⟩)
    · exact .inl rfl
    · refine .inr (.inr ⟨rfl, ?_⟩)
      rw [(freeEvents_kept _).2]

/-- What the end of an acquisition leaves in its segment. -/
theorem irqSegment_inEvents (card : Card EventData) (i : ℕ) (dir : Directory) (program : Program)
    (hlength : program.evLength = (card.segments i).nrSampPerEv)
    (hbase : program.base = getSegmentBase limits3320 card i)
    (hdir : ∀ channel < limits3320.nChannels, ∀ k < dir.nrEvents,
      program.base + k * program.evLength ≤ (dir.events channel k &&& evDirAddr).toNat ∧
        (dir.events channel k &&& evDirAddr).toNat < program.base + (k + 1) * program.evLength) :
    InEvents (irqSegment version card i dir) program := by
  obtain ⟨-, -, hn, hevents⟩ := readPrevticks_kept version (readSegment card i dir) dir
  intro events hto channel hchannel k hk
  change (readPrevticks version (readSegment card i dir) dir).cache.events = .to events at hto
  change k < (readPrevticks version (readSegment card i dir) dir).nrEvents at hk
  change (events (channel * (readPrevticks version (readSegment card i dir) dir).nrEvents + k)).nrSamples ≤ _ ∧
    (events (channel * (readPrevticks version (readSegment card i dir) dir).nrEvents + k)).firstSamp < _
  rw [hevents] at hto
  rw [hn] at hk ⊢
  obtain hzero | ⟨e, herr⟩ | ⟨hn, hstored⟩ := readSegment_events card i dir
  · omega
  · rw [herr] at hto
    cases hto
  · rw [hstored] at hto
    cases hto
    rw [hn] at hk ⊢
    have hdiv : (channel * dir.nrEvents + k) / dir.nrEvents = channel := by
      rw [Nat.mul_comm, Nat.mul_add_div (by omega), Nat.div_eq_of_lt hk, Nat.add_zero]
    have hmod : (channel * dir.nrEvents + k) % dir.nrEvents = k := by
      rw [Nat.mul_comm, Nat.mul_add_mod, Nat.mod_eq_of_lt hk]
    obtain ⟨hlow, hhigh⟩ := hdir channel hchannel k hk
    rw [hlength, hbase] at hlow hhigh
    dsimp only
    rw [hdiv, hmod, hlength]
    exact processEvent_inRange hlow hhigh

/-! ## The invariant -/

theorem roundSegments_cards (segments : ℤ) :
    roundSegments limits3320 segments.toNat = 1 ∨ roundSegments limits3320 segments.toNat = 2 := by
  have hpos : 0 < roundupPowOfTwo segments.toNat := Nat.two_pow_pos _
  unfold roundSegments limits3320
  dsimp only
  split
  · exact .inl rfl
  · split
    · exact .inr rfl
    · omega

/-- A change of one segment. -/
theorem setSegment_cases {K : Type} (card : Card K) (i : ℕ) (segment : Segment K) (j : ℕ) :
    (card.setSegment i segment).segments j = card.segments j ∧ j ≠ i ∨
      j = i ∧ (card.setSegment i segment).segments j = segment := by
  by_cases h : j = i
  · subst h
    exact .inr ⟨rfl, setSegment_self⟩
  · exact .inl ⟨setSegment_of_ne h, h⟩

theorem SequentialInv.base (hi : SequentialInv s) (h : i < s.card.nSegments) :
    getSegmentBase limits3320 s.card i = i * 2 ^ 24 :=
  segmentBase_pages hi.nSegments h

theorem SequentialInv.acquire {desc : AcqDesc} (hi : SequentialInv s)
    (h : acqCheck limits3320 s.card desc = none) :
    SequentialInv { s with card := acqAccept s.card desc, program := confEv s.card desc } := by
  obtain ⟨-, hseg, hlen, -, -, hscan⟩ := acqCheck_none h
  have hfree := hi.acq.free hscan
  have hcases : ∀ j, (acqAccept s.card desc).segments j = s.card.segments j ∧ j ≠ desc.segment ∨
      j = desc.segment ∧ (acqAccept s.card desc).segments j =
        { s.card.segments desc.segment with acquiring := true, nrSampPerEv := desc.evLength } :=
    setSegment_cases s.card desc.segment _
  refine ⟨hi.acq.accept h, hi.nSegments, fun j => acqAccept_transferring.trans (hi.transferring j), ?_, ?_, ?_, ?_⟩
  · intro j hacq
    dsimp only at hacq ⊢
    obtain ⟨hj, -⟩ | ⟨rfl, hj⟩ := hcases j
    · rw [hj, hfree j] at hacq
      cases hacq
    · rw [hj]
      exact ⟨rfl, rfl, hi.base hseg⟩
  · intro j hused
    dsimp only at hused ⊢
    obtain ⟨hj, -⟩ | ⟨rfl, hj⟩ := hcases j
    · rw [hj] at hused ⊢
      exact hi.evLength j hused
    · rw [hj]
      exact hlen
  · intro j hn
    dsimp only at hn ⊢
    obtain ⟨hj, -⟩ | ⟨rfl, hj⟩ := hcases j
    · rw [hj] at hn ⊢
      exact hi.made j hn
    · rw [hj] at hn ⊢
      exact hi.made _ hn
  · intro j hidle hn
    dsimp only at hidle hn ⊢
    obtain ⟨hj, -⟩ | ⟨rfl, hj⟩ := hcases j
    · rw [hj] at hidle hn ⊢
      exact hi.length j hidle hn
    · rw [hj] at hidle
      cases hidle

/-- What a step of the driver leaves of the flags. -/
theorem AcqInv.finish {K : Type} {card : Card K} {segment : Segment K} (hi : AcqInv card)
    (htrans : segment.transferring = (card.segments i).transferring)
    (hsamp : segment.nrSampPerEv = (card.segments i).nrSampPerEv) (hacq : segment.acquiring = false) :
    AcqInv (card.setSegment i segment) := by
  refine hi.driver (.setSegment htrans hsamp ?_)
  rw [hacq]
  exact nofun

theorem SequentialInv.finished {dir : Directory} (hi : SequentialInv s)
    (hacq : (s.card.segments s.card.currSegment).acquiring = true) (hdir : InDirectory s (.finished dir)) :
    SequentialInv { s with
      card := s.card.setSegment s.card.currSegment (irqSegment version s.card s.card.currSegment dir)
      made := Function.update s.made s.card.currSegment s.program
      cancelled := Function.update s.cancelled s.card.currSegment none } := by
  obtain ⟨-, hlength, hbase⟩ := hi.program _ hacq
  have hseg := hi.acq.inRange _ hacq
  obtain ⟨htrans, hsamp⟩ := readSegment_kept s.card s.card.currSegment dir
  obtain ⟨htrans', hsamp', -, -⟩ := readPrevticks_kept version (readSegment s.card s.card.currSegment dir) dir
  have hcases := setSegment_cases s.card s.card.currSegment (irqSegment version s.card s.card.currSegment dir)
  have hnone : ∀ j, j ≠ s.card.currSegment → (s.card.segments j).acquiring = false := by
    intro j hj
    by_contra h
    rw [Bool.not_eq_false] at h
    exact hj (hi.acq.one _ _ h hacq)
  refine ⟨hi.acq.finish (htrans'.trans htrans) (hsamp'.trans hsamp) rfl, hi.nSegments, ?_, ?_, ?_, ?_, ?_⟩
  · intro j
    dsimp only
    obtain ⟨hkept, -⟩ | ⟨rfl, hnew⟩ := hcases j
    · rw [hkept]
      exact hi.transferring j
    · rw [hnew]
      exact (htrans'.trans htrans).trans (hi.transferring _)
  · intro j hj
    dsimp only at hj
    obtain ⟨hkept, hne⟩ | ⟨rfl, hnew⟩ := hcases j
    · rw [hkept, hnone j hne] at hj
      cases hj
    · rw [hnew] at hj
      cases hj
  · intro j hused
    dsimp only at hused ⊢
    obtain ⟨hkept, -⟩ | ⟨rfl, hnew⟩ := hcases j
    · rw [hkept] at hused ⊢
      exact hi.evLength j hused
    · rw [hnew]
      change (readPrevticks _ _ _).nrSampPerEv ∈ _
      rw [hsamp', hsamp]
      exact hi.evLength _ (.inl hacq)
  · intro j hn
    dsimp only at hn ⊢
    obtain ⟨hkept, hne⟩ | ⟨rfl, hnew⟩ := hcases j
    · rw [hkept] at hn ⊢
      rw [Function.update_of_ne hne]
      exact hi.made j hn
    · rw [hnew, Function.update_self]
      refine ⟨?_, hbase, ?_⟩
      · rw [hlength]
        exact hi.evLength _ (.inl hacq)
      · exact irqSegment_inEvents s.card _ dir s.program hlength (hbase.trans (hi.base hseg).symm) (hdir dir rfl)
  · intro j hidle hn
    dsimp only at hidle hn ⊢
    obtain ⟨hkept, hne⟩ | ⟨rfl, hnew⟩ := hcases j
    · rw [hkept] at hidle hn ⊢
      rw [Function.update_of_ne hne, Function.update_of_ne hne]
      exact hi.length j hidle hn
    · rw [hnew, Function.update_self, Function.update_self]
      change (readPrevticks _ _ _).nrSampPerEv = s.program.evLength
      rw [hsamp', hsamp, hlength]

theorem SequentialInv.cancel (hi : SequentialInv s)
    (hacq : (s.card.segments s.card.currSegment).acquiring = true) :
    SequentialInv { s with
      card := s.card.setSegment s.card.currSegment
        { s.card.segments s.card.currSegment with acquiring := false }
      cancelled := Function.update s.cancelled s.card.currSegment (some s.program.evLength) } := by
  obtain ⟨-, hlength, -⟩ := hi.program _ hacq
  have hcases := setSegment_cases s.card s.card.currSegment
    { s.card.segments s.card.currSegment with acquiring := false }
  refine ⟨hi.acq.finish rfl rfl rfl, hi.nSegments, ?_, ?_, ?_, ?_, ?_⟩
  · intro j
    dsimp only
    obtain ⟨hkept, -⟩ | ⟨rfl, hnew⟩ := hcases j
    · rw [hkept]
      exact hi.transferring j
    · rw [hnew]
      exact hi.transferring _
  · intro j hj
    dsimp only at hj
    obtain ⟨hkept, hne⟩ | ⟨rfl, hnew⟩ := hcases j
    · rw [hkept] at hj
      exact absurd (hi.acq.one _ _ hj hacq) hne
    · rw [hnew] at hj
      cases hj
  · intro j hused
    dsimp only at hused ⊢
    obtain ⟨hkept, -⟩ | ⟨rfl, hnew⟩ := hcases j
    · rw [hkept] at hused ⊢
      exact hi.evLength j hused
    · rw [hnew]
      exact hi.evLength _ (.inl hacq)
  · intro j hn
    dsimp only at hn ⊢
    obtain ⟨hkept, -⟩ | ⟨rfl, hnew⟩ := hcases j
    · rw [hkept] at hn ⊢
      exact hi.made j hn
    · rw [hnew] at hn ⊢
      exact hi.made _ hn
  · intro j hidle hn
    dsimp only at hidle hn ⊢
    obtain ⟨hkept, hne⟩ | ⟨rfl, hnew⟩ := hcases j
    · rw [hkept] at hidle hn ⊢
      rw [Function.update_of_ne hne]
      exact hi.length j hidle hn
    · rw [hnew, Function.update_self, hlength]
      rfl

theorem SequentialInv.store {segments : ℤ} (hi : SequentialInv s)
    (h : storeCheck limits3320 s.card segments = none) :
    SequentialInv { s with card := setNSegments limits3320 s.card segments } where
  acq := hi.acq.store h
  nSegments := roundSegments_cards segments
  transferring := hi.transferring
  program := hi.program
  evLength := hi.evLength
  made := hi.made
  length := hi.length

theorem SequentialInv.next (hi : SequentialInv s) (hok : InDirectory s op) (h : opNext version s op = some s') :
    SequentialInv s' := by
  cases op with
  | acquire desc =>
    simp only [opNext] at h
    split at h
    · rename_i hchecks
      cases h
      exact hi.acquire hchecks.2
    · cases h
      exact hi
  | finished dir =>
    simp only [opNext] at h
    split at h
    · cases h
      exact hi.finished ‹_› hok
    · cases h
  | cancel =>
    simp only [opNext] at h
    split at h
    · cases h
      exact hi.cancel ‹_›
    · cases h
      exact hi
  | store segments =>
    simp only [opNext] at h
    split at h
    · cases h
      exact hi.store ‹_›
    · cases h
      exact hi
  | fetch list =>
    cases h
    exact hi

theorem sequentialInv_init : SequentialInv sequentialInit where
  acq := AcqInv.init _ _
  nSegments := .inr rfl
  transferring _ := rfl
  program := nofun
  evLength _ h := by
    obtain h | h := h
    · cases h
    · exact absurd rfl h
  made _ h := absurd rfl h
  length _ _ h := absurd rfl h

theorem sequentialInv_run (h : Reach (opNext version) InDirectory sequentialInit s) : SequentialInv s :=
  h.invariant sequentialInv_init fun _ _ _ hi hok hnext => hi.next hok hnext

def Card.forget {K : Type} (card : Card K) : Card Unit :=
  { card with segments := fun i => { card.segments i with cache := () } }

theorem readyCard_of_run (hrun : Reach (opNext version) InDirectory sequentialInit s)
    (hidle : isAcquiring s.card = false) : ∃ c : ReadyCard, c.card = s.card.forget := by
  have hi := sequentialInv_run hrun
  exact ⟨⟨s.card.forget, hi.nSegments, fun i => ⟨hi.acq.free hidle i, hi.transferring i⟩,
    fun i hn => hi.evLength i (.inr hn)⟩, rfl⟩

/-! ## What a FETCH returns -/

variable {list : AcqList} {out : AcqOut} {outs : List AcqOut} {k : ℕ}

theorem fetchLoop_ok {event : ℕ → Except Errno AcqOut} {n : ℕ} (h : fetchLoop event n = .ok outs) :
    outs.length = n ∧ ∀ k out, outs[k]? = some out → event k = .ok out := by
  induction n generalizing outs with
  | zero =>
    cases h
    exact ⟨rfl, fun k out hk => by simp at hk⟩
  | succ n ih =>
    rw [fetchLoop] at h
    split at h
    · cases h
    · rename_i first hfirst
      split at h
      · cases h
      · rename_i last hlast
        cases h
        obtain ⟨hlen, hevents⟩ := ih hfirst
        refine ⟨by simp [hlen], ?_⟩
        intro k out hk
        by_cases hkn : k < first.length
        · rw [List.getElem?_append_left hkn] at hk
          exact hevents k out hk
        · rw [List.getElem?_append_right (not_lt.mp hkn), List.getElem?_singleton] at hk
          split at hk
          · obtain rfl : k = n := by omega
            cases hk
            exact hlast
          · cases hk

theorem readEvent_ok {card : Card EventData} (h : readEvent card list k = .ok out) :
    ∃ events, (card.segments list.segment).cache.events = .to events ∧
      out.nrSamples = (events (list.channel * (card.segments list.segment).nrEvents + k)).nrSamples ∧
      out.firstSamp = (events (list.channel * (card.segments list.segment).nrEvents + k)).firstSamp ∧
      out.reads = getData (getSegmentBase limits3320 card list.segment) (card.segments list.segment).nrSampPerEv k
        (list.acqs.getD k 0) := by
  unfold readEvent at h
  dsimp only at h
  split at h
  · cases h
  · split at h
    · cases h
    · cases h
    · rename_i events hevents
      split at h
      · cases h
        exact ⟨events, hevents, rfl, rfl, rfl⟩
      · cases h
      · cases h
        exact ⟨events, hevents, rfl, rfl, rfl⟩

/-- What a FETCH has checked, and what it returns. -/
theorem fetch3320_ok {card : Card EventData} (h : fetch3320 card list = .ok outs) :
    list.segment < card.nSegments ∧ list.channel < limits3320.nChannels ∧ fetchCheck card list = none ∧
      fetchLoop (readEvent card list) (fetchEvents card list) = .ok outs := by
  unfold fetch3320 at h
  split at h
  · cases h
  · split at h
    · cases h
    · rename_i hrange
      split at h
      · cases h
      · rename_i hcheck
        unfold fetchRange at hrange
        split at hrange
        · cases hrange
        · exact ⟨by omega, by omega, hcheck, h⟩

/-- A FETCH returns the events as they were acquired exactly if no acquisition of events of another length has been
cancelled on the segment since. -/
theorem fetch_describes_iff (hrun : Reach (opNext version) InDirectory sequentialInit s)
    (hfetch : fetch3320 s.card list = .ok outs) :
    (∀ k out, outs[k]? = some out → Describes (s.made list.segment) (list.acqs.getD k 0) k out) ↔
      CancelledAlike s list.segment := by
  have hi := sequentialInv_run hrun
  obtain ⟨hseg, hchannel, hcheck, hloop⟩ := fetch3320_ok hfetch
  obtain ⟨hidle, -, hevents, hbuffers⟩ := fetchCheck_none hcheck
  obtain ⟨hlen, houts⟩ := fetchLoop_ok hloop
  have hn : (s.card.segments list.segment).nrEvents ≠ 0 := by
    unfold fetchEvents at hevents
    omega
  obtain ⟨hmade, hbase, hin⟩ := hi.made _ hn
  have hlength := hi.length _ hidle hn
  have hused := hi.evLength _ (.inr hn)
  have hsize : ∀ k < outs.length, list.acqs.getD k 0 = 2 * (s.card.segments list.segment).nrSampPerEv := by
    intro k hk
    rw [(checkAcqBuffers_size hbuffers (Nat.min_le_right _ _) (hlen ▸ hk)).2]
    exact Nat.mul_comm _ _
  constructor
  · intro h len hlen'
    obtain ⟨out, hout⟩ : ∃ out, outs[0]? = some out := by
      cases outs with
      | nil => exact absurd hlen.symm hevents
      | cons out rest => exact ⟨out, rfl⟩
    obtain ⟨-, -, -, -, hreads⟩ := readEvent_ok (houts 0 out hout)
    rw [hsize 0 (by omega)] at hreads
    -- the blocks of the first event tell its length
    have hsum := congrArg (fun reads => (reads.map BlockRead.size).sum) (hreads.symm.trans (h 0 out hout).reads)
    rw [getData_size (evLength_pages hused), getData_size (evLength_pages hmade), hlength, hlen', Option.getD_some]
      at hsum
    omega
  · intro h k out hout
    have hsame : (s.card.segments list.segment).nrSampPerEv = (s.made list.segment).evLength := by
      rw [hlength]
      cases hc : s.cancelled list.segment with
      | none => rfl
      | some len => exact h len hc
    have hk : k < outs.length := (List.getElem?_eq_some_iff.mp hout).1
    obtain ⟨events, hto, hnr, hfirst, hreads⟩ := readEvent_ok (houts k out hout)
    have hkn : k < (s.card.segments list.segment).nrEvents := by
      rw [hlen] at hk
      exact lt_of_lt_of_le hk (Nat.min_le_left _ _)
    obtain ⟨hnrLe, hfirstLt⟩ := hin events hto _ hchannel k hkn
    refine ⟨?_, .inl ?_, ?_⟩
    · rw [hsize k hk, hnr]
      omega
    · rw [hsize k hk, hfirst]
      omega
    · rw [hreads, hsize k hk, hsame, hi.base hseg, hbase]

end Runs

/-! ## A cancelled acquisition of shorter events -/

/-- One event that has wrapped around, with its next sample at 16. -/
def oneEvent : Directory := ⟨1, fun _ _ => 0x10000010, [], .none, .none⟩

def oneEventRun (len : ℕ) : List Op := [.acquire ⟨0, 1, len, 1⟩, .finished oneEvent]

/-- What a FETCH of one event of 64 samples returns. -/
def fetchOne (s : Sequential) : Except Errno (List AcqOut) := fetch3320 s.card ⟨0, 0, [128], 0⟩

def returnedSamples (s : Sequential) : List ℕ :=
  match fetchOne s with
  | .ok outs => outs.map AcqOut.nrSamples
  | .error _ => []

theorem fetchOne_ok {s : Sequential} {out : ℕ} (h : returnedSamples s = [out]) :
    ∃ outs, fetchOne s = .ok outs ∧ outs.map AcqOut.nrSamples = [out] := by
  unfold returnedSamples at h
  split at h
  · exact ⟨_, ‹_›, h⟩
  · cases h

/-- Three events of 64 samples that have wrapped around, and behind them a cancelled acquisition of such events. -/
def cancelledAlike : List Op :=
  [.acquire ⟨0, 3, 64, 1⟩, .finished ⟨3, fun _ k => BitVec.ofNat 32 (0x10000010 + 64 * k), [], .none, .none⟩,
    .acquire ⟨0, 2, 64, 1⟩, .cancel]

/-- All three are described. -/
theorem fetch_describes_iff_cancelledAlike : ∃ (s : Sequential) (outs : List AcqOut),
    fetch3320 s.card ⟨0, 0, [128, 128, 128], 0⟩ = .ok outs ∧ outs.length = 3 ∧
      ∀ k out, outs[k]? = some out → Describes (s.made 0) ([128, 128, 128].getD k 0) k out := by
  have hrun : (replay (opNext 250) InDirectory sequentialInit cancelledAlike).map (fun s =>
      (s.cancelled 0, (s.made 0).evLength, (fetch3320 s.card ⟨0, 0, [128, 128, 128], 0⟩).toOption.map List.length)) =
        some (some 64, 64, some 3) := by
    decide
  obtain ⟨s, hs, hval⟩ := Option.map_eq_some_iff.mp hrun
  simp only [Prod.mk.injEq] at hval
  obtain ⟨outs, hfetch, hlength⟩ := Option.map_eq_some_iff.mp hval.2.2
  have hok : fetch3320 s.card ⟨0, 0, [128, 128, 128], 0⟩ = .ok outs := by
    cases h : fetch3320 s.card ⟨0, 0, [128, 128, 128], 0⟩ with
    | error e =>
      rw [h] at hfetch
      cases hfetch
    | ok outs' =>
      rw [h] at hfetch
      exact congrArg Except.ok (Option.some.inj hfetch)
  refine ⟨s, outs, hok, hlength, (fetch_describes_iff (Reach.of_replay .refl hs) hok).mpr ?_⟩
  intro len hlen
  have hsame : len = 64 := Option.some.inj (hlen.symm.trans hval.1)
  exact hsame.trans hval.2.1.symm

/-- Events of 1024 samples are returned in a buffer of 64 samples. -/
theorem not_describes_cancelled : ¬∀ s list outs, Reach (opNext 250) InDirectory sequentialInit s →
    fetch3320 s.card list = .ok outs →
      ∀ k out, outs[k]? = some out → Describes (s.made list.segment) (list.acqs.getD k 0) k out := by
  intro h
  have hrun : (replay (opNext 250) InDirectory sequentialInit
      (oneEventRun 1024 ++ [.acquire ⟨0, 1, 64, 1⟩, .cancel])).map returnedSamples = some [1024] := by
    decide
  obtain ⟨s, hs, hsamples⟩ := Option.map_eq_some_iff.mp hrun
  obtain ⟨outs, hfetch, hmap⟩ := fetchOne_ok hsamples
  obtain ⟨out, rfl, hout⟩ := List.map_eq_singleton_iff.mp hmap
  have hsize := (h s _ _ (Reach.of_replay .refl hs) hfetch 0 out rfl).nrSamples
  change out.nrSamples * 2 ≤ 128 at hsize
  omega

end HtDrivers.Sis33
