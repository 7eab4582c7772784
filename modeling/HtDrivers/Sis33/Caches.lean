import HtDrivers.Sis33.SegmentStates

/-! # What the drivers keep with a segment

The descriptors of the events and the prevticks, and the samples that the sis3300 keeps for each of its ADC groups.
Only the blocks that the pointers name are modelled, not what is in them.
-/
namespace HtDrivers.Sis33
set_option autoImplicit false

/-- A pointer to an allocated block, `NULL` or an `ERR_PTR`. -/
inductive Buf
  | null
  | err
  | block (id : ℕ)
  deriving DecidableEq, Repr

structure Caches where
  events : Buf
  prevticks : Buf
  /-- `sampcache` of the sis3300. -/
  samples : ℕ → Buf

def noCaches : Caches := ⟨.null, .null, fun _ => .null⟩

/-- The block that is there is neither freed nor replaced. -/
def Buf.Kept (buf buf' : Buf) : Prop := ∀ id, buf = .block id → buf' = .block id

/-- Nothing is said of the events. -/
def Segment.withoutEvents (segment : Segment Caches) : Segment Caches :=
  { segment with cache := { segment.cache with events := .null } }

structure Frozen (segment segment' : Segment Caches) : Prop where
  nrEvents : segment'.nrEvents = segment.nrEvents
  nrSampPerEv : segment'.nrSampPerEv = segment.nrSampPerEv
  events : segment.cache.events.Kept segment'.cache.events
  prevticks : segment.cache.prevticks.Kept segment'.cache.prevticks
  samples : ∀ k, (segment.cache.samples k).Kept (segment'.cache.samples k)

section Frozen
variable {buf : Buf} {segment : Segment Caches}

theorem Buf.Kept.refl (buf : Buf) : buf.Kept buf := fun _ h => h

theorem Frozen.of_eq {segment' : Segment Caches} (hevents : segment'.nrEvents = segment.nrEvents)
    (hsamp : segment'.nrSampPerEv = segment.nrSampPerEv) (hcache : segment'.cache = segment.cache) :
    Frozen segment segment' := by
  refine ⟨hevents, hsamp, ?_, ?_, ?_⟩
  · rw [hcache]
    exact Buf.Kept.refl _
  · rw [hcache]
    exact Buf.Kept.refl _
  · intro k
    rw [hcache]
    exact Buf.Kept.refl _

theorem Frozen.refl (segment : Segment Caches) : Frozen segment segment := Frozen.of_eq rfl rfl rfl

end Frozen

/-! ## Changes to one segment -/

section Changes
variable {H : Type} {dev : Dev Caches H} {i : ℕ}

def Dev.segment (dev : Dev Caches H) (i : ℕ) : Segment Caches := dev.card.segments i

def Dev.setSegment (dev : Dev Caches H) (i : ℕ) (segment : Segment Caches) : Dev Caches H :=
  { dev with card := dev.card.setSegment i segment }

def Dev.setEvents (dev : Dev Caches H) (i : ℕ) (buf : Buf) (nrEvents : ℕ) : Dev Caches H :=
  dev.setSegment i
    { dev.segment i with nrEvents := nrEvents, cache := { (dev.segment i).cache with events := buf } }

def Dev.setPrevticks (dev : Dev Caches H) (i : ℕ) (buf : Buf) : Dev Caches H :=
  dev.setSegment i { dev.segment i with cache := { (dev.segment i).cache with prevticks := buf } }

def Dev.setSamples (dev : Dev Caches H) (i k : ℕ) (buf : Buf) : Dev Caches H :=
  dev.setSegment i
    { dev.segment i with
      cache := { (dev.segment i).cache with samples := Function.update (dev.segment i).cache.samples k buf } }

/-- `atomic_set(&segment->acquiring, 0)` -/
def Dev.clearAcquiring (dev : Dev Caches H) (i : ℕ) : Dev Caches H :=
  dev.setSegment i { dev.segment i with acquiring := false }

theorem setSegment_frame {segment : Segment Caches}
    (htransferring : segment.transferring = (dev.segment i).transferring)
    (hsamp : segment.nrSampPerEv = (dev.segment i).nrSampPerEv)
    (hacquiring : segment.acquiring = true → (dev.segment i).acquiring = true) :
    DriverFrame dev.card (dev.setSegment i segment).card :=
  DriverFrame.setSegment htransferring hsamp hacquiring

theorem setEvents_frame (dev : Dev Caches H) (i : ℕ) (buf : Buf) (n : ℕ) :
    DriverFrame dev.card (dev.setEvents i buf n).card :=
  setSegment_frame rfl rfl fun h => h

theorem setPrevticks_frame (dev : Dev Caches H) (i : ℕ) (buf : Buf) :
    DriverFrame dev.card (dev.setPrevticks i buf).card :=
  setSegment_frame rfl rfl fun h => h

theorem setSamples_frame (dev : Dev Caches H) (i k : ℕ) (buf : Buf) :
    DriverFrame dev.card (dev.setSamples i k buf).card :=
  setSegment_frame rfl rfl fun h => h

theorem clearAcquiring_frame (dev : Dev Caches H) (i : ℕ) : DriverFrame dev.card (dev.clearAcquiring i).card :=
  setSegment_frame rfl rfl fun h => by cases h

/-- The other segments are as before. -/
theorem setSegment_other (dev : Dev Caches H) (i : ℕ) (segment : Segment Caches) (j : ℕ) :
    (dev.setSegment i segment).segment j = dev.segment j ∨ i = j := by
  by_cases h : j = i
  · exact .inr h.symm
  · exact .inl (setSegment_of_ne h)

theorem setSegment_frozen (dev : Dev Caches H) (i : ℕ) (segment : Segment Caches) (j : ℕ) :
    Frozen (dev.segment j) ((dev.setSegment i segment).segment j) ∨ i = j := by
  obtain h | h := setSegment_other dev i segment j
  · rw [h]
    exact .inl (Frozen.refl _)
  · exact .inr h

theorem clearAcquiring_frozen (dev : Dev Caches H) (i j : ℕ) :
    Frozen (dev.segment j) ((dev.clearAcquiring i).segment j) := by
  obtain h | h := setSegment_frozen dev i { dev.segment i with acquiring := false } j
  · exact h
  · subst h
    change Frozen _ ((dev.card.setSegment i _).segments i)
    rw [setSegment_self]
    exact Frozen.of_eq rfl rfl rfl

/-- What does not write `acquiring` does not clear it. -/
theorem setSegment_acquiring {segment : Segment Caches} (h : segment.acquiring = (dev.segment i).acquiring) (j : ℕ) :
    ((dev.setSegment i segment).segment j).acquiring = (dev.segment j).acquiring := by
  obtain hj | hj := setSegment_other dev i segment j
  · rw [hj]
  · subst hj
    change ((dev.card.setSegment i segment).segments i).acquiring = _
    rw [setSegment_self, h]

theorem setEvents_acquiring (dev : Dev Caches H) (i : ℕ) (buf : Buf) (n j : ℕ) :
    ((dev.setEvents i buf n).segment j).acquiring = (dev.segment j).acquiring := by
  refine setSegment_acquiring ?_ j
  rfl

theorem setPrevticks_acquiring (dev : Dev Caches H) (i : ℕ) (buf : Buf) (j : ℕ) :
    ((dev.setPrevticks i buf).segment j).acquiring = (dev.segment j).acquiring := by
  refine setSegment_acquiring ?_ j
  rfl

theorem setSamples_acquiring (dev : Dev Caches H) (i k : ℕ) (buf : Buf) (j : ℕ) :
    ((dev.setSamples i k buf).segment j).acquiring = (dev.segment j).acquiring := by
  refine setSegment_acquiring ?_ j
  rfl

end Changes

end HtDrivers.Sis33
