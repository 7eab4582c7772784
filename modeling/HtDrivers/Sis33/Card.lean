import Mathlib.Data.List.GetD
import Mathlib.Tactic

/-! # Cards and their segments (`sis33_core.c`, `sis33_sysfs.c`)

The locked sections of the calls on a card, as functions of the card. `K` is what a driver keeps with a
segment beside the fields the core uses.
-/
namespace HtDrivers.Sis33
set_option autoImplicit false

inductive Errno
  | eintr
  | ebusy
  | einval
  | enodata
  | enomem
  | efault
  | eio
  | etime
  deriving DecidableEq, Repr

inductive Ret
  | value (n : ℕ)
  | error (e : Errno)
  deriving DecidableEq, Repr

structure Segment (K : Type) where
  acquiring : Bool
  transferring : Bool
  nrSampPerEv : ℕ
  nrEvents : ℕ
  cache : K

/-- What a driver fills in when it creates the card. -/
structure CardLimits where
  maxNrEvents : ℕ
  nChannels : ℕ
  evLengths : List ℕ
  nSegmentsMax : ℕ
  nSegmentsMin : ℕ

structure Card (K : Type) where
  nSegments : ℕ
  segments : ℕ → Segment K
  currSegment : ℕ
  /-- Not in the source: how many acquisitions have been accepted. -/
  acqNo : ℕ

/-- `sis33_acq_desc`. -/
structure AcqDesc where
  segment : ℕ
  nrEvents : ℕ
  evLength : ℕ
  flags : ℕ
  deriving DecidableEq, Repr

/-- `sis33_acq_list`, with the sizes of the buffers in `acqs`. -/
structure AcqList where
  segment : ℕ
  channel : ℕ
  acqs : List ℕ
  flags : ℕ
  deriving DecidableEq, Repr

/-- `SIS33_ACQF_DONTWAIT` -/
def dontwait (flags : ℕ) : Bool := flags.testBit 0

/-- `SIS33_ACQF_TIMEOUT` -/
def timeout (flags : ℕ) : Bool := flags.testBit 1

section Sections
variable {K : Type}

def Card.setSegment (card : Card K) (i : ℕ) (segment : Segment K) : Card K :=
  { card with segments := Function.update card.segments i segment }

def isAcquiring (card : Card K) : Bool := (List.range card.nSegments).any fun i => (card.segments i).acquiring

def isTransferring (card : Card K) : Bool := (List.range card.nSegments).any fun i => (card.segments i).transferring

/-- The first entry of `ev_lengths` is the maximum length of a segment. -/
def segmentMaxNrSamples (l : CardLimits) (card : Card K) : ℕ :=
  l.evLengths.headD 0 / (card.nSegments / l.nSegmentsMin)

/-- Every buffer has the size of an event, in bytes. -/
def checkAcqBuffers (segment : Segment K) (acqs : List ℕ) (n : ℕ) : Bool :=
  (acqs.take n).all fun size => size ≠ 0 ∧ size = segment.nrSampPerEv * 2

/-! ## FETCH -/

/-- The checks before the lock is taken. -/
def fetchArgs (list : AcqList) : Option Errno :=
  if dontwait list.flags = true ∧ timeout list.flags = true then some .einval
  else if list.acqs.length = 0 then some .einval
  else none

def fetchRange (l : CardLimits) (card : Card K) (list : AcqList) : Option Errno :=
  if card.nSegments ≤ list.segment ∨ l.nChannels ≤ list.channel then some .einval else none

def fetchEvents (card : Card K) (list : AcqList) : ℕ :=
  min (card.segments list.segment).nrEvents list.acqs.length

/-- The checks that end with the lock still held, after a wait too. -/
def fetchCheck (card : Card K) (list : AcqList) : Option Errno :=
  let segment := card.segments list.segment
  if segment.acquiring || segment.transferring then some .ebusy
  else if fetchEvents card list = 0 then some .enodata
  else if checkAcqBuffers segment list.acqs (fetchEvents card list) then none
  else some .einval

def setTransferring (card : Card K) (i : ℕ) (b : Bool) : Card K :=
  card.setSegment i { card.segments i with transferring := b }

/-! ## ACQUIRE -/

/-- The checks before the lock is taken. -/
def acqArgs (desc : AcqDesc) : Option Errno :=
  if dontwait desc.flags = true ∧ timeout desc.flags = true then some .einval else none

/-- The product of the two 32-bit fields is a 32-bit number. -/
def acqCheck (l : CardLimits) (card : Card K) (desc : AcqDesc) : Option Errno :=
  if l.maxNrEvents < desc.nrEvents then some .einval
  else if card.nSegments ≤ desc.segment then some .einval
  else if desc.evLength ∉ l.evLengths then some .einval
  else if segmentMaxNrSamples l card < desc.nrEvents * desc.evLength % 2 ^ 32 then some .einval
  else if (card.segments desc.segment).transferring || isAcquiring card then some .ebusy
  else none

/-- What an accepted request writes before the lock is dropped. -/
def acqAccept (card : Card K) (desc : AcqDesc) : Card K :=
  { card.setSegment desc.segment
      { card.segments desc.segment with acquiring := true, nrSampPerEv := desc.evLength } with
    currSegment := desc.segment
    acqNo := card.acqNo + 1 }

/-! ## The number of segments -/

/-- The position of the highest bit, counted from 1. -/
def flsLong (n : ℕ) : ℕ := if n = 0 then 0 else Nat.log2 n + 1

def roundupPowOfTwo (n : ℕ) : ℕ := 2 ^ flsLong (n - 1)

/-- The number of segments that a stored number is rounded to. -/
def roundSegments (l : CardLimits) (n : ℕ) : ℕ :=
  let n := roundupPowOfTwo n
  if n = 0 then 1 else if l.nSegmentsMax < n then l.nSegmentsMax else n

def storeCheck (l : CardLimits) (card : Card K) (segments : ℤ) : Option Errno :=
  if segments < l.nSegmentsMin then some .einval
  else if isAcquiring card || isTransferring card then some .ebusy
  else none

def setNSegments (l : CardLimits) (card : Card K) (segments : ℤ) : Card K :=
  { card with nSegments := roundSegments l segments.toNat }

/-! ## What the sections read and write -/

variable {card : Card K} {i j : ℕ} {b : Bool} {segment : Segment K} {desc : AcqDesc} {list : AcqList}
  {l : CardLimits} {segments : ℤ}

theorem isAcquiring_eq_false : isAcquiring card = false ↔ ∀ i < card.nSegments,
    (card.segments i).acquiring = false := by
  simp [isAcquiring]

theorem isTransferring_eq_false :
    isTransferring card = false ↔ ∀ i < card.nSegments, (card.segments i).transferring = false := by
  simp [isTransferring]

@[simp] theorem setSegment_self : (card.setSegment i segment).segments i = segment := by
  simp [Card.setSegment]

theorem setSegment_of_ne (h : j ≠ i) : (card.setSegment i segment).segments j = card.segments j := by
  simp [Card.setSegment, h]

@[simp] theorem setSegment_nSegments : (card.setSegment i segment).nSegments = card.nSegments := rfl

@[simp] theorem setSegment_currSegment : (card.setSegment i segment).currSegment = card.currSegment := rfl

@[simp] theorem setSegment_acqNo : (card.setSegment i segment).acqNo = card.acqNo := rfl

@[simp] theorem setTransferring_nSegments : (setTransferring card i b).nSegments = card.nSegments := rfl

@[simp] theorem setTransferring_acqNo : (setTransferring card i b).acqNo = card.acqNo := rfl

@[simp] theorem setTransferring_currSegment : (setTransferring card i b).currSegment = card.currSegment := rfl

@[simp] theorem setTransferring_acquiring : ((setTransferring card i b).segments j).acquiring =
    (card.segments j).acquiring := by
  unfold setTransferring
  by_cases hj : j = i
  · subst hj
    rw [setSegment_self]
  · rw [setSegment_of_ne hj]

theorem setTransferring_transferring : ((setTransferring card i b).segments j).transferring =
    if j = i then b else (card.segments j).transferring := by
  unfold setTransferring
  by_cases hj : j = i
  · subst hj
    rw [setSegment_self, if_pos rfl]
  · rw [setSegment_of_ne hj, if_neg hj]

@[simp] theorem acqAccept_nSegments : (acqAccept card desc).nSegments = card.nSegments := rfl

theorem acqAccept_acquiring : ((acqAccept card desc).segments j).acquiring =
    if j = desc.segment then true else (card.segments j).acquiring := by
  change ((card.setSegment _ _).segments j).acquiring = _
  by_cases hj : j = desc.segment
  · subst hj
    rw [setSegment_self, if_pos rfl]
  · rw [setSegment_of_ne hj, if_neg hj]

@[simp] theorem acqAccept_transferring : ((acqAccept card desc).segments j).transferring =
    (card.segments j).transferring := by
  change ((card.setSegment _ _).segments j).transferring = _
  by_cases hj : j = desc.segment
  · subst hj
    rw [setSegment_self]
  · rw [setSegment_of_ne hj]

/-- What an accepted acquisition has found under the lock. -/
theorem acqCheck_none (h : acqCheck l card desc = none) : desc.nrEvents ≤ l.maxNrEvents ∧
    desc.segment < card.nSegments ∧ desc.evLength ∈ l.evLengths ∧
    desc.nrEvents * desc.evLength % 2 ^ 32 ≤ segmentMaxNrSamples l card ∧
    (card.segments desc.segment).transferring = false ∧ isAcquiring card = false := by
  unfold acqCheck at h
  split_ifs at h with h₁ h₂ h₃ h₄ h₅
  rw [Bool.not_eq_true, Bool.or_eq_false_iff] at h₅
  exact ⟨not_lt.mp h₁, not_le.mp h₂, h₃, not_lt.mp h₄, h₅⟩

/-- What a transfer has found under the lock. -/
theorem fetchCheck_none (h : fetchCheck card list = none) : (card.segments list.segment).acquiring = false ∧
    (card.segments list.segment).transferring = false ∧ fetchEvents card list ≠ 0 ∧
    checkAcqBuffers (card.segments list.segment) list.acqs (fetchEvents card list) = true := by
  simp only [fetchCheck] at h
  split_ifs at h with h₁ h₂ h₃
  rw [Bool.not_eq_true, Bool.or_eq_false_iff] at h₁
  exact ⟨h₁.1, h₁.2, h₂, h₃⟩

theorem checkAcqBuffers_size {acqs : List ℕ} {n k : ℕ} (h : checkAcqBuffers segment acqs n = true)
    (hn : n ≤ acqs.length) (hk : k < n) : acqs.getD k 0 ≠ 0 ∧ acqs.getD k 0 = segment.nrSampPerEv * 2 := by
  have hmem : acqs.getD k 0 ∈ acqs.take n := by
    rw [List.getD_eq_getElem _ _ (by omega), List.mem_take_iff_getElem]
    exact ⟨k, by omega, rfl⟩
  simpa using List.all_eq_true.mp h _ hmem

theorem storeCheck_none (h : storeCheck l card segments = none) :
    l.nSegmentsMin ≤ segments ∧ isAcquiring card = false ∧ isTransferring card = false := by
  unfold storeCheck at h
  split_ifs at h with h₁ h₂
  rw [Bool.not_eq_true, Bool.or_eq_false_iff] at h₂
  exact ⟨not_lt.mp h₁, h₂⟩

end Sections

end HtDrivers.Sis33
