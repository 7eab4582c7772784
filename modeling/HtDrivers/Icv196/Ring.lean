import Mathlib.Data.List.Basic
import Mathlib.Tactic

/-! The ring buffers for the events of the ICV196 (`icv196vmedrvr.c`). What the driver does to `Ring->Evtsem` is given
by `SemCalls`, since it both calls the semaphore and uses the integer itself. -/
namespace HtDrivers.Icv196
set_option autoImplicit false

def evtNb : ℕ := 8
def evtMsk : ℕ := evtNb - 1

/-- `union icvU_Evt`; its second word holds the address of the line. -/
structure IcvEvt where
  w1 : BitVec 16
  group : BitVec 8
  index : BitVec 8
deriving DecidableEq

/-- `subscriber` is the line and the entry of the subscriber that a cumulative event is linked to. -/
structure RingAtom where
  subscriber : Option (ℕ × ℕ)
  evt : IcvEvt
deriving DecidableEq

/-- The uses of a semaphore; `wait` says whether the caller goes on at once. -/
structure SemCalls (S : Type) where
  value : S → ℤ
  signal : S → S
  reset : S → S
  wait : S → S × Bool

structure RingBuffer (S : Type) where
  evtsem : S
  reader : ℕ
  writer : ℕ
  buffer : ℕ → RingAtom

/-- What `PullFrom_Ring` does up to its `swait`, and behind it. -/
inductive Pulled (S : Type)
  | empty
  | asleep (ring : RingBuffer S)
  | atom (atom : RingAtom) (ring : RingBuffer S)

section Operations
variable {S : Type} (calls : SemCalls S) (ring : RingBuffer S)

def storeAtom (atom : RingAtom) : RingBuffer S :=
  { ring with buffer := Function.update ring.buffer ring.writer atom }

/-- The event that signals a purge of the buffer. -/
def purgeAtom : RingAtom := ⟨none, ⟨-1, 0, 0⟩⟩

/-- The block of `PushTo_Ring` for a full ring. -/
def purgeRing : RingBuffer S :=
  { evtsem := calls.signal (calls.reset ring.evtsem)
    reader := 0
    writer := 1
    buffer := Function.update ring.buffer 0 purgeAtom }

/-- The index of the atom comes with the ring. -/
def pushToRing (atom : RingAtom) : RingBuffer S × ℕ :=
  let ring := if evtNb ≤ calls.value ring.evtsem then purgeRing calls ring else ring
  ({ storeAtom ring atom with evtsem := calls.signal ring.evtsem, writer := (ring.writer + 1) &&& evtMsk }, ring.writer)

def takeAtom : RingBuffer S := { ring with reader := (ring.reader + 1) &&& evtMsk }

def ringPull : Pulled S :=
  if calls.value ring.evtsem = 0 then .empty
  else
    let (evtsem, acquired) := calls.wait ring.evtsem
    let ring := { ring with evtsem := evtsem }
    if acquired then .atom (ring.buffer ring.reader) (takeAtom ring) else .asleep ring

end Operations

end HtDrivers.Icv196
