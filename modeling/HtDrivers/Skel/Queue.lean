import HtDrivers.Lib.Fifo
import HtDrivers.Cdcm.CdcmTime

/-! The client contexts of the driver skeleton (`skeldrvrP.h`) and the queues in them (`skeldrvr.c`). `T` is the
type of the tasks that may read. Every function here runs under the lock of the queue. -/
namespace HtDrivers.Skel
open HtDrivers.Cdcm HtDrivers.Lib.Fifo
set_option autoImplicit false

abbrev U32 := BitVec 32

/-- The constants of `skeluser.h`. Interrupts are bits of a 32-bit mask. -/
structure SkelUser where
  queueSize : ℕ
  interrupts : ℕ
  queueSize_pos : 0 < queueSize
  interrupts_le : interrupts ≤ 32

/-- The constants of the template, which the MTT driver uses too. -/
def template : SkelUser := ⟨32, 32, by decide, by decide⟩

def skelDrvrDefaultClientTimeout : U32 := 2000

/-! ## Data -/

structure SkelDrvrConnection where
  module : U32
  conMask : U32
deriving DecidableEq

structure SkelDrvrTime where
  second : U32
  nanoSecond : U32
deriving DecidableEq

structure SkelDrvrReadBuf where
  connection : SkelDrvrConnection
  time : SkelDrvrTime
deriving DecidableEq

def zeroReadBuf : SkelDrvrReadBuf := ⟨⟨0, 0⟩, ⟨0, 0⟩⟩

structure SkelDrvrQueue where
  queueOff : Bool
  missed : BitVec 16
  size : Int
  rdPntr : ℕ
  wrPntr : ℕ
  entries : ℕ → SkelDrvrReadBuf

/-- `cdcmf` is the open file that the client is known by. -/
structure SkelDrvrClientContext (T : Type) where
  semaphore : CdcmSem T
  timeout : U32
  timer : U32
  queue : SkelDrvrQueue
  moduleNumber : U32
  cdcmf : ℕ

/-! ## Operations -/

section Operations
variable {T : Type} (user : SkelUser)

/-- `__q_put`, with the reader that is woken up. -/
def qPut (rb : SkelDrvrReadBuf) (ccon : SkelDrvrClientContext T) : SkelDrvrClientContext T × Option T :=
  let q : SkelDrvrQueue := { ccon.queue with
    entries := Function.update ccon.queue.entries ccon.queue.wrPntr rb
    wrPntr := (ccon.queue.wrPntr + 1) % user.queueSize }
  if q.size < (user.queueSize : Int) then
    let up := cdcmUp ccon.semaphore
    ({ ccon with queue := { q with size := q.size + 1 }, semaphore := up.1 }, up.2)
  else
    ({ ccon with queue := { q with missed := q.missed + 1, rdPntr := (q.rdPntr + 1) % user.queueSize } }, none)

/-- `__q_get` -/
def qGet (ccon : SkelDrvrClientContext T) : SkelDrvrReadBuf × SkelDrvrClientContext T :=
  (ccon.queue.entries ccon.queue.rdPntr,
    { ccon with queue := { ccon.queue with
      rdPntr := (ccon.queue.rdPntr + 1) % user.queueSize
      size := ccon.queue.size - 1 } })

/-- `__reset_queue`, with the readers that are woken up. -/
def resetQueue (ccon : SkelDrvrClientContext T) : SkelDrvrClientContext T × List T :=
  ({ ccon with
    queue := { ccon.queue with size := 0, rdPntr := 0, wrPntr := 0, missed := 0 }
    semaphore := (sreset ccon.semaphore).1 }, (sreset ccon.semaphore).2)

def clientTimeout (ccon : SkelDrvrClientContext T) : SkelDrvrClientContext T :=
  { ccon with timer := 0, queue := { ccon.queue with size := 0, missed := 0 } }

/-- `get_queue_overflow`: the number of missed events, which starts again at 0. -/
def getQueueOverflow (ccon : SkelDrvrClientContext T) : BitVec 16 × SkelDrvrClientContext T :=
  (ccon.queue.missed, { ccon with queue := { ccon.queue with missed := 0 } })

def setQueueFlag (ccon : SkelDrvrClientContext T) (value : U32) : SkelDrvrClientContext T :=
  { ccon with queue := { ccon.queue with queueOff := value ≠ 0 } }

/-- `client_init` on zeroed memory; `modnr` is the module that is selected at first. The semaphore of the
address may be one that an earlier client left behind. -/
def clientInit (semaphore : CdcmSem T) (modnr : U32) (flp : ℕ) : SkelDrvrClientContext T :=
  (resetQueue
    { semaphore := semaphore
      timeout := skelDrvrDefaultClientTimeout
      timer := 0
      queue := { queueOff := false, missed := 0, size := 0, rdPntr := 0, wrPntr := 0, entries := fun _ => zeroReadBuf }
      moduleNumber := modnr
      cdcmf := flp }).1

end Operations

/-! ## The ring -/

/-- The pointers fit the size. -/
structure SkelDrvrQueue.Sound (user : SkelUser) (q : SkelDrvrQueue) : Prop where
  size_nonneg : 0 ≤ q.size
  size_le : q.size ≤ user.queueSize
  rdPntr_lt : q.rdPntr < user.queueSize
  wrPntr_eq : q.wrPntr = (q.rdPntr + q.size.toNat) % user.queueSize

/-- The entries that are queued, from the oldest to the newest. -/
def SkelDrvrQueue.queued (user : SkelUser) (q : SkelDrvrQueue) : List SkelDrvrReadBuf :=
  contents user.queueSize q.entries q.rdPntr q.size.toNat

/-- The same with what `stamp` says about each slot. -/
def SkelDrvrQueue.stamped (user : SkelUser) (q : SkelDrvrQueue) (stamp : ℕ → ℕ) : List (SkelDrvrReadBuf × ℕ) :=
  contents user.queueSize (fun k => (q.entries k, stamp k)) q.rdPntr q.size.toNat

section Sound
variable {user : SkelUser} {T : Type} {rb : SkelDrvrReadBuf} {ccon : SkelDrvrClientContext T} {q : SkelDrvrQueue}
  {stamp : ℕ → ℕ} {i : ℕ}

theorem SkelDrvrQueue.Sound.wrPntr_int (h : q.Sound user) :
    (q.wrPntr : Int) = (q.rdPntr + q.size) % user.queueSize := by
  have hnonneg := h.size_nonneg
  rw [h.wrPntr_eq, Int.natCast_mod, Nat.cast_add, Int.toNat_of_nonneg hnonneg]

theorem map_fst_stamped (q : SkelDrvrQueue) (stamp : ℕ → ℕ) : (q.stamped user stamp).map Prod.fst = q.queued user := by
  rw [SkelDrvrQueue.stamped, contents, List.map_map]
  rfl

theorem stamped_update (entries : ℕ → SkelDrvrReadBuf) (w : ℕ) :
    (fun k => (Function.update entries w rb k, Function.update stamp w i k)) =
      Function.update (fun k => (entries k, stamp k)) w (rb, i) := by
  funext k
  by_cases hk : k = w
  · rw [hk, Function.update_self, Function.update_self, Function.update_self]
  · rw [Function.update_of_ne hk, Function.update_of_ne hk, Function.update_of_ne hk]

/-- A put into a queue with room: the entry comes last, and the semaphore is signalled. -/
theorem qPut_room (rb : SkelDrvrReadBuf) (stamp : ℕ → ℕ) (i : ℕ) (h : ccon.queue.Sound user)
    (hroom : ccon.queue.size < user.queueSize) : (qPut user rb ccon).1.queue.Sound user ∧
    (qPut user rb ccon).1.queue.stamped user (Function.update stamp ccon.queue.wrPntr i) =
      ccon.queue.stamped user stamp ++ [(rb, i)] ∧
    (qPut user rb ccon).1.queue.size = ccon.queue.size + 1 ∧
    (qPut user rb ccon).1.queue.missed = ccon.queue.missed ∧
    ((qPut user rb ccon).1.semaphore, (qPut user rb ccon).2) = cdcmUp ccon.semaphore := by
  obtain ⟨hnonneg, hle, hrd, hwr⟩ := h
  have hsucc : (ccon.queue.size + 1).toNat = ccon.queue.size.toNat + 1 := by omega
  have hlt : ccon.queue.size.toNat < user.queueSize := by omega
  unfold qPut
  simp only [if_pos hroom]
  refine ⟨⟨?_, ?_, hrd, ?_⟩, ?_, trivial, trivial, trivial⟩
  · change (0 : Int) ≤ ccon.queue.size + 1
    omega
  · change ccon.queue.size + 1 ≤ user.queueSize
    omega
  · change (ccon.queue.wrPntr + 1) % user.queueSize = (ccon.queue.rdPntr + (ccon.queue.size + 1).toNat) % user.queueSize
    rw [hsucc, hwr, Nat.mod_add_mod, Nat.add_assoc]
  · change contents _ (fun k => (Function.update _ _ rb k, Function.update _ _ i k)) _ (ccon.queue.size + 1).toNat = _
    rw [stamped_update, hsucc, hwr]
    exact contents_put hlt

/-- A put into a full queue: the oldest entry is overwritten, and no reader is told. -/
theorem qPut_full (rb : SkelDrvrReadBuf) (stamp : ℕ → ℕ) (i : ℕ) (h : ccon.queue.Sound user)
    (hfull : ¬ ccon.queue.size < user.queueSize) : (qPut user rb ccon).1.queue.Sound user ∧
    (qPut user rb ccon).1.queue.stamped user (Function.update stamp ccon.queue.wrPntr i) =
      (ccon.queue.stamped user stamp).tail ++ [(rb, i)] ∧
    ccon.queue.stamped user stamp = (ccon.queue.entries ccon.queue.wrPntr, stamp ccon.queue.wrPntr) ::
      (ccon.queue.stamped user stamp).tail ∧
    (qPut user rb ccon).1.queue.size = ccon.queue.size ∧
    (qPut user rb ccon).1.queue.missed = ccon.queue.missed + 1 ∧
    (qPut user rb ccon).1.semaphore = ccon.semaphore ∧ (qPut user rb ccon).2 = none := by
  obtain ⟨hnonneg, hle, hrd, hwr⟩ := h
  have hpos := user.queueSize_pos
  have hsize : ccon.queue.size.toNat = user.queueSize := by omega
  have hslot : ccon.queue.wrPntr = ccon.queue.rdPntr % user.queueSize := by rw [hwr, hsize, Nat.add_mod_right]
  unfold qPut
  simp only [if_neg hfull]
  refine ⟨⟨hnonneg, hle, Nat.mod_lt _ hpos, ?_⟩, ?_, ?_, trivial, trivial, trivial, trivial⟩
  · change (ccon.queue.wrPntr + 1) % user.queueSize =
      ((ccon.queue.rdPntr + 1) % user.queueSize + ccon.queue.size.toNat) % user.queueSize
    rw [hsize, hslot, Nat.mod_add_mod, Nat.add_mod_right, Nat.mod_mod]
  · change contents _ (fun k => (Function.update _ _ rb k, Function.update _ _ i k)) _ ccon.queue.size.toNat = _
    rw [stamped_update, SkelDrvrQueue.stamped, hsize, hslot]
    exact contents_overwrite hpos
  · obtain ⟨m, hm⟩ : ∃ m, user.queueSize = m + 1 := ⟨user.queueSize - 1, by omega⟩
    rw [SkelDrvrQueue.stamped, hsize, hm, contents_cons, hslot, hm]
    rfl

/-- A get from a queue with entries returns the oldest one. -/
theorem qGet_cons (stamp : ℕ → ℕ) (h : ccon.queue.Sound user) (hsize : 0 < ccon.queue.size) :
    (qGet user ccon).2.queue.Sound user ∧
    ccon.queue.stamped user stamp =
      ((qGet user ccon).1, stamp ccon.queue.rdPntr) :: (qGet user ccon).2.queue.stamped user stamp := by
  obtain ⟨hnonneg, hle, hrd, hwr⟩ := h
  have hpos := user.queueSize_pos
  have hpred : ccon.queue.size.toNat = (ccon.queue.size - 1).toNat + 1 := by omega
  refine ⟨⟨?_, ?_, Nat.mod_lt _ hpos, ?_⟩, ?_⟩
  · change (0 : Int) ≤ ccon.queue.size - 1
    omega
  · change ccon.queue.size - 1 ≤ user.queueSize
    omega
  · change ccon.queue.wrPntr = ((ccon.queue.rdPntr + 1) % user.queueSize + (ccon.queue.size - 1).toNat) % user.queueSize
    rw [hwr, hpred, Nat.mod_add_mod, Nat.add_assoc, Nat.add_comm 1]
  · rw [SkelDrvrQueue.stamped, hpred, contents_cons, Nat.mod_eq_of_lt hrd]
    rfl

end Sound

end HtDrivers.Skel
