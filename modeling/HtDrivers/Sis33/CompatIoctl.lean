import HtDrivers.Sis33.Card

/-! # The 32-bit calls (`sis33_compat_ioctl.c`)

What ACQUIRE and FETCH do with structures of native layout, and what becomes of them when a 32-bit program calls
them. Structures lie in memory as 32-bit words, the low word of a 64-bit field first. The memory of the caller can be
accessed everywhere.
-/
namespace HtDrivers.Sis33
set_option autoImplicit false

abbrev U32 := BitVec 32

abbrev U64 := BitVec 64

/-! ## The native calls -/

structure Timespec where
  tvSec : U64
  tvNsec : U64
  deriving DecidableEq

structure Timeval where
  tvSec : U64
  tvUsec : U64
  deriving DecidableEq

/-- `sis33_acq_desc`, with its time limit. -/
structure NativeDesc where
  segment : U32
  nrEvents : U32
  evLength : U32
  flags : U32
  timeout : Timespec
  deriving DecidableEq

/-- `sis33_acq` -/
structure NativeAcq where
  data : U64
  size : U32
  nrSamples : U32
  prevticks : U64
  firstSamp : U32
  be : U32
  deriving DecidableEq

/-- `sis33_acq_list` -/
structure NativeList where
  segment : U32
  channel : U32
  acqs : U64
  nAcqs : U32
  flags : U32
  timeout : Timespec
  deriving DecidableEq

def NativeDesc.args (desc : NativeDesc) : AcqDesc :=
  ⟨desc.segment.toNat, desc.nrEvents.toNat, desc.evLength.toNat, desc.flags.toNat⟩

def NativeList.args (list : NativeList) (acqs : List NativeAcq) : AcqList :=
  ⟨list.segment.toNat, list.channel.toNat, acqs.map fun acq => acq.size.toNat, list.flags.toNat⟩

/-- What a call has the driver do. -/
inductive CardOp
  | confEv (desc : AcqDesc)
  | acqStart
  | acqWait (timeout : Option Timespec)
  | fetch (segmentNr channelNr nrEvents : ℕ)
  deriving DecidableEq

/-- What a call returns, does to the card and writes to the structures of its caller. -/
structure Outcome (W : Type) where
  ret : Ret
  ops : List CardOp
  written : Option W
  deriving DecidableEq

/-- What a successful FETCH writes: the time in the list, and the acquisitions. -/
structure Fetched where
  endtime : Timeval
  acqs : List NativeAcq
  deriving DecidableEq

structure CardState where
  card : Card Unit
  endtime : ℕ → Timeval

/-- The card when the call is made, with what the wait for an acquisition, the driver and the allocator give. A
transfer that succeeds returns the number of its events. -/
structure Env where
  limits : CardLimits
  state : CardState
  acqWait : Option Timespec → Except Errno CardState
  fetch : CardState → (segmentNr channelNr : ℕ) → List NativeAcq → (nrEvents : ℕ) → Except Errno (List NativeAcq)
  kzalloc : ℕ → Bool

section Native
variable {W : Type}

def failed (e : Errno) (ops : List CardOp) : Outcome W := ⟨.error e, ops, none⟩

/-- FETCH from where the lock is held and the segment has not been found acquiring at first. -/
def fetchLocked (env : Env) (state : CardState) (ops : List CardOp) (list : NativeList) (acqs : List NativeAcq) :
    Outcome Fetched :=
  match fetchCheck state.card (list.args acqs) with
  | some e => failed e ops
  | none =>
    let nrEvents := fetchEvents state.card (list.args acqs)
    let ops := ops ++ [.fetch list.segment.toNat list.channel.toNat nrEvents]
    match env.fetch state list.segment.toNat list.channel.toNat acqs nrEvents with
    | .error e => failed e ops
    | .ok acqs => ⟨.value nrEvents, ops, some ⟨state.endtime list.segment.toNat, acqs⟩⟩

/-- The time limit that `acq_wait` is called with. -/
def waitTimeout (flags : U32) (t : Timespec) : Option Timespec := if timeout flags.toNat then some t else none

/-- `sis33_fetch_ioctl` on a list and the acquisitions it names; an acquisition has 48 bytes. -/
def nativeFetch (env : Env) (list : NativeList) (acqs : List NativeAcq) : Outcome Fetched :=
  match fetchArgs (list.args acqs) with
  | some e => failed e []
  | none =>
    if env.kzalloc (acqs.length * 48) then
      match fetchRange env.limits env.state.card (list.args acqs) with
      | some e => failed e []
      | none =>
        if (env.state.card.segments list.segment.toNat).acquiring then
          let t := waitTimeout list.flags list.timeout
          if dontwait list.flags.toNat then failed .ebusy []
          else
            match env.acqWait t with
            | .error e => failed e [.acqWait t]
            | .ok state => fetchLocked env state [.acqWait t] list acqs
        else fetchLocked env env.state [] list acqs
    else failed .enomem []

/-- `sis33_acq_start_ioctl` -/
def nativeAcquire (env : Env) (desc : NativeDesc) : Outcome Fetched :=
  match acqArgs desc.args with
  | some e => failed e []
  | none =>
    match acqCheck env.limits env.state.card desc.args with
    | some e => failed e []
    | none =>
      let ops := [.confEv desc.args, .acqStart]
      let t := waitTimeout desc.flags desc.timeout
      if dontwait desc.flags.toNat then ⟨.value 0, ops, none⟩
      else
        match env.acqWait t with
        | .error e => failed e (ops ++ [.acqWait t])
        | .ok _ => ⟨.value 0, ops ++ [.acqWait t], none⟩

end Native

/-! ## The structures of a 32-bit program -/

structure Timespec32 where
  tvSec : U32
  tvNsec : U32
  deriving DecidableEq

/-- `sis33_acq_desc` of a 32-bit program. -/
structure Desc32 where
  segment : U32
  nrEvents : U32
  evLength : U32
  flags : U32
  timeout : Timespec32
  deriving DecidableEq

/-- `sis33_acq` of a 32-bit program. -/
structure Acq32 where
  data : U32
  size : U32
  nrSamples : U32
  prevticks : U64
  firstSamp : U32
  be : U32
  deriving DecidableEq

/-- `sis33_acq_list` of a 32-bit program, in the order of `sis33.h`. -/
structure List32 where
  segment : U32
  channel : U32
  acqs : U32
  nAcqs : U32
  flags : U32
  timeout : Timespec32
  deriving DecidableEq

def List32.words (list : List32) : List U32 :=
  [list.segment, list.channel, list.acqs, list.nAcqs, list.flags, list.timeout.tvSec, list.timeout.tvNsec]

def Timespec32.native (t : Timespec32) : Timespec := ⟨t.tvSec.signExtend 64, t.tvNsec.signExtend 64⟩

def Desc32.native (desc : Desc32) : NativeDesc :=
  ⟨desc.segment, desc.nrEvents, desc.evLength, desc.flags, desc.timeout.native⟩

def Acq32.native (acq : Acq32) : NativeAcq :=
  ⟨acq.data.setWidth 64, acq.size, acq.nrSamples, acq.prevticks, acq.firstSamp, acq.be⟩

def List32.native (list : List32) : NativeList :=
  ⟨list.segment, list.channel, list.acqs.setWidth 64, list.nAcqs, list.flags, list.timeout.native⟩

/-- What the caller finds in its structures after the call: `sis33_put_compat_acq` leaves `data` untouched. -/
structure Fetched32 where
  tvSec : U32
  tvUsec : U32
  acqs : List (U32 × U32 × U64 × U32 × U32)
  deriving DecidableEq

def Fetched.compat (fetched : Fetched) : Fetched32 :=
  ⟨fetched.endtime.tvSec.setWidth 32, fetched.endtime.tvUsec.setWidth 32,
    fetched.acqs.map fun acq => (acq.size, acq.nrSamples, acq.prevticks, acq.firstSamp, acq.be)⟩

/-- The outcome of a native call as a 32-bit program sees it. -/
def Outcome.compat (o : Outcome Fetched) : Outcome Fetched32 := ⟨o.ret, o.ops, o.written.map Fetched.compat⟩

/-- The memory of the caller: the structure of a 32-bit or a native layout that lies at an address, the words that lie
in the area below its stack, and how many bytes there are. -/
structure UserMem where
  acq32 : U32 → Acq32
  acq : U64 → NativeAcq
  area : ℕ → U32
  room : ℕ

/-- `n` structures of a 32-bit program in a row, of 44 bytes each. -/
def UserMem.acqs32 (mem : UserMem) (address : U32) (n : ℕ) : List Acq32 :=
  (List.range n).map fun i => mem.acq32 (address + BitVec.ofNat 32 (i * 44))

def UserMem.acqs (mem : UserMem) (address : U64) (n : ℕ) : List NativeAcq :=
  (List.range n).map fun i => mem.acq (address + BitVec.ofNat 64 (i * 48))

/-! ## The 32-bit calls -/

/-- `sis33_compat_acq_list`, in the order of `sis33_compat_ioctl.c`. -/
structure CompatList where
  segment : U32
  channel : U32
  nAcqs : U32
  acqs : U32
  flags : U32
  timeout : Timespec32
  deriving DecidableEq

def CompatList.ofWords (words : List U32) : CompatList :=
  let w := fun i => words.getD i 0
  ⟨w 0, w 1, w 2, w 3, w 4, ⟨w 5, w 6⟩⟩

/-- The words of a native descriptor that has been put into the area. -/
def NativeDesc.words (desc : NativeDesc) (area : ℕ → U32) : List U32 :=
  [desc.segment, desc.nrEvents, desc.evLength, desc.flags,
    desc.timeout.tvSec.setWidth 32, (desc.timeout.tvSec >>> 32).setWidth 32,
    desc.timeout.tvNsec.setWidth 32, (desc.timeout.tvNsec >>> 32).setWidth 32] ++
    (List.range 10).map fun i => area (8 + i)

/-- The words of a native list. -/
def NativeList.ofWords (words : List U32) : NativeList :=
  let w := fun i => words.getD i 0
  ⟨w 0, w 1, w 3 ++ w 2, w 4, w 5, ⟨w 7 ++ w 6, w 9 ++ w 8⟩⟩

/-- The list that `sis33_compat_fetch_ioctl` puts into the area, with copies of the acquisitions behind it. -/
def CompatList.native (list : CompatList) : NativeList :=
  ⟨list.segment, list.channel, 0, list.nAcqs, list.flags, list.timeout.native⟩

/-- The size of a native list with `n` acquisitions behind it. -/
def combinedSize (n : ℕ) : ℕ := 72 + n * 48

inductive Call
  | acquire (desc : Desc32)
  | fetch (list : List32)

/-- The native call that a 32-bit call issues: it is FETCH in both cases, which takes the words of a descriptor for a
list. -/
def translatedIoctl (env : Env) (mem : UserMem) : Call → Outcome Fetched
  | .acquire desc =>
    let list := NativeList.ofWords (desc.native.words mem.area)
    nativeFetch env list (mem.acqs list.acqs list.nAcqs.toNat)
  | .fetch list =>
    let list := CompatList.ofWords list.words
    nativeFetch env list.native ((mem.acqs32 list.acqs list.nAcqs.toNat).map Acq32.native)

/-- The area has room for what is put into it. -/
def HasRoom (mem : UserMem) : Call → Bool
  | .acquire _ => true
  | .fetch list => combinedSize (CompatList.ofWords list.words).nAcqs.toNat ≤ mem.room

/-- `sis33_compat_ioctl`. The results of FETCH are put back unless it returns something other than 0. -/
def compatIoctl (env : Env) (mem : UserMem) (call : Call) : Outcome Fetched32 :=
  let o := translatedIoctl env mem call
  match call with
  | .acquire _ => o.compat
  | .fetch _ =>
    if HasRoom mem call then
      if o.ret = .value 0 then o.compat else ⟨o.ret, o.ops, none⟩
    else failed .efault []

/-- `sis33_ioctl` on the corresponding native structures. -/
def nativeIoctl (env : Env) (mem : UserMem) : Call → Outcome Fetched
  | .acquire desc => nativeAcquire env desc.native
  | .fetch list => nativeFetch env list.native ((mem.acqs32 list.acqs list.nAcqs.toNat).map Acq32.native)

/-! ## What the native calls return -/

section Native
variable {env : Env} {list : NativeList} {acqs : List NativeAcq} {ops : List CardOp} {e : Errno}

theorem fetchArgs_ne_efault {args : AcqList} (h : fetchArgs args = some e) : e ≠ .efault := by
  unfold fetchArgs at h
  split_ifs at h <;> cases h <;> decide

theorem fetchRange_ne_efault {args : AcqList} (h : fetchRange env.limits env.state.card args = some e) :
    e ≠ .efault := by
  unfold fetchRange at h
  split_ifs at h
  cases h
  decide

theorem fetchCheck_ne_efault {card : Card Unit} {args : AcqList} (h : fetchCheck card args = some e) :
    e ≠ .efault := by
  simp only [fetchCheck] at h
  split_ifs at h <;> cases h <;> decide

/-- A FETCH fails, with the memory to blame only when it has come to the driver, or it returns the number of its
events and writes its results. -/
def FetchOutcome (o : Outcome Fetched) : Prop :=
  (∃ e ops, o = failed e ops ∧ (ops = [] → e ≠ .efault)) ∨ ∃ n ops w, o = ⟨.value n, ops, some w⟩ ∧ n ≠ 0

theorem fetchLocked_outcome (env : Env) (state : CardState) (ops : List CardOp) (list : NativeList)
    (acqs : List NativeAcq) : FetchOutcome (fetchLocked env state ops list acqs) := by
  unfold fetchLocked
  split
  · rename_i e hcheck
    exact .inl ⟨e, ops, rfl, fun _ => fetchCheck_ne_efault hcheck⟩
  · rename_i hcheck
    dsimp only
    split
    · refine .inl ⟨_, _, rfl, fun h => ?_⟩
      simp at h
    · exact .inr ⟨_, _, _, rfl, (fetchCheck_none hcheck).2.2.1⟩

theorem nativeFetch_outcome (env : Env) (list : NativeList) (acqs : List NativeAcq) :
    FetchOutcome (nativeFetch env list acqs) := by
  unfold nativeFetch
  split
  · rename_i e hargs
    exact .inl ⟨e, [], rfl, fun _ => fetchArgs_ne_efault hargs⟩
  · split
    · split
      · rename_i e hrange
        exact .inl ⟨e, [], rfl, fun _ => fetchRange_ne_efault hrange⟩
      · split
        · dsimp only
          split
          · exact .inl ⟨.ebusy, [], rfl, fun _ => nofun⟩
          · split
            · exact .inl ⟨_, _, rfl, nofun⟩
            · exact fetchLocked_outcome ..
        · exact fetchLocked_outcome ..
    · exact .inl ⟨.enomem, [], rfl, fun _ => nofun⟩

theorem nativeAcquire_outcome (env : Env) (desc : NativeDesc) :
    (∃ e ops, nativeAcquire env desc = failed e ops) ∨ ∃ ops, nativeAcquire env desc = ⟨.value 0, ops, none⟩ := by
  unfold nativeAcquire
  split
  · exact .inl ⟨_, _, rfl⟩
  · split
    · exact .inl ⟨_, _, rfl⟩
    · dsimp only
      split
      · exact .inr ⟨_, rfl⟩
      · split
        · exact .inl ⟨_, _, rfl⟩
        · exact .inr ⟨_, rfl⟩

end Native

/-! ## The refinement -/

section Refinement
variable {env : Env} {mem : UserMem} {call : Call}

/-- The error with which FETCH refuses a list before it waits for an acquisition or has the driver read anything. -/
def fetchRefusal (env : Env) (list : NativeList) (acqs : List NativeAcq) : Option Errno :=
  match fetchArgs (list.args acqs) with
  | some e => some e
  | none =>
    if env.kzalloc (acqs.length * 48) then
      match fetchRange env.limits env.state.card (list.args acqs) with
      | some e => some e
      | none =>
        if (env.state.card.segments list.segment.toNat).acquiring then
          if dontwait list.flags.toNat then some .ebusy else none
        else fetchCheck env.state.card (list.args acqs)
    else some .enomem

/-- The error with which ACQUIRE refuses a descriptor. -/
def acqRefusal (env : Env) (desc : NativeDesc) : Option Errno :=
  match acqArgs desc.args with
  | some e => some e
  | none => acqCheck env.limits env.state.card desc.args

/-- From where the lock is held, two lists for one segment and channel are refused with one error, or the driver reads
the same number of events for both and fails with one error. -/
def LockedAlike (env : Env) (state : CardState) (meant issued : NativeList) (acqs acqs' : List NativeAcq) : Prop :=
  (∃ e, fetchCheck state.card (meant.args acqs) = some e ∧ fetchCheck state.card (issued.args acqs') = some e) ∨
    fetchCheck state.card (meant.args acqs) = none ∧ fetchCheck state.card (issued.args acqs') = none ∧
      fetchEvents state.card (meant.args acqs) = fetchEvents state.card (issued.args acqs') ∧
      ∃ e, env.fetch state meant.segment.toNat meant.channel.toNat acqs
          (fetchEvents state.card (meant.args acqs)) = .error e ∧
        env.fetch state meant.segment.toNat meant.channel.toNat acqs'
          (fetchEvents state.card (meant.args acqs)) = .error e

/-- Two lists for one segment, channel and time limit are refused with one error; or neither is, and they wait in vain
or meet the same failure in the state that the wait ends in. -/
def FetchAlike (env : Env) (meant issued : NativeList) (acqs acqs' : List NativeAcq) : Prop :=
  (∃ e, fetchRefusal env meant acqs = some e ∧ fetchRefusal env issued acqs' = some e) ∨
    fetchRefusal env meant acqs = none ∧ fetchRefusal env issued acqs' = none ∧
      if (env.state.card.segments meant.segment.toNat).acquiring then
        ∀ state, env.acqWait (waitTimeout meant.flags meant.timeout) = .ok state →
          LockedAlike env state meant issued acqs acqs'
      else LockedAlike env env.state meant issued acqs acqs'

/-- The call that was meant and the one that is issued fail alike: a descriptor, as what it is and as the list that its
words make; a list, as it is and with the address and the number of its acquisitions exchanged. -/
def FailsAlike (env : Env) (mem : UserMem) : Call → Prop
  | .acquire desc =>
    let issued := NativeList.ofWords (desc.native.words mem.area)
    ∃ e, acqRefusal env desc.native = some e ∧
      fetchRefusal env issued (mem.acqs issued.acqs issued.nAcqs.toNat) = some e
  | .fetch list =>
    let issued := CompatList.ofWords list.words
    HasRoom mem (.fetch list) = true ∧
      FetchAlike env list.native issued.native ((mem.acqs32 list.acqs list.nAcqs.toNat).map Acq32.native)
        ((mem.acqs32 issued.acqs issued.nAcqs.toNat).map Acq32.native)

section Native
variable {env : Env} {state : CardState} {list meant issued : NativeList} {acqs acqs' : List NativeAcq}
  {desc : NativeDesc} {ops : List CardOp} {e : Errno}

theorem nativeFetch_refused (h : fetchRefusal env list acqs = some e) : nativeFetch env list acqs = failed e [] := by
  unfold fetchRefusal at h
  unfold nativeFetch
  cases hargs : fetchArgs (list.args acqs) with
  | some e' =>
    rw [hargs] at h
    cases h
    rfl
  | none =>
    rw [hargs] at h
    dsimp only at h ⊢
    by_cases hmem : env.kzalloc (acqs.length * 48) = true
    · rw [if_pos hmem] at h ⊢
      cases hrange : fetchRange env.limits env.state.card (list.args acqs) with
      | some e' =>
        rw [hrange] at h
        cases h
        rfl
      | none =>
        rw [hrange] at h
        dsimp only at h ⊢
        split_ifs at h ⊢ with hacquiring hdontwait
        · cases h
          rfl
        · simp only [fetchLocked, h]
    · rw [if_neg hmem] at h ⊢
      cases h
      rfl

theorem nativeFetch_passed (h : fetchRefusal env list acqs = none) :
    nativeFetch env list acqs =
      if (env.state.card.segments list.segment.toNat).acquiring then
        match env.acqWait (waitTimeout list.flags list.timeout) with
        | .error e => failed e [.acqWait (waitTimeout list.flags list.timeout)]
        | .ok state => fetchLocked env state [.acqWait (waitTimeout list.flags list.timeout)] list acqs
      else fetchLocked env env.state [] list acqs := by
  unfold fetchRefusal at h
  unfold nativeFetch
  cases hargs : fetchArgs (list.args acqs) with
  | some e =>
    rw [hargs] at h
    cases h
  | none =>
    rw [hargs] at h
    dsimp only at h ⊢
    by_cases hmem : env.kzalloc (acqs.length * 48) = true
    · rw [if_pos hmem] at h ⊢
      cases hrange : fetchRange env.limits env.state.card (list.args acqs) with
      | some e =>
        rw [hrange] at h
        cases h
      | none =>
        rw [hrange] at h
        dsimp only at h ⊢
        split_ifs at h ⊢
        · rfl
        · rfl
    · rw [if_neg hmem] at h
      cases h

theorem fetchCheck_of_passed (h : fetchRefusal env list acqs = none)
    (hacquiring : (env.state.card.segments list.segment.toNat).acquiring = false) :
    fetchCheck env.state.card (list.args acqs) = none := by
  unfold fetchRefusal at h
  split at h
  · cases h
  · by_cases hmem : env.kzalloc (acqs.length * 48) = true
    · rw [if_pos hmem, hacquiring] at h
      split at h
      · cases h
      · exact h
    · rw [if_neg hmem] at h
      cases h

/-- What a FETCH does to the card from where it holds the lock: after what it has done, at most the transfer. -/
theorem fetchLocked_ops (env : Env) (state : CardState) (ops : List CardOp) (list : NativeList)
    (acqs : List NativeAcq) : (fetchLocked env state ops list acqs).ops = ops ∨
      ∃ n, (fetchLocked env state ops list acqs).ops = ops ++ [.fetch list.segment.toNat list.channel.toNat n] := by
  unfold fetchLocked
  split
  · exact .inl rfl
  · dsimp only
    split
    · exact .inr ⟨_, rfl⟩
    · exact .inr ⟨_, rfl⟩

theorem nativeFetch_no_confEv (args : AcqDesc) : CardOp.confEv args ∉ (nativeFetch env list acqs).ops := by
  cases h : fetchRefusal env list acqs with
  | some e =>
    rw [nativeFetch_refused h]
    exact List.not_mem_nil
  | none =>
    rw [nativeFetch_passed h]
    split
    · split
      · simp [failed]
      · obtain hops | ⟨n, hops⟩ := fetchLocked_ops env _ [.acqWait (waitTimeout list.flags list.timeout)] list acqs
        · rw [hops]
          simp
        · rw [hops]
          simp
    · obtain hops | ⟨n, hops⟩ := fetchLocked_ops env env.state [] list acqs
      · rw [hops]
        simp
      · rw [hops]
        simp

theorem nativeFetch_ops_ne_nil (h : fetchRefusal env list acqs = none) : (nativeFetch env list acqs).ops ≠ [] := by
  rw [nativeFetch_passed h]
  split
  · split
    · exact nofun
    · obtain hops | ⟨n, hops⟩ := fetchLocked_ops env _ [.acqWait (waitTimeout list.flags list.timeout)] list acqs
      · rw [hops]
        exact nofun
      · rw [hops]
        exact nofun
  · rename_i hacquiring
    have hcheck := fetchCheck_of_passed h (by rwa [Bool.not_eq_true] at hacquiring)
    unfold fetchLocked
    rw [hcheck]
    dsimp only
    split
    · exact nofun
    · exact nofun

theorem nativeFetch_eq_failed_nil : nativeFetch env list acqs = failed e [] ↔ fetchRefusal env list acqs = some e := by
  constructor
  · intro h
    cases hrefusal : fetchRefusal env list acqs with
    | some e' =>
      rw [nativeFetch_refused hrefusal] at h
      cases h
      rfl
    | none => exact absurd (congrArg Outcome.ops h) (nativeFetch_ops_ne_nil hrefusal)
  · exact nativeFetch_refused

theorem nativeAcquire_refused (h : acqRefusal env desc = some e) : nativeAcquire env desc = failed e [] := by
  unfold acqRefusal at h
  unfold nativeAcquire
  cases hargs : acqArgs desc.args with
  | some e' =>
    rw [hargs] at h
    cases h
    rfl
  | none =>
    rw [hargs] at h
    dsimp only at h ⊢
    rw [h]

theorem nativeAcquire_passed (h : acqRefusal env desc = none) :
    CardOp.confEv desc.args ∈ (nativeAcquire env desc).ops := by
  unfold acqRefusal at h
  unfold nativeAcquire
  cases hargs : acqArgs desc.args with
  | some e =>
    rw [hargs] at h
    cases h
  | none =>
    rw [hargs] at h
    dsimp only at h ⊢
    rw [h]
    dsimp only
    split
    · exact List.mem_cons_self
    · split
      · exact List.mem_cons_self
      · exact List.mem_cons_self

theorem fetchLocked_alike (hsegment : meant.segment = issued.segment) (hchannel : meant.channel = issued.channel) :
    (∃ e ops', fetchLocked env state ops meant acqs = failed e ops' ∧
      fetchLocked env state ops issued acqs' = failed e ops') ↔ LockedAlike env state meant issued acqs acqs' := by
  unfold fetchLocked LockedAlike
  rw [← hsegment, ← hchannel]
  cases hmeant : fetchCheck state.card (meant.args acqs) with
  | some e =>
    cases hissued : fetchCheck state.card (issued.args acqs') with
    | some e' => simp [failed]
    | none =>
      dsimp only
      cases hfetch : env.fetch state meant.segment.toNat meant.channel.toNat acqs'
          (fetchEvents state.card (issued.args acqs')) with
      | error e' => simp [failed]
      | ok ms => simp [failed]
  | none =>
    cases hissued : fetchCheck state.card (issued.args acqs') with
    | some e' =>
      dsimp only
      cases hfetch : env.fetch state meant.segment.toNat meant.channel.toNat acqs
          (fetchEvents state.card (meant.args acqs)) with
      | error e' => simp [failed]
      | ok ms => simp [failed]
    | none =>
      by_cases hn : fetchEvents state.card (meant.args acqs) = fetchEvents state.card (issued.args acqs')
      · rw [← hn]
        dsimp only
        cases hfetch : env.fetch state meant.segment.toNat meant.channel.toNat acqs
            (fetchEvents state.card (meant.args acqs)) with
        | ok ms => simp [failed]
        | error e =>
          cases hfetch' : env.fetch state meant.segment.toNat meant.channel.toNat acqs'
              (fetchEvents state.card (meant.args acqs)) with
          | ok ms => simp [failed]
          | error e' => simp [failed]
      · constructor
        · rintro ⟨e, ops', h, h'⟩
          dsimp only at h h'
          -- each names the number of its events
          split at h
          · split at h'
            · have hops := congrArg Outcome.ops (h.trans h'.symm)
              simp only [failed, List.append_cancel_left_eq, List.cons.injEq, CardOp.fetch.injEq] at hops
              exact absurd hops.1.2.2 hn
            · cases h'
          · cases h
        · rintro (⟨e, h, -⟩ | ⟨-, -, h, -⟩)
          · cases h
          · exact absurd h hn

theorem nativeFetch_alike (hsegment : meant.segment = issued.segment) (hchannel : meant.channel = issued.channel)
    (hflags : meant.flags = issued.flags) (htimeout : meant.timeout = issued.timeout) :
    (∃ e ops, nativeFetch env meant acqs = failed e ops ∧ nativeFetch env issued acqs' = failed e ops) ↔
      FetchAlike env meant issued acqs acqs' := by
  unfold FetchAlike
  cases hmeant : fetchRefusal env meant acqs with
  | some e =>
    rw [nativeFetch_refused hmeant]
    constructor
    · rintro ⟨e', ops, h, h'⟩
      cases h
      exact .inl ⟨e, rfl, nativeFetch_eq_failed_nil.mp h'⟩
    · rintro (⟨e', h, h'⟩ | ⟨h, -⟩)
      · cases h
        exact ⟨e, [], rfl, nativeFetch_refused h'⟩
      · cases h
  | none =>
    cases hissued : fetchRefusal env issued acqs' with
    | some e =>
      rw [nativeFetch_refused hissued]
      constructor
      · rintro ⟨e', ops, h, h'⟩
        cases h'
        rw [nativeFetch_eq_failed_nil.mp h] at hmeant
        cases hmeant
      · rintro (⟨e', h, -⟩ | ⟨-, h, -⟩)
        · cases h
        · cases h
    | none =>
      rw [nativeFetch_passed hmeant, nativeFetch_passed hissued, ← hsegment, ← hflags, ← htimeout]
      split
      · cases hwait : env.acqWait (waitTimeout meant.flags meant.timeout) with
        | error e => simp
        | ok state => simp [fetchLocked_alike hsegment hchannel]
      · simp [fetchLocked_alike hsegment hchannel]

end Native

theorem translatedIoctl_outcome (env : Env) (mem : UserMem) (call : Call) :
    FetchOutcome (translatedIoctl env mem call) := by
  cases call with
  | acquire desc => exact nativeFetch_outcome ..
  | fetch list => exact nativeFetch_outcome ..

theorem failsAlike_iff : FailsAlike env mem call ↔ HasRoom mem call = true ∧
    ∃ e ops, nativeIoctl env mem call = failed e ops ∧ translatedIoctl env mem call = failed e ops := by
  cases call with
  | acquire desc =>
    simp only [FailsAlike, HasRoom, nativeIoctl, translatedIoctl, true_and]
    constructor
    · rintro ⟨e, h, h'⟩
      exact ⟨e, [], nativeAcquire_refused h, nativeFetch_refused h'⟩
    · rintro ⟨e, ops, h, h'⟩
      cases hrefusal : acqRefusal env desc.native with
      | some e' =>
        rw [nativeAcquire_refused hrefusal] at h
        cases h
        exact ⟨e, rfl, nativeFetch_eq_failed_nil.mp h'⟩
      | none =>
        have hmem := nativeAcquire_passed hrefusal
        rw [h, ← h'] at hmem
        exact absurd hmem (nativeFetch_no_confEv _)
  | fetch list =>
    exact and_congr_right fun _ => (nativeFetch_alike rfl rfl rfl rfl).symm

theorem FailsAlike.compat (h : FailsAlike env mem call) :
    compatIoctl env mem call = (nativeIoctl env mem call).compat := by
  obtain ⟨hroom, e, ops, hnative, hissued⟩ := failsAlike_iff.mp h
  rw [hnative]
  cases call with
  | acquire desc =>
    simp only [compatIoctl, hissued]
  | fetch list =>
    simp only [compatIoctl, hissued, hroom]
    rfl

theorem acquire_failsAlike {desc : Desc32}
    (h : compatIoctl env mem (.acquire desc) = (nativeIoctl env mem (.acquire desc)).compat) :
    FailsAlike env mem (.acquire desc) := by
  change (translatedIoctl env mem (.acquire desc)).compat = (nativeAcquire env desc.native).compat at h
  obtain ⟨e, ops, hissued, -⟩ | ⟨n, ops, w, hissued, hn⟩ := translatedIoctl_outcome env mem (.acquire desc)
  · obtain ⟨e', ops', hnative⟩ | ⟨ops', hnative⟩ := nativeAcquire_outcome env desc.native
    · rw [hissued, hnative] at h
      cases h
      exact failsAlike_iff.mpr ⟨rfl, e, ops, hnative, hissued⟩
    · rw [hissued, hnative] at h
      cases h
  · -- a FETCH that succeeds returns a positive number
    obtain ⟨e', ops', hnative⟩ | ⟨ops', hnative⟩ := nativeAcquire_outcome env desc.native
    · rw [hissued, hnative] at h
      cases h
    · rw [hissued, hnative] at h
      cases h

theorem fetch_failsAlike {list : List32}
    (h : compatIoctl env mem (.fetch list) = (nativeIoctl env mem (.fetch list)).compat) :
    FailsAlike env mem (.fetch list) := by
  have hnative : FetchOutcome (nativeIoctl env mem (.fetch list)) := nativeFetch_outcome ..
  simp only [compatIoctl] at h
  split at h
  · rename_i hroom
    obtain ⟨e, ops, hissued, -⟩ | ⟨n, ops, w, hissued, hn⟩ := translatedIoctl_outcome env mem (.fetch list)
    · obtain ⟨e', ops', hnative, -⟩ | ⟨n', ops', w', hnative, -⟩ := hnative
      · rw [hissued, hnative] at h
        cases h
        exact failsAlike_iff.mpr ⟨hroom, e, ops, hnative, hissued⟩
      · rw [hissued, hnative] at h
        cases h
    · -- the results of a FETCH that succeeds are not put back
      have hret : ¬(translatedIoctl env mem (.fetch list)).ret = .value 0 := by
        rw [hissued]
        intro h
        cases h
        exact hn rfl
      rw [if_neg hret, hissued] at h
      obtain ⟨e', ops', hnative, -⟩ | ⟨n', ops', w', hnative, -⟩ := hnative
      · rw [hnative] at h
        cases h
      · rw [hnative] at h
        cases h
  · obtain ⟨e', ops', hnative, hefault⟩ | ⟨n', ops', w', hnative, -⟩ := hnative
    · rw [hnative] at h
      cases h
      exact absurd rfl (hefault rfl)
    · rw [hnative] at h
      cases h

/-- The 32-bit call does what the native one does exactly if there is nothing to do. -/
theorem compatIoctl_iff (env : Env) (mem : UserMem) (call : Call) :
    compatIoctl env mem call = (nativeIoctl env mem call).compat ↔ FailsAlike env mem call := by
  constructor
  · intro h
    cases call with
    | acquire desc => exact acquire_failsAlike h
    | fetch list => exact fetch_failsAlike h
  · exact FailsAlike.compat

end Refinement

/-! ## A descriptor and a list -/

/-- A card with one event of 64 samples on segment 0, whose transfer fills in the number of samples. -/
def cardWithEvent : Env where
  limits := ⟨512, 8, [33554432, 64], 2, 1⟩
  state :=
    { card :=
        { nSegments := 2
          segments := fun _ =>
            { acquiring := false, transferring := false, nrSampPerEv := 64, nrEvents := 1, cache := () }
          currSegment := 0
          acqNo := 1 }
      endtime := fun _ => ⟨1000, 0⟩ }
  acqWait _ := .error .eintr
  fetch _ _ _ acqs _ := .ok (acqs.map fun acq => { acq with nrSamples := 64 })
  kzalloc _ := true

/-- Acquisitions with buffers of 128 bytes wherever the kernel looks. -/
def oneAcq : UserMem where
  acq32 _ := ⟨0x10000, 128, 0, 0, 0, 0⟩
  acq _ := ⟨0x10000, 128, 0, 0, 0, 0⟩
  area _ := 0
  room := 0x100000

/-- ACQUIRE of one event, without waiting. -/
def acquire32 : Call := .acquire ⟨0, 1, 64, 1, ⟨0, 0⟩⟩

/-- FETCH of one event; the acquisition lies at address 256. -/
def fetch32 : Call := .fetch ⟨0, 0, 256, 1, 0, ⟨0, 0⟩⟩

theorem not_compatIoctl : compatIoctl cardWithEvent oneAcq acquire32 ≠
    (nativeIoctl cardWithEvent oneAcq acquire32).compat ∧
    compatIoctl cardWithEvent oneAcq fetch32 ≠ (nativeIoctl cardWithEvent oneAcq fetch32).compat := by
  refine ⟨?_, ?_⟩
  · decide
  · decide +kernel

end HtDrivers.Sis33
