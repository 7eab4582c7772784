import HtDrivers.Xmem.SegmentBounds
import HtDrivers.Lib.Transition

/-! The DMA threshold beside the requests that are under way: `SET_DMA_THRESHOLD`, `READ_SEGMENT` and `WRITE_SEGMENT`
(`xmemDrvr.c`). A request compares its `Size` with the threshold to choose its buffer, and `SegmentCopy` compares it
again to choose the copy. `C` is the type of the clients. -/
namespace HtDrivers.Xmem
open HtDrivers.Lib.Transition
set_option autoImplicit false

def xmemDrvrDefaultDmaThreshold : ℕ := 1024

/-- A request, with the module of its client when it came in. -/
structure SegRequest where
  midx : ℕ
  siod : XmemDrvrSegIoDesc
  iod : XmemDrvrIoDir

/-- Places of a client: before the mutex of `Tempbuf`, before the copy from the user, before `SegmentCopy`, where
`replaced` says whether `UserArray` is `Tempbuf` by then, and before the copy back. -/
inductive SegPlace
  | idle
  | bouncing (request : SegRequest)
  | filling (request : SegRequest)
  | copying (request : SegRequest) (replaced : Bool)
  | returning (request : SegRequest)

inductive CopyPath
  | cpu | dma
deriving DecidableEq

/-- The clients at their places, the modules whose `Tempbuf` is taken, the lengths of the copies to and from a `Tempbuf`
so far, and the paths that `SegmentCopy` took, each with whether the caller had replaced `UserArray`. -/
structure SegTasks (C : Type) where
  area : SegArea
  place : C → SegPlace
  taken : ℕ → Bool
  bounced : List ℕ
  paths : List (CopyPath × Bool)

inductive SegStep (C : Type)
  | setDmaThreshold (lav : BitVec 32)
  | request (c : C) (request : SegRequest)
  | take (c : C)
  | fill (c : C) (ok : Bool)
  | copy (c : C) (env : SegEnv)
  | giveBack (c : C)

section Tasks
variable {C : Type} [DecidableEq C]

/-- `lav` is signed, and is compared as a long without a sign. -/
def setDmaThreshold (wa : SegArea) (lav : BitVec 32) : SegArea :=
  if (lav.signExtend 64).toNat < pageSize then { wa with dmaThreshold := (lav.signExtend 64).toNat } else wa

/-- The path of `SegmentCopy`; without one it has failed before. -/
def copyPath (wa : SegArea) (siod : XmemDrvrSegIoDesc) : Option CopyPath :=
  if siod.userArray = .null then none
  else if siod.id = 0 then none
  else if segmentOf wa.segTable siod.id = none then none
  else if wa.dmaThreshold ≤ siod.size.toNat then some .dma
  else some .cpu

def bounceLen (siod : XmemDrvrSegIoDesc) : CopyPath → ℕ
  | .cpu => longCopy siod.size
  | .dma => siod.size.toNat

def SegTasks.goto (s : SegTasks C) (c : C) (p : SegPlace) : SegTasks C :=
  { s with place := Function.update s.place c p }

def SegTasks.release (s : SegTasks C) (midx : ℕ) : SegTasks C := { s with taken := Function.update s.taken midx false }

def requestStep (s : SegTasks C) (c : C) (request : SegRequest) : SegTasks C :=
  if request.siod.userArray = .null then s
  else if s.area.dmaThreshold ≤ request.siod.size.toNat then s.goto c (.copying request false)
  else s.goto c (.bouncing request)

def fillStep (s : SegTasks C) (c : C) (request : SegRequest) (ok : Bool) : SegTasks C :=
  let filled : SegTasks C := { s with bounced := request.siod.size.toNat :: s.bounced }
  if ok then filled.goto c (.copying request true) else (filled.release request.midx).goto c .idle

/-- What the caller passes on to `SegmentCopy`. -/
def SegRequest.passed (request : SegRequest) (replaced : Bool) : XmemDrvrSegIoDesc :=
  if replaced then { request.siod with userArray := .tempbuf } else request.siod

def SegTasks.copied (s : SegTasks C) (request : SegRequest) (replaced : Bool) (env : SegEnv) : SegTasks C :=
  let siod := request.passed replaced
  let path := (copyPath s.area siod).toList
  { s with
    area := (segmentCopy s.area request.midx env siod request.iod).area
    paths := (path.map fun p => (p, replaced)) ++ s.paths
    bounced := (if replaced then path.map (bounceLen siod) else []) ++ s.bounced }

def copyStep (s : SegTasks C) (c : C) (request : SegRequest) (replaced : Bool) (env : SegEnv) : SegTasks C :=
  let copied := s.copied request replaced env
  if replaced = false then copied.goto c .idle
  else if (segmentCopy s.area request.midx env (request.passed replaced) request.iod).error = none ∧
    request.iod = .read then
    copied.goto c (.returning request)
  else (copied.release request.midx).goto c .idle

def takeStep (s : SegTasks C) (c : C) (request : SegRequest) : SegTasks C :=
  { s with taken := Function.update s.taken request.midx true }.goto c (.filling request)

def giveBackStep (s : SegTasks C) (c : C) (request : SegRequest) : SegTasks C :=
  ({ s with bounced := request.siod.size.toNat :: s.bounced }.release request.midx).goto c .idle

def segNext (s : SegTasks C) : SegStep C → Option (SegTasks C)
  | .setDmaThreshold lav => some { s with area := setDmaThreshold s.area lav }
  | .request c request =>
    match s.place c with
    | .idle => some (requestStep s c request)
    | _ => none
  | .take c =>
    match s.place c with
    | .bouncing request => if s.taken request.midx then none else some (takeStep s c request)
    | _ => none
  | .fill c ok =>
    match s.place c with
    | .filling request => some (fillStep s c request ok)
    | _ => none
  | .copy c env =>
    match s.place c with
    | .copying request replaced => some (copyStep s c request replaced env)
    | _ => none
  | .giveBack c =>
    match s.place c with
    | .returning request => some (giveBackStep s c request)
    | _ => none

/-- After the installation. -/
def installed (wa : SegArea) : SegTasks C :=
  ⟨{ wa with dmaThreshold := xmemDrvrDefaultDmaThreshold }, fun _ => .idle, fun _ => false, [], []⟩

end Tasks

/-! ## The paths are those of `SegmentCopy` -/

section Paths
variable {wa : SegArea} {midx : ℕ} {env : SegEnv} {siod : XmemDrvrSegIoDesc} {iod : XmemDrvrIoDir} {t : Transfer}
  {lav : BitVec 32}

theorem copyPath_threshold {path : CopyPath} (h : copyPath wa siod = some path) :
    path = .cpu ↔ siod.size.toNat < wa.dmaThreshold := by
  unfold copyPath at h
  split at h
  · cases h
  split at h
  · cases h
  split at h
  · cases h
  split at h
  · rename_i hsize
    cases h
    simpa using hsize
  · rename_i hsize
    cases h
    simpa using hsize

theorem sendUpdate_area (outcome : SegOutcome) : (sendUpdate wa siod iod outcome).area = outcome.area := by
  unfold sendUpdate
  split
  · split <;> rfl
  · rfl

/-- A copy by the CPU moves the buffer of the request, and one by DMA goes over the bus. -/
theorem segmentCopy_path (h : t ∈ (segmentCopy wa midx env siod iod).transfers) :
    (copyPath wa siod = some .cpu ∧ t.host = .buffer siod.userArray ∧ t.len = longCopy siod.size) ∨
      (copyPath wa siod = some .dma ∧ ∃ address, t.host = .bus address) := by
  unfold segmentCopy at h
  unfold copyPath
  split at h
  · cases h
  rename_i harray
  split at h
  · cases h
  rename_i hid
  rw [if_neg harray, if_neg hid]
  split at h
  · cases h
  rename_i segment hfound
  rw [hfound, if_neg (by simp)]
  split at h
  · rename_i hsize
    rw [if_pos hsize]
    split at h
    · cases h
    split at h
    · cases h
    rw [sendUpdate_transfers] at h
    obtain ⟨before, piece, after, segment, -, -, -, rfl⟩ := dmaLoop_transfer h
    exact Or.inr ⟨rfl, _, rfl⟩
  · rename_i hsize
    rw [if_neg hsize]
    split at h
    · cases h
    · rw [sendUpdate_transfers] at h
      obtain rfl := List.mem_singleton.mp h
      exact Or.inl ⟨rfl, rfl, rfl⟩

theorem dmaLoop_threshold {done : ℕ → Bool} {pg : ℕ} {pieces : List DmaChain} :
    (dmaLoop midx iod done wa siod pg pieces).area.dmaThreshold = wa.dmaThreshold := by
  induction pieces generalizing wa siod pg with
  | nil => rfl
  | cons piece pieces ih =>
    have hpage : ∀ wa, (pageCopy wa siod iod (done pg)).area = wa := by
      intro wa
      unfold pageCopy segFail
      split
      · rfl
      split
      · rfl
      split
      · rfl
      dsimp only
      split
      · rfl
      split <;> rfl
    rw [dmaLoop]
    dsimp only
    split
    · rw [hpage]
      rfl
    · exact ih

/-- A copy leaves the threshold alone. -/
theorem segmentCopy_threshold : (segmentCopy wa midx env siod iod).area.dmaThreshold = wa.dmaThreshold := by
  unfold segmentCopy
  split
  · rfl
  split
  · rfl
  split
  · rfl
  split
  · split
    · rfl
    split
    · rfl
    · rw [sendUpdate_area]
      exact dmaLoop_threshold
  · split
    · rfl
    · rw [sendUpdate_area]

theorem setDmaThreshold_lt (h : wa.dmaThreshold < pageSize) : (setDmaThreshold wa lav).dmaThreshold < pageSize := by
  unfold setDmaThreshold
  split
  · rename_i hlt
    exact hlt
  · exact h

theorem longCopy_le : longCopy siod.size ≤ siod.size.toNat := by
  unfold longCopy
  omega

theorem bounceLen_le (path : CopyPath) : bounceLen siod path ≤ siod.size.toNat := by
  cases path with
  | cpu => exact longCopy_le
  | dma => exact le_rfl

end Paths

/-! ## Copies to and from `Tempbuf` fit into it -/

/-- The request of a client, from where it needs `Tempbuf` on. -/
def SegPlace.bounce : SegPlace → Option SegRequest
  | .bouncing request | .filling request | .copying request true | .returning request => some request
  | _ => none

/-- The request of a client between the two tests, with whether the first one chose `Tempbuf`. -/
def SegPlace.tested : SegPlace → Option (SegRequest × Bool)
  | .bouncing request | .filling request => some (request, true)
  | .copying request replaced => some (request, replaced)
  | _ => none

section Runs
variable {C : Type} [DecidableEq C] {s s' : SegTasks C} {c : C} {p : SegPlace} {a : SegStep C} {wa : SegArea}
  {request : SegRequest}

/-- What a step can do. -/
inductive SegMoves (s : SegTasks C) : SegStep C → SegTasks C → Prop
  | setDmaThreshold (lav : BitVec 32) : SegMoves s (.setDmaThreshold lav) { s with area := setDmaThreshold s.area lav }
  | request {c : C} {request : SegRequest} (hplace : s.place c = .idle) :
    SegMoves s (.request c request) (requestStep s c request)
  | take {c : C} {request : SegRequest} (hplace : s.place c = .bouncing request) :
    SegMoves s (.take c) (takeStep s c request)
  | fill {c : C} {request : SegRequest} {ok : Bool} (hplace : s.place c = .filling request) :
    SegMoves s (.fill c ok) (fillStep s c request ok)
  | copy {c : C} {request : SegRequest} {replaced : Bool} {env : SegEnv}
      (hplace : s.place c = .copying request replaced) :
    SegMoves s (.copy c env) (copyStep s c request replaced env)
  | giveBack {c : C} {request : SegRequest} (hplace : s.place c = .returning request) :
    SegMoves s (.giveBack c) (giveBackStep s c request)

theorem segNext_moves (h : segNext s a = some s') : SegMoves s a s' := by
  cases a with
  | setDmaThreshold lav =>
    cases h
    exact .setDmaThreshold lav
  | request c request =>
    simp only [segNext] at h
    split at h
    · rename_i hplace
      cases h
      exact .request hplace
    · cases h
  | take c =>
    simp only [segNext] at h
    split at h
    · rename_i request hplace
      split at h
      · cases h
      · cases h
        exact .take hplace
    · cases h
  | fill c ok =>
    simp only [segNext] at h
    split at h
    · rename_i request hplace
      cases h
      exact .fill hplace
    · cases h
  | copy c env =>
    simp only [segNext] at h
    split at h
    · rename_i request replaced hplace
      cases h
      exact .copy hplace
    · cases h
  | giveBack c =>
    simp only [segNext] at h
    split at h
    · rename_i request hplace
      cases h
      exact .giveBack hplace
    · cases h

structure FitsPage (s : SegTasks C) : Prop where
  threshold : s.area.dmaThreshold < pageSize
  requests : ∀ c request, (s.place c).bounce = some request → request.siod.size.toNat < pageSize
  bounced : ∀ len ∈ s.bounced, len ≤ pageSize

theorem FitsPage.goto (h : FitsPage s) (hp : ∀ request, p.bounce = some request → request.siod.size.toNat < pageSize) :
    FitsPage (s.goto c p) := by
  refine ⟨h.threshold, fun d request hplace => ?_, h.bounced⟩
  change (Function.update s.place c p d).bounce = some request at hplace
  by_cases hd : d = c
  · rw [hd, Function.update_self] at hplace
    exact hp request hplace
  · rw [Function.update_of_ne hd] at hplace
    exact h.requests d request hplace

omit [DecidableEq C] in
theorem FitsPage.release (h : FitsPage s) (midx : ℕ) : FitsPage (s.release midx) := ⟨h.threshold, h.requests, h.bounced⟩

omit [DecidableEq C] in
/-- More copies of requests that fit. -/
theorem FitsPage.moved (h : FitsPage s) {area : SegArea} {bounced : List ℕ} (paths : List (CopyPath × Bool))
    (hthreshold : area.dmaThreshold = s.area.dmaThreshold) (hbounced : ∀ len ∈ bounced, len ≤ pageSize) :
    FitsPage { s with area := area, paths := paths, bounced := bounced ++ s.bounced } := by
  refine ⟨?_, h.requests, fun len hlen => ?_⟩
  · show area.dmaThreshold < pageSize
    rw [hthreshold]
    exact h.threshold
  · obtain hnew | hold := List.mem_append.mp hlen
    · exact hbounced len hnew
    · exact h.bounced len hold

theorem FitsPage.idle (h : FitsPage s) : FitsPage (s.goto c .idle) :=
  h.goto fun _ hplace => by cases hplace

theorem FitsPage.requested (h : FitsPage s) : FitsPage (requestStep s c request) := by
  have hthreshold := h.threshold
  unfold requestStep
  split
  · exact h
  split
  · exact h.goto fun _ hplace => by cases hplace
  · rename_i hsize
    refine h.goto fun request' hplace => ?_
    cases hplace
    omega

theorem FitsPage.fill (h : FitsPage s) (hplace : s.place c = .filling request) (ok : Bool) :
    FitsPage (fillStep s c request ok) := by
  have hsize : request.siod.size.toNat < pageSize := by
    apply h.requests c
    rw [hplace]
    rfl
  have hfilled : FitsPage { s with bounced := [request.siod.size.toNat] ++ s.bounced } := by
    refine h.moved s.paths rfl fun len hlen => ?_
    rw [List.mem_singleton.mp hlen]
    exact hsize.le
  unfold fillStep
  cases ok with
  | true =>
    refine hfilled.goto fun request' hp => ?_
    cases hp
    exact hsize
  | false => exact (hfilled.release _).idle

theorem FitsPage.giveBack (h : FitsPage s) (hplace : s.place c = .returning request) :
    FitsPage (giveBackStep s c request) := by
  have hsize : request.siod.size.toNat < pageSize := by
    apply h.requests c
    rw [hplace]
    rfl
  have hback : FitsPage { s with bounced := [request.siod.size.toNat] ++ s.bounced } := by
    refine h.moved s.paths rfl fun len hlen => ?_
    rw [List.mem_singleton.mp hlen]
    exact hsize.le
  exact (hback.release _).idle

theorem passed_size (replaced : Bool) : (request.passed replaced).size = request.siod.size := by
  cases replaced <;> rfl

omit [DecidableEq C] in
theorem FitsPage.copied (h : FitsPage s) {replaced : Bool}
    (hsize : replaced = true → request.siod.size.toNat < pageSize) (env : SegEnv) :
    FitsPage (s.copied request replaced env) := by
  refine h.moved _ segmentCopy_threshold fun len hlen => ?_
  split at hlen
  · rename_i hreplaced
    obtain ⟨path, -, rfl⟩ := List.mem_map.mp hlen
    have hle : bounceLen (request.passed replaced) path ≤ (request.passed replaced).size.toNat := bounceLen_le path
    rw [passed_size] at hle
    exact hle.trans (hsize hreplaced).le
  · cases hlen

theorem FitsPage.copy (h : FitsPage s) {replaced : Bool} (hplace : s.place c = .copying request replaced)
    (env : SegEnv) : FitsPage (copyStep s c request replaced env) := by
  have hsize : replaced = true → request.siod.size.toNat < pageSize := by
    intro hreplaced
    apply h.requests c
    rw [hplace, hreplaced]
    rfl
  have hcopied := h.copied hsize env
  unfold copyStep
  dsimp only
  split
  · exact hcopied.idle
  · rename_i hreplaced
    split
    · refine hcopied.goto fun request' hp => ?_
      cases hp
      exact hsize (by simpa using hreplaced)
    · exact (hcopied.release _).idle

theorem FitsPage.step (h : FitsPage s) (hnext : segNext s a = some s') : FitsPage s' := by
  cases segNext_moves hnext with
  | setDmaThreshold lav => exact ⟨setDmaThreshold_lt h.threshold, h.requests, h.bounced⟩
  | request hplace => exact h.requested
  | take hplace =>
    rename_i c request
    have htaken : FitsPage { s with taken := Function.update s.taken request.midx true } :=
      ⟨h.threshold, h.requests, h.bounced⟩
    refine htaken.goto fun request' hp => ?_
    cases hp
    apply h.requests c
    rw [hplace]
    rfl
  | fill hplace => exact h.fill hplace _
  | copy hplace => exact h.copy hplace _
  | giveBack hplace => exact h.giveBack hplace

omit [DecidableEq C] in
theorem installed_fitsPage (wa : SegArea) : FitsPage (installed wa : SegTasks C) :=
  ⟨show xmemDrvrDefaultDmaThreshold <
    pageSize by decide, fun _ _ hplace => (by cases hplace), fun _ hlen => (by cases hlen)⟩

/-- No copy overruns a `Tempbuf`, however the threshold is set. -/
theorem bounced_le {ok : SegTasks C → SegStep C → Prop} (h : Reach segNext ok (installed wa) s) :
    ∀ len ∈ s.bounced, len ≤ pageSize :=
  (h.invariant (installed_fitsPage wa) fun _ _ _ hfits _ hnext => hfits.step hnext).bounced

/-! ## The second test agrees with the first -/

structure Decided (s : SegTasks C) : Prop where
  requests : ∀ c request replaced, (s.place c).tested = some (request, replaced) →
    (replaced = true ↔ request.siod.size.toNat < s.area.dmaThreshold)
  paths : ∀ entry ∈ s.paths, entry.1 = .cpu ↔ entry.2 = true

/-- A new threshold is on the same side of the size of each request that is between its tests. -/
def KeepsTests (s : SegTasks C) : SegStep C → Prop
  | .setDmaThreshold lav => ∀ c request replaced, (s.place c).tested = some (request, replaced) →
    (request.siod.size.toNat < s.area.dmaThreshold ↔
      request.siod.size.toNat < (setDmaThreshold s.area lav).dmaThreshold)
  | _ => True

theorem Decided.goto (h : Decided s) (hp : ∀ request replaced, p.tested = some (request, replaced) →
    (replaced = true ↔ request.siod.size.toNat < s.area.dmaThreshold)) : Decided (s.goto c p) := by
  refine ⟨fun d request replaced hplace => ?_, h.paths⟩
  change (Function.update s.place c p d).tested = some (request, replaced) at hplace
  by_cases hd : d = c
  · rw [hd, Function.update_self] at hplace
    exact hp request replaced hplace
  · rw [Function.update_of_ne hd] at hplace
    exact h.requests d request replaced hplace

omit [DecidableEq C] in
theorem Decided.released (h : Decided s) (midx : ℕ) : Decided (s.release midx) := ⟨h.requests, h.paths⟩

theorem Decided.idle (h : Decided s) : Decided (s.goto c .idle) :=
  h.goto fun _ _ hplace => by cases hplace

theorem Decided.requested (h : Decided s) : Decided (requestStep s c request) := by
  unfold requestStep
  split
  · exact h
  split
  · rename_i hsize
    refine h.goto fun request' replaced hplace => ?_
    cases hplace
    simpa using hsize
  · rename_i hsize
    refine h.goto fun request' replaced hplace => ?_
    cases hplace
    simpa using hsize

omit [DecidableEq C] in
/-- The test of `SegmentCopy` comes out as that of its caller. -/
theorem Decided.copied (h : Decided s) {replaced : Bool} (hplace : s.place c = .copying request replaced)
    (env : SegEnv) : Decided (s.copied request replaced env) := by
  have hfirst : replaced = true ↔ request.siod.size.toNat < s.area.dmaThreshold := by
    apply h.requests c
    rw [hplace]
    rfl
  refine ⟨fun d request' replaced' hplace' => ?_, fun entry hentry => ?_⟩
  · show replaced' = true ↔ request'.siod.size.toNat < (segmentCopy s.area _ _ _ _).area.dmaThreshold
    rw [segmentCopy_threshold]
    exact h.requests d request' replaced' hplace'
  · obtain hnew | hold := List.mem_append.mp hentry
    · obtain ⟨path, hpath, rfl⟩ := List.mem_map.mp hnew
      have hsecond := copyPath_threshold (Option.mem_toList.mp hpath)
      rw [passed_size] at hsecond
      exact hsecond.trans hfirst.symm
    · exact h.paths entry hold

theorem Decided.copy (h : Decided s) {replaced : Bool} (hplace : s.place c = .copying request replaced) (env : SegEnv) :
    Decided (copyStep s c request replaced env) := by
  have hcopied := h.copied hplace env
  unfold copyStep
  dsimp only
  split
  · exact hcopied.idle
  split
  · exact hcopied.goto fun _ _ hp => by cases hp
  · exact (hcopied.released _).idle

theorem Decided.step (h : Decided s) (hok : KeepsTests s a) (hnext : segNext s a = some s') : Decided s' := by
  cases segNext_moves hnext with
  | setDmaThreshold lav =>
    exact ⟨fun c request replaced hplace => (h.requests c request replaced hplace).trans
      (hok c request replaced hplace), h.paths⟩
  | request hplace => exact h.requested
  | take hplace =>
    rename_i c request
    have htaken : Decided { s with taken := Function.update s.taken request.midx true } := ⟨h.requests, h.paths⟩
    refine htaken.goto fun request' replaced hp => ?_
    cases hp
    apply h.requests c
    rw [hplace]
    rfl
  | fill hplace =>
    rename_i c request ok
    have hfilled : Decided { s with bounced := request.siod.size.toNat :: s.bounced } := ⟨h.requests, h.paths⟩
    unfold fillStep
    cases ok with
    | true =>
      refine hfilled.goto fun request' replaced hp => ?_
      cases hp
      apply h.requests c
      rw [hplace]
      rfl
    | false => exact (hfilled.released _).idle
  | copy hplace => exact h.copy hplace _
  | giveBack hplace =>
    rename_i c request
    have hback : Decided { s with bounced := request.siod.size.toNat :: s.bounced } := ⟨h.requests, h.paths⟩
    exact (hback.released _).idle

omit [DecidableEq C] in
theorem installed_decided (wa : SegArea) : Decided (installed wa : SegTasks C) :=
  ⟨fun _ _ _ hplace => (by cases hplace), fun _ hentry => (by cases hentry)⟩

/-- As long as the threshold does not pass a request that is between its tests, no copy overruns a `Tempbuf`, and the
CPU copies exactly those that use one. -/
theorem tests_agree (h : Reach segNext KeepsTests (installed wa) s) :
    (∀ len ∈ s.bounced, len ≤ pageSize) ∧ ∀ entry ∈ s.paths, entry.1 = .cpu ↔ entry.2 = true :=
  ⟨bounced_le h, (h.invariant (installed_decided wa) fun _ _ _ hdecided hok hnext => hdecided.step hok hnext).paths⟩

end Runs

/-! ## A threshold that passes a request -/

section Example

/-- A client writes one word. -/
def wordRequest : SegRequest := ⟨0, wordAt 12, .write⟩

def wordEnv : SegEnv := ⟨true, true, none, fun _ => true⟩

def wordRun : List (SegStep Unit) := [.request () wordRequest, .take (), .fill () true, .copy () wordEnv]

theorem wordRun_agrees : ∃ s : SegTasks Unit, Reach segNext KeepsTests (installed oneTable) s ∧
    ((∀ len ∈ s.bounced, len ≤ pageSize) ∧ ∀ entry ∈ s.paths, entry.1 = .cpu ↔ entry.2 = true) ∧
      s.paths = [(.cpu, true)] := by
  have hrun : (wordRun.foldlM segNext (installed oneTable)).map SegTasks.paths = some [(.cpu, true)] := by decide
  obtain ⟨s, hs, hpaths⟩ := Option.map_eq_some_iff.mp hrun
  have hreach : Reach segNext KeepsTests (installed oneTable) s := by
    refine Reach.of_foldlM .refl (fun a ha t => ?_) hs
    simp only [wordRun, List.mem_cons, List.not_mem_nil, or_false] at ha
    obtain rfl | rfl | rfl | rfl := ha <;> trivial
  exact ⟨s, hreach, tests_agree hreach, hpaths⟩

/-- The threshold falls below the size while the request waits for `Tempbuf`: the page in the kernel goes to the DMA. -/
def loweredRun : List (SegStep Unit) :=
  [.request () wordRequest, .setDmaThreshold 0, .take (), .fill () true, .copy () wordEnv]

theorem lowered_disagrees : ∃ s : SegTasks Unit, Reach segNext (fun _ _ => True) (installed oneTable) s ∧
    ¬∀ entry ∈ s.paths, entry.1 = .cpu ↔ entry.2 = true := by
  have hrun : (loweredRun.foldlM segNext (installed oneTable)).map SegTasks.paths = some [(.dma, true)] := by decide
  obtain ⟨s, hs, hpaths⟩ := Option.map_eq_some_iff.mp hrun
  refine ⟨s, Reach.of_foldlM .refl (fun _ _ _ => trivial) hs, fun hall => ?_⟩
  have hentry := hall (.dma, true) (by rw [hpaths]; exact List.mem_singleton_self _)
  exact absurd (hentry.mpr rfl) (by decide)

end Example

end HtDrivers.Xmem
