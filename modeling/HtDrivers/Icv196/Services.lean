import HtDrivers.Icv196.LineRuns
import HtDrivers.Lib.ByteMemory
import HtDrivers.Lib.Checked

/-! The service ioctls of the ICV196 driver (`icv196vmedrvr.c`), with the places that they access: the tables of the
modules and of the subscribers, the data of the argument and the window of a module. -/
namespace HtDrivers.Icv196
open HtDrivers.Lib.ByteMemory HtDrivers.Lib.Checked HtDrivers.Lib.Transition
set_option autoImplicit false

/-! ## The model -/

def icvVmeSz : ℕ := 0x100
def csdirIcv : ℕ := 0x0E

/-- What goes wrong in an access. -/
inductive ServiceFault
  | moduleTable
  | subscriberTable
  | nullRing
  | dataArray
  | window
deriving DecidableEq

inductive Service
  | intcount
  | reenflags
  | intenmask
  | iosem
  | setio
  | readio
  | grRead
  | grWrite
deriving DecidableEq

/-- `struct icv196T_Service`. -/
structure ServiceArg where
  module : BitVec 8
  line : BitVec 8
  data : List (BitVec 32)
  size : data.length = icvLineNb

/-- The statics of the driver with the direction registers and the windows of the modules. -/
structure ServiceState where
  statics : IcvStatics
  oldCsDir : ℕ → BitVec 16
  window : ℕ → Memory

/-- `failed` is a `SYSERR` without an `errno`. -/
inductive ServiceError
  | eacces
  | failed
deriving DecidableEq

structure ServiceOut where
  error : Option ServiceError
  state : ServiceState
  data : List (BitVec 32)

/-- `*(Data + k) = v`. -/
def putData (data : List (BitVec 32)) (k : ℕ) (v : BitVec 32) : Except ServiceFault (List (BitVec 32)) :=
  if k < icvLineNb then .ok (data.set k v) else .error .dataArray

section Window
variable (window : Memory) (offs : ℕ)

def windowPut (bs : List Byte) : Except ServiceFault Memory :=
  if offs + bs.length ≤ icvVmeSz then .ok (store window offs bs) else .error .window

def windowGet (n : ℕ) : Except ServiceFault (List Byte) :=
  if offs + n ≤ icvVmeSz then .ok (load window offs n) else .error .window

end Window

/-- The module has the high byte first. -/
def beBytes (v : BitVec 16) : List Byte := (bytesOf 2 v.toNat).reverse

def beValue (bs : List Byte) : BitVec 32 := BitVec.ofNat 32 (valueOf bs.reverse)

/-- The offsets of `icv196_grp_wr_8` and `icv196_grp_rd_8`. -/
def grpOffset8 (grp : ℕ) : ℕ := if grp % 2 = 1 then grp + 1 else grp + 3

/-- The offsets of `icv196_grp_wr_16` and `icv196_grp_rd_16`. -/
def grpOffset16 (grp : ℕ) : ℕ := if grp % 2 = 1 then grp + 1 else grp + 2

/-- The words of all lines of a module. -/
def listLines (word : ℕ → BitVec 32) (data : List (BitVec 32)) : Except ServiceFault (List (BitVec 32)) :=
  (List.range icvLineNb).foldlM (fun data i => putData data i (word i)) data

def icvReenableOn : BitVec 32 := 1
def icvReenableOff : BitVec 32 := 2

section Iosem
variable (s : Bookings)

/-- One subscriber, with the number of words that `Data` is past. The test for a ring is the wrong way round: the value
of the semaphore is taken where there is no ring. -/
def iosemEntry (line : ℕ) (k j : ℕ) : Except ServiceFault ℕ :=
  if icvSubscriberNb ≤ j then .error .subscriberTable
  else
    match (s.subs (line, j)).ring with
    | some _ => .ok (if j = 0 then k + 1 else k)
    | none => .error .nullRing

def iosemLine (m : ℕ) (k i : ℕ) : Except ServiceFault ℕ :=
  (List.range (s.curNb (cnvrtUserLine m i)).toNat).foldlM (iosemEntry s (cnvrtUserLine m i)) k

def iosemModule (m : ℕ) : Except ServiceFault ℕ := (List.range icvLineNb).foldlM (iosemLine s m) 0

end Iosem

section Services
variable (s : ServiceState) (m : ℕ) (arg : ServiceArg)

def word (k : ℕ) : BitVec 32 := arg.data.getD k 0

/-- ICVVME_setio of a module that is there. -/
def setio : Except ServiceFault ServiceOut :=
  let grp := (word arg 0).toInt
  let dir := (word arg 1).toInt
  if ¬(0 ≤ grp ∧ grp ≤ 11) ∨ ¬(0 ≤ dir ∧ dir ≤ 1) then .ok ⟨some .failed, s, arg.data⟩
  else do
    let groupMask := BitVec.twoPow 16 grp.toNat
    let csDir := if dir ≠ 0 then s.oldCsDir m ||| groupMask else s.oldCsDir m &&& ~~~groupMask
    let window ← windowPut (s.window m) csdirIcv (beBytes csDir)
    -- an output starts with the value 0
    let window ← (if dir ≠ 0 then windowPut window (grpOffset8 grp.toNat) [0] else .ok window)
    .ok ⟨none,
      { s with oldCsDir := Function.update s.oldCsDir m csDir, window := Function.update s.window m window }, arg.data⟩

def grRead : Except ServiceFault ServiceOut := do
  let grp := arg.line.toNat
  let bs ← (if word arg 0 = 1 then windowGet (s.window m) (grpOffset8 grp) 1
    else windowGet (s.window m) (grpOffset16 grp) 2)
  let data ← putData arg.data 0 (beValue bs)
  .ok ⟨none, s, data⟩

def grWrite : Except ServiceFault ServiceOut := do
  let grp := arg.line.toNat
  let window ←
    (if word arg 1 = 1 then windowPut (s.window m) (grpOffset8 grp) [(word arg 0).setWidth 8]
     else windowPut (s.window m) (grpOffset16 grp) (beBytes ((word arg 0).setWidth 16)))
  .ok ⟨none, { s with window := Function.update s.window m window }, arg.data⟩

/-- The ioctls that only change the data. -/
def answered (data : Except ServiceFault (List (BitVec 32))) : Except ServiceFault ServiceOut := do
  let data ← data
  .ok ⟨none, s, data⟩

/-- A service of a module that is there. -/
def serviceOn : Service → Except ServiceFault ServiceOut
  | .intcount => answered s (listLines (fun i => BitVec.ofInt 32 ((s.statics.modules m).lines i).locCount) arg.data)
  | .reenflags =>
    answered s
      (listLines (fun i => if ((s.statics.modules m).lines i).reenable then icvReenableOn else icvReenableOff) arg.data)
  | .intenmask => answered s (putData arg.data 0 ((s.statics.modules m).intEnMask.setWidth 32))
  | .iosem => do
    let _ ← iosemModule s.statics.bookings m
    .ok ⟨none, s, arg.data⟩
  | .setio => setio s m arg
  | .readio => answered s (putData arg.data 0 ((s.oldCsDir m).signExtend 32))
  | .grRead => grRead s m arg
  | .grWrite => grWrite s m arg

/-- `ModuleCtxtDir[Module]`: is there a module? -/
def moduleCtxtDir (module : ℕ) : Except ServiceFault Bool :=
  if module < icvModuleNb then .ok (module < s.statics.mcntr) else .error .moduleTable

/-- The service ioctls of `icv196_ioctl`. -/
def serviceIoctl (call : Service) : Except ServiceFault ServiceOut := do
  let there ← moduleCtxtDir s arg.module.toNat
  if there then serviceOn s arg.module.toNat arg call else .ok ⟨some .eacces, s, arg.data⟩

end Services

/-- The calls about lines, and the service ioctls. Nothing is known of a run behind a fault. -/
inductive ServiceStep
  | line (act : LineStep)
  | service (call : Service) (arg : ServiceArg)

def serviceStep (s : ServiceState) : ServiceStep → Option ServiceState
  | .line act => (lineStep s.statics act).map fun statics => { s with statics := statics }
  | .service call arg => (serviceIoctl s arg call).toOption.map (·.state)

def serviceStart (mcntr : ℕ) (vect : ℕ → BitVec 8) (window : ℕ → Memory) : ServiceState :=
  ⟨icvInit mcntr vect, fun _ => 0, window⟩

/-- A service stays inside the tables, the data and the window, and changes nothing where it fails. -/
def Contained (s : ServiceState) (call : Service) (arg : ServiceArg) : Prop :=
  ∃ out, serviceIoctl s arg call = .ok out ∧ (out.error ≠ none → out.state = s ∧ out.data = arg.data)

/-- The subscribers of every line of a module are the first ones in their table. -/
def Compact (s : Bookings) (m : ℕ) : Prop :=
  ∀ i < icvLineNb, ∀ j : ℕ, (j : ℤ) < s.curNb (cnvrtUserLine m i) → (s.subs (cnvrtUserLine m i, j)).ring ≠ none

/-- The module is one of the table; if it is there, no subscriber may have left before others for the semaphores, and
the group of an access has to be one whose registers are in the window. -/
def ServiceFits (s : IcvStatics) (call : Service) (arg : ServiceArg) : Prop :=
  arg.module.toNat < icvModuleNb ∧
    (arg.module.toNat < s.mcntr →
      (call = .iosem → Compact s.bookings arg.module.toNat) ∧
      (call = .grRead ∨ call = .grWrite → arg.line.toNat < 254))

/-! ## Accesses inside -/

section Accesses
variable {data : List (BitVec 32)} {window : Memory} {offs n grp : ℕ} {bs : List Byte}

theorem putData_ok {k : ℕ} (v : BitVec 32) (hk : k < icvLineNb) : putData data k v = .ok (data.set k v) := if_pos hk

theorem windowPut_ok_iff : (∃ w, windowPut window offs bs = .ok w) ↔ offs + bs.length ≤ icvVmeSz := by
  unfold windowPut
  split
  · rename_i hin
    simp [hin]
  · rename_i hout
    simp [hout]

theorem windowGet_ok_iff : (∃ bs, windowGet window offs n = .ok bs) ↔ offs + n ≤ icvVmeSz := by
  unfold windowGet
  split
  · rename_i hin
    simp [hin]
  · rename_i hout
    simp [hout]

@[simp] theorem beBytes_length {v : BitVec 16} : (beBytes v).length = 2 := by
  rw [beBytes, List.length_reverse, bytesOf_length]

/-- The registers of the groups below 254 are in the window, with one byte or two. -/
theorem grpOffset8_inside (hgrp : grp < 256) : grpOffset8 grp + 1 ≤ icvVmeSz ↔ grp < 254 := by
  unfold grpOffset8 icvVmeSz
  split <;> omega

theorem grpOffset16_inside (hgrp : grp < 256) : grpOffset16 grp + 2 ≤ icvVmeSz ↔ grp < 254 := by
  unfold grpOffset16 icvVmeSz
  split <;> omega

theorem listLines_ok (word : ℕ → BitVec 32) : ∃ out, listLines word data = .ok out := by
  have hturn : ∀ i ∈ List.range icvLineNb, ∀ data, (∃ out, putData data i (word i) = .ok out) ↔ True := by
    intro i hi data
    have hput : putData data i (word i) = .ok (data.set i (word i)) := putData_ok _ (List.mem_range.mp hi)
    exact ⟨fun _ => trivial, fun _ => ⟨_, hput⟩⟩
  apply (foldlM_ok_iff_forall hturn).mpr
  intro i hi
  trivial

end Accesses

section Subscribers
variable {s : Bookings} {line m : ℕ}

theorem iosemEntry_ok_iff (h : Booked s) {k j : ℕ} :
    (∃ t, iosemEntry s line k j = .ok t) ↔ (s.subs (line, j)).ring ≠ none := by
  unfold iosemEntry
  split
  · rename_i hout
    have hnone : (s.subs (line, j)).ring = none := by
      cases hring : (s.subs (line, j)).ring with
      | none => rfl
      | some chan => exact absurd (h.entry line j chan hring) (Nat.not_lt.mpr hout)
    simp [hnone]
  · split
    · rename_i hring
      simp [hring]
    · rename_i hring
      simp [hring]

theorem iosemLine_ok_iff (h : Booked s) {k i : ℕ} : (∃ t, iosemLine s m k i = .ok t) ↔
    ∀ j : ℕ, (j : ℤ) < s.curNb (cnvrtUserLine m i) → (s.subs (cnvrtUserLine m i, j)).ring ≠ none := by
  have hturn : ∀ j ∈ List.range (s.curNb (cnvrtUserLine m i)).toNat, ∀ k,
      (∃ t, iosemEntry s (cnvrtUserLine m i) k j = .ok t) ↔ (s.subs (cnvrtUserLine m i, j)).ring ≠ none :=
    fun j _ k => iosemEntry_ok_iff h
  unfold iosemLine
  rw [foldlM_ok_iff_forall hturn]
  simp only [List.mem_range, Int.lt_toNat]

/-- The listing of the semaphores meets a ring at every entry if and only if no subscriber has left before others. -/
theorem iosemModule_ok_iff (h : Booked s) : (∃ t, iosemModule s m = .ok t) ↔ Compact s m := by
  have hturn : ∀ i ∈ List.range icvLineNb, ∀ k, (∃ t, iosemLine s m k i = .ok t) ↔
      ∀ j : ℕ, (j : ℤ) < s.curNb (cnvrtUserLine m i) → (s.subs (cnvrtUserLine m i, j)).ring ≠ none :=
    fun i _ k => iosemLine_ok_iff h
  unfold iosemModule Compact
  rw [foldlM_ok_iff_forall hturn]
  simp only [List.mem_range]

end Subscribers

/-! ## Services of a module -/

section Services
variable {s : ServiceState} {m : ℕ} {arg : ServiceArg}

/-- An outcome whose failures change nothing. -/
def Fine (s : ServiceState) (arg : ServiceArg) (outcome : Except ServiceFault ServiceOut) : Prop :=
  ∃ out, outcome = .ok out ∧ (out.error ≠ none → out.state = s ∧ out.data = arg.data)

/-- After its access, a service that does not fail is fine. -/
theorem fine_access_iff {α : Type} {access : Except ServiceFault α} {next : α → ServiceOut}
    (hnext : ∀ a, (next a).error = none) :
    Fine s arg (access >>= fun a => .ok (next a)) ↔ ∃ a, access = .ok a := by
  cases access with
  | error fault =>
    constructor
    · rintro ⟨out, hout, -⟩
      cases hout
    · rintro ⟨a, ha⟩
      cases ha
  | ok a =>
    constructor
    · intro _
      exact ⟨a, rfl⟩
    · intro _
      exact ⟨next a, rfl, fun herror => absurd (hnext a) herror⟩

theorem answered_fine {data : Except ServiceFault (List (BitVec 32))} (h : ∃ out, data = .ok out) :
    Fine s arg (answered s data) := (fine_access_iff fun _ => rfl).mpr h

theorem setio_fine : Fine s arg (setio s m arg) := by
  unfold setio
  dsimp only
  split
  · exact ⟨_, rfl, fun _ => ⟨rfl, rfl⟩⟩
  · rename_i hrange
    have hgrp : (word arg 0).toInt.toNat < 12 := by
      have hboth := not_not.mp (not_or.mp hrange).1
      omega
    have hoffset : grpOffset8 (word arg 0).toInt.toNat + 1 ≤ icvVmeSz := (grpOffset8_inside (by omega)).mpr (by omega)
    have hdir (v : BitVec 16) : windowPut (s.window m) csdirIcv (beBytes v) =
      .ok (store (s.window m) csdirIcv (beBytes v)) := by
      apply if_pos
      rw [beBytes_length]
      decide
    have hzero (window : Memory) : windowPut window (grpOffset8 (word arg 0).toInt.toNat) [0]
        = .ok (store window (grpOffset8 (word arg 0).toInt.toNat) [0]) := if_pos hoffset
    rw [hdir]
    split
    · refine (fine_access_iff ?_).mpr ⟨_, hzero _⟩
      exact fun _ => rfl
    · exact ⟨_, rfl, fun herror => absurd rfl herror⟩

theorem grRead_fine_iff : Fine s arg (grRead s m arg) ↔ arg.line.toNat < 254 := by
  have hput (bs : List Byte) : putData arg.data 0 (beValue bs) = .ok (arg.data.set 0 (beValue bs)) :=
    putData_ok _ (by decide)
  have hread : Fine s arg (grRead s m arg) ↔
    ∃ bs, (if word arg 0 = 1 then windowGet (s.window m) (grpOffset8 arg.line.toNat) 1
      else windowGet (s.window m) (grpOffset16 arg.line.toNat) 2) = .ok bs := by
    unfold grRead
    simp only [hput]
    exact fine_access_iff fun _ => rfl
  rw [hread]
  split
  · rw [windowGet_ok_iff, grpOffset8_inside arg.line.isLt]
  · rw [windowGet_ok_iff, grpOffset16_inside arg.line.isLt]

theorem grWrite_fine_iff : Fine s arg (grWrite s m arg) ↔ arg.line.toNat < 254 := by
  have hwrite : Fine s arg (grWrite s m arg) ↔ ∃ w,
      (if word arg 1 = 1 then windowPut (s.window m) (grpOffset8 arg.line.toNat) [(word arg 0).setWidth 8]
        else windowPut (s.window m) (grpOffset16 arg.line.toNat) (beBytes ((word arg 0).setWidth 16))) = .ok w :=
    fine_access_iff fun _ => rfl
  rw [hwrite]
  split
  · rw [windowPut_ok_iff, List.length_singleton, grpOffset8_inside arg.line.isLt]
  · rw [windowPut_ok_iff, beBytes_length, grpOffset16_inside arg.line.isLt]

theorem iosem_fine_iff (h : Booked s.statics.bookings) :
    Fine s arg (serviceOn s m arg .iosem) ↔ Compact s.statics.bookings m := by
  rw [← iosemModule_ok_iff h]
  exact fine_access_iff fun _ => rfl

/-- What each service needs of a module that is there. -/
theorem serviceOn_fine_iff (h : Booked s.statics.bookings) (call : Service) : Fine s arg (serviceOn s m arg call) ↔
    (call = .iosem → Compact s.statics.bookings m) ∧ (call = .grRead ∨ call = .grWrite → arg.line.toNat < 254) := by
  have hfirst (v : BitVec 32) : ∃ out, putData arg.data 0 v = .ok out := ⟨_, putData_ok v (by decide)⟩
  cases call with
  | intcount => simpa [serviceOn] using answered_fine (listLines_ok _)
  | reenflags => simpa [serviceOn] using answered_fine (listLines_ok _)
  | intenmask => simpa [serviceOn] using answered_fine (hfirst _)
  | iosem => simpa using iosem_fine_iff h
  | setio => simpa [serviceOn] using setio_fine
  | readio => simpa [serviceOn] using answered_fine (hfirst _)
  | grRead => simpa [serviceOn] using grRead_fine_iff
  | grWrite => simpa [serviceOn] using grWrite_fine_iff

theorem contained_iff_fits (h : Booked s.statics.bookings) (call : Service) :
    Contained s call arg ↔ ServiceFits s.statics call arg := by
  have hfine : Contained s call arg ↔ Fine s arg (serviceIoctl s arg call) := Iff.rfl
  rw [hfine, serviceIoctl, moduleCtxtDir, ServiceFits]
  by_cases htable : arg.module.toNat < icvModuleNb
  · by_cases hthere : arg.module.toNat < s.statics.mcntr
    · simp only [htable, hthere, if_true, decide_true, true_and, true_imp_iff]
      exact serviceOn_fine_iff h call
    · have hfails : Fine s arg (.ok ⟨some .eacces, s, arg.data⟩) := ⟨_, rfl, fun _ => ⟨rfl, rfl⟩⟩
      simp only [htable, hthere, if_true, decide_false, false_imp_iff, and_true, iff_true]
      exact hfails
  · simp only [htable, if_false, false_and, iff_false]
    rintro ⟨out, hout, -⟩
    cases hout

/-! ## Runs -/

/-- No service changes what is known of the connections. -/
def KeepsStatics (s : ServiceState) (outcome : Except ServiceFault ServiceOut) : Prop :=
  ∀ out, outcome = .ok out → out.state.statics = s.statics

theorem keepsStatics_ok {out : ServiceOut} (h : out.state.statics = s.statics) : KeepsStatics s (.ok out) := by
  intro out' hout
  cases hout
  exact h

theorem keepsStatics_bind {α : Type} {access : Except ServiceFault α} {f : α → Except ServiceFault ServiceOut}
    (h : ∀ a, KeepsStatics s (f a)) : KeepsStatics s (access >>= f) := by
  intro out hout
  cases access with
  | error fault => cases hout
  | ok a => exact h a out hout

theorem setio_keeps : KeepsStatics s (setio s m arg) := by
  unfold setio
  dsimp only
  split
  · exact keepsStatics_ok rfl
  · apply keepsStatics_bind
    intro window
    apply keepsStatics_bind
    intro window
    exact keepsStatics_ok rfl

theorem grRead_keeps : KeepsStatics s (grRead s m arg) := by
  apply keepsStatics_bind
  intro bs
  apply keepsStatics_bind
  intro data
  exact keepsStatics_ok rfl

theorem serviceIoctl_keeps (call : Service) : KeepsStatics s (serviceIoctl s arg call) := by
  have hanswered (data : Except ServiceFault (List (BitVec 32))) : KeepsStatics s (answered s data) :=
    keepsStatics_bind fun _ => keepsStatics_ok rfl
  apply keepsStatics_bind
  intro there
  split
  · cases call with
    | intcount => exact hanswered _
    | reenflags => exact hanswered _
    | intenmask => exact hanswered _
    | iosem => exact keepsStatics_bind fun _ => keepsStatics_ok rfl
    | setio => exact setio_keeps
    | readio => exact hanswered _
    | grRead => exact grRead_keeps
    | grWrite => exact keepsStatics_bind fun _ => keepsStatics_ok rfl
  · exact keepsStatics_ok rfl

theorem serviceStep_ok {t : ServiceState} {act : ServiceStep} (h : LinesOk s.statics)
    (hnext : serviceStep s act = some t) : LinesOk t.statics := by
  cases act with
  | line act =>
    obtain ⟨statics, hstatics, rfl⟩ := Option.map_eq_some_iff.mp hnext
    exact lineStep_ok h hstatics
  | service call arg =>
    obtain ⟨out, hout, rfl⟩ := Option.map_eq_some_iff.mp hnext
    have hok : serviceIoctl s arg call = .ok out := by
      cases hcall : serviceIoctl s arg call with
      | error fault =>
        rw [hcall] at hout
        cases hout
      | ok out' =>
        rw [hcall] at hout
        cases hout
        rfl
    rw [serviceIoctl_keeps call out hok]
    exact h

end Services

section Results
variable {mcntr : ℕ} {vect : ℕ → BitVec 8} {window : ℕ → Memory} {s : ServiceState}

/-- In every state of a run, a service stays inside its tables, its data and the window of its module if and only if the
module is below the size of the table and, where it is there: for the semaphores, no client has left a line before one
that booked later; for the groups, the group is below 254. -/
theorem services_contained_iff (h : Reach serviceStep (fun _ _ => True) (serviceStart mcntr vect window) s)
    (call : Service) (arg : ServiceArg) : Contained s call arg ↔ ServiceFits s.statics call arg := by
  have hlines : LinesOk s.statics :=
    h.invariant (I := fun s => LinesOk s.statics) (icvInit_ok mcntr vect) fun _ _ _ hs _ hnext =>
      serviceStep_ok hs hnext
  exact contained_iff_fits hlines.booked call

end Results

/-! ## Two clients of a line -/

def anyArg (module line : BitVec 8) : ServiceArg := ⟨module, line, List.replicate icvLineNb 1, List.length_replicate⟩

def emptyWindows : ServiceState := serviceStart 1 (fun _ => 0) fun _ _ => 0

theorem services_group : Contained emptyWindows .grRead (anyArg 0 253) := by
  have hfits : ServiceFits emptyWindows.statics .grRead (anyArg 0 253) := by
    refine ⟨by decide, fun _ => ⟨fun hiosem => ?_, fun _ => by decide⟩⟩
    cases hiosem
  exact (services_contained_iff Reach.refl .grRead (anyArg 0 253)).mpr hfits

/-- The first of two clients leaves. -/
def leftBehind : ServiceState :=
  { emptyWindows with
    statics :=
      (ioctlDisconnect
        (ioctlConnect (ioctlConnect (icv196Open (icv196Open emptyWindows.statics 1).1 2).1 1 0 0 0).1 2 0 0 0).1 1 0
          0).1 }

theorem leftBehind_reached : Reach serviceStep (fun _ _ => True) emptyWindows leftBehind :=
  ((((Reach.refl.step (a := .line (.openFile 1)) trivial rfl).step (a := .line (.openFile 2)) trivial rfl).step
    (a := .line (.connect 1 0 0 0)) trivial rfl).step (a := .line (.connect 2 0 0 0)) trivial rfl).step
    (a := .line (.disconnect 1 0 0)) trivial rfl

/-- The listing of the semaphores then takes that of a ring that is not there. -/
theorem not_contained_leftBehind : ∃ s, Reach serviceStep (fun _ _ => True) emptyWindows s ∧
    ¬Contained s .iosem (anyArg 0 0) := by
  have hfault : serviceIoctl leftBehind (anyArg 0 0) .iosem = .error .nullRing := rfl
  refine ⟨leftBehind, leftBehind_reached, ?_⟩
  rintro ⟨out, hout, -⟩
  rw [hfault] at hout
  cases hout

end HtDrivers.Icv196
