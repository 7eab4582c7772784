import Mathlib.Tactic

/-! The reads and ioctls of the common driver layer (`cdcmDrvr.c`), which pass on what the entry points of a driver have
put into a buffer of the kernel. User memory is given from the address of the user's buffer on. -/
namespace HtDrivers.Cdcm
set_option autoImplicit false

def sysErr : ℤ := -1
def enomem : ℤ := 12
def eagain : ℤ := 11
def efault : ℤ := 14
def enodev : ℤ := 19

def iocWrite : BitVec 2 := 1
def iocRead : BitVec 2 := 2

/-- `_IOC_DIR` and `_IOC_SIZE`. -/
def iocDir (cmd : BitVec 32) : BitVec 2 := (cmd >>> 30).truncate 2
def iocSize (cmd : BitVec 32) : ℕ := ((cmd >>> 16) &&& 0x3fff).toNat

abbrev Bytes := ℕ → BitVec 8

/-- What an entry point returns, the error that it leaves in `cdcm_err`, and the bytes of the buffer that it writes. -/
structure EntryOutcome where
  result : ℤ
  err : ℤ
  written : ℕ → Option (BitVec 8)

/-- What the kernel answers to a call; `fault` is where a copy to the user stops, and `inFault` where one from the user
does. -/
structure CallEnv where
  opened : Bool
  allocated : Bool
  readable : Bool
  writable : Bool
  fault : Option ℕ
  inFault : Option ℕ

section Calls
variable (env : CallEnv) (size : ℕ) (init user : Bytes)

/-- The buffer behind the entry point; before it was what `cdcm_mem_alloc` found there, or the bytes of the user. -/
def fillBuffer (outcome : EntryOutcome) (buffer : Bytes) : Bytes := fun i => (outcome.written i).getD (buffer i)

/-- The bytes that get through. -/
def copied : ℕ := env.fault.elim size (min · size)

def copyToUser (buffer : Bytes) : Bytes := fun i => if i < copied env size then buffer i else user i

/-- `__copy_from_user` fills up with zeros. -/
def copyFromUser : Bytes := fun i => if i < env.inFault.elim size (min · size) then user i else 0

/-- The result with the memory of the user. -/
def cdcmFopRead (entry : ℕ → EntryOutcome) : ℤ × Bytes :=
  if env.opened = false then (-enodev, user)
  else if env.writable = false then (-efault, user)
  else if env.allocated = false then (-enomem, user)
  else if (entry size).result = sysErr then (-eagain, user)
  else
    let user := copyToUser env size user (fillBuffer (entry size) init)
    if env.fault.isSome then (-efault, user) else ((entry size).result, user)

/-- The buffer that the ioctl of the driver gets, if it has one with bytes of the user. -/
def ioctlInput (cmd : BitVec 32) : Option Bytes :=
  if iocDir cmd &&& iocWrite = 0 then none else some (copyFromUser env (iocSize cmd) user)

def processModSpecIoctl (entry : BitVec 32 → Option Bytes → EntryOutcome) (cmd : BitVec 32) : ℤ × Bytes :=
  let outcome := entry cmd (ioctlInput env user cmd)
  if env.opened = false then (-enodev, user)
  else if iocDir cmd ≠ 0 ∧ env.allocated = false then (-enomem, user)
  else if iocDir cmd &&& iocWrite ≠ 0 ∧ env.readable = false then (-efault, user)
  else if outcome.result = sysErr then (-outcome.err, user)
  else if iocDir cmd &&& iocRead = 0 then (outcome.result, user)
  else if env.writable = false then (-efault, user)
  else
    let user' := copyToUser env (iocSize cmd) user (fillBuffer outcome ((ioctlInput env user cmd).getD init))
    if env.fault.isSome then (-efault, user') else (outcome.result, user')

end Calls

/-! ## Two runs -/

section Secrets
variable (env : CallEnv) (size : ℕ) (user : Bytes)

/-- The user learns nothing of what was in the buffer, and gets no byte beyond those that the read reports. -/
structure ReadSafe (entry : ℕ → EntryOutcome) : Prop where
  secret : ∀ init init' user, cdcmFopRead env size init user entry = cdcmFopRead env size init' user entry
  bounded : ∀ init user (i : ℕ), 0 ≤ (cdcmFopRead env size init user entry).1 →
    (cdcmFopRead env size init user entry).1 ≤ i → (cdcmFopRead env size init user entry).2 i = user i

def IoctlSafe (entry : BitVec 32 → Option Bytes → EntryOutcome) (cmd : BitVec 32) : Prop :=
  ∀ init init', processModSpecIoctl env init user entry cmd = processModSpecIoctl env init' user entry cmd

/-- A read that gets as far as the copy has written all that is copied, and it reports all that was asked for. -/
def ReadFills (entry : ℕ → EntryOutcome) : Prop :=
  env.opened = true ∧ env.writable = true ∧ env.allocated = true ∧ (entry size).result ≠ sysErr →
    (∀ i < copied env size, ((entry size).written i).isSome) ∧
      (env.fault = none → 0 ≤ (entry size).result → (size : ℤ) ≤ (entry size).result)

/-- An ioctl that only reads has written all that is copied. -/
def IoctlFills (entry : BitVec 32 → Option Bytes → EntryOutcome) (cmd : BitVec 32) : Prop :=
  env.opened = true ∧ env.writable = true ∧ env.allocated = true ∧ iocDir cmd &&& iocRead ≠ 0 ∧
      iocDir cmd &&& iocWrite = 0 ∧ (entry cmd none).result ≠ sysErr →
    ∀ i < copied env (iocSize cmd), ((entry cmd none).written i).isSome

variable {env size user} {outcome : EntryOutcome}

theorem copyToUser_secret (user : Bytes) : (∀ init init', copyToUser env size user (fillBuffer outcome init) =
    copyToUser env size user (fillBuffer outcome init')) ↔ ∀ i < copied env size, (outcome.written i).isSome := by
  constructor
  · intro hsame i hi
    by_contra hnone
    rw [Option.not_isSome_iff_eq_none] at hnone
    have hbyte := congrFun (hsame (fun _ => 0) fun _ => 1) i
    simp only [copyToUser, fillBuffer, if_pos hi, hnone, Option.getD_none] at hbyte
    exact absurd hbyte (by decide)
  · intro hwritten init init'
    funext i
    unfold copyToUser fillBuffer
    by_cases hi : i < copied env size
    · obtain ⟨byte, hbyte⟩ := Option.isSome_iff_exists.mp (hwritten i hi)
      rw [if_pos hi, if_pos hi, hbyte, Option.getD_some, Option.getD_some]
    · rw [if_neg hi, if_neg hi]

theorem cdcmFopRead_early {entry : ℕ → EntryOutcome}
    (h : ¬(env.opened = true ∧ env.writable = true ∧ env.allocated = true ∧
    (entry size).result ≠ sysErr)) : ∃ code < 0, ∀ init user, cdcmFopRead env size init user entry = (code, user) := by
  unfold cdcmFopRead
  cases hopened : env.opened with
  | false => exact ⟨-enodev, by decide, fun _ _ => if_pos rfl⟩
  | true =>
    cases hwritable : env.writable with
    | false => exact ⟨-efault, by decide, fun _ _ => rfl⟩
    | true =>
      cases hallocated : env.allocated with
      | false => exact ⟨-enomem, by decide, fun _ _ => rfl⟩
      | true =>
        have herr : (entry size).result = sysErr := by
          by_contra hne
          exact h ⟨hopened, hwritable, hallocated, hne⟩
        refine ⟨-eagain, by decide, fun init user => ?_⟩
        simp only [Bool.true_eq_false, if_false, if_pos herr]

theorem cdcmFopRead_copies {entry : ℕ → EntryOutcome}
    (h : env.opened = true ∧ env.writable = true ∧ env.allocated = true ∧
    (entry size).result ≠ sysErr) (init user : Bytes) : cdcmFopRead env size init user entry =
      (if env.fault.isSome then -efault else (entry size).result,
        copyToUser env size user (fillBuffer (entry size) init)) := by
  obtain ⟨hopened, hwritable, hallocated, herr⟩ := h
  unfold cdcmFopRead
  simp only [hopened, hwritable, hallocated, Bool.true_eq_false, if_false, if_neg herr]
  split <;> rfl

theorem readSafe_iff (env : CallEnv) (size : ℕ) (entry : ℕ → EntryOutcome) : ReadSafe env size entry ↔
    ReadFills env size entry := by
  constructor
  · intro hsafe hcopy
    constructor
    · refine (copyToUser_secret fun _ => 0).mp fun init init' => ?_
      have hsame := hsafe.secret init init' fun _ => 0
      rw [cdcmFopRead_copies hcopy, cdcmFopRead_copies hcopy] at hsame
      exact congrArg Prod.snd hsame
    · intro hfault hpos
      by_contra hlt
      -- a user whose byte behind the last one reported is another than the one in the buffer
      have hother := hsafe.bounded (fun _ => 0) (fun i => fillBuffer (entry size) (fun _ => 0) i + 1)
        (entry size).result.toNat
      rw [cdcmFopRead_copies hcopy, hfault] at hother
      simp only [Option.isSome_none, Bool.false_eq_true, if_false] at hother
      have hbyte := hother hpos (Int.self_le_toNat _)
      have hall : copied env size = size := by rw [copied, hfault]; rfl
      unfold copyToUser at hbyte
      rw [hall, if_pos (by omega)] at hbyte
      have hcarry : ∀ byte : BitVec 8, byte ≠ byte + 1 := by decide
      exact hcarry _ hbyte
  · intro hfills
    by_cases hcopy : env.opened = true ∧ env.writable = true ∧ env.allocated = true ∧ (entry size).result ≠ sysErr
    · obtain ⟨hwritten, hreported⟩ := hfills hcopy
      refine ⟨fun init init' user => ?_, fun init user i hpos hle => ?_⟩
      · rw [cdcmFopRead_copies hcopy, cdcmFopRead_copies hcopy, (copyToUser_secret _).mpr hwritten init init']
      · rw [cdcmFopRead_copies hcopy] at hpos hle ⊢
        cases hfault : env.fault with
        | some k =>
          have hneg : ¬(0 : ℤ) ≤ -efault := by decide
          simp only [hfault, Option.isSome_some, if_true] at hpos
          exact absurd hpos hneg
        | none =>
          simp only [hfault, Option.isSome_none, Bool.false_eq_true, if_false] at hpos hle
          have hsize := hreported hfault hpos
          have hall : copied env size = size := by rw [copied, hfault]; rfl
          change (if i < copied env size then _ else user i) = user i
          rw [hall]
          exact if_neg (by omega)
    · obtain ⟨code, hcode, hearly⟩ := cdcmFopRead_early hcopy
      refine ⟨fun init init' user => ?_, fun init user i hpos _ => ?_⟩
      · rw [hearly, hearly]
      · rw [hearly] at hpos
        exact absurd hpos (Int.not_le.mpr hcode)

theorem processModSpecIoctl_copies {entry : BitVec 32 → Option Bytes → EntryOutcome} {cmd : BitVec 32}
    (hopened : env.opened = true) (hwritable : env.writable = true) (hallocated : env.allocated = true)
    (hread : iocDir cmd &&& iocRead ≠ 0) (hwrite : iocDir cmd &&& iocWrite = 0)
    (herr : (entry cmd none).result ≠ sysErr) (init user : Bytes) : processModSpecIoctl env init user entry cmd =
      (if env.fault.isSome then -efault else (entry cmd none).result,
        copyToUser env (iocSize cmd) user (fillBuffer (entry cmd none) init)) := by
  have hinput : ioctlInput env user cmd = none := if_pos hwrite
  unfold processModSpecIoctl
  simp only [hinput, hopened, hwritable, hallocated, hwrite, Bool.true_eq_false, and_false, ne_eq, not_true_eq_false,
    false_and, if_false, if_neg herr, if_neg hread, Option.getD_none]
  split <;> rfl

/-- Wherever the ioctl does not copy a buffer with old contents, these do not matter. -/
theorem processModSpecIoctl_early {entry : BitVec 32 → Option Bytes → EntryOutcome} {cmd : BitVec 32}
    (h : ¬(env.opened = true ∧ env.writable = true ∧ env.allocated = true ∧ iocDir cmd &&& iocRead ≠ 0 ∧
      iocDir cmd &&& iocWrite = 0 ∧ (entry cmd none).result ≠ sysErr)) (init init' : Bytes) :
    processModSpecIoctl env init user entry cmd = processModSpecIoctl env init' user entry cmd := by
  by_cases hwrite : iocDir cmd &&& iocWrite = 0
  · have hinput : ioctlInput env user cmd = none := if_pos hwrite
    by_cases hread : iocDir cmd &&& iocRead = 0
    · unfold processModSpecIoctl
      simp only [if_pos hread]
    · have hdir : iocDir cmd ≠ 0 := by
        intro hzero
        rw [hzero] at hread
        exact hread (by decide)
      unfold processModSpecIoctl
      simp only [hinput]
      cases hopened : env.opened with
      | false => rfl
      | true =>
        cases hallocated : env.allocated with
        | false => simp only [hdir, ne_eq, not_false_eq_true, true_and, Bool.true_eq_false, if_false, if_true]
        | true =>
          cases hwritable : env.writable with
          | false => simp only [if_true]
          | true =>
            have herr : (entry cmd none).result = sysErr := by
              by_contra hne
              exact h ⟨hopened, hwritable, hallocated, hread, hwrite, hne⟩
            simp only [if_pos herr]
  · have hinput : ioctlInput env user cmd = some (copyFromUser env (iocSize cmd) user) := if_neg hwrite
    unfold processModSpecIoctl
    simp only [hinput, Option.getD_some]

theorem ioctlSafe_iff (env : CallEnv) (user : Bytes) (entry : BitVec 32 → Option Bytes → EntryOutcome)
    (cmd : BitVec 32) : IoctlSafe env user entry cmd ↔ IoctlFills env entry cmd := by
  constructor
  · intro hsafe hcopy
    obtain ⟨hopened, hwritable, hallocated, hread, hwrite, herr⟩ := hcopy
    refine (copyToUser_secret user).mp fun init init' => ?_
    have hsame := hsafe init init'
    rw [processModSpecIoctl_copies hopened hwritable hallocated hread hwrite herr,
      processModSpecIoctl_copies hopened hwritable hallocated hread hwrite herr] at hsame
    exact congrArg Prod.snd hsame
  · intro hfills init init'
    by_cases hcopy : env.opened = true ∧ env.writable = true ∧ env.allocated = true ∧ iocDir cmd &&& iocRead ≠ 0 ∧
        iocDir cmd &&& iocWrite = 0 ∧ (entry cmd none).result ≠ sysErr
    · have hwritten := hfills hcopy
      obtain ⟨hopened, hwritable, hallocated, hread, hwrite, herr⟩ := hcopy
      rw [processModSpecIoctl_copies hopened hwritable hallocated hread hwrite herr,
        processModSpecIoctl_copies hopened hwritable hallocated hread hwrite herr,
          (copyToUser_secret _).mpr hwritten init init']
    · exact processModSpecIoctl_early hcopy init init'

/-- Reads and ioctls keep the old contents of the buffer secret exactly where the driver fills what is copied. -/
theorem userCopy_secret_iff (env : CallEnv) (size : ℕ) (reads : ℕ → EntryOutcome) (user : Bytes)
    (ioctls : BitVec 32 → Option Bytes → EntryOutcome) (cmd : BitVec 32) :
    (ReadSafe env size reads ↔ ReadFills env size reads) ∧
    (IoctlSafe env user ioctls cmd ↔ IoctlFills env ioctls cmd) :=
  ⟨readSafe_iff env size reads, ioctlSafe_iff env user ioctls cmd⟩

/-- An entry point that writes nothing: `icv196_read` without an event in its no-wait mode, or `ICVVME_gethandleinfo` as
to the handles that are not in use. -/
def nothingWritten : EntryOutcome := ⟨0, 0, fun _ => none⟩

theorem nothingWritten_leaks : (¬∀ env size entry, ReadSafe env size entry) ∧
    ¬∀ env user entry cmd, IoctlSafe env user entry cmd := by
  constructor
  · intro hall
    have hfills := (readSafe_iff _ _ _).mp (hall ⟨true, true, true, true, none, none⟩ 4 fun _ => nothingWritten)
    have hbyte := (hfills (by decide)).1 0 (by decide)
    cases hbyte
  · intro hall
    have hfills := (ioctlSafe_iff _ _ _ _).mp
      (hall ⟨true, true, true, true, none, none⟩ (fun _ => 0) (fun _ _ => nothingWritten) 0x90407613)
    have hbyte := hfills (by decide) 0 (by decide)
    cases hbyte

end Secrets

end HtDrivers.Cdcm
