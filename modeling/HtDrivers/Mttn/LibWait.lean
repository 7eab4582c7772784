import HtDrivers.Mttn.ObjectFile
import HtDrivers.Skel.Connections

/-! Waiting for interrupts through the library (`libmtt.c`), and what the library remembers about its client of the
driver. -/
namespace HtDrivers.Mttn
open HtDrivers.Skel HtDrivers.Lib.Transition
set_option autoImplicit false

/-! ## The library -/

/-- The static variables of the library, with the driver; handle 0 is none. -/
structure MttLib (T : Type) (m : ℕ) where
  mtt : ℕ
  connected : U32
  noqueueflag : U32
  timeout : U32
  driver : SkelDrvrWorkingArea T m

/-- One `read` of the driver: the mask that is read, or none for an error, and what it and the interrupts before it
make of the queue. -/
structure Read (T : Type) where
  conMask : Option U32
  semaphore : HtDrivers.Cdcm.CdcmSem T
  timer : U32
  queue : SkelDrvrQueue

/-- The answers that a `MttLibWait` gets: which of its calls of `ioctl` succeed, which links can be allocated, and
what is read. -/
structure WaitEnv (T : Type) where
  connect : Bool
  setQueueFlag : Bool
  setTimeout : Bool
  sysbrk : ℕ → Bool
  reads : List (Read T)

/-- The answers that a `MttLibInit` gets: the new client of the driver and its handle, if it can be opened, the status
of the module, and whether the other calls succeed. -/
structure InitEnv (T : Type) where
  opened : Option (Ptr × ℕ)
  gstatus : Option U32
  enable : Bool
  time : Bool
  sutc : Bool
  sending : Bool
  wait : WaitEnv T

def mttDrvrStatusENABLED : U32 := 0x01
def mttDrvrStatusUTC_SET : U32 := 0x02
def mttDrvrStatusUTC_SENDING_ON : U32 := 0x04
def mttDrvrIntPPS : U32 := 0x1000000

section Library
variable {T : Type} {m : ℕ}

/-- A read leaves the queue flag as it is, and the timeout and what the client is known by. -/
def applyRead (r : Read T) (ccon : SkelDrvrClientContext T) : SkelDrvrClientContext T :=
  { ccon with
    semaphore := r.semaphore
    timer := r.timer
    queue := { r.queue with queueOff := ccon.queue.queueOff } }

def withHandle (lib : MttLib T m) (f : Ptr → SkelDrvrWorkingArea T m) : MttLib T m :=
  { lib with driver := withCcon lib.driver lib.mtt f }

/-- The loop of `MttLibWait` over what it reads, or none if it still waits behind that. -/
def waitLoop (mask : U32) : List (Read T) → MttLib T m → Option (U32 × MttLib T m)
  | [], _ => none
  | r :: reads, lib =>
    let lib := withHandle lib fun ccon => setCcon lib.driver ccon (applyRead r)
    match r.conMask with
    | none => some (0, lib)
    | some conMask => if mask = 0 ∨ mask &&& conMask ≠ 0 then some (conMask, lib) else waitLoop mask reads lib

/-- The requests of `MttLibWait`, one after the other; an error ends it with the value it returns. -/
def waitConnect (env : WaitEnv T) (mask : U32) (lib : MttLib T m) : Except (U32 × MttLib T m) (MttLib T m) :=
  if mask &&& lib.connected ≠ mask then
    if env.connect then
      .ok { (withHandle lib fun ccon => ioctlConnect template env.sysbrk lib.driver ccon ⟨1, mask⟩) with
        connected := lib.connected ||| mask }
    else .error (0, lib)
  else .ok lib

def waitQueueFlag (env : WaitEnv T) (noqueue : U32) (lib : MttLib T m) : Except (U32 × MttLib T m) (MttLib T m) :=
  if noqueue ≠ lib.noqueueflag then
    if env.setQueueFlag then
      .ok { (withHandle lib fun ccon => setCcon lib.driver ccon fun context => setQueueFlag context noqueue) with
        noqueueflag := noqueue }
    else .error (3, lib)
  else .ok lib

/-- The request SET_TIMEOUT is made with the timeout that the library had before. -/
def waitTimeout (env : WaitEnv T) (tmo : U32) (lib : MttLib T m) : Except (U32 × MttLib T m) (MttLib T m) :=
  if tmo ≠ lib.timeout then
    if env.setTimeout then
      .ok { (withHandle lib fun ccon =>
          setCcon lib.driver ccon fun context => { context with timeout := lib.timeout }) with
        timeout := tmo }
    else .error (3, lib)
  else .ok lib

def waitRequests (env : WaitEnv T) (lib : MttLib T m) (mask noqueue tmo : U32) :
    Except (U32 × MttLib T m) (MttLib T m) :=
  ((waitConnect env mask lib).bind (waitQueueFlag env noqueue)).bind (waitTimeout env tmo)

/-- `MttLibWait` with what it returns, or none if it does not return. -/
def mttLibWait (env : WaitEnv T) (lib : MttLib T m) (mask noqueue tmo : U32) : Option (U32 × MttLib T m) :=
  if lib.mtt = 0 then some (0, lib)
  else
    match waitRequests env lib mask noqueue tmo with
    | .error (ret, lib) => some (ret, lib)
    | .ok lib => waitLoop mask env.reads lib

/-- A call of `MttLibWait` with the states before and after it. -/
structure WaitRecord (T : Type) (m : ℕ) where
  env : WaitEnv T
  before : MttLib T m
  mask : U32
  noqueue : U32
  tmo : U32
  after : MttLib T m

def closeHandle (lib : MttLib T m) : MttLib T m :=
  { withHandle lib (doClose template lib.driver) with mtt := 0 }

def closeOld (lib : MttLib T m) : MttLib T m := if lib.mtt ≠ 0 then closeHandle lib else lib

/-- The part of `MttLibInit` behind the setting of the time. -/
def initSending (env : InitEnv T) (sysldr : Bool) (stat : U32) (lib : MttLib T m) : MttLibError × MttLib T m :=
  if (sysldr = true ∨ stat &&& mttDrvrStatusUTC_SENDING_ON = 0) ∧ env.sending = false then (.io, closeHandle lib)
  else (.none, lib)

/-- `MttLibInit` with the calls of `MttLibWait` it made, or none if it does not return. A path of length 0 is an
error. -/
def mttLibInit (env : InitEnv T) (sysldr : Bool) (path : Option (List Char)) (lib : MttLib T m) :
    Option (MttLibError × MttLib T m × List (WaitRecord T m)) :=
  if path = some [] then some (.path, lib, [])
  else
    let lib := closeOld lib
    match env.opened with
    | none => some (.open, lib, [])
    | some (ccon, flp) =>
      let lib := { lib with mtt := flp, driver := skelDrvrOpen lib.driver ccon flp }
      match env.gstatus with
      | none => some (.io, { lib with mtt := 0 }, [])
      | some stat =>
        if (sysldr = true ∨ stat &&& mttDrvrStatusENABLED = 0) ∧ env.enable = false then
          some (.io, closeHandle lib, [])
        else if sysldr = true ∨ stat &&& mttDrvrStatusUTC_SET = 0 then
          (mttLibWait env.wait lib mttDrvrIntPPS 0 200).map fun (msk, lib') =>
            let record : WaitRecord T m := ⟨env.wait, lib, mttDrvrIntPPS, 0, 200, lib'⟩
            if msk &&& mttDrvrIntPPS ≠ 0 then
              if env.time = false then (.sys, closeHandle lib', [record])
              else if env.sutc = false then (.io, closeHandle lib', [record])
              else ((initSending env sysldr stat lib').1, (initSending env sysldr stat lib').2, [record])
            else (.io, closeHandle lib', [record])
        else some ((initSending env sysldr stat lib).1, (initSending env sysldr stat lib).2, [])

/-! ## Histories -/

/-- The library in a process that has made these waits so far. -/
structure LibRun (T : Type) (m : ℕ) where
  lib : MttLib T m
  waits : List (WaitRecord T m)

inductive LibCall (T : Type)
  | init (env : InitEnv T) (sysldr : Bool) (path : Option (List Char))
  | wait (env : WaitEnv T) (mask noqueue tmo : U32)

/-- What `open` returns is a client whose memory was free, and a handle other than 0. -/
def OpensNew (lib : MttLib T m) (env : InitEnv T) : Prop :=
  ∀ new ∈ env.opened, new.1 ∉ (closeOld lib).driver.clients ∧ new.2 ≠ 0

instance instDecidableOpensNew (lib : MttLib T m) (env : InitEnv T) : Decidable (OpensNew lib env) :=
  inferInstanceAs (Decidable (∀ new ∈ env.opened, _ ∧ _))

def libNext (s : LibRun T m) : LibCall T → Option (LibRun T m)
  | .init env sysldr path =>
    if OpensNew s.lib env then
      (mttLibInit env sysldr path s.lib).map fun (_, lib, records) => ⟨lib, s.waits ++ records⟩
    else none
  | .wait env mask noqueue tmo =>
    (mttLibWait env s.lib mask noqueue tmo).map fun (_, lib) =>
      ⟨lib, s.waits ++ [⟨env, s.lib, mask, noqueue, tmo, lib⟩]⟩

/-- The statics of the library as they are initialised, and a driver without clients. -/
def libStart (modnr : Fin m → U32) (memory : Ptr → SkelDrvrClientContext T) : LibRun T m :=
  ⟨⟨0, 0, 0, 200, waStart modnr memory⟩, []⟩

/-- All calls of `ioctl` succeed. -/
def WaitEnv.Succeeds (env : WaitEnv T) : Prop :=
  env.connect = true ∧ env.setQueueFlag = true ∧ env.setTimeout = true

def LibCall.Succeeds : LibCall T → Prop
  | .init env _ _ => env.gstatus.isSome = true ∧ env.enable = true ∧ env.sutc = true ∧ env.sending = true ∧
      env.wait.Succeeds
  | .wait env _ _ _ => env.Succeeds

end Library

/-! ## One wait -/

section Wait
variable {T : Type} {m : ℕ} {env : WaitEnv T} {lib lib' : MttLib T m} {mask noqueue tmo ret : U32} {ccon : Ptr}
  {wa wa' : SkelDrvrWorkingArea T m} {flp : ℕ}

/-- The client is connected to interrupt `j` of the module that the library uses. -/
def ConnectedTo (wa : SkelDrvrWorkingArea T m) (ccon : Ptr) (j : ℕ) : Prop :=
  ∃ i, getMcon wa 1 = some i ∧ ccon ∈ (wa.modules i).connected.clients j

/-- What is to hold after a wait: the client of the handle is as the caller asked, and as the library remembers. -/
structure ClientMatches (lib : MttLib T m) (mask noqueue tmo : U32) (ccon : Ptr) : Prop where
  masked : ∀ j < template.interrupts, mask.getLsbD j = true → ConnectedTo lib.driver ccon j
  queueOff : (lib.driver.ccon ccon).queue.queueOff = decide (noqueue ≠ 0)
  timeout : (lib.driver.ccon ccon).timeout = tmo
  connected : ∀ j < template.interrupts, lib.connected.getLsbD j = true ↔ ConnectedTo lib.driver ccon j
  noqueueflag : decide (lib.noqueueflag ≠ 0) = (lib.driver.ccon ccon).queue.queueOff
  cached : lib.timeout = (lib.driver.ccon ccon).timeout

def WaitRecord.Matches (r : WaitRecord T m) : Prop :=
  r.after.mtt ≠ 0 →
    ∃ ccon ∈ skelGetCcon r.after.driver r.after.mtt, ClientMatches r.after r.mask r.noqueue r.tmo ccon

/-- The client is connected to interrupt `j`, or it will be: some interrupt of the mask is not remembered, the module
is there, and a link can be allocated. -/
def Links (env : WaitEnv T) (lib : MttLib T m) (mask : U32) (ccon : Ptr) (j : ℕ) : Prop :=
  ConnectedTo lib.driver ccon j ∨
    mask &&& lib.connected ≠ mask ∧ (getMcon lib.driver 1).isSome = true ∧ mask.getLsbD j = true ∧ env.sysbrk j = true

/-- The wait asks for the timeout that the library remembers and the driver has, for the queue flag that the driver
has or that differs from the one remembered, and the interrupts remembered or asked for are those connected or to be
connected. -/
structure WaitSafe (env : WaitEnv T) (lib : MttLib T m) (mask noqueue tmo : U32) (ccon : Ptr) : Prop where
  timeout : tmo = lib.timeout ∧ (lib.driver.ccon ccon).timeout = tmo
  noqueue : noqueue = lib.noqueueflag → (lib.driver.ccon ccon).queue.queueOff = decide (noqueue ≠ 0)
  links : ∀ j < template.interrupts,
    (lib.connected.getLsbD j = true ∨ mask.getLsbD j = true) ↔ Links env lib mask ccon j

def WaitRecord.Safe (r : WaitRecord T m) : Prop :=
  r.before.mtt ≠ 0 →
    ∃ ccon ∈ skelGetCcon r.before.driver r.before.mtt, WaitSafe r.env r.before r.mask r.noqueue r.tmo ccon

theorem withHandle_eq (hget : skelGetCcon lib.driver lib.mtt = some ccon) (f : Ptr → SkelDrvrWorkingArea T m) :
    withHandle lib f = { lib with driver := f ccon } := by
  unfold withHandle withCcon
  rw [hget]

theorem connectedTo_connect {sysbrk : ℕ → Bool} {j : ℕ} (hj : j < template.interrupts) :
    ConnectedTo (connect template sysbrk wa ccon ⟨1, mask⟩) ccon j ↔
      ConnectedTo wa ccon j ∨ (getMcon wa 1).isSome = true ∧ mask.getLsbD j = true ∧ sysbrk j = true := by
  obtain ⟨hsame, hmod⟩ : SameClients wa (connect template sysbrk wa ccon ⟨1, mask⟩) ∧ _ :=
    connect_spec sysbrk ccon ⟨1, mask⟩
  have hreq : requestMcon wa ccon 1 = getMcon wa 1 := if_neg (by decide)
  unfold ConnectedTo
  rw [hsame.getMcon]
  simp only [hmod, hreq]
  cases hmcon : getMcon wa 1 with
  | none => simp
  | some i =>
    simp only [Option.some.injEq, exists_eq_left', if_true, Change.apply, connectLoop_clients, Option.isSome_some,
      true_and]
    by_cases hmem : ccon ∈ (wa.modules i).connected.clients j
    · simp [hmem]
    · by_cases hlink : mask.getLsbD j = true ∧ sysbrk j = true
      · simp [hj, hlink, hmem]
      · have hno : ¬(j < template.interrupts ∧ mask.getLsbD j = true ∧
            ccon ∉ (wa.modules i).connected.clients j ∧ sysbrk j = true) := fun h => hlink ⟨h.2.1, h.2.2.2⟩
        rw [if_neg hno]
        simp [hmem, hlink]

/-- What a request or a read leaves as it is. -/
structure SameHandle (lib lib' : MttLib T m) (ccon : Ptr) : Prop where
  mtt : lib'.mtt = lib.mtt
  client : skelGetCcon lib'.driver lib'.mtt = some ccon
  links : ∀ j, ConnectedTo lib'.driver ccon j ↔ ConnectedTo lib.driver ccon j

theorem SameHandle.trans {lib'' : MttLib T m} (h : SameHandle lib lib' ccon) (h' : SameHandle lib' lib'' ccon) :
    SameHandle lib lib'' ccon := by
  refine ⟨h'.mtt.trans h.mtt, h'.client, ?_⟩
  intro j
  rw [h'.links, h.links]

theorem sameHandle_setCcon (f : SkelDrvrClientContext T → SkelDrvrClientContext T)
    (hget : skelGetCcon lib.driver lib.mtt = some ccon)
    (hf : (f (lib.driver.ccon ccon)).cdcmf = (lib.driver.ccon ccon).cdcmf)
    (hmtt : lib'.mtt = lib.mtt) (hdriver : lib'.driver = setCcon lib.driver ccon f) : SameHandle lib lib' ccon := by
  refine ⟨hmtt, ?_, ?_⟩
  · rw [hdriver, hmtt, skelGetCcon_setCcon hf, hget]
  · intro j
    rw [hdriver]
    exact Iff.rfl

theorem setCcon_self (f : SkelDrvrClientContext T → SkelDrvrClientContext T) :
    (setCcon wa ccon f).ccon ccon = f (wa.ccon ccon) := Function.update_self ..

theorem or_subset (h : mask &&& lib.connected = mask) : lib.connected ||| mask = lib.connected := by
  rw [← h]
  ext j hj
  simp only [BitVec.getElem_or, BitVec.getElem_and]
  cases lib.connected[j] with
  | true => simp
  | false => simp

theorem waitConnect_spec (mask : U32) (henv : env.connect = true) (hget : skelGetCcon lib.driver lib.mtt = some ccon) :
    ∃ lib', waitConnect env mask lib = .ok lib' ∧ lib'.mtt = lib.mtt ∧
      skelGetCcon lib'.driver lib'.mtt = some ccon ∧ lib'.driver.ccon = lib.driver.ccon ∧
      lib'.connected = lib.connected ||| mask ∧ lib'.noqueueflag = lib.noqueueflag ∧ lib'.timeout = lib.timeout ∧
      ∀ j < template.interrupts, ConnectedTo lib'.driver ccon j ↔ Links env lib mask ccon j := by
  unfold waitConnect
  by_cases hnew : mask &&& lib.connected ≠ mask
  · have hmask : mask ≠ 0 := by
      intro hzero
      rw [hzero] at hnew
      simp at hnew
    obtain ⟨hsame, -⟩ : SameClients lib.driver (connect template env.sysbrk lib.driver ccon ⟨1, mask⟩) ∧ _ :=
      connect_spec env.sysbrk ccon ⟨1, mask⟩
    rw [if_pos hnew, if_pos henv, withHandle_eq hget]
    have hconnect : ioctlConnect template env.sysbrk lib.driver ccon ⟨1, mask⟩ =
        connect template env.sysbrk lib.driver ccon ⟨1, mask⟩ := if_pos hmask
    rw [hconnect]
    refine ⟨_, rfl, rfl, (hsame.skelGetCcon _).trans hget, hsame.ccon, rfl, rfl, rfl, ?_⟩
    intro j hj
    unfold Links
    simp only [connectedTo_connect hj, hnew, true_and, ne_eq, not_false_eq_true]
  · rw [if_neg hnew]
    refine ⟨lib, rfl, rfl, hget, rfl, (or_subset (not_not.mp hnew)).symm, rfl, rfl, ?_⟩
    intro j _
    unfold Links
    simp only [hnew, false_and, or_false]

theorem waitQueueFlag_spec (noqueue : U32) (henv : env.setQueueFlag = true)
    (hget : skelGetCcon lib.driver lib.mtt = some ccon) :
    ∃ lib', waitQueueFlag env noqueue lib = .ok lib' ∧ SameHandle lib lib' ccon ∧
      lib'.connected = lib.connected ∧ lib'.noqueueflag = noqueue ∧ lib'.timeout = lib.timeout ∧
      (lib'.driver.ccon ccon).timeout = (lib.driver.ccon ccon).timeout ∧
      (lib'.driver.ccon ccon).queue.queueOff =
        if noqueue = lib.noqueueflag then (lib.driver.ccon ccon).queue.queueOff else decide (noqueue ≠ 0) := by
  unfold waitQueueFlag
  by_cases hnew : noqueue ≠ lib.noqueueflag
  · rw [if_pos hnew, if_pos henv, if_neg hnew, withHandle_eq hget]
    refine ⟨_, rfl, sameHandle_setCcon (fun context => setQueueFlag context noqueue) hget rfl rfl rfl, rfl, rfl, rfl,
      ?_, ?_⟩
    · dsimp only
      rw [setCcon_self]
      rfl
    · dsimp only
      rw [setCcon_self]
      rfl
  · have hold := not_not.mp hnew
    rw [if_neg hnew, if_pos hold]
    exact ⟨lib, rfl, ⟨rfl, hget, fun _ => Iff.rfl⟩, rfl, hold.symm, rfl, rfl, rfl⟩

/-- The driver gets the timeout that the library had before. -/
theorem waitTimeout_spec (tmo : U32) (henv : env.setTimeout = true)
    (hget : skelGetCcon lib.driver lib.mtt = some ccon) :
    ∃ lib', waitTimeout env tmo lib = .ok lib' ∧ SameHandle lib lib' ccon ∧
      lib'.connected = lib.connected ∧ lib'.noqueueflag = lib.noqueueflag ∧ lib'.timeout = tmo ∧
      (lib'.driver.ccon ccon).timeout =
        (if tmo = lib.timeout then (lib.driver.ccon ccon).timeout else lib.timeout) ∧
      (lib'.driver.ccon ccon).queue.queueOff = (lib.driver.ccon ccon).queue.queueOff := by
  unfold waitTimeout
  by_cases hnew : tmo ≠ lib.timeout
  · rw [if_pos hnew, if_pos henv, if_neg hnew, withHandle_eq hget]
    refine ⟨_, rfl, sameHandle_setCcon (fun context => { context with timeout := lib.timeout }) hget rfl rfl rfl,
      rfl, rfl, rfl, ?_, ?_⟩
    · dsimp only
      rw [setCcon_self]
    · dsimp only
      rw [setCcon_self]
  · have hold := not_not.mp hnew
    rw [if_neg hnew, if_pos hold]
    exact ⟨lib, rfl, ⟨rfl, hget, fun _ => Iff.rfl⟩, rfl, rfl, hold.symm, rfl, rfl⟩

theorem waitLoop_spec {reads : List (Read T)} (hget : skelGetCcon lib.driver lib.mtt = some ccon)
    (h : waitLoop mask reads lib = some (ret, lib')) :
    SameHandle lib lib' ccon ∧ lib'.connected = lib.connected ∧ lib'.noqueueflag = lib.noqueueflag ∧
      lib'.timeout = lib.timeout ∧ (lib'.driver.ccon ccon).timeout = (lib.driver.ccon ccon).timeout ∧
      (lib'.driver.ccon ccon).queue.queueOff = (lib.driver.ccon ccon).queue.queueOff := by
  induction reads generalizing lib with
  | nil => cases h
  | cons r reads ih =>
    rw [waitLoop, withHandle_eq hget] at h
    have hsame : SameHandle lib { lib with driver := setCcon lib.driver ccon (applyRead r) } ccon :=
      sameHandle_setCcon (applyRead r) hget rfl rfl rfl
    have htimeout : ((setCcon lib.driver ccon (applyRead r)).ccon ccon).timeout = (lib.driver.ccon ccon).timeout := by
      rw [setCcon_self]
      rfl
    have hqueueOff : ((setCcon lib.driver ccon (applyRead r)).ccon ccon).queue.queueOff =
        (lib.driver.ccon ccon).queue.queueOff := by
      rw [setCcon_self]
      rfl
    cases hread : r.conMask with
    | none =>
      rw [hread] at h
      cases h
      exact ⟨hsame, rfl, rfl, rfl, htimeout, hqueueOff⟩
    | some conMask =>
      rw [hread] at h
      dsimp only at h
      by_cases hours : mask = 0 ∨ mask &&& conMask ≠ 0
      · rw [if_pos hours] at h
        cases h
        exact ⟨hsame, rfl, rfl, rfl, htimeout, hqueueOff⟩
      · rw [if_neg hours] at h
        obtain ⟨hsame', hconnected, hflag, hcached, htimeout', hqueueOff'⟩ := ih hsame.client h
        refine ⟨hsame.trans hsame', hconnected, hflag, hcached, htimeout'.trans htimeout, hqueueOff'.trans hqueueOff⟩

/-- What a wait leaves behind. -/
structure Waited (env : WaitEnv T) (lib lib' : MttLib T m) (mask noqueue tmo : U32) (ccon : Ptr) : Prop where
  mtt : lib'.mtt = lib.mtt
  client : skelGetCcon lib'.driver lib'.mtt = some ccon
  links : ∀ j < template.interrupts, ConnectedTo lib'.driver ccon j ↔ Links env lib mask ccon j
  connected : lib'.connected = lib.connected ||| mask
  noqueueflag : lib'.noqueueflag = noqueue
  cached : lib'.timeout = tmo
  timeout : (lib'.driver.ccon ccon).timeout =
    if tmo = lib.timeout then (lib.driver.ccon ccon).timeout else lib.timeout
  queueOff : (lib'.driver.ccon ccon).queue.queueOff =
    if noqueue = lib.noqueueflag then (lib.driver.ccon ccon).queue.queueOff else decide (noqueue ≠ 0)

theorem mttLibWait_spec (henv : env.Succeeds) (hopen : lib.mtt ≠ 0) (hget : skelGetCcon lib.driver lib.mtt = some ccon)
    (h : mttLibWait env lib mask noqueue tmo = some (ret, lib')) : Waited env lib lib' mask noqueue tmo ccon := by
  obtain ⟨hconnect, hflag, htime⟩ := henv
  obtain ⟨lib₁, h₁, hmtt₁, hget₁, hccon₁, hconnected₁, hflag₁, hcached₁, hlinks₁⟩ :=
    waitConnect_spec mask hconnect hget
  obtain ⟨lib₂, h₂, hsame₂, hconnected₂, hflag₂, hcached₂, htimeout₂, hoff₂⟩ :=
    waitQueueFlag_spec noqueue hflag hget₁
  obtain ⟨lib₃, h₃, hsame₃, hconnected₃, hflag₃, hcached₃, htimeout₃, hoff₃⟩ :=
    waitTimeout_spec tmo htime hsame₂.client
  have hrequests : waitRequests env lib mask noqueue tmo = .ok lib₃ := by
    unfold waitRequests
    rw [h₁, Except.bind, h₂, Except.bind, h₃]
  rw [mttLibWait, if_neg hopen, hrequests] at h
  obtain ⟨hsame₄, hconnected₄, hflag₄, hcached₄, htimeout₄, hoff₄⟩ := waitLoop_spec hsame₃.client h
  have hsame := (hsame₂.trans hsame₃).trans hsame₄
  refine ⟨hsame.mtt.trans hmtt₁, hsame.client, ?_, ?_, ?_, ?_, ?_, ?_⟩
  · intro j hj
    exact (hsame.links j).trans (hlinks₁ j hj)
  · rw [hconnected₄, hconnected₃, hconnected₂, hconnected₁]
  · rw [hflag₄, hflag₃, hflag₂]
  · rw [hcached₄, hcached₃]
  · rw [htimeout₄, htimeout₃, hcached₂, htimeout₂, hcached₁, hccon₁]
  · rw [hoff₄, hoff₃, hoff₂, hflag₁, hccon₁]

theorem Waited.matches_iff (h : Waited env lib lib' mask noqueue tmo ccon) :
    ClientMatches lib' mask noqueue tmo ccon ↔ WaitSafe env lib mask noqueue tmo ccon := by
  have hbits : ∀ j, lib'.connected.getLsbD j = true ↔ (lib.connected.getLsbD j = true ∨ mask.getLsbD j = true) := by
    intro j
    rw [h.connected, BitVec.getLsbD_or, Bool.or_eq_true]
  constructor
  · intro hmatch
    have htimeout : tmo = lib.timeout ∧ (lib.driver.ccon ccon).timeout = tmo := by
      have hdriver := h.timeout.symm.trans hmatch.timeout
      by_cases hold : tmo = lib.timeout
      · rw [if_pos hold] at hdriver
        exact ⟨hold, hdriver⟩
      · rw [if_neg hold] at hdriver
        exact absurd hdriver.symm hold
    refine ⟨htimeout, ?_, ?_⟩
    · intro hold
      have hdriver := h.queueOff.symm.trans hmatch.queueOff
      rw [if_pos hold] at hdriver
      exact hdriver
    · intro j hj
      rw [← hbits, ← h.links j hj]
      exact hmatch.connected j hj
  · intro hsafe
    have htimeout : (lib'.driver.ccon ccon).timeout = tmo := by
      rw [h.timeout, if_pos hsafe.timeout.1]
      exact hsafe.timeout.2
    have hoff : (lib'.driver.ccon ccon).queue.queueOff = decide (noqueue ≠ 0) := by
      rw [h.queueOff]
      split
      · rename_i hold
        exact hsafe.noqueue hold
      · rfl
    refine ⟨?_, hoff, htimeout, ?_, ?_, ?_⟩
    · intro j hj hbit
      exact (h.links j hj).mpr ((hsafe.links j hj).mp (.inr hbit))
    · intro j hj
      rw [hbits, h.links j hj]
      exact hsafe.links j hj
    · rw [h.noqueueflag, hoff]
    · rw [h.cached, htimeout]

end Wait

/-! ## Every history -/

section Histories
variable {T : Type} {m : ℕ} {lib lib' : MttLib T m} {waits : List (WaitRecord T m)} {s s' : LibRun T m}
  {mask noqueue tmo ret : U32} {env : WaitEnv T}

/-- Until a first wait with an open handle the library remembers its own default for the timeout, and the client has
the driver's. The first such wait misses. -/
structure RunMatches (s : LibRun T m) : Prop where
  client : s.lib.mtt ≠ 0 → ∃ ccon, skelGetCcon s.lib.driver s.lib.mtt = some ccon
  safe : ∀ r ∈ s.waits, r.Matches ↔ r.Safe
  fresh : (∀ r ∈ s.waits, r.before.mtt = 0) → s.lib.timeout = 200 ∧
    (s.lib.mtt ≠ 0 → ∀ ccon ∈ skelGetCcon s.lib.driver s.lib.mtt, (s.lib.driver.ccon ccon).timeout = 2000)
  missed : (∃ r ∈ s.waits, r.before.mtt ≠ 0) → ∃ r ∈ s.waits, ¬r.Matches

theorem RunMatches.start (modnr : Fin m → U32) (memory : Ptr → SkelDrvrClientContext T) :
    RunMatches (libStart modnr memory) := by
  refine ⟨fun hopen => absurd rfl hopen, ?_, fun _ => ⟨rfl, fun hopen => absurd rfl hopen⟩, ?_⟩
  · intro r hr
    exact absurd hr List.not_mem_nil
  · intro ⟨r, hr, _⟩
    exact absurd hr List.not_mem_nil

theorem RunMatches.closed (h : RunMatches ⟨lib, waits⟩) (hmtt : lib'.mtt = 0) (htimeout : lib'.timeout = lib.timeout) :
    RunMatches ⟨lib', waits⟩ := by
  refine ⟨fun hopen => absurd hmtt hopen, h.safe, ?_, h.missed⟩
  intro hnone
  exact ⟨htimeout.trans (h.fresh hnone).1, fun hopen => absurd hmtt hopen⟩

theorem RunMatches.closeOld (h : RunMatches ⟨lib, waits⟩) : RunMatches ⟨closeOld lib, waits⟩ := by
  unfold Mttn.closeOld
  split
  · exact h.closed rfl rfl
  · exact h

theorem RunMatches.opened (h : RunMatches ⟨lib, waits⟩) (ccon : Ptr) (flp : ℕ) :
    RunMatches ⟨{ lib with mtt := flp, driver := skelDrvrOpen lib.driver ccon flp }, waits⟩ := by
  have hnew : (skelDrvrOpen lib.driver ccon flp).ccon ccon =
      clientInit (lib.driver.ccon ccon).semaphore (firstModule lib.driver) flp := Function.update_self ..
  have hget : skelGetCcon (skelDrvrOpen lib.driver ccon flp) flp = some ccon := by
    apply List.find?_cons_of_pos
    rw [hnew]
    exact decide_eq_true rfl
  refine ⟨fun _ => ⟨ccon, hget⟩, h.safe, ?_, h.missed⟩
  intro hnone
  refine ⟨(h.fresh hnone).1, ?_⟩
  intro _ found hfound
  obtain rfl : ccon = found := Option.some.inj (hget.symm.trans hfound)
  dsimp only
  rw [hnew]
  rfl

theorem RunMatches.waited (h : RunMatches ⟨lib, waits⟩) (henv : env.Succeeds)
    (hwait : mttLibWait env lib mask noqueue tmo = some (ret, lib')) :
    RunMatches ⟨lib', waits ++ [⟨env, lib, mask, noqueue, tmo, lib'⟩]⟩ := by
  by_cases hopen : lib.mtt = 0
  · rw [mttLibWait, if_pos hopen] at hwait
    cases hwait
    refine ⟨h.client, ?_, ?_, ?_⟩
    · intro r hr
      obtain hold | hnew := List.mem_append.mp hr
      · exact h.safe r hold
      · rw [List.mem_singleton.mp hnew]
        exact iff_of_true (fun h => absurd hopen h) (fun h => absurd hopen h)
    · intro hnone
      exact h.fresh fun r hr => hnone r (List.mem_append_left _ hr)
    · intro ⟨r, hr, hne⟩
      obtain hold | hnew := List.mem_append.mp hr
      · obtain ⟨r', hr', hmiss⟩ := h.missed ⟨r, hold, hne⟩
        exact ⟨r', List.mem_append_left _ hr', hmiss⟩
      · rw [List.mem_singleton.mp hnew] at hne
        exact absurd hopen hne
  · obtain ⟨ccon, hget⟩ := h.client hopen
    have hspec := mttLibWait_spec henv hopen hget hwait
    have hiff : WaitRecord.Matches ⟨env, lib, mask, noqueue, tmo, lib'⟩ ↔
        WaitRecord.Safe ⟨env, lib, mask, noqueue, tmo, lib'⟩ := by
      constructor
      · intro hmatch _
        obtain ⟨found, hfound, hmatch⟩ := hmatch (hspec.mtt.trans_ne hopen)
        obtain rfl : ccon = found := Option.some.inj (hspec.client.symm.trans hfound)
        exact ⟨ccon, hget, hspec.matches_iff.mp hmatch⟩
      · intro hsafe _
        obtain ⟨found, hfound, hsafe⟩ := hsafe hopen
        obtain rfl : ccon = found := Option.some.inj (hget.symm.trans hfound)
        exact ⟨ccon, hspec.client, hspec.matches_iff.mpr hsafe⟩
    refine ⟨fun _ => ⟨ccon, hspec.client⟩, ?_, ?_, ?_⟩
    · intro r hr
      obtain hold | hnew := List.mem_append.mp hr
      · exact h.safe r hold
      · rw [List.mem_singleton.mp hnew]
        exact hiff
    · intro hnone
      exact absurd (hnone _ (List.mem_append_right _ (List.mem_singleton_self _))) hopen
    · intro _
      by_cases hold : ∃ r ∈ waits, r.before.mtt ≠ 0
      · obtain ⟨r, hr, hmiss⟩ := h.missed hold
        exact ⟨r, List.mem_append_left _ hr, hmiss⟩
      · have hnone : ∀ r ∈ waits, r.before.mtt = 0 := fun r hr => not_not.mp fun hne => hold ⟨r, hr, hne⟩
        obtain ⟨hlib, hdriver⟩ := h.fresh hnone
        refine ⟨_, List.mem_append_right _ (List.mem_singleton_self _), ?_⟩
        intro hmatch
        obtain ⟨found, hfound, hsafe⟩ := hiff.mp hmatch hopen
        -- the library would have to ask for 200 and find 2000
        have hasked : (lib.driver.ccon found).timeout = 200 := hsafe.timeout.2.trans (hsafe.timeout.1.trans hlib)
        rw [hdriver hopen found hfound] at hasked
        exact absurd hasked (by decide)

theorem RunMatches.initSending {env : InitEnv T} {sysldr : Bool} {stat : U32} (h : RunMatches ⟨lib, waits⟩) :
    RunMatches ⟨(initSending env sysldr stat lib).2, waits⟩ := by
  unfold Mttn.initSending
  split
  · exact h.closed rfl rfl
  · exact h

theorem RunMatches.init {env : InitEnv T} {sysldr : Bool} {path : Option (List Char)} {err : MttLibError}
    {records : List (WaitRecord T m)} (h : RunMatches ⟨lib, waits⟩) (henv : env.wait.Succeeds)
    (hinit : mttLibInit env sysldr path lib = some (err, lib', records)) : RunMatches ⟨lib', waits ++ records⟩ := by
  unfold mttLibInit at hinit
  split at hinit
  · cases hinit
    rw [List.append_nil]
    exact h
  cases hopened : env.opened with
  | none =>
    rw [hopened] at hinit
    cases hinit
    rw [List.append_nil]
    exact h.closeOld
  | some new =>
    obtain ⟨ccon, flp⟩ := new
    have hopen := h.closeOld.opened ccon flp
    rw [hopened] at hinit
    cases hstat : env.gstatus with
    | none =>
      rw [hstat] at hinit
      cases hinit
      rw [List.append_nil]
      exact hopen.closed rfl rfl
    | some stat =>
      rw [hstat] at hinit
      dsimp only at hinit
      split at hinit
      · cases hinit
        rw [List.append_nil]
        exact hopen.closed rfl rfl
      split at hinit
      · obtain ⟨⟨msk, lib₁⟩, hwait, hrest⟩ := Option.map_eq_some_iff.mp hinit
        have hwaited := hopen.waited henv hwait
        dsimp only at hrest
        split at hrest
        · split at hrest
          · cases hrest
            exact hwaited.closed rfl rfl
          split at hrest
          · cases hrest
            exact hwaited.closed rfl rfl
          · cases hrest
            exact hwaited.initSending
        · cases hrest
          exact hwaited.closed rfl rfl
      · cases hinit
        rw [List.append_nil]
        exact hopen.initSending

theorem RunMatches.next {call : LibCall T} (h : RunMatches s) (hcall : call.Succeeds)
    (hnext : libNext s call = some s') : RunMatches s' := by
  cases call with
  | init env sysldr path =>
    rw [libNext] at hnext
    split at hnext
    · obtain ⟨⟨err, lib', records⟩, hinit, hs⟩ := Option.map_eq_some_iff.mp hnext
      cases hs
      exact RunMatches.init h hcall.2.2.2.2 hinit
    · cases hnext
  | wait env mask noqueue tmo =>
    obtain ⟨⟨ret, lib'⟩, hwait, hs⟩ := Option.map_eq_some_iff.mp hnext
    cases hs
    exact RunMatches.waited h hcall hwait

/-- A wait leaves the library and its client in step exactly when it is safe, and then no history with a wait on an
open handle is in step throughout. -/
theorem lib_state_matches {modnr : Fin m → U32} {memory : Ptr → SkelDrvrClientContext T}
    (h : Reach libNext (fun _ call => call.Succeeds) (libStart modnr memory) s) :
    (∀ r ∈ s.waits, r.Matches ↔ r.Safe) ∧
      ((∀ r ∈ s.waits, r.Matches) ↔ ∀ r ∈ s.waits, r.before.mtt = 0) := by
  have hrun : RunMatches s := h.invariant (RunMatches.start modnr memory) fun _ _ _ hs hcall => hs.next hcall
  refine ⟨hrun.safe, ?_, ?_⟩
  · intro hall r hr
    by_contra hne
    obtain ⟨r', hr', hmiss⟩ := hrun.missed ⟨r, hr, hne⟩
    exact hmiss (hall r' hr')
  · intro hnone r hr
    exact (hrun.safe r hr).mpr fun hne => absurd (hnone r hr) hne

end Histories

/-- The library opens a module that is running, and waits for interrupt 0 with this timeout. -/
def waitOnce (tmo : U32) : List (LibCall Unit) :=
  let answers : WaitEnv Unit :=
    ⟨true, true, true, fun _ => true, [⟨some 1, ⟨0, []⟩, 0, (clientInit (T := Unit) ⟨0, []⟩ 0 0).queue⟩]⟩
  [.init ⟨some (0, 3), some 7, true, true, true, true, answers⟩ false none, .wait answers 1 0 tmo]

def firstStart : LibRun Unit 1 := libStart (fun _ => 1) fun _ => clientInit ⟨0, []⟩ 0 0

def waitedOnce (tmo : U32) : LibRun Unit 1 := ((waitOnce tmo).foldlM libNext firstStart).getD firstStart

theorem waitOnce_succeeds (tmo : U32) : ∀ call ∈ waitOnce tmo, call.Succeeds := by
  simp [waitOnce, LibCall.Succeeds, WaitEnv.Succeeds]

theorem lib_state_matches_once :
    (∀ r ∈ (waitedOnce 200).waits, r.Matches ↔ r.Safe) ∧
      ((∀ r ∈ (waitedOnce 200).waits, r.Matches) ↔ ∀ r ∈ (waitedOnce 200).waits, r.before.mtt = 0) :=
  have hrun : (waitOnce 200).foldlM libNext firstStart = some (waitedOnce 200) := rfl
  lib_state_matches (Reach.refl.of_foldlM (fun call hcall _ => waitOnce_succeeds 200 call hcall) hrun)

/-- Whoever asks for the driver's default as the first timeout gets the library's. -/
theorem lib_timeout_late :
    ¬ ∀ s, Reach libNext (fun _ call => call.Succeeds) firstStart s → ∀ r ∈ s.waits, r.Matches := by
  intro hall
  have hrun : (waitOnce 2000).foldlM libNext firstStart = some (waitedOnce 2000) := rfl
  have hreach := Reach.refl.of_foldlM (fun call hcall _ => waitOnce_succeeds 2000 call hcall) hrun
  have hwait : ∃ r ∈ (waitedOnce 2000).waits, r.tmo = 2000 ∧ r.after.mtt ≠ 0 ∧
      ∀ ccon ∈ skelGetCcon r.after.driver r.after.mtt, (r.after.driver.ccon ccon).timeout = 200 := by
    refine ⟨_, List.mem_cons_self .., rfl, by decide, ?_⟩
    intro ccon hccon
    obtain rfl : 0 = ccon := Option.some.inj hccon
    rfl
  obtain ⟨r, hr, htmo, hopen, hdriver⟩ := hwait
  obtain ⟨ccon, hccon, hmatch⟩ := hall _ hreach r hr hopen
  have hasked := (hdriver ccon hccon).symm.trans hmatch.timeout
  rw [htmo] at hasked
  exact absurd hasked (by decide)

end HtDrivers.Mttn
