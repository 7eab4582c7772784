import HtDrivers.Ctr.WorkingArea
import HtDrivers.Lib.Transition

/-! The calls of the CTR driver that change objects and connections (`CtrDrvrOpen`, `CtrDrvrClose`, `CtrDrvrIoctl`), and
the runs that they make. -/
namespace HtDrivers.Ctr
open HtDrivers.Lib.Tables HtDrivers.Lib.Transition
set_option autoImplicit false

structure CtrDrvrAction where
  triggerNumber : ℕ
  eqpNum : BitVec 32
  eqpClass : CtrDrvrConnectionClass
  trigger : CtrDrvrTrigger

/-! ## Objects -/

section Objects
variable (wa : CtrDrvrWorkingArea) (midx : Fin ctrDrvrModuleContexts)

def setAction (act : CtrDrvrAction) : CtrDrvrWorkingArea × CtrReply :=
  if h : act.triggerNumber - 1 < ctrDrvrRamTableSize ∧ act.triggerNumber ≠ 0 then
    let i : Fin ctrDrvrRamTableSize := ⟨act.triggerNumber - 1, h.1⟩
    let mcon := wa.moduleContexts midx
    let slot := mcon.slots i
    if slot.eqpClass = .hard then (wa, .error .einval)
    else if slot.eqpNum ≠ 0 then
      if slot.eqpNum = act.eqpNum ∧ slot.eqpClass = act.eqpClass ∧ slot.trig.counter = act.trigger.counter then
        (wa.setModule midx (mcon.setSlot i { slot with trig := act.trigger }), .ok)
      else (wa, .error .einval)
    else
      let slot := { slot with eqpNum := act.eqpNum, eqpClass := act.eqpClass, trig := act.trigger }
      (wa.setModule midx (mcon.setSlot i slot), .ok)
  else (wa, .error .einval)

def createCtimObject (ctim : CtrDrvrCtimBinding) : CtrDrvrWorkingArea × CtrReply :=
  if wa.ctim.any fun object => ctim.eqpNum == object.eqpNum then (wa, .error .ebusy)
  else if wa.ctim.length < ctrDrvrCtimObjects then ({ wa with ctim := wa.ctim ++ [ctim] }, .ok)
  else (wa, .error .enomem)

/-- A trigger in the table of the module refers to the CTIM, be its slot in use or not. -/
def refersCtim (mcon : CtrDrvrModuleContext) (eqpNum : BitVec 32) : Prop := ∃ j, (mcon.slots j).trig.ctim = eqpNum

instance (mcon : CtrDrvrModuleContext) (eqpNum : BitVec 32) : Decidable (refersCtim mcon eqpNum) :=
  inferInstanceAs (Decidable (∃ j, (mcon.slots j).trig.ctim = eqpNum))

def destroyCtimObject (ctim : CtrDrvrCtimBinding) : CtrDrvrWorkingArea × CtrReply :=
  if wa.ctim.any fun object => ctim.eqpNum == object.eqpNum then
    if refersCtim (wa.moduleContexts midx) ctim.eqpNum then (wa, .error .ebusy)
    else ({ wa with ctim := moveLast (fun object => ctim.eqpNum == object.eqpNum) wa.ctim }, .ok)
  else (wa, .error .einval)

/-- The frame of the first object with the number. -/
def changeFrame (ctim : CtrDrvrCtimBinding) : List CtrDrvrCtimBinding → List CtrDrvrCtimBinding
  | [] => []
  | object :: objects =>
    if ctim.eqpNum = object.eqpNum then { object with frame := ctim.frame } :: objects
    else object :: changeFrame ctim objects

def changeCtimFrame (ctim : CtrDrvrCtimBinding) : CtrDrvrWorkingArea × CtrReply :=
  if wa.ctim.any fun object => ctim.eqpNum == object.eqpNum then
    if refersCtim (wa.moduleContexts midx) ctim.eqpNum then (wa, .error .ebusy)
    else ({ wa with ctim := changeFrame ctim wa.ctim }, .ok)
  else (wa, .error .einval)

/-- The search for free slots in a row, with the start and the length of the row that ends before the slots to come. -/
def searchSlots (mcon : CtrDrvrModuleContext) (wanted : ℕ) : List (Fin ctrDrvrRamTableSize) → ℕ → ℕ → Option ℕ
  | [], _, _ => none
  | i :: slots, start, size =>
    if (mcon.slots i).eqpNum = 0 then
      let start := if size = 0 then (i : ℕ) else start
      if wanted ≤ size + 1 then some start else searchSlots mcon wanted slots start (size + 1)
    else searchSlots mcon wanted slots start 0

/-- The slots become those of the object. -/
def claimSlots (ptim : CtrDrvrPtimBinding) (start : ℕ) (mcon : CtrDrvrModuleContext) : CtrDrvrModuleContext :=
  { mcon with
    slots := fun i =>
      let slot := mcon.slots i
      if start ≤ i ∧ i < start + ptim.size then
        { slot with eqpNum := ptim.eqpNum, eqpClass := .ptim, trig := { slot.trig with counter := ptim.counter } }
      else slot }

def createPtimObject (ptim : CtrDrvrPtimBinding) : CtrDrvrWorkingArea × CtrReply :=
  if wa.ptim.any fun object => ptim.eqpNum == object.eqpNum then (wa, .error .ebusy)
  else if ctrDrvrPtimObjects ≤ wa.ptim.length then (wa, .error .enomem)
  else if h : ptim.moduleIndex < wa.modules then
    let midx : Fin ctrDrvrModuleContexts := ⟨ptim.moduleIndex, h.trans_le wa.modules_le⟩
    let mcon := wa.moduleContexts midx
    match searchSlots mcon ptim.size (List.finRange _) 0 0 with
    | some start =>
      ({ wa.setModule midx (claimSlots ptim start mcon) with
          ptim := wa.ptim ++ [{ ptim with startIndex := start }] }, .ok)
    | none => (wa, .error .einval)
  else (wa, .error .einval)

def TrigSlot.isPtim (slot : TrigSlot) (eqpNum : BitVec 32) : Bool := slot.eqpNum == eqpNum && slot.eqpClass == .ptim

def releaseSlots (eqpNum : BitVec 32) (mcon : CtrDrvrModuleContext) : CtrDrvrModuleContext :=
  { mcon with
    slots := fun i =>
      let slot := mcon.slots i
      if slot.isPtim eqpNum then { slot with eqpNum := 0, eqpClass := .hard, trig := noTrigger } else slot }

/-- A client is connected to a slot of the object. -/
def ptimBusy (mcon : CtrDrvrModuleContext) (eqpNum : BitVec 32) : Prop :=
  ∃ i, (mcon.slots i).isPtim eqpNum = true ∧ (mcon.slots i).clients ≠ 0

def ptimFound (mcon : CtrDrvrModuleContext) (eqpNum : BitVec 32) : Prop := ∃ i, (mcon.slots i).isPtim eqpNum = true

instance (mcon : CtrDrvrModuleContext) (eqpNum : BitVec 32) : Decidable (ptimBusy mcon eqpNum) :=
  inferInstanceAs (Decidable (∃ i, (mcon.slots i).isPtim eqpNum = true ∧ (mcon.slots i).clients ≠ 0))

instance (mcon : CtrDrvrModuleContext) (eqpNum : BitVec 32) : Decidable (ptimFound mcon eqpNum) :=
  inferInstanceAs (Decidable (∃ i, (mcon.slots i).isPtim eqpNum = true))

/-- The destruction on the module that the call names. -/
def destroyPtimOn (ptim : CtrDrvrPtimBinding) : CtrDrvrWorkingArea × CtrReply :=
  if ptimBusy (wa.moduleContexts midx) ptim.eqpNum then (wa, .error .ebusy)
  else if ptimFound (wa.moduleContexts midx) ptim.eqpNum then
    ({ wa.setModule midx (releaseSlots ptim.eqpNum (wa.moduleContexts midx)) with
        ptim := moveLast (fun object => ptim.eqpNum == object.eqpNum) wa.ptim }, .ok)
  else (wa, .error .einval)

def destroyPtimObject (ptim : CtrDrvrPtimBinding) : CtrDrvrWorkingArea × CtrReply :=
  if h : ptim.moduleIndex < wa.modules then destroyPtimOn wa ⟨ptim.moduleIndex, h.trans_le wa.modules_le⟩ ptim
  else (wa, .error .einval)

end Objects

/-! ## Calls -/

inductive CtrControl
  | setModule (lav : ℤ)
  | connect (conx : CtrDrvrConnection)
  | disConnect (conx : CtrDrvrConnection)
  | setAction (act : CtrDrvrAction)
  | createCtim (ctim : CtrDrvrCtimBinding)
  | destroyCtim (ctim : CtrDrvrCtimBinding)
  | changeCtim (ctim : CtrDrvrCtimBinding)
  | createPtim (ptim : CtrDrvrPtimBinding)
  | destroyPtim (ptim : CtrDrvrPtimBinding)

section Calls
variable (beyond : Fin ctrDrvrModuleContexts → ℕ → BitVec 32) (wa : CtrDrvrWorkingArea)
  (client : Fin ctrDrvrClientContexts)

def selectModule (lav : ℤ) : CtrDrvrWorkingArea × CtrReply :=
  if h : 1 ≤ lav ∧ lav ≤ wa.modules then
    let midx : Fin ctrDrvrModuleContexts := ⟨(lav - 1).toNat, by have := wa.modules_le; omega⟩
    let ccon := { wa.clientContexts client with moduleIndex := midx }
    let mcon := { wa.moduleContexts midx with moduleIndex := midx }
    ({ wa.setModule midx mcon with clientContexts := Function.update wa.clientContexts client ccon }, .ok)
  else (wa, .error .einval)

def control (midx : Fin ctrDrvrModuleContexts) : CtrControl → CtrDrvrWorkingArea × CtrReply
  | .setModule lav => selectModule wa client lav
  | .connect conx => connect wa client conx
  | .disConnect conx =>
    if conx.eqpNum ≠ 0 then (disConnect beyond wa client conx, .ok) else (disConnectAll beyond wa client, .ok)
  | .setAction act => setAction wa midx act
  | .createCtim ctim => createCtimObject wa ctim
  | .destroyCtim ctim => destroyCtimObject wa midx ctim
  | .changeCtim ctim => changeCtimFrame wa midx ctim
  | .createPtim ptim => createPtimObject wa ptim
  | .destroyPtim ptim => destroyPtimObject wa ptim

def ctrDrvrIoctl (cm : CtrControl) : CtrDrvrWorkingArea × CtrReply :=
  let ccon := wa.clientContexts client
  if ccon.inUse = false then (wa, .error .ebadf)
  else if (wa.moduleContexts ccon.moduleIndex).inUse = false then (wa, .error .enodev)
  else control beyond wa client ccon.moduleIndex cm

def ctrDrvrOpen : CtrDrvrWorkingArea × CtrReply :=
  if (wa.clientContexts client).inUse then (wa, .error .ebusy)
  else
    let ccon : ClientModule := { inUse := true, moduleIndex := ⟨0, by decide⟩ }
    ({ wa with clientContexts := Function.update wa.clientContexts client ccon }, .ok)

/-- Only a client that is open gets closed. -/
def ctrDrvrClose : CtrDrvrWorkingArea × CtrReply :=
  let ccon := wa.clientContexts client
  if ccon.inUse = false then (wa, .error .ebadf)
  else
    let wa := { wa with clientContexts := Function.update wa.clientContexts client { ccon with inUse := false } }
    (disConnectAll beyond wa client, .ok)

end Calls

/-! ## Runs -/

inductive CtrCall
  | opens
  | closes
  | ioctl (cm : CtrControl)

/-- A call of a client, and what lies past the end of `HardClients` in each module context. -/
structure CtrStep where
  client : Fin ctrDrvrClientContexts
  call : CtrCall
  beyond : Fin ctrDrvrModuleContexts → ℕ → BitVec 32

def ctrCall (wa : CtrDrvrWorkingArea) (step : CtrStep) : CtrDrvrWorkingArea × CtrReply :=
  match step.call with
  | .opens => ctrDrvrOpen wa step.client
  | .closes => ctrDrvrClose step.beyond wa step.client
  | .ioctl cm => ctrDrvrIoctl step.beyond wa step.client cm

/-- `DisConnect` subscripts `ModuleContexts` with `conx->Module - 1`, unchecked. -/
def pastContexts (wa : CtrDrvrWorkingArea) (step : CtrStep) : Bool :=
  match step.call with
  | .ioctl (.disConnect conx) =>
    let ccon := wa.clientContexts step.client
    (conx.module == 0 || decide (ctrDrvrModuleContexts < conx.module)) && conx.eqpNum != 0 && ccon.inUse &&
      (wa.moduleContexts ccon.moduleIndex).inUse
  | _ => false

/-- A subscript outside the module contexts leaves nothing defined. -/
def ctrNext (wa : CtrDrvrWorkingArea) (step : CtrStep) : Option CtrDrvrWorkingArea :=
  if pastContexts wa step then none else some (ctrCall wa step).1

theorem ctrCall_of_next {wa wa' : CtrDrvrWorkingArea} {step : CtrStep} (h : ctrNext wa step = some wa') :
    (ctrCall wa step).1 = wa' := by
  unfold ctrNext at h
  split at h
  · cases h
  · exact Option.some.inj h

/-- The working area behind the installation, with the modules that were found. -/
def ctrDrvrInstall (modules : ℕ) (hmodules : modules ≤ ctrDrvrModuleContexts) (found : ℕ → Bool) :
    CtrDrvrWorkingArea where
  ctim := []
  ptim := []
  modules := modules
  modules_le := hmodules
  moduleContexts := fun i =>
    { moduleIndex := if i < modules then i else 0
      inUse := decide (i < modules) && found i
      interruptEnable := 0
      slots := fun _ => freeSlot
      hardClients := fun _ => 0
      pastEnd := false }
  clientContexts := fun _ => { inUse := false, moduleIndex := ⟨0, by decide⟩ }

end HtDrivers.Ctr
