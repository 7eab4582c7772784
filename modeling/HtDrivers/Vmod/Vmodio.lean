import Mathlib.Data.BitVec
import Mathlib.Logic.Function.Basic
import Mathlib.Tactic

/-! The driver of the VMOD/IO carrier board (`vmodio.c`), with the handlers that the VME bridge keeps for the interrupt
vectors (`vme_irq.c`). -/
namespace HtDrivers.Vmod
set_option autoImplicit false

def maxDevices : ℕ := 16
def vmodioSlots : ℕ := 4
def vmeNumVectors : ℕ := 256

/-! ## Vectors -/

/-- Whose handler it is; the one of the VMOD/IO comes with a pointer to the vector of a slot. -/
inductive VmeHandler
  | vmodio (device slot : ℕ)
  | other (owner : ℕ)
deriving DecidableEq

section Vectors
variable (vmeIrqTable : ℕ → Option VmeHandler) (vec : ℤ)

/-- `interrupted` is what the calls find while they wait for their mutex. -/
def vmeRequestIrq (handler : VmeHandler) (interrupted : Bool) : Option (ℕ → Option VmeHandler) :=
  if vec < 0 ∨ vmeNumVectors ≤ vec then none
  else if interrupted then none
  else if (vmeIrqTable vec.toNat).isSome then none
  else some (Function.update vmeIrqTable vec.toNat (some handler))

def vmeFreeIrq (interrupted : Bool) : Option (ℕ → Option VmeHandler) :=
  if vec < 0 ∨ vmeNumVectors ≤ vec then none
  else if interrupted then none
  else if (vmeIrqTable vec.toNat).isNone then none
  else some (Function.update vmeIrqTable vec.toNat none)

end Vectors

def vmodioIrqShift (baseIrq : ℤ) (slot : ℕ) : ℤ := baseIrq - (0xe - (~~~((1 : BitVec 32) <<< slot) &&& 0xf).toNat)

def upperNibbleOf (byte : ℤ) : ℕ := (byte / 16 % 16).toNat

def interruptToSlot : List ℤ := [-1, -1, -1, -1, -1, -1, -1, 3, -1, -1, -1, 2, -1, 1, 0, -1]

def irqToSlot (tmp : ℤ) : ℤ := interruptToSlot.getD (tmp % 16).toNat (-1)

/-! ## Devices -/

structure Vmodio where
  lun : ℤ
  vmeAddr : BitVec 64
  vaddr : BitVec 64
  irq : ℕ → ℤ

/-- `struct carrier_as`. -/
structure CarrierAs where
  address : BitVec 64
  width : ℤ
  size : ℤ
  isBigEndian : Bool
deriving DecidableEq

/-- No callback is the null pointer. -/
structure MzCallback (C D : Type) where
  callback : Option C
  dev : Option D

/-- The statics of the driver, the table of the bridge, and whether the carrier is registered by its name. `requested`
and `freed` list the vectors that the driver was given and gave back. -/
structure VmodioDriver (C D : Type) where
  irqToLun : ℕ → ℤ
  lunSlotToIrq : ℤ × ℕ → ℤ
  deviceTable : ℕ → Vmodio
  devices : ℕ
  mezzaninesCallback : ℤ × ℤ → MzCallback C D
  vmeIrqTable : ℕ → Option VmeHandler
  carrier : Bool
  requested : List ℕ
  freed : List ℕ

section Calls
variable {C D : Type} (s : VmodioDriver C D)

def lunToDev (lun : ℤ) : Option Vmodio := ((List.range s.devices).map s.deviceTable).find? fun dev => dev.lun = lun

def vmodioOffsets : List (BitVec 64) := [0x0000, 0x0200, 0x0400, 0x0600]

def getAddressSpace (boardNumber boardPosition addressSpaceNumber : ℤ) : Option CarrierAs :=
  if addressSpaceNumber ≠ 1 then none
  else
    match lunToDev s boardNumber with
    | none => none
    | some dev =>
      if boardPosition < 0 ∨ vmodioSlots ≤ boardPosition then none
      else some ⟨dev.vaddr + vmodioOffsets.getD boardPosition.toNat 0, 16, 0x200, true⟩

def withinBounds (board position : ℤ) : Bool :=
  0 ≤ board ∧ board < s.devices ∧ 0 ≤ position ∧ position < vmodioSlots

def registerIsr (callback : Option C) (dev : Option D) (boardNumber boardPosition : ℤ) : Option (VmodioDriver C D) :=
  if withinBounds s boardNumber boardPosition then
    some { s with
      mezzaninesCallback := Function.update s.mezzaninesCallback (boardNumber, boardPosition) ⟨callback, dev⟩ }
  else none

/-- The callback that is called, with its device. -/
def vmodioInterrupt (irqno : ℤ) : Option (C × Option D) :=
  let carrierNumber := s.irqToLun (upperNibbleOf irqno)
  let boardPosition := irqToSlot irqno
  if withinBounds s carrierNumber boardPosition then
    let entry := s.mezzaninesCallback (carrierNumber, boardPosition)
    entry.callback.map fun callback => (callback, entry.dev)
  else none

/-- What the VMOD/IO does on an interrupt with the vector. -/
def vmeInterrupt (vec : ℕ) : Option (C × Option D) :=
  match s.vmeIrqTable vec with
  | some (.vmodio device slot) => vmodioInterrupt s ((s.deviceTable device).irq slot)
  | _ => none

end Calls

/-! ## Load and unload -/

/-- One place of the three parameters of the module. -/
structure Board where
  lun : ℤ
  baseAddress : BitVec 64
  irq : ℤ

/-- What the calls of the driver meet: the addresses that `find_controller` maps, the slots of a device for which the
request of the vector is interrupted, the entries of `lun_slot_to_irq` for which its release is, and whether
`modulbus_carrier_register` takes the name. -/
structure Answers where
  vaddr : ℕ → BitVec 64
  interrupted : ℕ → ℕ → Bool
  freeInterrupted : ℤ × ℕ → Bool
  registered : Bool

section Load
variable {C D : Type} (ans : Answers)

/-- The loop of `device_init` over the slots. -/
def requestSlots (device : ℕ) (board : Board) : List ℕ → VmodioDriver C D → VmodioDriver C D × Bool
  | [], s => (s, true)
  | i :: is, s =>
    let slotIrq := vmodioIrqShift board.irq i
    let dev := s.deviceTable device
    let s := { s with
      deviceTable := Function.update s.deviceTable device { dev with irq := Function.update dev.irq i slotIrq }
      lunSlotToIrq := Function.update s.lunSlotToIrq (board.lun, i) slotIrq }
    match vmeRequestIrq s.vmeIrqTable slotIrq (.vmodio device i) (ans.interrupted device i) with
    | none => (s, false)
    | some vmeIrqTable =>
      requestSlots device board is { s with vmeIrqTable := vmeIrqTable, requested := s.requested ++ [slotIrq.toNat] }

def deviceInit (device : ℕ) (board : Board) (s : VmodioDriver C D) : VmodioDriver C D × Bool :=
  let dev := s.deviceTable device
  let s := { s with
    deviceTable := Function.update s.deviceTable device
      { dev with lun := board.lun, vmeAddr := board.baseAddress, vaddr := ans.vaddr device } }
  if ans.vaddr device = -1 then (s, false)
  else
    requestSlots ans device board (List.range vmodioSlots)
      { s with irqToLun := Function.update s.irqToLun (upperNibbleOf board.irq) board.lun }

/-- The loop of `init` from one device on. -/
def initDevices : ℕ → List Board → VmodioDriver C D → VmodioDriver C D × Bool
  | _, [], s => (s, true)
  | device, board :: boards, s =>
    let (s, ok) := deviceInit ans device board s
    if ok then initDevices (device + 1) boards { s with devices := s.devices + 1 } else (s, false)

def boardsOf (lun : List ℤ) (baseAddress : List (BitVec 64)) (irq : List ℤ) : List Board :=
  (lun.zip (baseAddress.zip irq)).map fun p => ⟨p.1, p.2.1, p.2.2⟩

def init (lun : List ℤ) (baseAddress : List (BitVec 64)) (irq : List ℤ) (s : VmodioDriver C D) :
    VmodioDriver C D × Bool :=
  let s := { s with irqToLun := fun _ => -1, lunSlotToIrq := fun _ => -1 }
  if maxDevices ≤ lun.length then (s, false)
  else if lun.length ≠ baseAddress.length ∨ lun.length ≠ irq.length then (s, false)
  else if ¬ ans.registered then (s, false)
  else
    let (s, ok) := initDevices ans 0 (boardsOf lun baseAddress irq) { s with carrier := true, devices := 0 }
    if ok then (s, true) else ({ s with carrier := false }, false)

/-- The entries of `lun_slot_to_irq` in the order of the loops of `exit`. -/
def lunSlots : List (ℤ × ℕ) :=
  (List.range maxDevices).flatMap fun i : ℕ => (List.range vmodioSlots).map fun j => ((i : ℤ), j)

/-- One round of these loops. -/
def freeEntry (s : VmodioDriver C D) (entry : ℤ × ℕ) : VmodioDriver C D :=
  if 0 ≤ s.lunSlotToIrq entry then
    match vmeFreeIrq s.vmeIrqTable (s.lunSlotToIrq entry) (ans.freeInterrupted entry) with
    | some vmeIrqTable => { s with vmeIrqTable := vmeIrqTable, freed := s.freed ++ [(s.lunSlotToIrq entry).toNat] }
    | none => s
  else s

def exit (s : VmodioDriver C D) : VmodioDriver C D := { lunSlots.foldl (freeEntry ans) s with carrier := false }

end Load

end HtDrivers.Vmod
