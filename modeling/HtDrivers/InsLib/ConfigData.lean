import Mathlib.Tactic

/-! The descriptors of the installation library. Each record holds the members of its struct that are
data; the pointers to other descriptors belong to the trees and heaps built over them. -/
namespace HtDrivers.InsLib
set_option autoImplicit false

/-- A char array or a string: the characters before its terminator. -/
abbrev Text := List Char

def insLibNameSize : ℕ := 32

def insLibCommentSize : ℕ := 128

inductive InsLibBusType where
  | notSet | carrier | vme | pmc | pci
  deriving DecidableEq, Repr

inductive InsLibEndian where
  | notSet | big | little
  deriving DecidableEq, Repr

structure InsLibIntrDesc where
  isrFlag : ℕ
  vector : ℕ
  level : ℕ
  comment : Text
  deriving DecidableEq, Repr

structure InsLibPciAddressSpace where
  mapped : ℕ
  baseAddressRegister : ℕ
  windowSize : ℕ
  dataWidth : ℕ
  endian : InsLibEndian
  comment : Text
  deriving DecidableEq, Repr

structure InsLibVmeAddressSpace where
  mapped : ℕ
  addressModifier : ℕ
  windowSize : ℕ
  dataWidth : ℕ
  endian : InsLibEndian
  baseAddress : ℕ
  freeModifierFlag : ℕ
  comment : Text
  deriving DecidableEq, Repr

structure InsLibCarAddressSpace where
  mapped : ℕ
  spaceNumber : ℕ
  dataWidth : ℕ
  windowSize : ℕ
  endian : InsLibEndian
  comment : Text
  deriving DecidableEq, Repr

structure InsLibPciModuleAddress where
  busNumber : ℕ
  slotNumber : ℕ
  vendorId : ℕ
  deviceId : ℕ
  subVendorId : ℕ
  subDeviceId : ℕ
  comment : Text
  deriving DecidableEq, Repr

structure InsLibVmeModuleAddress where
  comment : Text
  deriving DecidableEq, Repr

structure InsLibCarModuleAddress where
  driverName : Text
  motherboardNumber : ℕ
  slotNumber : ℕ
  comment : Text
  deriving DecidableEq, Repr

structure InsLibModlDesc where
  busType : InsLibBusType
  moduleNumber : ℕ
  ignoreErrors : ℕ
  comment : Text
  moduleName : Text
  deriving DecidableEq, Repr

structure InsLibDrvrDesc where
  drvrName : Text
  debugFlags : ℕ
  emulationFlags : ℕ
  moduleCount : ℕ
  comment : Text
  isdg : ℤ
  deriving DecidableEq, Repr

structure InsLibHostDesc where
  hostName : Text
  comment : Text
  deriving DecidableEq, Repr

end HtDrivers.InsLib
