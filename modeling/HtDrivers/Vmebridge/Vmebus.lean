import Mathlib.Data.Nat.Bitwise
import Mathlib.Tactic

/-! # Data types of the bridge driver's interface (`vmebus.h`, `tsi148.h`)

`unsigned int` and the enumerations are 32-bit words: a request comes from user space, so an
enumeration field may hold any word and the code's own checks decide what is accepted. An `int`
that is only an index or a return code is an `Int`.
-/
namespace HtDrivers.Vmebridge
set_option autoImplicit false

abbrev U32 := BitVec 32

/-- Named here, so that every test of a modifier against a list finds the same instance. -/
instance instLawfulBEqU32 : LawfulBEq U32 := inferInstance

/-! ## Return codes -/

def EINTR : Int := 4
def ENOMEM : Int := 12
def EBUSY : Int := 16
def EINVAL : Int := 22
def EDEADLK : Int := 35
def ERESTARTSYS : Int := 512

/-! ## `enum vme_address_modifier` -/

def vmeA64Mblt : U32 := 0x00
def vmeA64Sct : U32 := 0x01
def vmeA64Blt : U32 := 0x03
def vmeA64Lck : U32 := 0x04
def vmeA32Lck : U32 := 0x05
def vmeA32UserMblt : U32 := 0x08
def vmeA32UserDataSct : U32 := 0x09
def vmeA32UserPrgSct : U32 := 0x0a
def vmeA32UserBlt : U32 := 0x0b
def vmeA32SupMblt : U32 := 0x0c
def vmeA32SupDataSct : U32 := 0x0d
def vmeA32SupPrgSct : U32 := 0x0e
def vmeA32SupBlt : U32 := 0x0f
def vme2e6U : U32 := 0x20
def vmeA16User : U32 := 0x29
def vmeA16Lck : U32 := 0x2c
def vmeA16Sup : U32 := 0x2d
def vmeCrCsr : U32 := 0x2f
def vmeA40Sct : U32 := 0x34
def vmeA40Lck : U32 := 0x35
def vmeA40Blt : U32 := 0x37
def vmeA24UserMblt : U32 := 0x38
def vmeA24UserDataSct : U32 := 0x39
def vmeA24UserPrgSct : U32 := 0x3a
def vmeA24UserBlt : U32 := 0x3b
def vmeA24SupMblt : U32 := 0x3c
def vmeA24SupDataSct : U32 := 0x3d
def vmeA24SupPrgSct : U32 := 0x3e
def vmeA24SupBlt : U32 := 0x3f

/-! ## The other enumerations -/

def vmeD16 : U32 := 16
def vmeD32 : U32 := 32

def vmeSst160 : U32 := 0
def vmeSst267 : U32 := 1
def vmeSst320 : U32 := 2

def vmeDmaToDevice : U32 := 1
def vmeDmaFromDevice : U32 := 2

def vmeDmaBsize4096 : U32 := 7
def vmeDmaBackoff64 : U32 := 7

/-! ## Descriptors -/

/-- `struct vme_mapping`: a hardware window, or a logical mapping on top of one. -/
structure VmeMapping where
  windowNum : Int
  kernelVa : U32
  userVa : U32
  fd : Int
  windowEnabled : U32
  dataWidth : U32
  am : U32
  readPrefetchEnabled : U32
  readPrefetchSize : U32
  v2esstMode : U32
  bcastSelect : U32
  pciAddru : U32
  pciAddrl : U32
  sizeu : U32
  sizel : U32
  vmeAddru : U32
  vmeAddrl : U32
  deriving DecidableEq, Repr

/-- `struct vme_dma_attr`: one end of a transfer. -/
structure VmeDmaAttr where
  dataWidth : U32
  am : U32
  v2esstMode : U32
  bcastSelect : U32
  addru : U32
  addrl : U32
  deriving DecidableEq, Repr

structure VmeDmaCtrl where
  vmeBlockSize : U32
  vmeBackoffTime : U32
  pciBlockSize : U32
  pciBackoffTime : U32
  deriving DecidableEq, Repr

/-- `struct vme_dma`: a transfer request. -/
structure VmeDma where
  status : U32
  length : U32
  novmeinc : U32
  dir : U32
  src : VmeDmaAttr
  dst : VmeDmaAttr
  ctrl : VmeDmaCtrl
  deriving DecidableEq, Repr

/-- The two directions `__vme_do_dma` lets through. -/
def ValidDir (desc : VmeDma) : Prop := desc.dir = vmeDmaToDevice ∨ desc.dir = vmeDmaFromDevice

instance (desc : VmeDma) : Decidable (ValidDir desc) := inferInstanceAs (Decidable (_ ∨ _))

end HtDrivers.Vmebridge
