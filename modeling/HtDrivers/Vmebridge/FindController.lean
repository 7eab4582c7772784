import HtDrivers.Vmebridge.WindowMmap

/-! # The request of `find_controller` (`libvmebus.c`)

The emulation of the CES call aligns the address and the length to 64K, one without regard to the other. `unsigned
long` has `w` bits, and pointers 32 as in the descriptor.
-/
namespace HtDrivers.Vmebridge
open HtDrivers.Lib.Words
set_option autoImplicit false

/-- `pdparam_master`; the descriptor is what `sgmin` points to. -/
structure PdparamMaster (w : ℕ) where
  rdpref : BitVec w
  sgmin : Option VmeMapping

/-- What the calls that `find_controller` makes give. -/
structure ControllerEnv where
  calloc : Bool
  openMwindow : Int
  /-- The flag, where it can be read. -/
  getCreateOnFindFail : Option U32
  setCreateOnFindFail : Bool
  findMapping : VmeMapping → Option VmeMapping
  mmap : U32 → U32 → Option U32

section Controller
variable {w : ℕ}

def mask64K : BitVec w := BitVec.ofNat w 0xffff

/-- The length that is asked for; the message announces `(len + 0x10000) & ~0xffff`. -/
def alignLen (len : BitVec w) : BitVec w := if len &&& mask64K ≠ 0 then len &&& ~~~mask64K else len

def alignVmeaddr (vmeaddr : BitVec w) : BitVec w :=
  if vmeaddr &&& mask64K ≠ 0 then vmeaddr &&& ~~~mask64K else vmeaddr

/-- The widths that are supported. -/
def controllerWidth (size : BitVec w) : Option U32 :=
  if size = BitVec.ofNat w 2 then some vmeD16 else if size = BitVec.ofNat w 4 then some vmeD32 else none

/-- The descriptor for `VME_IOCTL_FIND_MAPPING`, but for the descriptor of the file. -/
def controllerDesc (vmeaddr len am size : BitVec w) (param : PdparamMaster w) : Option VmeMapping :=
  (controllerWidth size).map fun width =>
    { zeroMapping with
      am := am.setWidth 32
      readPrefetchEnabled := if param.rdpref ≠ 0 then 1 else 0
      dataWidth := width
      sizel := (alignLen len).setWidth 32
      vmeAddrl := (alignVmeaddr vmeaddr).setWidth 32 }

/-- A call that succeeds: what the driver was asked to map, the address, and the parameters. -/
structure Controller (w : ℕ) where
  asked : VmeMapping
  userVa : U32
  param : PdparamMaster w

def findController (env : ControllerEnv) (vmeaddr len am _offset size : BitVec w) (param : PdparamMaster w) :
    Option (Controller w) :=
  if env.calloc then
    match controllerDesc vmeaddr len am size param with
    | none => none
    | some desc =>
      if env.openMwindow < 0 then none
      else
        let desc := { desc with fd := env.openMwindow }
        if env.getCreateOnFindFail.isSome ∧ env.setCreateOnFindFail = true then
          match env.findMapping desc with
          | none => none
          | some found =>
            match vmeMmap env.mmap found with
            | none => none
            | some mapped => some ⟨desc, mapped.userVa, { param with sgmin := some mapped }⟩
        else none
  else none

/-- The mapped interval contains the one of the caller. -/
def CoversRequest (desc : VmeMapping) (vmeaddr len : BitVec w) : Prop :=
  desc.vmeAddrl.toNat ≤ vmeaddr.toNat ∧
    vmeaddr.toNat + len.toNat ≤ desc.vmeAddrl.toNat + desc.sizel.toNat

variable {vmeaddr len am offset size x : BitVec w} {env : ControllerEnv} {param : PdparamMaster w} {c : Controller w}

theorem toNat_mask64K (hw : 32 ≤ w) : (mask64K : BitVec w).toNat = 2 ^ 16 - 1 := by
  have hlt : 2 ^ 32 ≤ 2 ^ w := Nat.pow_le_pow_right (by decide) hw
  rw [mask64K, BitVec.toNat_ofNat, Nat.mod_eq_of_lt (by omega)]
  rfl

theorem toNat_align (hw : 32 ≤ w) (x : BitVec w) :
    (if x &&& mask64K ≠ 0 then x &&& ~~~mask64K else x).toNat = 0x10000 * (x.toNat / 0x10000) := by
  split
  · exact toNat_and_high x mask64K (toNat_mask64K hw)
  · rename_i hlow
    have hzero : (x &&& mask64K).toNat = 0 := by
      rw [not_not.mp hlow]
      exact BitVec.toNat_zero
    rw [toNat_and_low x mask64K (toNat_mask64K hw)] at hzero
    omega

theorem findController_asked (h : findController env vmeaddr len am offset size param = some c) :
    c.asked.vmeAddrl = (alignVmeaddr vmeaddr).setWidth 32 ∧ c.asked.sizel = (alignLen len).setWidth 32 := by
  unfold findController at h
  split at h
  · split at h
    · cases h
    · rename_i desc hdesc
      split at h
      · cases h
      · simp only at h
        split at h
        · split at h
          · cases h
          · split at h
            · cases h
            · obtain ⟨width, -, rfl⟩ := Option.map_eq_some_iff.mp hdesc
              cases h
              exact ⟨rfl, rfl⟩
        · cases h
  · cases h

/-- The interval is covered only where nothing is rounded away. -/
theorem findController_covers_iff {w : ℕ} (hw : 32 ≤ w) (env : ControllerEnv) (vmeaddr len am offset size : BitVec w)
    (param : PdparamMaster w) (c : Controller w) (hlen : 0 < len.toNat)
    (hrange : vmeaddr.toNat + len.toNat ≤ 2 ^ 32)
    (hfound : findController env vmeaddr len am offset size param = some c) :
    CoversRequest c.asked vmeaddr len ↔
      vmeaddr.toNat % 0x10000 = 0 ∧ len.toNat % 0x10000 = 0 ∧ len.toNat < 2 ^ 32 := by
  obtain ⟨haddr, hsize⟩ := findController_asked hfound
  have haddr' : c.asked.vmeAddrl.toNat = 0x10000 * (vmeaddr.toNat / 0x10000) := by
    rw [haddr, BitVec.toNat_setWidth, alignVmeaddr, toNat_align hw]
    omega
  have hsize' : c.asked.sizel.toNat = 0x10000 * (len.toNat / 0x10000) % 2 ^ 32 := by
    rw [hsize, BitVec.toNat_setWidth, alignLen, toNat_align hw]
  rw [CoversRequest, haddr', hsize']
  omega

end Controller

/-! ## The driver at the other end -/

/-- The driver with an empty table of windows, for a file that can be mapped. -/
def willingController : ControllerEnv where
  calloc := true
  openMwindow := 3
  getCreateOnFindFail := some 0
  setCreateOnFindFail := true
  findMapping desc :=
    let r := vmeFindMapping willingWindowEnv (runWindowCalls []) desc true (some 3)
    if r.1 = 0 then some r.2.1 else none
  mmap _ _ := some 0x40000000

def noParam : PdparamMaster 32 := ⟨0, none⟩

/-- 128K at 64K. -/
theorem findController_covers_aligned : ∃ c,
    findController willingController 0x10000 0x20000 0x09 0 2 noParam = some c ∧
      CoversRequest c.asked (0x10000 : BitVec 32) 0x20000 := by
  have hsome : (findController willingController 0x10000 0x20000 0x09 0 2 noParam).isSome = true := by decide
  obtain ⟨c, hc⟩ := Option.isSome_iff_exists.mp hsome
  exact ⟨c, hc, (findController_covers_iff (by decide) willingController 0x10000 0x20000 0x09 0 2 noParam c (by decide)
    (by decide) hc).mpr (by decide)⟩

/-- 96K at 64K: the driver is asked for 64K. -/
theorem findController_loses_tail : ¬∀ (vmeaddr len am offset size : BitVec 32) (param : PdparamMaster 32)
    (c : Controller 32), 0 < len.toNat → vmeaddr.toNat + len.toNat ≤ 2 ^ 32 →
      findController willingController vmeaddr len am offset size param = some c →
        CoversRequest c.asked vmeaddr len := by
  intro h
  have hsome : (findController willingController 0x10000 0x18000 0x09 0 2 noParam).isSome = true := by decide
  obtain ⟨c, hc⟩ := Option.isSome_iff_exists.mp hsome
  have hcovers := h 0x10000 0x18000 0x09 0 2 noParam c (by decide) (by decide) hc
  obtain ⟨haddr, hsize⟩ := findController_asked hc
  rw [CoversRequest, haddr, hsize] at hcovers
  revert hcovers
  decide

end HtDrivers.Vmebridge
