import HtDrivers.Vmod.CarrierRegister
import HtDrivers.Vmod.Vmodio

/-! The parameters that the drivers of the VMOD boards share (`lunargs.c`): arrays of the same length, whose entries
are checked one after the other into the table of the boards. -/
namespace HtDrivers.Vmod
set_option autoImplicit false

def vmodMaxBoards : ℕ := 64

/-- A `gas_t`: the address space of a board on a carrier, if it has one. -/
abbrev GetAddressSpace : Type := ℤ → ℤ → ℤ → Option CarrierAs

/-- The parameter vectors of `insmod`. -/
structure VmodParams where
  lun : List ℤ
  carrier : List (List UInt8)
  carrierNumber : List ℤ
  slot : List ℤ

structure VmodDev where
  lun : ℤ
  carrierName : List UInt8
  carrierLun : ℤ
  slot : ℤ
  address : BitVec 64
  isBigEndian : Bool

section Params
variable {R : Type} (register : CarrierRegister GetAddressSpace R)

def setModuleParams (lun : ℤ) (cname : List UInt8) (carrierLun slot : ℤ) : Option VmodDev :=
  if lun < 0 then none
  else match carrierAsEntry register cname with
    | none => none
    | some getAddressSpace =>
      match getAddressSpace carrierLun slot 1 with
      | none => none
      | some asp => some ⟨lun, cname, carrierLun, slot, asp.address, asp.isBigEndian⟩

/-- The loop of `read_params` over what is left of the vectors. -/
def readModules : List ℤ → List (List UInt8) → List ℤ → List ℤ → Option (List VmodDev)
  | lun :: luns, cname :: cnames, carrierLun :: carrierLuns, slot :: slots =>
    match setModuleParams register lun cname carrierLun slot with
    | none => none
    | some mod => (readModules luns cnames carrierLuns slots).map (mod :: ·)
  | _, _, _, _ => some []

/-- The first `num_modules` entries of the table. -/
def readParams (params : VmodParams) : Option (List VmodDev) :=
  if params.lun.length ≠ params.carrier.length ∨ params.lun.length ≠ params.carrierNumber.length ∨
      params.lun.length ≠ params.slot.length ∨ vmodMaxBoards ≤ params.lun.length then none
  else readModules register params.lun params.carrier params.carrierNumber params.slot

end Params

def lunToIndex (devs : List VmodDev) (lun : ℤ) : ℤ :=
  match devs.findIdx? fun mod => lun = mod.lun with
  | some i => i
  | none => -1

section Read
variable {R : Type} {register : CarrierRegister GetAddressSpace R} {params : VmodParams} {devs : List VmodDev} {lun : ℤ}

theorem setModuleParams_lun {cname : List UInt8} {carrierLun slot : ℤ} {mod : VmodDev}
    (h : setModuleParams register lun cname carrierLun slot = some mod) : 0 ≤ mod.lun := by
  unfold setModuleParams at h
  by_cases hlun : lun < 0
  · rw [if_pos hlun] at h
    cases h
  · rw [if_neg hlun] at h
    cases hcarrier : carrierAsEntry register cname with
    | none =>
      rw [hcarrier] at h
      cases h
    | some getAddressSpace =>
      rw [hcarrier] at h
      dsimp only at h
      cases hspace : getAddressSpace carrierLun slot 1 with
      | none =>
        rw [hspace] at h
        cases h
      | some asp =>
        rw [hspace] at h
        rw [← Option.some.inj h]
        exact not_lt.mp hlun

theorem readModules_spec {luns : List ℤ} {cnames : List (List UInt8)} {carrierLuns slots : List ℤ}
    (h : readModules register luns cnames carrierLuns slots = some devs) :
    devs.length ≤ luns.length ∧ ∀ mod ∈ devs, 0 ≤ mod.lun := by
  induction luns, cnames, carrierLuns, slots using readModules.induct register generalizing devs with
  | case1 lun luns cname cnames carrierLun carrierLuns slot slots hmod =>
    rw [readModules, hmod] at h
    cases h
  | case2 lun luns cname cnames carrierLun carrierLuns slot slots mod hmod ih =>
    rw [readModules, hmod] at h
    obtain ⟨rest, hrest, rfl⟩ := Option.map_eq_some_iff.mp h
    obtain ⟨hlength, hluns⟩ := ih hrest
    refine ⟨Nat.succ_le_succ hlength, fun m hm => ?_⟩
    obtain rfl | hm := List.mem_cons.mp hm
    · exact setModuleParams_lun hmod
    · exact hluns m hm
  | case3 luns cnames carrierLuns slots hend =>
    rw [readModules] at h
    · rw [← Option.some.inj h]
      exact ⟨Nat.zero_le _, nofun⟩
    · exact hend

theorem readParams_spec (h : readParams register params = some devs) :
    devs.length < vmodMaxBoards ∧ ∀ mod ∈ devs, 0 ≤ mod.lun := by
  unfold readParams at h
  split at h
  · cases h
  · rename_i hlength
    obtain ⟨hle, hluns⟩ := readModules_spec h
    exact ⟨by omega, hluns⟩

theorem lunToIndex_of_mem (h : ∃ mod ∈ devs, mod.lun = lun) :
    ∃ i mod, lunToIndex devs lun = (i : ℕ) ∧ devs[i]? = some mod ∧ mod.lun = lun := by
  obtain ⟨mod, hmem, hlun⟩ := h
  have hexists : ∃ mod, mod ∈ devs ∧ decide (lun = mod.lun) = true := ⟨mod, hmem, decide_eq_true hlun.symm⟩
  have hfound := List.findIdx?_eq_some_of_exists hexists
  obtain ⟨hi, hp, -⟩ := List.findIdx?_eq_some_iff_getElem.mp hfound
  refine ⟨_, _, ?_, List.getElem?_eq_getElem hi, (of_decide_eq_true hp).symm⟩
  unfold lunToIndex
  rw [hfound]

theorem lunToIndex_of_not_mem (h : ¬ ∃ mod ∈ devs, mod.lun = lun) : lunToIndex devs lun = -1 := by
  have hnone : (devs.findIdx? fun mod => lun = mod.lun) = none := by
    rw [List.findIdx?_eq_none_iff]
    intro mod hmem
    exact decide_eq_false fun hlun => h ⟨mod, hmem, hlun.symm⟩
  unfold lunToIndex
  rw [hnone]

end Read

end HtDrivers.Vmod
