import HtDrivers.Vmebridge.WindowContain

/-! # Reading the attributes of a window back (`tsi148_get_window_attr`, `vme_get_window_attr`)

`vme_get_window_attr` copies the stored descriptor and overwrites what it can derive from the registers.
The attributes and the two addresses come back as they were written. The size does not: the lower end
register holds the last 64K block, and the reader subtracts the start from it without adding the block
back.
-/
namespace HtDrivers.Vmebridge
open HtDrivers.Lib.Words
set_option autoImplicit false

/-- The branches of `attr_to_am` below one address size and one user access. -/
def transferAm (transferMode dataAccess data prg blt mblt : U32) : Option U32 :=
  if transferMode = tsi148Sct then some (if dataAccess = tsi148Data then data else prg)
  else if transferMode = tsi148Blt then some blt
  else if transferMode = tsi148Mblt then some mblt
  else none

/-- `none` when the modifier is left at -1. -/
def attrToAm (addrSize transferMode userAccess dataAccess : U32) : Option U32 :=
  if addrSize = tsi148A16 then some (if userAccess = tsi148User then vmeA16User else vmeA16Sup)
  else if addrSize = tsi148A24 then
    if userAccess = tsi148User then
      transferAm transferMode dataAccess vmeA24UserDataSct vmeA24UserPrgSct vmeA24UserBlt vmeA24UserMblt
    else if userAccess = tsi148Super then
      transferAm transferMode dataAccess vmeA24SupDataSct vmeA24SupPrgSct vmeA24SupBlt vmeA24SupMblt
    else none
  else if addrSize = tsi148A32 then
    if userAccess = tsi148User then
      transferAm transferMode dataAccess vmeA32UserDataSct vmeA32UserPrgSct vmeA32UserBlt vmeA32UserMblt
    else if userAccess = tsi148Super then
      transferAm transferMode dataAccess vmeA32SupDataSct vmeA32SupPrgSct vmeA32SupBlt vmeA32SupMblt
    else none
  else if addrSize = tsi148A64 then transferAm transferMode dataAccess vmeA64Sct vmeA64Sct vmeA64Blt vmeA64Mblt
  else if addrSize = tsi148Crcsr then some vmeCrCsr
  else none

def tsi148LcsrOtatDbw16 : U32 := 0#32 <<< 6
def tsi148LcsrOtatDbw32 : U32 := 1#32 <<< 6

def otatAddrSize (otat : U32) : U32 := (otat &&& amodeM) >>> 0

def otatAm (otat : U32) : Option U32 :=
  attrToAm (otatAddrSize otat) ((otat &&& tmM) >>> tmShift)
    (if otat &&& attrSup ≠ 0 then tsi148Super else tsi148User)
    (if otat &&& attrPgm ≠ 0 then tsi148Prog else tsi148Data)

/-- The field is shifted down and compared with constants that are not, so that the second case is never
taken. -/
def otatDataWidth (otat dataWidth : U32) : U32 :=
  let dbw := (otat &&& dbwM) >>> dbwShift
  if dbw = tsi148LcsrOtatDbw16 then vmeD16 else if dbw = tsi148LcsrOtatDbw32 then vmeD32 else dataWidth

def tsi148GetWindowAttr (desc : VmeMapping) (trans : Otrans) : VmeMapping :=
  { desc with
    windowEnabled := if trans.otat &&& tsi148LcsrOtatEn ≠ 0 then 1 else desc.windowEnabled
    readPrefetchEnabled := if trans.otat &&& tsi148LcsrOtatMrpfd = 0 then 1 else desc.readPrefetchEnabled
    readPrefetchSize := (trans.otat &&& tsi148LcsrOtatPfsM) >>> tsi148LcsrOtatPfsShift
    v2esstMode := (trans.otat &&& tsi148LcsrOtat2eSstmM) >>> sstmShift
    dataWidth := otatDataWidth trans.otat desc.dataWidth
    bcastSelect := trans.otbs
    am := (otatAm trans.otat).getD (-1)
    pciAddrl := trans.otsal
    pciAddru := trans.otsau
    sizel := trans.oteal - trans.otsal
    sizeu := sub64hi trans.oteal trans.oteau trans.otsal trans.otsau
    vmeAddrl := trans.otofl + trans.otsal
    vmeAddru :=
      if otatAddrSize trans.otat = tsi148A64 then add64hi trans.otofl trans.otofu trans.otsal trans.otsau else 0 }

/-- The return value and the descriptor; `lock` says whether the mutex of the window was obtained. -/
def vmeGetWindowAttr (lock : WindowNum → Bool) (t : WindowTable) (desc : VmeMapping) : Int × VmeMapping :=
  match windowIndex desc.windowNum with
  | none => (-EINVAL, desc)
  | some i => if lock i then (0, tsi148GetWindowAttr (t.window i).desc (t.otrans i)) else (-ERESTARTSYS, desc)

/-- What a reader of the attributes should get of the stored descriptor. -/
structure RoundTrips (stored read : VmeMapping) : Prop where
  am : read.am = stored.am
  dataWidth : read.dataWidth = stored.dataWidth
  v2esstMode : read.v2esstMode = stored.v2esstMode
  windowEnabled : read.windowEnabled = stored.windowEnabled
  readPrefetchEnabled : read.readPrefetchEnabled = stored.readPrefetchEnabled
  bcastSelect : read.bcastSelect = stored.bcastSelect &&& tsi148LcsrOtbsM
  pciAddr : read.pciAddr = stored.pciAddr
  vmeAddr : read.vmeAddr = stored.vmeAddr
  size : read.size = stored.size

/-! ## The attribute word -/

section Word
variable {v2esstMode dataWidth am attrs : U32}

/-- The enable and prefetch bits lie outside the fields of the attributes. -/
theorem tsi148Otat_field (attrs : U32) (desc : VmeMapping) {m : U32} (hen : tsi148LcsrOtatEn &&& m = 0)
    (hmrpfd : tsi148LcsrOtatMrpfd &&& m = 0) (hpfs : tsi148LcsrOtatPfsM &&& m = 0) :
    tsi148Otat attrs desc &&& m = attrs &&& m := by
  ext i hi
  have hbit : ∀ w : U32, w &&& m = 0 → (w[i] && m[i]) = false := by
    intro w hw
    have hbits : (w &&& m)[i] = (0#32)[i] := congrArg (fun x : U32 => x[i]) hw
    rwa [BitVec.getElem_and, BitVec.getElem_zero] at hbits
  have hen := hbit _ hen
  have hmrpfd := hbit _ hmrpfd
  have hpfs := hbit _ hpfs
  unfold tsi148Otat
  simp only
  split
  · simp only [BitVec.getElem_and, BitVec.getElem_or, BitVec.getElem_not]
    cases hm : m[i] <;> simp_all
  · simp only [BitVec.getElem_and, BitVec.getElem_or]
    cases hm : m[i] <;> simp_all

/-- What the reader gets from an attribute word: the modifier, the 2eSST rate and the data width. -/
def otatFields (dataWidth otat : U32) : Option U32 × U32 × U32 :=
  (otatAm otat, (otat &&& tsi148LcsrOtat2eSstmM) >>> sstmShift, otatDataWidth otat dataWidth)

/-- Every modifier of the table, with every width and rate, is read back from the word it is encoded in. -/
theorem setupWindowAttributes_decode :
    ([vmeSst160, vmeSst267, vmeSst320].all fun v => [vmeD16, vmeD32].all fun dw =>
      (amAttrTable.map Prod.fst).all fun a =>
        (tsi148SetupWindowAttributes v dw a).map (otatFields dw) == some (some a, v, dw)) = true := by
  decide

theorem amToAttr_mem (h : (amToAttr am).isSome) : am ∈ amAttrTable.map Prod.fst := by
  obtain ⟨a, ha⟩ := Option.isSome_iff_exists.mp h
  obtain ⟨l₁, l₂, htable, -⟩ := List.lookup_eq_some_iff.mp ha
  rw [htable]
  simp

theorem tsi148SetupWindowAttributes_decode
    (h : tsi148SetupWindowAttributes v2esstMode dataWidth am = some attrs) :
    otatFields dataWidth attrs = (some am, v2esstMode, dataWidth) := by
  have hsome : (tsi148SetupWindowAttributes v2esstMode dataWidth am).isSome := by rw [h]; rfl
  obtain ⟨hsst, hdw, ham⟩ := (setupAttributes_isSome _ _ _ _).mp hsome
  have hrates := List.all_eq_true.mp setupWindowAttributes_decode v2esstMode (by simpa using hsst)
  have hwidths := List.all_eq_true.mp hrates dataWidth (by simpa using hdw)
  have hdecode := List.all_eq_true.mp hwidths am (amToAttr_mem ham)
  rw [h] at hdecode
  exact Option.some.inj (eq_of_beq hdecode)

theorem otatFields_tsi148Otat (desc : VmeMapping) :
    otatFields dataWidth (tsi148Otat attrs desc) = otatFields dataWidth attrs := by
  unfold otatFields otatAm otatAddrSize otatDataWidth
  rw [tsi148Otat_field attrs desc (m := amodeM) (by decide) (by decide) (by decide),
    tsi148Otat_field attrs desc (m := tmM) (by decide) (by decide) (by decide),
    tsi148Otat_field attrs desc (m := attrSup) (by decide) (by decide) (by decide),
    tsi148Otat_field attrs desc (m := attrPgm) (by decide) (by decide) (by decide),
    tsi148Otat_field attrs desc (m := dbwM) (by decide) (by decide) (by decide),
    tsi148Otat_field attrs desc (m := tsi148LcsrOtat2eSstmM) (by decide) (by decide) (by decide)]

end Word

/-! ## The registers of a window -/

section Registers
variable {desc : VmeMapping} {attrs : U32}

theorem tsi148WindowRegs_enabled_bit (attrs : U32) (desc : VmeMapping) :
    (tsi148WindowRegs attrs desc).otat &&& tsi148LcsrOtatEn ≠ 0 :=
    of_decide_eq_true (tsi148WindowRegs_enabled attrs desc)

theorem tsi148WindowRegs_otsal (ha : desc.Aligned) : (tsi148WindowRegs attrs desc).otsal = desc.pciAddrl := by
  have hstart : pair (tsi148WindowRegs attrs desc).otsau (tsi148WindowRegs attrs desc).otsal = desc.pciAddr :=
    tsi148WindowRegs_start ha
  have hnat := congrArg BitVec.toNat hstart
  rw [toNat_pair, toNat_pciAddr] at hnat
  apply BitVec.eq_of_toNat_eq
  change 2^32 * desc.pciAddru.toNat + _ = _ at hnat
  omega

theorem tsi148WindowRegs_oteal (ha : desc.Aligned) :
    (tsi148WindowRegs attrs desc).oteal = desc.pciAddrl + desc.sizel - 0x10000 := by
  have hpci := toNat_mod_of_aligned ha.1
  have hsize := toNat_mod_of_aligned ha.2.2
  have hlow : ((desc.pciAddrl + desc.sizel - 1) &&& ~~~0xffff).toNat =
      65536 * ((desc.pciAddrl + desc.sizel - 1).toNat / 65536) := toNat_and_high (k := 16) _ 0xffff rfl
  apply BitVec.eq_of_toNat_eq
  change ((desc.pciAddrl + desc.sizel - 1) &&& ~~~0xffff).toNat = _
  rw [hlow, BitVec.toNat_sub, BitVec.toNat_sub, BitVec.toNat_add]
  change 65536 * (((2^32 - 1 + _) % 2^32) / 65536) = (2^32 - 65536 + _) % 2^32
  omega

/-- What is read back of an aligned descriptor. -/
theorem tsi148GetWindowAttr_windowRegs (ha : desc.Aligned) {stored : VmeMapping}
    (hdw : stored.dataWidth = desc.dataWidth)
    (hattrs : tsi148SetupWindowAttributes desc.v2esstMode desc.dataWidth desc.am = some attrs) :
    let read := tsi148GetWindowAttr stored (tsi148WindowRegs attrs desc)
    read.am = desc.am ∧ read.dataWidth = desc.dataWidth ∧ read.v2esstMode = desc.v2esstMode ∧
      read.windowEnabled = 1 ∧ read.bcastSelect = desc.bcastSelect &&& tsi148LcsrOtbsM ∧
      read.pciAddr = desc.pciAddr ∧ read.vmeAddrl = desc.vmeAddrl ∧ read.sizel = desc.sizel - 0x10000 := by
  have hfields : otatFields desc.dataWidth (tsi148Otat attrs desc) = (some desc.am, desc.v2esstMode, desc.dataWidth) :=
    (otatFields_tsi148Otat desc).trans (tsi148SetupWindowAttributes_decode hattrs)
  obtain ⟨ham, hrest⟩ := Prod.mk.inj hfields
  obtain ⟨hsst, hwidth⟩ := Prod.mk.inj hrest
  have hstart : (tsi148WindowRegs attrs desc).start = desc.pciAddr := tsi148WindowRegs_start ha
  refine ⟨?_, ?_, hsst, if_pos (tsi148WindowRegs_enabled_bit attrs desc), rfl, hstart, ?_, ?_⟩
  · change (otatAm (tsi148Otat attrs desc)).getD (-1) = _
    rw [ham]
    rfl
  · change otatDataWidth (tsi148Otat attrs desc) stored.dataWidth = _
    rw [hdw]
    exact hwidth
  · change desc.vmeAddrl - desc.pciAddrl + (tsi148WindowRegs attrs desc).otsal = _
    rw [tsi148WindowRegs_otsal ha]
    grind
  · change (tsi148WindowRegs attrs desc).oteal - (tsi148WindowRegs attrs desc).otsal = _
    rw [tsi148WindowRegs_oteal ha, tsi148WindowRegs_otsal ha]
    grind

end Registers

/-! ## The round trip -/

/-- The size that is read back of a new window is one block short, so that no descriptor comes back as
it was stored. -/
theorem vmeGetWindowAttr_never_roundTrips {env : WindowEnv} {t : WindowTable} {desc query : VmeMapping}
    (lock : WindowNum → Bool) {i : WindowNum} (hok : (vmeCreateWindow env t desc).1 = 0)
    (hi : windowIndex desc.windowNum = some i) (hquery : query.windowNum = desc.windowNum) (hlock : lock i = true) :
    let t' := (vmeCreateWindow env t desc).2.2
    (vmeGetWindowAttr lock t' query).1 = 0 ∧
      (vmeGetWindowAttr lock t' query).2.sizel = (t'.window i).desc.sizel - 0x10000 ∧
      ¬ RoundTrips (t'.window i).desc (vmeGetWindowAttr lock t' query).2 := by
  rcases hcreate : vmeCreateWindow env t desc with ⟨rc, desc', t'⟩
  rw [hcreate] at hok
  obtain rfl : rc = 0 := hok
  have hnum : desc.windowNum = i.val := windowIndex_eq_some hi
  obtain ⟨-, -, -, hstored, hchip⟩ := vmeCreateWindow_created hnum hcreate
  obtain ⟨hvme, hsize⟩ := roundWindow_aligned desc
  have hround : tsi148RoundWindow (placed env.create (roundWindow desc)) = placed env.create (roundWindow desc) :=
    tsi148RoundWindow_aligned hvme hsize
  obtain ⟨hrc, -⟩ | ⟨-, hdesc, hpci, attrs, hattrs, hregs⟩ := tsi148CreateWindow_cases hchip
  · exact absurd hrc (by decide)
  rw [hround] at hdesc hregs
  have hread : vmeGetWindowAttr lock t' query = (0, tsi148GetWindowAttr (t'.window i).desc (t'.otrans i)) := by
    unfold vmeGetWindowAttr
    rw [hquery, hi]
    exact if_pos hlock
  have hdw : (t'.window i).desc.dataWidth = (placed env.create (roundWindow desc)).dataWidth := by
    rw [hstored, hdesc]
  obtain ⟨-, -, -, -, -, -, -, hshort⟩ := tsi148GetWindowAttr_windowRegs ⟨hpci, hvme, hsize⟩ hdw hattrs
  rw [← hregs] at hshort
  have hsizel : (t'.window i).desc.sizel = (placed env.create (roundWindow desc)).sizel := by
    rw [hstored, hdesc]
  simp only [hread]
  refine ⟨trivial, hshort.trans (by rw [hsizel]), fun hsame => ?_⟩
  have hnat := congrArg BitVec.toNat hsame.size
  rw [toNat_size, toNat_size, hshort, hsizel, BitVec.toNat_sub] at hnat
  change _ + (2^32 - 65536 + _) % 2^32 = _ at hnat
  omega

theorem vmeGetWindowAttr_never_roundTrips_first :
    ¬ RoundTrips ((vmeCreateWindow willingWindowEnv vmeWindowInit (windowAt 0 0x20000)).2.2.window 0).desc
      (vmeGetWindowAttr (fun _ => true) (vmeCreateWindow willingWindowEnv vmeWindowInit (windowAt 0 0x20000)).2.2
        (windowAt 0 0)).2 := by
  have hok : (vmeCreateWindow willingWindowEnv vmeWindowInit (windowAt 0 0x20000)).1 = 0 := by decide
  exact (vmeGetWindowAttr_never_roundTrips (fun _ => true) hok rfl rfl rfl).2.2

/-- A window of one block is reported with size 0. -/
theorem vmeGetWindowAttr_one_block :
    let t := (vmeCreateWindow willingWindowEnv vmeWindowInit (windowAt 0 0x10000)).2.2
    let read := vmeGetWindowAttr (fun _ => true) t (windowAt 0 0)
    (vmeCreateWindow willingWindowEnv vmeWindowInit (windowAt 0 0x10000)).1 = 0 ∧ read.1 = 0 ∧
      (t.window 0).desc.size = 0x10000 ∧ read.2.size = 0 ∧ ¬ RoundTrips (t.window 0).desc read.2 := by
  refine ⟨by decide, by decide, by decide, by decide, fun h => ?_⟩
  exact absurd h.size (by decide)

end HtDrivers.Vmebridge
