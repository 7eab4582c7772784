import HtDrivers.Vmebridge.Vmebus

/-! # Attribute words of the TSI148 (`tsi148.c`)

The chip encodes an address modifier in four fields. `amToAttr` is the translation table;
`setupAttributes` builds the word that the DMA source and destination registers and the outbound
window register share, up to the mask of the 2eSST rate.
-/
namespace HtDrivers.Vmebridge
set_option autoImplicit false

def tsi148A16 : U32 := 0
def tsi148A24 : U32 := 1
def tsi148A32 : U32 := 2
def tsi148A64 : U32 := 4
def tsi148Crcsr : U32 := 5

def tsi148User : U32 := 0
def tsi148Super : U32 := 1

def tsi148Data : U32 := 0
def tsi148Prog : U32 := 1

def tsi148Sct : U32 := 0
def tsi148Blt : U32 := 1
def tsi148Mblt : U32 := 2

def tsi148Dw16 : U32 := 0
def tsi148Dw32 : U32 := 1

/-- The four fields an address modifier is encoded in. -/
structure AmAttr where
  addrSize : U32
  transferMode : U32
  userAccess : U32
  dataAccess : U32
  deriving DecidableEq, Repr

/-- The cases of the switch of `am_to_attr`. -/
def amAttrTable : List (U32 × AmAttr) :=
  [ (vmeA16User, ⟨tsi148A16, tsi148Sct, tsi148User, tsi148Data⟩),
    (vmeA16Sup, ⟨tsi148A16, tsi148Sct, tsi148Super, tsi148Data⟩),
    (vmeA24UserMblt, ⟨tsi148A24, tsi148Mblt, tsi148User, tsi148Data⟩),
    (vmeA24UserDataSct, ⟨tsi148A24, tsi148Sct, tsi148User, tsi148Data⟩),
    (vmeA24UserPrgSct, ⟨tsi148A24, tsi148Sct, tsi148User, tsi148Prog⟩),
    (vmeA24UserBlt, ⟨tsi148A24, tsi148Blt, tsi148User, tsi148Data⟩),
    (vmeA24SupMblt, ⟨tsi148A24, tsi148Mblt, tsi148Super, tsi148Data⟩),
    (vmeA24SupDataSct, ⟨tsi148A24, tsi148Sct, tsi148Super, tsi148Data⟩),
    (vmeA24SupPrgSct, ⟨tsi148A24, tsi148Sct, tsi148Super, tsi148Prog⟩),
    (vmeA24SupBlt, ⟨tsi148A24, tsi148Blt, tsi148Super, tsi148Data⟩),
    (vmeA32UserMblt, ⟨tsi148A32, tsi148Mblt, tsi148User, tsi148Data⟩),
    (vmeA32UserDataSct, ⟨tsi148A32, tsi148Sct, tsi148User, tsi148Data⟩),
    (vmeA32UserPrgSct, ⟨tsi148A32, tsi148Sct, tsi148User, tsi148Prog⟩),
    (vmeA32UserBlt, ⟨tsi148A32, tsi148Blt, tsi148User, tsi148Data⟩),
    (vmeA32SupMblt, ⟨tsi148A32, tsi148Mblt, tsi148Super, tsi148Data⟩),
    (vmeA32SupDataSct, ⟨tsi148A32, tsi148Sct, tsi148Super, tsi148Data⟩),
    (vmeA32SupPrgSct, ⟨tsi148A32, tsi148Sct, tsi148Super, tsi148Prog⟩),
    (vmeA32SupBlt, ⟨tsi148A32, tsi148Blt, tsi148Super, tsi148Data⟩),
    (vmeA64Sct, ⟨tsi148A64, tsi148Sct, tsi148Super, tsi148Data⟩),
    (vmeA64Blt, ⟨tsi148A64, tsi148Blt, tsi148Super, tsi148Data⟩),
    (vmeA64Mblt, ⟨tsi148A64, tsi148Mblt, tsi148Super, tsi148Data⟩),
    (vmeCrCsr, ⟨tsi148Crcsr, tsi148Sct, tsi148User, tsi148Data⟩) ]

def amToAttr (am : U32) : Option AmAttr := amAttrTable.lookup am

def dbwShift : ℕ := 6
def dbwM : U32 := 3#32 <<< 6
def sstmShift : ℕ := 11
def tmShift : ℕ := 8
def tmM : U32 := 7#32 <<< 8
def attrSup : U32 := 1#32 <<< 5
def attrPgm : U32 := 1#32 <<< 4
def amodeM : U32 := 0xf

/-- The layout shared by `tsi148_setup_dma_attributes` and `tsi148_setup_window_attributes`; the two
differ in the mask of the 2eSST rate. `none` is the return of `-EINVAL`.

The switches over the transfer mode, the access types and the address size accept every value that
`am_to_attr` produces, so their default branches are never taken and are not repeated here. -/
def setupAttributes (sstmM v2esstMode dataWidth am : U32) : Option U32 :=
  if v2esstMode = vmeSst160 ∨ v2esstMode = vmeSst267 ∨ v2esstMode = vmeSst320 then
    let attrs := (v2esstMode <<< sstmShift) &&& sstmM
    if dataWidth = vmeD16 ∨ dataWidth = vmeD32 then
      let dw := if dataWidth = vmeD16 then tsi148Dw16 else tsi148Dw32
      let attrs := attrs ||| ((dw <<< dbwShift) &&& dbwM)
      match amToAttr am with
      | none => none
      | some a =>
        let attrs := attrs ||| ((a.transferMode <<< tmShift) &&& tmM)
        let attrs := if a.userAccess = tsi148Super then attrs ||| attrSup else attrs
        let attrs := if a.dataAccess = tsi148Prog then attrs ||| attrPgm else attrs
        some (attrs ||| (a.addrSize &&& amodeM))
    else none
  else none

def tsi148LcsrDsat2eSstmM : U32 := 3#32 <<< 11
def tsi148LcsrOtat2eSstmM : U32 := 7#32 <<< 11

def tsi148SetupDmaAttributes (v2esstMode dataWidth am : U32) : Option U32 :=
  setupAttributes tsi148LcsrDsat2eSstmM v2esstMode dataWidth am

def tsi148SetupWindowAttributes (v2esstMode dataWidth am : U32) : Option U32 :=
  setupAttributes tsi148LcsrOtat2eSstmM v2esstMode dataWidth am

/-- What both attribute functions accept. -/
def AttrsValid (v2esstMode dataWidth am : U32) : Prop :=
  (v2esstMode = vmeSst160 ∨ v2esstMode = vmeSst267 ∨ v2esstMode = vmeSst320) ∧
  (dataWidth = vmeD16 ∨ dataWidth = vmeD32) ∧ (amToAttr am).isSome

instance (v2esstMode dataWidth am : U32) : Decidable (AttrsValid v2esstMode dataWidth am) := by
  unfold AttrsValid
  infer_instance

theorem setupAttributes_isSome (sstmM v2esstMode dataWidth am : U32) :
    (setupAttributes sstmM v2esstMode dataWidth am).isSome ↔ AttrsValid v2esstMode dataWidth am := by
  unfold setupAttributes AttrsValid
  by_cases hsst : v2esstMode = vmeSst160 ∨ v2esstMode = vmeSst267 ∨ v2esstMode = vmeSst320
  · by_cases hdw : dataWidth = vmeD16 ∨ dataWidth = vmeD32
    · simp only [hsst, hdw, if_true, true_and]
      cases amToAttr am <;> simp
    · simp [hsst, hdw]
  · simp [hsst]

end HtDrivers.Vmebridge
