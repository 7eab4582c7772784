import HtDrivers.InsLib.ConfigData
import HtDrivers.Lib.Numerals

/-! The attributes of the elements of an installation file (`libinst.c`). Every handler walks them with
`GetNextProp`, stores what it knows and counts the errors it reports; `w` is the width of an `unsigned long`. -/
namespace HtDrivers.InsLib
open HtDrivers.Lib.Numerals
set_option autoImplicit false

/-! ## Key words -/

inductive KeyWord where
  | empty | install | host | driver | name | drivergen | installDebugLevel | emulationFlag | comment | module
  | busType | logicalModuleNumber | extra | pci | busNumber | slotNumber | vendorId | deviceId | subvendorId
  | subdeviceId | carrier | drvrName | motherboardNumber | interrupt | vector | level | pciSpace | bar | endian
  | vmeSpace | modifier | dataWidth | windowSize | address | freeFlag | carrierSpace | vme | ignoreInstallErrors
  deriving DecidableEq, Repr

def keywords : List (String × KeyWord) :=
  [("empty", .empty), ("install", .install), ("host", .host), ("driver", .driver), ("name", .name),
    ("drivergen", .drivergen), ("install_debug_level", .installDebugLevel), ("emulation_flag", .emulationFlag),
    ("comment", .comment), ("module", .module), ("bus_type", .busType),
    ("logical_module_number", .logicalModuleNumber), ("extra", .extra), ("pci", .pci), ("bus_number", .busNumber),
    ("slot_number", .slotNumber), ("vendor_id", .vendorId), ("device_id", .deviceId),
    ("subvendor_id", .subvendorId), ("subdevice_id", .subdeviceId), ("carrier", .carrier),
    ("driver_name", .drvrName), ("motherboard_number", .motherboardNumber), ("interrupt", .interrupt),
    ("vector", .vector), ("level", .level), ("pci_space", .pciSpace), ("bar", .bar), ("endian", .endian),
    ("vme_space", .vmeSpace), ("modifier", .modifier), ("data_width", .dataWidth), ("window_size", .windowSize),
    ("address", .address), ("free_flag", .freeFlag), ("carrier_space", .carrierSpace), ("vme", .vme),
    ("ignore_install_errors", .ignoreInstallErrors)]

/-- A name that is no key word is `EMPTY`. -/
def lookUp (name : String) : KeyWord := (keywords.lookup name).getD .empty

/-! ## The attribute iterator -/

/-- An attribute has a text below it unless its value is empty. -/
structure XmlAttr where
  name : String
  children : Option Text
  deriving DecidableEq, Repr

/-- What `*pvalu` is after the call: the text of the attribute, or what it was. Before the first text it points
nowhere. -/
def getNextProp (prop : XmlAttr) (pvalu : Option Text) : Option Text := prop.children <|> pvalu

/-- The value of the numeral, and how many errors were reported. -/
def getNumber (w : ℕ) (txt : Text) : ℕ × ℕ :=
  (((strtoul w txt).1.setWidth 32).toNat, if (strtoul w txt).2 = txt then 1 else 0)

/-- `strncpy` into an array of `n` characters. -/
def strncpy (txt : Text) (n : ℕ) : Text := txt.take n

/-! ## Handlers -/

/-- What one attribute does: it is stored with some errors reported, its name is not known here, the element is
given up, or a pointer to nowhere is read. -/
inductive Put (D : Type) where
  | stored (d : D) (errors : ℕ)
  | unknown
  | giveUp
  | undefined

/-- What the handler returns, with the errors it reported. -/
inductive Outcome (D : Type) where
  | returned (desc : Option D) (errors : ℕ)
  | undefined

structure Handler (D : Type) where
  init : D
  put : KeyWord → Option Text → D → Put D
  /-- what is done at a name that is not known -/
  stop : D → ℕ → Outcome D
  /-- what is done after the last attribute -/
  finish : D → ℕ → Outcome D

variable {D : Type}

def attributes (h : Handler D) : Option Text → List XmlAttr → D → ℕ → Outcome D
  | _, [], d, errors => h.finish d errors
  | pvalu, prop :: rest, d, errors =>
    match h.put (lookUp prop.name) (getNextProp prop pvalu) d with
    | .stored d' e => attributes h (getNextProp prop pvalu) rest d' (errors + e)
    | .unknown => h.stop d errors
    | .giveUp => .returned none (errors + 1)
    | .undefined => .undefined

def Handler.parse (h : Handler D) (properties : List XmlAttr) : Outcome D := attributes h none properties h.init 0

/-- `pvalu` when the attributes have been walked: the last text read, that of the unknown name included. -/
def pvaluAfter (h : Handler D) : Option Text → List XmlAttr → D → Option Text
  | pvalu, [], _ => pvalu
  | pvalu, prop :: rest, d =>
    match h.put (lookUp prop.name) (getNextProp prop pvalu) d with
    | .stored d' _ => pvaluAfter h (getNextProp prop pvalu) rest d'
    | _ => getNextProp prop pvalu

/-- The value is read through `pvalu`. -/
def withValue (pvalu : Option Text) (f : Text → Put D) : Put D :=
  match pvalu with
  | some v => f v
  | none => .undefined

/-- `1` when the condition is reported as an error. -/
def report (c : Bool) : ℕ := if c then 1 else 0

variable (w : ℕ)

/-! ### `handle_driver_node` -/

def driverPut (pky : KeyWord) (pvalu : Option Text) (drvrd : InsLibDrvrDesc) : Put InsLibDrvrDesc :=
  match pky with
  | .name => withValue pvalu fun v => .stored { drvrd with drvrName := strncpy v insLibNameSize } 0
  | .comment => withValue pvalu fun v => .stored { drvrd with comment := strncpy v insLibCommentSize } 0
  | .installDebugLevel => withValue pvalu fun v =>
      .stored { drvrd with debugFlags := (getNumber w v).1 } (getNumber w v).2
  | .emulationFlag => withValue pvalu fun v =>
      .stored { drvrd with emulationFlags := (getNumber w v).1 } (getNumber w v).2
  | .drivergen => withValue pvalu fun v => .stored { drvrd with isdg := if v.head? = some 'y' then 1 else 0 } 0
  | _ => .unknown

def driverFinish (drvrd : InsLibDrvrDesc) (errors : ℕ) : Outcome InsLibDrvrDesc :=
  .returned (some drvrd) (errors + report (drvrd.drvrName.length < 1))

def handleDriverNode : Handler InsLibDrvrDesc where
  init := { drvrName := [], debugFlags := 0, emulationFlags := 0, moduleCount := 0, comment := [], isdg := -1 }
  put := driverPut w
  stop := driverFinish
  finish := driverFinish

/-! ### `handle_module_node` -/

/-- A module with the text its `Extra` points to. -/
structure ModuleParse where
  modld : InsLibModlDesc
  extra : Option Text
  deriving DecidableEq, Repr

def insLibMaxModules : ℕ := 16

def busTypeOf (v : Text) : Option InsLibBusType :=
  if v = "VME".toList then some .vme
  else if v = "PCI".toList then some .pci
  else if v = "PMC".toList then some .pmc
  else if v = "CAR".toList then some .carrier
  else if v = "MODULBUS".toList ∨ v = "IP".toList then some .carrier
  else none

def modulePut (pky : KeyWord) (pvalu : Option Text) (m : ModuleParse) : Put ModuleParse :=
  match pky with
  | .busType => withValue pvalu fun v =>
      match busTypeOf v with
      | some bus => .stored { m with modld := { m.modld with busType := bus } } 0
      | none => .stored m 1
  | .logicalModuleNumber => withValue pvalu fun v =>
      if v.length = 0 then .giveUp
      else .stored { m with modld := { m.modld with moduleNumber := (getNumber w v).1 } }
        ((getNumber w v).2 + report ((getNumber w v).1 > insLibMaxModules))
  | .extra => withValue pvalu fun v => .stored { m with extra := some v } 0
  | .comment => withValue pvalu fun v =>
      .stored { m with modld := { m.modld with comment := strncpy v insLibCommentSize } } 0
  | .ignoreInstallErrors => .stored { m with modld := { m.modld with ignoreErrors := 1 } } 0
  | .name => withValue pvalu fun v =>
      .stored { m with modld := { m.modld with moduleName := strncpy v insLibNameSize } } 0
  | _ => .unknown

def moduleFinish (m : ModuleParse) (errors : ℕ) : Outcome ModuleParse :=
  .returned (some m) (errors + report (m.modld.busType = .notSet))

def handleModuleNode : Handler ModuleParse where
  init :=
    { modld := { busType := .notSet, moduleNumber := 0, ignoreErrors := 0, comment := [], moduleName := [] }
      extra := none }
  put := modulePut w
  stop := moduleFinish
  finish := moduleFinish

/-! ### `handle_vme_space_node` -/

def vmeSpacePut (pky : KeyWord) (pvalu : Option Text) (vmeas : InsLibVmeAddressSpace) : Put InsLibVmeAddressSpace :=
  match pky with
  | .modifier => withValue pvalu fun v =>
      .stored { vmeas with addressModifier := (getNumber w v).1 }
        ((getNumber w v).2 + report ((getNumber w v).1 > 0xFF))
  | .dataWidth => withValue pvalu fun v =>
      .stored { vmeas with dataWidth := (getNumber w v).1 }
        ((getNumber w v).2 + report ((getNumber w v).1 ≠ 16 ∧ (getNumber w v).1 ≠ 32))
  | .windowSize => withValue pvalu fun v =>
      .stored { vmeas with windowSize := (getNumber w v).1 } (getNumber w v).2
  | .address => withValue pvalu fun v =>
      .stored { vmeas with baseAddress := (getNumber w v).1 } (getNumber w v).2
  | .freeFlag => withValue pvalu fun v =>
      .stored { vmeas with freeModifierFlag := (getNumber w v).1 } (getNumber w v).2
  | .comment => withValue pvalu fun v => .stored { vmeas with comment := strncpy v insLibCommentSize } 0
  | _ => .unknown

def vmeSpaceFinish (vmeas : InsLibVmeAddressSpace) (errors : ℕ) : Outcome InsLibVmeAddressSpace :=
  .returned (some vmeas) (errors + report (vmeas.addressModifier = 0) + report (vmeas.dataWidth = 0)
    + report (vmeas.windowSize = 0) + report (vmeas.baseAddress = 0))

def handleVmeSpaceNode : Handler InsLibVmeAddressSpace where
  init :=
    { mapped := 0, addressModifier := 0, windowSize := 0, dataWidth := 0, endian := .notSet, baseAddress := 0
      freeModifierFlag := 0, comment := [] }
  put := vmeSpacePut w
  stop := vmeSpaceFinish
  finish := vmeSpaceFinish

/-! ### `parse_pci_address_tag` -/

def pciPut (pky : KeyWord) (pvalu : Option Text) (pcima : InsLibPciModuleAddress) : Put InsLibPciModuleAddress :=
  match pky with
  | .busNumber => withValue pvalu fun v =>
      if (getNumber w v).1 > 16 then .giveUp
      else .stored { pcima with busNumber := (getNumber w v).1 } (getNumber w v).2
  | .slotNumber => withValue pvalu fun v =>
      if (getNumber w v).1 > 16 then .giveUp
      else .stored { pcima with slotNumber := (getNumber w v).1 } (getNumber w v).2
  | .vendorId => withValue pvalu fun v => .stored { pcima with vendorId := (getNumber w v).1 } (getNumber w v).2
  | .deviceId => withValue pvalu fun v => .stored { pcima with deviceId := (getNumber w v).1 } (getNumber w v).2
  | .subvendorId => withValue pvalu fun v =>
      .stored { pcima with subVendorId := (getNumber w v).1 } (getNumber w v).2
  | .subdeviceId => withValue pvalu fun v =>
      .stored { pcima with subDeviceId := (getNumber w v).1 } (getNumber w v).2
  | .comment => withValue pvalu fun v => .stored { pcima with comment := strncpy v insLibCommentSize } 0
  | _ => .unknown

/-- The checks after the loop, each of which gives the element up. -/
def pciFinish (pcima : InsLibPciModuleAddress) (errors : ℕ) : Outcome InsLibPciModuleAddress :=
  if pcima.busNumber = 0 ∨ pcima.slotNumber = 0 ∨ pcima.vendorId = 0 ∨ pcima.deviceId = 0 then
    .returned none (errors + 1)
  else .returned (some pcima) errors

/-- A name that is not known returns before the checks. -/
def pciStop (pcima : InsLibPciModuleAddress) (errors : ℕ) : Outcome InsLibPciModuleAddress :=
  .returned (some pcima) errors

def parsePciAddressTag : Handler InsLibPciModuleAddress where
  init :=
    { busNumber := 0, slotNumber := 0, vendorId := 0, deviceId := 0, subVendorId := 0, subDeviceId := 0
      comment := [] }
  put := pciPut w
  stop := pciStop
  finish := pciFinish

/-! ### `handle_install_node` -/

def installPut (pky : KeyWord) (pvalu : Option Text) (hostd : InsLibHostDesc) : Put InsLibHostDesc :=
  match pky with
  | .host => withValue pvalu fun v => .stored { hostd with hostName := strncpy v insLibNameSize } 0
  | .comment => withValue pvalu fun v => .stored { hostd with comment := strncpy v insLibCommentSize } 0
  | _ => .unknown

def installFinish (hostd : InsLibHostDesc) (errors : ℕ) : Outcome InsLibHostDesc :=
  .returned (some hostd) (errors + report (hostd.hostName.length = 0))

def handleInstallNode : Handler InsLibHostDesc where
  init := { hostName := [], comment := [] }
  put := installPut
  stop := installFinish
  finish := installFinish

/-! ### `parse_vme_address_tag` -/

def vmePut (pky : KeyWord) (pvalu : Option Text) (vmema : InsLibVmeModuleAddress) : Put InsLibVmeModuleAddress :=
  match pky with
  | .comment => withValue pvalu fun v => .stored { vmema with comment := strncpy v insLibCommentSize } 0
  | _ => .unknown

def vmeFinish (vmema : InsLibVmeModuleAddress) (errors : ℕ) : Outcome InsLibVmeModuleAddress :=
  .returned (some vmema) errors

def parseVmeAddressTag : Handler InsLibVmeModuleAddress where
  init := { comment := [] }
  put := vmePut
  stop := vmeFinish
  finish := vmeFinish

/-! ### `parse_car_address_tag` -/

def carPut (pky : KeyWord) (pvalu : Option Text) (carma : InsLibCarModuleAddress) : Put InsLibCarModuleAddress :=
  match pky with
  | .drvrName => withValue pvalu fun v => .stored { carma with driverName := strncpy v insLibNameSize } 0
  | .motherboardNumber => withValue pvalu fun v =>
      if (getNumber w v).1 < 1 ∨ 16 < (getNumber w v).1 then .giveUp
      else .stored { carma with motherboardNumber := (getNumber w v).1 } (getNumber w v).2
  | .slotNumber => withValue pvalu fun v =>
      if (getNumber w v).1 < 1 ∨ 8 < (getNumber w v).1 then .giveUp
      else .stored { carma with slotNumber := (getNumber w v).1 } (getNumber w v).2
  | .comment => withValue pvalu fun v => .stored { carma with comment := strncpy v insLibCommentSize } 0
  | _ => .unknown

/-- The name of the driver is an array and never `NULL`. -/
def carFinish (carma : InsLibCarModuleAddress) (errors : ℕ) : Outcome InsLibCarModuleAddress :=
  if carma.motherboardNumber = 0 ∨ carma.slotNumber = 0 then .returned none (errors + 1)
  else .returned (some carma) errors

def carStop (carma : InsLibCarModuleAddress) (errors : ℕ) : Outcome InsLibCarModuleAddress :=
  .returned (some carma) errors

def parseCarAddressTag : Handler InsLibCarModuleAddress where
  init := { driverName := [], motherboardNumber := 0, slotNumber := 0, comment := [] }
  put := carPut w
  stop := carStop
  finish := carFinish

/-! ### The elements that `DoElement` parses itself -/

def interruptPut (pky : KeyWord) (pvalu : Option Text) (isrds : InsLibIntrDesc) : Put InsLibIntrDesc :=
  match pky with
  | .vector => withValue pvalu fun v =>
      .stored { isrds with vector := (getNumber w v).1 }
        ((getNumber w v).2 + report ((getNumber w v).1 < 1 ∨ 255 < (getNumber w v).1))
  | .level => withValue pvalu fun v =>
      .stored { isrds with level := (getNumber w v).1 }
        ((getNumber w v).2 + report ((getNumber w v).1 < 1 ∨ 8 < (getNumber w v).1))
  | .comment => withValue pvalu fun v => .stored { isrds with comment := strncpy v insLibCommentSize } 0
  | _ => .unknown

def interruptFinish (isrds : InsLibIntrDesc) (errors : ℕ) : Outcome InsLibIntrDesc := .returned (some isrds) errors

def interruptNode : Handler InsLibIntrDesc where
  init := { isrFlag := 1, vector := 0, level := 0, comment := [] }
  put := interruptPut w
  stop := interruptFinish
  finish := interruptFinish

def endianOf (v : Text) : Option InsLibEndian :=
  if v = "BIG".toList then some .big else if v = "LITTLE".toList then some .little else none

def pciSpacePut (pky : KeyWord) (pvalu : Option Text) (pcias : InsLibPciAddressSpace) : Put InsLibPciAddressSpace :=
  match pky with
  | .bar => withValue pvalu fun v =>
      .stored { pcias with baseAddressRegister := (getNumber w v).1 }
        ((getNumber w v).2 + report ((getNumber w v).1 > 6))
  | .endian => withValue pvalu fun v =>
      match endianOf v with
      | some endian => .stored { pcias with endian := endian } 0
      | none => .stored pcias 1
  | .comment => withValue pvalu fun v => .stored { pcias with comment := strncpy v insLibCommentSize } 0
  | _ => .unknown

def pciSpaceFinish (pcias : InsLibPciAddressSpace) (errors : ℕ) : Outcome InsLibPciAddressSpace :=
  .returned (some pcias) errors

def pciSpaceNode : Handler InsLibPciAddressSpace where
  init := { mapped := 0, baseAddressRegister := 0, windowSize := 0, dataWidth := 0, endian := .notSet, comment := [] }
  put := pciSpacePut w
  stop := pciSpaceFinish
  finish := pciSpaceFinish

/-- An address space of a carrier. Its comment goes to the carrier. -/
structure CarSpaceParse where
  caras : InsLibCarAddressSpace
  carmaComment : Option Text
  deriving DecidableEq, Repr

def carSpacePut (pky : KeyWord) (pvalu : Option Text) (s : CarSpaceParse) : Put CarSpaceParse :=
  match pky with
  | .dataWidth => withValue pvalu fun v =>
      .stored { s with caras := { s.caras with dataWidth := (getNumber w v).1 } }
        ((getNumber w v).2 + report ((getNumber w v).1 ≠ 16 ∧ (getNumber w v).1 ≠ 32))
  | .windowSize => withValue pvalu fun v =>
      .stored { s with caras := { s.caras with windowSize := (getNumber w v).1 } } (getNumber w v).2
  | .comment => withValue pvalu fun v => .stored { s with carmaComment := some (strncpy v insLibCommentSize) } 0
  | _ => .unknown

def carSpaceFinish (s : CarSpaceParse) (errors : ℕ) : Outcome CarSpaceParse :=
  .returned (some s) (errors + report (s.caras.dataWidth = 0) + report (s.caras.windowSize = 0))

def carSpaceNode : Handler CarSpaceParse where
  init :=
    { caras := { mapped := 0, spaceNumber := 0, dataWidth := 0, windowSize := 0, endian := .notSet, comment := [] }
      carmaComment := none }
  put := carSpacePut w
  stop := carSpaceFinish
  finish := carSpaceFinish

end HtDrivers.InsLib
