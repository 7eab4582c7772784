import HtDrivers.InsLib.AddressSpaces
import HtDrivers.Lib.OwnedHeap

/-! # Reading an installation file (`DoElement` of `libinst.c`)

The descriptors are blocks of a heap. A chain of `Next` pointers is the list of its blocks, kept where the chain
starts. A block that is freed before anything points to it does not enter the heap. `malloc n` says whether memory
is found for the `n`-th element.
-/
namespace HtDrivers.InsLib.Install
open HtDrivers.Lib.OwnedHeap
set_option autoImplicit false

/-! ## Blocks -/

/-- What `ModuleAddress` points to. All three structs begin with the pointer to their address spaces, and these with
`Mapped` and `Next`. -/
inductive ModuleAddress where
  | pci (pcima : InsLibPciModuleAddress)
  | vme (vmema : InsLibVmeModuleAddress)
  | car (carma : InsLibCarModuleAddress)
  deriving DecidableEq

/-- The blocks that nothing hangs on. -/
inductive Leaf where
  | pciSpace (pcias : InsLibPciAddressSpace)
  | vmeSpace (vmeas : InsLibVmeAddressSpace)
  | carSpace (caras : InsLibCarAddressSpace)
  | isr (isrds : InsLibIntrDesc)
  | extra (txt : Text)
  deriving DecidableEq

inductive Cell where
  | host (hostd : InsLibHostDesc) (drivers : List ℕ)
  | drvr (drvrd : InsLibDrvrDesc) (modules : List ℕ)
  | modl (modld : InsLibModlDesc) (moduleAddress extra isr : Option ℕ)
  | address (ma : ModuleAddress) (spaces : List ℕ)
  | leaf (l : Leaf)

inductive Kind where
  | host | drvr | modl | address | leaf
  deriving DecidableEq

def Cell.kind : Cell → Kind
  | .host .. => .host
  | .drvr .. => .drvr
  | .modl .. => .modl
  | .address .. => .address
  | .leaf _ => .leaf

def Cell.links : Cell → List (Kind × ℕ)
  | .host _ drivers => drivers.map fun p => (.drvr, p)
  | .drvr _ modules => modules.map fun p => (.modl, p)
  | .modl _ moduleAddress extra isr =>
    moduleAddress.toList.map (fun p => (.address, p)) ++ extra.toList.map (fun p => (.leaf, p)) ++
      isr.toList.map fun p => (.leaf, p)
  | .address _ spaces => spaces.map fun p => (.leaf, p)
  | .leaf _ => []

def layout : Layout Cell Kind := ⟨Cell.kind, Cell.links⟩

abbrev Mem := Heap Cell

def noBlocks : Mem := ⟨fun _ => .leaf (.extra []), 0, []⟩

/-! ## Freeing -/

/-- `InsLibFreePciSpace`, `InsLibFreeVmeSpace` and `InsLibFreeCarSpace` -/
def insLibFreeSpace (m : Mem) : List ℕ → Option Mem
  | [] => some m
  | space :: next => do
    let _ ← m.read space
    let m ← insLibFreeSpace m next
    m.free space

/-- `InsLibFreePci`, `InsLibFreeVme` and `InsLibFreeCar` -/
def insLibFreeAddress (m : Mem) : Option ℕ → Option Mem
  | none => some m
  | some ma => do
    match ← m.read ma with
    | .address _ spaces =>
      let m ← insLibFreeSpace m spaces
      m.free ma
    | _ => none

def freeOptional (m : Mem) : Option ℕ → Option Mem
  | none => some m
  | some p => m.free p

/-- The module itself stays. -/
def insLibFreeModule (m : Mem) : List ℕ → Option Mem
  | [] => some m
  | modld :: next => do
    let _ ← m.read modld
    let m ← insLibFreeModule m next
    match ← m.read modld with
    | .modl fields moduleAddress extra isr =>
      let m ← if fields.busType = .notSet then some m else insLibFreeAddress m moduleAddress
      let m ← freeOptional m extra
      freeOptional m isr
    | _ => none

def insLibFreeDriver (m : Mem) : List ℕ → Option Mem
  | [] => some m
  | drvrd :: next => do
    let _ ← m.read drvrd
    let m ← insLibFreeDriver m next
    match ← m.read drvrd with
    | .drvr _ modules =>
      let m ← insLibFreeModule m modules
      m.free drvrd
    | _ => none

def insLibFreeHost (m : Mem) : Option ℕ → Option Mem
  | none => some m
  | some hostd => do
    match ← m.read hostd with
    | .host _ drivers =>
      let m ← insLibFreeDriver m drivers
      m.free hostd
    | _ => none

/-! ## Linking a new block -/

def addDriverNode (m : Mem) (hd : ℕ) (drvrd : InsLibDrvrDesc) : Option (Mem × ℕ) := do
  match ← m.read hd with
  | .host hostd drivers =>
    let (m, dd) := m.alloc (.drvr drvrd [])
    some (m.write hd (.host hostd (drivers ++ [dd])), dd)
  | _ => none

def addModuleNode (m : Mem) (dd : ℕ) (modld : InsLibModlDesc) : Option (Mem × ℕ) := do
  match ← m.read dd with
  | .drvr drvrd modules =>
    let (m, nmd) := m.alloc (.modl modld none none none)
    some (m.write dd (.drvr { drvrd with moduleCount := drvrd.moduleCount + 1 } (modules ++ [nmd])), nmd)
  | _ => none

def setExtra (m : Mem) (md : ℕ) (txt : Text) : Option Mem := do
  match ← m.read md with
  | .modl modld moduleAddress _ isr =>
    let (m, extra) := m.alloc (.leaf (.extra txt))
    some (m.write md (.modl modld moduleAddress (some extra) isr))
  | _ => none

def setIsr (m : Mem) (md : ℕ) (isrds : InsLibIntrDesc) : Option Mem := do
  match ← m.read md with
  | .modl modld moduleAddress extra _ =>
    let (m, isr) := m.alloc (.leaf (.isr isrds))
    some (m.write md (.modl modld moduleAddress extra (some isr)))
  | _ => none

/-- `parse_pci_address_tag`, `parse_vme_address_tag` and `parse_car_address_tag` on a module. An address whose
attributes are bad is freed where it is, in the module. -/
def parseAddressTag {D : Type} (bus : InsLibBusType → Bool) (h : Handler D) (mk : D → ModuleAddress) (malloc : Bool)
    (properties : List XmlAttr) (m : Mem) (md : ℕ) : Option (Mem × Option ℕ) := do
  match ← m.read md with
  | .modl modld none extra isr =>
    if bus modld.busType && malloc then
      match h.parse properties with
      | .undefined => none
      | .returned none _ =>
        let (m, ma) := m.alloc (.address (mk h.init) [])
        let m ← (m.write md (.modl modld (some ma) extra isr)).free ma
        some (m, none)
      | .returned (some d) _ =>
        let (m, ma) := m.alloc (.address (mk d) [])
        some (m.write md (.modl modld (some ma) extra isr), some ma)
    else some (m, none)
  | .modl _ (some _) _ _ => some (m, none)
  | _ => none

/-- A new address space is inserted into the list of an address, whose own fields may change with it. -/
def addSpace (insert : List ℕ → ℕ → Option (List ℕ)) (fields : ModuleAddress → ModuleAddress) (space : Leaf)
    (m : Mem) (ma : ℕ) : Option Mem := do
  match ← m.read ma with
  | .address address spaces =>
    let (m, p) := m.alloc (.leaf space)
    let spaces ← insert spaces p
    some (m.write ma (.address (fields address) spaces))
  | _ => none

/-- `pcias` and `caras` are the last spaces of the addresses they belong to. -/
def insertLast (spaces : List ℕ) (p : ℕ) : Option (List ℕ) := some (spaces ++ [p])

/-! ## `DoElement` -/

/-- The static variables. `elements` is the number of elements that have been seen. -/
structure State where
  mem : Mem
  hostd : Option ℕ
  drvrd : Option ℕ
  modld : Option ℕ
  pcima : Option ℕ
  vmema : Option ℕ
  carma : Option ℕ
  elements : ℕ

def start : State := ⟨noBlocks, none, none, none, none, none, none, 0⟩

/-- What an element does: nothing defined, or it ends with the walk going on or not. -/
abbrev Step := Option (State × Bool)

def goOn (s : State) : Step := some (s, true)

def returnNull (s : State) : Step := some (s, false)

def freeAndReturn (s : State) : Step := do
  let mem ← insLibFreeHost s.mem s.hostd
  returnNull { s with mem }

/-- A handler returns `NULL` if there is no memory. `pvalu` is what it reads values through: `none` in a handler with
one of its own. -/
def runHandler {D : Type} (h : Handler D) (malloc : Bool) (pvalu : Option Text) (properties : List XmlAttr) :
    Outcome D :=
  if malloc then attributes h pvalu properties h.init 0 else .returned none 1

/-- What follows a handler: an element it gives up frees the host. -/
def parsed {D : Type} (r : Outcome D) (s : State) (k : D → Step) : Step :=
  match r with
  | .undefined => none
  | .returned none _ => freeAndReturn s
  | .returned (some d) _ => k d

section Elements
variable (w : ℕ) (malloc : Bool) (pvalu : Option Text) (properties : List XmlAttr) (s : State)

def install : Step :=
  match runHandler handleInstallNode malloc none properties with
  | .undefined => none
  | .returned none _ => returnNull { s with hostd := none }
  | .returned (some d) _ =>
    let (mem, hostd) := s.mem.alloc (.host d [])
    goOn { s with mem, hostd := some hostd }

def driver : Step :=
  match s.hostd with
  | none => returnNull s
  | some hostd =>
    parsed (runHandler (handleDriverNode w) malloc none properties) { s with drvrd := none } fun d => do
      let (mem, drvrd) ← addDriverNode s.mem hostd d
      goOn { s with mem, drvrd := some drvrd }

def module : Step :=
  match s.drvrd with
  | none => freeAndReturn s
  | some drvrd =>
    parsed (runHandler (handleModuleNode w) malloc none properties) { s with modld := none } fun d => do
      let (mem, modld) ← addModuleNode s.mem drvrd d.modld
      let mem ← match d.extra with
        | none => some mem
        | some txt => setExtra mem modld txt
      goOn { s with mem, modld := some modld }

def interrupt : Step :=
  match s.modld with
  | none => freeAndReturn s
  | some modld =>
    parsed (runHandler (interruptNode w) malloc pvalu properties) s fun d => do
      let mem ← setIsr s.mem modld d
      goOn { s with mem }

def pci : Step :=
  match s.modld with
  | none => goOn { s with pcima := none }
  | some md => do
    let (mem, pcima) ← parseAddressTag (fun bus => bus == .pmc || bus == .pci) (parsePciAddressTag w) .pci malloc
      properties s.mem md
    goOn { s with mem, pcima }

def pciSpace : Step :=
  match s.pcima with
  | none => freeAndReturn s
  | some pcima =>
    parsed (runHandler (pciSpaceNode w) malloc pvalu properties) s fun d => do
      let mem ← addSpace insertLast id (.pciSpace d) s.mem pcima
      goOn { s with mem }

def vme : Step :=
  match s.modld with
  | none => goOn { s with vmema := none }
  | some md => do
    let (mem, vmema) ← parseAddressTag (fun bus => bus == .vme) parseVmeAddressTag .vme malloc properties s.mem md
    goOn { s with mem, vmema }

def vmeSpace : Step :=
  match s.vmema, s.modld with
  | some vmema, some _ =>
    parsed (runHandler (handleVmeSpaceNode w) malloc none properties) s fun d => do
      let mem ← addSpace (insertSpace (isCrCsr d)) id (.vmeSpace d) s.mem vmema
      goOn { s with mem }
  | _, _ => freeAndReturn s

/-- The check for a module and the one for its bus report an error, and the tag is read all the same. -/
def carrier : Step :=
  match s.modld with
  | none => none
  | some md => do
    let (mem, carma) ← parseAddressTag (fun _ => true) (parseCarAddressTag w) .car malloc properties s.mem md
    goOn { s with mem, carma }

def setCarComment (comment : Option Text) : ModuleAddress → ModuleAddress
  | .car carma => .car { carma with comment := comment.getD carma.comment }
  | ma => ma

def carrierSpace : Step :=
  match s.carma with
  | none => freeAndReturn s
  | some carma =>
    parsed (runHandler (carSpaceNode w) malloc pvalu properties) s fun d => do
      let mem ← addSpace insertLast (setCarComment d.carmaComment) (.carSpace d.caras) s.mem carma
      goOn { s with mem }

def element (pky : KeyWord) : Step :=
  match pky with
  | .install => install malloc properties s
  | .driver => driver w malloc properties s
  | .module => module w malloc properties s
  | .interrupt => interrupt w malloc pvalu properties s
  | .pci => pci w malloc properties s
  | .pciSpace => pciSpace w malloc pvalu properties s
  | .vme => vme malloc properties s
  | .vmeSpace => vmeSpace w malloc properties s
  | .carrier => carrier w malloc properties s
  | .carrierSpace => carrierSpace w malloc pvalu properties s
  | _ => goOn s

/-- The `pvalu` of `DoElement` after an element. Only three elements are read through it, the others by functions with
a `pvalu` of their own. -/
def elementPvalu (pky : KeyWord) : Option Text :=
  match pky with
  | .interrupt => pvaluAfter (interruptNode w) pvalu properties (interruptNode w).init
  | .pciSpace => pvaluAfter (pciSpaceNode w) pvalu properties (pciSpaceNode w).init
  | .carrierSpace => pvaluAfter (carSpaceNode w) pvalu properties (carSpaceNode w).init
  | _ => pvalu

end Elements

/-- A node with its first child and its next sibling. Texts and comments are nodes that are not elements. -/
inductive XmlNode where
  | null
  | node (element : Option (String × List XmlAttr)) (children next : XmlNode)

variable (w : ℕ) (malloc : ℕ → Bool)

def node (el : Option (String × List XmlAttr)) (pvalu : Option Text) (s : State) : Step :=
  match el with
  | none => goOn s
  | some (name, properties) =>
    element w (malloc s.elements) pvalu properties { s with elements := s.elements + 1 } (lookUp name)

def nodePvalu (el : Option (String × List XmlAttr)) (pvalu : Option Text) : Option Text :=
  match el with
  | none => pvalu
  | some (name, properties) => elementPvalu w pvalu properties (lookUp name)

/-- `pvalu` is a local that nothing initialises, and the siblings of one call share it. -/
def doElement : XmlNode → Option Text → State → Option (State × Option ℕ)
  | .null, _, s => some (s, s.hostd)
  | .node el children next, pvalu, s => do
    let (s, more) ← node w malloc el pvalu s
    if more then
      let (s, hostd) ← doElement children none s
      match hostd with
      | none => some (s, none)
      | some _ => doElement next (nodePvalu w el pvalu) s
    else some (s, none)

/-- `InsLibParseInstallFile` on the root element: the host it returns, and the heap at its end. -/
def insLibParseInstallFile (root : XmlNode) : Option (Mem × Option ℕ) :=
  (doElement w malloc root none start).map fun (s, hostd) => (s.mem, hostd)

/-! ## What is expected of the host -/

/-- Nothing that hangs on the host has been freed, and freeing the host frees all of it once. -/
structure HostIntact (m : Mem) (hostd : ℕ) : Prop where
  live : ∀ p, Reach layout m hostd p → p ∉ m.freed
  freedOnce : ∃ m', insLibFreeHost m (some hostd) = some m' ∧ ∀ p, Reach layout m hostd p → m'.freed.count p = 1

/-- The file is read to an end, and the host is intact if there is one. -/
def ParsesIntact (root : XmlNode) : Prop :=
  ∃ m hostd, insLibParseInstallFile w malloc root = some (m, hostd) ∧ ∀ p ∈ hostd, HostIntact m p

end HtDrivers.InsLib.Install
