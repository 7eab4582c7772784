import HtDrivers.InsLib.ConfigData
import HtDrivers.Lib.Ledger
import Mathlib.Logic.Embedding.Basic

/-! The kernel copy of a driver's descriptors (`libinstkernel.c`). A linked list is the list of its nodes, each
with the block it lives in, and what `sysbrk` and `sysfree` do is a log of blocks with their sizes. -/
namespace HtDrivers.InsLib.Kernel
open HtDrivers.Lib.Ledger
set_option autoImplicit false

/-! ## Trees of descriptors -/

/-- A struct with only data in its block `B`. -/
structure Leaf (B F : Type) where
  block : B
  fields : F
  deriving DecidableEq

/-- The address of a module: its struct and the list of its address spaces. -/
structure Addr (B F S : Type) where
  block : B
  fields : F
  spaces : List (Leaf B S)
  deriving DecidableEq

/-- What the `void *ModuleAddress` of a module points to. Without a bus type nobody knows. -/
def ModuleAddress (B : Type) : InsLibBusType → Type
  | .carrier => Option (Addr B InsLibCarModuleAddress InsLibCarAddressSpace)
  | .vme => Option (Addr B InsLibVmeModuleAddress InsLibVmeAddressSpace)
  | .pmc | .pci => Option (Addr B InsLibPciModuleAddress InsLibPciAddressSpace)
  | .notSet => Option B

structure Modl (B : Type) where
  block : B
  fields : InsLibModlDesc
  moduleAddress : ModuleAddress B fields.busType
  extra : Option (Leaf B Text)
  isr : Option (Leaf B InsLibIntrDesc)

structure Drvr (B : Type) where
  block : B
  fields : InsLibDrvrDesc
  modules : List (Modl B)

/-- What `sizeof` says of each struct. -/
structure Sizes where
  carAddressSpace : ℕ
  vmeAddressSpace : ℕ
  pciAddressSpace : ℕ
  carModuleAddress : ℕ
  vmeModuleAddress : ℕ
  pciModuleAddress : ℕ
  intrDesc : ℕ
  modlDesc : ℕ
  drvrDesc : ℕ

/-! ## The allocator -/

abbrev Cell (B : Type) := B × ℕ

structure Heap (B : Type) where
  calls : ℕ
  log : List (Entry (Cell B))

variable {B : Type} (fresh : ℕ ↪ B) (sz : Sizes)

/-- No two calls return the same block. -/
def sysbrk (size : ℕ) : StateM (Heap B) B := fun h =>
  (fresh h.calls, { calls := h.calls + 1, log := h.log ++ [.acquire (fresh h.calls, size)] })

def sysfree (cp : B) (size : ℕ) : StateM (Heap B) Unit := fun h =>
  ((), { h with log := h.log ++ [.release (cp, size)] })

def strlen (s : Text) : ℕ := s.length

/-! ## Clone -/

def cloneSpaces {S : Type} (size : ℕ) : List (Leaf B S) → StateM (Heap B) (List (Leaf B S))
  | [] => pure []
  | s :: next => do
    let block ← sysbrk fresh size
    let next ← cloneSpaces size next
    pure (⟨block, s.fields⟩ :: next)

def insLibCloneCarSpace := cloneSpaces (S := InsLibCarAddressSpace) fresh sz.carAddressSpace

def insLibCloneVmeSpace := cloneSpaces (S := InsLibVmeAddressSpace) fresh sz.vmeAddressSpace

def insLibClonePciSpace := cloneSpaces (S := InsLibPciAddressSpace) fresh sz.pciAddressSpace

def cloneAddr {F S : Type} (size : ℕ) (cloneSpace : List (Leaf B S) → StateM (Heap B) (List (Leaf B S))) :
    Option (Addr B F S) → StateM (Heap B) (Option (Addr B F S))
  | none => pure none
  | some ma => do
    let block ← sysbrk fresh size
    let spaces ← cloneSpace ma.spaces
    pure (some ⟨block, ma.fields, spaces⟩)

def insLibCloneCar := cloneAddr (F := InsLibCarModuleAddress) fresh sz.carModuleAddress (insLibCloneCarSpace fresh sz)

def insLibCloneVme := cloneAddr (F := InsLibVmeModuleAddress) fresh sz.vmeModuleAddress (insLibCloneVmeSpace fresh sz)

def insLibClonePci := cloneAddr (F := InsLibPciModuleAddress) fresh sz.pciModuleAddress (insLibClonePciSpace fresh sz)

/-- The branches over the bus type. A pointer of no known type stays as `copy_mem` copied it. -/
def cloneModuleAddress : (bus : InsLibBusType) → ModuleAddress B bus → StateM (Heap B) (ModuleAddress B bus)
  | .carrier, ma => insLibCloneCar fresh sz ma
  | .vme, ma => insLibCloneVme fresh sz ma
  | .pmc, ma => insLibClonePci fresh sz ma
  | .pci, ma => insLibClonePci fresh sz ma
  | .notSet, ma => pure ma

def cloneExtra : Option (Leaf B Text) → StateM (Heap B) (Option (Leaf B Text))
  | none => pure none
  | some extra => do
    let block ← sysbrk fresh (strlen extra.fields + 1)
    pure (some ⟨block, extra.fields⟩)

def cloneIsr : Option (Leaf B InsLibIntrDesc) → StateM (Heap B) (Option (Leaf B InsLibIntrDesc))
  | none => pure none
  | some isr => do
    let block ← sysbrk fresh sz.intrDesc
    pure (some ⟨block, isr.fields⟩)

def insLibCloneModule : List (Modl B) → StateM (Heap B) (List (Modl B))
  | [] => pure []
  | modld :: next => do
    let block ← sysbrk fresh sz.modlDesc
    let moduleAddress ← cloneModuleAddress fresh sz modld.fields.busType modld.moduleAddress
    let extra ← cloneExtra fresh modld.extra
    let isr ← cloneIsr fresh sz modld.isr
    let next ← insLibCloneModule next
    pure (⟨block, modld.fields, moduleAddress, extra, isr⟩ :: next)

/-- The drivers after the first are not copied. -/
def insLibCloneOneDriver : List (Drvr B) → StateM (Heap B) (List (Drvr B))
  | [] => pure []
  | drvrd :: _ => do
    let block ← sysbrk fresh sz.drvrDesc
    let modules ← insLibCloneModule fresh sz drvrd.modules
    pure [⟨block, drvrd.fields, modules⟩]

/-! ## Free -/

def freeSpaces {S : Type} (size : ℕ) : List (Leaf B S) → StateM (Heap B) Unit
  | [] => pure ()
  | s :: next => do
    freeSpaces size next
    sysfree s.block size

def insLibFreeCarSpace := freeSpaces (B := B) (S := InsLibCarAddressSpace) sz.carAddressSpace

def insLibFreeVmeSpace := freeSpaces (B := B) (S := InsLibVmeAddressSpace) sz.vmeAddressSpace

def insLibFreePciSpace := freeSpaces (B := B) (S := InsLibPciAddressSpace) sz.pciAddressSpace

def freeAddr {F S : Type} (size : ℕ) (freeSpace : List (Leaf B S) → StateM (Heap B) Unit) :
    Option (Addr B F S) → StateM (Heap B) Unit
  | none => pure ()
  | some ma => do
    freeSpace ma.spaces
    sysfree ma.block size

def insLibFreeCar := freeAddr (B := B) (F := InsLibCarModuleAddress) sz.carModuleAddress (insLibFreeCarSpace sz)

def insLibFreeVme := freeAddr (B := B) (F := InsLibVmeModuleAddress) sz.vmeModuleAddress (insLibFreeVmeSpace sz)

def insLibFreePci := freeAddr (B := B) (F := InsLibPciModuleAddress) sz.pciModuleAddress (insLibFreePciSpace sz)

def freeModuleAddress : (bus : InsLibBusType) → ModuleAddress B bus → StateM (Heap B) Unit
  | .carrier, ma => insLibFreeCar sz ma
  | .vme, ma => insLibFreeVme sz ma
  | .pmc, ma => insLibFreePci sz ma
  | .pci, ma => insLibFreePci sz ma
  | .notSet, _ => pure ()

def freeExtra : Option (Leaf B Text) → StateM (Heap B) Unit
  | none => pure ()
  | some extra => sysfree extra.block (strlen extra.fields)

def freeIsr : Option (Leaf B InsLibIntrDesc) → StateM (Heap B) Unit
  | none => pure ()
  | some isr => sysfree isr.block sz.intrDesc

/-- Everything a module points to is freed, the module itself is not. -/
def insLibFreeModule : List (Modl B) → StateM (Heap B) Unit
  | [] => pure ()
  | modld :: next => do
    insLibFreeModule next
    freeModuleAddress sz modld.fields.busType modld.moduleAddress
    freeExtra modld.extra
    freeIsr sz modld.isr

def insLibFreeDriver : List (Drvr B) → StateM (Heap B) Unit
  | [] => pure ()
  | drvrd :: next => do
    insLibFreeDriver next
    insLibFreeModule sz drvrd.modules
    sysfree drvrd.block sz.drvrDesc

/-! ## Trees without their blocks -/

def Leaf.erase {F : Type} (l : Leaf B F) : Leaf Unit F := ⟨(), l.fields⟩

def Addr.erase {F S : Type} (ma : Addr B F S) : Addr Unit F S := ⟨(), ma.fields, ma.spaces.map Leaf.erase⟩

def ModuleAddress.erase : (bus : InsLibBusType) → ModuleAddress B bus → ModuleAddress Unit bus
  | .carrier, ma => Option.map Addr.erase ma
  | .vme, ma => Option.map Addr.erase ma
  | .pmc, ma => Option.map Addr.erase ma
  | .pci, ma => Option.map Addr.erase ma
  | .notSet, ma => Option.map (fun _ => ()) ma

def Modl.erase (modld : Modl B) : Modl Unit :=
  ⟨(), modld.fields, modld.moduleAddress.erase, modld.extra.map Leaf.erase, modld.isr.map Leaf.erase⟩

def Drvr.erase (drvrd : Drvr B) : Drvr Unit := ⟨(), drvrd.fields, drvrd.modules.map Modl.erase⟩

/-! ## Blocks of a tree -/

def Addr.blocks {F S : Type} (ma : Addr B F S) : List B := ma.block :: ma.spaces.map Leaf.block

def ModuleAddress.blocks : (bus : InsLibBusType) → ModuleAddress B bus → List B
  | .carrier, ma => (Option.toList ma).flatMap Addr.blocks
  | .vme, ma => (Option.toList ma).flatMap Addr.blocks
  | .pmc, ma => (Option.toList ma).flatMap Addr.blocks
  | .pci, ma => (Option.toList ma).flatMap Addr.blocks
  | .notSet, ma => Option.toList ma

def Modl.blocks (modld : Modl B) : List B :=
  modld.block :: modld.moduleAddress.blocks ++ modld.extra.toList.map Leaf.block ++ modld.isr.toList.map Leaf.block

/-- Every pointer of the tree. -/
def Drvr.blocks (drvrd : Drvr B) : List B := drvrd.block :: drvrd.modules.flatMap Modl.blocks

/-! ## The blocks with the sizes clone asks for -/

def Leaf.cell {F : Type} (size : ℕ) (l : Leaf B F) : Cell B := (l.block, size)

def Addr.cells {F S : Type} (size spaceSize : ℕ) (ma : Addr B F S) : List (Cell B) :=
  (ma.block, size) :: ma.spaces.map (Leaf.cell spaceSize)

def ModuleAddress.cells (sz : Sizes) : (bus : InsLibBusType) → ModuleAddress B bus → List (Cell B)
  | .carrier, ma => (Option.toList ma).flatMap (Addr.cells sz.carModuleAddress sz.carAddressSpace)
  | .vme, ma => (Option.toList ma).flatMap (Addr.cells sz.vmeModuleAddress sz.vmeAddressSpace)
  | .pmc, ma => (Option.toList ma).flatMap (Addr.cells sz.pciModuleAddress sz.pciAddressSpace)
  | .pci, ma => (Option.toList ma).flatMap (Addr.cells sz.pciModuleAddress sz.pciAddressSpace)
  | .notSet, _ => []

def extraCells (extra : Option (Leaf B Text)) : List (Cell B) :=
  extra.toList.map fun e => e.cell (strlen e.fields + 1)

def isrCells (sz : Sizes) (isr : Option (Leaf B InsLibIntrDesc)) : List (Cell B) :=
  isr.toList.map (Leaf.cell sz.intrDesc)

def Modl.cells (sz : Sizes) (modld : Modl B) : List (Cell B) :=
  (modld.block, sz.modlDesc) ::
    (modld.moduleAddress.cells sz ++ (extraCells modld.extra ++ isrCells sz modld.isr))

def Drvr.cells (sz : Sizes) (drvrd : Drvr B) : List (Cell B) :=
  (drvrd.block, sz.drvrDesc) :: drvrd.modules.flatMap (Modl.cells sz)

/-! ## The blocks with the sizes free gives back -/

def Addr.freed {F S : Type} (size spaceSize : ℕ) (ma : Addr B F S) : List (Cell B) :=
  (ma.spaces.map (Leaf.cell spaceSize)).reverse ++ [(ma.block, size)]

def ModuleAddress.freed (sz : Sizes) : (bus : InsLibBusType) → ModuleAddress B bus → List (Cell B)
  | .carrier, ma => (Option.toList ma).flatMap (Addr.freed sz.carModuleAddress sz.carAddressSpace)
  | .vme, ma => (Option.toList ma).flatMap (Addr.freed sz.vmeModuleAddress sz.vmeAddressSpace)
  | .pmc, ma => (Option.toList ma).flatMap (Addr.freed sz.pciModuleAddress sz.pciAddressSpace)
  | .pci, ma => (Option.toList ma).flatMap (Addr.freed sz.pciModuleAddress sz.pciAddressSpace)
  | .notSet, _ => []

def extraFreed (extra : Option (Leaf B Text)) : List (Cell B) :=
  extra.toList.map fun e => e.cell (strlen e.fields)

def Modl.freed (sz : Sizes) (modld : Modl B) : List (Cell B) :=
  modld.moduleAddress.freed sz ++ (extraFreed modld.extra ++ isrCells sz modld.isr)

/-- The last module of the list goes first. -/
def freedModules (sz : Sizes) : List (Modl B) → List (Cell B)
  | [] => []
  | modld :: next => freedModules sz next ++ modld.freed sz

def Drvr.freed (sz : Sizes) (drvrd : Drvr B) : List (Cell B) :=
  freedModules sz drvrd.modules ++ [(drvrd.block, sz.drvrDesc)]

/-! ## What a walk logs -/

/-- The walk returns a tree of the given shape and takes the cells of that tree, in order. -/
structure Copies {T E : Type} (shape : T → E) (cells : T → List (Cell B)) (e : E) (m : StateM (Heap B) T) : Prop where
  same : ∀ h, shape (m h).1 = e
  took : ∀ h, (m h).2.log = h.log ++ (cells (m h).1).map .acquire

/-- The walk gives the cells back, in order. -/
def Frees (cells : List (Cell B)) (m : StateM (Heap B) Unit) : Prop :=
  ∀ h, (m h).2.log = h.log ++ cells.map .release

theorem run_bind {α β : Type} (m : StateM (Heap B) α) (f : α → StateM (Heap B) β) (h : Heap B) :
    (m >>= f) h = f (m h).1 (m h).2 := rfl

theorem run_pure {α : Type} (a : α) (h : Heap B) : (pure a : StateM (Heap B) α) h = (a, h) := rfl

theorem frees_pure : Frees ([] : List (Cell B)) (pure ()) := by
  intro h
  simp [run_pure]

theorem frees_sysfree (cp : B) (size : ℕ) : Frees [(cp, size)] (sysfree cp size) := by
  intro h
  rfl

theorem Frees.seq {a b : List (Cell B)} {m n : StateM (Heap B) Unit} (hm : Frees a m) (hn : Frees b n) :
    Frees (a ++ b) (m >>= fun _ => n) := by
  intro h
  rw [run_bind, hn, hm, List.map_append, List.append_assoc]

/-! ## Clone, walk by walk -/

section Clone
variable {fresh : ℕ ↪ B} {sz : Sizes}

theorem copies_pure {T E : Type} {shape : T → E} {cells : T → List (Cell B)} (t : T) (ht : cells t = []) :
    Copies shape cells (shape t) (pure t) where
  same := fun _ => rfl
  took := fun h => by rw [run_pure, ht, List.map_nil, List.append_nil]

theorem cloneSpaces_copies {S : Type} (size : ℕ) (l : List (Leaf B S)) :
    Copies (List.map Leaf.erase) (List.map (Leaf.cell size)) (l.map Leaf.erase) (cloneSpaces fresh size l) := by
  induction l with
  | nil => exact copies_pure [] rfl
  | cons s next ih =>
    refine ⟨fun h => ?_, fun h => ?_⟩
    · simp only [cloneSpaces, run_bind, run_pure, List.map_cons, ih.same]
      rfl
    · simp only [cloneSpaces, run_bind, run_pure, ih.took, sysbrk, List.map_cons, List.append_assoc]
      rfl

theorem cloneAddr_copies {F S : Type} (size spaceSize : ℕ)
    {cloneSpace : List (Leaf B S) → StateM (Heap B) (List (Leaf B S))}
    (hspace : ∀ l, Copies (List.map Leaf.erase) (List.map (Leaf.cell spaceSize)) (l.map Leaf.erase) (cloneSpace l))
    (ma : Option (Addr B F S)) :
    Copies (Option.map Addr.erase) (fun ma => (Option.toList ma).flatMap (Addr.cells size spaceSize))
      (ma.map Addr.erase) (cloneAddr fresh size cloneSpace ma) := by
  cases ma with
  | none => exact copies_pure none rfl
  | some ma =>
    refine ⟨fun h => ?_, fun h => ?_⟩
    · simp only [cloneAddr, run_bind, run_pure, Option.map_some, Addr.erase, (hspace _).same]
    · simp only [cloneAddr, run_bind, run_pure, (hspace _).took, sysbrk, Option.toList_some, List.flatMap_singleton,
        Addr.cells, List.map_cons, List.append_assoc]
      rfl

theorem cloneModuleAddress_copies (bus : InsLibBusType) (ma : ModuleAddress B bus) :
    Copies (ModuleAddress.erase bus) (ModuleAddress.cells sz bus) (ModuleAddress.erase bus ma)
      (cloneModuleAddress fresh sz bus ma) := by
  cases bus with
  | carrier => exact cloneAddr_copies sz.carModuleAddress sz.carAddressSpace (cloneSpaces_copies _) ma
  | vme => exact cloneAddr_copies sz.vmeModuleAddress sz.vmeAddressSpace (cloneSpaces_copies _) ma
  | pmc => exact cloneAddr_copies sz.pciModuleAddress sz.pciAddressSpace (cloneSpaces_copies _) ma
  | pci => exact cloneAddr_copies sz.pciModuleAddress sz.pciAddressSpace (cloneSpaces_copies _) ma
  | notSet => exact copies_pure ma rfl

theorem cloneExtra_copies (extra : Option (Leaf B Text)) :
    Copies (Option.map Leaf.erase) extraCells (extra.map Leaf.erase) (cloneExtra fresh extra) := by
  cases extra with
  | none => exact copies_pure none rfl
  | some e => exact ⟨fun _ => rfl, fun _ => rfl⟩

theorem cloneIsr_copies (isr : Option (Leaf B InsLibIntrDesc)) :
    Copies (Option.map Leaf.erase) (isrCells sz) (isr.map Leaf.erase) (cloneIsr fresh sz isr) := by
  cases isr with
  | none => exact copies_pure none rfl
  | some i => exact ⟨fun _ => rfl, fun _ => rfl⟩

theorem insLibCloneModule_copies (l : List (Modl B)) :
    Copies (List.map Modl.erase) (List.flatMap (Modl.cells sz)) (l.map Modl.erase) (insLibCloneModule fresh sz l) := by
  induction l with
  | nil => exact copies_pure [] rfl
  | cons modld next ih =>
    refine ⟨fun h => ?_, fun h => ?_⟩
    · simp only [insLibCloneModule, run_bind, run_pure, List.map_cons, ih.same, Modl.erase,
        (cloneModuleAddress_copies _ _).same, (cloneExtra_copies _).same, (cloneIsr_copies _).same]
    · simp only [insLibCloneModule, run_bind, run_pure, ih.took, (cloneModuleAddress_copies _ _).took,
        (cloneExtra_copies _).took, (cloneIsr_copies _).took, sysbrk, List.flatMap_cons, Modl.cells, List.map_cons,
        List.map_append, List.append_assoc, List.cons_append, List.nil_append]

/-- The clone has the shape of the driver and takes exactly its own cells. -/
theorem insLibCloneOneDriver_copies (drvrd : Drvr B) (next : List (Drvr B)) :
    Copies (List.map Drvr.erase) (List.flatMap (Drvr.cells sz)) [drvrd.erase]
      (insLibCloneOneDriver fresh sz (drvrd :: next)) where
  same := fun h => by
    simp only [insLibCloneOneDriver, run_bind, run_pure, List.map_cons, List.map_nil, Drvr.erase,
      (insLibCloneModule_copies _).same]
  took := fun h => by
    simp only [insLibCloneOneDriver, run_bind, run_pure, (insLibCloneModule_copies _).took, sysbrk,
      List.flatMap_singleton, Drvr.cells, List.map_cons, List.append_assoc]
    rfl

end Clone

/-! ## Free, walk by walk -/

section Free
variable {sz : Sizes}

theorem freeSpaces_frees {S : Type} (size : ℕ) (l : List (Leaf B S)) :
    Frees (l.map (Leaf.cell size)).reverse (freeSpaces size l) := by
  induction l with
  | nil => exact frees_pure
  | cons s next ih =>
    rw [List.map_cons, List.reverse_cons]
    exact ih.seq (frees_sysfree s.block size)

theorem freeAddr_frees {F S : Type} (size spaceSize : ℕ) {freeSpace : List (Leaf B S) → StateM (Heap B) Unit}
    (hspace : ∀ l, Frees (l.map (Leaf.cell spaceSize)).reverse (freeSpace l)) (ma : Option (Addr B F S)) :
    Frees ((Option.toList ma).flatMap (Addr.freed size spaceSize)) (freeAddr size freeSpace ma) := by
  cases ma with
  | none => exact frees_pure
  | some ma =>
    rw [Option.toList_some, List.flatMap_singleton]
    exact (hspace ma.spaces).seq (frees_sysfree ma.block size)

theorem freeModuleAddress_frees (bus : InsLibBusType) (ma : ModuleAddress B bus) :
    Frees (ModuleAddress.freed sz bus ma) (freeModuleAddress sz bus ma) := by
  cases bus with
  | carrier => exact freeAddr_frees sz.carModuleAddress sz.carAddressSpace (freeSpaces_frees _) ma
  | vme => exact freeAddr_frees sz.vmeModuleAddress sz.vmeAddressSpace (freeSpaces_frees _) ma
  | pmc => exact freeAddr_frees sz.pciModuleAddress sz.pciAddressSpace (freeSpaces_frees _) ma
  | pci => exact freeAddr_frees sz.pciModuleAddress sz.pciAddressSpace (freeSpaces_frees _) ma
  | notSet => exact frees_pure

theorem freeExtra_frees (extra : Option (Leaf B Text)) : Frees (extraFreed extra) (freeExtra extra) := by
  cases extra with
  | none => exact frees_pure
  | some e => exact frees_sysfree e.block (strlen e.fields)

theorem freeIsr_frees (isr : Option (Leaf B InsLibIntrDesc)) : Frees (isrCells sz isr) (freeIsr sz isr) := by
  cases isr with
  | none => exact frees_pure
  | some i => exact frees_sysfree i.block sz.intrDesc

theorem insLibFreeModule_frees (l : List (Modl B)) : Frees (freedModules sz l) (insLibFreeModule sz l) := by
  induction l with
  | nil => exact frees_pure
  | cons modld next ih =>
    exact ih.seq ((freeModuleAddress_frees _ _).seq ((freeExtra_frees _).seq (freeIsr_frees _)))

theorem insLibFreeDriver_frees (drvrd : Drvr B) : Frees (drvrd.freed sz) (insLibFreeDriver sz [drvrd]) :=
  frees_pure.seq ((insLibFreeModule_frees drvrd.modules).seq (frees_sysfree drvrd.block sz.drvrDesc))

end Free

/-! ## Clone, then free -/

section CloneFree

def noCalls : Heap B := { calls := 0, log := [] }

/-- A driver is cloned and the clone is freed. -/
def cloneThenFree (drvrd : List (Drvr B)) : StateM (Heap B) (List (Drvr B)) := do
  let drvrd_clone ← insLibCloneOneDriver fresh sz drvrd
  insLibFreeDriver sz drvrd_clone
  pure drvrd_clone

def cloneOf (drvrd : Drvr B) (next : List (Drvr B)) : List (Drvr B) :=
  (insLibCloneOneDriver fresh sz (drvrd :: next) noCalls).1

/-- What the copy of a driver owes: it is equal to the driver up to the blocks, all of its pointers were allocated for
it, and freeing it gives every block back once with the size it was allocated with. -/
structure CloneFreeIntact [DecidableEq B] (drvrd : Drvr B) (next : List (Drvr B)) : Prop where
  equal : (cloneOf fresh sz drvrd next).map Drvr.erase = [drvrd.erase]
  own : ∀ b ∈ (cloneOf fresh sz drvrd next).flatMap Drvr.blocks,
    ∃ size, .acquire (b, size) ∈ (insLibCloneOneDriver fresh sz (drvrd :: next) noCalls).2.log
  settled : Settled (cloneThenFree fresh sz (drvrd :: next) noCalls).2.log

variable (drvrd : Drvr B) (next : List (Drvr B))

theorem cloneOf_erase : (cloneOf fresh sz drvrd next).map Drvr.erase = [drvrd.erase] :=
  (insLibCloneOneDriver_copies drvrd next).same noCalls

theorem cloneOf_log : (insLibCloneOneDriver fresh sz (drvrd :: next) noCalls).2.log =
    ((cloneOf fresh sz drvrd next).flatMap (Drvr.cells sz)).map .acquire :=
  (insLibCloneOneDriver_copies drvrd next).took noCalls

theorem cloneOf_singleton : ∃ clone, cloneOf fresh sz drvrd next = [clone] ∧ clone.erase = drvrd.erase := by
  have h := cloneOf_erase fresh sz drvrd next
  obtain ⟨clone, hclone, herase⟩ := List.map_eq_singleton_iff.mp h
  exact ⟨clone, hclone, herase⟩

/-- The two walks log the cells of the clone and then what its free gives back. -/
theorem cloneThenFree_log {drvrd clone : Drvr B} {next : List (Drvr B)} (h : cloneOf fresh sz drvrd next = [clone]) :
    (cloneThenFree fresh sz (drvrd :: next) noCalls).2.log =
      (clone.cells sz).map .acquire ++ (clone.freed sz).map .release := by
  have hlog := cloneOf_log fresh sz drvrd next
  rw [h, List.flatMap_singleton] at hlog
  rw [← hlog]
  unfold cloneOf at h
  simp only [cloneThenFree, run_bind, run_pure, h]
  exact insLibFreeDriver_frees clone _

theorem Addr.blocks_eq {F S : Type} (size spaceSize : ℕ) (ma : Addr B F S) :
    ma.blocks = (ma.cells size spaceSize).map Prod.fst := by
  simp only [Addr.blocks, Addr.cells, List.map_cons, List.map_map]
  rfl

theorem ModuleAddress.blocks_eq {bus : InsLibBusType} (hbus : bus ≠ .notSet) (ma : ModuleAddress B bus) :
    ModuleAddress.blocks bus ma = (ModuleAddress.cells sz bus ma).map Prod.fst := by
  cases bus with
  | carrier => simp only [ModuleAddress.blocks, ModuleAddress.cells, List.map_flatMap, ← Addr.blocks_eq]
  | vme => simp only [ModuleAddress.blocks, ModuleAddress.cells, List.map_flatMap, ← Addr.blocks_eq]
  | pmc => simp only [ModuleAddress.blocks, ModuleAddress.cells, List.map_flatMap, ← Addr.blocks_eq]
  | pci => simp only [ModuleAddress.blocks, ModuleAddress.cells, List.map_flatMap, ← Addr.blocks_eq]
  | notSet => exact absurd rfl hbus

theorem Modl.blocks_eq {modld : Modl B} (hbus : modld.fields.busType ≠ .notSet) :
    modld.blocks = (modld.cells sz).map Prod.fst := by
  simp only [Modl.blocks, Modl.cells, ModuleAddress.blocks_eq sz hbus, extraCells, isrCells, List.map_cons,
    List.map_append, List.map_map, List.cons_append, List.append_assoc]
  rfl

theorem busType_of_erase {drvrd clone : Drvr B} (h : clone.erase = drvrd.erase)
    (hbus : ∀ modld ∈ drvrd.modules, modld.fields.busType ≠ .notSet) :
    ∀ modld ∈ clone.modules, modld.fields.busType ≠ .notSet := by
  intro modld hmem
  have hmod : clone.modules.map Modl.erase = drvrd.modules.map Modl.erase := congrArg Drvr.modules h
  have hin : modld.erase ∈ drvrd.modules.map Modl.erase := hmod ▸ List.mem_map_of_mem hmem
  obtain ⟨source, hsource, heq⟩ := List.mem_map.mp hin
  have hfields : source.fields = modld.fields := congrArg (fun m : Modl Unit => m.fields) heq
  exact hfields ▸ hbus source hsource

/-- When every module says what bus it is on, the clone shares nothing with the driver. -/
theorem cloneOf_own (hbus : ∀ modld ∈ drvrd.modules, modld.fields.busType ≠ .notSet) :
    ∀ b ∈ (cloneOf fresh sz drvrd next).flatMap Drvr.blocks,
      ∃ size, .acquire (b, size) ∈ (insLibCloneOneDriver fresh sz (drvrd :: next) noCalls).2.log := by
  obtain ⟨clone, hclone, herase⟩ := cloneOf_singleton fresh sz drvrd next
  intro b hb
  have hblocks : clone.blocks = (clone.cells sz).map Prod.fst := by
    rw [Drvr.blocks, Drvr.cells, List.map_cons, List.map_flatMap]
    congr 1
    exact List.flatMap_congr fun modld hmem => Modl.blocks_eq sz (busType_of_erase herase hbus modld hmem)
  rw [hclone, List.flatMap_singleton, hblocks] at hb
  obtain ⟨⟨_, size⟩, hcell, rfl⟩ := List.mem_map.mp hb
  refine ⟨size, ?_⟩
  rw [cloneOf_log, hclone, List.flatMap_singleton]
  exact List.mem_map_of_mem hcell

theorem Addr.length_freed {F S : Type} (size spaceSize : ℕ) (ma : Option (Addr B F S)) :
    ((Option.toList ma).flatMap (Addr.freed size spaceSize)).length =
      ((Option.toList ma).flatMap (Addr.cells size spaceSize)).length := by
  cases ma with
  | none => rfl
  | some ma => simp [Addr.freed, Addr.cells]

theorem ModuleAddress.length_freed (bus : InsLibBusType) (ma : ModuleAddress B bus) :
    (ModuleAddress.freed sz bus ma).length = (ModuleAddress.cells sz bus ma).length := by
  cases bus with
  | carrier => exact Addr.length_freed _ _ ma
  | vme => exact Addr.length_freed _ _ ma
  | pmc => exact Addr.length_freed _ _ ma
  | pci => exact Addr.length_freed _ _ ma
  | notSet => rfl

/-- Of every module one block stays behind: its own. -/
theorem length_freedModules (l : List (Modl B)) :
    (freedModules sz l).length + l.length = (l.flatMap (Modl.cells sz)).length := by
  induction l with
  | nil => rfl
  | cons modld next ih =>
    have haddr := ModuleAddress.length_freed sz modld.fields.busType modld.moduleAddress
    simp only [freedModules, Modl.freed, Modl.cells, extraFreed, extraCells, List.flatMap_cons, List.length_append,
      List.length_cons, List.length_map]
    omega

theorem Drvr.length_freed (clone : Drvr B) :
    (clone.freed sz).length + clone.modules.length = (clone.cells sz).length := by
  have := length_freedModules sz clone.modules
  simp only [Drvr.freed, Drvr.cells, List.length_append, List.length_cons, List.length_nil]
  omega

theorem modules_of_erase {drvrd clone : Drvr B} (h : clone.erase = drvrd.erase) :
    clone.modules.length = drvrd.modules.length := by
  have := congrArg (fun d => d.modules.length) h
  simpa [Drvr.erase] using this

/-- When a log of acquisitions and then releases is settled, there are as many of each. -/
theorem modules_nil_of_settled [DecidableEq B] {drvrd : Drvr B} {next : List (Drvr B)}
    (h : Settled (cloneThenFree fresh sz (drvrd :: next) noCalls).2.log) :
    drvrd.modules = [] := by
  obtain ⟨clone, hclone, herase⟩ := cloneOf_singleton fresh sz drvrd next
  rw [cloneThenFree_log fresh sz hclone] at h
  have hcard := congrArg Multiset.card h.released_eq
  rw [released_append, acquired_append, released_acquires, released_releases, acquired_acquires, acquired_releases,
    zero_add, add_zero, Multiset.coe_card, Multiset.coe_card] at hcard
  have hlen := Drvr.length_freed sz clone
  have hmod := modules_of_erase herase
  exact List.eq_nil_of_length_eq_zero (by omega)

/-- The copy of a driver is intact exactly when the driver has no modules. -/
theorem cloneFreeIntact_iff [DecidableEq B] (fresh : ℕ ↪ B) (sz : Sizes) (drvrd : Drvr B) (next : List (Drvr B)) :
    CloneFreeIntact fresh sz drvrd next ↔ drvrd.modules = [] := by
  refine ⟨fun h => modules_nil_of_settled fresh sz h.settled, fun hmod => ?_⟩
  obtain ⟨clone, hclone, herase⟩ := cloneOf_singleton fresh sz drvrd next
  have hnil : clone.modules = [] :=
    List.eq_nil_of_length_eq_zero (by rw [modules_of_erase herase, hmod, List.length_nil])
  have hcells : clone.cells sz = [(clone.block, sz.drvrDesc)] := by simp [Drvr.cells, hnil]
  have hfreed : clone.freed sz = [(clone.block, sz.drvrDesc)] := by simp [Drvr.freed, hnil, freedModules]
  refine ⟨cloneOf_erase fresh sz drvrd next, cloneOf_own fresh sz drvrd next (by simp [hmod]), ?_⟩
  rw [cloneThenFree_log fresh sz hclone, hcells, hfreed]
  have htake : Holds ([] ++ [(clone.block, sz.drvrDesc)].map Entry.acquire) _ := Holds.nil.acquires _
  exact htake.releases [(clone.block, sz.drvrDesc)]

/-- The structs of a 32-bit kernel. -/
def sizes32 : Sizes where
  carAddressSpace := 152
  vmeAddressSpace := 160
  pciAddressSpace := 152
  carModuleAddress := 172
  vmeModuleAddress := 132
  pciModuleAddress := 156
  intrDesc := 140
  modlDesc := 188
  drvrDesc := 184

/-- One driver with one VME module without address spaces, as it lies in the blocks 100 and 101. -/
def oneVmeModule : Drvr ℕ where
  block := 100
  fields := ⟨"mtt".toList, 0, 0, 1, [], -1⟩
  modules := [⟨101, ⟨.vme, 1, 0, [], "MTT".toList⟩, none, none, none⟩]

/-- The copy of the module is never freed. -/
theorem cloneFreeIntact_oneVmeModule :
    ¬ CloneFreeIntact (Function.Embedding.refl ℕ) sizes32 oneVmeModule [] := by
  intro h
  have hnil := modules_nil_of_settled _ _ h.settled
  exact List.cons_ne_nil _ _ hnil

end CloneFree

end HtDrivers.InsLib.Kernel
