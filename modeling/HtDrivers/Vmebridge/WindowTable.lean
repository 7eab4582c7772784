import HtDrivers.Vmebridge.Tsi148Window

/-! # Windows and mappings (`vme_window.c`)

A hardware window translates a range of PCI addresses to a VME address space; logical mappings are
attached to the windows. Each `...Locked` function is the body of a critical section under the mutex
of one window. Pointers are 32-bit words and a null pointer is 0; a `struct file` and the address of a
mapping are numbers.
-/
namespace HtDrivers.Vmebridge
set_option autoImplicit false

abbrev tsi148NumOutWindows : ℕ := 8

abbrev WindowNum := Fin tsi148NumOutWindows

/-- `struct resource`: the PCI address range of a window. -/
structure Resource where
  name : Option String
  start : BitVec 64
  stop : BitVec 64
  flags : U32
  deriving DecidableEq, Repr

def zeroResource : Resource := ⟨none, 0, 0, 0⟩

def ioresourceMem : U32 := 0x200

/-- `struct vme_taskinfo`; `file` is `none` for the kernel. -/
structure VmeTaskinfo where
  pidNr : Int
  name : String
  file : Option ℕ
  deriving DecidableEq, Repr

/-- `struct mapping`; `addr` is where it was allocated. -/
structure Mapping where
  addr : ℕ
  desc : VmeMapping
  client : VmeTaskinfo
  deriving DecidableEq, Repr

structure Window where
  active : Bool
  rsrc : Resource
  desc : VmeMapping
  mappings : List Mapping
  users : Int
  deriving DecidableEq, Repr

/-- `window_table` and the outbound registers of the chip. -/
structure WindowTable where
  window : WindowNum → Window
  otrans : WindowNum → Otrans

def WindowTable.setWindow (t : WindowTable) (i : WindowNum) (w : Window) : WindowTable :=
  { t with window := Function.update t.window i w }

def zeroMapping : VmeMapping :=
  { windowNum := 0, kernelVa := 0, userVa := 0, fd := 0, windowEnabled := 0, dataWidth := 0, am := 0
    readPrefetchEnabled := 0, readPrefetchSize := 0, v2esstMode := 0, bcastSelect := 0, pciAddru := 0
    pciAddrl := 0, sizeu := 0, sizel := 0, vmeAddru := 0, vmeAddrl := 0 }

/-- `vme_window_init`, after `tsi148_quiesce` has disabled all windows. -/
def vmeWindowInit : WindowTable :=
  { window := fun _ => ⟨false, zeroResource, zeroMapping, [], 0⟩, otrans := fun _ => wipedOtrans }

/-- The bounds check on a window number. -/
def windowIndex (num : Int) : Option WindowNum :=
  if h : 0 ≤ num ∧ num < tsi148NumOutWindows then some ⟨num.toNat, by omega⟩ else none

/-! ## The kernel's answers -/

/-- The answers `vme_create_window` gets: the name buffer, the return value of
`pci_bus_alloc_resource` and the start it assigns, and the address `ioremap` returns. -/
structure CreateEnv where
  nameAlloc : Bool
  pciAlloc : Int × BitVec 64
  ioremap : U32
  deriving DecidableEq, Repr

/-- The answers `add_mapping` gets: the address of the new object, and the current task. -/
structure AddEnv where
  kzalloc : Option ℕ
  pid : Int
  comm : String
  deriving DecidableEq, Repr

/-- The answers of one call. A lock that is not obtained was interrupted by a signal. -/
structure WindowEnv where
  scanLock : WindowNum → Bool
  createLock : WindowNum → Bool
  destroyLock : WindowNum → Bool
  create : CreateEnv
  add : AddEnv

/-! ## `add_mapping` and `remove_mapping` -/

def taskinfo (env : AddEnv) : Option ℕ → VmeTaskinfo
  | some file => ⟨env.pid, env.comm, some file⟩
  | none => ⟨0, "kernel", none⟩

/-- The object `add_mapping` allocates and fills. -/
def newMapping (env : AddEnv) (desc : VmeMapping) (file : Option ℕ) : Option Mapping :=
  env.kzalloc.map fun addr => ⟨addr, desc, taskinfo env file⟩

def Window.link (w : Window) (m : Mapping) : Window := { w with mappings := w.mappings ++ [m] }

def Window.count (w : Window) : Window := { w with users := w.users + 1 }

def addMapping (env : AddEnv) (w : Window) (desc : VmeMapping) (file : Option ℕ) : Int × Window :=
  match newMapping env desc file with
  | none => (-ENOMEM, w)
  | some m => (0, (w.link m).count)

def namesMapping (desc : VmeMapping) (file : Option ℕ) (m : Mapping) : Bool :=
  m.desc.vmeAddru = desc.vmeAddru ∧ m.desc.vmeAddrl = desc.vmeAddrl ∧ m.desc.sizeu = desc.sizeu ∧
    m.desc.sizel = desc.sizel ∧ m.desc.kernelVa = desc.kernelVa ∧ (file = none ∨ m.client.file = file)

def removeMapping (w : Window) (desc : VmeMapping) (file : Option ℕ) : Int × Window :=
  if w.mappings.any (namesMapping desc file) then
    (0, { w with mappings := w.mappings.eraseP (namesMapping desc file), users := w.users - 1 })
  else (-EINVAL, w)

/-! ## Creating a window -/

/-- The rounding at the head of `vme_create_window`. -/
def roundWindow (desc : VmeMapping) : VmeMapping :=
  let desc :=
    if desc.vmeAddrl &&& 0xffff ≠ 0 then
      let lowaddr := desc.vmeAddrl &&& ~~~0xffff
      let desc := { desc with vmeAddrl := lowaddr }
      -- the address has been overwritten already, so that the size does not grow
      { desc with sizel := desc.sizel + (desc.vmeAddrl - lowaddr) }
    else desc
  if desc.sizel &&& 0xffff ≠ 0 then { desc with sizel := (desc.sizel + 0x10000) &&& ~~~0xffff } else desc

def windowResource (env : CreateEnv) (i : WindowNum) (size : U32) : Resource :=
  { name := if env.nameAlloc then some ("VME Window " ++ toString i.val) else none
    start := 0, stop := size.setWidth 64, flags := ioresourceMem }

def createLocked (env : CreateEnv) (i : WindowNum) (desc : VmeMapping) (w : Window) (trans : Otrans) :
    Int × VmeMapping × Window × Otrans :=
  if w.active then (-EBUSY, desc, w, trans)
  else if env.pciAlloc.1 ≠ 0 then (env.pciAlloc.1, desc, { w with rsrc := zeroResource }, trans)
  else
    let rsrc := { windowResource env i desc.sizel with
      start := env.pciAlloc.2, stop := env.pciAlloc.2 + desc.sizel.setWidth 64 - 1 }
    let desc := { desc with kernelVa := env.ioremap }
    if desc.kernelVa = 0 then (-ENOMEM, desc, { w with rsrc := zeroResource }, trans)
    else
      let desc := { desc with pciAddrl := rsrc.start.setWidth 32 }
      let (rc, desc, regs) := tsi148CreateWindow desc trans
      if rc ≠ 0 then (rc, desc, { w with rsrc := zeroResource }, regs)
      else (0, desc, { w with active := true, rsrc := rsrc, desc := desc }, regs)

/-- The section of `vme_create_window` in the table. -/
def WindowTable.create (t : WindowTable) (env : CreateEnv) (i : WindowNum) (desc : VmeMapping) :
    Int × VmeMapping × WindowTable :=
  let (rc, desc, w, regs) := createLocked env i desc (t.window i) (t.otrans i)
  (rc, desc, { window := Function.update t.window i w, otrans := Function.update t.otrans i regs })

def vmeCreateWindow (env : WindowEnv) (t : WindowTable) (desc : VmeMapping) : Int × VmeMapping × WindowTable :=
  match windowIndex desc.windowNum with
  | none => (-EINVAL, desc, t)
  | some i =>
    if desc.sizel = 0 then (-EINVAL, desc, t)
    else if env.createLock i then t.create env.create i (roundWindow desc)
    else (-ERESTARTSYS, roundWindow desc, t)

/-! ## Destroying a window -/

/-- The removal of all mappings in `vme_destroy_window`. -/
def Window.dropMappings (w : Window) : Window :=
  if 0 < w.users then { w with mappings := [], users := w.users - w.mappings.length } else w

/-- The section of `vme_destroy_window`. `tsi148_remove_window` takes the register index from the
descriptor of the window. -/
def WindowTable.destroy (t : WindowTable) (i : WindowNum) : Int × WindowTable :=
  let w := t.window i
  if w.active then
    let w := w.dropMappings
    let (desc, regs) := tsi148RemoveWindow { w.desc with kernelVa := 0 }
    (0, { window := Function.update t.window i { w with active := false, desc := desc, rsrc := zeroResource }
          otrans := match windowIndex desc.windowNum with
            | some j => Function.update t.otrans j regs
            | none => t.otrans })
  else (-EINVAL, t)

def vmeDestroyWindow (env : WindowEnv) (t : WindowTable) (num : Int) : Int × WindowTable :=
  match windowIndex num with
  | none => (-EINVAL, t)
  | some i => if env.destroyLock i then t.destroy i else (-ERESTARTSYS, t)

/-! ## Finding a mapping -/

def a16Modifiers : List U32 := [vmeA16User, vmeA16Lck, vmeA16Sup]

def a24Modifiers : List U32 :=
  [vmeA24UserMblt, vmeA24UserDataSct, vmeA24UserPrgSct, vmeA24UserBlt, vmeA24SupMblt, vmeA24SupDataSct,
    vmeA24SupPrgSct, vmeA24SupBlt]

def a32Modifiers : List U32 :=
  [vmeA32Lck, vmeA32UserMblt, vmeA32UserDataSct, vmeA32UserPrgSct, vmeA32UserBlt, vmeA32SupMblt, vmeA32SupDataSct,
    vmeA32SupPrgSct, vmeA32SupBlt]

def a40Modifiers : List U32 := [vmeA40Sct, vmeA40Lck, vmeA40Blt]

def vmeMappingSanityCheck (m : VmeMapping) : Int :=
  if m.am ∈ a16Modifiers then if m.vmeAddru ≠ 0 ∨ m.vmeAddrl &&& ~~~0xffff ≠ 0 then -EINVAL else 0
  else if m.am ∈ a24Modifiers then if m.vmeAddru ≠ 0 ∨ m.vmeAddrl &&& ~~~0xffffff ≠ 0 then -EINVAL else 0
  else if m.am ∈ a32Modifiers then if m.vmeAddru ≠ 0 then -EINVAL else 0
  else if m.am ∈ a40Modifiers then if m.vmeAddru &&& ~~~0xff ≠ 0 then -EINVAL else 0
  else 0

def vmeOptimizeWindowSize (desc : VmeMapping) : VmeMapping :=
  let resize : U32 := if desc.am ∈ a24Modifiers then 0x1000000 else if desc.am ∈ a16Modifiers then 0x10000 else 0
  if resize = 0 then desc else { desc with sizeu := 0, sizel := resize, vmeAddru := 0, vmeAddrl := 0 }

/-- The tests on a window in the loop of `__vme_find_mapping`. -/
def Window.matches (w : Window) (m : VmeMapping) : Bool :=
  w.active ∧ w.desc.windowEnabled ≠ 0 ∧ w.desc.vmeAddru = 0 ∧ w.desc.sizeu = 0 ∧ w.desc.am = m.am ∧
    w.desc.dataWidth = m.dataWidth ∧ ¬ w.desc.vmeAddrl > m.vmeAddrl ∧
    ¬ w.desc.vmeAddrl + w.desc.sizel < m.vmeAddrl + m.sizel ∧
    ¬ (w.desc.am = vme2e6U ∧ w.desc.v2esstMode ≠ m.v2esstMode)

/-- The request with the addresses of window `i`. -/
def attach (i : WindowNum) (desc m : VmeMapping) : VmeMapping :=
  let offset := m.vmeAddrl - desc.vmeAddrl
  { m with kernelVa := desc.kernelVa + offset, pciAddrl := desc.pciAddrl + offset, windowNum := i.val }

/-- The first loop of `__vme_find_mapping` over the windows that are left. -/
def findLoop (lock : WindowNum → Bool) (t : WindowTable) (m : VmeMapping) :
    List WindowNum → Except Int (Option WindowNum)
  | [] => .ok none
  | i :: is =>
    if lock i then if (t.window i).matches m then .ok (some i) else findLoop lock t m is
    else .error (-ERESTARTSYS)

/-- The second loop: the first unused window. -/
def unusedWindow (t : WindowTable) : Option WindowNum :=
  (List.finRange tsi148NumOutWindows).find? fun i => !(t.window i).active

/-- Attach the request to window `i` and add the mapping. -/
def WindowTable.add (t : WindowTable) (env : AddEnv) (i : WindowNum) (m : VmeMapping) (file : Option ℕ) :
    Int × VmeMapping × WindowTable :=
  let m := attach i (t.window i).desc m
  let (rc, w) := addMapping env (t.window i) m file
  (rc, m, t.setWindow i w)

/-- The descriptor that `__vme_find_mapping` creates window `i` from. -/
def windowRequest (i : WindowNum) (m : VmeMapping) : VmeMapping := vmeOptimizeWindowSize { m with windowNum := i.val }

/-- `__vme_find_mapping`: the return value, the request as the function leaves it, and the table.
`vme_create_window` does not touch the window number, so that the new window is window `i`. -/
def vmeFindMapping (env : WindowEnv) (t : WindowTable) (m : VmeMapping) (force : Bool) (file : Option ℕ) :
    Int × VmeMapping × WindowTable :=
  if vmeMappingSanityCheck m ≠ 0 then (vmeMappingSanityCheck m, m, t)
  else match findLoop env.scanLock t m (List.finRange tsi148NumOutWindows) with
    | .error rc => (rc, m, t)
    | .ok (some i) => t.add env.add i m file
    | .ok none =>
      if !force then (-EBUSY, m, t)
      else match unusedWindow t with
        | none => (-EBUSY, m, t)
        | some i =>
          let (rc, _, t) := vmeCreateWindow env t (windowRequest i m)
          if rc ≠ 0 then (rc, m, t) else t.add env.add i m file

/-! ## Releasing mappings -/

/-- The section of `__vme_release_mapping`; the flag says that the window is to be destroyed. -/
def releaseLocked (w : Window) (desc : VmeMapping) (force : Bool) (file : Option ℕ) : Int × Window × Bool :=
  if w.active then
    let (rc, w) := removeMapping w desc file
    (rc, w, rc = 0 ∧ w.users = 0 ∧ force = true)
  else (-EINVAL, w, false)

def vmeReleaseMapping (env : WindowEnv) (t : WindowTable) (desc : VmeMapping) (force : Bool) (file : Option ℕ) :
    Int × WindowTable :=
  match windowIndex desc.windowNum with
  | none => (-EINVAL, t)
  | some i =>
    if env.scanLock i then
      let (rc, w, destroy) := releaseLocked (t.window i) desc force file
      if destroy then vmeDestroyWindow env (t.setWindow i w) desc.windowNum else (rc, t.setWindow i w)
    else (-ERESTARTSYS, t)

def closeLocked (file : ℕ) (w : Window) : Window :=
  if w.active then
    { w with mappings := w.mappings.filter fun m => m.client.file ≠ some file
             users := w.users - w.mappings.countP fun m => m.client.file = some file }
  else w

def closeLoop (lock : WindowNum → Bool) (file : ℕ) (t : WindowTable) : List WindowNum → Int × WindowTable
  | [] => (0, t)
  | i :: is => if lock i then closeLoop lock file (t.setWindow i (closeLocked file (t.window i))) is
    else (-ERESTARTSYS, t)

def vmeWindowRelease (env : WindowEnv) (t : WindowTable) (file : ℕ) : Int × WindowTable :=
  closeLoop env.scanLock file t (List.finRange tsi148NumOutWindows)

def exitLoop (env : WindowEnv) (t : WindowTable) : List WindowNum → WindowTable
  | [] => t
  | i :: is => exitLoop env (if (t.window i).active then (vmeDestroyWindow env t i.val).2 else t) is

def vmeWindowExit (env : WindowEnv) (t : WindowTable) : WindowTable :=
  exitLoop env t (List.finRange tsi148NumOutWindows)

end HtDrivers.Vmebridge
