import HtDrivers.Vmebridge.WindowTable

/-! # The invariant of the window table

Every operation of `vme_window.c` keeps the user counts, the lists, the enable bits of the chip and
the addresses of the mappings consistent, whatever the kernel answers. -/
namespace HtDrivers.Vmebridge
set_option autoImplicit false

/-- A mapping on window `i` with descriptor `w`: the attributes agree, and the VME address, the PCI
address and the kernel address have one offset from the window. -/
structure MappingOf (i : WindowNum) (w m : VmeMapping) : Prop where
  num : m.windowNum = i.val
  am : m.am = w.am
  dataWidth : m.dataWidth = w.dataWidth
  pci : m.pciAddrl - w.pciAddrl = m.vmeAddrl - w.vmeAddrl
  kernelVa : m.kernelVa - w.kernelVa = m.vmeAddrl - w.vmeAddrl

structure WindowInv (i : WindowNum) (w : Window) (trans : Otrans) : Prop where
  users : w.users = w.mappings.length
  empty : w.active = false → w.mappings = []
  enabled : w.active = trans.enabled
  num : w.active = true → w.desc.windowNum = i.val
  mapped : ∀ m ∈ w.mappings, MappingOf i w.desc m.desc

def TableInv (t : WindowTable) : Prop := ∀ i, WindowInv i (t.window i) (t.otrans i)

/-! ## Critical sections -/

section Sections
variable {i : WindowNum} {w w' : Window} {trans trans' : Otrans} {desc desc' : VmeMapping}

theorem windowIndex_val (i : WindowNum) : windowIndex i.val = some i := by
  have hi : (0 : Int) ≤ i.val ∧ (i.val : Int) < tsi148NumOutWindows := by omega
  unfold windowIndex
  rw [dif_pos hi]
  rfl

theorem windowIndex_eq_some {num : Int} (h : windowIndex num = some i) : num = i.val := by
  unfold windowIndex at h
  split at h
  · rename_i hnum
    obtain rfl := Option.some.inj h
    change num = (num.toNat : Int)
    omega
  · cases h

theorem attach_mappingOf (i : WindowNum) (w m : VmeMapping) (ham : w.am = m.am) (hdw : w.dataWidth = m.dataWidth) :
    MappingOf i w (attach i w m) where
  num := rfl
  am := ham.symm
  dataWidth := hdw.symm
  pci := by
    change w.pciAddrl + (m.vmeAddrl - w.vmeAddrl) - w.pciAddrl = m.vmeAddrl - w.vmeAddrl
    grind
  kernelVa := by
    change w.kernelVa + (m.vmeAddrl - w.vmeAddrl) - w.kernelVa = m.vmeAddrl - w.vmeAddrl
    grind

theorem addMapping_inv (h : WindowInv i w trans) (hactive : w.active = true) (hm : MappingOf i w.desc desc)
    (env : AddEnv) (file : Option ℕ) : WindowInv i (addMapping env w desc file).2 trans := by
  unfold addMapping
  cases hnew : newMapping env desc file with
  | none => exact h
  | some m =>
    have hdesc : m.desc = desc := by
      obtain ⟨addr, -, rfl⟩ := Option.map_eq_some_iff.mp hnew
      rfl
    refine ⟨?_, fun hoff => ?_, h.enabled, h.num, ?_⟩
    · have := h.users
      simp only [Window.count, Window.link, List.length_append, List.length_singleton]
      omega
    · change w.active = false at hoff
      rw [hactive] at hoff
      cases hoff
    · intro m' hmem
      obtain hold | hnew' := List.mem_append.mp hmem
      · exact h.mapped m' hold
      · obtain rfl := List.mem_singleton.mp hnew'
        change MappingOf i w.desc m'.desc
        rw [hdesc]
        exact hm

/-- A section that takes mappings off the list and counts them off. -/
structure Shrinks (w w' : Window) : Prop where
  active : w'.active = w.active
  desc : w'.desc = w.desc
  mappings : w'.mappings.Sublist w.mappings
  users : w'.users + w.mappings.length = w.users + w'.mappings.length

theorem Shrinks.nil (h : Shrinks w w') (hnil : w.mappings = []) : w'.mappings = [] := by
  have hsub := h.mappings
  rw [hnil] at hsub
  exact List.sublist_nil.mp hsub

theorem Shrinks.refl (w : Window) : Shrinks w w := ⟨rfl, rfl, List.Sublist.refl _, rfl⟩

theorem WindowInv.shrink (h : WindowInv i w trans) (hs : Shrinks w w') : WindowInv i w' trans := by
  refine ⟨?_, fun hoff => hs.nil (h.empty (hs.active ▸ hoff)), hs.active ▸ h.enabled, fun hon => ?_, fun m hm => ?_⟩
  · have hold := h.users
    have hnew := hs.users
    omega
  · rw [hs.desc]
    exact h.num (hs.active ▸ hon)
  · rw [hs.desc]
    exact h.mapped m (hs.mappings.subset hm)

theorem removeMapping_shrinks (w : Window) (desc : VmeMapping) (file : Option ℕ) :
    Shrinks w (removeMapping w desc file).2 := by
  unfold removeMapping
  split
  · rename_i hany
    obtain ⟨m, hm, hnamed⟩ := List.any_eq_true.mp hany
    have hlen := List.length_eraseP_of_mem hm hnamed
    have hpos := List.length_pos_of_mem hm
    refine ⟨rfl, rfl, List.eraseP_sublist, ?_⟩
    simp only [hlen]
    omega
  · exact .refl w

theorem releaseLocked_shrinks (w : Window) (desc : VmeMapping) (force : Bool) (file : Option ℕ) :
    Shrinks w (releaseLocked w desc force file).2.1 := by
  unfold releaseLocked
  split
  · exact removeMapping_shrinks w desc file
  · exact .refl w

theorem length_eq_count_add_rest (file : ℕ) (l : List Mapping) :
    l.length = (l.countP fun m => m.client.file = some file) +
    (l.filter fun m => m.client.file ≠ some file).length := by
  have hsplit := List.length_eq_countP_add_countP (fun m : Mapping => decide (m.client.file = some file)) (l := l)
  have hrest : (l.filter fun m => m.client.file ≠ some file).length =
      l.countP fun m => ¬ decide (m.client.file = some file) = true := by
    rw [List.countP_eq_length_filter]
    simp
  omega

theorem closeLocked_shrinks (file : ℕ) (w : Window) : Shrinks w (closeLocked file w) := by
  unfold closeLocked
  split
  · refine ⟨rfl, rfl, List.filter_sublist, ?_⟩
    have hsplit := length_eq_count_add_rest file w.mappings
    simp only
    omega
  · exact .refl w

/-- The descriptor with the addresses `pci_bus_alloc_resource` and `ioremap` gave. -/
def placed (env : CreateEnv) (desc : VmeMapping) : VmeMapping :=
  { desc with kernelVa := env.ioremap, pciAddrl := env.pciAlloc.2.setWidth 32 }

theorem createLocked_cases {env : CreateEnv} {rc : Int}
    (h : createLocked env i desc w trans = (rc, desc', w', trans')) :
    (rc ≠ 0 ∧ trans' = trans ∧ ∃ rsrc, w' = { w with rsrc := rsrc }) ∨
    (rc = 0 ∧ w.active = false ∧ tsi148CreateWindow (placed env desc) trans = (0, desc', trans') ∧
      ∃ rsrc, w' = { w with active := true, rsrc := rsrc, desc := desc' }) := by
  unfold createLocked at h
  split at h
  · simp only [Prod.mk.injEq] at h
    obtain ⟨rfl, -, rfl, rfl⟩ := h
    exact .inl ⟨by decide, rfl, w.rsrc, rfl⟩
  rename_i hidle
  split at h
  · rename_i hpci
    simp only [Prod.mk.injEq] at h
    obtain ⟨rfl, -, rfl, rfl⟩ := h
    exact .inl ⟨hpci, rfl, zeroResource, rfl⟩
  simp only at h
  split at h
  · simp only [Prod.mk.injEq] at h
    obtain ⟨rfl, -, rfl, rfl⟩ := h
    exact .inl ⟨by decide, rfl, zeroResource, rfl⟩
  rcases hchip : tsi148CreateWindow (placed env desc) trans with ⟨rc₁, desc₁, regs⟩
  have hcall := hchip
  unfold placed at hcall
  simp only [hcall] at h
  split at h
  · rename_i hrc
    simp only [Prod.mk.injEq] at h
    obtain ⟨rfl, -, rfl, rfl⟩ := h
    obtain ⟨-, -, rfl⟩ | ⟨hzero, -⟩ := tsi148CreateWindow_cases hchip
    · exact .inl ⟨hrc, rfl, zeroResource, rfl⟩
    · exact absurd hzero hrc
  · rename_i hrc
    simp only [Prod.mk.injEq] at h
    obtain ⟨rfl, rfl, rfl, rfl⟩ := h
    refine .inr ⟨rfl, by simpa using hidle, ?_, _, rfl⟩
    rw [not_not.mp hrc]

theorem createLocked_ok {env : CreateEnv} (hidle : w.active = false) (hpci : env.pciAlloc.1 = 0)
    (hva : env.ioremap ≠ 0) (hchip : (tsi148CreateWindow (placed env desc) trans).1 = 0) :
    (createLocked env i desc w trans).1 = 0 := by
  unfold createLocked
  rw [hidle, if_neg Bool.false_ne_true, if_neg (not_not.mpr hpci)]
  simp only
  rw [if_neg hva]
  change (if (tsi148CreateWindow (placed env desc) trans).1 ≠ 0 then _ else _ : Int × VmeMapping × Window × Otrans).1 =
    0
  rw [if_neg (not_not.mpr hchip)]

theorem createLocked_inv {env : CreateEnv} {rc : Int} (hw : WindowInv i w trans) (hnum : desc.windowNum = i.val)
    (h : createLocked env i desc w trans = (rc, desc', w', trans')) : WindowInv i w' trans' := by
  obtain ⟨-, rfl, rsrc, rfl⟩ | ⟨-, hidle, hchip, rsrc, rfl⟩ := createLocked_cases h
  · exact ⟨hw.users, hw.empty, hw.enabled, hw.num, hw.mapped⟩
  · obtain ⟨hrc, -⟩ | ⟨-, hdesc, -, attrs, -, rfl⟩ := tsi148CreateWindow_cases hchip
    · exact absurd hrc (by decide)
    · refine ⟨hw.users, fun hoff => (by cases hoff), ?_, fun _ => ?_, ?_⟩
      · exact (tsi148WindowRegs_enabled attrs _).symm
      · rw [hdesc]
        exact hnum
      · intro m hm
        have hnone := hw.empty hidle
        change m ∈ w.mappings at hm
        rw [hnone] at hm
        cases hm

theorem dropMappings_nil (husers : w.users = w.mappings.length) :
    w.dropMappings.mappings = [] ∧ w.dropMappings.users = 0 := by
  unfold Window.dropMappings
  split
  · refine ⟨rfl, ?_⟩
    change w.users - w.mappings.length = 0
    omega
  · have hlen : w.mappings.length = 0 := by omega
    exact ⟨List.length_eq_zero_iff.mp hlen, by omega⟩

end Sections

/-! ## Calls -/

section Calls
variable {t : WindowTable} {i : WindowNum}

theorem TableInv.set (h : TableInv t) {w : Window} {trans : Otrans} (hw : WindowInv i w trans) :
    TableInv { window := Function.update t.window i w, otrans := Function.update t.otrans i trans } := by
  intro j
  by_cases hj : j = i
  · subst hj
    simpa only [Function.update_self] using hw
  · simpa only [Function.update_of_ne hj] using h j

theorem TableInv.setWindow (h : TableInv t) {w : Window} (hw : WindowInv i w (t.otrans i)) :
    TableInv (t.setWindow i w) := by
  have hset := h.set hw
  rwa [Function.update_eq_self] at hset

theorem TableInv.create (h : TableInv t) (env : CreateEnv) {desc : VmeMapping} (hnum : desc.windowNum = i.val) :
    TableInv (t.create env i desc).2.2 := by
  unfold WindowTable.create
  rcases hcall : createLocked env i desc (t.window i) (t.otrans i) with ⟨rc, desc', w', trans'⟩
  exact h.set (createLocked_inv (h i) hnum hcall)

theorem roundWindow_windowNum (desc : VmeMapping) : (roundWindow desc).windowNum = desc.windowNum := by
  unfold roundWindow
  simp only
  split <;> split <;> rfl

theorem TableInv.vmeCreateWindow (h : TableInv t) (env : WindowEnv) (desc : VmeMapping) :
    TableInv (vmeCreateWindow env t desc).2.2 := by
  unfold HtDrivers.Vmebridge.vmeCreateWindow
  split
  · exact h
  · rename_i i hi
    split
    · exact h
    split
    · exact h.create env.create ((roundWindow_windowNum desc).trans (windowIndex_eq_some hi))
    · exact h

theorem TableInv.destroy (h : TableInv t) (i : WindowNum) : TableInv (t.destroy i).2 := by
  unfold WindowTable.destroy
  simp only
  split
  · rename_i hactive
    obtain ⟨hnil, hzero⟩ := dropMappings_nil (h i).users
    have hdesc : (t.window i).dropMappings.desc = (t.window i).desc := by
      unfold Window.dropMappings
      split <;> rfl
    -- the registers that are wiped are those of the window
    have hindex : windowIndex (t.window i).dropMappings.desc.windowNum = some i := by
      rw [hdesc, (h i).num hactive, windowIndex_val]
    simp only [tsi148RemoveWindow, hindex]
    apply h.set
    exact ⟨by simp [hnil, hzero], fun _ => hnil, wipedOtrans_enabled.symm, fun hon => (by cases hon), by simp [hnil]⟩
  · exact h

theorem TableInv.vmeDestroyWindow (h : TableInv t) (env : WindowEnv) (num : Int) :
    TableInv (vmeDestroyWindow env t num).2 := by
  unfold HtDrivers.Vmebridge.vmeDestroyWindow
  split
  · exact h
  · split
    · exact h.destroy _
    · exact h

theorem TableInv.add (h : TableInv t) (env : AddEnv) {m : VmeMapping} (file : Option ℕ)
    (hactive : (t.window i).active = true) (ham : (t.window i).desc.am = m.am)
    (hdw : (t.window i).desc.dataWidth = m.dataWidth) : TableInv (t.add env i m file).2.2 :=
  h.setWindow (addMapping_inv (h i) hactive (attach_mappingOf i _ m ham hdw) env file)

theorem findLoop_ok {lock : WindowNum → Bool} {m : VmeMapping} {is : List WindowNum} {r : Option WindowNum}
    (h : findLoop lock t m is = .ok r) : r = is.find? fun i => (t.window i).matches m := by
  induction is with
  | nil =>
    obtain rfl : none = r := by simpa [findLoop] using h
    rfl
  | cons i is ih =>
    rw [findLoop] at h
    split at h
    · split at h
      · rename_i hmatch
        obtain rfl : some i = r := by simpa using h
        simp [hmatch]
      · rename_i hmatch
        simp [hmatch, ih h]
    · cases h

theorem findLoop_found {lock : WindowNum → Bool} {m : VmeMapping} {is : List WindowNum}
    (h : findLoop lock t m is = .ok (some i)) : (t.window i).matches m = true := by
  have hfound := List.find?_some (findLoop_ok h).symm
  exact hfound

theorem Window.matches_iff {w : Window} {m : VmeMapping} :
    w.matches m = true ↔ w.active = true ∧ w.desc.windowEnabled ≠ 0 ∧ w.desc.vmeAddru = 0 ∧ w.desc.sizeu = 0 ∧
      w.desc.am = m.am ∧ w.desc.dataWidth = m.dataWidth ∧ ¬ w.desc.vmeAddrl > m.vmeAddrl ∧
      ¬ w.desc.vmeAddrl + w.desc.sizel < m.vmeAddrl + m.sizel ∧
      ¬ (w.desc.am = vme2e6U ∧ w.desc.v2esstMode ≠ m.v2esstMode) := by
  unfold Window.matches
  exact decide_eq_true_iff

theorem vmeCreateWindow_created {env : WindowEnv} {desc desc' : VmeMapping} {t' : WindowTable}
    (hnum : desc.windowNum = i.val) (h : vmeCreateWindow env t desc = (0, desc', t')) :
    desc.sizel ≠ 0 ∧ (t.window i).active = false ∧ (t'.window i).active = true ∧ (t'.window i).desc = desc' ∧
      tsi148CreateWindow (placed env.create (roundWindow desc)) (t.otrans i) = (0, desc', t'.otrans i) := by
  unfold HtDrivers.Vmebridge.vmeCreateWindow at h
  rw [hnum, windowIndex_val] at h
  simp only at h
  split at h
  · have hrc : -EINVAL = 0 := congrArg Prod.fst h
    exact absurd hrc (by decide)
  rename_i hsize
  split at h
  · unfold WindowTable.create at h
    rcases hcall : createLocked env.create i (roundWindow desc) (t.window i) (t.otrans i) with ⟨rc, desc₁, w', trans'⟩
    rw [hcall] at h
    simp only [Prod.mk.injEq] at h
    obtain ⟨rfl, rfl, rfl⟩ := h
    obtain ⟨hne, -⟩ | ⟨-, hidle, hchip, rsrc, rfl⟩ := createLocked_cases hcall
    · exact absurd rfl hne
    · simp only [Function.update_self]
      exact ⟨hsize, hidle, trivial, trivial, hchip⟩
  · have hrc : -ERESTARTSYS = 0 := congrArg Prod.fst h
    exact absurd hrc (by decide)

theorem tsi148CreateWindow_attrs {desc desc' : VmeMapping} {trans trans' : Otrans}
    (h : tsi148CreateWindow desc trans = (0, desc', trans')) :
    desc'.am = desc.am ∧ desc'.dataWidth = desc.dataWidth := by
  obtain ⟨hrc, -⟩ | ⟨-, rfl, -⟩ := tsi148CreateWindow_cases h
  · exact absurd hrc (by decide)
  · exact ⟨rfl, rfl⟩

theorem windowRequest_attrs (i : WindowNum) (m : VmeMapping) :
    (windowRequest i m).windowNum = i.val ∧ (windowRequest i m).am = m.am ∧
      (windowRequest i m).dataWidth = m.dataWidth ∧ (windowRequest i m).v2esstMode = m.v2esstMode := by
  unfold windowRequest vmeOptimizeWindowSize
  simp only
  generalize (if m.am ∈ a24Modifiers then (0x1000000 : U32) else if m.am ∈ a16Modifiers then 0x10000 else 0) = resize
  split
  · exact ⟨rfl, rfl, rfl, rfl⟩
  · exact ⟨rfl, rfl, rfl, rfl⟩

theorem roundWindow_attrs (desc : VmeMapping) :
    (roundWindow desc).am = desc.am ∧ (roundWindow desc).dataWidth = desc.dataWidth ∧
      (roundWindow desc).v2esstMode = desc.v2esstMode := by
  unfold roundWindow
  simp only
  split <;> split <;> exact ⟨rfl, rfl, rfl⟩

theorem TableInv.vmeFindMapping (h : TableInv t) (env : WindowEnv) (m : VmeMapping) (force : Bool) (file : Option ℕ) :
    TableInv (vmeFindMapping env t m force file).2.2 := by
  unfold HtDrivers.Vmebridge.vmeFindMapping
  split
  · exact h
  split
  · exact h
  · rename_i i hfound
    have hmatch := Window.matches_iff.mp (findLoop_found hfound)
    exact h.add env.add file hmatch.1 hmatch.2.2.2.2.1 hmatch.2.2.2.2.2.1
  split
  · exact h
  split
  · exact h
  rename_i i _
  have hcreated := h.vmeCreateWindow env (windowRequest i m)
  rcases hcall : HtDrivers.Vmebridge.vmeCreateWindow env t (windowRequest i m) with ⟨rc, desc', t'⟩
  rw [hcall] at hcreated
  simp only
  split
  · exact hcreated
  rename_i hrc
  obtain rfl : rc = 0 := not_not.mp hrc
  obtain ⟨hnum, ham, hdw, -⟩ := windowRequest_attrs i m
  obtain ⟨-, -, hactive, hdesc, hchip⟩ := vmeCreateWindow_created hnum hcall
  obtain ⟨hcam, hcdw⟩ := tsi148CreateWindow_attrs hchip
  obtain ⟨hram, hrdw, -⟩ := roundWindow_attrs (windowRequest i m)
  apply TableInv.add hcreated env.add file hactive
  · rw [hdesc, hcam, ← ham, ← hram]
    rfl
  · rw [hdesc, hcdw, ← hdw, ← hrdw]
    rfl

theorem TableInv.vmeReleaseMapping (h : TableInv t) (env : WindowEnv) (desc : VmeMapping) (force : Bool)
    (file : Option ℕ) : TableInv (vmeReleaseMapping env t desc force file).2 := by
  unfold HtDrivers.Vmebridge.vmeReleaseMapping
  split
  · exact h
  rename_i i _
  split
  · have hreleased : TableInv (t.setWindow i (releaseLocked (t.window i) desc force file).2.1) := by
      apply h.setWindow
      exact (h i).shrink (releaseLocked_shrinks _ desc force file)
    simp only
    split
    · exact hreleased.vmeDestroyWindow env desc.windowNum
    · exact hreleased
  · exact h

theorem TableInv.closeLoop (h : TableInv t) (lock : WindowNum → Bool) (file : ℕ) (is : List WindowNum) :
    TableInv (closeLoop lock file t is).2 := by
  induction is generalizing t with
  | nil => exact h
  | cons i is ih =>
    rw [HtDrivers.Vmebridge.closeLoop]
    split
    · exact ih (h.setWindow ((h i).shrink (closeLocked_shrinks file _)))
    · exact h

theorem TableInv.exitLoop (h : TableInv t) (env : WindowEnv) (is : List WindowNum) : TableInv (exitLoop env t is) := by
  induction is generalizing t with
  | nil => exact h
  | cons i is ih =>
    rw [HtDrivers.Vmebridge.exitLoop]
    apply ih
    split
    · exact h.vmeDestroyWindow env i.val
    · exact h

end Calls

/-! ## Sequences of calls -/

/-- A call with the answers the kernel gives during it. -/
inductive WindowCall where
  | create (env : WindowEnv) (desc : VmeMapping)
  | destroy (env : WindowEnv) (num : Int)
  | find (env : WindowEnv) (m : VmeMapping) (force : Bool) (file : Option ℕ)
  | release (env : WindowEnv) (desc : VmeMapping) (force : Bool) (file : Option ℕ)
  | close (env : WindowEnv) (file : ℕ)
  | exit (env : WindowEnv)

def callWindow (t : WindowTable) : WindowCall → WindowTable
  | .create env desc => (vmeCreateWindow env t desc).2.2
  | .destroy env num => (vmeDestroyWindow env t num).2
  | .find env m force file => (vmeFindMapping env t m force file).2.2
  | .release env desc force file => (vmeReleaseMapping env t desc force file).2
  | .close env file => (vmeWindowRelease env t file).2
  | .exit env => vmeWindowExit env t

def runWindowCalls (calls : List WindowCall) : WindowTable := calls.foldl callWindow vmeWindowInit

theorem TableInv.callWindow {t : WindowTable} (h : TableInv t) (call : WindowCall) : TableInv (callWindow t call) := by
  cases call with
  | create env desc => exact h.vmeCreateWindow env desc
  | destroy env num => exact h.vmeDestroyWindow env num
  | find env m force file => exact h.vmeFindMapping env m force file
  | release env desc force file => exact h.vmeReleaseMapping env desc force file
  | close env file => exact h.closeLoop env.scanLock file _
  | exit env => exact h.exitLoop env _

theorem tableInv_init : TableInv vmeWindowInit := fun i =>
  ⟨rfl, fun _ => rfl, wipedOtrans_enabled.symm, fun hon => (by cases hon), fun m hm => (by cases hm)⟩

/-- The invariant holds after every sequence of calls. -/
theorem windowTable_invariant (calls : List WindowCall) : TableInv (runWindowCalls calls) :=
  List.foldlRecOn calls callWindow tableInv_init fun _ h call _ => h.callWindow call

end HtDrivers.Vmebridge
