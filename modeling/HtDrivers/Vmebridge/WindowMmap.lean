import HtDrivers.Vmebridge.WindowContain

/-! # Mapping windows to user space (`vme_window_mmap`, `vme_mmap` and `vme_munmap` of `libvmebus.c`)

`vme_window_mmap` looks for a mapping of the caller whose page-rounded PCI range is the requested one.
The check works on the byte address, the page number shifted in 32 bits, and the remap on the page
number itself. The library rounds its request by formulas of its own.

Pointers and `unsigned long` are 32 bits wide.
-/
namespace HtDrivers.Vmebridge
open HtDrivers.Lib.Words
set_option autoImplicit false

def pageShift : ℕ := 12
def pageWord : U32 := 0x1000
def pageMask : U32 := ~~~0xfff

structure Vma where
  vmStart : U32
  vmEnd : U32
  vmPgoff : U32
  deriving DecidableEq, Repr

/-- The page range that `mmap` works on. -/
def Vma.Paged (vma : Vma) : Prop :=
  vma.vmStart.toNat % 4096 = 0 ∧ vma.vmEnd.toNat % 4096 = 0 ∧ vma.vmStart ≤ vma.vmEnd

def vmeCheckMmapRegion (window mapping : VmeMapping) (addr size : U32) : Bool :=
  if addr < window.pciAddrl ∨ addr + size > window.pciAddrl + window.sizel then false
  else
    let alignedStart := mapping.pciAddrl &&& pageMask
    let stop := mapping.pciAddrl + mapping.sizel
    let alignedEnd := if stop &&& ~~~pageMask ≠ 0 then (stop &&& pageMask) + pageWord else stop
    alignedStart = addr ∧ alignedEnd = addr + size

/-- The arguments of `io_remap_pfn_range`. -/
structure Remap where
  addr : U32
  pfn : U32
  size : U32
  deriving DecidableEq, Repr

def vmeRemapPfnRange (vma : Vma) : Remap := ⟨vma.vmStart, vma.vmPgoff, vma.vmEnd - vma.vmStart⟩

/-- The test on one mapping of a window. -/
def mmapMatches (window : VmeMapping) (file : ℕ) (vma : Vma) (m : Mapping) : Bool :=
  let addr := vma.vmPgoff <<< pageShift
  let size := vma.vmEnd - vma.vmStart
  m.client.file = some file ∧ vmeCheckMmapRegion window m.desc addr size = true

/-- The loop over the windows that are left; `remap` answers for `io_remap_pfn_range`. The second
component is the remap that was made. -/
def mmapLoop (lock : WindowNum → Bool) (remap : Remap → Int) (t : WindowTable) (file : ℕ) (vma : Vma) :
    List WindowNum → Int × Option Remap
  | [] => (-EINVAL, none)
  | i :: is =>
    if lock i then
      if (t.window i).active ∧ (t.window i).mappings.any (mmapMatches (t.window i).desc file vma) = true then
        (remap (vmeRemapPfnRange vma), some (vmeRemapPfnRange vma))
      else mmapLoop lock remap t file vma is
    else (-ERESTARTSYS, none)

def vmeWindowMmap (lock : WindowNum → Bool) (remap : Remap → Int) (t : WindowTable) (file : ℕ) (vma : Vma) :
    Int × Option Remap :=
  mmapLoop lock remap t file vma (List.finRange tsi148NumOutWindows)

/-! ## Pages -/

/-- The start of the page behind `n` bytes. -/
def pageUp (n : ℕ) : ℕ := 4096 * ((n + 4095) / 4096)

/-- The page frames a remap covers. -/
def Remap.Covers (r : Remap) (frame : ℕ) : Prop :=
  r.pfn.toNat ≤ frame ∧ frame < r.pfn.toNat + r.size.toNat / 4096

/-- The PCI addresses of the page lie in the range of `w`. -/
def InWindow (w : VmeMapping) (frame : ℕ) : Prop :=
  w.pciAddrl.toNat ≤ 4096 * frame ∧ 4096 * frame + 4096 ≤ w.pciAddrl.toNat + w.sizel.toNat

/-- The page lies in the range of `m`, rounded to pages. -/
def InMapping (m : VmeMapping) (frame : ℕ) : Prop :=
  m.pciAddrl.toNat / 4096 ≤ frame ∧ 4096 * frame < pageUp (m.pciAddrl.toNat + m.sizel.toNat)

/-- The PCI range of `m` lies inside that of `w`. -/
def PciContains (w m : VmeMapping) : Prop :=
  w.pciAddrl.toNat ≤ m.pciAddrl.toNat ∧
    m.pciAddrl.toNat + m.sizel.toNat ≤ w.pciAddrl.toNat + w.sizel.toNat

/-- All mappings lie inside their windows. -/
def MappingsInside (t : WindowTable) : Prop :=
  ∀ i, (t.window i).active = true → ∀ m ∈ (t.window i).mappings, PciContains (t.window i).desc m.desc

/-- Every page of the remap lies in an active window and in a mapping of the file. -/
def RemapSafe (t : WindowTable) (file : ℕ) (r : Remap) : Prop :=
  ∀ frame, r.Covers frame → ∃ i, (t.window i).active = true ∧ InWindow (t.window i).desc frame ∧
    ∃ m ∈ (t.window i).mappings, m.client.file = some file ∧ InMapping m.desc frame

theorem toNat_and_pageMask (x : U32) : (x &&& pageMask).toNat = 4096 * (x.toNat / 4096) :=
  toNat_and_high (k := 12) x 0xfff rfl

theorem toNat_and_not_pageMask (x : U32) : (x &&& ~~~pageMask).toNat = x.toNat % 4096 := by
  have hmask : ~~~pageMask = 0xfff := by decide
  rw [hmask]
  exact toNat_and_low (k := 12) x 0xfff rfl

theorem toNat_alignedEnd (stop : U32) :
    (if stop &&& ~~~pageMask ≠ 0 then (stop &&& pageMask) + pageWord else stop).toNat = pageUp stop.toNat % 2^32 := by
  have hlow := toNat_and_not_pageMask stop
  have hlt := stop.isLt
  unfold pageUp
  split
  · rename_i hne
    have hpos : stop.toNat % 4096 ≠ 0 := by
      intro hzero
      exact hne (BitVec.eq_of_toNat_eq (hlow.trans hzero))
    rw [BitVec.toNat_add, toNat_and_pageMask]
    change (4096 * (stop.toNat / 4096) + 4096) % 2^32 = _
    omega
  · rename_i hzero
    rw [not_not.mp hzero] at hlow
    change 0 = _ at hlow
    omega

theorem pageUp_add_mul (n k : ℕ) : pageUp (n + 2^32 * k) = pageUp n + 2^32 * k := by
  unfold pageUp
  omega

/-- What the check compares, as numbers. -/
theorem vmeCheckMmapRegion_iff (window mapping : VmeMapping) (addr size : U32) :
    vmeCheckMmapRegion window mapping addr size = true ↔
      window.pciAddrl.toNat ≤ addr.toNat ∧
      (addr.toNat + size.toNat) % 2^32 ≤ (window.pciAddrl.toNat + window.sizel.toNat) % 2^32 ∧
      addr.toNat = 4096 * (mapping.pciAddrl.toNat / 4096) ∧
      pageUp (mapping.pciAddrl.toNat + mapping.sizel.toNat) % 2^32 = (addr.toNat + size.toNat) % 2^32 := by
  have hstop : pageUp (mapping.pciAddrl + mapping.sizel).toNat % 2^32 =
      pageUp (mapping.pciAddrl.toNat + mapping.sizel.toNat) % 2^32 := by
    rw [BitVec.toNat_add]
    conv_rhs => rw [← Nat.mod_add_div (mapping.pciAddrl.toNat + mapping.sizel.toNat) (2^32), pageUp_add_mul]
    rw [Nat.add_mul_mod_self_left]
  have hstart : mapping.pciAddrl &&& pageMask = addr ↔ addr.toNat = 4096 * (mapping.pciAddrl.toNat / 4096) := by
    rw [← BitVec.toNat_inj, toNat_and_pageMask]
    exact eq_comm
  have hend : (if (mapping.pciAddrl + mapping.sizel) &&& ~~~pageMask ≠ 0 then
      ((mapping.pciAddrl + mapping.sizel) &&& pageMask) + pageWord else mapping.pciAddrl + mapping.sizel) =
        addr + size ↔
      pageUp (mapping.pciAddrl.toNat + mapping.sizel.toNat) % 2^32 = (addr.toNat + size.toNat) % 2^32 := by
    rw [← BitVec.toNat_inj, toNat_alignedEnd, hstop, BitVec.toNat_add]
  unfold vmeCheckMmapRegion
  split
  · rename_i hout
    rw [BitVec.lt_def, gt_iff_lt, BitVec.lt_def, BitVec.toNat_add, BitVec.toNat_add] at hout
    constructor
    · intro h
      cases h
    · rintro ⟨h1, h2, -, -⟩
      omega
  · rename_i hin
    rw [BitVec.lt_def, gt_iff_lt, BitVec.lt_def, BitVec.toNat_add, BitVec.toNat_add] at hin
    simp only [decide_eq_true_eq]
    rw [hstart, hend]
    constructor
    · rintro ⟨h3, h4⟩
      exact ⟨by omega, by omega, h3, h4⟩
    · rintro ⟨-, -, h3, h4⟩
      exact ⟨h3, h4⟩

/-! ## Aligned windows -/

/-- A property of the table that the critical sections keep is kept by every call. -/
theorem callWindow_rule {P : WindowTable → Prop}
    (hcreate : ∀ (t : WindowTable) (env : CreateEnv) (i : WindowNum) (desc : VmeMapping), P t →
      P (t.create env i (roundWindow desc)).2.2)
    (hdestroy : ∀ (t : WindowTable) (i : WindowNum), P t → P (t.destroy i).2)
    (hset : ∀ (t : WindowTable) (i : WindowNum) (w : Window), P t → w.active = (t.window i).active →
      w.desc = (t.window i).desc → P (t.setWindow i w))
    {t : WindowTable} (h : P t) (call : WindowCall) : P (callWindow t call) := by
  have hcreates : ∀ env t desc, P t → P (vmeCreateWindow env t desc).2.2 := by
    intro env t desc ht
    unfold vmeCreateWindow
    split
    · exact ht
    split
    · exact ht
    split
    · exact hcreate t env.create _ desc ht
    · exact ht
  have hdestroys : ∀ env t num, P t → P (vmeDestroyWindow env t num).2 := by
    intro env t num ht
    unfold vmeDestroyWindow
    split
    · exact ht
    split
    · exact hdestroy t _ ht
    · exact ht
  have hadd : ∀ t env i m file, P t → P (WindowTable.add t env i m file).2.2 := by
    intro t env i m file ht
    apply hset t i _ ht
    · split <;> rfl
    · split <;> rfl
  have hshrink : ∀ t i w, P t → Shrinks (t.window i) w → P (t.setWindow i w) :=
    fun t i w ht hs => hset t i w ht hs.active hs.desc
  cases call with
  | create env desc => exact hcreates env t desc h
  | destroy env num => exact hdestroys env t num h
  | find env m force file =>
    change P (vmeFindMapping env t m force file).2.2
    unfold vmeFindMapping
    split
    · exact h
    split
    · exact h
    · exact hadd _ _ _ _ _ h
    split
    · exact h
    split
    · exact h
    rename_i i _
    simp only
    split
    · exact hcreates env t _ h
    · exact hadd _ _ _ _ _ (hcreates env t _ h)
  | release env desc force file =>
    change P (vmeReleaseMapping env t desc force file).2
    unfold vmeReleaseMapping
    split
    · exact h
    rename_i i _
    split
    · have hreleased := hshrink t i _ h (releaseLocked_shrinks (t.window i) desc force file)
      simp only
      split
      · exact hdestroys env _ _ hreleased
      · exact hreleased
    · exact h
  | close env file =>
    change P (closeLoop env.scanLock file t (List.finRange tsi148NumOutWindows)).2
    generalize List.finRange tsi148NumOutWindows = is
    induction is generalizing t with
    | nil => exact h
    | cons i is ih =>
      rw [closeLoop]
      split
      · exact ih (hshrink t i _ h (closeLocked_shrinks file _))
      · exact h
  | exit env =>
    change P (exitLoop env t (List.finRange tsi148NumOutWindows))
    generalize List.finRange tsi148NumOutWindows = is
    induction is generalizing t with
    | nil => exact h
    | cons i is ih =>
      rw [exitLoop]
      apply ih
      split
      · exact hdestroys env t i.val h
      · exact h

def WindowsAligned (t : WindowTable) : Prop := ∀ i, (t.window i).active = true → (t.window i).desc.Aligned

theorem createLocked_aligned {env : CreateEnv} {i : WindowNum} {desc desc' : VmeMapping} {w w' : Window}
    {trans trans' : Otrans} {rc : Int} (hw : w.active = true → w.desc.Aligned)
    (h : createLocked env i (roundWindow desc) w trans = (rc, desc', w', trans')) :
    w'.active = true → w'.desc.Aligned := by
  obtain ⟨-, -, rsrc, rfl⟩ | ⟨-, -, hchip, rsrc, rfl⟩ := createLocked_cases h
  · exact hw
  · intro _
    obtain ⟨hvme, hsize⟩ := roundWindow_aligned desc
    have hround : tsi148RoundWindow (placed env (roundWindow desc)) = placed env (roundWindow desc) :=
      tsi148RoundWindow_aligned hvme hsize
    obtain ⟨hrc, -⟩ | ⟨-, hdesc, hpci, -⟩ := tsi148CreateWindow_cases hchip
    · exact absurd hrc (by decide)
    · rw [hround] at hdesc
      change desc'.Aligned
      rw [hdesc]
      exact ⟨hpci, hvme, hsize⟩

theorem WindowsAligned.callWindow {t : WindowTable} (h : WindowsAligned t) (call : WindowCall) :
    WindowsAligned (callWindow t call) := by
  refine callWindow_rule ?_ ?_ ?_ h call
  · intro t env i desc ht j
    unfold WindowTable.create
    rcases hcall : createLocked env i (roundWindow desc) (t.window i) (t.otrans i) with ⟨rc, desc', w', trans'⟩
    by_cases hj : j = i
    · subst hj
      simpa only [Function.update_self] using createLocked_aligned (ht j) hcall
    · simpa only [Function.update_of_ne hj] using ht j
  · intro t i ht j
    unfold WindowTable.destroy
    simp only
    split
    · by_cases hj : j = i
      · subst hj
        simp
      · simpa only [Function.update_of_ne hj] using ht j
    · exact ht j
  · intro t i w ht hactive hdesc j
    unfold WindowTable.setWindow
    by_cases hj : j = i
    · subst hj
      simpa only [Function.update_self, hactive, hdesc] using ht j
    · simpa only [Function.update_of_ne hj] using ht j

theorem windowsAligned (calls : List WindowCall) : WindowsAligned (runWindowCalls calls) :=
  List.foldlRecOn calls callWindow (fun _ hon => (by cases hon)) fun _ h call _ => h.callWindow call

/-! ## What is remapped -/

section Mmap
variable {lock : WindowNum → Bool} {remap : Remap → Int} {t : WindowTable} {file : ℕ} {vma : Vma} {r : Remap}

theorem mmapLoop_remapped {is : List WindowNum} (h : (mmapLoop lock remap t file vma is).2 = some r) :
    r = vmeRemapPfnRange vma ∧ ∃ i, (t.window i).active = true ∧ ∃ m ∈ (t.window i).mappings,
      mmapMatches (t.window i).desc file vma m = true := by
  induction is with
  | nil => cases h
  | cons i is ih =>
    rw [mmapLoop] at h
    split at h
    · split at h
      · rename_i hfound
        obtain ⟨m, hm, hmatch⟩ := List.any_eq_true.mp hfound.2
        exact ⟨(Option.some.inj h).symm, i, hfound.1, m, hm, hmatch⟩
      · exact ih h
    · cases h

/-- With every lock free, a mapping that matches is enough. -/
theorem mmapLoop_of_matches {is : List WindowNum} {i : WindowNum} {m : Mapping} (hlock : ∀ i, lock i = true)
    (hi : i ∈ is) (hactive : (t.window i).active = true) (hm : m ∈ (t.window i).mappings)
    (hmatch : mmapMatches (t.window i).desc file vma m = true) :
    mmapLoop lock remap t file vma is = (remap (vmeRemapPfnRange vma), some (vmeRemapPfnRange vma)) := by
  induction is with
  | nil => cases hi
  | cons j is ih =>
    rw [mmapLoop, if_pos (hlock j)]
    split
    · rfl
    · rename_i hother
      obtain rfl | htail := List.mem_cons.mp hi
      · exact absurd ⟨hactive, List.any_eq_true.mpr ⟨m, hm, hmatch⟩⟩ hother
      · exact ih htail

theorem toNat_pgoff_shift (pgoff : U32) : (pgoff <<< pageShift).toNat = 4096 * pgoff.toNat % 2^32 := by
  rw [BitVec.toNat_shiftLeft, Nat.shiftLeft_eq, Nat.mul_comm]
  rfl

theorem Vma.Paged.size (h : vma.Paged) :
    (vma.vmEnd - vma.vmStart).toNat = vma.vmEnd.toNat - vma.vmStart.toNat ∧
      (vma.vmEnd - vma.vmStart).toNat % 4096 = 0 := by
  obtain ⟨hstart, hend, hle⟩ := h
  have hle' := BitVec.le_def.mp hle
  have hlt := vma.vmEnd.isLt
  have hsub : (vma.vmEnd - vma.vmStart).toNat = vma.vmEnd.toNat - vma.vmStart.toNat := BitVec.toNat_sub_of_le hle
  exact ⟨hsub, by omega⟩

theorem remapSafe_of_low (haligned : WindowsAligned t) (hinside : MappingsInside t) (hvma : vma.Paged)
    (h : (vmeWindowMmap lock remap t file vma).2 = some r) (hlow : vma.vmPgoff.toNat < 2^20) : RemapSafe t file r := by
  obtain ⟨rfl, i, hactive, m, hm, hmatch⟩ := mmapLoop_remapped h
  obtain ⟨hfile, hcheck⟩ := of_decide_eq_true hmatch
  obtain ⟨hwindow, -, hstart, hend⟩ := (vmeCheckMmapRegion_iff _ _ _ _).mp hcheck
  obtain ⟨-, hsize⟩ := hvma.size
  obtain ⟨-, hstop⟩ := hinside i hactive m hm
  have hpci := toNat_mod_of_aligned (haligned i hactive).1
  have hsizel := toNat_mod_of_aligned (haligned i hactive).2.2
  have hlt := (vma.vmEnd - vma.vmStart).isLt
  have hexact : 4096 * vma.vmPgoff.toNat % 2^32 = 4096 * vma.vmPgoff.toNat := Nat.mod_eq_of_lt (by omega)
  rw [toNat_pgoff_shift, hexact] at hwindow hstart hend
  intro frame hframe
  obtain ⟨hfirst, hlast⟩ := hframe
  change vma.vmPgoff.toNat ≤ frame at hfirst
  change frame < vma.vmPgoff.toNat + (vma.vmEnd - vma.vmStart).toNat / 4096 at hlast
  have hpages : pageUp (m.desc.pciAddrl.toNat + m.desc.sizel.toNat) ≤
      (t.window i).desc.pciAddrl.toNat + (t.window i).desc.sizel.toNat := by
    unfold pageUp
    omega
  have hcover : 4096 * vma.vmPgoff.toNat + (vma.vmEnd - vma.vmStart).toNat ≤
      pageUp (m.desc.pciAddrl.toNat + m.desc.sizel.toNat) := by
    have hup : 4096 * vma.vmPgoff.toNat ≤ pageUp (m.desc.pciAddrl.toNat + m.desc.sizel.toNat) := by
      unfold pageUp
      omega
    omega
  refine ⟨i, hactive, ⟨by omega, by omega⟩, m, hm, hfile, ⟨by omega, by omega⟩⟩

/-- The PCI ranges of the windows lie below 4G. -/
def WindowsBelow4G (t : WindowTable) : Prop :=
  ∀ i, (t.window i).active = true → (t.window i).desc.pciAddrl.toNat + (t.window i).desc.sizel.toNat ≤ 2^32

end Mmap

/-- In a reachable table whose mappings lie inside their windows, what an accepted `mmap` remaps is safe
if the page number has no more than 20 bits, and with the windows below 4G only then, up to an empty
range. -/
theorem vmeWindowMmap_safe_iff (calls : List WindowCall) (hinside : MappingsInside (runWindowCalls calls))
    (lock : WindowNum → Bool) (remap : Remap → Int) (file : ℕ) {vma : Vma} (hvma : vma.Paged) {r : Remap}
    (h : (vmeWindowMmap lock remap (runWindowCalls calls) file vma).2 = some r) :
    ((vma.vmPgoff.toNat < 2^20 ∨ vma.vmStart = vma.vmEnd) → RemapSafe (runWindowCalls calls) file r) ∧
    (WindowsBelow4G (runWindowCalls calls) → RemapSafe (runWindowCalls calls) file r →
      vma.vmPgoff.toNat < 2^20 ∨ vma.vmStart = vma.vmEnd) := by
  obtain ⟨rfl, -⟩ := mmapLoop_remapped h
  refine ⟨?_, fun hbelow hsafe => ?_⟩
  · rintro (hlow | hempty)
    · exact remapSafe_of_low (windowsAligned calls) hinside hvma h hlow
    · rintro frame ⟨hfirst, hlast⟩
      change frame < vma.vmPgoff.toNat + (vma.vmEnd - vma.vmStart).toNat / 4096 at hlast
      change vma.vmPgoff.toNat ≤ frame at hfirst
      rw [hempty, BitVec.sub_self] at hlast
      change frame < vma.vmPgoff.toNat + 0 / 4096 at hlast
      omega
  · by_contra hcut
    push Not at hcut
    obtain ⟨hhigh, hne⟩ := hcut
    obtain ⟨hsub, hpaged⟩ := hvma.size
    have hle := BitVec.le_def.mp hvma.2.2
    have hdiff : vma.vmStart.toNat ≠ vma.vmEnd.toNat := fun heq => hne (BitVec.eq_of_toNat_eq heq)
    have hfirst : (vmeRemapPfnRange vma).Covers vma.vmPgoff.toNat := by
      refine ⟨le_refl _, ?_⟩
      change vma.vmPgoff.toNat < vma.vmPgoff.toNat + (vma.vmEnd - vma.vmStart).toNat / 4096
      omega
    obtain ⟨i, hactive, ⟨-, hwindow⟩, -⟩ := hsafe _ hfirst
    have := hbelow i hactive
    omega

instance (w m : VmeMapping) : Decidable (PciContains w m) := inferInstanceAs (Decidable (_ ∧ _))

instance (t : WindowTable) : Decidable (MappingsInside t) := inferInstanceAs (Decidable (∀ _, _))

instance (t : WindowTable) : Decidable (WindowsBelow4G t) := inferInstanceAs (Decidable (∀ _, _))

instance (vma : Vma) : Decidable vma.Paged := inferInstanceAs (Decidable (_ ∧ _))

/-- File 7 holds one page at PCI address `0x80000000`. -/
def onePage : List WindowCall := [.find willingWindowEnv (request vmeA32UserDataSct 0 0x1000) true (some 7)]

def pageVma (pgoff : U32) : Vma := ⟨0x40000000, 0x40001000, pgoff⟩

theorem vmeWindowMmap_safe_page :
    (vmeWindowMmap (fun _ => true) (fun _ => 0) (runWindowCalls onePage) 7 (pageVma 0x80000)).2 =
      some ⟨0x40000000, 0x80000, 0x1000⟩ ∧
    RemapSafe (runWindowCalls onePage) 7 ⟨0x40000000, 0x80000, 0x1000⟩ := by
  have hremap : (vmeWindowMmap (fun _ => true) (fun _ => 0) (runWindowCalls onePage) 7 (pageVma 0x80000)).2 =
      some ⟨0x40000000, 0x80000, 0x1000⟩ := by decide
  refine ⟨hremap, ?_⟩
  exact (vmeWindowMmap_safe_iff onePage (by decide) _ _ 7 (by decide) hremap).1 (.inl (by decide))

/-- A page number of 21 bits: the shift cuts it to the page of the mapping, and the page 4G above it is
remapped. -/
theorem vmeWindowMmap_escapes :
    MappingsInside (runWindowCalls onePage) ∧ (pageVma 0x180000).Paged ∧
    (vmeWindowMmap (fun _ => true) (fun _ => 0) (runWindowCalls onePage) 7 (pageVma 0x180000)).2 =
      some ⟨0x40000000, 0x180000, 0x1000⟩ ∧
    ¬ RemapSafe (runWindowCalls onePage) 7 ⟨0x40000000, 0x180000, 0x1000⟩ := by
  refine ⟨by decide, by decide, by decide, fun hsafe => ?_⟩
  have hfirst : (⟨0x40000000, 0x180000, 0x1000⟩ : Remap).Covers 0x180000 := ⟨by decide, by decide⟩
  obtain ⟨i, hactive, ⟨-, hwindow⟩, -⟩ := hsafe _ hfirst
  have hbelow : WindowsBelow4G (runWindowCalls onePage) := by decide
  have := hbelow i hactive
  omega

/-! ## The library's request -/

section Library

def libPageAddr (address : U32) : U32 := address &&& ~~~(0x1000 - 1)

def pageAlignedSize (desc : VmeMapping) : U32 := desc.pciAddrl + desc.sizel - libPageAddr desc.pciAddrl

def pageAlignedSizeIncr (desc : VmeMapping) : U32 := desc.pciAddrl - libPageAddr desc.pciAddrl

/-- `mmap` gets a size and an offset and returns an address. -/
def vmeMmap (mmap : U32 → U32 → Option U32) (desc : VmeMapping) : Option VmeMapping :=
  (mmap (pageAlignedSize desc) (libPageAddr desc.pciAddrl)).map fun addr =>
    { desc with userVa := addr + pageAlignedSizeIncr desc }

/-- The address and the size that `munmap` is called with. -/
def vmeMunmap (desc : VmeMapping) : U32 × U32 := (desc.userVa - pageAlignedSizeIncr desc, pageAlignedSize desc)

/-- The kernel's `PAGE_ALIGN`. -/
def pageAlign (len : U32) : U32 := (len + 0xfff) &&& pageMask

/-- The system call: the kernel rounds the length to pages, picks a place and calls the driver. -/
def mmapSyscall (lock : WindowNum → Bool) (remap : Remap → Int) (t : WindowTable) (file : ℕ)
    (place size offset : U32) : Option Remap :=
  if pageAlign size = 0 then none
  else
    let (rc, r) := vmeWindowMmap lock remap t file ⟨place, place + pageAlign size, offset >>> pageShift⟩
    if rc = 0 then r else none

/-- The PCI address behind a user address: `io_remap_pfn_range` maps the pages in order. -/
def Remap.backing (r : Remap) (va : ℕ) : Option ℕ :=
  if r.addr.toNat ≤ va ∧ va < r.addr.toNat + r.size.toNat then
    some (4096 * (r.pfn.toNat + (va - r.addr.toNat) / 4096) + (va - r.addr.toNat) % 4096)
  else none

/-- The library and the driver agree on a mapping of window `i`: the request is accepted, byte `k` is
backed by PCI byte `k`, and the pages that were mapped are unmapped. -/
structure MmapAgrees (t : WindowTable) (i : WindowNum) (file : ℕ) (desc : VmeMapping) : Prop where
  accepted : vmeCheckMmapRegion (t.window i).desc desc (libPageAddr desc.pciAddrl)
    (pageAlign (pageAlignedSize desc)) = true
  mapped : ∀ (lock : WindowNum → Bool) (remap : Remap → Int) (place : U32), (∀ i, lock i = true) →
    (∀ r, remap r = 0) → place.toNat % 4096 = 0 → ∃ r desc',
      mmapSyscall lock remap t file place (pageAlignedSize desc) (libPageAddr desc.pciAddrl) = some r ∧
      vmeMmap (fun size offset => (mmapSyscall lock remap t file place size offset).map Remap.addr) desc = some desc' ∧
      (∀ k < desc.sizel.toNat, r.backing (desc'.userVa.toNat + k) = some (desc.pciAddrl.toNat + k)) ∧
      (vmeMunmap desc').1 = r.addr ∧ pageAlign (vmeMunmap desc').2 = r.size

/-- The window ends below 4G, or its end and the page end of the mapping have both wrapped. -/
def EndsCompare (w m : VmeMapping) : Prop :=
  w.pciAddrl.toNat + w.sizel.toNat < 2^32 ∨
    2^32 + pageUp (m.pciAddrl.toNat + m.sizel.toNat) % 2^32 ≤ w.pciAddrl.toNat + w.sizel.toNat

variable {w desc : VmeMapping}

theorem toNat_libPageAddr (address : U32) : (libPageAddr address).toNat = 4096 * (address.toNat / 4096) :=
  toNat_and_pageMask address

theorem toNat_pageAlignedSizeIncr (desc : VmeMapping) :
    (pageAlignedSizeIncr desc).toNat = desc.pciAddrl.toNat % 4096 := by
  have hlt := desc.pciAddrl.isLt
  unfold pageAlignedSizeIncr
  rw [BitVec.toNat_sub, toNat_libPageAddr]
  omega

theorem toNat_pageAlignedSize (hend : desc.pciAddrl.toNat + desc.sizel.toNat < 2^32) :
    (pageAlignedSize desc).toNat = desc.pciAddrl.toNat % 4096 + desc.sizel.toNat := by
  unfold pageAlignedSize
  rw [BitVec.toNat_sub, toNat_libPageAddr, BitVec.toNat_add]
  omega

/-- Inside an aligned window the kernel's rounding of the library's size does not wrap. -/
theorem toNat_pageAlign (haligned : w.Aligned) (hinside : PciContains w desc)
    (hend : desc.pciAddrl.toNat + desc.sizel.toNat < 2^32) :
    (pageAlign (pageAlignedSize desc)).toNat = pageUp (desc.pciAddrl.toNat % 4096 + desc.sizel.toNat) := by
  have hsizel := toNat_mod_of_aligned haligned.2.2
  have hpci := toNat_mod_of_aligned haligned.1
  have hlt := w.sizel.isLt
  obtain ⟨hfirst, hlast⟩ := hinside
  unfold pageAlign pageUp
  rw [toNat_and_pageMask, BitVec.toNat_add, toNat_pageAlignedSize hend]
  change 4096 * ((_ + 4095) % 2^32 / 4096) = _
  omega

theorem vmeCheckMmapRegion_library (haligned : w.Aligned) (hinside : PciContains w desc)
    (hend : desc.pciAddrl.toNat + desc.sizel.toNat < 2^32) :
    vmeCheckMmapRegion w desc (libPageAddr desc.pciAddrl) (pageAlign (pageAlignedSize desc)) = true ↔
      EndsCompare w desc := by
  have hpci := toNat_mod_of_aligned haligned.1
  have hsizel := toNat_mod_of_aligned haligned.2.2
  have hwpci := w.pciAddrl.isLt
  have hwsize := w.sizel.isLt
  have hsum : 4096 * (desc.pciAddrl.toNat / 4096) + pageUp (desc.pciAddrl.toNat % 4096 + desc.sizel.toNat) =
      pageUp (desc.pciAddrl.toNat + desc.sizel.toNat) := by
    unfold pageUp
    omega
  have hpages : pageUp (desc.pciAddrl.toNat + desc.sizel.toNat) ≤ w.pciAddrl.toNat + w.sizel.toNat := by
    obtain ⟨-, hlast⟩ := hinside
    unfold pageUp
    omega
  have hfirst := hinside.1
  rw [vmeCheckMmapRegion_iff, toNat_pageAlign haligned hinside hend, toNat_libPageAddr, hsum]
  unfold EndsCompare
  constructor
  · rintro ⟨-, hle, -, -⟩
    omega
  · intro hcond
    exact ⟨by omega, by omega, rfl, rfl⟩

theorem toNat_libPageAddr_pgoff (addr : U32) : (libPageAddr addr >>> pageShift).toNat = addr.toNat / 4096 := by
  rw [BitVec.toNat_ushiftRight, Nat.shiftRight_eq_div_pow, toNat_libPageAddr]
  change 4096 * (addr.toNat / 4096) / 4096 = _
  omega

theorem libPageAddr_pgoff (addr : U32) : libPageAddr addr >>> pageShift <<< pageShift = libPageAddr addr := by
  apply BitVec.eq_of_toNat_eq
  have hlt := addr.isLt
  rw [toNat_pgoff_shift, toNat_libPageAddr_pgoff, toNat_libPageAddr]
  omega

theorem vmeMmap_of_accepted {t : WindowTable} {i : WindowNum} {file : ℕ} {m : Mapping}
    (haligned : (t.window i).desc.Aligned) (hactive : (t.window i).active = true) (hm : m ∈ (t.window i).mappings)
    (hfile : m.client.file = some file) (hinside : PciContains (t.window i).desc m.desc)
    (hend : m.desc.pciAddrl.toNat + m.desc.sizel.toNat < 2^32) (hsize : m.desc.sizel ≠ 0)
    (haccepted : vmeCheckMmapRegion (t.window i).desc m.desc (libPageAddr m.desc.pciAddrl)
      (pageAlign (pageAlignedSize m.desc)) = true) : MmapAgrees t i file m.desc where
  accepted := haccepted
  mapped := by
    intro lock remap place hlock hremap hplace
    have hlen := toNat_pageAlign haligned hinside hend
    have hpos : m.desc.sizel.toNat ≠ 0 := fun hzero => hsize (BitVec.eq_of_toNat_eq hzero)
    have hincr := toNat_pageAlignedSizeIncr m.desc
    have hplacelt := place.isLt
    have hdiff : place + pageAlign (pageAlignedSize m.desc) - place = pageAlign (pageAlignedSize m.desc) := by grind
    have hcall : mmapSyscall lock remap t file place (pageAlignedSize m.desc) (libPageAddr m.desc.pciAddrl) =
        some ⟨place, libPageAddr m.desc.pciAddrl >>> pageShift, pageAlign (pageAlignedSize m.desc)⟩ := by
      have hne : pageAlign (pageAlignedSize m.desc) ≠ 0 := by
        intro hzero
        rw [hzero] at hlen
        change 0 = pageUp _ at hlen
        unfold pageUp at hlen
        omega
      have hmatch : mmapMatches (t.window i).desc file
          ⟨place, place + pageAlign (pageAlignedSize m.desc), libPageAddr m.desc.pciAddrl >>> pageShift⟩ m = true := by
        unfold mmapMatches
        simp only
        rw [libPageAddr_pgoff, hdiff]
        exact decide_eq_true ⟨hfile, haccepted⟩
      unfold mmapSyscall vmeWindowMmap
      rw [if_neg hne, mmapLoop_of_matches hlock (List.mem_finRange i) hactive hm hmatch]
      simp only [hremap, if_true, vmeRemapPfnRange, hdiff]
    have hmmap : vmeMmap (fun size offset => (mmapSyscall lock remap t file place size offset).map Remap.addr) m.desc =
        some { m.desc with userVa := place + pageAlignedSizeIncr m.desc } := by
      unfold vmeMmap
      simp only [hcall, Option.map_some]
    refine ⟨_, _, hcall, hmmap, fun k hk => ?_, ?_, rfl⟩
    · have hva : (place + pageAlignedSizeIncr m.desc).toNat = place.toNat + m.desc.pciAddrl.toNat % 4096 := by
        rw [BitVec.toNat_add, hincr]
        omega
      have hcover : m.desc.pciAddrl.toNat % 4096 + k < (pageAlign (pageAlignedSize m.desc)).toNat := by
        rw [hlen]
        unfold pageUp
        omega
      change Remap.backing _ ((place + pageAlignedSizeIncr m.desc).toNat + k) = _
      unfold Remap.backing
      simp only
      rw [hva, if_pos ⟨by omega, by omega⟩, toNat_libPageAddr_pgoff]
      congr 1
      omega
    · change place + pageAlignedSizeIncr m.desc - pageAlignedSizeIncr m.desc = place
      grind

end Library

/-! ## A mapping that was found -/

section Found
variable {env : WindowEnv} {t t' : WindowTable} {m desc : VmeMapping} {force : Bool} {file : Option ℕ}

theorem add_linked {env : AddEnv} {i : WindowNum} (hactive : (t.window i).active = true)
    (h : t.add env i m file = (0, desc, t')) :
    windowIndex desc.windowNum = some i ∧ (t'.window i).active = true ∧
      ∃ mp ∈ (t'.window i).mappings, mp.desc = desc ∧ mp.client.file = file := by
  unfold WindowTable.add addMapping at h
  simp only at h
  cases hnew : newMapping env (attach i (t.window i).desc m) file with
  | none =>
    rw [hnew] at h
    have hrc : -ENOMEM = 0 := congrArg Prod.fst h
    exact absurd hrc (by decide)
  | some mp =>
    rw [hnew] at h
    simp only [Prod.mk.injEq, true_and] at h
    obtain ⟨rfl, rfl⟩ := h
    obtain ⟨addr, -, rfl⟩ := Option.map_eq_some_iff.mp hnew
    unfold WindowTable.setWindow
    simp only [Function.update_self]
    refine ⟨windowIndex_val i, hactive, _, List.mem_append.mpr (.inr (List.mem_singleton.mpr rfl)), rfl, ?_⟩
    cases file <;> rfl

theorem findLoop_ne_zero {lock : WindowNum → Bool} (is : List WindowNum) : findLoop lock t m is ≠ .error 0 := by
  induction is with
  | nil => exact fun h => (by cases h)
  | cons i is ih =>
    rw [findLoop]
    split
    · split
      · exact fun h => (by cases h)
      · exact ih
    · intro h
      have hrc : -ERESTARTSYS = 0 := Except.error.inj h
      exact absurd hrc (by decide)

/-- A successful call links a mapping with the returned descriptor for its file. -/
theorem vmeFindMapping_linked (h : vmeFindMapping env t m force file = (0, desc, t')) :
    ∃ i, windowIndex desc.windowNum = some i ∧ (t'.window i).active = true ∧
      ∃ mp ∈ (t'.window i).mappings, mp.desc = desc ∧ mp.client.file = file := by
  unfold vmeFindMapping at h
  split at h
  · rename_i hsane
    exact absurd (congrArg Prod.fst h) hsane
  split at h
  · rename_i rc hloop
    obtain rfl : rc = 0 := congrArg Prod.fst h
    exact absurd hloop (findLoop_ne_zero _)
  · rename_i i hfound
    exact ⟨i, add_linked (Window.matches_iff.mp (findLoop_found hfound)).1 h⟩
  split at h
  · have hrc : -EBUSY = 0 := congrArg Prod.fst h
    exact absurd hrc (by decide)
  split at h
  · have hrc : -EBUSY = 0 := congrArg Prod.fst h
    exact absurd hrc (by decide)
  rename_i i _
  rcases hcall : vmeCreateWindow env t (windowRequest i m) with ⟨rc, desc₁, t₁⟩
  simp only [hcall] at h
  split at h
  · rename_i hrc
    exact absurd (congrArg Prod.fst h) hrc
  rename_i hrc
  obtain rfl : rc = 0 := not_not.mp hrc
  obtain ⟨-, -, hactive, -⟩ := vmeCreateWindow_created (windowRequest_attrs i m).1 hcall
  exact ⟨i, add_linked hactive h⟩

end Found

/-- Of a mapping that was found, lies inside its window and ends below 4G, the library's request and the
driver's check agree exactly when the 32-bit ends of the window and the mapping compare as they
should. -/
theorem vmeMmap_agrees_iff (calls : List WindowCall) {env : WindowEnv} {m desc : VmeMapping} {force : Bool} {file : ℕ}
    {t : WindowTable} {i : WindowNum}
    (hfind : vmeFindMapping env (runWindowCalls calls) m force (some file) = (0, desc, t))
    (hi : windowIndex desc.windowNum = some i) (hinside : PciContains (t.window i).desc desc)
    (hend : desc.pciAddrl.toNat + desc.sizel.toNat < 2^32) (hsize : desc.sizel ≠ 0) :
    MmapAgrees t i file desc ↔ EndsCompare (t.window i).desc desc := by
  have haligned : WindowsAligned t := by
    have hcall := (windowsAligned calls).callWindow (.find env m force (some file))
    change WindowsAligned (vmeFindMapping env (runWindowCalls calls) m force (some file)).2.2 at hcall
    rwa [hfind] at hcall
  obtain ⟨j, hj, hactive, mp, hmem, rfl, hfile⟩ := vmeFindMapping_linked hfind
  obtain rfl : i = j := Option.some.inj (hi.symm.trans hj)
  have hcheck := vmeCheckMmapRegion_library (haligned i hactive) hinside hend
  exact ⟨fun h => hcheck.mp h.accepted, fun h =>
    vmeMmap_of_accepted (haligned i hactive) hactive hmem hfile hinside hend hsize (hcheck.mpr h)⟩

instance (w m : VmeMapping) : Decidable (EndsCompare w m) := inferInstanceAs (Decidable (_ ∨ _))

/-- A request for 512 bytes at VME address `0x1080`, in a window at PCI address `pci`. -/
def findAt (pci : U32) : Int × VmeMapping × WindowTable :=
  vmeFindMapping { willingWindowEnv with create := ⟨true, (0, pci.setWidth 64), 0xd0000000⟩ } (runWindowCalls [])
    (request vmeA32UserDataSct 0x1080 0x200) true (some 7)

theorem vmeMmap_agrees_low : MmapAgrees (findAt 0x80000000).2.2 0 7 (findAt 0x80000000).2.1 := by
  have hrc : (findAt 0x80000000).1 = 0 := by decide
  have hfind : findAt 0x80000000 = (0, (findAt 0x80000000).2.1, (findAt 0x80000000).2.2) := Prod.ext hrc rfl
  unfold findAt at hfind
  exact (vmeMmap_agrees_iff [] hfind (by decide) (by decide) (by decide)
    (by decide)).mpr (by decide)

/-- A window that ends at 4G: its end wraps to 0, and every request that ends before it is refused. -/
theorem vmeMmap_refused_at_4g :
    (findAt 0xffff0000).1 = 0 ∧ windowIndex (findAt 0xffff0000).2.1.windowNum = some 0 ∧
    ((findAt 0xffff0000).2.2.window 0).desc.Aligned ∧
    PciContains ((findAt 0xffff0000).2.2.window 0).desc (findAt 0xffff0000).2.1 ∧
    (findAt 0xffff0000).2.1.pciAddrl = 0xffff1080 ∧ (findAt 0xffff0000).2.1.sizel = 0x200 ∧
    ¬ MmapAgrees (findAt 0xffff0000).2.2 0 7 (findAt 0xffff0000).2.1 := by
  refine ⟨by decide, by decide, ⟨by decide, by decide, by decide⟩,
    by decide, by decide, by decide, fun h => ?_⟩
  exact absurd h.accepted (by decide)

end HtDrivers.Vmebridge
