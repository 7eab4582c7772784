import HtDrivers.Vmebridge.WindowInvariant

/-! # Mappings inside their windows

`__vme_find_mapping` compares the ends of two ranges in 32 bits, gives an A16 or A24 window a fixed
size, and creates the other windows from a rounded range. This module says for which tables and
requests the range of a successful request lies inside the window it is attached to. -/
namespace HtDrivers.Vmebridge
open HtDrivers.Lib.Words
set_option autoImplicit false

/-- The VME range of `m`, without wrap-around, lies inside that of `w`. -/
def Contains (w m : VmeMapping) : Prop :=
  w.vmeAddrl.toNat ≤ m.vmeAddrl.toNat ∧ m.vmeAddrl.toNat + m.sizel.toNat ≤ w.vmeAddrl.toNat + w.sizel.toNat

instance (w m : VmeMapping) : Decidable (Contains w m) := inferInstanceAs (Decidable (_ ∧ _))

/-- If the call returned 0, the window that the request has been attached to contains it. -/
def ContainedOnSuccess (m : VmeMapping) (r : Int × VmeMapping × WindowTable) : Prop :=
  r.1 = 0 → ∃ i, windowIndex r.2.1.windowNum = some i ∧ Contains (r.2.2.window i).desc m

instance (m : VmeMapping) (r : Int × VmeMapping × WindowTable) : Decidable (ContainedOnSuccess m r) :=
  inferInstanceAs (Decidable (_ → _))

/-! ## The condition -/

def matchingWindow (t : WindowTable) (m : VmeMapping) : Option WindowNum :=
  (List.finRange tsi148NumOutWindows).find? fun i => (t.window i).matches m

/-- The end of the request leaves 32 bits and that of the window does not. -/
def WrapsAlone (w m : VmeMapping) : Prop :=
  2^32 ≤ m.vmeAddrl.toNat + m.sizel.toNat ∧ w.vmeAddrl.toNat + w.sizel.toNat < 2^32

/-- `vme_create_window` accepts the request. -/
def Creatable (m : VmeMapping) : Prop :=
  (m.am ∈ a24Modifiers ∨ m.am ∈ a16Modifiers ∨ m.sizel ≠ 0) ∧ AttrsValid m.v2esstMode m.dataWidth m.am

/-- The request does not leave its address space, and elsewhere it does not touch one 64K block more
than its size takes. -/
def FitsCreated (m : VmeMapping) : Prop :=
  if m.am ∈ a24Modifiers then m.vmeAddrl.toNat + m.sizel.toNat ≤ 2^24
  else if m.am ∈ a16Modifiers then m.vmeAddrl.toNat + m.sizel.toNat ≤ 2^16
  else m.sizel.toNat ≤ 0xffff0000 ∧ m.vmeAddrl.toNat % 65536 + (m.sizel.toNat - 1) % 65536 < 65536

def FindSafe (t : WindowTable) (m : VmeMapping) (force : Bool) : Prop :=
  match matchingWindow t m with
  | some i => ¬ WrapsAlone (t.window i).desc m
  | none => force = true → (unusedWindow t).isSome → Creatable m → FitsCreated m

/-! ## The first loop -/

section Loop
variable {t : WindowTable} {m : VmeMapping} {i : WindowNum}

theorem findLoop_locked (t : WindowTable) (m : VmeMapping) (is : List WindowNum) :
    findLoop (fun _ => true) t m is = .ok (is.find? fun i => (t.window i).matches m) := by
  induction is with
  | nil => rfl
  | cons i is ih =>
    rw [findLoop, if_pos rfl]
    split
    · rename_i hmatch
      simp [hmatch]
    · rename_i hmatch
      simp [hmatch, ih]

theorem findLoop_error {lock : WindowNum → Bool} {is : List WindowNum} {rc : Int}
    (h : findLoop lock t m is = .error rc) : rc = -ERESTARTSYS := by
  induction is with
  | nil => cases h
  | cons i is ih =>
    rw [findLoop] at h
    split at h
    · split at h
      · cases h
      · exact ih h
    · obtain rfl : -ERESTARTSYS = rc := by simpa using h
      rfl

theorem contained_of_failed {m' : VmeMapping} {rc : Int} (h : rc ≠ 0) : ContainedOnSuccess m (rc, m', t) :=
  fun hrc => absurd hrc h

theorem add_rc (env : AddEnv) (file : Option ℕ) : (t.add env i m file).1 = 0 ↔ env.kzalloc.isSome := by
  unfold WindowTable.add addMapping newMapping
  cases env.kzalloc with
  | none => simp [ENOMEM]
  | some addr => simp

theorem contained_add (env : AddEnv) (file : Option ℕ) :
    ContainedOnSuccess m (t.add env i m file) ↔ (env.kzalloc.isSome → Contains (t.window i).desc m) := by
  have hwindow : ((t.add env i m file).2.2.window i).desc = (t.window i).desc := by
    unfold WindowTable.add WindowTable.setWindow addMapping newMapping
    cases env.kzalloc with
    | none => simp
    | some addr => simp [Window.count, Window.link]
  have hindex : windowIndex (t.add env i m file).2.1.windowNum = some i := windowIndex_val i
  unfold ContainedOnSuccess
  rw [add_rc]
  constructor
  · intro h hok
    obtain ⟨j, hj, hin⟩ := h hok
    obtain rfl : i = j := Option.some.inj (hindex.symm.trans hj)
    rwa [hwindow] at hin
  · intro h hok
    exact ⟨i, hindex, by rw [hwindow]; exact h hok⟩

theorem contains_iff_of_matches {w : Window} (h : w.matches m = true) : Contains w.desc m ↔ ¬ WrapsAlone w.desc m := by
  obtain ⟨-, -, -, -, -, -, hlow, hhigh, -⟩ := Window.matches_iff.mp h
  have hw := w.desc.vmeAddrl.isLt
  have hws := w.desc.sizel.isLt
  have hm := m.vmeAddrl.isLt
  have hms := m.sizel.isLt
  rw [gt_iff_lt, BitVec.lt_def] at hlow
  rw [BitVec.lt_def, BitVec.toNat_add, BitVec.toNat_add] at hhigh
  unfold Contains WrapsAlone
  omega

end Loop

/-! ## The created window -/

section Created
variable {t : WindowTable} {m : VmeMapping} {i : WindowNum}

/-- A size rounded up to 64K in 32 bits. -/
def roundedSize (n : ℕ) : ℕ := if n % 65536 = 0 then n else 65536 * (n / 65536 + 1) % 2^32

theorem toNat_low (x : U32) : (x &&& 0xffff).toNat = x.toNat % 65536 := toNat_and_low (k := 16) x 0xffff rfl

theorem toNat_high (x : U32) : (x &&& ~~~0xffff).toNat = 65536 * (x.toNat / 65536) :=
  toNat_and_high (k := 16) x 0xffff rfl

theorem low_eq_zero_iff (x : U32) : x &&& 0xffff = 0 ↔ x.toNat % 65536 = 0 := by
  rw [← toNat_low]
  exact ⟨fun h => by rw [h]; rfl, fun h => BitVec.eq_of_toNat_eq h⟩

theorem roundWindow_vmeAddrl (desc : VmeMapping) :
    (roundWindow desc).vmeAddrl.toNat = 65536 * (desc.vmeAddrl.toNat / 65536) := by
  have hhead : ((if desc.vmeAddrl &&& 0xffff ≠ 0 then desc.vmeAddrl &&& ~~~0xffff else desc.vmeAddrl) : U32).toNat =
      65536 * (desc.vmeAddrl.toNat / 65536) := by
    split
    · exact toNat_high _
    · rename_i hlow
      have := (low_eq_zero_iff desc.vmeAddrl).mp (not_not.mp hlow)
      omega
  rw [← hhead]
  unfold roundWindow
  simp only
  split <;> split <;> rfl

theorem roundWindow_sizel (desc : VmeMapping) : (roundWindow desc).sizel.toNat = roundedSize desc.sizel.toNat := by
  have hsize : (roundWindow desc).sizel =
      if desc.sizel &&& 0xffff ≠ 0 then (desc.sizel + 0x10000) &&& ~~~0xffff else desc.sizel := by
    unfold roundWindow
    by_cases hlow : desc.vmeAddrl &&& 0xffff ≠ 0
    · simp only [if_pos hlow, BitVec.sub_self, BitVec.add_zero]
      split <;> rfl
    · simp only [if_neg hlow]
      split <;> rfl
  rw [hsize]
  unfold roundedSize
  by_cases hlow : desc.sizel &&& 0xffff = 0
  · rw [if_neg (not_not.mpr hlow), if_pos ((low_eq_zero_iff _).mp hlow)]
  · rw [if_pos hlow, if_neg fun h => hlow ((low_eq_zero_iff _).mpr h), toNat_high, BitVec.toNat_add]
    change 65536 * ((desc.sizel.toNat + 65536) % 2^32 / 65536) = _
    have := desc.sizel.isLt
    omega

theorem roundWindow_aligned (desc : VmeMapping) :
    (roundWindow desc).vmeAddrl &&& 0xffff = 0 ∧ (roundWindow desc).sizel &&& 0xffff = 0 := by
  rw [low_eq_zero_iff, low_eq_zero_iff, roundWindow_vmeAddrl, roundWindow_sizel]
  unfold roundedSize
  refine ⟨by omega, ?_⟩
  split <;> omega

theorem windowRequest_vmeAddrl (i : WindowNum) (m : VmeMapping) :
    (windowRequest i m).vmeAddrl = if m.am ∈ a24Modifiers ∨ m.am ∈ a16Modifiers then 0 else m.vmeAddrl := by
  unfold windowRequest vmeOptimizeWindowSize
  by_cases h24 : m.am ∈ a24Modifiers
  · simp [h24]
  · by_cases h16 : m.am ∈ a16Modifiers
    · simp [h24, h16]
    · simp [h24, h16]

theorem windowRequest_sizel (i : WindowNum) (m : VmeMapping) :
    (windowRequest i m).sizel =
      if m.am ∈ a24Modifiers then 0x1000000 else if m.am ∈ a16Modifiers then 0x10000 else m.sizel := by
  unfold windowRequest vmeOptimizeWindowSize
  by_cases h24 : m.am ∈ a24Modifiers
  · simp [h24]
  · by_cases h16 : m.am ∈ a16Modifiers
    · simp [h24, h16]
    · simp [h24, h16]

/-- The range of the window that is created for `m`. -/
def createdRange (m : VmeMapping) : ℕ × ℕ :=
  if m.am ∈ a24Modifiers then (0, 2^24) else if m.am ∈ a16Modifiers then (0, 2^16)
  else (65536 * (m.vmeAddrl.toNat / 65536), roundedSize m.sizel.toNat)

theorem windowRequest_sizel_ne_zero :
    (windowRequest i m).sizel ≠ 0 ↔ m.am ∈ a24Modifiers ∨ m.am ∈ a16Modifiers ∨ m.sizel ≠ 0 := by
  rw [windowRequest_sizel]
  by_cases h24 : m.am ∈ a24Modifiers
  · simp [h24]
  · by_cases h16 : m.am ∈ a16Modifiers
    · simp [h24, h16]
    · simp [h24, h16]

theorem placed_attrs (env : CreateEnv) (i : WindowNum) (m : VmeMapping) :
    tsi148SetupWindowAttributes (placed env (roundWindow (windowRequest i m))).v2esstMode
      (placed env (roundWindow (windowRequest i m))).dataWidth (placed env (roundWindow (windowRequest i m))).am =
    tsi148SetupWindowAttributes m.v2esstMode m.dataWidth m.am := by
  obtain ⟨hram, hrdw, hrsst⟩ := roundWindow_attrs (windowRequest i m)
  obtain ⟨-, ham, hdw, hsst⟩ := windowRequest_attrs i m
  change tsi148SetupWindowAttributes (roundWindow _).v2esstMode (roundWindow _).dataWidth (roundWindow _).am = _
  rw [hram, hrdw, hrsst, ham, hdw, hsst]

theorem placed_rounded (env : CreateEnv) (desc : VmeMapping) :
    tsi148RoundWindow (placed env (roundWindow desc)) = placed env (roundWindow desc) :=
  tsi148RoundWindow_aligned (roundWindow_aligned desc).1 (roundWindow_aligned desc).2

/-- A window that was created for `m` has the range above, and the request was acceptable. -/
theorem vmeCreateWindow_range {env : WindowEnv} {desc' : VmeMapping} {t' : WindowTable}
    (h : vmeCreateWindow env t (windowRequest i m) = (0, desc', t')) :
    Creatable m ∧ (t'.window i).desc.vmeAddrl.toNat = (createdRange m).1 ∧
      (t'.window i).desc.sizel.toNat = (createdRange m).2 := by
  obtain ⟨hsize, -, -, hdesc, hchip⟩ := vmeCreateWindow_created (windowRequest_attrs i m).1 h
  obtain ⟨hrc, -⟩ | ⟨-, hout, -, attrs, hattrs, -⟩ := tsi148CreateWindow_cases hchip
  · exact absurd hrc (by decide)
  rw [placed_attrs] at hattrs
  rw [placed_rounded] at hout
  refine ⟨⟨windowRequest_sizel_ne_zero.mp hsize, ?_⟩, ?_⟩
  · rw [← setupAttributes_isSome tsi148LcsrOtat2eSstmM]
    exact Option.isSome_iff_exists.mpr ⟨attrs, hattrs⟩
  · rw [hdesc, hout]
    change (roundWindow (windowRequest i m)).vmeAddrl.toNat = _ ∧ (roundWindow (windowRequest i m)).sizel.toNat = _
    rw [roundWindow_vmeAddrl, roundWindow_sizel, windowRequest_vmeAddrl, windowRequest_sizel]
    unfold createdRange
    by_cases h24 : m.am ∈ a24Modifiers
    · simp only [h24, true_or, if_true]
      exact ⟨rfl, rfl⟩
    · by_cases h16 : m.am ∈ a16Modifiers
      · simp only [h24, h16, or_true, if_true, if_false]
        exact ⟨rfl, rfl⟩
      · simp only [h24, h16, or_self, if_false]
        exact ⟨trivial, trivial⟩

theorem contains_iff_of_createdRange {w : VmeMapping} (hc : Creatable m) (haddr : w.vmeAddrl.toNat = (createdRange m).1)
    (hsize : w.sizel.toNat = (createdRange m).2) : Contains w m ↔ FitsCreated m := by
  unfold Contains FitsCreated
  rw [haddr, hsize]
  unfold createdRange
  by_cases h24 : m.am ∈ a24Modifiers
  · simp only [h24, if_true]
    omega
  · by_cases h16 : m.am ∈ a16Modifiers
    · simp only [h24, h16, if_true, if_false]
      omega
    · have hne : m.sizel.toNat ≠ 0 := by
        obtain h | h | h := hc.1
        · exact absurd h h24
        · exact absurd h h16
        · exact fun hzero => h (BitVec.eq_of_toNat_eq hzero)
      have := m.sizel.isLt
      simp only [h24, h16, if_false]
      unfold roundedSize
      split <;> omega

def willingWindowEnv : WindowEnv :=
  { scanLock := fun _ => true, createLock := fun _ => true, destroyLock := fun _ => true
    create := ⟨true, (0, 0x80000000), 0xd0000000⟩, add := ⟨some 0, 1, "task"⟩ }

theorem vmeCreateWindow_willing (hc : Creatable m) (hidle : (t.window i).active = false) :
    (vmeCreateWindow willingWindowEnv t (windowRequest i m)).1 = 0 := by
  obtain ⟨attrs, hattrs⟩ := Option.isSome_iff_exists.mp ((setupAttributes_isSome tsi148LcsrOtat2eSstmM _ _ _).mpr hc.2)
  have hsize : (windowRequest i m).sizel ≠ 0 := windowRequest_sizel_ne_zero.mpr hc.1
  have hpci : willingWindowEnv.create.pciAlloc.2.setWidth 32 &&& (0xffff : U32) = 0 := by decide
  have hchip : (tsi148CreateWindow (placed willingWindowEnv.create (roundWindow (windowRequest i m)))
      (t.otrans i)).1 = 0 :=
    tsi148CreateWindow_ok hpci ((placed_attrs willingWindowEnv.create i m).trans hattrs)
  have hlock : willingWindowEnv.createLock i = true := rfl
  unfold vmeCreateWindow
  rw [(windowRequest_attrs i m).1, windowIndex_val]
  simp only
  rw [if_neg hsize, if_pos hlock]
  exact createLocked_ok hidle rfl (by decide) hchip

end Created

/-! ## `__vme_find_mapping` -/

section Find
variable {t : WindowTable} {m : VmeMapping} {force : Bool}

theorem unusedWindow_idle {i : WindowNum} (h : unusedWindow t = some i) : (t.window i).active = false := by
  have hfound := List.find?_some h
  simpa using hfound

theorem FindSafe.contained (hsafe : FindSafe t m force) (env : WindowEnv) (file : Option ℕ) :
    ContainedOnSuccess m (vmeFindMapping env t m force file) := by
  unfold vmeFindMapping
  split
  · rename_i hsane
    exact contained_of_failed hsane
  split
  · rename_i rc hloop
    exact contained_of_failed (findLoop_error hloop ▸ by decide)
  · rename_i i hloop
    have hfound : matchingWindow t m = some i := (findLoop_ok hloop).symm
    unfold FindSafe at hsafe
    rw [hfound] at hsafe
    rw [contained_add]
    exact fun _ => (contains_iff_of_matches (findLoop_found hloop)).mpr hsafe
  rename_i hloop
  have hfound : matchingWindow t m = none := (findLoop_ok hloop).symm
  unfold FindSafe at hsafe
  rw [hfound] at hsafe
  split
  · exact contained_of_failed (by decide)
  rename_i hforce
  split
  · exact contained_of_failed (by decide)
  rename_i i hunused
  rcases hcall : vmeCreateWindow env t (windowRequest i m) with ⟨rc, desc', t'⟩
  simp only
  split
  · rename_i hrc
    exact contained_of_failed hrc
  rename_i hrc
  obtain rfl : rc = 0 := not_not.mp hrc
  obtain ⟨hc, haddr, hsize⟩ := vmeCreateWindow_range hcall
  rw [contained_add]
  intro _
  exact (contains_iff_of_createdRange hc haddr hsize).mpr
    (hsafe (by simpa using hforce) (Option.isSome_iff_exists.mpr ⟨i, hunused⟩) hc)

theorem FindSafe.of_contained (hsane : vmeMappingSanityCheck m = 0)
    (h : ContainedOnSuccess m (vmeFindMapping willingWindowEnv t m force none)) : FindSafe t m force := by
  have hloop : findLoop willingWindowEnv.scanLock t m (List.finRange tsi148NumOutWindows) =
      .ok (matchingWindow t m) := findLoop_locked t m _
  unfold vmeFindMapping at h
  rw [if_neg (not_not.mpr hsane), hloop] at h
  unfold FindSafe
  cases hfound : matchingWindow t m with
  | some i =>
    rw [hfound] at h
    have hmatch : (t.window i).matches m = true := findLoop_found (hloop.trans (by rw [hfound]))
    exact (contains_iff_of_matches hmatch).mp ((contained_add _ _).mp h rfl)
  | none =>
    intro hforce hunused hc
    obtain ⟨i, hi⟩ := Option.isSome_iff_exists.mp hunused
    have hrc := vmeCreateWindow_willing hc (unusedWindow_idle hi)
    rcases hcall : vmeCreateWindow willingWindowEnv t (windowRequest i m) with ⟨rc, desc', t'⟩
    rw [hcall] at hrc
    obtain rfl : rc = 0 := hrc
    simp only [hfound, hforce, hi, hcall, Bool.not_true, Bool.false_eq_true, ne_eq, not_true_eq_false, if_false] at h
    obtain ⟨-, haddr, hsize⟩ := vmeCreateWindow_range hcall
    exact (contains_iff_of_createdRange hc haddr hsize).mp ((contained_add _ _).mp h rfl)

/-- Whatever the kernel answers, a successful call attaches the request to a window that contains it:
this holds exactly for the tables and requests that are safe. -/
theorem vmeFindMapping_contained_iff :
    (∀ env file, ContainedOnSuccess m (vmeFindMapping env t m force file)) ↔
      (vmeMappingSanityCheck m = 0 → FindSafe t m force) := by
  constructor
  · intro h hsane
    exact FindSafe.of_contained hsane (h willingWindowEnv none)
  · intro hsafe env file
    by_cases hsane : vmeMappingSanityCheck m = 0
    · exact (hsafe hsane).contained env file
    · unfold vmeFindMapping
      rw [if_pos hsane]
      exact contained_of_failed hsane

end Find

/-! ## Windows that are asked for -/

section Asked
variable {env : WindowEnv} {t t' : WindowTable} {desc desc' : VmeMapping}

/-- The window `w` is a whole number of 64K blocks and contains the range of `m` with less than one
block to spare at either end. -/
structure Covers (w m : VmeMapping) : Prop where
  start : w.vmeAddrl.toNat % 65536 = 0
  size : w.sizel.toNat % 65536 = 0
  contains : Contains w m
  below : m.vmeAddrl.toNat < w.vmeAddrl.toNat + 65536
  above : w.vmeAddrl.toNat + w.sizel.toNat < m.vmeAddrl.toNat + m.sizel.toNat + 65536

/-- The window that was created for the descriptor `desc` covers the range in `desc`. -/
def CreatedCovers (t' : WindowTable) (desc : VmeMapping) : Prop :=
  ∃ i, windowIndex desc.windowNum = some i ∧ Covers (t'.window i).desc desc

/-- Success leaves a window with the rounded range. -/
theorem vmeCreateWindow_rounded (h : vmeCreateWindow env t desc = (0, desc', t')) :
    ∃ i, windowIndex desc.windowNum = some i ∧
      (t'.window i).desc.vmeAddrl.toNat = 65536 * (desc.vmeAddrl.toNat / 65536) ∧
      (t'.window i).desc.sizel.toNat = roundedSize desc.sizel.toNat := by
  cases hindex : windowIndex desc.windowNum with
  | none =>
    unfold vmeCreateWindow at h
    rw [hindex] at h
    have hrc : -EINVAL = 0 := congrArg Prod.fst h
    exact absurd hrc (by decide)
  | some i =>
    obtain ⟨-, -, -, hdesc, hchip⟩ := vmeCreateWindow_created (windowIndex_eq_some hindex) h
    obtain ⟨hrc, -⟩ | ⟨-, hout, -⟩ := tsi148CreateWindow_cases hchip
    · exact absurd hrc (by decide)
    rw [placed_rounded] at hout
    refine ⟨i, rfl, ?_⟩
    rw [hdesc, hout]
    exact ⟨roundWindow_vmeAddrl desc, roundWindow_sizel desc⟩

/-- A created window covers its descriptor exactly when the range does not touch one 64K block more
than its size takes, and the size can be rounded up in 32 bits. -/
theorem vmeCreateWindow_covers_iff (hsize : 0 < desc.sizel.toNat)
    (h : vmeCreateWindow env t desc = (0, desc', t')) : CreatedCovers t' desc ↔
      desc.vmeAddrl.toNat % 65536 + (desc.sizel.toNat - 1) % 65536 < 65536 ∧ desc.sizel.toNat ≤ 0xffff0000 := by
  obtain ⟨i, hindex, haddr, hround⟩ := vmeCreateWindow_rounded h
  unfold roundedSize at hround
  constructor
  · rintro ⟨j, hj, hcovers⟩
    obtain rfl : i = j := Option.some.inj (hindex.symm.trans hj)
    obtain ⟨-, hcontains⟩ := hcovers.contains
    split at hround <;> omega
  · intro hfits
    refine ⟨i, hindex, ?_, ?_, ⟨?_, ?_⟩, ?_, ?_⟩
    · omega
    · split at hround <;> omega
    · omega
    · split at hround <;> omega
    · omega
    · split at hround <;> omega

end Asked

/-! ## Three requests that stick out -/

/-- A request for `size` bytes at `addr`. -/
def request (am addr size : U32) : VmeMapping :=
  { zeroMapping with am := am, dataWidth := vmeD16, vmeAddrl := addr, sizel := size }

/-- The end of the A16 space; a range that crosses a 64K boundary; and, with a 64K window at 0 in the
table, a range whose end wraps. -/
theorem vmeFindMapping_sticks_out :
    ¬ ContainedOnSuccess (request vmeA16User 0xff00 0x200)
      (vmeFindMapping willingWindowEnv (runWindowCalls []) (request vmeA16User 0xff00 0x200) true none) ∧
    ¬ ContainedOnSuccess (request vmeA32UserDataSct 0x1ff00 0x200)
      (vmeFindMapping willingWindowEnv (runWindowCalls []) (request vmeA32UserDataSct 0x1ff00 0x200) true none) ∧
    ¬ ContainedOnSuccess (request vmeA32UserDataSct 0x8000 0xffff9000)
      (vmeFindMapping willingWindowEnv
        (runWindowCalls [.find willingWindowEnv (request vmeA32UserDataSct 0 0x10000) true none])
        (request vmeA32UserDataSct 0x8000 0xffff9000) false none) := by
  refine ⟨?_, ?_, ?_⟩
  · decide
  · decide
  · decide

/-- The upper half of a 64K block. -/
theorem vmeCreateWindow_covers_half :
    CreatedCovers (vmeCreateWindow willingWindowEnv (runWindowCalls []) (request vmeA32UserDataSct 0x18000 0x8000)).2.2
      (request vmeA32UserDataSct 0x18000 0x8000) := by
  have hcreate : (vmeCreateWindow willingWindowEnv (runWindowCalls []) (request vmeA32UserDataSct 0x18000 0x8000)).1 =
    0 := by
    decide
  exact (vmeCreateWindow_covers_iff (by decide) (Prod.ext hcreate rfl)).mpr (by decide)

/-- A range of one 64K block that starts in the middle of a block. -/
theorem vmeCreateWindow_straddles :
    ¬ ∀ env t desc desc' t', 0 < desc.sizel.toNat → desc.vmeAddrl.toNat + desc.sizel.toNat ≤ 2^32 →
      vmeCreateWindow env t desc = (0, desc', t') → CreatedCovers t' desc := by
  intro h
  have hcreate : (vmeCreateWindow willingWindowEnv (runWindowCalls []) (request vmeA32UserDataSct 0x18000 0x10000)).1 =
    0 := by
    decide
  rcases hcall : vmeCreateWindow willingWindowEnv (runWindowCalls []) (request vmeA32UserDataSct 0x18000 0x10000) with
    ⟨rc, desc', t'⟩
  rw [hcall] at hcreate
  obtain rfl : rc = 0 := hcreate
  have hcovers := h _ _ _ _ _ (by decide) (by decide) hcall
  obtain ⟨i, hindex, haddr, hround⟩ := vmeCreateWindow_rounded hcall
  obtain ⟨j, hj, hcov⟩ := hcovers
  obtain rfl : i = j := Option.some.inj (hindex.symm.trans hj)
  have hcontains := hcov.contains.2
  rw [haddr, hround] at hcontains
  exact absurd hcontains (by decide)

end HtDrivers.Vmebridge
