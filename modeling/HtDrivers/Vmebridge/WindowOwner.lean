import HtDrivers.Vmebridge.WindowContain

/-! # Who takes a mapping off its list (`remove_mapping`, `return_controller`)

A mapping belongs to the file it was made for, or to the kernel. `remove_mapping` skips the owner test
when it is called for the kernel, and takes the first mapping with the same addresses whoever made
it. `return_controller` of the kernel interface (`vme_cesif.c`) looks a mapping up by its kernel
address alone and releases it for the kernel.
-/
namespace HtDrivers.Vmebridge
set_option autoImplicit false

/-! ## The calls -/

/-- `find_vme_mapping_from_addr` over the windows that are left. -/
def findVmeMappingFromAddr (lock : WindowNum → Bool) (t : WindowTable) (logaddr : U32) :
    List WindowNum → Option VmeMapping
  | [] => none
  | i :: is =>
    if lock i then
      match (t.window i).mappings.find? fun m => m.desc.kernelVa = logaddr with
      | some m => some m.desc
      | none => findVmeMappingFromAddr lock t logaddr is
    else none

def returnController (env : WindowEnv) (t : WindowTable) (logaddr : U32) : Int × WindowTable :=
  match findVmeMappingFromAddr env.scanLock t logaddr (List.finRange tsi148NumOutWindows) with
  | none => (-1, t)
  | some desc =>
    let (err, t) := vmeReleaseMapping env t desc true none
    (if err = 0 then 0 else -1, t)

/-- A call to `vme_window.c`, or `return_controller`. -/
inductive ClientCall where
  | window (call : WindowCall)
  | returnController (env : WindowEnv) (logaddr : U32)

def callClient (t : WindowTable) : ClientCall → WindowTable
  | .window call => callWindow t call
  | .returnController env logaddr => (returnController env t logaddr).2

def runClientCalls (calls : List ClientCall) : WindowTable := calls.foldl callClient vmeWindowInit

/-- The descriptor that a call releases for the kernel. -/
def kernelRelease (t : WindowTable) : ClientCall → Option (WindowEnv × VmeMapping)
  | .window (.release env desc _ none) => some (env, desc)
  | .returnController env logaddr =>
    (findVmeMappingFromAddr env.scanLock t logaddr (List.finRange tsi148NumOutWindows)).map fun desc => (env, desc)
  | _ => none

/-! ## The property and the condition -/

def Window.owned (w : Window) (file : Option ℕ) : List Mapping := w.mappings.filter fun m => m.client.file = file

/-- The calls through which a mapping of `file` may leave the list of window `i`. -/
def MayTake (file : ℕ) (i : WindowNum) : ClientCall → Prop
  | .window (.release _ _ _ (some f)) => f = file
  | .window (.close _ f) => f = file
  | .window (.destroy _ num) => windowIndex num = some i
  | .window (.exit _) => True
  | _ => False

/-- The mapping that a release for the kernel finds, once it has the lock of an active window. -/
def releaseFinds (env : WindowEnv) (t : WindowTable) (desc : VmeMapping) : Option (WindowNum × Mapping) := do
  let i ← windowIndex desc.windowNum
  if env.scanLock i ∧ (t.window i).active then
    let m ← (t.window i).mappings.find? (namesMapping desc none)
    pure (i, m)
  else none

/-- Every other call keeps the mappings of a file, and what a release for the kernel takes is a mapping of
the kernel. -/
structure OwnersKept (t : WindowTable) (call : ClientCall) : Prop where
  files : ∀ file i, ¬ MayTake file i call →
    (t.window i).owned (some file) <+: ((callClient t call).window i).owned (some file)
  kernel : ∀ env desc i m, kernelRelease t call = some (env, desc) → releaseFinds env t desc = some (i, m) →
    ∃ l₁ k l₂, (t.window i).mappings = l₁ ++ k :: l₂ ∧ ((callClient t call).window i).mappings = l₁ ++ l₂ ∧
      k.client.file = none

/-- A release for the kernel comes first to a mapping of the kernel. -/
def FindsOwn (t : WindowTable) (call : ClientCall) : Prop :=
  ∀ env desc i m, kernelRelease t call = some (env, desc) → releaseFinds env t desc = some (i, m) →
    m.client.file = none

/-! ## What a call does to the lists -/

section Lists
variable {t : WindowTable} {i j : WindowNum} {file : ℕ}

theorem filter_eraseP_of_find {α : Type} {p q : α → Bool} {l : List α}
    (h : ∀ a, l.find? p = some a → q a = false) : (l.eraseP p).filter q = l.filter q := by
  induction l with
  | nil => rfl
  | cons a l ih =>
    by_cases hp : p a = true
    · have hq : q a = false := h a (List.find?_cons_of_pos hp)
      rw [List.eraseP_cons_of_pos hp, List.filter_cons_of_neg (by simp [hq])]
    · rw [List.find?_cons_of_neg hp] at h
      rw [List.eraseP_cons_of_neg hp, List.filter_cons, List.filter_cons, ih h]

theorem owned_prefix {w w' : Window} (h : w.mappings <+: w'.mappings) : w.owned (some file) <+: w'.owned (some file) :=
  h.filter _

theorem createLocked_mappings {env : CreateEnv} {desc desc' : VmeMapping} {w w' : Window} {trans trans' : Otrans}
    {rc : Int} (h : createLocked env i desc w trans = (rc, desc', w', trans')) : w'.mappings = w.mappings := by
  obtain ⟨-, -, rsrc, rfl⟩ | ⟨-, -, -, rsrc, rfl⟩ := createLocked_cases h
  · rfl
  · rfl

theorem vmeCreateWindow_mappings (env : WindowEnv) (desc : VmeMapping) :
    ((vmeCreateWindow env t desc).2.2.window j).mappings = (t.window j).mappings := by
  unfold vmeCreateWindow
  split
  · rfl
  rename_i i _
  split
  · rfl
  split
  · unfold WindowTable.create
    rcases hcall : createLocked env.create i (roundWindow desc) (t.window i) (t.otrans i) with ⟨rc, desc', w', trans'⟩
    by_cases hj : j = i
    · subst hj
      simpa only [Function.update_self] using createLocked_mappings hcall
    · simp only [Function.update_of_ne hj]
  · rfl

theorem add_mappings (env : AddEnv) (m : VmeMapping) (owner : Option ℕ) :
    (t.window j).mappings <+: ((t.add env i m owner).2.2.window j).mappings := by
  unfold WindowTable.add WindowTable.setWindow addMapping
  by_cases hj : j = i
  · subst hj
    simp only [Function.update_self]
    split
    · exact List.prefix_refl _
    · exact List.prefix_append _ _
  · simp only [Function.update_of_ne hj]
    exact List.prefix_refl _

theorem vmeFindMapping_mappings (env : WindowEnv) (m : VmeMapping) (force : Bool) (owner : Option ℕ) :
    (t.window j).mappings <+: ((vmeFindMapping env t m force owner).2.2.window j).mappings := by
  unfold vmeFindMapping
  split
  · exact List.prefix_refl _
  split
  · exact List.prefix_refl _
  · exact add_mappings _ _ _
  split
  · exact List.prefix_refl _
  split
  · exact List.prefix_refl _
  rename_i i _
  have hcreated : ((vmeCreateWindow env t (windowRequest i m)).2.2.window j).mappings = (t.window j).mappings :=
    vmeCreateWindow_mappings env _
  simp only
  split
  · rw [hcreated]
  · rw [← hcreated]
    exact add_mappings _ _ _

theorem destroy_window_of_ne (hj : j ≠ i) : (t.destroy i).2.window j = t.window j := by
  unfold WindowTable.destroy
  simp only
  split
  · simp only [Function.update_of_ne hj]
  · rfl

theorem destroy_mappings_of_idle (husers : (t.window i).users = 0) :
    ((t.destroy i).2.window j).mappings = (t.window j).mappings := by
  by_cases hj : j = i
  · subst hj
    have hdrop : (t.window j).dropMappings = t.window j := if_neg (by omega)
    unfold WindowTable.destroy
    simp only [hdrop]
    split
    · simp only [Function.update_self]
    · rfl
  · rw [destroy_window_of_ne hj]

theorem vmeDestroyWindow_of_ne {env : WindowEnv} {num : Int} (hj : windowIndex num ≠ some j) :
    (vmeDestroyWindow env t num).2.window j = t.window j := by
  unfold vmeDestroyWindow
  split
  · rfl
  · rename_i i hi
    have hne : j ≠ i := fun h => hj (h ▸ hi)
    split
    · exact destroy_window_of_ne hne
    · rfl

theorem closeLocked_owned {f : ℕ} (hf : f ≠ file) (w : Window) :
    (closeLocked f w).owned (some file) = w.owned (some file) := by
  unfold closeLocked
  split
  · unfold Window.owned
    simp only [List.filter_filter]
    apply List.filter_congr
    intro m _
    by_cases hm : m.client.file = some file
    · have hne : m.client.file ≠ some f := by
        rw [hm]
        exact fun h => hf (Option.some.inj h).symm
      simp [hm, Ne.symm hf]
    · simp [hm]
  · rfl

theorem closeLoop_owned {f : ℕ} (hf : f ≠ file) (lock : WindowNum → Bool) (is : List WindowNum) :
    ((closeLoop lock f t is).2.window j).owned (some file) = (t.window j).owned (some file) := by
  induction is generalizing t with
  | nil => rfl
  | cons i is ih =>
    rw [closeLoop]
    split
    · rw [ih]
      unfold WindowTable.setWindow
      by_cases hj : j = i
      · subst hj
        simp only [Function.update_self]
        exact closeLocked_owned hf _
      · simp only [Function.update_of_ne hj]
    · rfl

theorem removeMapping_mappings (w : Window) (desc : VmeMapping) (owner : Option ℕ) :
    (removeMapping w desc owner).2.mappings = w.mappings.eraseP (namesMapping desc owner) := by
  unfold removeMapping
  split
  · rfl
  · rename_i hnone
    refine (List.eraseP_of_forall_not fun m hm hnamed => ?_).symm
    exact hnone (List.any_eq_true.mpr ⟨m, hm, hnamed⟩)

theorem releaseLocked_mappings (w : Window) (desc : VmeMapping) (force : Bool) (owner : Option ℕ) :
    (releaseLocked w desc force owner).2.1.mappings =
      if w.active = true then w.mappings.eraseP (namesMapping desc owner) else w.mappings := by
  unfold releaseLocked
  split
  · exact removeMapping_mappings w desc owner
  · rfl

theorem releaseLocked_users {w : Window} {desc : VmeMapping} {force : Bool} {owner : Option ℕ}
    (h : (releaseLocked w desc force owner).2.2 = true) : (releaseLocked w desc force owner).2.1.users = 0 := by
  unfold releaseLocked at h ⊢
  split at h
  · rename_i hactive
    simp only [hactive, if_true]
    exact (of_decide_eq_true h).2.1
  · cases h

/-- A release takes the first mapping it names off the list of its window, and nothing else. -/
theorem vmeReleaseMapping_mappings (env : WindowEnv) (desc : VmeMapping) (force : Bool) (owner : Option ℕ) :
    ((vmeReleaseMapping env t desc force owner).2.window j).mappings =
      if windowIndex desc.windowNum = some j ∧ env.scanLock j = true ∧ (t.window j).active = true then
        (t.window j).mappings.eraseP (namesMapping desc owner)
      else (t.window j).mappings := by
  unfold vmeReleaseMapping
  cases hi : windowIndex desc.windowNum with
  | none => simp
  | some i =>
    by_cases hlock : env.scanLock i = true
    · simp only [if_pos hlock]
      have hset : ((t.setWindow i (releaseLocked (t.window i) desc force owner).2.1).window j).mappings =
          if i = j ∧ (t.window j).active = true then (t.window j).mappings.eraseP (namesMapping desc owner)
          else (t.window j).mappings := by
        unfold WindowTable.setWindow
        by_cases hj : j = i
        · subst hj
          simp only [Function.update_self, true_and]
          exact releaseLocked_mappings _ desc force owner
        · simp only [Function.update_of_ne hj, Ne.symm hj, false_and, if_false]
      have hgoal : (if some i = some j ∧ env.scanLock j = true ∧ (t.window j).active = true then
          (t.window j).mappings.eraseP (namesMapping desc owner) else (t.window j).mappings) =
          if i = j ∧ (t.window j).active = true then (t.window j).mappings.eraseP (namesMapping desc owner)
          else (t.window j).mappings := by
        by_cases hj : i = j
        · subst hj
          simp [hlock]
        · simp [hj]
      rw [hgoal, ← hset]
      split
      · rename_i hdestroy
        have husers : ((t.setWindow i (releaseLocked (t.window i) desc force owner).2.1).window i).users = 0 := by
          unfold WindowTable.setWindow
          simp only [Function.update_self]
          exact releaseLocked_users hdestroy
        unfold vmeDestroyWindow
        simp only [hi]
        split
        · exact destroy_mappings_of_idle husers
        · rfl
      · rfl
    · simp only [if_neg hlock]
      rw [if_neg]
      rintro ⟨hij, hlock', -⟩
      exact hlock (Option.some.inj hij ▸ hlock')

/-- The list of the window that a release for the kernel finds a mapping in. -/
theorem releaseFinds_some {env : WindowEnv} {desc : VmeMapping} {m : Mapping}
    (h : releaseFinds env t desc = some (i, m)) :
    windowIndex desc.windowNum = some i ∧ env.scanLock i = true ∧ (t.window i).active = true ∧
      (t.window i).mappings.find? (namesMapping desc none) = some m := by
  unfold releaseFinds at h
  cases hi : windowIndex desc.windowNum with
  | none =>
    rw [hi] at h
    cases h
  | some k =>
    rw [hi] at h
    simp only [Option.bind_eq_bind, Option.bind_some] at h
    split at h
    · rename_i hopen
      obtain ⟨m', hm', hpair⟩ := Option.bind_eq_some_iff.mp h
      simp only [Option.pure_def, Option.some.injEq, Prod.mk.injEq] at hpair
      obtain ⟨rfl, rfl⟩ := hpair
      exact ⟨rfl, hopen.1, hopen.2, hm'⟩
    · cases h

end Lists

/-! ## One call -/

section Step
variable {t : WindowTable} {call : ClientCall} {env : WindowEnv} {desc : VmeMapping}

/-- A call that releases for the kernel changes the lists as a release does. -/
theorem kernelRelease_mappings (h : kernelRelease t call = some (env, desc)) (j : WindowNum) :
    ((callClient t call).window j).mappings =
      if windowIndex desc.windowNum = some j ∧ env.scanLock j = true ∧ (t.window j).active = true then
        (t.window j).mappings.eraseP (namesMapping desc none)
      else (t.window j).mappings := by
  cases call with
  | window call =>
    cases call with
    | release env' desc' force owner =>
      cases owner with
      | none =>
        obtain ⟨rfl, rfl⟩ : env' = env ∧ desc' = desc := by simpa [kernelRelease] using h
        exact vmeReleaseMapping_mappings env' desc' force none
      | some f => cases h
    | create => cases h
    | destroy => cases h
    | find => cases h
    | close => cases h
    | exit => cases h
  | returnController env' logaddr =>
    obtain ⟨desc', hfound, hpair⟩ := Option.map_eq_some_iff.mp h
    obtain ⟨rfl, rfl⟩ : env' = env ∧ desc' = desc := by simpa using hpair
    change ((returnController env' t logaddr).2.window j).mappings = _
    unfold returnController
    rw [hfound]
    exact vmeReleaseMapping_mappings env' desc' true none

theorem not_mayTake_of_kernelRelease (h : kernelRelease t call = some (env, desc)) (file : ℕ) (i : WindowNum) :
    ¬ MayTake file i call := by
  intro htake
  cases call with
  | window call =>
    cases call with
    | release env' desc' force owner =>
      cases owner with
      | none => cases htake
      | some f => cases h
    | create => cases h
    | destroy => cases h
    | find => cases h
    | close => cases h
    | exit => cases h
  | returnController => cases htake

/-- The mappings of a file that a release for the kernel leaves. -/
theorem kernelRelease_owned (h : kernelRelease t call = some (env, desc))
    (hown : ∀ i m, releaseFinds env t desc = some (i, m) → m.client.file = none) (file : ℕ) (j : WindowNum) :
    ((callClient t call).window j).owned (some file) = (t.window j).owned (some file) := by
  unfold Window.owned
  rw [kernelRelease_mappings h]
  split
  · rename_i hopen
    obtain ⟨hj, hlock, hactive⟩ := hopen
    apply filter_eraseP_of_find
    intro m hm
    have hfinds : releaseFinds env t desc = some (j, m) := by
      simp [releaseFinds, hj, hlock, hactive, hm]
    simp [hown j m hfinds]
  · rfl

theorem files_kept_of_findsOwn (hown : FindsOwn t call) (file : ℕ) (i : WindowNum) (hmay : ¬ MayTake file i call) :
    (t.window i).owned (some file) <+: ((callClient t call).window i).owned (some file) := by
  cases hkernel : kernelRelease t call with
  | some p =>
    obtain ⟨env, desc⟩ := p
    rw [kernelRelease_owned hkernel (fun i m => hown env desc i m hkernel)]
  | none =>
    cases call with
    | window call =>
      cases call with
      | create env desc => exact owned_prefix (by rw [callClient, callWindow, vmeCreateWindow_mappings])
      | destroy env num =>
        change _ <+: ((vmeDestroyWindow env t num).2.window i).owned (some file)
        rw [vmeDestroyWindow_of_ne hmay]
      | find env m force owner => exact owned_prefix (vmeFindMapping_mappings env m force owner)
      | release env desc force owner =>
        cases owner with
        | none => cases hkernel
        | some f =>
          have hf : f ≠ file := hmay
          change _ <+: ((vmeReleaseMapping env t desc force (some f)).2.window i).owned (some file)
          unfold Window.owned
          rw [vmeReleaseMapping_mappings]
          split
          · rw [filter_eraseP_of_find]
            intro m hm
            have hnamed := List.find?_some hm
            obtain ⟨-, -, -, -, -, hnone | hfile⟩ := of_decide_eq_true hnamed
            · cases hnone
            · simp [hfile, hf]
          · exact List.prefix_refl _
      | close env f =>
        change _ <+: ((closeLoop env.scanLock f t _).2.window i).owned (some file)
        rw [closeLoop_owned hmay]
      | exit env => exact absurd trivial hmay
    | returnController env logaddr =>
      have hnone : findVmeMappingFromAddr env.scanLock t logaddr (List.finRange tsi148NumOutWindows) = none :=
        Option.map_eq_none_iff.mp hkernel
      change _ <+: ((returnController env t logaddr).2.window i).owned (some file)
      unfold returnController
      rw [hnone]

/-- The list before and after a release for the kernel that finds a mapping. -/
theorem kernelRelease_split {i : WindowNum} {m : Mapping} (hkernel : kernelRelease t call = some (env, desc))
    (hfinds : releaseFinds env t desc = some (i, m)) : ∃ l₁ l₂,
      (t.window i).mappings = l₁ ++ m :: l₂ ∧ ((callClient t call).window i).mappings = l₁ ++ l₂ := by
  obtain ⟨hi, hlock, hactive, hm⟩ := releaseFinds_some hfinds
  obtain ⟨hnamed, l₁, l₂, hsplit, hbefore⟩ := List.find?_eq_some_iff_append.mp hm
  refine ⟨l₁, l₂, hsplit, ?_⟩
  rw [kernelRelease_mappings hkernel, if_pos ⟨hi, hlock, hactive⟩, hsplit,
    List.eraseP_append_right _ (fun a ha hp => by simpa [hp] using hbefore a ha), List.eraseP_cons_of_pos hnamed]

/-- A call keeps the owners exactly when a release for the kernel, if it is one, comes to its own mapping. -/
theorem ownersKept_iff : OwnersKept t call ↔ FindsOwn t call := by
  constructor
  · intro h env desc i m hkernel hfinds
    obtain ⟨l₁, l₂, hbefore, hafter⟩ := kernelRelease_split hkernel hfinds
    cases hfile : m.client.file with
    | none => rfl
    | some file =>
      -- the file has one mapping less than before
      have hlen := (h.files file i (not_mayTake_of_kernelRelease hkernel file i)).length_le
      unfold Window.owned at hlen
      rw [hbefore, hafter] at hlen
      simp only [List.filter_append, List.filter_cons, hfile, decide_true, if_true, List.length_append,
        List.length_cons] at hlen
      omega
  · intro h
    refine ⟨fun file i hmay => files_kept_of_findsOwn h file i hmay, fun env desc i m hkernel hfinds => ?_⟩
    obtain ⟨l₁, l₂, hbefore, hafter⟩ := kernelRelease_split hkernel hfinds
    exact ⟨l₁, m, l₂, hbefore, hafter, h env desc i m hkernel hfinds⟩

end Step

/-! ## Sequences of calls -/

/-- `P` holds of every call of the sequence, in the table it finds. -/
def EveryCall (P : WindowTable → ClientCall → Prop) (calls : List ClientCall) : Prop :=
  ∀ pre call post, calls = pre ++ call :: post → P (runClientCalls pre) call

theorem runClientCalls_concat (calls : List ClientCall) (call : ClientCall) :
    runClientCalls (calls ++ [call]) = callClient (runClientCalls calls) call :=
  List.foldl_concat ..

/-- The mappings of a file outlast a stretch of calls none of which may take them. -/
theorem owned_prefix_run {pre mid post : List ClientCall} (hown : EveryCall FindsOwn (pre ++ mid ++ post)) {file : ℕ}
    {i : WindowNum} (hmay : ∀ call ∈ mid, ¬ MayTake file i call) :
    ((runClientCalls pre).window i).owned (some file) <+: ((runClientCalls (pre ++ mid)).window i).owned
    (some file) := by
  induction mid generalizing pre with
  | nil =>
    rw [List.append_nil]
  | cons call mid ih =>
    have hstep : FindsOwn (runClientCalls pre) call := hown pre call (mid ++ post) (by simp)
    have hfirst := files_kept_of_findsOwn hstep file i (hmay call (List.mem_cons_self ..))
    have hassoc : pre ++ call :: mid = pre ++ [call] ++ mid := by simp
    rw [hassoc] at hown ⊢
    rw [← runClientCalls_concat] at hfirst
    exact hfirst.trans (ih hown fun c hc => hmay c (List.mem_cons_of_mem _ hc))

/-- In every sequence of calls, each call keeps the owners exactly when each release for the kernel comes
first to a mapping of the kernel; a mapping of a file then stays until its file, or the end of its
window, takes it. -/
theorem ownership_iff (calls : List ClientCall) :
    (EveryCall OwnersKept calls ↔ EveryCall FindsOwn calls) ∧
    (EveryCall FindsOwn calls → ∀ pre mid post, calls = pre ++ mid ++ post → ∀ file i,
      (∀ call ∈ mid, ¬ MayTake file i call) →
      ((runClientCalls pre).window i).owned (some file) <+:
        ((runClientCalls (pre ++ mid)).window i).owned (some file)) := by
  refine ⟨⟨fun h pre call post hc => ownersKept_iff.mp (h pre call post hc),
    fun h pre call post hc => ownersKept_iff.mpr (h pre call post hc)⟩, ?_⟩
  rintro hown pre mid post rfl file i hmay
  exact owned_prefix_run hown hmay

/-- File 7 and then the kernel map the same registers. -/
def sharedRegisters : List ClientCall :=
  [.window (.find willingWindowEnv (request vmeA32UserDataSct 0 0x1000) true (some 7)),
    .window (.find willingWindowEnv (request vmeA32UserDataSct 0 0x1000) true none)]

/-- The kernel returns the address it was given, and the mapping of the file goes. -/
theorem returnController_takes_user_mapping :
    ((runClientCalls sharedRegisters).window 0).owned (some 7) ≠ [] ∧
    ((runClientCalls sharedRegisters).window 0).owned none ≠ [] ∧
    (returnController willingWindowEnv (runClientCalls sharedRegisters) 0xd0000000).1 = 0 ∧
    ((returnController willingWindowEnv (runClientCalls sharedRegisters) 0xd0000000).2.window 0).owned (some 7) = [] ∧
    ¬ EveryCall OwnersKept (sharedRegisters ++ [.returnController willingWindowEnv 0xd0000000]) := by
  have htaken : ((returnController willingWindowEnv (runClientCalls sharedRegisters) 0xd0000000).2.window 0).owned
      (some 7) = [] := by decide
  have hheld : ((runClientCalls sharedRegisters).window 0).owned (some 7) ≠ [] := by decide
  refine ⟨hheld, by decide, by decide, htaken, fun h => ?_⟩
  have hkept := (h sharedRegisters _ [] rfl).files 7 0 id
  change _ <+: ((returnController willingWindowEnv (runClientCalls sharedRegisters) 0xd0000000).2.window 0).owned
    (some 7) at hkept
  rw [htaken] at hkept
  exact hheld (List.prefix_nil.mp hkept)

end HtDrivers.Vmebridge
