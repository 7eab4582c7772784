import HtDrivers.InsLib.InstallFile

/-! # What `InsLibFreeHost` frees

On blocks that are linked as their kinds say, the recursion frees a list of blocks that can be read off the links. It
is defined unless it comes to an address that has been freed before.
-/
namespace HtDrivers.InsLib.Install
open HtDrivers.Lib.OwnedHeap
set_option autoImplicit false

/-! ## The blocks in the order in which they are freed -/

def addressFrees (cells : ℕ → Cell) (ma : ℕ) : List ℕ :=
  match cells ma with
  | .address _ spaces => spaces.reverse ++ [ma]
  | _ => []

def moduleFrees (cells : ℕ → Cell) (modld : ℕ) : List ℕ :=
  match cells modld with
  | .modl fields moduleAddress extra isr =>
    (if fields.busType = .notSet then [] else moduleAddress.toList.flatMap (addressFrees cells)) ++ extra.toList ++
      isr.toList
  | _ => []

def modulesFrees (cells : ℕ → Cell) (modules : List ℕ) : List ℕ := modules.reverse.flatMap (moduleFrees cells)

def driverFrees (cells : ℕ → Cell) (drvrd : ℕ) : List ℕ :=
  match cells drvrd with
  | .drvr _ modules => modulesFrees cells modules ++ [drvrd]
  | _ => []

def driversFrees (cells : ℕ → Cell) (drivers : List ℕ) : List ℕ := drivers.reverse.flatMap (driverFrees cells)

def hostFrees (cells : ℕ → Cell) (hostd : ℕ) : List ℕ :=
  match cells hostd with
  | .host _ drivers => driversFrees cells drivers ++ [hostd]
  | _ => []

/-- The links say what is there. -/
def Kinds (cells : ℕ → Cell) : Prop := ∀ p, ∀ l ∈ (cells p).links, (cells l.2).kind = l.1

section Kinds
variable {cells : ℕ → Cell} {p q x : ℕ}

theorem modulesFrees_cons (p : ℕ) (l : List ℕ) :
    modulesFrees cells (p :: l) = modulesFrees cells l ++ moduleFrees cells p := by
  simp [modulesFrees]

theorem driversFrees_cons (p : ℕ) (l : List ℕ) :
    driversFrees cells (p :: l) = driversFrees cells l ++ driverFrees cells p := by
  simp [driversFrees]

theorem mem_addressFrees (h : x ∈ addressFrees cells p) :
    (x = p ∧ (cells p).kind = .address) ∨ (.leaf, x) ∈ (cells p).links := by
  unfold addressFrees at h
  split at h
  · rename_i ma spaces hcell
    rw [List.mem_append, List.mem_reverse, List.mem_singleton] at h
    obtain h | h := h
    · right
      rw [hcell]
      exact List.mem_map_of_mem h
    · left
      rw [hcell]
      exact ⟨h, rfl⟩
  · cases h

/-- A block hangs on a module, or on the address of the module. -/
def Under (cells : ℕ → Cell) (modld x : ℕ) : Prop :=
  (∃ k, (k, x) ∈ (cells modld).links) ∨ ∃ ma, (.address, ma) ∈ (cells modld).links ∧ (.leaf, x) ∈ (cells ma).links

theorem mem_moduleFrees (h : x ∈ moduleFrees cells p) : Under cells p x := by
  unfold moduleFrees at h
  split at h
  · rename_i fields moduleAddress extra isr hcell
    have hlink : ∀ l, l ∈ moduleAddress.toList.map (fun p => (Kind.address, p)) ++
        extra.toList.map (fun p => (Kind.leaf, p)) ++ isr.toList.map (fun p => (Kind.leaf, p)) →
        l ∈ (cells p).links := by
      intro l hl
      rw [hcell]
      exact hl
    rw [List.mem_append, List.mem_append] at h
    obtain (h | h) | h := h
    · split_ifs at h
      · cases h
      · obtain ⟨ma, hma, hx⟩ := List.mem_flatMap.mp h
        have haddress := hlink (.address, ma) (by simp [Option.mem_toList.mp hma])
        obtain ⟨rfl, -⟩ | hleaf := mem_addressFrees hx
        · exact .inl ⟨_, haddress⟩
        · exact .inr ⟨ma, haddress, hleaf⟩
    · exact .inl ⟨.leaf, hlink _ (by simp [Option.mem_toList.mp h])⟩
    · exact .inl ⟨.leaf, hlink _ (by simp [Option.mem_toList.mp h])⟩
  · cases h

/-- The pointers of a module go to addresses and to blocks that nothing hangs on. -/
theorem kind_of_modl_link {k : Kind} (hp : (cells p).kind = .modl) (h : (k, x) ∈ (cells p).links) :
    k = .address ∨ k = .leaf := by
  cases hcell : cells p with
  | modl fields moduleAddress extra isr =>
    rw [hcell] at h
    simp only [Cell.links, List.mem_append, List.mem_map, Prod.mk.injEq] at h
    grind
  | _ => simp [hcell, Cell.kind] at hp

theorem kind_of_under (hk : Kinds cells) (hp : (cells p).kind = .modl) (h : Under cells p x) :
    (cells x).kind = .address ∨ (cells x).kind = .leaf := by
  obtain ⟨k, h⟩ | ⟨ma, -, h⟩ := h
  · have hkind := hk p _ h
    obtain rfl | rfl := kind_of_modl_link hp h
    · exact .inl hkind
    · exact .inr hkind
  · exact .inr (hk ma _ h)

theorem kind_of_mem_moduleFrees (hk : Kinds cells) (hx : x ∈ moduleFrees cells p) :
    (cells x).kind = .address ∨ (cells x).kind = .leaf := by
  refine kind_of_under hk ?_ (mem_moduleFrees hx)
  unfold moduleFrees at hx
  split at hx
  · rename_i hcell
    rw [hcell]
    rfl
  · cases hx

theorem kind_of_mem_modulesFrees (hk : Kinds cells) {l : List ℕ} (hx : x ∈ modulesFrees cells l) :
    (cells x).kind = .address ∨ (cells x).kind = .leaf := by
  obtain ⟨p, -, hx⟩ := List.mem_flatMap.mp hx
  exact kind_of_mem_moduleFrees hk hx

theorem mem_driverFrees (h : x ∈ driverFrees cells p) : (x = p ∧ (cells p).kind = .drvr) ∨
    ∃ modld, (.modl, modld) ∈ (cells p).links ∧ x ∈ moduleFrees cells modld := by
  unfold driverFrees at h
  split at h
  · rename_i drvrd modules hcell
    rw [List.mem_append, List.mem_singleton] at h
    obtain h | h := h
    · right
      obtain ⟨modld, hmodld, hx⟩ := List.mem_flatMap.mp h
      refine ⟨modld, ?_, hx⟩
      rw [hcell]
      exact List.mem_map_of_mem (List.mem_reverse.mp hmodld)
    · left
      rw [hcell]
      exact ⟨h, rfl⟩
  · cases h

theorem kind_of_mem_driverFrees (hk : Kinds cells) (hx : x ∈ driverFrees cells p) :
    (cells x).kind ≠ .modl ∧ (cells x).kind ≠ .host := by
  obtain ⟨rfl, hkind⟩ | ⟨modld, -, hx⟩ := mem_driverFrees hx
  · simp [hkind]
  · obtain hkind | hkind := kind_of_mem_moduleFrees hk hx
    · simp [hkind]
    · simp [hkind]

theorem kind_of_mem_driversFrees (hk : Kinds cells) {l : List ℕ} (hx : x ∈ driversFrees cells l) :
    (cells x).kind ≠ .modl ∧ (cells x).kind ≠ .host := by
  obtain ⟨p, -, hx⟩ := List.mem_flatMap.mp hx
  exact kind_of_mem_driverFrees hk hx

end Kinds

/-! ## The recursion -/

section Recursion
variable {m m' : Mem} {p : ℕ}

/-- No module has been freed. -/
def ModulesLive (m : Mem) : Prop := ∀ p ∈ m.freed, (m.cells p).kind ≠ .modl

theorem ModulesLive.freeAll {l : List ℕ} (h : ModulesLive m) (hl : ∀ p ∈ l, (m.cells p).kind ≠ .modl)
    (hfree : m.freeAll l = some m') : m'.cells = m.cells ∧ ModulesLive m' := by
  obtain ⟨-, -, rfl⟩ := (freeAll_eq_some l).mp hfree
  refine ⟨rfl, fun p hp => ?_⟩
  obtain hp | hp := List.mem_append.mp hp
  · exact h p hp
  · exact hl p hp

/-- A block that has been freed is not there to be read, and not to be freed either. -/
theorem freeAll_concat_of_freed (h : p ∈ m.freed) (l : List ℕ) : m.freeAll (l ++ [p]) = none := by
  rw [Option.eq_none_iff_forall_ne_some]
  intro m' hfree
  exact ((freeAll_eq_some _).mp hfree).2.1 p (by simp) h

theorem freeSpace_eq (l : List ℕ) : insLibFreeSpace m l = m.freeAll l.reverse := by
  induction l generalizing m with
  | nil => rfl
  | cons p l ih =>
    rw [List.reverse_cons]
    by_cases hp : p ∈ m.freed
    · rw [freeAll_concat_of_freed hp]
      simp [insLibFreeSpace, Heap.read, hp]
    · rw [freeAll_append]
      simp only [insLibFreeSpace, read_of_live hp, ih, freeAll_singleton, Option.bind_eq_bind, Option.bind_some]

theorem freeAddress_eq {ma : ModuleAddress} {spaces : List ℕ} (hcell : m.cells p = .address ma spaces) :
    insLibFreeAddress m (some p) = m.freeAll (addressFrees m.cells p) := by
  unfold addressFrees
  rw [hcell]
  by_cases hp : p ∈ m.freed
  · dsimp only
    rw [freeAll_concat_of_freed hp]
    simp [insLibFreeAddress, Heap.read, hp]
  · dsimp only
    rw [freeAll_append]
    simp only [insLibFreeAddress, read_of_live hp, hcell, freeSpace_eq, freeAll_singleton, Option.bind_eq_bind,
      Option.bind_some]

theorem freeOptional_eq (x : Option ℕ) : freeOptional m x = m.freeAll x.toList := by
  cases x with
  | none => rfl
  | some p => exact (freeAll_singleton p).symm

/-- Freeing a module, when those behind it have been freed. -/
theorem freeOneModule_eq (hk : Kinds m.cells) {fields : InsLibModlDesc} {moduleAddress extra isr : Option ℕ}
    (hcell : m.cells p = .modl fields moduleAddress extra isr) :
    ((if fields.busType = .notSet then some m else insLibFreeAddress m moduleAddress) >>= fun m =>
      freeOptional m extra >>= fun m => freeOptional m isr) = m.freeAll (moduleFrees m.cells p) := by
  have haddress : (if fields.busType = .notSet then some m else insLibFreeAddress m moduleAddress) =
      m.freeAll (if fields.busType = .notSet then [] else moduleAddress.toList.flatMap (addressFrees m.cells)) := by
    split_ifs
    · rfl
    · cases moduleAddress with
      | none => rfl
      | some ma =>
        have hkind : (m.cells ma).kind = .address := hk p (.address, ma) (by simp [hcell, Cell.links])
        cases hma : m.cells ma with
        | address fields' spaces => simp [freeAddress_eq hma]
        | _ => simp [hma, Cell.kind] at hkind
  unfold moduleFrees
  rw [hcell]
  dsimp only
  rw [freeAll_append, freeAll_append, haddress]
  simp only [freeOptional_eq, Option.bind_eq_bind, Option.bind_assoc]

theorem freeModule_eq {l : List ℕ} (hk : Kinds m.cells) (hlive : ModulesLive m)
    (hl : ∀ p ∈ l, (m.cells p).kind = .modl) : insLibFreeModule m l = m.freeAll (modulesFrees m.cells l) := by
  induction l with
  | nil => rfl
  | cons p l ih =>
    have hp : p ∉ m.freed := fun h => hlive p h (hl p List.mem_cons_self)
    rw [modulesFrees_cons, freeAll_append, ← ih fun q hq => hl q (List.mem_cons_of_mem _ hq)]
    simp only [insLibFreeModule, read_of_live hp, Option.bind_eq_bind, Option.bind_some]
    refine Option.bind_congr fun m' hm' => ?_
    rw [ih fun q hq => hl q (List.mem_cons_of_mem _ hq)] at hm'
    have hfrees : ∀ q ∈ modulesFrees m.cells l, (m.cells q).kind ≠ .modl := by
      intro q hq
      obtain h | h := kind_of_mem_modulesFrees hk hq
      · simp [h]
      · simp [h]
    obtain ⟨hcells, hlive'⟩ := hlive.freeAll hfrees hm'
    have hp' : p ∉ m'.freed := fun h => hlive' p h (hcells ▸ hl p List.mem_cons_self)
    rw [read_of_live hp']
    cases hcell : m'.cells p with
    | modl fields moduleAddress extra isr =>
      rw [← hcells, ← freeOneModule_eq (hcells ▸ hk) hcell]
      simp only [Option.bind_some]
      split_ifs
      · rfl
      · rfl
    | _ =>
      have hkind := hl p List.mem_cons_self
      rw [← hcells, hcell] at hkind
      cases hkind

theorem freeDriver_eq {l : List ℕ} (hk : Kinds m.cells) (hlive : ModulesLive m)
    (hl : ∀ p ∈ l, (m.cells p).kind = .drvr) : insLibFreeDriver m l = m.freeAll (driversFrees m.cells l) := by
  induction l with
  | nil => rfl
  | cons p l ih =>
    rw [driversFrees_cons]
    cases hcell : m.cells p with
    | drvr fields modules =>
      have hfrees : driverFrees m.cells p = modulesFrees m.cells modules ++ [p] := by
        unfold driverFrees
        rw [hcell]
      rw [hfrees]
      by_cases hp : p ∈ m.freed
      · rw [← List.append_assoc, freeAll_concat_of_freed hp]
        simp [insLibFreeDriver, Heap.read, hp]
      · rw [freeAll_append, ← ih fun q hq => hl q (List.mem_cons_of_mem _ hq)]
        simp only [insLibFreeDriver, read_of_live hp, Option.bind_eq_bind, Option.bind_some]
        refine Option.bind_congr fun m' hm' => ?_
        rw [ih fun q hq => hl q (List.mem_cons_of_mem _ hq)] at hm'
        obtain ⟨hcells, hlive'⟩ := hlive.freeAll (fun q hq => (kind_of_mem_driversFrees hk hq).1) hm'
        by_cases hp' : p ∈ m'.freed
        · rw [freeAll_concat_of_freed hp']
          simp [Heap.read, hp']
        · have hmodules : ∀ q ∈ modules, (m'.cells q).kind = .modl := by
            intro q hq
            rw [hcells]
            exact hk p (.modl, q) (by simp [hcell, Cell.links, hq])
          rw [read_of_live hp', freeAll_append, hcells, hcell]
          simp only [Option.bind_some, freeModule_eq (hcells ▸ hk) hlive' hmodules, freeAll_singleton, hcells,
            Option.bind_eq_bind]
    | _ =>
      have hkind := hl p List.mem_cons_self
      rw [hcell] at hkind
      cases hkind

/-- `InsLibFreeHost` frees one block after the other. -/
theorem freeHost_eq (hk : Kinds m.cells) (hlive : ModulesLive m) (hp : (m.cells p).kind = .host) :
    insLibFreeHost m (some p) = m.freeAll (hostFrees m.cells p) := by
  cases hcell : m.cells p with
  | host fields drivers =>
    have hdrivers : ∀ q ∈ drivers, (m.cells q).kind = .drvr := by
      intro q hq
      exact hk p (.drvr, q) (by simp [hcell, Cell.links, hq])
    unfold hostFrees
    rw [hcell]
    by_cases hpfreed : p ∈ m.freed
    · dsimp only
      rw [freeAll_concat_of_freed hpfreed]
      simp [insLibFreeHost, Heap.read, hpfreed]
    · dsimp only
      rw [freeAll_append]
      simp only [insLibFreeHost, read_of_live hpfreed, hcell, freeDriver_eq hk hlive hdrivers, freeAll_singleton,
        Option.bind_eq_bind, Option.bind_some]
  | _ =>
    rw [hcell] at hp
    cases hp

end Recursion

/-! ## No block is freed twice -/

section Nodup
variable {m : Mem} {p q x : ℕ}

theorem under_inj (hs : Sound layout m) (hp : (m.cells p).kind = .modl) (hq : (m.cells q).kind = .modl)
    (h : Under m.cells p x) (h' : Under m.cells q x) : p = q := by
  obtain ⟨k, h⟩ | ⟨ma, hma, h⟩ := h
  · obtain ⟨k', h'⟩ | ⟨ma', hma', h'⟩ := h'
    · exact hs.owner p q _ h _ h' rfl
    · have hkind := hs.kinds q _ hma'
      rw [← hs.owner p ma' _ h _ h' rfl] at hkind
      cases hp.symm.trans hkind
  · obtain ⟨k', h'⟩ | ⟨ma', hma', h'⟩ := h'
    · have hkind := hs.kinds p _ hma
      rw [hs.owner ma q _ h _ h' rfl] at hkind
      cases hq.symm.trans hkind
    · have heq := hs.owner ma ma' _ h _ h' rfl
      subst heq
      exact hs.owner p q _ hma _ hma' rfl

theorem addressFrees_nodup (hs : Sound layout m) (p : ℕ) : (addressFrees m.cells p).Nodup := by
  have hnodup := hs.nodup p
  unfold addressFrees
  split
  · rename_i ma spaces hcell
    simp only [layout, hcell, Cell.links, List.map_map] at hnodup
    have hspaces : spaces.Nodup := by simpa using hnodup
    have hself : p ∉ spaces := by
      intro h
      have hkind := hs.kinds p (.leaf, p) (by simp [layout, hcell, Cell.links, h])
      simp [layout, hcell, Cell.kind] at hkind
    rw [List.nodup_append]
    refine ⟨List.nodup_reverse.mpr hspaces, List.nodup_singleton p, ?_⟩
    intro a ha b hb
    rw [List.mem_reverse] at ha
    rw [List.mem_singleton] at hb
    subst hb
    exact fun h => hself (h ▸ ha)
  · exact List.nodup_nil

/-- What hangs on the address of a module does not hang on the module. -/
theorem disjoint_of_address (hs : Sound layout m) {ma : ℕ} {k : Kind} (hp : (m.cells p).kind = .modl)
    (hma : (.address, ma) ∈ (m.cells p).links) (hne : x ≠ ma) (hx : (k, x) ∈ (m.cells p).links) :
    x ∉ addressFrees m.cells ma := by
  intro h
  obtain ⟨rfl, -⟩ | h := mem_addressFrees h
  · exact hne rfl
  · have hkind := hs.kinds p _ hma
    rw [hs.owner ma p _ h _ hx rfl] at hkind
    cases hp.symm.trans hkind

theorem moduleFrees_nodup (hs : Sound layout m) (p : ℕ) : (moduleFrees m.cells p).Nodup := by
  have hnodup := hs.nodup p
  cases hcell : m.cells p with
  | modl fields moduleAddress extra isr =>
    have hkind : (m.cells p).kind = .modl := by rw [hcell]; rfl
    unfold moduleFrees
    simp only [layout, hcell, Cell.links, List.map_append, List.map_map, Function.comp_def, List.map_id'] at hnodup
    rw [hcell]
    dsimp only
    have hown : (extra.toList ++ isr.toList).Nodup := by
      rw [List.append_assoc] at hnodup
      exact hnodup.of_append_right
    rw [List.append_assoc]
    split_ifs
    · exact hown
    · cases moduleAddress with
      | none => simpa using hown
      | some ma =>
        have hma : (.address, ma) ∈ (m.cells p).links := by simp [hcell, Cell.links]
        simp only [Option.toList_some, List.flatMap_singleton, List.append_assoc] at hnodup ⊢
        rw [List.nodup_append]
        refine ⟨addressFrees_nodup hs ma, hown, ?_⟩
        rintro a ha b hb rfl
        have hne : a ≠ ma := by
          rintro rfl
          exact (List.nodup_cons.mp hnodup).1 hb
        refine disjoint_of_address hs (k := .leaf) hkind hma hne ?_ ha
        rw [List.mem_append, Option.mem_toList, Option.mem_toList] at hb
        simp only [hcell, Cell.links, List.mem_append, List.mem_map, Option.mem_toList]
        grind
  | _ =>
    unfold moduleFrees
    rw [hcell]
    exact List.nodup_nil

theorem modulesFrees_nodup (hs : Sound layout m) {l : List ℕ} (hl : ∀ p ∈ l, (m.cells p).kind = .modl)
    (hnodup : l.Nodup) : (modulesFrees m.cells l).Nodup := by
  refine List.nodup_flatMap.mpr ⟨fun p _ => moduleFrees_nodup hs p, ?_⟩
  refine (List.nodup_reverse.mpr hnodup).imp_of_mem fun hp hq hne x hxp hxq => hne ?_
  exact under_inj hs (hl _ (List.mem_reverse.mp hp)) (hl _ (List.mem_reverse.mp hq)) (mem_moduleFrees hxp)
    (mem_moduleFrees hxq)

theorem driverFrees_nodup (hs : Sound layout m) (p : ℕ) : (driverFrees m.cells p).Nodup := by
  have hnodup := hs.nodup p
  cases hcell : m.cells p with
  | drvr fields modules =>
    unfold driverFrees
    simp only [layout, hcell, Cell.links, List.map_map] at hnodup
    have hmodules : modules.Nodup := by simpa using hnodup
    have hkinds : ∀ q ∈ modules, (m.cells q).kind = .modl := by
      intro q hq
      exact hs.kinds p (.modl, q) (by simp [layout, hcell, Cell.links, hq])
    rw [hcell]
    rw [List.nodup_append]
    refine ⟨modulesFrees_nodup hs hkinds hmodules, List.nodup_singleton p, ?_⟩
    intro a ha b hb
    rw [List.mem_singleton] at hb
    subst hb
    rintro rfl
    have hkind := kind_of_mem_modulesFrees hs.kinds ha
    simp [hcell, Cell.kind] at hkind
  | _ =>
    unfold driverFrees
    rw [hcell]
    exact List.nodup_nil

theorem driversFrees_nodup (hs : Sound layout m) {l : List ℕ} (hnodup : l.Nodup) :
    (driversFrees m.cells l).Nodup := by
  refine List.nodup_flatMap.mpr ⟨fun p _ => driverFrees_nodup hs p, ?_⟩
  refine (List.nodup_reverse.mpr hnodup).imp_of_mem fun hp hq hne x hxp hxq => hne ?_
  obtain ⟨rfl, hkind⟩ | ⟨modld, hmodld, hx⟩ := mem_driverFrees hxp
  · obtain ⟨rfl, -⟩ | ⟨modld', hmodld', hx'⟩ := mem_driverFrees hxq
    · rfl
    · have := kind_of_mem_moduleFrees hs.kinds hx'
      simp [hkind] at this
  · obtain ⟨rfl, hkind⟩ | ⟨modld', hmodld', hx'⟩ := mem_driverFrees hxq
    · have := kind_of_mem_moduleFrees hs.kinds hx
      simp [hkind] at this
    · have heq := under_inj hs (hs.kinds _ _ hmodld) (hs.kinds _ _ hmodld') (mem_moduleFrees hx) (mem_moduleFrees hx')
      subst heq
      exact hs.owner _ _ _ hmodld _ hmodld' rfl

theorem hostFrees_nodup (hs : Sound layout m) (p : ℕ) : (hostFrees m.cells p).Nodup := by
  have hnodup := hs.nodup p
  cases hcell : m.cells p with
  | host fields drivers =>
    unfold hostFrees
    simp only [layout, hcell, Cell.links, List.map_map] at hnodup
    have hdrivers : drivers.Nodup := by simpa using hnodup
    rw [hcell]
    rw [List.nodup_append]
    refine ⟨driversFrees_nodup hs hdrivers, List.nodup_singleton p, ?_⟩
    intro a ha b hb
    rw [List.mem_singleton] at hb
    subst hb
    rintro rfl
    have hkind := (kind_of_mem_driversFrees hs.kinds ha).2
    simp [hcell, Cell.kind] at hkind
  | _ =>
    unfold hostFrees
    rw [hcell]
    exact List.nodup_nil

end Nodup

/-! ## The modules of a host -/

section Modules
variable {m : Mem} {hostd p : ℕ}

def HostModule (m : Mem) (hostd p : ℕ) : Prop :=
  ∃ d, (.drvr, d) ∈ (m.cells hostd).links ∧ (.modl, p) ∈ (m.cells d).links

def Cell.moduleAddress : Cell → Option ℕ
  | .modl _ moduleAddress _ _ => moduleAddress
  | _ => none

def Cell.busType : Cell → InsLibBusType
  | .modl modld _ _ _ => modld.busType
  | _ => .notSet

/-- The address of a module has been freed. -/
def Dangling (m : Mem) (p : ℕ) : Prop := ∃ ma ∈ (m.cells p).moduleAddress, ma ∈ m.freed

/-- What is freed while a file is read: bad addresses only. -/
def AddressesFreed (m : Mem) : Prop := ∀ p ∈ m.freed, (m.cells p).kind = .address

theorem AddressesFreed.modulesLive (h : AddressesFreed m) : ModulesLive m := by
  intro p hp
  rw [h p hp]
  decide

theorem moduleAddress_link {ma : ℕ} : ma ∈ (m.cells p).moduleAddress ↔ (.address, ma) ∈ (m.cells p).links := by
  cases hcell : m.cells p with
  | modl fields moduleAddress extra isr => simp [Cell.moduleAddress, Cell.links, eq_comm]
  | _ => simp [Cell.moduleAddress, Cell.links]

theorem mem_hostFrees {x : ℕ} : x ∈ hostFrees m.cells hostd ↔ (x = hostd ∧ (m.cells hostd).kind = .host) ∨
    ∃ d, (.drvr, d) ∈ (m.cells hostd).links ∧ x ∈ driverFrees m.cells d := by
  unfold hostFrees
  cases hcell : m.cells hostd with
  | host fields drivers =>
    simp only [driversFrees, List.mem_append, List.mem_flatMap, List.mem_reverse, List.mem_singleton, Cell.kind,
      Cell.links, List.mem_map, Prod.mk.injEq, true_and, exists_eq_right, and_true]
    exact or_comm
  | _ => simp [Cell.kind, Cell.links]

/-- An address is freed with the module it belongs to. -/
theorem address_mem_hostFrees (hs : Sound layout m) {x : ℕ} (hx : (m.cells x).kind = .address) :
    x ∈ hostFrees m.cells hostd ↔
      ∃ p, HostModule m hostd p ∧ x ∈ (m.cells p).moduleAddress ∧ (m.cells p).busType ≠ .notSet := by
  rw [mem_hostFrees]
  constructor
  · rintro (⟨rfl, hkind⟩ | ⟨d, hd, hx'⟩)
    · cases hx.symm.trans hkind
    · obtain ⟨rfl, hkind⟩ | ⟨p, hp, hxp⟩ := mem_driverFrees hx'
      · cases hx.symm.trans hkind
      · refine ⟨p, ⟨d, hd, hp⟩, ?_⟩
        have hkind := hs.kinds d _ hp
        cases hcell : m.cells p with
        | modl fields moduleAddress extra isr =>
          unfold moduleFrees at hxp
          rw [hcell] at hxp
          dsimp only at hxp
          rw [List.mem_append, List.mem_append, Option.mem_toList, Option.mem_toList] at hxp
          have hleaf : ∀ y, (.leaf, y) ∈ (m.cells p).links → x ≠ y := by
            rintro y hy rfl
            cases hx.symm.trans (hs.kinds p _ hy)
          obtain (hxp | hxp) | hxp := hxp
          · split_ifs at hxp with hbus
            · cases hxp
            · obtain ⟨ma, hma, hxma⟩ := List.mem_flatMap.mp hxp
              rw [Option.mem_toList] at hma
              obtain ⟨rfl, -⟩ | hlink := mem_addressFrees hxma
              · exact ⟨hma, hbus⟩
              · cases hx.symm.trans (hs.kinds ma _ hlink)
          · exact absurd rfl (hleaf x (by simp [hcell, Cell.links, hxp]))
          · exact absurd rfl (hleaf x (by simp [hcell, Cell.links, hxp]))
        | _ =>
          rw [layout, hcell] at hkind
          cases hkind
  · rintro ⟨p, ⟨d, hd, hp⟩, hma, hbus⟩
    refine .inr ⟨d, hd, ?_⟩
    have hxp : x ∈ moduleFrees m.cells p := by
      cases hcell : m.cells p with
      | modl fields moduleAddress extra isr =>
        rw [hcell] at hma hbus
        unfold moduleFrees
        rw [hcell]
        dsimp only
        have hbus : ¬fields.busType = .notSet := hbus
        rw [if_neg hbus, List.mem_append, List.mem_append]
        refine .inl (.inl (List.mem_flatMap.mpr ⟨x, Option.mem_toList.mpr hma, ?_⟩))
        unfold addressFrees
        cases hcell' : m.cells x with
        | address ma spaces => simp
        | _ => simp [hcell', Cell.kind] at hx
      | _ => simp [hcell, Cell.moduleAddress] at hma
    cases hcell : m.cells d with
    | drvr fields modules =>
      unfold driverFrees
      rw [hcell]
      refine List.mem_append_left _ (List.mem_flatMap.mpr ⟨p, List.mem_reverse.mpr ?_, hxp⟩)
      simpa [hcell, Cell.links] using hp
    | host fields drivers => simp [hcell, Cell.links] at hp
    | modl fields moduleAddress extra isr => simp [hcell, Cell.links] at hp
    | address ma spaces => simp [hcell, Cell.links] at hp
    | leaf l => simp [hcell, Cell.links] at hp

/-- Freeing a host is defined unless the address of a module that is on a bus has been freed before. -/
theorem freeHost_isSome (hs : Sound layout m) (hfreed : AddressesFreed m) (hp : (m.cells hostd).kind = .host) :
    (insLibFreeHost m (some hostd)).isSome = true ↔
      ¬∃ p, HostModule m hostd p ∧ Dangling m p ∧ (m.cells p).busType ≠ .notSet := by
  rw [freeHost_eq hs.kinds hfreed.modulesLive hp, Option.isSome_iff_exists]
  constructor
  · rintro ⟨m', hfree⟩ ⟨p, hmodule, ⟨ma, hma, hmafreed⟩, hbus⟩
    obtain ⟨-, hlive, -⟩ := (freeAll_eq_some _).mp hfree
    exact hlive ma ((address_mem_hostFrees hs (hfreed ma hmafreed)).mpr ⟨p, hmodule, hma, hbus⟩) hmafreed
  · intro h
    refine ⟨_, (freeAll_eq_some _).mpr ⟨hostFrees_nodup hs hostd, fun x hx hxfreed => h ?_, rfl⟩⟩
    obtain ⟨p, hmodule, hma, hbus⟩ := (address_mem_hostFrees hs (hfreed x hxfreed)).mp hx
    exact ⟨p, hmodule, ⟨x, hma, hxfreed⟩, hbus⟩

/-! ## What hangs on a host -/

theorem reach_cases (hs : Sound layout m) (hp : (m.cells hostd).kind = .host) {x : ℕ} (h : Reach layout m hostd x) :
    x = hostd ∨ (.drvr, x) ∈ (m.cells hostd).links ∨ HostModule m hostd x ∨
      (∃ p, HostModule m hostd p ∧ x ∈ (m.cells p).moduleAddress) ∨
      (∃ p, HostModule m hostd p) ∧ (m.cells x).kind = .leaf := by
  induction h with
  | root => exact .inl rfl
  | @link q x k hq hlink ih =>
    have hkind := hs.kinds q _ hlink
    obtain rfl | hd | hmodule | ⟨p, hmodule, hma⟩ | ⟨-, hleaf⟩ := ih
    · cases hcell : m.cells q with
      | host fields drivers =>
        obtain ⟨d, hd, heq⟩ := List.mem_map.mp (show (k, x) ∈ (Cell.host fields drivers).links from hcell ▸ hlink)
        cases heq
        exact .inr (.inl (by simpa [Cell.links] using hd))
      | _ => simp [hcell, Cell.kind] at hp
    · have hq := hs.kinds hostd _ hd
      cases hcell : m.cells q with
      | drvr fields modules =>
        obtain ⟨modld, hmodld, heq⟩ :=
          List.mem_map.mp (show (k, x) ∈ (Cell.drvr fields modules).links from hcell ▸ hlink)
        cases heq
        exact .inr (.inr (.inl ⟨q, hd, hlink⟩))
      | _ => simp [layout, hcell, Cell.kind] at hq
    · obtain ⟨d, hd, hq⟩ := hmodule
      obtain rfl | rfl := kind_of_modl_link (hs.kinds d _ hq) hlink
      · exact .inr (.inr (.inr (.inl ⟨q, ⟨d, hd, hq⟩, moduleAddress_link.mpr hlink⟩)))
      · exact .inr (.inr (.inr (.inr ⟨⟨q, d, hd, hq⟩, hkind⟩)))
    · have hq := hs.kinds p _ (moduleAddress_link.mp hma)
      cases hcell : m.cells q with
      | address ma spaces =>
        obtain ⟨y, -, heq⟩ := List.mem_map.mp (show (k, x) ∈ (Cell.address ma spaces).links from hcell ▸ hlink)
        cases heq
        exact .inr (.inr (.inr (.inr ⟨⟨p, hmodule⟩, hkind⟩)))
      | _ => simp [layout, hcell, Cell.kind] at hq
    · cases hcell : m.cells q with
      | leaf l =>
        have hmem : (k, x) ∈ (Cell.leaf l).links := hcell ▸ hlink
        cases hmem
      | _ => simp [hcell, Cell.kind] at hleaf

/-- A freed block hangs on a host exactly if it is the address of one of its modules. -/
theorem reach_live_iff (hs : Sound layout m) (hfreed : AddressesFreed m) (hp : (m.cells hostd).kind = .host) :
    (∀ x, Reach layout m hostd x → x ∉ m.freed) ↔ ¬∃ p, HostModule m hostd p ∧ Dangling m p := by
  constructor
  · rintro h ⟨p, ⟨d, hd, hmodld⟩, ma, hma, hmafreed⟩
    exact h ma (((Reach.root.link hd).link hmodld).link (moduleAddress_link.mp hma)) hmafreed
  · intro h x hx hxfreed
    have hkind := hfreed x hxfreed
    obtain rfl | hd | ⟨d, hd, hmodld⟩ | ⟨p, hmodule, hma⟩ | ⟨-, hleaf⟩ := reach_cases hs hp hx
    · cases hkind.symm.trans hp
    · cases hkind.symm.trans (hs.kinds hostd _ hd)
    · cases hkind.symm.trans (hs.kinds d _ hmodld)
    · exact h ⟨p, hmodule, x, hma, hxfreed⟩
    · cases hkind.symm.trans hleaf

/-- As `InsLibFreeModule` leaves the modules themselves, only a host without modules is freed as a whole. -/
theorem hostIntact_iff (hs : Sound layout m) (hfreed : AddressesFreed m) (hp : (m.cells hostd).kind = .host) :
    HostIntact m hostd ↔ ¬∃ p, HostModule m hostd p := by
  constructor
  · rintro ⟨-, m', hfree, honce⟩ ⟨p, d, hd, hmodld⟩
    rw [freeHost_eq hs.kinds hfreed.modulesLive hp] at hfree
    obtain ⟨-, -, rfl⟩ := (freeAll_eq_some _).mp hfree
    have hkind : (m.cells p).kind = .modl := hs.kinds d _ hmodld
    have hmem := List.count_pos_iff.mp (Nat.lt_of_lt_of_eq Nat.one_pos
      (honce p ((Reach.root.link hd).link hmodld)).symm)
    obtain hmem | hmem := List.mem_append.mp hmem
    · exact hfreed.modulesLive p hmem hkind
    · obtain ⟨rfl, hhost⟩ | ⟨d', -, hmem⟩ := mem_hostFrees.mp hmem
      · cases hkind.symm.trans hhost
      · exact (kind_of_mem_driverFrees hs.kinds hmem).1 hkind
  · intro h
    have hlive : ∀ x, Reach layout m hostd x → x ∉ m.freed :=
      (reach_live_iff hs hfreed hp).mpr fun ⟨p, hmodule, _⟩ => h ⟨p, hmodule⟩
    refine ⟨hlive, ?_⟩
    have hsome : (insLibFreeHost m (some hostd)).isSome = true :=
      (freeHost_isSome hs hfreed hp).mpr fun ⟨p, hmodule, _⟩ => h ⟨p, hmodule⟩
    obtain ⟨m', hfree⟩ := Option.isSome_iff_exists.mp hsome
    refine ⟨m', hfree, fun x hx => ?_⟩
    rw [freeHost_eq hs.kinds hfreed.modulesLive hp] at hfree
    obtain ⟨hnodup, -, rfl⟩ := (freeAll_eq_some _).mp hfree
    dsimp only
    rw [List.count_append, List.count_eq_zero_of_not_mem (hlive x hx), Nat.zero_add]
    refine List.count_eq_one_of_mem hnodup ?_
    rw [mem_hostFrees]
    obtain rfl | hd | hmodule | ⟨p, hmodule, -⟩ | ⟨⟨p, hmodule⟩, -⟩ := reach_cases hs hp hx
    · exact .inl ⟨rfl, hp⟩
    · refine .inr ⟨x, hd, ?_⟩
      have hx := hs.kinds hostd _ hd
      unfold driverFrees
      cases hcell : m.cells x with
      | drvr fields modules => simp
      | _ => simp [layout, hcell, Cell.kind] at hx
    · exact absurd ⟨x, hmodule⟩ h
    · exact absurd ⟨p, hmodule⟩ h
    · exact absurd ⟨p, hmodule⟩ h

end Modules

end HtDrivers.InsLib.Install
