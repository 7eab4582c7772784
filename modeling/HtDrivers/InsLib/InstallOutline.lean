import HtDrivers.InsLib.FreeHost

/-! # Which installation files leave an intact host

The outline of a file is what has to be remembered of the elements read so far to know what the next one does. It
knows no blocks, and the parser follows it.
-/
namespace HtDrivers.InsLib.Install
open HtDrivers.Lib.OwnedHeap
set_option autoImplicit false

/-! ## The outline of a file -/

/-- The last module. -/
structure LastModule where
  busType : InsLibBusType
  address : Bool
  ofHost : Bool

/-- `drvrd` says whether the last driver belongs to the last host, `vmema` how many address spaces the last address
has, `stuck` whether freeing the host would come to an address that is bad. -/
structure Outline where
  hostd : Bool
  drvrd : Option Bool
  modld : Option LastModule
  pcima : Bool
  vmema : Option ℕ
  carma : Bool
  modules : Bool
  dangling : Bool
  stuck : Bool
  elements : ℕ

def noElements : Outline := ⟨false, none, none, false, none, false, false, false, false, 0⟩

abbrev Outline.Step := Option (Outline × Bool)

namespace Outline

def giveUp (o : Outline) : Step := if o.stuck then none else some (o, false)

/-- An element that is parsed by a handler before it changes anything. -/
def parsed {D : Type} (o : Outline) (r : Outcome D) (k : D → Step) : Step :=
  match r with
  | .undefined => none
  | .returned none _ => o.giveUp
  | .returned (some d) _ => k d

def goOn (o : Outline) : Step := some (o, true)

variable (w : ℕ) (malloc : Bool) (pvalu : Option Text) (properties : List XmlAttr) (o : Outline)

def install : Step :=
  match runHandler handleInstallNode malloc none properties with
  | .undefined => none
  | .returned none _ => some (o, false)
  | .returned (some _) _ =>
    goOn { o with
      hostd := true
      drvrd := o.drvrd.map fun _ => false
      modld := o.modld.map fun md => { md with ofHost := false }
      modules := false
      dangling := false
      stuck := false }

def driver : Step :=
  if o.hostd then
    o.parsed (runHandler (handleDriverNode w) malloc none properties) fun _ => goOn { o with drvrd := some true }
  else some (o, false)

def module : Step :=
  match o.drvrd with
  | none => o.giveUp
  | some ofHost =>
    o.parsed (runHandler (handleModuleNode w) malloc none properties) fun d =>
      goOn { o with modld := some ⟨d.modld.busType, false, ofHost⟩, modules := o.modules || ofHost }

def interrupt : Step :=
  match o.modld with
  | none => o.giveUp
  | some _ => o.parsed (runHandler (interruptNode w) malloc pvalu properties) fun _ => o.goOn

/-- The address of a module: whether it is accepted. A bad one stays in the module. -/
def tag {D : Type} (bus : InsLibBusType → Bool) (h : Handler D) (md : LastModule) : Option (Outline × Bool) :=
  if !md.address && bus md.busType && malloc then
    let o' := { o with modld := some { md with address := true } }
    match h.parse properties with
    | .undefined => none
    | .returned none _ =>
      some ({ o' with
        dangling := o.dangling || md.ofHost
        stuck := o.stuck || (md.ofHost && md.busType != .notSet) }, false)
    | .returned (some _) _ => some (o', true)
  else some (o, false)

def pci : Step :=
  match o.modld with
  | none => goOn { o with pcima := false }
  | some md =>
    (o.tag malloc properties (fun bus => bus == .pmc || bus == .pci) (parsePciAddressTag w) md).map
      fun (o, accepted) => ({ o with pcima := accepted }, true)

def pciSpace : Step :=
  if o.pcima then o.parsed (runHandler (pciSpaceNode w) malloc pvalu properties) fun _ => o.goOn else o.giveUp

def vme : Step :=
  match o.modld with
  | none => goOn { o with vmema := none }
  | some md =>
    (o.tag malloc properties (fun bus => bus == .vme) parseVmeAddressTag md).map
      fun (o, accepted) => ({ o with vmema := if accepted then some 0 else none }, true)

/-- A space that is not CR/CSR finds the end of a list of one. -/
def vmeSpace : Step :=
  match o.vmema, o.modld with
  | some spaces, some _ =>
    o.parsed (runHandler (handleVmeSpaceNode w) malloc none properties) fun d =>
      if isCrCsr d || decide (spaces ≤ 1) then goOn { o with vmema := some (spaces + 1) } else none
  | _, _ => o.giveUp

def carrier : Step :=
  match o.modld with
  | none => none
  | some md =>
    (o.tag malloc properties (fun _ => true) (parseCarAddressTag w) md).map
      fun (o, accepted) => ({ o with carma := accepted }, true)

def carrierSpace : Step :=
  if o.carma then o.parsed (runHandler (carSpaceNode w) malloc pvalu properties) fun _ => o.goOn else o.giveUp

def element (pky : KeyWord) : Step :=
  match pky with
  | .install => install malloc properties o
  | .driver => driver w malloc properties o
  | .module => module w malloc properties o
  | .interrupt => interrupt w malloc pvalu properties o
  | .pci => pci w malloc properties o
  | .pciSpace => pciSpace w malloc pvalu properties o
  | .vme => vme malloc properties o
  | .vmeSpace => vmeSpace w malloc properties o
  | .carrier => carrier w malloc properties o
  | .carrierSpace => carrierSpace w malloc pvalu properties o
  | _ => o.goOn

end Outline

variable (w : ℕ) (malloc : ℕ → Bool)

def Outline.node (el : Option (String × List XmlAttr)) (pvalu : Option Text) (o : Outline) : Outline.Step :=
  match el with
  | none => o.goOn
  | some (name, properties) =>
    Outline.element w (malloc o.elements) pvalu properties { o with elements := o.elements + 1 } (lookUp name)

/-- The elements in document order, as long as none gives up and, after the first node without children, there is a
host. -/
def outline : XmlNode → Option Text → Outline → Outline.Step
  | .null, _, o => some (o, o.hostd)
  | .node el children next, pvalu, o => do
    let (o, more) ← Outline.node w malloc el pvalu o
    if more then
      let (o, more) ← outline children none o
      if more then outline next (nodePvalu w el pvalu) o else some (o, false)
    else some (o, false)

/-- Nothing undefined happens, and the file is given up or no module belongs to the last host. -/
def ReadsClean (root : XmlNode) : Prop :=
  ∃ o more, outline w malloc root none noElements = some (o, more) ∧ (more = true → o.modules = false)

/-! ## The parser follows the outline -/

section Tree
variable {m m' : Mem} {t p : ℕ}

def Cell.tag : Cell → Option InsLibBusType
  | .address (.pci _) _ => some .pci
  | .address (.vme _) _ => some .vme
  | .address (.car _) _ => some .carrier
  | _ => none

def Cell.spaces : Cell → List ℕ
  | .address _ spaces => spaces
  | _ => []

/-- What the elements that follow an installation clause leave as it is in the block they change. -/
structure Keeps (t : ℕ) (m m' : Mem) : Prop extends OnlyAt t m m' where
  lt : t < m.next
  kind : (m'.cells t).kind = (m.cells t).kind
  tag : (m'.cells t).tag = (m.cells t).tag

theorem Keeps.kind_eq (h : Keeps t m m') (hp : p < m.next) : (m'.cells p).kind = (m.cells p).kind := by
  by_cases hpt : p = t
  · rw [hpt, h.kind]
  · rw [h.cells p hp hpt]

/-- An address of a kind that can be reached through a static variable. -/
structure Accepted (m : Mem) (tag : InsLibBusType) (p : ℕ) : Prop where
  lt : p < m.next
  live : p ∉ m.freed
  tag : (m.cells p).tag = some tag

theorem Accepted.keeps {tag : InsLibBusType} (h : Accepted m tag p) (hk : Keeps t m m') : Accepted m' tag p where
  lt := h.lt.trans_le hk.next_le
  live := (hk.freed p h.lt).not.mpr h.live
  tag := by
    by_cases hpt : p = t
    · rw [hpt, hk.tag, ← hpt, h.tag]
    · rw [hk.cells p h.lt hpt, h.tag]

/-- The drivers and the modules hang where they did. -/
def SameTree (t : ℕ) (m m' : Mem) : Prop :=
  ∀ k x, k = .drvr ∨ k = .modl → ((k, x) ∈ (m'.cells t).links ↔ (k, x) ∈ (m.cells t).links)

theorem SameTree.links (h : SameTree t m m') (hk : OnlyAt t m m') {k : Kind} {x q : ℕ} (hkind : k = .drvr ∨ k = .modl)
    (hq : q < m.next) : (k, x) ∈ (m'.cells q).links ↔ (k, x) ∈ (m.cells q).links := by
  by_cases hqt : q = t
  · rw [hqt]
    exact h k x hkind
  · rw [hk.cells q hq hqt]

theorem SameTree.hostModule (h : SameTree t m m') (hk : OnlyAt t m m') (hs : Sound layout m) {hostd : ℕ}
    (hhost : hostd < m.next) : HostModule m' hostd p ↔ HostModule m hostd p := by
  unfold HostModule
  refine exists_congr fun d => ?_
  rw [h.links hk (.inl rfl) hhost]
  refine and_congr_right fun hd => h.links hk (.inr rfl) (hs.below hostd _ hd).2

theorem HostModule.lt (h : HostModule m t p) (hs : Sound layout m) : p < m.next := by
  obtain ⟨d, -, hp⟩ := h
  exact (hs.below d _ hp).2

theorem HostModule.kind (h : HostModule m t p) (hs : Sound layout m) : (m.cells p).kind = .modl := by
  obtain ⟨d, -, hp⟩ := h
  exact hs.kinds d _ hp

/-- The last host, driver and module, and what the outline says of them and of the modules of the host. -/
structure Tree (m : Mem) (hd dd md : Option ℕ) (o : Outline) : Prop where
  sound : Sound layout m
  freed : AddressesFreed m
  hostd : o.hostd = hd.isSome ∧ ∀ p ∈ hd, p < m.next ∧ (m.cells p).kind = .host
  drvrd : Option.Rel (fun p ofHost => p < m.next ∧ (m.cells p).kind = .drvr ∧
    (ofHost = true ↔ ∃ h ∈ hd, (.drvr, p) ∈ (m.cells h).links)) dd o.drvrd
  modld : Option.Rel (fun p last => p < m.next ∧ (m.cells p).kind = .modl ∧ (m.cells p).busType = last.busType ∧
    (m.cells p).moduleAddress.isSome = last.address ∧ (last.ofHost = true ↔ ∃ h ∈ hd, HostModule m h p)) md o.modld
  modules : o.modules = true ↔ ∃ h ∈ hd, ∃ p, HostModule m h p
  dangling : o.dangling = true ↔ ∃ h ∈ hd, ∃ p, HostModule m h p ∧ Dangling m p
  stuck : o.stuck = true ↔ ∃ h ∈ hd, ∃ p, HostModule m h p ∧ Dangling m p ∧ (m.cells p).busType ≠ .notSet

theorem exists_host_congr {hd : Option ℕ} {A B : ℕ → ℕ → Prop} (h : ∀ hostd ∈ hd, ∀ p, A hostd p ↔ B hostd p) :
    (∃ hostd ∈ hd, ∃ p, A hostd p) ↔ ∃ hostd ∈ hd, ∃ p, B hostd p :=
  exists_congr fun hostd => and_congr_right fun hhost => exists_congr fun p => h hostd hhost p

theorem rel_imp {A B : Type} {R S : A → B → Prop} {a : Option A} {b : Option B} (h : Option.Rel R a b)
    (himp : ∀ x y, R x y → S x y) : Option.Rel S a b := by
  cases h with
  | none => exact .none
  | some h => exact .some (himp _ _ h)

theorem rel_map {A B : Type} {R S : A → B → Prop} {a : Option A} {b : Option B} (h : Option.Rel R a b) (f : B → B)
    (himp : ∀ x y, R x y → S x (f y)) : Option.Rel S a (b.map f) := by
  cases h with
  | none => exact .none
  | some h => exact .some (himp _ _ h)

variable {hd dd md : Option ℕ} {o : Outline}

theorem AddressesFreed.keeps (h : AddressesFreed m) (hs : Sound layout m) (hk : Keeps t m m')
    (hfreed : m'.freed = m.freed) : AddressesFreed m' := by
  intro p hp
  rw [hfreed] at hp
  rw [hk.kind_eq (hs.freed p hp)]
  exact h p hp

/-- An element that leaves drivers, modules and the addresses of modules as they are. -/
theorem Tree.quiet (h : Tree m hd dd md o) (hk : Keeps t m m') (hs : Sound layout m') (hfreed : m'.freed = m.freed)
    (hsame : SameTree t m m') (haddress : (m'.cells t).moduleAddress = (m.cells t).moduleAddress)
    (hbus : (m'.cells t).busType = (m.cells t).busType) : Tree m' hd dd md o := by
  have haddresses : ∀ q < m.next, (m'.cells q).moduleAddress = (m.cells q).moduleAddress := by
    intro q hq
    by_cases hqt : q = t
    · rw [hqt, haddress]
    · rw [hk.cells q hq hqt]
  have hbuses : ∀ q < m.next, (m'.cells q).busType = (m.cells q).busType := by
    intro q hq
    by_cases hqt : q = t
    · rw [hqt, hbus]
    · rw [hk.cells q hq hqt]
  have hmodule : ∀ hostd ∈ hd, ∀ p, HostModule m' hostd p ↔ HostModule m hostd p :=
    fun hostd hhost p => hsame.hostModule hk.toOnlyAt h.sound (h.hostd.2 hostd hhost).1
  have hdangling : ∀ q < m.next, Dangling m' q ↔ Dangling m q := by
    intro q hq
    unfold Dangling
    rw [haddresses q hq, hfreed]
  constructor
  · exact hs
  · exact h.freed.keeps h.sound hk hfreed
  · refine ⟨h.hostd.1, fun p hp => ?_⟩
    obtain ⟨hlt, hkind⟩ := h.hostd.2 p hp
    exact ⟨hlt.trans_le hk.next_le, (hk.kind_eq hlt).trans hkind⟩
  · refine rel_imp h.drvrd ?_
    rintro p ofHost ⟨hlt, hkind, hof⟩
    refine ⟨hlt.trans_le hk.next_le, (hk.kind_eq hlt).trans hkind, hof.trans ?_⟩
    exact exists_congr fun hostd => and_congr_right fun hhost =>
      (hsame.links hk.toOnlyAt (.inl rfl) (h.hostd.2 hostd hhost).1).symm
  · refine rel_imp h.modld ?_
    rintro p last ⟨hlt, hkind, hbus', haddr, hof⟩
    refine ⟨hlt.trans_le hk.next_le, (hk.kind_eq hlt).trans hkind, (hbuses _ hlt).trans hbus', ?_, hof.trans ?_⟩
    · rw [haddresses _ hlt, haddr]
    · exact exists_congr fun hostd => and_congr_right fun hhost => (hmodule hostd hhost _).symm
  · rw [h.modules]
    exact exists_host_congr fun hostd hhost p => (hmodule hostd hhost p).symm
  · rw [h.dangling]
    refine exists_host_congr fun hostd hhost p => ?_
    rw [hmodule hostd hhost p]
    exact and_congr_right fun hp => (hdangling p (hp.lt h.sound)).symm
  · rw [h.stuck]
    refine exists_host_congr fun hostd hhost p => ?_
    rw [hmodule hostd hhost p]
    refine and_congr_right fun hp => ?_
    rw [hdangling p (hp.lt h.sound), hbuses p (hp.lt h.sound)]

theorem keeps_attach (m : Mem) {c d : Cell} (ht : t < m.next) (hkind : d.kind = (m.cells t).kind)
    (htag : d.tag = (m.cells t).tag) : Keeps t m (m.attach t c d) where
  toOnlyAt := onlyAt_attach m t c d
  lt := ht
  kind := by rw [attach_cells_self, hkind]
  tag := by rw [attach_cells_self, htag]

/-- A new host has no drivers, and what there was before does not belong to it. -/
theorem Tree.install (h : Tree m hd dd md o) (hostd : InsLibHostDesc) :
    Tree (m.alloc (.host hostd [])).1 (some m.next) dd md { o with
      hostd := true
      drvrd := o.drvrd.map fun _ => false
      modld := o.modld.map fun last => { last with ofHost := false }
      modules := false
      dangling := false
      stuck := false } := by
  have hnew : (m.alloc (.host hostd [])).1.cells m.next = .host hostd [] := alloc_cells_self m _
  have hold : ∀ q < m.next, (m.alloc (.host hostd [])).1.cells q = m.cells q := fun q hq => alloc_cells_of_ne _ hq.ne
  have hlinks : ∀ l, l ∉ ((m.alloc (.host hostd [])).1.cells m.next).links := by
    intro l
    rw [hnew]
    exact List.not_mem_nil
  have hnone : ∀ q, ¬HostModule (m.alloc (.host hostd [])).1 m.next q := fun q ⟨d, hd, _⟩ => hlinks _ hd
  constructor
  · exact h.sound.alloc rfl
  · intro p hp
    rw [hold p (h.sound.freed p hp)]
    exact h.freed p hp
  · refine ⟨rfl, fun p hp => ?_⟩
    obtain rfl := Option.mem_some_iff.mp hp
    exact ⟨Nat.lt_succ_self _, by rw [hnew]; rfl⟩
  · refine rel_map h.drvrd _ ?_
    rintro p ofHost ⟨hlt, hkind, -⟩
    refine ⟨hlt.trans (Nat.lt_succ_self _), by rw [hold _ hlt, hkind], ?_⟩
    simp [hlinks]
  · refine rel_map h.modld _ ?_
    rintro p last ⟨hlt, hkind, hbus, haddress, -⟩
    refine ⟨hlt.trans (Nat.lt_succ_self _), by rw [hold _ hlt, hkind], by rw [hold _ hlt, hbus],
      by rw [hold _ hlt, haddress], ?_⟩
    simp [hnone]
  · simp [hnone]
  · simp [hnone]
  · simp [hnone]

theorem attach_cells_of_ne {c d : Cell} {q : ℕ} (hq : q < m.next) (hne : q ≠ t) :
    (m.attach t c d).cells q = m.cells q := (onlyAt_attach m t c d).cells q hq hne

/-- A new driver of the last host. -/
theorem Tree.driver {hostd : ℕ} (h : Tree m (some hostd) dd md o) {fields : InsLibHostDesc} {drivers : List ℕ}
    (hcell : m.cells hostd = .host fields drivers) (drvrd : InsLibDrvrDesc) :
    Tree (m.attach hostd (.drvr drvrd []) (.host fields (drivers ++ [m.next]))) (some hostd) (some m.next) md
      { o with drvrd := some true } := by
  have hlt : hostd < m.next := (h.hostd.2 hostd rfl).1
  have hk : Keeps hostd m (m.attach hostd (.drvr drvrd []) (.host fields (drivers ++ [m.next]))) :=
    keeps_attach m hlt (by rw [hcell]; rfl) (by rw [hcell]; rfl)
  have hdrivers : ∀ p ∈ drivers, p < m.next ∧ (m.cells p).kind = .drvr := by
    intro p hp
    have hlink : (.drvr, p) ∈ (m.cells hostd).links := by simp [hcell, Cell.links, hp]
    exact ⟨(h.sound.below hostd _ hlink).2, h.sound.kinds hostd _ hlink⟩
  have hsound : Sound layout (m.attach hostd (.drvr drvrd []) (.host fields (drivers ++ [m.next]))) := by
    apply h.sound.attach_of_perm hlt rfl
    · simp [layout, hcell, Cell.kind]
    · simp only [layout, hcell, Cell.links, Cell.kind, List.map_append, List.map_cons, List.map_nil]
      exact List.perm_append_singleton _ _
  have hnew := attach_cells_new (c := .drvr drvrd []) (d := .host fields (drivers ++ [m.next])) hlt
  have hself := attach_cells_self m hostd (.drvr drvrd []) (.host fields (drivers ++ [m.next]))
  generalize hm' : m.attach hostd (.drvr drvrd []) (.host fields (drivers ++ [m.next])) = m' at *
  have hfreed : m'.freed = m.freed := by rw [← hm']; rfl
  have hnext : m'.next = m.next + 1 := by rw [← hm']; rfl
  have hold : ∀ q < m.next, (m.cells q).kind ≠ .host → m'.cells q = m.cells q := by
    intro q hq hkind
    exact hk.cells q hq fun heq => hkind (by rw [heq, hcell]; rfl)
  have hmodule : ∀ p, HostModule m' hostd p ↔ HostModule m hostd p := by
    intro p
    unfold HostModule
    rw [hself, hcell]
    simp only [Cell.links, List.mem_map, Prod.mk.injEq, true_and, exists_eq_right, List.mem_append,
      List.mem_singleton]
    constructor
    · rintro ⟨d, hd | rfl, hp⟩
      · obtain ⟨hdlt, hdkind⟩ := hdrivers d hd
        rw [hold d hdlt (by simp [hdkind])] at hp
        exact ⟨d, hd, hp⟩
      · rw [hnew] at hp
        cases hp
    · rintro ⟨d, hd, hp⟩
      obtain ⟨hdlt, hdkind⟩ := hdrivers d hd
      rw [← hold d hdlt (by simp [hdkind])] at hp
      exact ⟨d, .inl hd, hp⟩
  have hmodl : ∀ p, HostModule m hostd p → m'.cells p = m.cells p := by
    intro p hp
    exact hold p (hp.lt h.sound) (by simp [hp.kind h.sound])
  constructor
  · exact hsound
  · exact h.freed.keeps h.sound hk hfreed
  · refine ⟨h.hostd.1, fun p hp => ?_⟩
    obtain rfl := Option.mem_some_iff.mp hp
    exact ⟨hlt.trans_le hk.next_le, by rw [hself]; rfl⟩
  · refine .some ⟨by omega, by rw [hnew]; rfl, ?_⟩
    simp [hself, Cell.links]
  · refine rel_imp h.modld ?_
    rintro p last ⟨hp, hkind, hbus, haddress, hof⟩
    have hp' := hold p hp (by simp [hkind])
    refine ⟨hp.trans_le hk.next_le, by rw [hp', hkind], by rw [hp', hbus], by rw [hp', haddress], hof.trans ?_⟩
    simp [hmodule]
  · rw [h.modules]
    simp [hmodule]
  · rw [h.dangling]
    refine exists_host_congr fun hostd' hhost p => ?_
    obtain rfl := Option.mem_some_iff.mp hhost
    rw [hmodule p]
    refine and_congr_right fun hp => ?_
    simp only [Dangling, hmodl p hp, hfreed]
  · rw [h.stuck]
    refine exists_host_congr fun hostd' hhost p => ?_
    obtain rfl := Option.mem_some_iff.mp hhost
    rw [hmodule p]
    refine and_congr_right fun hp => ?_
    simp only [Dangling, hmodl p hp, hfreed]

/-! ### A new module -/

section NewModule
variable {drvrd : ℕ} {fields fields' : InsLibDrvrDesc} {modules : List ℕ} {modld : InsLibModlDesc}

theorem sound_newModule (h : Sound layout m) (hlt : drvrd < m.next) (hcell : m.cells drvrd = .drvr fields modules) :
    Sound layout (m.attach drvrd (.modl modld none none none) (.drvr fields' (modules ++ [m.next]))) := by
  apply h.attach_of_perm hlt rfl
  · simp [layout, hcell, Cell.kind]
  · simp only [layout, hcell, Cell.links, Cell.kind, List.map_append, List.map_cons, List.map_nil]
    exact List.perm_append_singleton _ _

theorem hostModule_newModule (h : Sound layout m) (hlt : drvrd < m.next)
    (hcell : m.cells drvrd = .drvr fields modules) {hostd : ℕ} (hhlt : hostd < m.next)
    (hhost : (m.cells hostd).kind = .host) :
    HostModule (m.attach drvrd (.modl modld none none none) (.drvr fields' (modules ++ [m.next]))) hostd p ↔
      HostModule m hostd p ∨ p = m.next ∧ (.drvr, drvrd) ∈ (m.cells hostd).links := by
  have hlinks : ∀ d < m.next, (.modl, p) ∈ ((m.attach drvrd (.modl modld none none none)
      (.drvr fields' (modules ++ [m.next]))).cells d).links ↔
      (.modl, p) ∈ (m.cells d).links ∨ p = m.next ∧ d = drvrd := by
    intro d hd
    by_cases hdd : d = drvrd
    · rw [hdd, attach_cells_self, hcell]
      simp [Cell.links]
    · rw [attach_cells_of_ne hd hdd]
      simp [hdd]
  have hne : hostd ≠ drvrd := by
    intro heq
    simp [heq, hcell, Cell.kind] at hhost
  unfold HostModule
  rw [attach_cells_of_ne hhlt hne]
  constructor
  · rintro ⟨d, hd, hp⟩
    obtain hp | ⟨rfl, rfl⟩ := (hlinks d (h.below hostd _ hd).2).mp hp
    · exact .inl ⟨d, hd, hp⟩
    · exact .inr ⟨rfl, hd⟩
  · rintro (⟨d, hd, hp⟩ | ⟨rfl, hd⟩)
    · exact ⟨d, hd, (hlinks d (h.below hostd _ hd).2).mpr (.inl hp)⟩
    · exact ⟨drvrd, hd, (hlinks drvrd hlt).mpr (.inr ⟨rfl, rfl⟩)⟩

/-- What holds of some module of the host, if it stays what it was for those there are and is wrong of a new one. -/
theorem exists_module_congr {A A' B : ℕ → Prop} {q : ℕ}
    (hmodule : ∀ hostd ∈ hd, ∀ p, HostModule m' hostd p ↔ HostModule m hostd p ∨ p = q ∧ B hostd)
    (hold : ∀ hostd ∈ hd, ∀ p, HostModule m hostd p → (A' p ↔ A p)) (hnew : ¬A' q) :
    (∃ hostd ∈ hd, ∃ p, HostModule m hostd p ∧ A p) ↔ ∃ hostd ∈ hd, ∃ p, HostModule m' hostd p ∧ A' p := by
  refine exists_host_congr fun hostd hhost p => ?_
  rw [hmodule hostd hhost p]
  constructor
  · rintro ⟨hp, hA⟩
    exact ⟨.inl hp, (hold hostd hhost p hp).mpr hA⟩
  · rintro ⟨hp | ⟨rfl, -⟩, hA⟩
    · exact ⟨hp, (hold hostd hhost p hp).mp hA⟩
    · exact absurd hA hnew

end NewModule

/-- A new module of the last driver. It has no address yet. -/
theorem Tree.module {drvrd : ℕ} {ofHost : Bool} (h : Tree m hd (some drvrd) md o) (hof : o.drvrd = some ofHost)
    {fields : InsLibDrvrDesc} {modules : List ℕ} (hcell : m.cells drvrd = .drvr fields modules)
    (fields' : InsLibDrvrDesc) (modld : InsLibModlDesc) :
    Tree (m.attach drvrd (.modl modld none none none) (.drvr fields' (modules ++ [m.next]))) hd (some drvrd)
      (some m.next) { o with modld := some ⟨modld.busType, false, ofHost⟩, modules := o.modules || ofHost } := by
  have hrel := h.drvrd
  rw [hof] at hrel
  obtain ⟨hlt, -, hofHost⟩ : drvrd < m.next ∧ _ ∧ (ofHost = true ↔ ∃ h ∈ hd, (.drvr, drvrd) ∈ (m.cells h).links) := by
    cases hrel with
    | some hrel => exact hrel
  have hk : Keeps drvrd m (m.attach drvrd (.modl modld none none none) (.drvr fields' (modules ++ [m.next]))) :=
    keeps_attach m hlt (by rw [hcell]; rfl) (by rw [hcell]; rfl)
  have hsound : Sound layout (m.attach drvrd (.modl modld none none none) (.drvr fields' (modules ++ [m.next]))) :=
    sound_newModule h.sound hlt hcell
  have hmodule : ∀ hostd ∈ hd, ∀ p,
      HostModule (m.attach drvrd (.modl modld none none none) (.drvr fields' (modules ++ [m.next]))) hostd p ↔
        HostModule m hostd p ∨ p = m.next ∧ (.drvr, drvrd) ∈ (m.cells hostd).links :=
    fun hostd hhost p => hostModule_newModule h.sound hlt hcell (h.hostd.2 hostd hhost).1 (h.hostd.2 hostd hhost).2
  have hnew := attach_cells_new (c := .modl modld none none none) (d := .drvr fields' (modules ++ [m.next])) hlt
  generalize hm' : m.attach drvrd (.modl modld none none none) (.drvr fields' (modules ++ [m.next])) = m' at *
  have hfreed : m'.freed = m.freed := by rw [← hm']; rfl
  have hnext : m'.next = m.next + 1 := by rw [← hm']; rfl
  have hold : ∀ q < m.next, (m.cells q).kind ≠ .drvr → m'.cells q = m.cells q := by
    intro q hq hkind
    exact hk.cells q hq fun heq => hkind (by rw [heq, hcell]; rfl)
  have hmodl : ∀ hostd ∈ hd, ∀ p, HostModule m hostd p → m'.cells p = m.cells p := by
    intro hostd hhost p hp
    exact hold p (hp.lt h.sound) (by simp [hp.kind h.sound])
  -- the new module is in order
  have hdangling : ¬Dangling m' m.next := by
    rintro ⟨ma, hma, -⟩
    rw [hnew] at hma
    cases hma
  constructor
  · exact hsound
  · exact h.freed.keeps h.sound hk hfreed
  · refine ⟨h.hostd.1, fun p hp => ?_⟩
    obtain ⟨hplt, hkind⟩ := h.hostd.2 p hp
    exact ⟨hplt.trans_le hk.next_le, by rw [hold p hplt (by simp [hkind]), hkind]⟩
  · refine rel_imp h.drvrd ?_
    rintro p ofHost ⟨hp, hkind, hof⟩
    refine ⟨hp.trans_le hk.next_le, (hk.kind_eq hp).trans hkind, hof.trans ?_⟩
    refine exists_congr fun hostd => and_congr_right fun hhost => ?_
    obtain ⟨hhlt, hhkind⟩ := h.hostd.2 hostd hhost
    rw [hold hostd hhlt (by simp [hhkind])]
  · refine .some ⟨by omega, by rw [hnew]; rfl, by rw [hnew]; rfl, by rw [hnew]; rfl, hofHost.trans ?_⟩
    refine exists_congr fun hostd => and_congr_right fun hhost => ?_
    rw [hmodule hostd hhost]
    refine ⟨fun hd => .inr ⟨rfl, hd⟩, ?_⟩
    rintro (hp | ⟨-, hd⟩)
    · exact absurd (hp.lt h.sound) (lt_irrefl _)
    · exact hd
  · rw [Bool.or_eq_true, h.modules, hofHost]
    constructor
    · rintro (⟨hostd, hhost, p, hp⟩ | ⟨hostd, hhost, hd⟩)
      · exact ⟨hostd, hhost, p, (hmodule hostd hhost p).mpr (.inl hp)⟩
      · exact ⟨hostd, hhost, m.next, (hmodule hostd hhost _).mpr (.inr ⟨rfl, hd⟩)⟩
    · rintro ⟨hostd, hhost, p, hp⟩
      obtain hp | ⟨-, hd⟩ := (hmodule hostd hhost p).mp hp
      · exact .inl ⟨hostd, hhost, p, hp⟩
      · exact .inr ⟨hostd, hhost, hd⟩
  · rw [h.dangling]
    refine exists_module_congr hmodule (fun hostd hhost p hp => ?_) hdangling
    simp only [Dangling, hmodl hostd hhost p hp, hfreed]
  · rw [h.stuck]
    refine exists_module_congr hmodule (fun hostd hhost p hp => ?_) fun hbad => hdangling hbad.1
    simp only [Dangling, hmodl hostd hhost p hp, hfreed]

/-! ### The address of a module -/

section NewAddress
variable {modld : ℕ} {fields : InsLibModlDesc} {extra isr : Option ℕ} {ma : ModuleAddress} {bad : Bool}

/-- A new address of `modld`, freed if it is bad. -/
structure NewAddress (m m' : Mem) (modld : ℕ) (fields : InsLibModlDesc) (extra isr : Option ℕ) (ma : ModuleAddress)
    (bad : Bool) : Prop where
  lt : modld < m.next
  cell : m.cells modld = .modl fields none extra isr
  eq : m' = { m.attach modld (.address ma []) (.modl fields (some m.next) extra isr) with
    freed := m.freed ++ if bad then [m.next] else [] }

namespace NewAddress
variable (h : NewAddress m m' modld fields extra isr ma bad)
include h

theorem cells : m'.cells = (m.attach modld (.address ma []) (.modl fields (some m.next) extra isr)).cells := by
  rw [h.eq]

theorem self : m'.cells modld = .modl fields (some m.next) extra isr := by
  rw [h.cells, attach_cells_self]

theorem new : m'.cells m.next = .address ma [] := by
  rw [h.cells, attach_cells_new h.lt]

theorem next : m'.next = m.next + 1 := by
  rw [h.eq]
  rfl

theorem mem_freed : p ∈ m'.freed ↔ p ∈ m.freed ∨ p = m.next ∧ bad = true := by
  rw [h.eq, List.mem_append]
  cases bad with
  | true => simp
  | false => simp

theorem keeps : Keeps modld m m' := by
  refine ⟨⟨by rw [h.next]; omega, fun q hq hne => ?_, fun q hq => ?_⟩, h.lt, ?_, ?_⟩
  · rw [h.cells, attach_cells_of_ne hq hne]
  · rw [h.mem_freed]
    exact or_iff_left fun heq => hq.ne heq.1
  · rw [h.self, h.cell]
    rfl
  · rw [h.self, h.cell]
    rfl

theorem sound (hs : Sound layout m) : Sound layout m' := by
  have hattach : Sound layout (m.attach modld (.address ma []) (.modl fields (some m.next) extra isr)) := by
    apply hs.attach_of_perm h.lt rfl
    · simp [layout, h.cell, Cell.kind]
    · simp [layout, h.cell, Cell.links, Cell.kind]
  constructor
  · rw [h.cells, h.next]
    exact hattach.below
  · rw [h.cells]
    exact hattach.kinds
  · rw [h.cells]
    exact hattach.nodup
  · rw [h.cells]
    exact hattach.owner
  · intro p hp
    rw [h.next]
    obtain hp | ⟨rfl, -⟩ := h.mem_freed.mp hp
    · exact (hs.freed p hp).trans (Nat.lt_succ_self _)
    · exact Nat.lt_succ_self _

theorem addressesFreed (hs : Sound layout m) (hf : AddressesFreed m) : AddressesFreed m' := by
  intro p hp
  obtain hp | ⟨rfl, -⟩ := h.mem_freed.mp hp
  · rw [h.keeps.kind_eq (hs.freed p hp)]
    exact hf p hp
  · rw [h.new]
    rfl

theorem sameTree : SameTree modld m m' := by
  intro k x hkind
  rw [h.self, h.cell]
  simp only [Cell.links, List.mem_append, List.mem_map, Prod.mk.injEq]
  obtain rfl | rfl := hkind
  · simp
  · simp

theorem busType {q : ℕ} (hq : q < m.next) : (m'.cells q).busType = (m.cells q).busType := by
  by_cases hqt : q = modld
  · rw [hqt, h.self, h.cell]
    rfl
  · rw [h.keeps.cells q hq hqt]

theorem dangling_iff (hs : Sound layout m) {q : ℕ} (hq : q < m.next) :
    Dangling m' q ↔ Dangling m q ∨ q = modld ∧ bad = true := by
  have hfresh : m.next ∉ m.freed := fun hmem => lt_irrefl _ (hs.freed _ hmem)
  unfold Dangling
  by_cases hqt : q = modld
  · rw [hqt, h.self, h.cell]
    simp [Cell.moduleAddress, h.mem_freed, hfresh]
  · rw [h.keeps.cells q hq hqt]
    simp only [hqt, false_and, or_false]
    refine exists_congr fun a => and_congr_right fun ha => ?_
    rw [h.mem_freed]
    exact or_iff_left fun heq => (hs.below q _ (moduleAddress_link.mp ha)).2.ne heq.1

end NewAddress

/-- What holds of some module of the host, when it comes to hold of one more module if `b`. -/
theorem exists_module_or {A A' : ℕ → Prop} {q : ℕ} {b : Prop}
    (hmodule : ∀ hostd ∈ hd, ∀ p, HostModule m' hostd p ↔ HostModule m hostd p)
    (hor : ∀ hostd ∈ hd, ∀ p, HostModule m hostd p → (A' p ↔ A p ∨ p = q ∧ b)) :
    (∃ hostd ∈ hd, ∃ p, HostModule m' hostd p ∧ A' p) ↔
      (∃ hostd ∈ hd, ∃ p, HostModule m hostd p ∧ A p) ∨ b ∧ ∃ hostd ∈ hd, HostModule m hostd q := by
  constructor
  · rintro ⟨hostd, hhost, p, hp, hA⟩
    rw [hmodule hostd hhost] at hp
    obtain hA | ⟨rfl, hb⟩ := (hor hostd hhost p hp).mp hA
    · exact .inl ⟨hostd, hhost, p, hp, hA⟩
    · exact .inr ⟨hb, hostd, hhost, hp⟩
  · rintro (⟨hostd, hhost, p, hp, hA⟩ | ⟨hb, hostd, hhost, hp⟩)
    · exact ⟨hostd, hhost, p, (hmodule hostd hhost p).mpr hp, (hor hostd hhost p hp).mpr (.inl hA)⟩
    · exact ⟨hostd, hhost, q, (hmodule hostd hhost q).mpr hp, (hor hostd hhost q hp).mpr (.inr ⟨rfl, hb⟩)⟩

end NewAddress

/-- The address of the last module, which is freed again if it is bad. -/
theorem Tree.tag {modld : ℕ} {last : LastModule} (h : Tree m hd dd (some modld) o) (hlast : o.modld = some last)
    {fields : InsLibModlDesc} {extra isr : Option ℕ} (hcell : m.cells modld = .modl fields none extra isr)
    (ma : ModuleAddress) (bad : Bool)
    (hm' : m' = { m.attach modld (.address ma []) (.modl fields (some m.next) extra isr) with
      freed := m.freed ++ if bad then [m.next] else [] }) :
    Keeps modld m m' ∧ Tree m' hd dd (some modld) { o with
      modld := some { last with address := true }
      dangling := o.dangling || (bad && last.ofHost)
      stuck := o.stuck || (bad && last.ofHost && last.busType != .notSet) } := by
  have hrel := h.modld
  rw [hlast] at hrel
  obtain ⟨hlt, -, hbus, -, hof⟩ : modld < m.next ∧ _ ∧ (m.cells modld).busType = last.busType ∧ _ ∧
      (last.ofHost = true ↔ ∃ h ∈ hd, HostModule m h modld) := by
    cases hrel with
    | some hrel => exact hrel
  have hnew : NewAddress m m' modld fields extra isr ma bad := ⟨hlt, hcell, hm'⟩
  have hk := hnew.keeps
  have hmodule : ∀ hostd ∈ hd, ∀ p, HostModule m' hostd p ↔ HostModule m hostd p :=
    fun hostd hhost p => hnew.sameTree.hostModule hk.toOnlyAt h.sound (h.hostd.2 hostd hhost).1
  refine ⟨hk, ?_⟩
  constructor
  · exact hnew.sound h.sound
  · exact hnew.addressesFreed h.sound h.freed
  · refine ⟨h.hostd.1, fun p hp => ?_⟩
    obtain ⟨hplt, hkind⟩ := h.hostd.2 p hp
    exact ⟨hplt.trans_le hk.next_le, (hk.kind_eq hplt).trans hkind⟩
  · refine rel_imp h.drvrd ?_
    rintro p ofHost ⟨hp, hkind, hof⟩
    refine ⟨hp.trans_le hk.next_le, (hk.kind_eq hp).trans hkind, hof.trans ?_⟩
    exact exists_congr fun hostd => and_congr_right fun hhost =>
      (hnew.sameTree.links hk.toOnlyAt (.inl rfl) (h.hostd.2 hostd hhost).1).symm
  · refine .some ⟨hlt.trans_le hk.next_le, by rw [hnew.self]; rfl, (hnew.busType hlt).trans hbus,
      by rw [hnew.self]; rfl, hof.trans ?_⟩
    exact exists_congr fun hostd => and_congr_right fun hhost => (hmodule hostd hhost _).symm
  · rw [h.modules]
    exact exists_host_congr fun hostd hhost p => (hmodule hostd hhost p).symm
  · rw [Bool.or_eq_true, Bool.and_eq_true, h.dangling, hof]
    exact (exists_module_or hmodule fun hostd hhost p hp => hnew.dangling_iff h.sound (hp.lt h.sound)).symm
  · rw [Bool.or_eq_true, Bool.and_eq_true, Bool.and_eq_true, h.stuck, hof, bne_iff_ne, ← hbus, and_right_comm]
    refine (exists_module_or hmodule fun hostd hhost p hp => ?_).symm
    rw [hnew.dangling_iff h.sound (hp.lt h.sound), hnew.busType (hp.lt h.sound), or_and_right]
    refine or_congr_right ⟨?_, ?_⟩
    · rintro ⟨⟨rfl, hbad⟩, hb⟩
      exact ⟨rfl, hbad, hb⟩
    · rintro ⟨rfl, hbad, hb⟩
      exact ⟨⟨rfl, hbad⟩, hb⟩

/-- An interrupt descriptor or a text is hung on a module. -/
theorem Tree.leaf (h : Tree m hd dd md o) (ht : t < m.next) {fields : InsLibModlDesc}
    {ma extra isr extra' isr' : Option ℕ} (hcell : m.cells t = .modl fields ma extra isr) (l : Leaf)
    (hlinks : extra' = some m.next ∧ isr' = isr ∨ extra' = extra ∧ isr' = some m.next) :
    Keeps t m (m.attach t (.leaf l) (.modl fields ma extra' isr')) ∧
      Tree (m.attach t (.leaf l) (.modl fields ma extra' isr')) hd dd md o := by
  have hk : Keeps t m (m.attach t (.leaf l) (.modl fields ma extra' isr')) :=
    keeps_attach m ht (by rw [hcell]; rfl) (by rw [hcell]; rfl)
  have hfresh : ∀ k, (k, m.next) ∉ (m.cells t).links := fun k hmem => lt_irrefl _ (h.sound.below t _ hmem).2
  have hself := attach_cells_self m t (.leaf l) (.modl fields ma extra' isr')
  refine ⟨hk, h.quiet hk (h.sound.attach ht rfl ?_ ?_ ?_) rfl ?_ ?_ ?_⟩
  · simp [layout, hcell, Cell.kind]
  · rintro ⟨k, x⟩ hx
    simp only [layout, hcell, Cell.links, Cell.kind, List.mem_append, List.mem_map, Option.mem_toList,
      Prod.mk.injEq] at hx ⊢
    grind
  · have hnodup := h.sound.nodup t
    simp only [hcell, Cell.links, List.mem_append, List.mem_map, Option.mem_toList, Prod.mk.injEq] at hfresh
    simp only [layout, hcell, Cell.links, List.map_append, List.map_map, Function.comp_def, List.map_id',
      List.nodup_append, List.mem_append, Option.mem_toList] at hnodup ⊢
    obtain ⟨rfl, rfl⟩ | ⟨rfl, rfl⟩ := hlinks
    · have hsingle : (some m.next).toList.Nodup := List.nodup_singleton _
      grind
    · have hsingle : (some m.next).toList.Nodup := List.nodup_singleton _
      grind
  · rintro k x (rfl | rfl)
    · rw [hself, hcell]
      simp [Cell.links]
    · rw [hself, hcell]
      simp [Cell.links]
  · rw [hself, hcell]
    rfl
  · rw [hself, hcell]
    rfl

/-- An address space is inserted into the list of an address. -/
theorem Tree.space (h : Tree m hd dd md o) (ht : t < m.next) {ma ma' : ModuleAddress} {spaces spaces' : List ℕ}
    (hcell : m.cells t = .address ma spaces) (l : Leaf)
    (htag : (Cell.address ma' spaces').tag = (Cell.address ma spaces).tag) (hperm : spaces'.Perm (m.next :: spaces)) :
    Keeps t m (m.attach t (.leaf l) (.address ma' spaces')) ∧
      Tree (m.attach t (.leaf l) (.address ma' spaces')) hd dd md o := by
  have hk : Keeps t m (m.attach t (.leaf l) (.address ma' spaces')) :=
    keeps_attach m ht (by rw [hcell]; rfl) (by rw [hcell, htag])
  have hself := attach_cells_self m t (.leaf l) (.address ma' spaces')
  refine ⟨hk, h.quiet hk (h.sound.attach ht rfl ?_ ?_ ?_) rfl ?_ ?_ ?_⟩
  · simp [layout, hcell, Cell.kind]
  · rintro ⟨k, x⟩ hx
    simp only [layout, hcell, Cell.links, Cell.kind, List.mem_map, Prod.mk.injEq, exists_eq_right_right,
      hperm.mem_iff, List.mem_cons] at hx ⊢
    tauto
  · have hnodup := h.sound.nodup t
    simp only [layout, hcell, Cell.links, List.map_map, Function.comp_def, List.map_id'] at hnodup ⊢
    rw [hperm.nodup_iff, List.nodup_cons]
    refine ⟨fun hmem => lt_irrefl m.next (h.sound.below t (.leaf, m.next) ?_).2, hnodup⟩
    simp [layout, hcell, Cell.links, hmem]
  · rintro k x (rfl | rfl)
    · rw [hself, hcell]
      simp [Cell.links]
    · rw [hself, hcell]
      simp [Cell.links]
  · rw [hself, hcell]
    rfl
  · rw [hself, hcell]
    rfl

end Tree

end HtDrivers.InsLib.Install
