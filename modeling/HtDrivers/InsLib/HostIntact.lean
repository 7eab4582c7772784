import HtDrivers.InsLib.InstallOutline

/-! # The host that an installation file leaves

Element by element, `DoElement` does what the outline says. With it the host that a file leaves is intact exactly if
the outline says so.
-/
namespace HtDrivers.InsLib.Install
open HtDrivers.Lib.OwnedHeap
set_option autoImplicit false

/-! ## What the blocks are when they are linked -/

section Blocks
variable {m m' : Mem} {p t : ℕ}

theorem read_of_kind (h : AddressesFreed m) (hkind : (m.cells p).kind ≠ .address) : m.read p = some (m.cells p) :=
  read_of_live fun hfreed => hkind (h p hfreed)

theorem addDriverNode_eq {fields : InsLibHostDesc} {drivers : List ℕ} (h : m.read p = some (.host fields drivers))
    (drvrd : InsLibDrvrDesc) :
    addDriverNode m p drvrd = some (m.attach p (.drvr drvrd []) (.host fields (drivers ++ [m.next])), m.next) := by
  simp only [addDriverNode, h, Option.bind_eq_bind, Option.bind_some]
  rfl

theorem addModuleNode_eq {fields : InsLibDrvrDesc} {modules : List ℕ} (h : m.read p = some (.drvr fields modules))
    (modld : InsLibModlDesc) :
    addModuleNode m p modld = some (m.attach p (.modl modld none none none)
      (.drvr { fields with moduleCount := fields.moduleCount + 1 } (modules ++ [m.next])), m.next) := by
  simp only [addModuleNode, h, Option.bind_eq_bind, Option.bind_some]
  rfl

theorem setExtra_eq {fields : InsLibModlDesc} {ma extra isr : Option ℕ}
    (h : m.read p = some (.modl fields ma extra isr))
    (txt : Text) : setExtra m p txt = some (m.attach p (.leaf (.extra txt)) (.modl fields ma (some m.next) isr)) := by
  simp only [setExtra, h, Option.bind_eq_bind, Option.bind_some]
  rfl

theorem setIsr_eq {fields : InsLibModlDesc} {ma extra isr : Option ℕ} (h : m.read p = some (.modl fields ma extra isr))
    (isrds : InsLibIntrDesc) :
    setIsr m p isrds = some (m.attach p (.leaf (.isr isrds)) (.modl fields ma extra (some m.next))) := by
  simp only [setIsr, h, Option.bind_eq_bind, Option.bind_some]
  rfl

theorem addSpace_eq {ma : ModuleAddress} {spaces : List ℕ} (h : m.read p = some (.address ma spaces))
    (insert : List ℕ → ℕ → Option (List ℕ)) (fields : ModuleAddress → ModuleAddress) (space : Leaf) :
    addSpace insert fields space m p =
      (insert spaces m.next).map fun spaces' => m.attach p (.leaf space) (.address (fields ma) spaces') := by
  simp only [addSpace, h, Option.bind_eq_bind, Option.bind_some]
  rw [show (m.alloc (.leaf space)).2 = m.next from rfl]
  cases insert spaces m.next <;> rfl

theorem exists_modl (h : (m.cells p).kind = .modl) : ∃ fields ma extra isr, m.cells p = .modl fields ma extra isr := by
  cases hcell : m.cells p with
  | modl fields ma extra isr => exact ⟨fields, ma, extra, isr, rfl⟩
  | _ => simp [hcell, Cell.kind] at h

theorem Accepted.read {tag : InsLibBusType} (h : Accepted m tag p) :
    ∃ ma spaces, m.cells p = .address ma spaces ∧ m.read p = some (.address ma spaces) := by
  have htag := h.tag
  cases hcell : m.cells p with
  | address ma spaces => exact ⟨ma, spaces, rfl, hcell ▸ read_of_live h.live⟩
  | _ => simp [hcell, Cell.tag] at htag

/-- A list grows by the space that is inserted, unless its end is looked for in a list of more than one. -/
theorem insertSpace_cases (cr : Bool) (l : List ℕ) (nvmeas : ℕ) :
    if cr || decide (l.length ≤ 1) then ∃ l', insertSpace cr l nvmeas = some l' ∧ l'.Perm (nvmeas :: l)
    else insertSpace cr l nvmeas = none := by
  unfold insertSpace
  by_cases hnil : l = []
  · subst hnil
    simp
  · rw [if_neg hnil]
    cases cr with
    | true => exact ⟨_, rfl, .refl _⟩
    | false =>
      rw [if_neg Bool.false_ne_true]
      have hpos := List.length_pos_iff.mpr hnil
      by_cases hone : l.length = 1
      · rw [if_pos (by simp [hone]), if_pos hone]
        exact ⟨_, rfl, List.perm_append_singleton nvmeas l⟩
      · rw [if_neg (by simp; omega), if_neg hone]

end Blocks

/-! ## The parser follows the outline -/

section Follows
variable {w : ℕ} {malloc : Bool} {pvalu : Option Text} {properties : List XmlAttr} {s : State} {o : Outline}

/-- The addresses that the static variables point to. -/
structure Statics (m : Mem) (pcima vmema carma : Option ℕ) (o : Outline) : Prop where
  pcima : o.pcima = pcima.isSome ∧ ∀ p ∈ pcima, Accepted m .pci p
  vmema : o.vmema = vmema.map (fun p => (m.cells p).spaces.length) ∧ ∀ p ∈ vmema, Accepted m .vme p
  carma : o.carma = carma.isSome ∧ ∀ p ∈ carma, Accepted m .carrier p

structure Follows (s : State) (o : Outline) : Prop where
  tree : Tree s.mem s.hostd s.drvrd s.modld o
  statics : Statics s.mem s.pcima s.vmema s.carma o
  elements : o.elements = s.elements

def Agree (r : Step) (r' : Outline.Step) : Prop :=
  match r, r' with
  | none, none => True
  | some (s, more), some (o, more') => more = more' ∧ (more = true → Follows s o)
  | _, _ => False

theorem Follows.agree (h : Follows s o) : Agree (goOn s) (some (o, true)) := ⟨rfl, fun _ => h⟩

theorem agree_giveUp {dd md : Option ℕ} (h : Tree s.mem s.hostd dd md o) : Agree (freeAndReturn s) o.giveUp := by
  cases hhost : s.hostd with
  | none =>
    have hstuck : o.stuck = false := by
      rw [← Bool.not_eq_true, h.stuck]
      simp [hhost]
    simp [Agree, freeAndReturn, Outline.giveUp, hhost, hstuck, insLibFreeHost, returnNull]
  | some p =>
    have hsome := freeHost_isSome h.sound h.freed (h.hostd.2 p hhost).2
    have hstuck : o.stuck = true ↔
        ∃ q, HostModule s.mem p q ∧ Dangling s.mem q ∧ (s.mem.cells q).busType ≠ .notSet := by
      rw [h.stuck]
      simp [hhost]
    rw [← hstuck] at hsome
    unfold freeAndReturn Outline.giveUp
    rw [hhost]
    cases hfree : insLibFreeHost s.mem (some p) with
    | none =>
      rw [hfree] at hsome
      simp only [Option.isSome_none, Bool.false_eq_true, false_iff, not_not] at hsome
      simp [Agree, hsome]
    | some m =>
      rw [hfree] at hsome
      simp only [Option.isSome_some, true_iff, Bool.not_eq_true] at hsome
      simp [Agree, hsome, returnNull]

theorem agree_parsed {D : Type} {r : Outcome D} {f : D → Step} {k : D → Outline.Step} {dd md : Option ℕ}
    (h : Tree s.mem s.hostd dd md o) (hok : ∀ d, Agree (f d) (k d)) : Agree (parsed r s f) (o.parsed r k) := by
  unfold parsed Outline.parsed
  match r with
  | .undefined => trivial
  | .returned none _ => exact agree_giveUp h
  | .returned (some d) _ => exact hok d

/-- The addresses stay what they are in a part of the program that changes one block. -/
theorem Statics.keeps {m m' : Mem} {t : ℕ} {pcima vmema carma : Option ℕ} (h : Statics m pcima vmema carma o)
    (hk : Keeps t m m') (ht : ∀ p ∈ vmema, p = t → (m'.cells t).spaces.length = (m.cells t).spaces.length) :
    Statics m' pcima vmema carma o where
  pcima := ⟨h.pcima.1, fun p hp => (h.pcima.2 p hp).keeps hk⟩
  vmema := by
    refine ⟨?_, fun p hp => (h.vmema.2 p hp).keeps hk⟩
    rw [h.vmema.1]
    cases vmema with
    | none => rfl
    | some p =>
      simp only [Option.map_some, Option.some.injEq]
      by_cases hpt : p = t
      · rw [hpt]
        exact (ht p rfl hpt).symm
      · rw [hk.cells p (h.vmema.2 p rfl).lt hpt]
  carma := ⟨h.carma.1, fun p hp => (h.carma.2 p hp).keeps hk⟩

theorem Accepted.ne {m : Mem} {t p : ℕ} {tag : InsLibBusType} (h : Accepted m tag p)
    (ht : (m.cells t).tag ≠ some tag) : p ≠ t := fun heq => ht (heq ▸ h.tag)

theorem Statics.keeps_of_tag {m m' : Mem} {t : ℕ} {pcima vmema carma : Option ℕ} (h : Statics m pcima vmema carma o)
    (hk : Keeps t m m') (ht : (m.cells t).tag ≠ some .vme) : Statics m' pcima vmema carma o :=
  h.keeps hk fun p hp heq => absurd heq ((h.vmema.2 p hp).ne ht)

theorem install_agree (h : Follows s o) : Agree (install malloc properties s) (o.install malloc properties) := by
  unfold install Outline.install
  generalize runHandler handleInstallNode malloc none properties = r
  match r with
  | .undefined => trivial
  | .returned none _ => exact ⟨rfl, nofun⟩
  | .returned (some d) _ =>
    refine ⟨rfl, fun _ => ⟨{ h.tree.install d with }, ?_, h.elements⟩⟩
    have hold : ∀ q < s.mem.next, (s.mem.alloc (.host d [])).1.cells q = s.mem.cells q :=
      fun q hq => alloc_cells_of_ne _ hq.ne
    have haccepted : ∀ {tag p}, Accepted s.mem tag p → Accepted (s.mem.alloc (.host d [])).1 tag p :=
      fun hp => ⟨hp.lt.trans (Nat.lt_succ_self _), hp.live, by rw [hold _ hp.lt, hp.tag]⟩
    refine ⟨⟨h.statics.pcima.1, fun p hp => haccepted (h.statics.pcima.2 p hp)⟩, ⟨?_, fun p hp => ?_⟩,
      ⟨h.statics.carma.1, fun p hp => haccepted (h.statics.carma.2 p hp)⟩⟩
    · refine h.statics.vmema.1.trans ?_
      cases hv : s.vmema with
      | none => rfl
      | some p =>
        show some (s.mem.cells p).spaces.length = some ((s.mem.alloc (.host d [])).1.cells p).spaces.length
        rw [hold p (h.statics.vmema.2 p hv).lt]
    · exact haccepted (h.statics.vmema.2 p hp)

theorem driver_agree (h : Follows s o) : Agree (driver w malloc properties s) (o.driver w malloc properties) := by
  have ho := h.tree.hostd.1
  unfold driver Outline.driver
  cases hhost : s.hostd with
  | none =>
    rw [hhost] at ho
    rw [if_neg (by simp [ho])]
    exact ⟨rfl, nofun⟩
  | some hostd =>
    have htree : Tree s.mem (some hostd) s.drvrd s.modld o := hhost ▸ h.tree
    obtain ⟨hlt, hkind⟩ := htree.hostd.2 hostd rfl
    rw [hhost] at ho
    rw [if_pos (by simp [ho])]
    dsimp only
    apply agree_parsed
    · exact htree
    · intro d
      cases hcell : s.mem.cells hostd with
      | host fields drivers =>
        have hread := read_of_kind h.tree.freed (p := hostd) (by simp [hkind])
        rw [hcell] at hread
        rw [addDriverNode_eq hread]
        refine ⟨rfl, fun _ => ⟨?_, ?_, h.elements⟩⟩
        · exact { htree.driver hcell d with }
        · have hk := keeps_attach s.mem (c := .drvr d []) (d := .host fields (drivers ++ [s.mem.next])) hlt
            (by rw [hcell]; rfl) (by rw [hcell]; rfl)
          exact { h.statics.keeps_of_tag hk (by simp [hcell, Cell.tag]) with }
      | _ => simp [hcell, Cell.kind] at hkind

theorem rel_none {A B : Type} {R : A → B → Prop} {b : Option B} (h : Option.Rel R none b) : b = none := by
  cases h
  rfl

theorem rel_some {A B : Type} {R : A → B → Prop} {a : A} {b : Option B} (h : Option.Rel R (some a) b) :
    ∃ x, b = some x ∧ R a x := by
  cases h with
  | some h => exact ⟨_, rfl, h⟩

theorem module_agree (h : Follows s o) : Agree (module w malloc properties s) (o.module w malloc properties) := by
  have hrel := h.tree.drvrd
  unfold module Outline.module
  cases hdrvrd : s.drvrd with
  | none =>
    rw [hdrvrd] at hrel
    rw [rel_none hrel]
    exact agree_giveUp h.tree
  | some drvrd =>
    rw [hdrvrd] at hrel
    obtain ⟨ofHost, hofHost, hlt, hkind, -⟩ := rel_some hrel
    rw [hofHost]
    dsimp only
    have htree : Tree s.mem s.hostd (some drvrd) s.modld o := hdrvrd ▸ h.tree
    apply agree_parsed
    · exact htree
    · intro d
      cases hcell : s.mem.cells drvrd with
      | drvr fields modules =>
        have hread := read_of_kind h.tree.freed (p := drvrd) (by simp [hkind])
        rw [hcell] at hread
        rw [addModuleNode_eq hread]
        have hk := keeps_attach s.mem (c := .modl d.modld none none none)
          (d := .drvr { fields with moduleCount := fields.moduleCount + 1 } (modules ++ [s.mem.next])) hlt
          (by rw [hcell]; rfl) (by rw [hcell]; rfl)
        have hnew := htree.module hofHost hcell { fields with moduleCount := fields.moduleCount + 1 } d.modld
        rw [hofHost] at hnew
        have hstatics := h.statics.keeps_of_tag hk (by simp [hcell, Cell.tag])
        have hmodl := attach_cells_new (c := .modl d.modld none none none)
          (d := .drvr { fields with moduleCount := fields.moduleCount + 1 } (modules ++ [s.mem.next])) hlt
        simp only [Option.bind_eq_bind, Option.bind_some]
        generalize s.mem.attach drvrd _ _ = mem at *
        cases hextra : d.extra with
        | none => exact ⟨rfl, fun _ => ⟨{ hnew with }, { hstatics with }, h.elements⟩⟩
        | some txt =>
          have hread := read_of_kind hnew.freed (p := s.mem.next) (by simp [hmodl, Cell.kind])
          rw [hmodl] at hread
          simp only [setExtra_eq hread, Option.bind_some]
          obtain ⟨hmdlt, -⟩ := (rel_some hnew.modld).choose_spec.2
          obtain ⟨hk', hnew'⟩ := hnew.leaf hmdlt hmodl (.extra txt) (.inl ⟨rfl, rfl⟩)
          exact ⟨rfl, fun _ => ⟨{ hnew' with }, { hstatics.keeps_of_tag hk' (by simp [hmodl, Cell.tag]) with },
            h.elements⟩⟩
      | _ => simp [hcell, Cell.kind] at hkind

theorem interrupt_agree (h : Follows s o) :
    Agree (interrupt w malloc pvalu properties s) (o.interrupt w malloc pvalu properties) := by
  have hrel := h.tree.modld
  unfold interrupt Outline.interrupt
  cases hmodld : s.modld with
  | none =>
    rw [hmodld] at hrel
    rw [rel_none hrel]
    exact agree_giveUp h.tree
  | some modld =>
    rw [hmodld] at hrel
    obtain ⟨last, hlast, hlt, hkind, -⟩ := rel_some hrel
    rw [hlast]
    dsimp only
    apply agree_parsed
    · exact h.tree
    · intro d
      obtain ⟨fields, ma, extra, isr, hcell⟩ := exists_modl hkind
      have hread := read_of_kind h.tree.freed (p := modld) (by simp [hkind])
      rw [hcell] at hread
      simp only [setIsr_eq hread, Option.bind_eq_bind, Option.bind_some]
      obtain ⟨hk, hnew⟩ := (hmodld ▸ h.tree).leaf hlt hcell (.isr d) (.inr ⟨rfl, rfl⟩)
      exact ⟨rfl, fun _ => ⟨{ hnew with }, { h.statics.keeps_of_tag hk (by simp [hcell, Cell.tag]) with }, h.elements⟩⟩

/-- The result of reading an address, as the outline has it. -/
def TagAgree (s : State) (md : ℕ) (tag : InsLibBusType) (r : Option (Mem × Option ℕ)) (r' : Option (Outline × Bool)) :
    Prop :=
  match r, r' with
  | none, none => True
  | some (m, ma), some (o, accepted) => accepted = ma.isSome ∧ Tree m s.hostd s.drvrd (some md) o ∧
      Statics m s.pcima s.vmema s.carma o ∧ o.elements = s.elements ∧
      ∀ p ∈ ma, Accepted m tag p ∧ (m.cells p).spaces = []
  | _, _ => False

theorem tag_agree {D : Type} {bus : InsLibBusType → Bool} {handler : Handler D} {mk : D → ModuleAddress}
    {tag : InsLibBusType} (htag : ∀ d, (Cell.address (mk d) []).tag = some tag) {md : ℕ} {last : LastModule}
    (h : Follows s o) (hmodld : s.modld = some md) (hlast : o.modld = some last) :
    TagAgree s md tag (parseAddressTag bus handler mk malloc properties s.mem md)
      (o.tag malloc properties bus handler last) := by
  have htree : Tree s.mem s.hostd s.drvrd (some md) o := hmodld ▸ h.tree
  have hrel := htree.modld
  rw [hlast] at hrel
  obtain ⟨last', heq, hlt, hkind, hbus, haddress, -⟩ := rel_some hrel
  cases heq
  obtain ⟨fields, ma, extra, isr, hcell⟩ := exists_modl hkind
  have hread := read_of_kind h.tree.freed (p := md) (by simp [hkind])
  rw [hcell] at hread hbus haddress
  have hsame : TagAgree s md tag (some (s.mem, none)) (some (o, false)) :=
    ⟨rfl, htree, h.statics, h.elements, nofun⟩
  unfold parseAddressTag Outline.tag
  simp only [hread, Option.bind_eq_bind, Option.bind_some]
  rw [← haddress, ← hbus]
  cases ma with
  | some ma => exact hsame
  | none =>
    simp only [Cell.moduleAddress, Cell.busType, Option.isSome_none, Bool.not_false, Bool.true_and]
    by_cases hok : (bus fields.busType && malloc) = true
    · rw [if_pos hok, if_pos hok]
      rcases handler.parse properties with ⟨- | d, -⟩ | -
      · have hfresh : s.mem.next ∉ s.mem.freed := fun hmem => lt_irrefl _ (h.tree.sound.freed _ hmem)
        have hfree : (s.mem.attach md (.address (mk handler.init) []) (.modl fields (some s.mem.next) extra isr)).free
            s.mem.next = some { s.mem.attach md (.address (mk handler.init) [])
              (.modl fields (some s.mem.next) extra isr) with freed := s.mem.freed ++ [s.mem.next] } :=
          free_eq_some.mpr ⟨hfresh, rfl⟩
        obtain ⟨hk, hnew⟩ := htree.tag hlast hcell (mk handler.init) true rfl
        have hstatics := h.statics.keeps_of_tag hk (by simp [hcell, Cell.tag])
        change TagAgree s md tag (((s.mem.attach md (.address (mk handler.init) [])
          (.modl fields (some s.mem.next) extra isr)).free s.mem.next).bind fun m => some (m, none)) _
        rw [hfree]
        simp only [Bool.true_and, ← hbus, Cell.busType] at hnew
        exact ⟨rfl, { hnew with }, { hstatics with }, h.elements, nofun⟩
      · obtain ⟨hk, hnew⟩ := htree.tag hlast hcell (mk d) false rfl
        have hstatics := h.statics.keeps_of_tag hk (by simp [hcell, Cell.tag])
        have hself := attach_cells_new (c := .address (mk d) []) (d := .modl fields (some s.mem.next) extra isr) hlt
        have hfresh : s.mem.next ∉ s.mem.freed := fun hmem => lt_irrefl _ (h.tree.sound.freed _ hmem)
        change TagAgree s md tag (some (s.mem.attach md (.address (mk d) [])
          (.modl fields (some s.mem.next) extra isr), some s.mem.next)) _
        simp only [Bool.false_and, Bool.or_false, Bool.false_eq_true, if_false, List.append_nil, ← hbus,
          Cell.busType] at hnew hstatics
        refine ⟨rfl, { hnew with }, { hstatics with }, h.elements, fun p hp => ?_⟩
        obtain rfl := Option.mem_some_iff.mp hp
        refine ⟨⟨Nat.lt_succ_self _, hfresh, ?_⟩, ?_⟩
        · rw [hself, htag]
        · rw [hself]
          rfl
      · trivial
    · rw [if_neg hok, if_neg hok]
      exact hsame

/-- An element that stores the address it has read in a static variable. -/
theorem TagAgree.agree {md : ℕ} {tag : InsLibBusType} {r : Option (Mem × Option ℕ)} {r' : Option (Outline × Bool)}
    (h : TagAgree s md tag r r') (f : Mem → Option ℕ → State) (k : Outline → Bool → Outline)
    (hok : ∀ m ma o, Tree m s.hostd s.drvrd (some md) o → Statics m s.pcima s.vmema s.carma o →
      o.elements = s.elements → (∀ p ∈ ma, Accepted m tag p ∧ (m.cells p).spaces = []) →
      Follows (f m ma) (k o ma.isSome)) :
    Agree (r.bind fun x => goOn (f x.1 x.2)) (r'.map fun x => (k x.1 x.2, true)) := by
  rcases r with - | ⟨m, ma⟩
  · rcases r' with - | _
    · trivial
    · exact h.elim
  · rcases r' with - | ⟨o, accepted⟩
    · exact h.elim
    · obtain ⟨rfl, htree, hstatics, helements, haccepted⟩ := h
      exact ⟨rfl, fun _ => hok m ma o htree hstatics helements haccepted⟩

theorem pci_agree (h : Follows s o) : Agree (pci w malloc properties s) (o.pci w malloc properties) := by
  have hrel := h.tree.modld
  unfold pci Outline.pci
  cases hmodld : s.modld with
  | none =>
    rw [hmodld] at hrel
    have htree := h.tree
    rw [hmodld] at htree
    rw [rel_none hrel]
    exact ⟨rfl, fun _ => ⟨{ htree with modld := .none }, { h.statics with pcima := ⟨rfl, nofun⟩ }, h.elements⟩⟩
  | some md =>
    rw [hmodld] at hrel
    obtain ⟨last, hlast, -⟩ := rel_some hrel
    rw [hlast]
    refine (tag_agree (fun _ => rfl) h hmodld hlast).agree
      (fun mem pcima => { s with mem, modld := some md, pcima }) (fun o accepted => { o with pcima := accepted }) ?_
    intro m ma o htree hstatics helements haccepted
    exact ⟨{ htree with }, { hstatics with pcima := ⟨rfl, fun p hp => (haccepted p hp).1⟩ }, helements⟩

theorem vme_agree (h : Follows s o) : Agree (vme malloc properties s) (o.vme malloc properties) := by
  have hrel := h.tree.modld
  unfold vme Outline.vme
  cases hmodld : s.modld with
  | none =>
    rw [hmodld] at hrel
    have htree := h.tree
    rw [hmodld] at htree
    rw [rel_none hrel]
    exact ⟨rfl, fun _ => ⟨{ htree with modld := .none }, { h.statics with vmema := ⟨rfl, nofun⟩ }, h.elements⟩⟩
  | some md =>
    rw [hmodld] at hrel
    obtain ⟨last, hlast, -⟩ := rel_some hrel
    rw [hlast]
    refine (tag_agree (fun _ => rfl) h hmodld hlast).agree
      (fun mem vmema => { s with mem, modld := some md, vmema })
      (fun o accepted => { o with vmema := if accepted then some 0 else none }) ?_
    intro m ma o htree hstatics helements haccepted
    refine ⟨{ htree with }, { hstatics with vmema := ⟨?_, fun p hp => (haccepted p hp).1⟩ }, helements⟩
    cases ma with
    | none => rfl
    | some p => simp [(haccepted p rfl).2]

theorem carrier_agree (h : Follows s o) : Agree (carrier w malloc properties s) (o.carrier w malloc properties) := by
  have hrel := h.tree.modld
  unfold carrier Outline.carrier
  cases hmodld : s.modld with
  | none =>
    rw [hmodld] at hrel
    rw [rel_none hrel]
    trivial
  | some md =>
    rw [hmodld] at hrel
    obtain ⟨last, hlast, -⟩ := rel_some hrel
    rw [hlast]
    refine (tag_agree (fun _ => rfl) h hmodld hlast).agree
      (fun mem carma => { s with mem, modld := some md, carma }) (fun o accepted => { o with carma := accepted }) ?_
    intro m ma o htree hstatics helements haccepted
    exact ⟨{ htree with }, { hstatics with carma := ⟨rfl, fun p hp => (haccepted p hp).1⟩ }, helements⟩

/-- What inserting a space does to the heap, when the list takes it. -/
theorem addSpace_follows (h : Follows s o) {tag : InsLibBusType} {p : ℕ} (hp : Accepted s.mem tag p)
    (insert : List ℕ → ℕ → Option (List ℕ)) (fields : ModuleAddress → ModuleAddress) (l : Leaf)
    (hfields : ∀ ma spaces spaces', (Cell.address (fields ma) spaces').tag = (Cell.address ma spaces).tag)
    {spaces' : List ℕ} (hinsert : insert (s.mem.cells p).spaces s.mem.next = some spaces')
    (hperm : spaces'.Perm (s.mem.next :: (s.mem.cells p).spaces)) :
    ∃ m, addSpace insert fields l s.mem p = some m ∧ Keeps p s.mem m ∧ Tree m s.hostd s.drvrd s.modld o ∧
      (m.cells p).spaces = spaces' := by
  obtain ⟨ma, spaces, hcell, hread⟩ := hp.read
  rw [hcell] at hinsert hperm
  obtain ⟨hk, htree⟩ := h.tree.space hp.lt hcell l (hfields ma spaces spaces') hperm
  refine ⟨_, ?_, hk, htree, ?_⟩
  · rw [addSpace_eq hread, show insert spaces s.mem.next = some spaces' from hinsert]
    rfl
  · rw [attach_cells_self]
    rfl

theorem insertLast_perm (spaces : List ℕ) (p : ℕ) :
    insertLast spaces p = some (spaces ++ [p]) ∧ (spaces ++ [p]).Perm (p :: spaces) :=
  ⟨rfl, List.perm_append_singleton p spaces⟩

theorem pciSpace_agree (h : Follows s o) :
    Agree (pciSpace w malloc pvalu properties s) (o.pciSpace w malloc pvalu properties) := by
  have ho := h.statics.pcima.1
  unfold pciSpace Outline.pciSpace
  cases hpcima : s.pcima with
  | none =>
    rw [hpcima] at ho
    rw [if_neg (by simp [ho])]
    exact agree_giveUp h.tree
  | some p =>
    rw [hpcima] at ho
    rw [if_pos (by simp [ho])]
    have hp := h.statics.pcima.2 p hpcima
    dsimp only
    apply agree_parsed
    · exact h.tree
    · intro d
      obtain ⟨hinsert, hperm⟩ := insertLast_perm (s.mem.cells p).spaces s.mem.next
      obtain ⟨m, hm, hk, htree, -⟩ := addSpace_follows h hp insertLast id (.pciSpace d) (fun ma _ _ => by
        cases ma <;> rfl) hinsert hperm
      rw [hm]
      have hstatics := h.statics.keeps_of_tag hk (by simp [hp.tag])
      rw [hpcima] at hstatics
      exact ⟨rfl, fun _ => ⟨{ htree with }, { hstatics with }, h.elements⟩⟩

theorem carrierSpace_agree (h : Follows s o) :
    Agree (carrierSpace w malloc pvalu properties s) (o.carrierSpace w malloc pvalu properties) := by
  have ho := h.statics.carma.1
  unfold carrierSpace Outline.carrierSpace
  cases hcarma : s.carma with
  | none =>
    rw [hcarma] at ho
    rw [if_neg (by simp [ho])]
    exact agree_giveUp h.tree
  | some p =>
    rw [hcarma] at ho
    rw [if_pos (by simp [ho])]
    have hp := h.statics.carma.2 p hcarma
    dsimp only
    apply agree_parsed
    · exact h.tree
    · intro d
      obtain ⟨hinsert, hperm⟩ := insertLast_perm (s.mem.cells p).spaces s.mem.next
      obtain ⟨m, hm, hk, htree, -⟩ := addSpace_follows h hp insertLast (setCarComment d.carmaComment)
        (.carSpace d.caras) (fun ma _ _ => by cases ma <;> rfl) hinsert hperm
      rw [hm]
      have hstatics := h.statics.keeps_of_tag hk (by simp [hp.tag])
      rw [hcarma] at hstatics
      exact ⟨rfl, fun _ => ⟨{ htree with }, { hstatics with }, h.elements⟩⟩

theorem vmeSpace_agree (h : Follows s o) :
    Agree (vmeSpace w malloc properties s) (o.vmeSpace w malloc properties) := by
  have ho := h.statics.vmema.1
  have hrel := h.tree.modld
  unfold vmeSpace Outline.vmeSpace
  cases hvmema : s.vmema with
  | none =>
    rw [hvmema] at ho
    rw [ho]
    exact agree_giveUp h.tree
  | some p =>
    rw [hvmema] at ho
    cases hmodld : s.modld with
    | none =>
      rw [hmodld] at hrel
      rw [ho, rel_none hrel]
      exact agree_giveUp h.tree
    | some md =>
      rw [hmodld] at hrel
      obtain ⟨last, hlast, -⟩ := rel_some hrel
      rw [hlast]
      have hp := h.statics.vmema.2 p hvmema
      have htree := h.tree
      rw [hmodld] at htree
      rw [ho]
      dsimp only [Option.map_some]
      apply agree_parsed
      · exact htree
      · intro d
        have hcases := insertSpace_cases (isCrCsr d) (s.mem.cells p).spaces s.mem.next
        split at hcases
        · rename_i hroom
          rw [if_pos hroom]
          obtain ⟨spaces', hinsert, hperm⟩ := hcases
          obtain ⟨m, hm, hk, htree', hspaces⟩ := addSpace_follows h hp (insertSpace (isCrCsr d)) id (.vmeSpace d)
            (fun ma _ _ => by cases ma <;> rfl) hinsert hperm
          rw [hm]
          have hmodl := htree'.modld
          rw [hmodld] at htree'
          rw [hmodld, hlast] at hmodl
          refine ⟨rfl, fun _ => ⟨{ htree' with modld := hmodl }, ?_, h.elements⟩⟩
          refine ⟨⟨h.statics.pcima.1, fun q hq => (h.statics.pcima.2 q hq).keeps hk⟩, ⟨?_, fun q hq => ?_⟩,
            ⟨h.statics.carma.1, fun q hq => (h.statics.carma.2 q hq).keeps hk⟩⟩
          · simp [hspaces, hperm.length_eq]
          · obtain rfl := Option.mem_some_iff.mp hq
            exact hp.keeps hk
        · rename_i hroom
          rw [if_neg hroom]
          obtain ⟨ma, spaces, hcell, hread⟩ := hp.read
          rw [hcell] at hcases
          rw [addSpace_eq hread, show insertSpace (isCrCsr d) spaces s.mem.next = none from hcases]
          trivial

theorem element_agree (h : Follows s o) (pky : KeyWord) :
    Agree (element w malloc pvalu properties s pky) (o.element w malloc pvalu properties pky) := by
  cases pky with
  | install => exact install_agree h
  | driver => exact driver_agree h
  | module => exact module_agree h
  | interrupt => exact interrupt_agree h
  | pci => exact pci_agree h
  | pciSpace => exact pciSpace_agree h
  | vme => exact vme_agree h
  | vmeSpace => exact vmeSpace_agree h
  | carrier => exact carrier_agree h
  | carrierSpace => exact carrierSpace_agree h
  | _ => exact h.agree

end Follows

/-! ## Whole files -/

section Files
variable {w : ℕ} {malloc : ℕ → Bool}

theorem start_follows : Follows start noElements where
  tree :=
    { sound := ⟨fun _ _ => nofun, fun _ _ => nofun, fun _ => List.nodup_nil, fun _ _ _ => nofun, fun _ => nofun⟩
      freed := fun _ => nofun
      hostd := ⟨rfl, nofun⟩
      drvrd := .none
      modld := .none
      modules := by simp [noElements, start]
      dangling := by simp [noElements, start]
      stuck := by simp [noElements, start] }
  statics := ⟨⟨rfl, nofun⟩, ⟨rfl, nofun⟩, ⟨rfl, nofun⟩⟩
  elements := rfl

/-- `DoElement` on a node and its outline: both undefined, or one returns a host if the other goes on. -/
def NodeAgree (r : Option (State × Option ℕ)) (r' : Outline.Step) : Prop :=
  match r, r' with
  | none, none => True
  | some (s, hostd), some (o, more) => more = hostd.isSome ∧ (more = true → hostd = s.hostd ∧ Follows s o)
  | _, _ => False

theorem node_agree {s : State} {o : Outline} (h : Follows s o) (el : Option (String × List XmlAttr))
    (pvalu : Option Text) :
    Agree (node w malloc el pvalu s) (o.node w malloc el pvalu) := by
  match el with
  | none => exact h.agree
  | some (name, properties) =>
    have h' : Follows { s with elements := s.elements + 1 } { o with elements := o.elements + 1 } :=
      ⟨{ h.tree with }, { h.statics with }, congrArg (· + 1) h.elements⟩
    unfold node Outline.node
    rw [← h.elements] at h' ⊢
    exact element_agree h' _

/-- What follows the children of a node. -/
theorem NodeAgree.andThen {r : Option (State × Option ℕ)} {r' : Outline.Step} (h : NodeAgree r r')
    {f : State → Option (State × Option ℕ)} {f' : Outline → Outline.Step}
    (hf : ∀ s o, Follows s o → NodeAgree (f s) (f' o)) :
    NodeAgree (r.bind fun x => if x.2.isSome then f x.1 else some (x.1, none))
      (r'.bind fun x => if x.2 then f' x.1 else some (x.1, false)) := by
  rcases r with - | ⟨s, hostd⟩
  · rcases r' with - | _
    · trivial
    · exact h.elim
  · rcases r' with - | ⟨o, more⟩
    · exact h.elim
    · obtain ⟨rfl, h⟩ := h
      cases hostd with
      | none => exact ⟨rfl, nofun⟩
      | some hostd => exact hf s o (h rfl).2

theorem doElement_node (el : Option (String × List XmlAttr)) (children next : XmlNode) (pvalu : Option Text)
    (s : State) :
    doElement w malloc (.node el children next) pvalu s = (node w malloc el pvalu s).bind fun x =>
      if x.2 then (doElement w malloc children none x.1).bind fun y =>
        if y.2.isSome then doElement w malloc next (nodePvalu w el pvalu) y.1 else some (y.1, none)
      else some (x.1, none) := by
  rw [doElement]
  refine Option.bind_congr ?_
  rintro ⟨s, more⟩ -
  cases more with
  | false => rfl
  | true =>
    refine Option.bind_congr ?_
    rintro ⟨s, hostd⟩ -
    cases hostd <;> rfl

theorem doElement_agree (root : XmlNode) : ∀ (pvalu : Option Text) {s : State} {o : Outline}, Follows s o →
    NodeAgree (doElement w malloc root pvalu s) (outline w malloc root pvalu o) := by
  induction root with
  | null =>
    intro pvalu s o h
    exact ⟨h.tree.hostd.1, fun _ => ⟨rfl, h⟩⟩
  | node el children next ihc ihn =>
    intro pvalu s o h
    have hcontent : Agree (node w malloc el pvalu s) (o.node w malloc el pvalu) := node_agree h el pvalu
    rw [doElement_node, outline]
    generalize node w malloc el pvalu s = r at *
    generalize Outline.node w malloc el pvalu o = r' at *
    rcases r with - | ⟨s₁, more⟩
    · rcases r' with - | _
      · trivial
      · exact hcontent.elim
    · rcases r' with - | ⟨o₁, more'⟩
      · exact hcontent.elim
      · obtain ⟨rfl, h₁⟩ := hcontent
        cases more with
        | false => exact ⟨rfl, nofun⟩
        | true => exact (ihc none (h₁ rfl)).andThen fun s o hf => ihn _ hf

/-- What hangs on the host that a file leaves has been freed in part exactly if the outline found a bad address in one
of its modules. -/
theorem hostLive_iff {root : XmlNode} {m : Mem} {hostd : ℕ} {o : Outline} {more : Bool}
    (hparse : insLibParseInstallFile w malloc root = some (m, some hostd))
    (houtline : outline w malloc root none noElements = some (o, more)) :
    (∀ x, Reach layout m hostd x → x ∉ m.freed) ↔ o.dangling = false := by
  have hagree : NodeAgree (doElement w malloc root none start) (outline w malloc root none noElements) :=
    doElement_agree root none start_follows
  obtain ⟨⟨s, ret⟩, hs, heq⟩ := Option.map_eq_some_iff.mp hparse
  cases heq
  rw [hs, houtline] at hagree
  obtain ⟨rfl, h⟩ := hagree
  obtain ⟨hhost, hf⟩ := h rfl
  rw [reach_live_iff hf.tree.sound hf.tree.freed (hf.tree.hostd.2 hostd hhost.symm).2, ← Bool.not_eq_true,
    hf.tree.dangling, ← hhost]
  simp

/-- A file whose only module has a PCI address on bus 17. -/
def badPci : XmlNode :=
  .node (some ("install", [⟨"host", some "cfv-1".toList⟩]))
    (.node (some ("driver", [⟨"name", some "SKEL".toList⟩]))
      (.node (some ("module", [⟨"bus_type", some "PCI".toList⟩, ⟨"logical_module_number", some "1".toList⟩]))
        (.node (some ("pci", [⟨"bus_number", some "17".toList⟩])) .null .null)
        .null)
      .null)
    .null

/-- A PCI module with two address spaces. -/
def twoSpaces (bar₁ bar₂ : Option Text) : XmlNode :=
  .node (some ("install", [⟨"host", some "cfv-1".toList⟩]))
    (.node (some ("driver", [⟨"name", some "SKEL".toList⟩]))
      (.node (some ("module", [⟨"bus_type", some "PCI".toList⟩, ⟨"logical_module_number", some "1".toList⟩]))
        (.node (some ("pci", [⟨"bus_number", some "1".toList⟩, ⟨"name", none⟩]))
          (.node (some ("pci_space", [⟨"bar", bar₁⟩])) .null (.node (some ("pci_space", [⟨"bar", bar₂⟩])) .null .null))
          .null)
        .null)
      .null)
    .null

-- An empty value reads the text that `pvalu` has from the space before it, and nothing defined without one.
example : (insLibParseInstallFile 64 (fun _ => true) (twoSpaces (some "1".toList) none)).isSome = true ∧
    (insLibParseInstallFile 64 (fun _ => true) (twoSpaces none (some "1".toList))).isSome = false := by decide

end Files

end HtDrivers.InsLib.Install
