import HtDrivers.InsLib.AttributeOrder

/-! The address spaces of a VME module as `add_vme_addr_space` links them (`libinst.c`). Every space lives in a block
of its own, numbered in the order of the allocations; a pointer is a block and an offset in structs, and only
offset 0 lies in the block. -/
namespace HtDrivers.InsLib
set_option autoImplicit false

/-! ## Memory -/

structure SpaceCell where
  fields : InsLibVmeAddressSpace
  next : Option ℕ
  deriving DecidableEq, Repr

/-- The spaces allocated so far and the head of the list of the module. -/
structure SpaceMem where
  cells : List SpaceCell
  vmeAddressSpace : Option ℕ
  deriving DecidableEq, Repr

structure SpacePtr where
  block : ℕ
  offset : ℕ
  deriving DecidableEq, Repr

def deref (cells : List SpaceCell) (ptr : SpacePtr) : Option SpaceCell :=
  if ptr.offset = 0 then cells[ptr.block]? else none

def setNext (cells : List SpaceCell) (block : ℕ) (next : Option ℕ) : List SpaceCell :=
  cells.modify block fun c => { c with next := next }

/-! ## Insertion -/

/-- `AM_A24_CR_CSR` of `vme_am.h`. -/
def amA24CrCsr : ℕ := 0x2F

def isCrCsr (vmeas : InsLibVmeAddressSpace) : Bool := vmeas.addressModifier = amA24CrCsr

/-- `while (ptr->Next) ++ptr`: the pointer moves on by the size of a struct. -/
def lastSpace (cells : List SpaceCell) : ℕ → SpacePtr → Option ℕ
  | 0, _ => none
  | fuel + 1, ptr => do
    let c ← deref cells ptr
    if c.next.isSome then lastSpace cells fuel { ptr with offset := ptr.offset + 1 } else some ptr.block

/-- `none` is an access to memory that is not a space. -/
def addVmeAddrSpace (m : SpaceMem) (nvmeas : ℕ) : Option SpaceMem :=
  match m.vmeAddressSpace with
  | none => some { m with vmeAddressSpace := some nvmeas }
  | some head => do
    let c ← deref m.cells ⟨nvmeas, 0⟩
    if isCrCsr c.fields then
      some { cells := setNext m.cells nvmeas (some head), vmeAddressSpace := some nvmeas }
    else
      let last ← lastSpace m.cells (m.cells.length + 1) ⟨head, 0⟩
      some { m with cells := setNext m.cells last (some nvmeas) }

variable (w : ℕ)

/-- What `handle_vme_space_node` finds in the attributes; it never gives a space up. -/
def parsedSpace (properties : List XmlAttr) : Option InsLibVmeAddressSpace :=
  match (handleVmeSpaceNode w).parse properties with
  | .returned desc _ => desc
  | .undefined => none

def vmeSpaceNode (m : SpaceMem) (properties : List XmlAttr) : Option SpaceMem := do
  let vmeas ← parsedSpace w properties
  addVmeAddrSpace { m with cells := m.cells ++ [⟨vmeas, none⟩] } m.cells.length

/-- The `vme_space` elements of one module. -/
def vmeSpaceNodes (elements : List (List XmlAttr)) : Option SpaceMem :=
  elements.foldlM (vmeSpaceNode w) { cells := [], vmeAddressSpace := none }

/-! ## The list in memory -/

/-- Following `Next` from the pointer visits exactly these blocks. -/
def Linked (cells : List SpaceCell) : Option ℕ → List ℕ → Prop
  | none, [] => True
  | some a, b :: l => a = b ∧ ∃ c, cells[a]? = some c ∧ Linked cells c.next l
  | none, _ :: _ => False
  | some _, [] => False

/-- After parsing, the list of the module holds every space of the document once, the CR/CSR spaces before the
others and the others in document order. -/
def SpacesInOrder (elements : List (List XmlAttr)) : Prop :=
  ∃ m l vmeass, vmeSpaceNodes w elements = some m ∧ elements.map (parsedSpace w) = vmeass.map some ∧
    m.cells.map SpaceCell.fields = vmeass ∧ Linked m.cells m.vmeAddressSpace l ∧
    l.Perm (List.range elements.length) ∧
    ∃ first, (∀ b ∈ first, (vmeass[b]?).any isCrCsr = true) ∧
      l = first ++ (List.range elements.length).filter fun b => !(vmeass[b]?).any isCrCsr

/-- What one insertion does to the list, when it does not leave the spaces. -/
def insertSpace (cr : Bool) (l : List ℕ) (nvmeas : ℕ) : Option (List ℕ) :=
  if l = [] then some [nvmeas]
  else if cr then some (nvmeas :: l)
  else if l.length = 1 then some (l ++ [nvmeas])
  else none

/-! ## Following `Next` -/

section Memory
variable {cells : List SpaceCell} {p : Option ℕ} {l : List ℕ}

theorem linked_append (c : SpaceCell) (h : Linked cells p l) : Linked (cells ++ [c]) p l := by
  induction l generalizing p with
  | nil => cases p <;> exact h
  | cons b l ih =>
    cases p with
    | none => exact h
    | some a =>
      obtain ⟨hab, d, hd, hrest⟩ := h
      have hlt : a < cells.length := (List.getElem?_eq_some_iff.mp hd).1
      exact ⟨hab, d, by rw [List.getElem?_append_left hlt, hd], ih hrest⟩

theorem linked_setNext {block : ℕ} (next : Option ℕ) (h : Linked cells p l) (hb : block ∉ l) :
    Linked (setNext cells block next) p l := by
  induction l generalizing p with
  | nil => cases p <;> exact h
  | cons b l ih =>
    cases p with
    | none => exact h
    | some a =>
      obtain ⟨rfl, d, hd, hrest⟩ := h
      have hne : block ≠ a := fun heq => hb (heq ▸ List.mem_cons_self ..)
      refine ⟨rfl, d, ?_, ih hrest fun hmem => hb (List.mem_cons_of_mem a hmem)⟩
      rw [setNext, List.getElem?_modify_ne _ _ hne, hd]

theorem linked_lt (h : Linked cells p l) : ∀ b ∈ l, b < cells.length := by
  induction l generalizing p with
  | nil => exact nofun
  | cons b l ih =>
    cases p with
    | none => exact h.elim
    | some a =>
      obtain ⟨rfl, d, hd, hrest⟩ := h
      intro c hc
      obtain rfl | hc := List.mem_cons.mp hc
      · exact (List.getElem?_eq_some_iff.mp hd).1
      · exact ih hrest c hc

theorem lastSpace_single {a : ℕ} (fuel : ℕ) (h : Linked cells (some a) [a]) : lastSpace cells (fuel + 1)
    ⟨a, 0⟩ = some a := by
  obtain ⟨-, c, hc, hrest⟩ := h
  have hnext : c.next = none := by
    cases hn : c.next with
    | none => rfl
    | some b => rw [hn] at hrest; exact hrest.elim
  simp [lastSpace, deref, hc, hnext]

theorem lastSpace_longer {a b : ℕ} (fuel : ℕ) (h : Linked cells (some a) (a :: b :: l)) :
    lastSpace cells fuel ⟨a, 0⟩ = none := by
  obtain ⟨-, c, hc, hrest⟩ := h
  have hnext : c.next.isSome = true := by
    cases hn : c.next with
    | none => rw [hn] at hrest; exact hrest.elim
    | some b => rfl
  cases fuel with
  | zero => rfl
  | succ fuel =>
    have hbehind : lastSpace cells fuel ⟨a, 1⟩ = none := by cases fuel <;> simp [lastSpace, deref]
    simp [lastSpace, deref, hc, hnext, hbehind]

theorem fields_setNext (block : ℕ) (next : Option ℕ) :
    (setNext cells block next).map SpaceCell.fields = cells.map SpaceCell.fields := by
  unfold setNext
  refine List.ext_getElem? fun i => ?_
  rw [List.getElem?_map, List.getElem?_map, List.getElem?_modify]
  split
  · cases cells[i]? <;> rfl
  · cases cells[i]? <;> rfl

theorem getElem?_setNext_self {block : ℕ} {c : SpaceCell} (next : Option ℕ) (hc : cells[block]? = some c) :
    (setNext cells block next)[block]? = some { c with next := next } := by
  rw [setNext, List.getElem?_modify_eq, hc]
  rfl

end Memory

/-! ## Insertion refines -/

/-- On the list in memory the insertion does what `insertSpace` does to the list of blocks, and leaves memory
where that fails. -/
theorem addVmeAddrSpace_spec {m : SpaceMem} {l : List ℕ} (vmeas : InsLibVmeAddressSpace)
    (hl : Linked m.cells m.vmeAddressSpace l) :
    match insertSpace (isCrCsr vmeas) l m.cells.length with
    | none => addVmeAddrSpace { m with cells := m.cells ++ [⟨vmeas, none⟩] } m.cells.length = none
    | some l' => ∃ m', addVmeAddrSpace { m with cells := m.cells ++ [⟨vmeas, none⟩] } m.cells.length = some m' ∧
        Linked m'.cells m'.vmeAddressSpace l' ∧
        m'.cells.map SpaceCell.fields = m.cells.map SpaceCell.fields ++ [vmeas] := by
  obtain ⟨cells, head⟩ := m
  have hnew : (cells ++ [⟨vmeas, none⟩])[cells.length]? = some ⟨vmeas, none⟩ := by simp
  have hfields : (cells ++ [(⟨vmeas, none⟩ : SpaceCell)]).map SpaceCell.fields = cells.map SpaceCell.fields ++
    [vmeas] := by
    simp
  have hfresh : cells.length ∉ l := fun hmem => (linked_lt hl _ hmem).ne rfl
  have hl' := linked_append ⟨vmeas, none⟩ hl
  cases l with
  | nil =>
    have hhead : head = none := by
      cases head with
      | none => rfl
      | some a => exact hl.elim
    subst hhead
    exact ⟨⟨cells ++ [⟨vmeas, none⟩], some cells.length⟩, rfl, ⟨rfl, ⟨vmeas, none⟩, hnew, trivial⟩, hfields⟩
  | cons b rest =>
    obtain ⟨a, rfl⟩ : ∃ a, head = some a := by
      cases head with
      | none => exact hl.elim
      | some a => exact ⟨a, rfl⟩
    obtain rfl : a = b := hl.1
    cases hcr : isCrCsr vmeas with
    | true =>
      refine ⟨⟨setNext (cells ++ [⟨vmeas, none⟩]) cells.length (some a), some cells.length⟩, ?_, ?_, ?_⟩
      · simp [addVmeAddrSpace, deref, hcr]
      · exact ⟨rfl, _, getElem?_setNext_self _ hnew, linked_setNext _ hl' hfresh⟩
      · rw [fields_setNext, hfields]
    | false =>
      cases rest with
      | nil =>
        have hlast := lastSpace_single (cells ++ [(⟨vmeas, none⟩ : SpaceCell)]).length hl'
        refine ⟨⟨setNext (cells ++ [⟨vmeas, none⟩]) a (some cells.length), some a⟩, ?_, ?_, ?_⟩
        · simp only [addVmeAddrSpace, deref, if_true, hnew, hlast, hcr, Option.bind_eq_bind, Option.bind_some]
          rfl
        · obtain ⟨-, c, hc, -⟩ := hl'
          have hne : a ≠ cells.length := fun heq => hfresh (heq ▸ List.mem_cons_self ..)
          refine ⟨rfl, _, getElem?_setNext_self _ hc, rfl, ⟨vmeas, none⟩, ?_, trivial⟩
          rw [setNext, List.getElem?_modify_ne _ _ hne, hnew]
        · rw [fields_setNext, hfields]
      | cons b rest =>
        have hlast := lastSpace_longer ((cells ++ [(⟨vmeas, none⟩ : SpaceCell)]).length + 1) hl'
        simp only [insertSpace, addVmeAddrSpace, deref, if_true, hnew, hlast, hcr, Option.bind_eq_bind,
          Option.bind_some]
        simp

/-! ## The list after a document -/

/-- The CR/CSR spaces, the last one first, and then the others. -/
def expectedSpaces (vmeass : List InsLibVmeAddressSpace) : List ℕ :=
  ((List.range vmeass.length).filter fun b => (vmeass[b]?).any isCrCsr).reverse ++
    (List.range vmeass.length).filter fun b => !(vmeass[b]?).any isCrCsr

/-- Every space from the third on is CR/CSR. -/
def ThirdOnCrCsr (vmeass : List InsLibVmeAddressSpace) : Prop :=
  ∀ i, 2 ≤ i → ∀ vmeas, vmeass[i]? = some vmeas → isCrCsr vmeas = true

section Expected
variable (vmeass : List InsLibVmeAddressSpace) (vmeas : InsLibVmeAddressSpace)

theorem filter_range_append (f : Bool → Bool) :
    (List.range (vmeass ++ [vmeas]).length).filter (fun b => f (((vmeass ++ [vmeas])[b]?).any isCrCsr)) =
      (List.range vmeass.length).filter (fun b => f ((vmeass[b]?).any isCrCsr)) ++
        if f (isCrCsr vmeas) then [vmeass.length] else [] := by
  rw [List.length_append, List.length_singleton, List.range_succ, List.filter_append]
  congr 1
  · refine List.filter_congr fun b hb => ?_
    rw [List.getElem?_append_left (List.mem_range.mp hb)]
  · rw [List.filter_singleton]
    simp

theorem expectedSpaces_append : expectedSpaces (vmeass ++ [vmeas]) =
    if isCrCsr vmeas then vmeass.length :: expectedSpaces vmeass else expectedSpaces vmeass ++ [vmeass.length] := by
  have hcr := filter_range_append vmeass vmeas id
  have hother := filter_range_append vmeass vmeas not
  simp only [id_eq] at hcr
  unfold expectedSpaces
  rw [hcr, hother]
  cases isCrCsr vmeas <;> simp

theorem expectedSpaces_perm : (expectedSpaces vmeass).Perm (List.range vmeass.length) :=
  ((List.reverse_perm _).append_right _).trans (List.filter_append_perm _ _)

theorem length_expectedSpaces : (expectedSpaces vmeass).length = vmeass.length := by
  rw [(expectedSpaces_perm vmeass).length_eq, List.length_range]

theorem insertSpace_expected : insertSpace (isCrCsr vmeas) (expectedSpaces vmeass) vmeass.length =
    if vmeass.length < 2 ∨ isCrCsr vmeas then some (expectedSpaces (vmeass ++ [vmeas])) else none := by
  have hlen := length_expectedSpaces vmeass
  rw [expectedSpaces_append, insertSpace, hlen]
  by_cases hnil : expectedSpaces vmeass = []
  · have hzero : vmeass.length = 0 := by rw [← hlen, hnil, List.length_nil]
    simp [hnil, hzero]
  · have hpos : 0 < vmeass.length := by rw [← hlen]; exact List.length_pos_iff.mpr hnil
    cases hcr : isCrCsr vmeas with
    | true => simp [hnil]
    | false =>
      by_cases hone : vmeass.length = 1
      · simp [hnil, hone]
      · have htwo : ¬ vmeass.length < 2 := by omega
        simp [hnil, hone, htwo]

theorem thirdOnCrCsr_append : ThirdOnCrCsr (vmeass ++ [vmeas]) ↔
    ThirdOnCrCsr vmeass ∧ (vmeass.length < 2 ∨ isCrCsr vmeas = true) := by
  constructor
  · intro h
    refine ⟨fun i hi v hv => h i hi v ?_, ?_⟩
    · rw [List.getElem?_append_left (List.getElem?_eq_some_iff.mp hv).1, hv]
    · by_cases hlt : vmeass.length < 2
      · exact .inl hlt
      · exact .inr (h vmeass.length (by omega) vmeas (by simp))
  · rintro ⟨h, hlast⟩ i hi v hv
    obtain hlt | hge := Nat.lt_or_ge i vmeass.length
    · exact h i hi v (by rwa [List.getElem?_append_left hlt] at hv)
    · have hilt := (List.getElem?_eq_some_iff.mp hv).1
      rw [List.length_append, List.length_singleton] at hilt
      obtain rfl : i = vmeass.length := by omega
      obtain rfl : vmeas = v := by simpa using hv
      exact hlast.resolve_left (by omega)

end Expected

section Document
variable {elements : List (List XmlAttr)} {vmeass : List InsLibVmeAddressSpace}

/-- The spaces of the document in memory, as expected. -/
def Built (m : SpaceMem) (vmeass : List InsLibVmeAddressSpace) : Prop :=
  m.cells.map SpaceCell.fields = vmeass ∧ Linked m.cells m.vmeAddressSpace (expectedSpaces vmeass)

/-- One more element, step for step. -/
theorem vmeSpaceNode_spec {m : SpaceMem} {properties : List XmlAttr} {vmeas : InsLibVmeAddressSpace}
    (hm : Built m vmeass) (hparsed : parsedSpace w properties = some vmeas) :
    if vmeass.length < 2 ∨ isCrCsr vmeas then ∃ m', vmeSpaceNode w m properties = some m' ∧ Built m' (vmeass ++ [vmeas])
    else vmeSpaceNode w m properties = none := by
  obtain ⟨hfields, hlinked⟩ := hm
  have hlen : m.cells.length = vmeass.length := by rw [← hfields, List.length_map]
  have hspec := addVmeAddrSpace_spec vmeas hlinked
  have hnode : vmeSpaceNode w m properties =
      addVmeAddrSpace { m with cells := m.cells ++ [⟨vmeas, none⟩] } m.cells.length := by
    rw [vmeSpaceNode, hparsed]
    rfl
  rw [hlen, insertSpace_expected] at hspec
  rw [hnode, hlen]
  split
  · next hok =>
    rw [if_pos hok] at hspec
    obtain ⟨m', hadd, hl, hf⟩ := hspec
    exact ⟨m', hadd, by rw [hf, hfields], hl⟩
  · next hbad =>
    rw [if_neg hbad] at hspec
    exact hspec

theorem vmeSpaceNodes_append (properties : List XmlAttr) : vmeSpaceNodes w (elements ++ [properties]) =
    (vmeSpaceNodes w elements).bind fun m => vmeSpaceNode w m properties := by
  unfold vmeSpaceNodes
  rw [List.foldlM_append]
  cases elements.foldlM (vmeSpaceNode w) { cells := [], vmeAddressSpace := none } <;> simp

/-- The whole document, by induction on its elements from the last one. -/
theorem vmeSpaceNodes_spec (elements : List (List XmlAttr)) : ∀ vmeass : List InsLibVmeAddressSpace,
    elements.map (parsedSpace w) = vmeass.map some →
      (ThirdOnCrCsr vmeass → ∃ m, vmeSpaceNodes w elements = some m ∧ Built m vmeass) ∧
        (¬ ThirdOnCrCsr vmeass → vmeSpaceNodes w elements = none) := by
  induction elements using List.reverseRecOn with
  | nil =>
    intro vmeass hparsed
    obtain rfl : vmeass = [] := by simpa using hparsed.symm
    exact ⟨fun _ => ⟨_, rfl, rfl, trivial⟩, fun h => (h fun i _ v hv => by simp at hv).elim⟩
  | append_singleton elements properties ih =>
    intro vmeass hparsed
    rw [List.map_append, List.map_singleton] at hparsed
    obtain ⟨front, last, rfl, hfront, hlast⟩ := List.map_eq_append_iff.mp hparsed.symm
    obtain ⟨vmeas, rfl, hvmeas⟩ := List.map_eq_singleton_iff.mp hlast
    have hstep := fun m (hm : Built m front) => vmeSpaceNode_spec w hm hvmeas.symm
    obtain ⟨hgood, hbad⟩ := ih front hfront.symm
    rw [thirdOnCrCsr_append, vmeSpaceNodes_append]
    by_cases hthird : ThirdOnCrCsr front
    · obtain ⟨m, hm, hbuilt⟩ := hgood hthird
      have := hstep m hbuilt
      rw [hm]
      refine ⟨fun h => ?_, fun h => ?_⟩
      · rwa [if_pos h.2] at this
      · rwa [if_neg fun h' => h ⟨hthird, h'⟩] at this
    · rw [hbad hthird]
      exact ⟨fun h => (hthird h.1).elim, fun _ => rfl⟩

/-- A run that ends has parsed every element. -/
theorem parsed_of_vmeSpaceNodes : ∀ {m : SpaceMem}, vmeSpaceNodes w elements = some m →
    ∃ vmeass : List InsLibVmeAddressSpace, elements.map (parsedSpace w) = vmeass.map some := by
  induction elements using List.reverseRecOn with
  | nil => exact fun _ => ⟨[], rfl⟩
  | append_singleton elements properties ih =>
    intro m hm
    rw [vmeSpaceNodes_append] at hm
    obtain ⟨m', hm', hnode⟩ := Option.bind_eq_some_iff.mp hm
    obtain ⟨vmeass, hparsed⟩ := ih hm'
    obtain ⟨vmeas, hvmeas, -⟩ := Option.bind_eq_some_iff.mp hnode
    exact ⟨vmeass ++ [vmeas], by rw [List.map_append, List.map_append, hparsed, List.map_singleton, hvmeas,
      List.map_singleton]⟩

end Document

/-! ## Elements that read a pointer to nowhere -/

/-- The first attribute is one whose value is read, and it has none. -/
def leadsEmpty : List XmlAttr → Bool
  | [] => false
  | a :: _ => (vmeSpaceRules w).uses (lookUp a.name) && a.children.isNone

theorem vmeSpacePut_some (k : KeyWord) (v : Text) (d : InsLibVmeAddressSpace) :
    (∃ d' e, vmeSpacePut w k (some v) d = .stored d' e) ∨ vmeSpacePut w k (some v) d = .unknown := by
  cases k <;> first | exact .inl ⟨_, _, rfl⟩ | exact .inr rfl

theorem attributes_some (l : List XmlAttr) (v : Text) (d : InsLibVmeAddressSpace) (e : ℕ) :
    ∃ d' e', attributes (handleVmeSpaceNode w) (some v) l d e = .returned (some d') e' := by
  induction l generalizing v d e with
  | nil => exact ⟨d, _, rfl⟩
  | cons a l ih =>
    obtain ⟨v', hv'⟩ : ∃ v', getNextProp a (some v) = some v' := by
      cases ha : a.children with
      | none => exact ⟨v, by simp [getNextProp, ha]⟩
      | some v' => exact ⟨v', by simp [getNextProp, ha]⟩
    have hput : (handleVmeSpaceNode w).put = vmeSpacePut w := rfl
    simp only [attributes, hv', hput]
    obtain ⟨d', e', hstored⟩ | hunknown := vmeSpacePut_some w (lookUp a.name) v' d
    · rw [hstored]
      exact ih v' d' _
    · rw [hunknown]
      exact ⟨d, _, rfl⟩

theorem parsedSpace_eq_none (properties : List XmlAttr) : parsedSpace w properties = none ↔
    leadsEmpty w properties = true := by
  have hlaw := vmeSpace_lawful w
  have hstop : ∀ d e, ∃ e', (handleVmeSpaceNode w).stop d e = .returned (some d) e' := fun d e => ⟨_, rfl⟩
  obtain ⟨e, he⟩ := hstop (handleVmeSpaceNode w).init 0
  cases properties with
  | nil => simp [parsedSpace, Handler.parse, attributes, handleVmeSpaceNode, vmeSpaceFinish, leadsEmpty]
  | cons a l =>
    have hput : (handleVmeSpaceNode w).put = vmeSpacePut w := rfl
    rw [parsedSpace, Handler.parse, attributes, leadsEmpty, hput]
    cases ha : a.children with
    | some v =>
      have hv : getNextProp a none = some v := by simp [getNextProp, ha]
      rw [hv]
      obtain ⟨d', e', hstored⟩ | hunknown := vmeSpacePut_some w (lookUp a.name) v (handleVmeSpaceNode w).init
      · obtain ⟨d'', e'', hrest⟩ := attributes_some w l v d' (0 + e')
        simp only [hstored, hrest]
        simp
      · simp only [hunknown, he]
        simp
    | none =>
      have hv : getNextProp a none = none := by simp [getNextProp, ha]
      rw [hv]
      cases huses : (vmeSpaceRules w).uses (lookUp a.name) with
      | true =>
        have hnowhere := hlaw.put_nowhere _ (handleVmeSpaceNode w).init huses
        rw [hput] at hnowhere
        simp [hnowhere]
      | false =>
        have hunknown := hlaw.put_unknown (lookUp a.name) none (handleVmeSpaceNode w).init huses
        rw [hput] at hunknown
        simp only [hunknown, he]
        simp

/-! ## The condition is exact -/

/-- No element reads a pointer to nowhere, and every space from the third on is CR/CSR. -/
def SpacesCondition (elements : List (List XmlAttr)) : Prop :=
  (∀ properties ∈ elements, leadsEmpty w properties = false) ∧
    ∀ i, 2 ≤ i → ∀ properties, elements[i]? = some properties → (parsedSpace w properties).any isCrCsr = true

theorem exists_parsed {elements : List (List XmlAttr)} (h : ∀ properties ∈ elements, leadsEmpty w properties = false) :
    ∃ vmeass : List InsLibVmeAddressSpace, elements.map (parsedSpace w) = vmeass.map some := by
  induction elements with
  | nil => exact ⟨[], rfl⟩
  | cons properties elements ih =>
    obtain ⟨vmeass, hrest⟩ := ih fun q hq => h q (List.mem_cons_of_mem _ hq)
    cases hp : parsedSpace w properties with
    | none =>
      have := h properties (List.mem_cons_self ..)
      rw [(parsedSpace_eq_none w properties).mp hp] at this
      cases this
    | some vmeas => exact ⟨vmeas :: vmeass, by rw [List.map_cons, List.map_cons, hp, hrest]⟩

theorem spacesCondition_iff {elements : List (List XmlAttr)} {vmeass : List InsLibVmeAddressSpace}
    (hparsed : elements.map (parsedSpace w) = vmeass.map some) : SpacesCondition w elements ↔ ThirdOnCrCsr vmeass := by
  have hget : ∀ i : ℕ, (elements[i]?).map (parsedSpace w) = (vmeass[i]?).map some := by
    intro i
    rw [← List.getElem?_map, ← List.getElem?_map, hparsed]
  constructor
  · rintro ⟨-, hthird⟩ i hi vmeas hv
    have h := hget i
    rw [hv] at h
    obtain ⟨properties, hp, hspace⟩ := Option.map_eq_some_iff.mp h
    have := hthird i hi properties hp
    rwa [hspace] at this
  · intro hthird
    refine ⟨fun properties hmem => ?_, fun i hi properties hp => ?_⟩
    · obtain ⟨i, hp⟩ := List.mem_iff_getElem?.mp hmem
      have h := hget i
      rw [hp] at h
      obtain ⟨vmeas, -, hv⟩ := Option.map_eq_some_iff.mp h.symm
      by_contra hlead
      rw [Bool.not_eq_false, ← parsedSpace_eq_none] at hlead
      rw [hlead] at hv
      cases hv
    · have h := hget i
      rw [hp] at h
      obtain ⟨vmeas, hvm, hv⟩ := Option.map_eq_some_iff.mp h.symm
      rw [← hv]
      exact hthird i hi vmeas hvm

theorem spacesInOrder_of_built {elements : List (List XmlAttr)} {vmeass : List InsLibVmeAddressSpace} {m : SpaceMem}
    (hparsed : elements.map (parsedSpace w) = vmeass.map some) (hm : vmeSpaceNodes w elements = some m)
    (hbuilt : Built m vmeass) : SpacesInOrder w elements := by
  have hlen : elements.length = vmeass.length := by simpa using congrArg List.length hparsed
  have hperm : (expectedSpaces vmeass).Perm (List.range elements.length) := hlen ▸ expectedSpaces_perm vmeass
  have hsplit : expectedSpaces vmeass = ((List.range vmeass.length).filter fun b => (vmeass[b]?).any isCrCsr).reverse ++
      (List.range elements.length).filter fun b => !(vmeass[b]?).any isCrCsr := by
    rw [hlen]
    rfl
  refine ⟨m, expectedSpaces vmeass, vmeass, hm, hparsed, hbuilt.1, hbuilt.2, hperm, _, fun b hb => ?_, hsplit⟩
  rw [List.mem_reverse, List.mem_filter] at hb
  exact hb.2

/-- The address spaces of a module are in order exactly under the condition. -/
theorem spacesInOrder_iff (elements : List (List XmlAttr)) : SpacesInOrder w elements ↔ SpacesCondition w elements := by
  constructor
  · rintro ⟨m, l, vmeass, hm, hparsed, -⟩
    rw [spacesCondition_iff w hparsed]
    by_contra hthird
    rw [(vmeSpaceNodes_spec w elements vmeass hparsed).2 hthird] at hm
    cases hm
  · intro hcond
    obtain ⟨vmeass, hparsed⟩ := exists_parsed w hcond.1
    obtain ⟨m, hm, hbuilt⟩ := (vmeSpaceNodes_spec w elements vmeass hparsed).1
      ((spacesCondition_iff w hparsed).mp hcond)
    exact spacesInOrder_of_built w hparsed hm hbuilt

/-- Three A32 spaces. -/
def threeSpaces : List (List XmlAttr) :=
  [[⟨"modifier", some "0x09".toList⟩], [⟨"modifier", some "0x0D".toList⟩], [⟨"modifier", some "0x0B".toList⟩]]

/-- The third one is looked for behind the first. -/
theorem not_spacesInOrder_three : ¬ SpacesInOrder 32 threeSpaces := by
  rintro ⟨m, l, vmeass, hm, -⟩
  have hnone : vmeSpaceNodes 32 threeSpaces = none := by decide
  rw [hnone] at hm
  cases hm

end HtDrivers.InsLib
