import HtDrivers.Lib.Ledger
import HtDrivers.Lib.Transition

/-! # PCI services of the common driver layer (`cdcmPci.c`)

Interrupt handlers and mappings. A device has one handle at a time, and the handle stands for the device. The layer
keeps one table of handlers, which only grows, and one address for each BAR number.
-/
namespace HtDrivers.Cdcm
open Lib.Transition Lib.Ledger
set_option autoImplicit false

def cdcmMaxPciIsrs : ℕ := 4
def pciResidBar0 : ℤ := 10

/-- The devices in the order in which `pci_get_device` finds them. -/
structure PciBus (D : Type) where
  devices : List D
  vendorId : D → ℕ
  deviceId : D → ℕ
  irq : D → ℕ

structure CdcmPciIsr (C : Type) where
  irq : ℕ
  cookie : C

/-- A call of `pci_iounmap`, with the address that it was given and the one that the mapping had returned. -/
structure Iounmap (D A : Type) where
  dev : D
  bar : ℕ
  addr : A
  returned : Option A

/-- The statics of the layer, and what has happened so far: `irqLog` are the calls of `request_irq` and `free_irq`, each
with the device whose handle was used; `registrations` are the handlers that were ever registered, `registered` those
whose device was not unregistered since, and `dropped` the devices that were unregistered with a handler registered
before; `mapped` are the addresses of the mappings that exist, `holder` is the device that mapped a BAR number last, if
nobody unmapped that number since, and `refused` counts the handlers at each registration without room. -/
structure PciLayer (D C A : Type) where
  devList : List D
  isrs : List (CdcmPciIsr C)
  barMappings : ℕ → A
  irqLog : List (Entry (D × ℕ × C))
  registrations : List (D × ℕ × C)
  registered : List (D × ℕ × C)
  dropped : List D
  mapped : D → ℕ → Option A
  holder : ℕ → Option D
  iounmaps : List (Iounmap D A)
  refused : List ℕ

/-- The calls; the last argument of some says what the kernel answers. -/
inductive PciStep (D C A : Type)
  | getHandle (vendorId deviceId : ℕ) (enabled : Bool)
  | freeHandle (dev : D)
  | registerIsr (dev : D) (cookie : C) (granted : Bool)
  | unregisterIsr (dev : D)
  | mapResource (dev : D) (resourceId : ℤ) (granted : Option A)
  | unmapResource (dev : D) (resourceId : ℤ)

section Operations
variable {D C A : Type} [DecidableEq D] (bus : PciBus D) (null : A) (s : PciLayer D C A)

/-- `drm_get_handle`; a device that cannot be enabled stays unknown. -/
def drmGetHandle (vendorId deviceId : ℕ) (enabled : Bool) : PciLayer D C A :=
  match bus.devices.find? fun dev => bus.vendorId dev = vendorId ∧ bus.deviceId dev = deviceId ∧ dev ∉ s.devList with
  | some dev => if enabled then { s with devList := s.devList ++ [dev] } else s
  | none => s

def drmRegisterIsr (dev : D) (cookie : C) (granted : Bool) : PciLayer D C A :=
  if cdcmMaxPciIsrs ≤ s.isrs.length then { s with refused := s.refused ++ [s.registered.length] }
  else if granted then
    { s with
      irqLog := s.irqLog ++ [.acquire (dev, bus.irq dev, cookie)]
      isrs := s.isrs ++ [⟨bus.irq dev, cookie⟩]
      registrations := s.registrations ++ [(dev, bus.irq dev, cookie)]
      registered := s.registered ++ [(dev, bus.irq dev, cookie)] }
  else s

/-- The handlers that `drm_unregister_isr` gives to `free_irq`. -/
def lineIsrs (dev : D) : List (D × ℕ × C) :=
  (s.isrs.filter fun isr => isr.irq = bus.irq dev).map fun isr => (dev, isr.irq, isr.cookie)

def drmUnregisterIsr (dev : D) : PciLayer D C A :=
  { s with
    irqLog := s.irqLog ++ (lineIsrs bus s dev).map .release
    registered := s.registered.filter fun r => r.1 ≠ dev
    dropped := if dev ∈ s.registrations.map Prod.fst then s.dropped ++ [dev] else s.dropped }

/-- The number of a BAR, if there is one. -/
def barOf (resourceId : ℤ) : Option ℕ :=
  let bar := resourceId - pciResidBar0
  if bar < 0 ∨ 5 < bar then none else some bar.toNat

def setMapped (dev : D) (bar : ℕ) (addr : Option A) : D → ℕ → Option A :=
  Function.update s.mapped dev (Function.update (s.mapped dev) bar addr)

/-- `pci_request_region` refuses a region that is in use. -/
def drmMapResource (dev : D) (resourceId : ℤ) (granted : Option A) : PciLayer D C A :=
  match barOf resourceId, granted with
  | some bar, some addr =>
    if (s.mapped dev bar).isSome then s
    else
      { s with
        barMappings := Function.update s.barMappings bar addr
        mapped := setMapped s dev bar (some addr)
        holder := Function.update s.holder bar (some dev) }
  | _, _ => s

def drmUnmapResource (dev : D) (resourceId : ℤ) : PciLayer D C A :=
  match barOf resourceId with
  | some bar =>
    { s with
      iounmaps := s.iounmaps ++ [⟨dev, bar, s.barMappings bar, s.mapped dev bar⟩]
      barMappings := Function.update s.barMappings bar null
      mapped := setMapped s dev bar none
      holder := Function.update s.holder bar none }
  | none => s

def pciNext : PciStep D C A → Option (PciLayer D C A)
  | .getHandle vendorId deviceId enabled => some (drmGetHandle bus s vendorId deviceId enabled)
  | .freeHandle dev => if dev ∈ s.devList then some { s with devList := s.devList.erase dev } else none
  | .registerIsr dev cookie granted => if dev ∈ s.devList then some (drmRegisterIsr bus s dev cookie granted) else none
  | .unregisterIsr dev => if dev ∈ s.devList then some (drmUnregisterIsr bus s dev) else none
  | .mapResource dev resourceId granted =>
    if dev ∈ s.devList then some (drmMapResource s dev resourceId granted) else none
  | .unmapResource dev resourceId => if dev ∈ s.devList then some (drmUnmapResource null s dev resourceId) else none

end Operations

def pciInit {D C A : Type} (null : A) : PciLayer D C A :=
  ⟨[], [], fun _ => null, [], [], [], [], fun _ _ => none, fun _ => none, [], []⟩

/-! ## Resources of a device -/

section Resources
variable {D C A : Type} [DecidableEq D] [DecidableEq C] (bus : PciBus D) (null : A)

/-- What the kernel has is what was registered, each handler was freed once and through the handle it was registered
with; there was no room only with a full table; and mappings are undone with their own addresses. -/
structure PerDevice (s : PciLayer D C A) : Prop where
  isrs : Holds s.irqLog (s.registered : Multiset (D × ℕ × C))
  room : ∀ n ∈ s.refused, cdcmMaxPciIsrs ≤ n
  iounmaps : ∀ u ∈ s.iounmaps, u.returned = some u.addr

/-- What is asked of a call, given the calls before it. A registration is one of the first four, or comes while no
device with a handler was unregistered yet. A device that is unregistered is the only one that ever registered a handler
on its line, and was not unregistered after a registration before. A BAR is unmapped by the device that mapped that BAR
number last, and once. -/
def Exclusive (s : PciLayer D C A) : PciStep D C A → Prop
  | .getHandle _ _ _ | .freeHandle _ | .mapResource _ _ _ => True
  | .registerIsr _ _ _ => s.registrations.length < cdcmMaxPciIsrs ∨ s.dropped = []
  | .unregisterIsr dev => (∀ r ∈ s.registrations, bus.irq r.1 = bus.irq dev → r.1 = dev) ∧ dev ∉ s.dropped
  | .unmapResource dev resourceId => ∀ bar ∈ barOf resourceId, s.holder bar = some dev

/-! ### The table of handlers -/

def ofDevice (dev : D) (l : List (D × ℕ × C)) : List (D × ℕ × C) := l.filter fun r => r.1 = dev

/-- The table has every handler that was ever registered, and a device has lost handlers if it was unregistered. -/
structure TableSound (s : PciLayer D C A) : Prop where
  isrs : s.isrs = s.registrations.map fun r => ⟨r.2.1, r.2.2⟩
  line : ∀ r ∈ s.registrations, r.2.1 = bus.irq r.1
  sub : s.registered.Sublist s.registrations
  room : s.registrations.length ≤ cdcmMaxPciIsrs
  dropped : ∀ dev, dev ∈ s.dropped ↔ (ofDevice dev s.registered).length < (ofDevice dev s.registrations).length

variable {bus null} {s s' : PciLayer D C A} {dev other : D} {cookie : C} {bar b : ℕ} {addr : Option A}
  {act : PciStep D C A}

omit [DecidableEq C] in
theorem lineIsrs_eq (h : TableSound bus s) (dev : D) :
    lineIsrs bus s dev =
      (s.registrations.filter fun r => bus.irq r.1 = bus.irq dev).map fun r => (dev, bus.irq dev, r.2.2) := by
  unfold lineIsrs
  rw [h.isrs, List.filter_map, List.map_map]
  have hfilter : (s.registrations.filter ((fun isr : CdcmPciIsr C => decide (isr.irq = bus.irq dev)) ∘
      fun r => ⟨r.2.1, r.2.2⟩)) = s.registrations.filter fun r => bus.irq r.1 = bus.irq dev := by
    apply List.filter_congr
    intro r hr
    simp only [Function.comp_apply, h.line r hr]
  rw [hfilter]
  apply List.map_congr_left
  intro r hr
  obtain ⟨hmem, hirq⟩ := List.mem_filter.mp hr
  simp only [Function.comp_apply, h.line r hmem, of_decide_eq_true hirq]

omit [DecidableEq C] in
theorem TableSound.ofDevice_eq (h : TableSound bus s) (hdev : dev ∉ s.dropped) :
    ofDevice dev s.registered = ofDevice dev s.registrations := by
  rw [h.dropped, not_lt] at hdev
  exact (h.sub.filter _).eq_of_length_le hdev

theorem TableSound.registered_eq (h : TableSound bus s) (hnone : s.dropped = []) : s.registered = s.registrations := by
  have hperm : s.registered.Perm s.registrations := by
    rw [List.perm_iff_count]
    intro r
    have hcount : ∀ l : List (D × ℕ × C), l.count r = (ofDevice r.1 l).count r :=
      fun l => (List.count_filter (by simp)).symm
    rw [hcount, hcount s.registrations, h.ofDevice_eq (by simp [hnone])]
  exact h.sub.eq_of_length hperm.length_eq

omit [DecidableEq C] in
theorem TableSound.lineIsrs_of_exclusive (h : TableSound bus s)
    (hok : Exclusive bus s (.unregisterIsr dev : PciStep D C A)) : lineIsrs bus s dev = ofDevice dev s.registered := by
  obtain ⟨halone, hdev⟩ := hok
  have hfilter : (s.registrations.filter fun r => bus.irq r.1 = bus.irq dev) = ofDevice dev s.registrations := by
    apply List.filter_congr
    intro r hr
    rw [decide_eq_decide]
    refine ⟨halone r hr, fun hrd => ?_⟩
    rw [hrd]
  rw [lineIsrs_eq h, hfilter, h.ofDevice_eq hdev]
  conv_rhs => rw [← List.map_id (ofDevice dev s.registrations)]
  apply List.map_congr_left
  intro r hr
  obtain ⟨hmem, hrd⟩ := List.mem_filter.mp hr
  obtain rfl := of_decide_eq_true hrd
  rw [← h.line r hmem]
  rfl

omit [DecidableEq C] in
/-- As many handlers on the line as the device has registered: all are its own, and it has lost none. -/
theorem TableSound.exclusive_of_length (h : TableSound bus s)
    (hlength : (lineIsrs bus s dev).length = (ofDevice dev s.registered).length) :
    Exclusive bus s (.unregisterIsr dev : PciStep D C A) := by
  rw [lineIsrs_eq h, List.length_map] at hlength
  have hsub : (ofDevice dev s.registrations).Sublist (s.registrations.filter fun r => bus.irq r.1 = bus.irq dev) := by
    apply List.monotone_filter_right
    intro r hr
    rw [of_decide_eq_true hr, decide_eq_true_eq]
  have hlost : (ofDevice dev s.registered).length ≤ (ofDevice dev s.registrations).length :=
    (h.sub.filter _).length_le
  have heq := hsub.eq_of_length_le (hlength.le.trans hlost)
  refine ⟨fun r hr hirq => ?_, ?_⟩
  · have hmem : r ∈ ofDevice dev s.registrations := by
      rw [heq]
      exact List.mem_filter.mpr ⟨hr, decide_eq_true hirq⟩
    exact of_decide_eq_true (List.mem_filter.mp hmem).2
  · rw [h.dropped, not_lt, heq]
    exact hlength.le

omit [DecidableEq C] in
theorem TableSound.registerIsr (h : TableSound bus s) (granted : Bool) :
    TableSound bus (drmRegisterIsr bus s dev cookie granted) := by
  unfold drmRegisterIsr
  split
  · exact ⟨h.isrs, h.line, h.sub, h.room, h.dropped⟩
  · rename_i hroom
    split
    · refine ⟨?_, fun r hr => ?_, h.sub.append (.refl _), ?_, fun d => ?_⟩
      · simp [h.isrs]
      · obtain hr | hr := List.mem_append.mp hr
        · exact h.line r hr
        · rw [List.mem_singleton.mp hr]
      · rw [h.isrs, List.length_map, not_le] at hroom
        rw [List.length_append]
        exact hroom
      · simp only [ofDevice, List.filter_append, List.length_append]
        rw [Nat.add_lt_add_iff_right]
        exact h.dropped d
    · exact h

omit [DecidableEq C] in
theorem TableSound.unregisterIsr (h : TableSound bus s) : TableSound bus (drmUnregisterIsr bus s dev) := by
  refine ⟨h.isrs, h.line, List.filter_sublist.trans h.sub, h.room, fun d => ?_⟩
  show d ∈ (if dev ∈ s.registrations.map Prod.fst then s.dropped ++ [dev] else s.dropped) ↔
    (ofDevice d (s.registered.filter fun r => r.1 ≠ dev)).length < (ofDevice d s.registrations).length
  by_cases hd : d = dev
  · subst hd
    have hnone : ofDevice d (s.registered.filter fun r => r.1 ≠ d) = [] := by
      simp [ofDevice, List.filter_filter]
    have hsome : 0 < (ofDevice d s.registrations).length ↔ d ∈ s.registrations.map Prod.fst := by
      rw [List.length_pos_iff_exists_mem]
      simp [ofDevice]
    rw [hnone, List.length_nil, hsome]
    split
    · rename_i hmem
      simp [hmem]
    · rename_i hmem
      simp only [hmem, iff_false]
      intro hdropped
      exact hmem (hsome.mp (Nat.zero_lt_of_lt ((h.dropped d).mp hdropped)))
  · have hsame : ofDevice d (s.registered.filter fun r => r.1 ≠ dev) = ofDevice d s.registered := by
      unfold ofDevice
      rw [List.filter_filter]
      apply List.filter_congr
      intro r hr
      by_cases hrd : r.1 = d
      · simp [hrd, hd]
      · simp [hrd]
    rw [hsame, ← h.dropped d]
    split
    · simp [hd]
    · rfl

/-! ### One call -/

/-- With the table, and the address of the mapping that was made last. -/
structure LayerSound (bus : PciBus D) (s : PciLayer D C A) : Prop extends PerDevice s where
  table : TableSound bus s
  kept : ∀ bar dev, s.holder bar = some dev → s.mapped dev bar = some (s.barMappings bar)

omit [DecidableEq C] in
theorem setMapped_apply :
    setMapped s dev bar addr other b = if other = dev ∧ b = bar then addr else s.mapped other b := by
  unfold setMapped
  by_cases hdev : other = dev
  · subst hdev
    rw [Function.update_self]
    by_cases hb : b = bar
    · subst hb
      rw [Function.update_self, if_pos ⟨rfl, rfl⟩]
    · rw [Function.update_of_ne hb, if_neg fun h => hb h.2]
  · rw [Function.update_of_ne hdev, if_neg fun h => hdev h.1]

theorem LayerSound.registerIsr (h : LayerSound bus s)
    (hok : s.registrations.length < cdcmMaxPciIsrs ∨ s.dropped = []) (granted : Bool) :
    LayerSound bus (drmRegisterIsr bus s dev cookie granted) := by
  have htable : TableSound bus (drmRegisterIsr bus s dev cookie granted) := h.table.registerIsr granted
  revert htable
  unfold drmRegisterIsr
  split
  · rename_i hfull
    intro htable
    refine ⟨⟨h.isrs, fun n hn => ?_, h.iounmaps⟩, htable, h.kept⟩
    obtain hn | hn := List.mem_append.mp hn
    · exact h.room n hn
    · rw [h.table.isrs, List.length_map] at hfull
      rw [List.mem_singleton.mp hn, h.table.registered_eq (hok.resolve_left (not_lt.mpr hfull))]
      exact hfull
  · split
    · intro htable
      refine ⟨⟨?_, h.room, h.iounmaps⟩, htable, h.kept⟩
      have hacquired : Holds (s.irqLog ++ [.acquire (dev, bus.irq dev, cookie)])
          ((dev, bus.irq dev, cookie) ::ₘ (s.registered : Multiset (D × ℕ × C))) := h.isrs.acquire
      dsimp only
      rw [Multiset.coe_eq_coe.mpr (List.perm_append_singleton _ _)]
      exact hacquired
    · intro htable
      exact h

omit [DecidableEq C] in
/-- The handlers of a device and the others. -/
theorem registered_split (dev : D) (l : List (D × ℕ × C)) :
    (l : Multiset (D × ℕ × C)) =
      ((l.filter fun r => r.1 ≠ dev : List (D × ℕ × C)) : Multiset (D × ℕ × C)) +
      (ofDevice dev l : List (D × ℕ × C)) := by
  rw [Multiset.coe_add]
  refine Multiset.coe_eq_coe.mpr ?_
  have hperm : (ofDevice dev l ++ l.filter (fun r => !decide (r.1 = dev))).Perm l := List.filter_append_perm _ _
  refine hperm.symm.trans (List.perm_append_comm.trans ?_)
  simp

theorem LayerSound.unregisterIsr (h : LayerSound bus s)
    (hok : Exclusive bus s (.unregisterIsr dev : PciStep D C A)) : LayerSound bus (drmUnregisterIsr bus s dev) := by
  refine ⟨⟨?_, h.room, h.iounmaps⟩, h.table.unregisterIsr, h.kept⟩
  have hisrs := h.isrs
  rw [registered_split dev, ← h.table.lineIsrs_of_exclusive hok] at hisrs
  exact hisrs.releases

theorem LayerSound.mapResource (h : LayerSound bus s) (resourceId : ℤ) (granted : Option A) :
    LayerSound bus (drmMapResource s dev resourceId granted) := by
  unfold drmMapResource
  split
  · rename_i bar addr hbar
    split
    · exact h
    · refine ⟨⟨h.isrs, h.room, h.iounmaps⟩, { h.table with }, fun b d hd => ?_⟩
      dsimp only at hd ⊢
      rw [setMapped_apply]
      by_cases hb : b = bar
      · subst hb
        rw [Function.update_self] at hd ⊢
        rw [if_pos ⟨(Option.some.inj hd).symm, rfl⟩]
      · rw [Function.update_of_ne hb] at hd ⊢
        rw [if_neg fun heq => hb heq.2]
        exact h.kept b d hd
  · exact h

theorem LayerSound.unmapResource (h : LayerSound bus s) {resourceId : ℤ}
    (hok : ∀ bar ∈ barOf resourceId, s.holder bar = some dev) :
    LayerSound bus (drmUnmapResource null s dev resourceId) := by
  unfold drmUnmapResource
  split
  · rename_i bar hbar
    have hkept := h.kept bar dev (hok bar hbar)
    refine ⟨⟨h.isrs, h.room, fun u hu => ?_⟩, { h.table with },
      fun b d hd => ?_⟩
    · obtain hu | hu := List.mem_append.mp hu
      · exact h.iounmaps u hu
      · rw [List.mem_singleton.mp hu]
        exact hkept
    · dsimp only at hd ⊢
      rw [setMapped_apply]
      by_cases hb : b = bar
      · subst hb
        rw [Function.update_self] at hd
        cases hd
      · rw [Function.update_of_ne hb] at hd ⊢
        rw [if_neg fun heq => hb heq.2]
        exact h.kept b d hd
  · exact h

theorem LayerSound.step (h : LayerSound bus s) (hok : Exclusive bus s act) (hnext : pciNext bus null s act = some s') :
    LayerSound bus s' := by
  cases act with
  | getHandle vendorId deviceId enabled =>
    rw [← Option.some.inj hnext]
    unfold drmGetHandle
    split
    · split
      · exact ⟨⟨h.isrs, h.room, h.iounmaps⟩, { h.table with }, h.kept⟩
      · exact h
    · exact h
  | freeHandle dev =>
    obtain ⟨-, hnext⟩ := Option.ite_none_right_eq_some.mp hnext
    rw [← Option.some.inj hnext]
    exact ⟨⟨h.isrs, h.room, h.iounmaps⟩, { h.table with }, h.kept⟩
  | registerIsr dev cookie granted =>
    obtain ⟨-, hnext⟩ := Option.ite_none_right_eq_some.mp hnext
    rw [← Option.some.inj hnext]
    exact h.registerIsr hok granted
  | unregisterIsr dev =>
    obtain ⟨-, hnext⟩ := Option.ite_none_right_eq_some.mp hnext
    rw [← Option.some.inj hnext]
    exact h.unregisterIsr hok
  | mapResource dev resourceId granted =>
    obtain ⟨-, hnext⟩ := Option.ite_none_right_eq_some.mp hnext
    rw [← Option.some.inj hnext]
    exact h.mapResource resourceId granted
  | unmapResource dev resourceId =>
    obtain ⟨-, hnext⟩ := Option.ite_none_right_eq_some.mp hnext
    rw [← Option.some.inj hnext]
    exact h.unmapResource hok

theorem layerSound_init : LayerSound bus (pciInit null : PciLayer D C A) where
  isrs := Holds.nil
  room n hn := by cases hn
  iounmaps u hu := by cases hu
  table := ⟨rfl, fun r hr => (List.not_mem_nil hr).elim, List.Sublist.refl _, Nat.zero_le _, fun dev => by
    simp [pciInit, ofDevice]⟩
  kept bar dev h := by cases h

/-! ### Calls that do not meet the condition -/

theorem LayerSound.exclusive_registerIsr (h : LayerSound bus s) {granted : Bool}
    (hafter : PerDevice (drmRegisterIsr bus s dev cookie granted)) :
    s.registrations.length < cdcmMaxPciIsrs ∨ s.dropped = [] := by
  by_cases hroom : s.registrations.length < cdcmMaxPciIsrs
  · exact .inl hroom
  · right
    have hfull : cdcmMaxPciIsrs ≤ s.isrs.length := by
      rw [h.table.isrs, List.length_map]
      exact not_lt.mp hroom
    unfold drmRegisterIsr at hafter
    rw [if_pos hfull] at hafter
    have hregistered : cdcmMaxPciIsrs ≤ s.registered.length :=
      hafter.room _ (List.mem_append_right _ (List.mem_singleton_self _))
    have heq : s.registered = s.registrations := h.table.sub.eq_of_length_le (h.table.room.trans hregistered)
    apply List.eq_nil_iff_forall_not_mem.mpr
    intro d hd
    have hlost := (h.table.dropped d).mp hd
    rw [heq] at hlost
    exact lt_irrefl _ hlost

theorem LayerSound.exclusive_unregisterIsr (h : LayerSound bus s) (hafter : PerDevice (drmUnregisterIsr bus s dev)) :
    Exclusive bus s (.unregisterIsr dev : PciStep D C A) := by
  apply h.table.exclusive_of_length
  have hcounts : (lineIsrs bus s dev : Multiset (D × ℕ × C)) = (ofDevice dev s.registered : List (D × ℕ × C)) := by
    apply Multiset.ext.mpr
    intro r
    have hbefore := h.isrs.balance r
    rw [registered_split dev, Multiset.count_add] at hbefore
    have hbalance : held r (s.irqLog ++ (lineIsrs bus s dev).map .release) =
        ((s.registered.filter fun q => q.1 ≠ dev : List (D × ℕ × C)) : Multiset (D × ℕ × C)).count r :=
      hafter.isrs.balance r
    rw [held_append, held_releases, hbefore, ← Multiset.coe_count] at hbalance
    push_cast at hbalance
    omega
  exact (Multiset.coe_eq_coe.mp hcounts).length_eq

theorem LayerSound.exclusive (h : LayerSound bus s) (hact : ∀ dev resourceId, act ≠ .unmapResource dev resourceId)
    (hnext : pciNext bus null s act = some s') (hafter : PerDevice s') : Exclusive bus s act := by
  cases act with
  | registerIsr dev cookie granted =>
    obtain ⟨-, hnext⟩ := Option.ite_none_right_eq_some.mp hnext
    rw [← Option.some.inj hnext] at hafter
    exact h.exclusive_registerIsr hafter
  | unregisterIsr dev =>
    obtain ⟨-, hnext⟩ := Option.ite_none_right_eq_some.mp hnext
    rw [← Option.some.inj hnext] at hafter
    exact h.exclusive_unregisterIsr hafter
  | unmapResource dev resourceId => exact (hact dev resourceId rfl).elim
  | _ => trivial

/-- In every run whose calls meet the condition the resources are those of the devices, and a call that does not meet
it, other than one that unmaps, ends this. -/
theorem pci_perDevice (h : Reach (pciNext bus null) (Exclusive bus) (pciInit null : PciLayer D C A) s) :
    PerDevice s ∧ ∀ act s', (∀ dev resourceId, act ≠ .unmapResource dev resourceId) →
      pciNext bus null s act = some s' → PerDevice s' → Exclusive bus s act := by
  have hsound : LayerSound bus s :=
    h.invariant layerSound_init fun _ _ _ hbefore hok hnext => hbefore.step hok hnext
  exact ⟨hsound.toPerDevice, fun act s' hact hnext hafter => hsound.exclusive hact hnext hafter⟩

end Resources

/-! ## Two modules of one type -/

section Example

def twoModules (irq : Bool → ℕ) : PciBus Bool := ⟨[false, true], fun _ => 0x10dc, fun _ => 0x300, irq⟩

instance (bus : PciBus Bool) (s : PciLayer Bool ℕ ℕ) : ∀ act, Decidable (Exclusive bus s act)
  | .getHandle _ _ _ | .freeHandle _ | .mapResource _ _ _ => inferInstanceAs (Decidable True)
  | .registerIsr _ _ _ => inferInstanceAs (Decidable (_ ∨ _))
  | .unregisterIsr _ => inferInstanceAs (Decidable (_ ∧ _))
  | .unmapResource _ resourceId => inferInstanceAs (Decidable (∀ bar ∈ barOf resourceId, _))

/-- The modules have lines of their own and fill the table, and both map their first BAR. -/
def oneByOne : List (PciStep Bool ℕ ℕ) :=
  [.getHandle 0x10dc 0x300 true, .getHandle 0x10dc 0x300 true, .registerIsr false 1 true, .registerIsr true 2 true,
    .registerIsr false 3 true, .registerIsr true 4 true, .registerIsr false 5 true, .mapResource false 10 (some 100),
    .unmapResource false 10, .mapResource false 10 (some 100), .mapResource true 10 (some 200), .unmapResource true 10,
    .unregisterIsr false, .freeHandle false]

theorem oneByOne_perDevice : ∃ s, Reach (pciNext (twoModules fun dev => dev.toNat) 0)
    (Exclusive (twoModules fun dev => dev.toNat)) (pciInit 0) s ∧ s.registered = [(true, 1, 2), (true, 1, 4)] ∧
      s.refused = [4] ∧ PerDevice s := by
  have hrun : (replay (pciNext (twoModules fun dev => dev.toNat) 0) (Exclusive (twoModules fun dev => dev.toNat))
      (pciInit 0) oneByOne).map (fun s => (s.registered, s.refused)) = some ([(true, 1, 2), (true, 1, 4)], [4]) := by
    decide
  obtain ⟨s, hs, hval⟩ := Option.map_eq_some_iff.mp hrun
  rw [Prod.mk.injEq] at hval
  have hreach := Reach.of_replay Reach.refl hs
  exact ⟨s, hreach, hval.1, hval.2, (pci_perDevice hreach).1⟩

/-- On a shared line the first module that is unregistered takes the handler of the other with it. -/
theorem sharedLine_not_perDevice : ¬∀ (bus : PciBus Bool) (s : PciLayer Bool ℕ ℕ),
    Reach (pciNext bus 0) (fun _ _ => True) (pciInit 0) s → PerDevice s := by
  intro hall
  have hrun : (([.getHandle 0x10dc 0x300 true, .getHandle 0x10dc 0x300 true, .registerIsr false 1 true,
      .registerIsr true 2 true, .unregisterIsr false] : List (PciStep Bool ℕ ℕ)).foldlM
        (pciNext (twoModules fun _ => 5) 0) (pciInit 0)).map (fun s => (s.irqLog, s.registered)) =
      some ([.acquire (false, 5, 1), .acquire (true, 5, 2), .release (false, 5, 1), .release (false, 5, 2)],
        [(true, 5, 2)]) := by
    decide
  obtain ⟨s, hs, hval⟩ := Option.map_eq_some_iff.mp hrun
  simp only [Prod.mk.injEq] at hval
  have hsound := hall (twoModules fun _ => 5) s (Reach.of_foldlM .refl (fun _ _ _ => trivial) hs)
  have hbalance := hsound.isrs.balance (false, 5, 2)
  rw [hval.1, hval.2] at hbalance
  exact absurd hbalance (by decide)

end Example

end HtDrivers.Cdcm
