import HtDrivers.Vmod.VmodioInit

/-! Which mezzanine an interrupt of the VMOD/IO reaches. A vector goes to the handler that was registered for it, its
low nibble gives the slot, and the callback is looked up by the place of the board among the configured ones. -/
namespace HtDrivers.Vmod
set_option autoImplicit false

/-! ## Vectors and slots -/

section Vectors
variable {u slot : ℕ}

theorem vmodioIrqShift_eq (baseIrq : ℤ) (h : slot < vmodioSlots) : vmodioIrqShift baseIrq slot = baseIrq -
    (2 ^ slot - 1) := by
  unfold vmodioSlots at h
  interval_cases slot
  · exact congrArg (baseIrq - ·) (by decide)
  · exact congrArg (baseIrq - ·) (by decide)
  · exact congrArg (baseIrq - ·) (by decide)
  · exact congrArg (baseIrq - ·) (by decide)

theorem shift_low (u : ℕ) (h : slot < vmodioSlots) : vmodioIrqShift (16 * u + 14) slot = 16 * u +
    (15 - 2 ^ slot : ℕ) := by
  rw [vmodioIrqShift_eq _ h]
  unfold vmodioSlots at h
  interval_cases slot
  all_goals norm_num
  all_goals omega

theorem upperNibbleOf_low {low : ℕ} (hu : u < 16) (hlow : low < 16) : upperNibbleOf (16 * u + low) = u := by
  unfold upperNibbleOf
  omega

theorem irqToSlot_low (u : ℕ) {low : ℕ} (hlow : low < 16) :
    irqToSlot (16 * u + low) = interruptToSlot.getD low (-1) := by
  have hnibble : ((16 * u + low : ℤ) % 16).toNat = low := by omega
  unfold irqToSlot
  rw [hnibble]

theorem upperNibbleOf_base (hu : u < 16) : upperNibbleOf (16 * u + 14) = u :=
  upperNibbleOf_low hu (by norm_num : 14 < 16)

theorem upperNibbleOf_shift (hu : u < 16) (h : slot < vmodioSlots) :
    upperNibbleOf (vmodioIrqShift (16 * u + 14) slot) = u := by
  rw [shift_low u h]
  exact upperNibbleOf_low hu (Nat.lt_succ_of_le (Nat.sub_le _ _))

theorem irqToSlot_shift (u : ℕ) (h : slot < vmodioSlots) : irqToSlot (vmodioIrqShift (16 * u + 14) slot) = slot := by
  rw [shift_low u h, irqToSlot_low u (Nat.lt_succ_of_le (Nat.sub_le _ _))]
  unfold vmodioSlots at h
  interval_cases slot
  · rfl
  · rfl
  · rfl
  · rfl

end Vectors

/-! ## Calls of `register_isr` -/

section Calls
variable {C D : Type}

structure RegisterCall (C D : Type) where
  callback : Option C
  dev : Option D
  boardNumber : ℤ
  boardPosition : ℤ

def registerCall (s : VmodioDriver C D) (call : RegisterCall C D) : VmodioDriver C D :=
  (registerIsr s call.callback call.dev call.boardNumber call.boardPosition).getD s

/-- What the last call for the slot asks to be called. -/
def lastCallback (calls : List (RegisterCall C D)) (lun slot : ℤ) : Option (C × Option D) :=
  (calls.reverse.find? fun call => call.boardNumber = lun ∧ call.boardPosition = slot).bind
    fun call => call.callback.map fun callback => (callback, call.dev)

/-- The configured slots, and no others, take a callback and have an address space; the vector of each of them calls
what was last registered there. -/
structure Dispatches (lun : List ℤ) (boards : List Board) (calls : List (RegisterCall C D)) (s : VmodioDriver C D) :
    Prop where
  registers : ∀ call : RegisterCall C D,
    (registerIsr s call.callback call.dev call.boardNumber call.boardPosition).isSome ↔
      call.boardNumber ∈ lun ∧ 0 ≤ call.boardPosition ∧ call.boardPosition < vmodioSlots
  spaces : ∀ l p, (getAddressSpace s l p 1).isSome ↔ l ∈ lun ∧ 0 ≤ p ∧ p < vmodioSlots
  interrupts : ∀ b ∈ boards, ∀ slot < vmodioSlots,
    vmeInterrupt s (vmodioIrqShift b.irq slot).toNat = lastCallback calls b.lun slot

variable {s : VmodioDriver C D}

theorem withinBounds_iff {board position : ℤ} : withinBounds s board position = true ↔
    0 ≤ board ∧ board < s.devices ∧ 0 ≤ position ∧ position < vmodioSlots := by
  unfold withinBounds
  exact decide_eq_true_iff

theorem registerIsr_isSome {callback : Option C} {dev : Option D} {board position : ℤ} :
    (registerIsr s callback dev board position).isSome ↔ withinBounds s board position = true := by
  unfold registerIsr
  split
  · rename_i h
    exact iff_of_true rfl h
  · rename_i h
    exact iff_of_false (fun hfalse => by cases hfalse) h

theorem registerCall_eq (s : VmodioDriver C D) (call : RegisterCall C D) : registerCall s call =
    { s with mezzaninesCallback :=
      if withinBounds s call.boardNumber call.boardPosition then
        Function.update s.mezzaninesCallback (call.boardNumber, call.boardPosition) ⟨call.callback, call.dev⟩
      else s.mezzaninesCallback } := by
  unfold registerCall registerIsr
  split
  · rfl
  · rfl

theorem registerCalls_eq (s : VmodioDriver C D) (calls : List (RegisterCall C D)) :
    calls.foldl registerCall s = { s with mezzaninesCallback := (calls.foldl registerCall s).mezzaninesCallback } := by
  induction calls generalizing s with
  | nil => rfl
  | cons call calls ih =>
    rw [List.foldl_cons, ih (registerCall s call), registerCall_eq]

/-- A slot within the bounds keeps what was last registered for it. -/
theorem registerCalls_callback (hnone : ∀ p, s.mezzaninesCallback p = ⟨none, none⟩) (calls : List (RegisterCall C D))
    {l slot : ℤ} (hin : withinBounds s l slot = true) :
    ((calls.foldl registerCall s).mezzaninesCallback (l, slot)).callback.map
        (fun callback => (callback, ((calls.foldl registerCall s).mezzaninesCallback (l, slot)).dev)) =
      lastCallback calls l slot := by
  induction calls using List.reverseRecOn with
  | nil =>
    rw [List.foldl_nil, hnone]
    rfl
  | append_singleton calls call ih =>
    unfold lastCallback at ih ⊢
    rw [List.foldl_append, List.foldl_cons, List.foldl_nil, registerCall_eq, List.reverse_append,
      List.reverse_singleton, List.singleton_append, List.find?_cons]
    have hsame : withinBounds (calls.foldl registerCall s) call.boardNumber call.boardPosition =
        withinBounds s call.boardNumber call.boardPosition := by
      rw [registerCalls_eq]
      rfl
    dsimp only
    rw [hsame]
    by_cases hcall : call.boardNumber = l ∧ call.boardPosition = slot
    · obtain ⟨hboard, hposition⟩ := hcall
      rw [hboard, hposition, if_pos hin, Function.update_self]
      simp
    · have hne : (l, slot) ≠ (call.boardNumber, call.boardPosition) := by
        intro heq
        obtain ⟨hboard, hposition⟩ := Prod.mk.inj heq
        exact hcall ⟨hboard.symm, hposition.symm⟩
      rw [decide_eq_false hcall]
      split
      · rw [Function.update_of_ne hne]
        exact ih
      · exact ih

end Calls

/-! ## After the load -/

section Loaded
variable {C D : Type} {ans : Answers} {s : VmodioDriver C D} {lun irq : List ℤ} {baseAddress : List (BitVec 64)}

theorem init_devices (h : (init ans lun baseAddress irq s).2 = true) :
    (init ans lun baseAddress irq s).1.devices = lun.length := by
  have hlength := congrArg List.length (boardsOf_lun (init_true.mp h).1)
  rw [List.length_map] at hlength
  rw [(init_boards h).devices, hlength]
  exact Nat.zero_add _

theorem init_callbacks (h : (init ans lun baseAddress irq s).2 = true) :
    (init ans lun baseAddress irq s).1.mezzaninesCallback = s.mezzaninesCallback := by
  rw [init_done h]
  exact (initDevices_rest _).callbacks

theorem init_lunToDev (h : (init ans lun baseAddress irq s).2 = true) (l : ℤ) :
    (lunToDev (init ans lun baseAddress irq s).1 l).isSome ↔ l ∈ lun := by
  have hlun := boardsOf_lun (init_true.mp h).1
  have hplaced := (init_boards h).placed
  have hlength := congrArg List.length hlun
  rw [List.length_map] at hlength
  unfold lunToDev
  rw [List.find?_isSome, init_devices h]
  constructor
  · rintro ⟨dev, hdev, heq⟩
    obtain ⟨k, hk, rfl⟩ := List.mem_map.mp hdev
    rw [List.mem_range, ← hlength] at hk
    have hb := (hplaced k _ (List.getElem?_eq_getElem hk)).1
    rw [Nat.zero_add] at hb
    have hmem := List.mem_map_of_mem (f := Board.lun) (List.getElem_mem hk)
    rw [hlun] at hmem
    rw [← of_decide_eq_true heq, hb]
    exact hmem
  · intro hl
    rw [← hlun] at hl
    obtain ⟨b, hb, rfl⟩ := List.mem_map.mp hl
    obtain ⟨k, hk⟩ := List.mem_iff_getElem?.mp hb
    have hlt := (List.getElem?_eq_some_iff.mp hk).1
    have hdev := (hplaced k b hk).1
    rw [Nat.zero_add] at hdev
    exact ⟨_, List.mem_map_of_mem (List.mem_range.mpr (by omega)), decide_eq_true hdev⟩

theorem init_spaces (h : (init ans lun baseAddress irq s).2 = true) (l p : ℤ) :
    (getAddressSpace (init ans lun baseAddress irq s).1 l p 1).isSome ↔ l ∈ lun ∧ 0 ≤ p ∧ p < vmodioSlots := by
  rw [← init_lunToDev h l]
  unfold getAddressSpace
  rw [if_neg (not_not.mpr rfl)]
  cases lunToDev (init ans lun baseAddress irq s).1 l with
  | none => simp
  | some dev =>
    dsimp only
    split
    · rename_i hout
      refine iff_of_false (fun hfalse => by cases hfalse) ?_
      omega
    · rename_i hin
      refine iff_of_true rfl ⟨rfl, ?_⟩
      omega

/-- The vector of a slot leads back to that slot of its board. -/
theorem init_interrupt (h : (init ans lun baseAddress irq s).2 = true) {us : List ℕ} (hus : ∀ u ∈ us, u < 16)
    (hnodup : us.Nodup)
    (hirq : irq = us.map fun u : ℕ => (16 * u + 14 : ℤ)) {b : Board} (hb : b ∈ boardsOf lun baseAddress irq) {slot : ℕ}
    (hslot : slot < vmodioSlots) {t : VmodioDriver C D} {m : ℤ × ℤ → MzCallback C D}
    (ht : t = { (init ans lun baseAddress irq s).1 with mezzaninesCallback := m }) :
    vmeInterrupt t (vmodioIrqShift b.irq slot).toNat =
      if withinBounds t b.lun slot then (m (b.lun, slot)).callback.map fun callback => (callback, (m (b.lun, slot)).dev)
      else none := by
  have hdone := init_boards h
  obtain ⟨haccepted, -, hok⟩ := init_true.mp h
  have hirqs := boardsOf_irq haccepted
  have hgranted := ((initDevices_true _).mp hok).2
  obtain ⟨k, hk⟩ := List.mem_iff_getElem?.mp hb
  have hrequest : (vmodioIrqShift b.irq slot, 0 + k, slot) ∈ requestsOf 0 (boardsOf lun baseAddress irq) :=
    mem_requestsOf.mpr ⟨k, b, slot, hk, hslot, rfl⟩
  have htable : t.vmeIrqTable (vmodioIrqShift b.irq slot).toNat = some (.vmodio (0 + k) slot) := by
    subst ht
    dsimp only
    rw [hdone.table]
    exact grants_mem hgranted hrequest
  have hplace : (t.deviceTable (0 + k)).irq slot = vmodioIrqShift b.irq slot := by
    subst ht
    exact (hdone.placed k b hk).2 slot hslot
  have hbase : ∃ u : ℕ, u < 16 ∧ b.irq = 16 * u + 14 := by
    have hmem := List.mem_map_of_mem (f := Board.irq) hb
    rw [hirqs, hirq] at hmem
    obtain ⟨u, hu, heq⟩ := List.mem_map.mp hmem
    exact ⟨u, hus u hu, heq.symm⟩
  obtain ⟨u, hu, hbirq⟩ := hbase
  -- the nibbles of the boards are pairwise distinct
  have hnibbles : ((boardsOf lun baseAddress irq).map fun b => upperNibbleOf b.irq) = us := by
    have hcomp : ((boardsOf lun baseAddress irq).map fun b => upperNibbleOf b.irq) =
        ((boardsOf lun baseAddress irq).map Board.irq).map upperNibbleOf := by
      rw [List.map_map]
      rfl
    rw [hcomp, hirqs, hirq, List.map_map]
    exact (List.map_congr_left fun v hv => upperNibbleOf_base (hus v hv)).trans (List.map_id _)
  have hlun : t.irqToLun u = b.lun := by
    have hkey : upperNibbleOf b.irq = u := by rw [hbirq, upperNibbleOf_base hu]
    subst ht
    rcases hdone.nibbles u with ⟨k', b', ⟨hk', hkey', -⟩, hval⟩ | ⟨hnone, -⟩
    · have hsame : b' = b :=
        List.inj_on_of_nodup_map (hnibbles ▸ hnodup) (List.mem_of_getElem? hk') hb (hkey'.trans hkey.symm)
      rw [← hsame]
      exact hval
    · exact absurd hkey (hnone b hb)
  unfold vmeInterrupt
  rw [htable]
  dsimp only
  unfold vmodioInterrupt
  rw [hplace, hbirq, upperNibbleOf_shift hu hslot, irqToSlot_shift u hslot, hlun]
  have hm : t.mezzaninesCallback = m := by rw [ht]
  dsimp only
  rw [hm]

end Loaded

/-! ## Luns and the number of modules -/

theorem mem_of_nodup_lt_length {l : List ℤ} (hnodup : l.Nodup) (hlt : ∀ x ∈ l, 0 ≤ x ∧ x < l.length) {x : ℤ}
    (hx : 0 ≤ x) (hxlt : x < l.length) : x ∈ l := by
  have hsub : l.toFinset ⊆ Finset.Ico 0 (l.length : ℤ) := by
    intro y hy
    exact Finset.mem_Ico.mpr (hlt y (List.mem_toFinset.mp hy))
  have hcard : (Finset.Ico 0 (l.length : ℤ)).card ≤ l.toFinset.card := by
    rw [Int.card_Ico, List.toFinset_card_of_nodup hnodup]
    omega
  have heq := Finset.eq_of_subset_of_card_le hsub hcard
  rw [← List.mem_toFinset, heq]
  exact Finset.mem_Ico.mpr ⟨hx, hxlt⟩

section Claims
variable {C D : Type} (ans : Answers) (s : VmodioDriver C D) (lun irq : List ℤ) (baseAddress : List (BitVec 64))

/-- After every sequence of `register_isr` calls the driver dispatches as configured, exactly when no lun reaches the
number of modules. -/
theorem interrupts_dispatched (us : List ℕ) (hload : (init ans lun baseAddress irq s).2 = true) (hnodup : lun.Nodup)
    (hluns : ∀ l ∈ lun, 0 ≤ l ∧ l < maxDevices) (hus : ∀ u ∈ us, u < 16) (hdistinct : us.Nodup)
    (hirq : irq = us.map fun u : ℕ => (16 * u + 14 : ℤ)) (hnone : ∀ p, s.mezzaninesCallback p = ⟨none, none⟩) :
    (∀ calls : List (RegisterCall C D), Dispatches lun (boardsOf lun baseAddress irq) calls
      (calls.foldl registerCall (init ans lun baseAddress irq s).1)) ↔
    ∀ l ∈ lun, l < lun.length := by
  have hdevices := init_devices hload
  constructor
  · intro h l hl
    have hregisters := ((h []).registers ⟨none, none, l, 0⟩).mpr ⟨hl, le_refl 0, Int.natCast_pos.mpr (Nat.succ_pos 3)⟩
    have hbounds := withinBounds_iff.mp (registerIsr_isSome.mp hregisters)
    rw [List.foldl_nil, hdevices] at hbounds
    exact hbounds.2.1
  · intro hlt calls
    have hmem : ∀ l, l ∈ lun ↔ 0 ≤ l ∧ l < lun.length := fun l =>
      ⟨fun hl => ⟨(hluns l hl).1, hlt l hl⟩,
        fun hl => mem_of_nodup_lt_length hnodup (fun x hx => ⟨(hluns x hx).1, hlt x hx⟩) hl.1 hl.2⟩
    have hcalls := registerCalls_eq (init ans lun baseAddress irq s).1 calls
    have hbounds : ∀ l p, withinBounds (calls.foldl registerCall (init ans lun baseAddress irq s).1) l p = true ↔
        l ∈ lun ∧ 0 ≤ p ∧ p < vmodioSlots := by
      intro l p
      rw [withinBounds_iff, hmem, hcalls, and_assoc]
      dsimp only
      rw [hdevices]
    refine ⟨fun call => ?_, fun l p => ?_, fun b hb slot hslot => ?_⟩
    · rw [registerIsr_isSome, hbounds]
    · rw [← init_spaces hload l p, hcalls]
      rfl
    · have hlun : b.lun ∈ lun := by
        rw [← boardsOf_lun (init_true.mp hload).1]
        exact List.mem_map_of_mem hb
      have hin : withinBounds (calls.foldl registerCall (init ans lun baseAddress irq s).1) b.lun slot = true :=
        (hbounds b.lun slot).mpr ⟨hlun, by omega, by omega⟩
      rw [init_interrupt hload hus hdistinct hirq hb hslot hcalls, if_pos hin]
      refine registerCalls_callback (fun p => ?_) calls ?_
      · rw [init_callbacks hload]
        exact hnone p
      · rw [hcalls] at hin
        exact hin

end Claims

/-! ## Two configurations -/

/-- The luns in another order than their number, with one callback. -/
theorem swappedLuns_dispatched :
    Dispatches [1, 0] (boardsOf [1, 0] [0x1200, 0xA800] [126, 142]) [⟨some 7, some 3, 1, 2⟩]
      ([⟨some 7, some 3, 1, 2⟩].foldl registerCall (init willing [1, 0] [0x1200, 0xA800] [126, 142] unloaded).1) :=
  (interrupts_dispatched willing unloaded [1, 0] [126, 142] [0x1200, 0xA800] [7, 8] (by decide) (by decide) (by decide)
    (by decide) (by decide) (by decide) (fun _ => rfl)).mpr (by decide) [⟨some 7, some 3, 1, 2⟩]

/-- With lun=0,1,4 the load succeeds, yet no callback is taken for the module 4. -/
theorem lunGap_refused :
    (init willing [0, 1, 4] [0x1200, 0xA800, 0x6000] [126, 142, 158] unloaded).2 = true ∧
      (getAddressSpace (init willing [0, 1, 4] [0x1200, 0xA800, 0x6000] [126, 142, 158] unloaded).1 4 0 1).isSome ∧
      ¬ ∀ calls : List (RegisterCall ℕ ℕ), Dispatches [0, 1, 4]
      (boardsOf [0, 1, 4] [0x1200, 0xA800, 0x6000] [126, 142, 158]) calls
        (calls.foldl registerCall (init willing [0, 1, 4] [0x1200, 0xA800, 0x6000] [126, 142, 158] unloaded).1) := by
  refine ⟨by decide, by decide, fun h => ?_⟩
  have htaken := ((h []).registers ⟨some 0, none, 4, 0⟩).mpr (by decide)
  have hrefused : (registerIsr (init willing [0, 1, 4] [0x1200, 0xA800, 0x6000] [126, 142, 158] unloaded).1
      (some 0) none 4 0).isSome = false := by
    decide
  rw [List.foldl_nil, hrefused] at htaken
  cases htaken

end HtDrivers.Vmod
