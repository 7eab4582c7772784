import HtDrivers.Ctr.Effects

/-! The slots of the trigger tables belong to the objects: a run of slots to each PTIM object, one slot at most on each
module to a CTIM number, and free slots have no clients. -/
namespace HtDrivers.Ctr
open HtDrivers.Lib.Tables HtDrivers.Lib.Masks HtDrivers.Lib.Transition
set_option autoImplicit false

def CtrDrvrWorkingArea.slot (wa : CtrDrvrWorkingArea) (m : Fin ctrDrvrModuleContexts) (i : Fin ctrDrvrRamTableSize) :
    TrigSlot := (wa.moduleContexts m).slots i

theorem slot_eq (wa : CtrDrvrWorkingArea) (m : Fin ctrDrvrModuleContexts) (i : Fin ctrDrvrRamTableSize) :
    wa.slot m i = (wa.moduleContexts m).slots i := rfl

/-- Slot `i` of module `m` is in the run of the object. -/
def CtrDrvrPtimBinding.Owns (object : CtrDrvrPtimBinding) (m : Fin ctrDrvrModuleContexts)
    (i : Fin ctrDrvrRamTableSize) : Prop :=
  object.moduleIndex = m ∧ object.startIndex ≤ i ∧ (i : ℕ) < object.startIndex + object.size

/-- The tables of objects and the slots agree. -/
structure Allocated (wa : CtrDrvrWorkingArea) : Prop where
  free : ∀ m i, (wa.slot m i).eqpNum = 0 → (wa.slot m i).eqpClass = .hard ∧ (wa.slot m i).clients = 0
  occupied : ∀ m i, (wa.slot m i).eqpNum ≠ 0 → (wa.slot m i).eqpClass = .ctim ∨ (wa.slot m i).eqpClass = .ptim
  ctimNumber : ∀ object ∈ wa.ctim, object.eqpNum ≠ 0
  ctimOnce : ∀ m i j, (wa.slot m i).eqpClass = .ctim → (wa.slot m j).eqpClass = .ctim →
    (wa.slot m i).eqpNum = (wa.slot m j).eqpNum → i = j
  ptimOnce : (wa.ptim.map CtrDrvrPtimBinding.eqpNum).Nodup
  ptimRange : ∀ object ∈ wa.ptim, object.eqpNum ≠ 0 ∧ object.moduleIndex < wa.modules ∧
    object.startIndex + object.size ≤ ctrDrvrRamTableSize
  ptimSlots : ∀ m i eqpNum, (wa.slot m i).isPtim eqpNum = true ↔
    ∃ object ∈ wa.ptim, object.eqpNum = eqpNum ∧ object.Owns m i
  ptimCounter : ∀ object ∈ wa.ptim, ∀ m i, object.Owns m i → (wa.slot m i).trig.counter = object.counter

section Slots
variable {slot : TrigSlot} {eqpNum : BitVec 32} {conx : CtrDrvrConnection}

theorem isPtim_iff : slot.isPtim eqpNum = true ↔ slot.eqpNum = eqpNum ∧ slot.eqpClass = .ptim := by
  simp [TrigSlot.isPtim]

theorem matches_iff : slot.matches conx = true ↔ conx.eqpNum = slot.eqpNum ∧ conx.eqpClass = slot.eqpClass := by
  simp [TrigSlot.matches]

/-- How connections change a slot: its object stays, or an instance of a CTIM object is freed. -/
inductive SlotKept (old new : TrigSlot) : Prop
  | same (hnum : new.eqpNum = old.eqpNum) (hclass : new.eqpClass = old.eqpClass)
      (hcounter : new.trig.counter = old.trig.counter) (hclients : old.eqpNum = 0 → new.clients = 0)
  | freed (hctim : old.eqpClass = .ctim) (hnum : new.eqpNum = 0) (hclass : new.eqpClass = .hard)
      (hclients : new.clients = 0)

theorem SlotKept.refl (hfree : slot.eqpNum = 0 → slot.clients = 0) : SlotKept slot slot := .same rfl rfl rfl hfree

theorem leftSlot_kept (client : Fin ctrDrvrClientContexts) (hfree : slot.eqpNum = 0 → slot.clients = 0) :
    SlotKept slot (leftSlot client slot) := by
  obtain ⟨hnum, hclass⟩ | ⟨hctim, hnum, hclass, hclients⟩ := leftSlot_object client slot
  · refine .same hnum hclass (by rw [leftSlot_trig]) fun hzero => ?_
    rw [leftSlot_clients, hfree hzero]
    simp
  · exact .freed hctim hnum hclass hclients

end Slots

/-! ## Changes of slots -/

section Changes
variable {wa wa' : CtrDrvrWorkingArea}

theorem Allocated.kept (h : Allocated wa) (hslots : ∀ m i, SlotKept (wa.slot m i) (wa'.slot m i))
    (hptim : wa'.ptim = wa.ptim) (hmodules : wa'.modules = wa.modules)
    (hctim : ∀ object ∈ wa'.ctim, object.eqpNum ≠ 0) : Allocated wa' := by
  have hptimIff : ∀ m i eqpNum, (wa'.slot m i).isPtim eqpNum = true ↔ (wa.slot m i).isPtim eqpNum = true := by
    intro m i eqpNum
    rw [isPtim_iff, isPtim_iff]
    obtain ⟨hnum, hclass, -, -⟩ | ⟨hold, hnum, hclass, -⟩ := hslots m i
    · rw [hnum, hclass]
    · rw [hclass, hold]
      simp
  have hctimOld : ∀ m i, (wa'.slot m i).eqpClass = .ctim →
      (wa.slot m i).eqpClass = .ctim ∧ (wa.slot m i).eqpNum = (wa'.slot m i).eqpNum := by
    intro m i hnew
    obtain ⟨hnum, hclass, -, -⟩ | ⟨-, -, hclass, -⟩ := hslots m i
    · exact ⟨hclass ▸ hnew, hnum.symm⟩
    · rw [hclass] at hnew
      cases hnew
  refine ⟨fun m i hzero => ?_, fun m i hocc => ?_, hctim, fun m i j hi hj heq => ?_, ?_, ?_, fun m i eqpNum => ?_,
    fun object hobject m i howns => ?_⟩
  · obtain ⟨hnum, hclass, -, hclients⟩ | ⟨-, -, hclass, hclients⟩ := hslots m i
    · rw [hnum] at hzero
      exact ⟨hclass.trans (h.free m i hzero).1, hclients hzero⟩
    · exact ⟨hclass, hclients⟩
  · obtain ⟨hnum, hclass, -, -⟩ | ⟨-, hnum, -, -⟩ := hslots m i
    · rw [hclass]
      exact h.occupied m i (hnum ▸ hocc)
    · exact absurd hnum hocc
  · obtain ⟨hi, hinum⟩ := hctimOld m i hi
    obtain ⟨hj, hjnum⟩ := hctimOld m j hj
    exact h.ctimOnce m i j hi hj (hinum.trans (heq.trans hjnum.symm))
  · rw [hptim]
    exact h.ptimOnce
  · rw [hptim, hmodules]
    exact h.ptimRange
  · rw [hptimIff, hptim]
    exact h.ptimSlots m i eqpNum
  · rw [hptim] at hobject
    have hptim : (wa.slot m i).isPtim object.eqpNum = true := (h.ptimSlots m i _).mpr ⟨object, hobject, rfl, howns⟩
    obtain ⟨-, -, hcounter, -⟩ | ⟨hold, -, -, -⟩ := hslots m i
    · rw [hcounter]
      exact h.ptimCounter object hobject m i howns
    · rw [isPtim_iff, hold] at hptim
      cases hptim.2

theorem Allocated.clients_free (h : Allocated wa) (m : Fin ctrDrvrModuleContexts) (i : Fin ctrDrvrRamTableSize)
    (hzero : (wa.slot m i).eqpNum = 0) : (wa.slot m i).clients = 0 := (h.free m i hzero).2

/-- A slot of no PTIM object is in no run. -/
theorem Allocated.not_owns (h : Allocated wa) {m : Fin ctrDrvrModuleContexts} {i : Fin ctrDrvrRamTableSize}
    (hclass : (wa.slot m i).eqpClass ≠ .ptim) {object : CtrDrvrPtimBinding} (hobject : object ∈ wa.ptim) :
    ¬object.Owns m i := by
  intro howns
  have hptim := (h.ptimSlots m i _).mpr ⟨object, hobject, rfl, howns⟩
  exact hclass (isPtim_iff.mp hptim).2

/-- An instance of a CTIM object in a free slot, on a module that has none. -/
theorem Allocated.newInstance (h : Allocated wa) {m₀ : Fin ctrDrvrModuleContexts} {i₀ : Fin ctrDrvrRamTableSize}
    (hfree : (wa.slot m₀ i₀).eqpNum = 0) (hnum : (wa'.slot m₀ i₀).eqpNum ≠ 0)
    (hclass : (wa'.slot m₀ i₀).eqpClass = .ctim)
    (hnew : ∀ i, (wa.slot m₀ i).eqpClass = .ctim → (wa.slot m₀ i).eqpNum ≠ (wa'.slot m₀ i₀).eqpNum)
    (hother : ∀ m i, ¬(m = m₀ ∧ i = i₀) → wa'.slot m i = wa.slot m i) (hptim : wa'.ptim = wa.ptim)
    (hmodules : wa'.modules = wa.modules) (hctim : wa'.ctim = wa.ctim) : Allocated wa' := by
  have hhard : (wa.slot m₀ i₀).eqpClass = .hard := (h.free m₀ i₀ hfree).1
  refine ⟨fun m i hzero => ?_, fun m i hocc => ?_, hctim ▸ h.ctimNumber, fun m i j hi hj heq => ?_, hptim ▸ h.ptimOnce,
    ?_, fun m i eqpNum => ?_, fun object hobject m i howns => ?_⟩
  · by_cases hat : m = m₀ ∧ i = i₀
    · rw [hat.1, hat.2] at hzero
      exact absurd hzero hnum
    · rw [hother m i hat] at hzero ⊢
      exact h.free m i hzero
  · by_cases hat : m = m₀ ∧ i = i₀
    · rw [hat.1, hat.2]
      exact .inl hclass
    · rw [hother m i hat] at hocc ⊢
      exact h.occupied m i hocc
  · by_cases hati : m = m₀ ∧ i = i₀
    · by_cases hatj : m = m₀ ∧ j = i₀
      · rw [hati.2, hatj.2]
      · rw [hother m j hatj, hati.1, hati.2] at heq
        rw [hother m j hatj, hati.1] at hj
        exact absurd heq.symm (hnew j hj)
    · by_cases hatj : m = m₀ ∧ j = i₀
      · rw [hother m i hati, hatj.1, hatj.2] at heq
        rw [hother m i hati, hatj.1] at hi
        exact absurd heq (hnew i hi)
      · rw [hother m i hati] at hi heq
        rw [hother m j hatj] at hj heq
        exact h.ctimOnce m i j hi hj heq
  · rw [hptim, hmodules]
    exact h.ptimRange
  · rw [hptim]
    by_cases hat : m = m₀ ∧ i = i₀
    · rw [hat.1, hat.2, isPtim_iff, hclass]
      refine ⟨fun hfalse => (by cases hfalse.2), ?_⟩
      rintro ⟨object, hobject, -, howns⟩
      exact absurd howns (h.not_owns (by rw [hhard]; decide) hobject)
    · rw [hother m i hat]
      exact h.ptimSlots m i eqpNum
  · rw [hptim] at hobject
    by_cases hat : m = m₀ ∧ i = i₀
    · rw [hat.1, hat.2] at howns
      exact absurd howns (h.not_owns (by rw [hhard]; decide) hobject)
    · rw [hother m i hat]
      exact h.ptimCounter object hobject m i howns

/-! ### PTIM objects -/

/-- The search finds free slots in a row, where those of the row so far are free. -/
theorem searchSlots_free {mcon : CtrDrvrModuleContext} {wanted found : ℕ} {slots : List (Fin ctrDrvrRamTableSize)}
    {k start size : ℕ} (hslots : slots.map Fin.val = List.range' k slots.length) (hrow : 0 < size → start + size = k)
    (hfree : ∀ j : Fin ctrDrvrRamTableSize, k ≤ j + size → (j : ℕ) < k → (mcon.slots j).eqpNum = 0)
    (h : searchSlots mcon wanted slots start size = some found) : found + wanted ≤ ctrDrvrRamTableSize ∧
      ∀ j : Fin ctrDrvrRamTableSize, found ≤ j → (j : ℕ) < found + wanted → (mcon.slots j).eqpNum = 0 := by
  induction slots generalizing k start size with
  | nil => simp [searchSlots] at h
  | cons i slots ih =>
    rw [List.map_cons, List.length_cons, List.range'_succ, List.cons.injEq] at hslots
    obtain ⟨hi, hrest⟩ := hslots
    have hlt := i.isLt
    unfold searchSlots at h
    by_cases hempty : (mcon.slots i).eqpNum = 0
    · rw [if_pos hempty] at h
      have hrow' : (if size = 0 then (i : ℕ) else start) + (size + 1) = k + 1 := by
        split
        · omega
        · have := hrow (by omega)
          omega
      have hfree' : ∀ j : Fin ctrDrvrRamTableSize, k + 1 ≤ j + (size + 1) → (j : ℕ) < k + 1 →
          (mcon.slots j).eqpNum = 0 := by
        intro j hlow hhigh
        by_cases hji : j = i
        · rw [hji]
          exact hempty
        · have hne : (j : ℕ) ≠ i := fun heq => hji (Fin.ext heq)
          exact hfree j (by omega) (by omega)
      dsimp only at h
      generalize (if size = 0 then (i : ℕ) else start) = start' at h hrow'
      by_cases hwanted : wanted ≤ size + 1
      · rw [if_pos hwanted] at h
        obtain rfl := Option.some.inj h
        exact ⟨by omega, fun j hlow hhigh => hfree' j (by omega) (by omega)⟩
      · rw [if_neg hwanted] at h
        exact ih hrest (fun _ => hrow') hfree' h
    · rw [if_neg hempty] at h
      exact ih hrest (fun hpos => absurd hpos (Nat.lt_irrefl 0)) (fun j hlow hhigh => by omega) h

/-- The search over all slots. -/
theorem searchSlots_finds {mcon : CtrDrvrModuleContext} {wanted found : ℕ}
    (h : searchSlots mcon wanted (List.finRange _) 0 0 = some found) : found + wanted ≤ ctrDrvrRamTableSize ∧
      ∀ j : Fin ctrDrvrRamTableSize, found ≤ j → (j : ℕ) < found + wanted → (mcon.slots j).eqpNum = 0 := by
  have hslots : (List.finRange ctrDrvrRamTableSize).map Fin.val =
      List.range' 0 (List.finRange ctrDrvrRamTableSize).length := by
    rw [List.map_coe_finRange_eq_range, List.length_finRange, List.range_eq_range']
  exact searchSlots_free hslots (fun hpos => absurd hpos (Nat.lt_irrefl 0))
    (fun j _ hlt => absurd hlt (Nat.not_lt_zero _)) h

/-- A run of free slots becomes that of a new object. -/
theorem Allocated.claimed (h : Allocated wa) (object : CtrDrvrPtimBinding) (hnum : object.eqpNum ≠ 0)
    (hmodule : object.moduleIndex < wa.modules) (hfit : object.startIndex + object.size ≤ ctrDrvrRamTableSize)
    (hnew : ∀ other ∈ wa.ptim, other.eqpNum ≠ object.eqpNum)
    (hfree : ∀ m i, object.Owns m i → (wa.slot m i).eqpNum = 0)
    (howned : ∀ m i, object.Owns m i → (wa'.slot m i).eqpNum = object.eqpNum ∧ (wa'.slot m i).eqpClass = .ptim ∧
      (wa'.slot m i).trig.counter = object.counter)
    (hother : ∀ m i, ¬object.Owns m i → wa'.slot m i = wa.slot m i) (hptim : wa'.ptim = wa.ptim ++ [object])
    (hmodules : wa'.modules = wa.modules) (hctim : wa'.ctim = wa.ctim) : Allocated wa' := by
  have hhard : ∀ m i, object.Owns m i → (wa.slot m i).eqpClass = .hard := fun m i howns =>
    (h.free m i (hfree m i howns)).1
  have hmem : ∀ other, other ∈ wa'.ptim ↔ other ∈ wa.ptim ∨ other = object := by
    intro other
    rw [hptim, List.mem_append, List.mem_singleton]
  have hctimOld : ∀ m i, (wa'.slot m i).eqpClass = .ctim → wa'.slot m i = wa.slot m i := by
    intro m i hclass
    refine hother m i fun howns => ?_
    rw [(howned m i howns).2.1] at hclass
    cases hclass
  refine ⟨fun m i hzero => ?_, fun m i hocc => ?_, hctim ▸ h.ctimNumber, fun m i j hi hj heq => ?_, ?_,
    fun other hmember => ?_, fun m i eqpNum => ?_, fun other hmember m i howns => ?_⟩
  · by_cases howns : object.Owns m i
    · rw [(howned m i howns).1] at hzero
      exact absurd hzero hnum
    · rw [hother m i howns] at hzero ⊢
      exact h.free m i hzero
  · by_cases howns : object.Owns m i
    · exact .inr (howned m i howns).2.1
    · rw [hother m i howns] at hocc ⊢
      exact h.occupied m i hocc
  · have hieq := hctimOld m i hi
    have hjeq := hctimOld m j hj
    rw [hieq] at hi heq
    rw [hjeq] at hj heq
    exact h.ctimOnce m i j hi hj heq
  · rw [hptim, List.map_append, List.nodup_append]
    refine ⟨h.ptimOnce, by simp, ?_⟩
    intro a ha b hb
    obtain ⟨other, hmember, rfl⟩ := List.mem_map.mp ha
    obtain rfl : b = object.eqpNum := by simpa using hb
    exact hnew other hmember
  · rw [hmodules]
    obtain hmember | rfl := (hmem other).mp hmember
    · exact h.ptimRange other hmember
    · exact ⟨hnum, hmodule, hfit⟩
  · by_cases howns : object.Owns m i
    · rw [isPtim_iff, (howned m i howns).1]
      constructor
      · rintro ⟨rfl, -⟩
        exact ⟨object, (hmem object).mpr (.inr rfl), rfl, howns⟩
      · rintro ⟨other, hmember, rfl, hother⟩
        obtain hmember | rfl := (hmem other).mp hmember
        · exact absurd hother (h.not_owns (by rw [hhard m i howns]; decide) hmember)
        · exact ⟨rfl, (howned m i howns).2.1⟩
    · rw [hother m i howns, h.ptimSlots m i eqpNum]
      constructor
      · rintro ⟨other, hmember, rfl, hother⟩
        exact ⟨other, (hmem other).mpr (.inl hmember), rfl, hother⟩
      · rintro ⟨other, hmember, rfl, hrun⟩
        obtain hmember | rfl := (hmem other).mp hmember
        · exact ⟨other, hmember, rfl, hrun⟩
        · exact absurd hrun howns
  · by_cases howned' : object.Owns m i
    · obtain hmember | rfl := (hmem other).mp hmember
      · exact absurd howns (h.not_owns (by rw [hhard m i howned']; decide) hmember)
      · exact (howned m i howned').2.2
    · obtain hmember | rfl := (hmem other).mp hmember
      · rw [hother m i howned']
        exact h.ptimCounter other hmember m i howns
      · exact absurd howns howned'

/-- Two objects with one number are one. -/
theorem Allocated.ptim_unique (h : Allocated wa) {object other : CtrDrvrPtimBinding} (hobject : object ∈ wa.ptim)
    (hother : other ∈ wa.ptim) (hnum : object.eqpNum = other.eqpNum) : object = other :=
  List.inj_on_of_nodup_map h.ptimOnce hobject hother hnum

/-- The slots of an object without clients become free. -/
theorem Allocated.released (h : Allocated wa) (m₀ : Fin ctrDrvrModuleContexts) (eqpNum : BitVec 32)
    (hidle : ∀ i, (wa.slot m₀ i).isPtim eqpNum = true → (wa.slot m₀ i).clients = 0)
    (hused : ∃ i, (wa.slot m₀ i).isPtim eqpNum = true)
    (hfreed : ∀ i, (wa.slot m₀ i).isPtim eqpNum = true → (wa'.slot m₀ i).eqpNum = 0 ∧
      (wa'.slot m₀ i).eqpClass = .hard ∧ (wa'.slot m₀ i).clients = (wa.slot m₀ i).clients)
    (hother : ∀ m i, ¬(m = m₀ ∧ (wa.slot m₀ i).isPtim eqpNum = true) → wa'.slot m i = wa.slot m i)
    (hptim : wa'.ptim = moveLast (fun object => eqpNum == object.eqpNum) wa.ptim)
    (hmodules : wa'.modules = wa.modules) (hctim : wa'.ctim = wa.ctim) : Allocated wa' := by
  have hmem : ∀ object, object ∈ wa'.ptim ↔ object ∈ wa.ptim ∧ object.eqpNum ≠ eqpNum := by
    intro object
    rw [hptim]
    exact mem_moveLast_key h.ptimOnce eqpNum object
  obtain ⟨i₀, hi₀⟩ := hused
  obtain ⟨owner, howner, hownerNum, howns₀⟩ := (h.ptimSlots m₀ i₀ eqpNum).mp hi₀
  have hat : ∀ m i, (wa.slot m i).isPtim eqpNum = true → m = m₀ := by
    intro m i hi
    obtain ⟨object, hobject, hnum, howns⟩ := (h.ptimSlots m i eqpNum).mp hi
    obtain rfl := h.ptim_unique hobject howner (hnum.trans hownerNum.symm)
    exact Fin.ext (howns.1.symm.trans howns₀.1)
  have hstays : ∀ m i, (wa.slot m i).isPtim eqpNum ≠ true → wa'.slot m i = wa.slot m i := by
    intro m i hne
    refine hother m i ?_
    rintro ⟨rfl, hi⟩
    exact hne hi
  have hgone : ∀ m i, (wa.slot m i).isPtim eqpNum = true → (wa'.slot m i).eqpNum = 0 ∧
      (wa'.slot m i).eqpClass = .hard ∧ (wa'.slot m i).clients = 0 := by
    intro m i hi
    obtain rfl := hat m i hi
    obtain ⟨hnum, hclass, hclients⟩ := hfreed i hi
    exact ⟨hnum, hclass, hclients.trans (hidle i hi)⟩
  refine ⟨fun m i hzero => ?_, fun m i hocc => ?_, hctim ▸ h.ctimNumber, fun m i j hi hj heq => ?_, ?_,
    fun object hobject => ?_, fun m i number => ?_, fun object hobject m i howns => ?_⟩
  · by_cases hi : (wa.slot m i).isPtim eqpNum = true
    · exact (hgone m i hi).2
    · rw [hstays m i hi] at hzero ⊢
      exact h.free m i hzero
  · by_cases hi : (wa.slot m i).isPtim eqpNum = true
    · exact absurd (hgone m i hi).1 hocc
    · rw [hstays m i hi] at hocc ⊢
      exact h.occupied m i hocc
  · have hsame : ∀ i, (wa'.slot m i).eqpClass = .ctim → wa'.slot m i = wa.slot m i := by
      intro i hclass
      refine hstays m i fun hptim => ?_
      rw [(hgone m i hptim).2.1] at hclass
      cases hclass
    have hieq := hsame i hi
    have hjeq := hsame j hj
    rw [hieq] at hi heq
    rw [hjeq] at hj heq
    exact h.ctimOnce m i j hi hj heq
  · rw [hptim]
    exact nodup_moveLast h.ptimOnce
  · rw [hmodules]
    exact h.ptimRange object ((hmem object).mp hobject).1
  · by_cases hi : (wa.slot m i).isPtim eqpNum = true
    · rw [isPtim_iff, (hgone m i hi).2.1]
      refine ⟨fun hfalse => (by cases hfalse.2), ?_⟩
      rintro ⟨object, hobject, -, howns⟩
      obtain ⟨hold, hne⟩ := (hmem object).mp hobject
      have hmine := (h.ptimSlots m i _).mpr ⟨object, hold, rfl, howns⟩
      exact absurd ((isPtim_iff.mp hmine).1.symm.trans (isPtim_iff.mp hi).1) hne
    · rw [hstays m i hi, h.ptimSlots m i number]
      constructor
      · rintro ⟨object, hobject, hnum, howns⟩
        refine ⟨object, (hmem object).mpr ⟨hobject, fun heq => hi ?_⟩, hnum, howns⟩
        exact (h.ptimSlots m i eqpNum).mpr ⟨object, hobject, heq, howns⟩
      · rintro ⟨object, hobject, hnum, howns⟩
        exact ⟨object, ((hmem object).mp hobject).1, hnum, howns⟩
  · obtain ⟨hold, hne⟩ := (hmem object).mp hobject
    have hmine := (h.ptimSlots m i _).mpr ⟨object, hold, rfl, howns⟩
    have hi : (wa.slot m i).isPtim eqpNum ≠ true := fun heq =>
      hne ((isPtim_iff.mp hmine).1.symm.trans (isPtim_iff.mp heq).1)
    rw [hstays m i hi]
    exact h.ptimCounter object hold m i howns

end Changes

/-! ## Calls -/

section Calls
variable {wa : CtrDrvrWorkingArea} {client : Fin ctrDrvrClientContexts} {conx : CtrDrvrConnection}
  {beyond : Fin ctrDrvrModuleContexts → ℕ → BitVec 32}

theorem setModule_slot (wa : CtrDrvrWorkingArea) (midx m : Fin ctrDrvrModuleContexts) (mcon : CtrDrvrModuleContext)
    (i : Fin ctrDrvrRamTableSize) :
    (wa.setModule midx mcon).slot m i = if m = midx then mcon.slots i else wa.slot m i := by
  unfold CtrDrvrWorkingArea.slot CtrDrvrWorkingArea.setModule
  by_cases hm : m = midx
  · rw [if_pos hm, hm]
    dsimp only
    rw [Function.update_self]
  · rw [if_neg hm]
    dsimp only
    rw [Function.update_of_ne hm]

theorem Allocated.keptRefl (h : Allocated wa) (m : Fin ctrDrvrModuleContexts) (i : Fin ctrDrvrRamTableSize) :
    SlotKept (wa.slot m i) (wa.slot m i) := .refl (h.clients_free m i)

/-- One module changes in the ways of a connection. -/
theorem Allocated.module (h : Allocated wa) {midx : Fin ctrDrvrModuleContexts} {mcon : CtrDrvrModuleContext}
    (hslots : ∀ i, SlotKept (wa.slot midx i) (mcon.slots i)) : Allocated (wa.setModule midx mcon) := by
  refine h.kept (fun m i => ?_) rfl rfl h.ctimNumber
  rw [setModule_slot]
  by_cases hm : m = midx
  · rw [if_pos hm, hm]
    exact hslots i
  · rw [if_neg hm]
    exact h.keptRefl m i

theorem Allocated.connected (h : Allocated wa) {midx : Fin ctrDrvrModuleContexts} {result : CtrDrvrModuleContext × ℕ}
    (hslots : ∀ i, SlotKept (wa.slot midx i) (result.1.slots i)) : Allocated (connected wa midx result).1 := by
  unfold Ctr.connected
  split
  · exact h.module hslots
  · exact h.module hslots

theorem Allocated.enabled {midx : Fin ctrDrvrModuleContexts} {mcon : CtrDrvrModuleContext} {msk : BitVec 32}
    (h : Allocated (wa.setModule midx mcon)) : Allocated (wa.setModule midx (enableInterrupts mcon msk)) := by
  refine h.kept (fun m i => ?_) rfl rfl h.ctimNumber
  have hsame : (wa.setModule midx (enableInterrupts mcon msk)).slot m i = (wa.setModule midx mcon).slot m i := by
    rw [setModule_slot, setModule_slot, enableInterrupts_slots]
  rw [hsame]
  exact h.keptRefl m i

theorem joinedSlot_kept {slot : TrigSlot} (hused : slot.eqpNum ≠ 0) : SlotKept slot (joinedSlot client slot) :=
  .same rfl rfl rfl fun hzero => absurd hzero hused

/-- A slot that a connection to an object finds is in use. -/
theorem Allocated.matches_used (h : Allocated wa) {m : Fin ctrDrvrModuleContexts} {i : Fin ctrDrvrRamTableSize}
    (hclass : conx.eqpClass ≠ .hard) (hmatch : (wa.slot m i).matches conx = true) : (wa.slot m i).eqpNum ≠ 0 := by
  intro hzero
  have hhard := (h.free m i hzero).1
  exact hclass ((matches_iff.mp hmatch).2.trans hhard)

theorem Allocated.joinedAt (h : Allocated wa) {midx : Fin ctrDrvrModuleContexts} {i₀ : Fin ctrDrvrRamTableSize}
    (hused : (wa.slot midx i₀).eqpNum ≠ 0) (i : Fin ctrDrvrRamTableSize) :
    SlotKept (wa.slot midx i) (Function.update (wa.moduleContexts midx).slots i₀
      (joinedSlot client (wa.slot midx i₀)) i) := by
  by_cases hi : i = i₀
  · rw [hi, Function.update_self]
    exact joinedSlot_kept hused
  · rw [Function.update_of_ne hi]
    exact h.keptRefl midx i

theorem ctimFrame_number {frame : CtrDrvrEventFrame} {eqpNum : BitVec 32} (h : ctimFrame wa eqpNum = some frame) :
    ∃ object ∈ wa.ctim, object.eqpNum = eqpNum := by
  unfold ctimFrame at h
  split at h
  · rename_i object hfind
    have hnum : eqpNum = object.eqpNum := by simpa using List.find?_some hfind
    exact ⟨object, List.mem_of_find?_eq_some hfind, hnum.symm⟩
  · cases h

theorem connect_hard_slot (hclass : conx.eqpClass = .hard) (m : Fin ctrDrvrModuleContexts)
    (i : Fin ctrDrvrRamTableSize) :
    (connect wa client conx).1.slot m i = wa.slot m i := by
  have hslots : ∀ midx, (connectHard client conx (wa.moduleContexts midx)).1.slots = (wa.moduleContexts midx).slots :=
    fun _ => connectHard_slots
  unfold connect connected
  rw [hclass]
  dsimp only
  split
  · rw [setModule_slot, hslots]
    split
    · rename_i hm
      rw [hm]
      rfl
    · rfl
  · rw [setModule_slot, enableInterrupts_slots, hslots]
    split
    · rename_i hm
      rw [hm]
      rfl
    · rfl

theorem connectModule_named {m : Fin ctrDrvrModuleContexts} (hmodule : conx.module = m + 1) :
    connectModule wa client conx = m := by
  have hm := m.isLt
  have hin : conx.module - 1 < ctrDrvrModuleContexts ∧ conx.module ≠ 0 := by omega
  unfold connectModule
  rw [dif_pos hin]
  exact Fin.ext (by simp [hmodule])

/-- A connection changes nothing outside of the module contexts. -/
theorem connect_frame (wa : CtrDrvrWorkingArea) (client : Fin ctrDrvrClientContexts) (conx : CtrDrvrConnection) :
    (connect wa client conx).1 = { wa with moduleContexts := (connect wa client conx).1.moduleContexts } := by
  unfold connect connected
  dsimp only
  split
  · split
    · split
      · rfl
      · rfl
    · rfl
  · split
    · rfl
    · rfl
  · split
    · rfl
    · rfl
  · split
    · rfl
    · rfl

theorem setModule_fixed {midx : Fin ctrDrvrModuleContexts} {mcon : CtrDrvrModuleContext}
    (hmcon : mcon.fixed = (wa.moduleContexts midx).fixed) (m : Fin ctrDrvrModuleContexts) :
    ((wa.setModule midx mcon).moduleContexts m).fixed = (wa.moduleContexts m).fixed := by
  unfold CtrDrvrWorkingArea.setModule
  dsimp only
  by_cases hm : m = midx
  · rw [hm, Function.update_self]
    exact hmcon
  · rw [Function.update_of_ne hm]

theorem connected_fixed {midx : Fin ctrDrvrModuleContexts} {result : CtrDrvrModuleContext × ℕ}
    (hresult : result.1.fixed = (wa.moduleContexts midx).fixed) (m : Fin ctrDrvrModuleContexts) :
    ((connected wa midx result).1.moduleContexts m).fixed = (wa.moduleContexts m).fixed := by
  unfold connected
  split
  · exact setModule_fixed hresult m
  · refine setModule_fixed ?_ m
    exact hresult

theorem connect_fixed (m : Fin ctrDrvrModuleContexts) :
    ((connect wa client conx).1.moduleContexts m).fixed = (wa.moduleContexts m).fixed := by
  unfold connect
  dsimp only
  split
  · split
    · exact connected_fixed connectPtim_fixed m
    · rfl
  · split
    · refine setModule_fixed ?_ m
      exact connectCtim_fixed wa
    · exact setModule_fixed (connectCtim_fixed wa) m
  · exact connected_fixed connectHard_fixed m
  · exact connected_fixed connectHard_fixed m

theorem connect_modules : (connect wa client conx).1.modules = wa.modules := by
  rw [connect_frame]

theorem connect_clientContexts (client' : Fin ctrDrvrClientContexts) :
    (connect wa client conx).1.clientContexts client' = wa.clientContexts client' := by
  rw [connect_frame]

/-- The module of a client is still there. -/
theorem connect_clientModule (client' : Fin ctrDrvrClientContexts) :
    ((connect wa client conx).1.moduleContexts ((connect wa client conx).1.clientContexts client').moduleIndex).inUse =
      (wa.moduleContexts (wa.clientContexts client').moduleIndex).inUse := by
  rw [connect_clientContexts]
  exact congrArg Prod.snd (connect_fixed _)

/-- The first instance of a CTIM object on a module with free slots only. -/
theorem connect_ctim_first (client : Fin ctrDrvrClientContexts) {frame : CtrDrvrEventFrame}
    {m : Fin ctrDrvrModuleContexts} (hmodule : conx.module = m + 1) (hclass : conx.eqpClass = .ctim)
    (hfree : ∀ i, wa.slot m i = freeSlot) (hframe : ctimFrame wa conx.eqpNum = some frame) :
    ∃ msk, connect wa client conx =
      (wa.setModule m (enableInterrupts (newCtim client conx.eqpNum frame (wa.moduleContexts m) 0) msk), .ok) := by
  have hslots : ∀ i, (wa.moduleContexts m).slots i = freeSlot := hfree
  have hnew : connectCtim wa client conx (wa.moduleContexts m) =
      (newCtim client conx.eqpNum frame (wa.moduleContexts m) 0, .ok) := by
    refine connectCtim_new (fun j => ?_) hframe (by rw [hslots]; rfl) fun j hj => absurd hj (Nat.not_lt_zero _)
    rw [hslots, ← Bool.not_eq_true, matches_iff, hclass]
    rintro ⟨-, hhard⟩
    cases hhard
  unfold connect
  rw [hclass, connectModule_named hmodule]
  dsimp only
  rw [hnew]
  exact ⟨_, rfl⟩

theorem connect_ctim_first_sources {frame : CtrDrvrEventFrame} {m : Fin ctrDrvrModuleContexts}
    (hmodule : conx.module = m + 1) (hclass : conx.eqpClass = .ctim) (hfree : ∀ i, wa.slot m i = freeSlot)
    (hframe : ctimFrame wa conx.eqpNum = some frame) (m' : Fin ctrDrvrModuleContexts) :
    ((connect wa client conx).1.moduleContexts m').hardClients = (wa.moduleContexts m').hardClients := by
  obtain ⟨msk, hconnect⟩ := connect_ctim_first client hmodule hclass hfree hframe
  rw [hconnect]
  unfold CtrDrvrWorkingArea.setModule
  dsimp only
  by_cases hm : m' = m
  · rw [hm, Function.update_self]
    rfl
  · rw [Function.update_of_ne hm]

theorem connect_ctim_first_slot {frame : CtrDrvrEventFrame} {m : Fin ctrDrvrModuleContexts}
    (hmodule : conx.module = m + 1) (hclass : conx.eqpClass = .ctim) (hfree : ∀ i, wa.slot m i = freeSlot)
    (hframe : ctimFrame wa conx.eqpNum = some frame) (m' : Fin ctrDrvrModuleContexts) (i : Fin ctrDrvrRamTableSize) :
    (connect wa client conx).1.slot m' i =
      if m' = m then (if i = 0 then ⟨clientMask client, ⟨conx.eqpNum, frame, 0⟩, conx.eqpNum, .ctim⟩ else freeSlot)
      else wa.slot m' i := by
  obtain ⟨msk, hconnect⟩ := connect_ctim_first client hmodule hclass hfree hframe
  have hslots : ∀ i, (wa.moduleContexts m).slots i = freeSlot := hfree
  rw [hconnect, setModule_slot, enableInterrupts_slots, newCtim_slots, hslots, hslots]
  congr 2
  simp [joinedSlot, freeSlot]

theorem Allocated.connectCtim (h : Allocated wa) (client : Fin ctrDrvrClientContexts) (hclass : conx.eqpClass = .ctim)
    (midx : Fin ctrDrvrModuleContexts) :
    Allocated (wa.setModule midx (connectCtim wa client conx (wa.moduleContexts midx)).1) := by
  unfold Ctr.connectCtim
  cases hexisting : firstPlace fun i => ((wa.moduleContexts midx).slots i).matches conx with
  | some i₀ =>
    have hused : (wa.slot midx i₀).eqpNum ≠ 0 :=
      h.matches_used (by rw [hclass]; decide) (firstPlace_eq_some.mp hexisting).1
    exact h.module (h.joinedAt hused)
  | none =>
    have hnone := firstPlace_eq_none.mp hexisting
    cases hframe : ctimFrame wa conx.eqpNum with
    | none => exact h.module (h.keptRefl midx)
    | some frame =>
      cases hempty : firstPlace fun i => ((wa.moduleContexts midx).slots i).eqpNum == 0 with
      | none => exact h.module (h.keptRefl midx)
      | some i₀ =>
        obtain ⟨object, hobject, hnum⟩ := ctimFrame_number hframe
        have hfree : (wa.slot midx i₀).eqpNum = 0 := beq_iff_eq.mp (firstPlace_eq_some.mp hempty).1
        have hslot : ∀ m i, (wa.setModule midx (newCtim client conx.eqpNum frame (wa.moduleContexts midx) i₀)).slot m
          i =
            if m = midx ∧ i = i₀ then
              joinedSlot client { wa.slot midx i₀ with
                eqpNum := conx.eqpNum, eqpClass := .ctim, trig := ⟨conx.eqpNum, frame, 0⟩ }
            else wa.slot m i := by
          intro m i
          rw [setModule_slot]
          by_cases hm : m = midx
          · rw [if_pos hm, hm, newCtim_slots]
            by_cases hi : i = i₀
            · rw [if_pos hi, if_pos ⟨rfl, hi⟩]
              rfl
            · rw [if_neg hi, if_neg fun hat => hi hat.2]
              rfl
          · rw [if_neg hm, if_neg fun hat => hm hat.1]
        have hat := hslot midx i₀
        rw [if_pos ⟨rfl, rfl⟩] at hat
        refine h.newInstance hfree ?_ ?_ (fun i hctim heq => ?_) (fun m i hne => ?_) rfl rfl rfl
        · rw [hat]
          exact hnum ▸ h.ctimNumber object hobject
        · rw [hat]
          rfl
        · rw [hat] at heq
          have hmatch : (wa.slot midx i).matches conx = true := matches_iff.mpr ⟨heq.symm, hclass.trans hctim.symm⟩
          rw [show (wa.slot midx i).matches conx = false from hnone i] at hmatch
          cases hmatch
        · rw [hslot, if_neg hne]

theorem Allocated.connect (h : Allocated wa) (client : Fin ctrDrvrClientContexts) (conx : CtrDrvrConnection) :
    Allocated (connect wa client conx).1 := by
  unfold Ctr.connect
  dsimp only
  cases hclass : conx.eqpClass with
  | ptim =>
    dsimp only
    split
    · refine h.connected fun i => ?_
      rw [connectPtim_slots]
      split
      · rename_i hmatch
        exact joinedSlot_kept (h.matches_used (by rw [hclass]; decide) hmatch)
      · exact h.keptRefl _ i
    · exact h
  | ctim =>
    have hmodule := h.connectCtim client hclass (connectModule wa client conx)
    dsimp only
    split
    · exact hmodule.enabled
    · exact hmodule
  | hard =>
    refine h.connected fun i => ?_
    rw [connectHard_slots]
    exact h.keptRefl _ i
  | other value =>
    refine h.connected fun i => ?_
    rw [connectHard_slots]
    exact h.keptRefl _ i

theorem disConnect_named (wa : CtrDrvrWorkingArea) (client : Fin ctrDrvrClientContexts) (m : Fin ctrDrvrModuleContexts)
    (hmodule : conx.module = m + 1) : disConnect beyond wa client conx =
      wa.setModule m (disConnectFrom (beyond m) client conx (wa.moduleContexts m)) := by
  have hm := m.isLt
  have hin : conx.module - 1 < ctrDrvrModuleContexts ∧ conx.module ≠ 0 := by omega
  have hmidx : (⟨conx.module - 1, hin.1⟩ : Fin ctrDrvrModuleContexts) = m := Fin.ext (by simp [hmodule])
  unfold Ctr.disConnect
  rw [dif_pos hin, hmidx]

/-- The module that the call names behind it. -/
theorem control_disConnect (wa : CtrDrvrWorkingArea) (client : Fin ctrDrvrClientContexts)
    (midx m : Fin ctrDrvrModuleContexts) (hmodule : conx.module = m + 1) (hnum : conx.eqpNum ≠ 0) :
    (control beyond wa client midx (.disConnect conx)).1.moduleContexts m =
      disConnectFrom (beyond m) client conx (wa.moduleContexts m) := by
  unfold Ctr.control
  dsimp only
  rw [if_pos hnum, disConnect_named wa client m hmodule]
  unfold CtrDrvrWorkingArea.setModule
  dsimp only
  rw [Function.update_self]

theorem Allocated.disConnect (h : Allocated wa) (client : Fin ctrDrvrClientContexts) (conx : CtrDrvrConnection) :
    Allocated (disConnect beyond wa client conx) := by
  unfold Ctr.disConnect
  split
  · refine h.module fun i => ?_
    rw [disConnectFrom_slots]
    split
    · exact leftSlot_kept client (h.clients_free _ i)
    · exact h.keptRefl _ i
  · exact h

theorem Allocated.disConnectAll (h : Allocated wa) (client : Fin ctrDrvrClientContexts) :
    Allocated (disConnectAll beyond wa client) := by
  refine h.kept (fun m i => ?_) rfl rfl h.ctimNumber
  unfold CtrDrvrWorkingArea.slot Ctr.disConnectAll
  dsimp only
  split
  · rw [disConnectModule_slots]
    split
    · exact leftSlot_kept client (h.clients_free m i)
    · exact h.keptRefl m i
  · exact h.keptRefl m i

/-! ### Objects -/

/-- The slots stay, and the tables of the PTIM objects. -/
theorem Allocated.sameSlots {wa' : CtrDrvrWorkingArea} (h : Allocated wa) (hslots : ∀ m i, wa'.slot m i = wa.slot m i)
    (hptim : wa'.ptim = wa.ptim) (hmodules : wa'.modules = wa.modules)
    (hctim : ∀ object ∈ wa'.ctim, object.eqpNum ≠ 0) : Allocated wa' := by
  refine h.kept (fun m i => ?_) hptim hmodules hctim
  rw [hslots]
  exact h.keptRefl m i

theorem Allocated.setAction (h : Allocated wa) (midx : Fin ctrDrvrModuleContexts) (act : CtrDrvrAction) :
    Allocated (setAction wa midx act).1 := by
  unfold Ctr.setAction
  split
  · rename_i hnumber
    dsimp only
    have hslot : ∀ i, ((wa.moduleContexts midx).slots i) = wa.slot midx i := fun i => rfl
    rw [hslot]
    generalize (⟨act.triggerNumber - 1, hnumber.1⟩ : Fin ctrDrvrRamTableSize) = i₀
    by_cases hhard : (wa.slot midx i₀).eqpClass = .hard
    · rw [if_pos hhard]
      exact h
    · have hused : (wa.slot midx i₀).eqpNum ≠ 0 := fun hzero => hhard (h.free midx i₀ hzero).1
      rw [if_neg hhard, if_pos hused]
      split
      · rename_i hsame
        refine h.module fun i => ?_
        unfold CtrDrvrModuleContext.setSlot
        dsimp only
        by_cases hi : i = i₀
        · rw [hi, Function.update_self]
          exact .same rfl rfl hsame.2.2.symm fun hzero => absurd hzero hused
        · rw [Function.update_of_ne hi]
          exact h.keptRefl midx i
      · exact h
  · exact h

theorem changeFrame_numbers (ctim : CtrDrvrCtimBinding) (objects : List CtrDrvrCtimBinding) :
    (changeFrame ctim objects).map CtrDrvrCtimBinding.eqpNum = objects.map CtrDrvrCtimBinding.eqpNum := by
  induction objects with
  | nil => rfl
  | cons object objects ih =>
    unfold changeFrame
    split
    · rfl
    · rw [List.map_cons, List.map_cons, ih]

theorem Allocated.createCtim (h : Allocated wa) {ctim : CtrDrvrCtimBinding} (hnum : ctim.eqpNum ≠ 0) :
    Allocated (createCtimObject wa ctim).1 := by
  unfold createCtimObject
  split
  · exact h
  · split
    · refine h.sameSlots (fun _ _ => rfl) rfl rfl fun object hobject => ?_
      obtain hold | hnew := List.mem_append.mp hobject
      · exact h.ctimNumber object hold
      · obtain rfl := List.mem_singleton.mp hnew
        exact hnum
    · exact h

theorem Allocated.destroyCtim (h : Allocated wa) (midx : Fin ctrDrvrModuleContexts) (ctim : CtrDrvrCtimBinding) :
    Allocated (destroyCtimObject wa midx ctim).1 := by
  unfold destroyCtimObject
  split
  · split
    · exact h
    · exact h.sameSlots (fun _ _ => rfl) rfl rfl fun object hobject => h.ctimNumber object (mem_of_mem_moveLast hobject)
  · exact h

theorem Allocated.changeCtim (h : Allocated wa) (midx : Fin ctrDrvrModuleContexts) (ctim : CtrDrvrCtimBinding) :
    Allocated (changeCtimFrame wa midx ctim).1 := by
  unfold changeCtimFrame
  split
  · split
    · exact h
    · refine h.sameSlots (fun _ _ => rfl) rfl rfl fun object hobject => ?_
      have hmem := List.mem_map_of_mem (f := CtrDrvrCtimBinding.eqpNum) hobject
      dsimp only at hmem
      rw [changeFrame_numbers] at hmem
      obtain ⟨old, hold, hnum⟩ := List.mem_map.mp hmem
      rw [← hnum]
      exact h.ctimNumber old hold
  · exact h

theorem Allocated.createPtim (h : Allocated wa) {ptim : CtrDrvrPtimBinding} (hnum : ptim.eqpNum ≠ 0) :
    Allocated (createPtimObject wa ptim).1 := by
  unfold createPtimObject
  by_cases hdefined : (wa.ptim.any fun object => ptim.eqpNum == object.eqpNum) = true
  · rw [if_pos hdefined]
    exact h
  rw [if_neg hdefined]
  split
  · exact h
  split
  · rename_i hmodule
    dsimp only
    split
    · rename_i start hsearch
      obtain ⟨hfit, hfree⟩ := searchSlots_finds hsearch
      have hnew : ∀ other ∈ wa.ptim, other.eqpNum ≠ ptim.eqpNum := by
        intro other hother heq
        refine hdefined (List.any_eq_true.mpr ⟨other, hother, ?_⟩)
        rw [heq]
        exact beq_self_eq_true _
      have howns : ∀ m i, CtrDrvrPtimBinding.Owns { ptim with startIndex := start } m i ↔
          m = ⟨ptim.moduleIndex, hmodule.trans_le wa.modules_le⟩ ∧ start ≤ (i : ℕ) ∧ (i : ℕ) < start + ptim.size := by
        intro m i
        refine and_congr_left fun _ => ⟨fun heq => Fin.ext heq.symm, ?_⟩
        rintro rfl
        rfl
      refine h.claimed { ptim with startIndex := start } hnum hmodule hfit hnew (fun m i hrun => ?_)
        (fun m i hrun => ?_) (fun m i hrun => ?_) rfl rfl rfl
      · obtain ⟨rfl, hlow, hhigh⟩ := (howns m i).mp hrun
        exact hfree i hlow hhigh
      · obtain ⟨rfl, hrange⟩ := (howns m i).mp hrun
        have hslot := setModule_slot wa ⟨ptim.moduleIndex, hmodule.trans_le wa.modules_le⟩
          ⟨ptim.moduleIndex, hmodule.trans_le wa.modules_le⟩
          (claimSlots ptim start (wa.moduleContexts ⟨ptim.moduleIndex, hmodule.trans_le wa.modules_le⟩)) i
        rw [if_pos rfl] at hslot
        unfold claimSlots at hslot
        dsimp only at hslot
        rw [if_pos hrange] at hslot
        exact ⟨congrArg TrigSlot.eqpNum hslot, congrArg TrigSlot.eqpClass hslot,
          congrArg (fun slot => slot.trig.counter) hslot⟩
      · rw [howns] at hrun
        have hslot := setModule_slot wa ⟨ptim.moduleIndex, hmodule.trans_le wa.modules_le⟩ m
          (claimSlots ptim start (wa.moduleContexts ⟨ptim.moduleIndex, hmodule.trans_le wa.modules_le⟩)) i
        refine Eq.trans hslot ?_
        by_cases hm : m = ⟨ptim.moduleIndex, hmodule.trans_le wa.modules_le⟩
        · rw [if_pos hm]
          unfold claimSlots
          dsimp only
          rw [if_neg fun hrange => hrun ⟨hm, hrange⟩, ← hm]
          rfl
        · rw [if_neg hm]
    · exact h
  · exact h

theorem Allocated.destroyPtimOn (h : Allocated wa) (midx : Fin ctrDrvrModuleContexts) (ptim : CtrDrvrPtimBinding) :
    Allocated (destroyPtimOn wa midx ptim).1 := by
  rw [Ctr.destroyPtimOn]
  by_cases hbusy : ptimBusy (wa.moduleContexts midx) ptim.eqpNum
  · rw [if_pos hbusy]
    exact h
  rw [if_neg hbusy]
  split
  · rename_i hused
    have hidle : ∀ i, (wa.slot midx i).isPtim ptim.eqpNum = true → (wa.slot midx i).clients = 0 := by
      intro i hi
      by_contra hne
      exact hbusy ⟨i, hi, hne⟩
    have hslot := setModule_slot wa midx
    refine h.released midx ptim.eqpNum hidle hused (fun i hi => ?_) (fun m i hi => ?_) rfl rfl rfl
    · have hptim : ((wa.moduleContexts midx).slots i).isPtim ptim.eqpNum = true := hi
      have hat := hslot midx (releaseSlots ptim.eqpNum (wa.moduleContexts midx)) i
      rw [if_pos rfl] at hat
      unfold releaseSlots at hat
      dsimp only at hat
      rw [if_pos hptim] at hat
      have hclients := congrArg TrigSlot.clients hat
      exact ⟨congrArg TrigSlot.eqpNum hat, congrArg TrigSlot.eqpClass hat, hclients⟩
    · refine Eq.trans (hslot m (releaseSlots ptim.eqpNum (wa.moduleContexts midx)) i) ?_
      by_cases hm : m = midx
      · have hptim : ¬((wa.moduleContexts midx).slots i).isPtim ptim.eqpNum = true := fun hptim => hi ⟨hm, hptim⟩
        rw [if_pos hm, hm]
        unfold releaseSlots
        dsimp only
        rw [if_neg hptim]
        rfl
      · rw [if_neg hm]
  · exact h

theorem Allocated.destroyPtim (h : Allocated wa) (ptim : CtrDrvrPtimBinding) :
    Allocated (destroyPtimObject wa ptim).1 := by
  unfold destroyPtimObject
  split
  · exact h.destroyPtimOn _ ptim
  · exact h

/-! ## Runs -/

/-- The numbers of new objects are not 0, which marks a free slot. -/
def Numbered (_ : CtrDrvrWorkingArea) (step : CtrStep) : Prop :=
  match step.call with
  | .ioctl (.createCtim ctim) => ctim.eqpNum ≠ 0
  | .ioctl (.createPtim ptim) => ptim.eqpNum ≠ 0
  | _ => True

theorem Allocated.control (h : Allocated wa) {midx : Fin ctrDrvrModuleContexts} {cm : CtrControl}
    (hok : Numbered wa ⟨client, .ioctl cm, beyond⟩) : Allocated (control beyond wa client midx cm).1 := by
  cases cm with
  | setModule lav =>
    unfold Ctr.control selectModule
    dsimp only
    split
    · refine h.sameSlots (fun m i => ?_) rfl rfl h.ctimNumber
      refine Eq.trans (setModule_slot wa _ m _ i) ?_
      split
      · rename_i hm
        rw [hm]
        rfl
      · rfl
    · exact h
  | connect conx => exact h.connect client conx
  | disConnect conx =>
    unfold Ctr.control
    dsimp only
    split
    · exact h.disConnect client conx
    · exact h.disConnectAll client
  | setAction act => exact h.setAction midx act
  | createCtim ctim => exact h.createCtim hok
  | destroyCtim ctim => exact h.destroyCtim midx ctim
  | changeCtim ctim => exact h.changeCtim midx ctim
  | createPtim ptim => exact h.createPtim hok
  | destroyPtim ptim => exact h.destroyPtim ptim

theorem Allocated.call (h : Allocated wa) {step : CtrStep} (hok : Numbered wa step) :
    Allocated (ctrCall wa step).1 := by
  obtain ⟨client, call, beyond⟩ := step
  unfold ctrCall
  cases call with
  | opens =>
    dsimp only
    unfold ctrDrvrOpen
    split
    · exact h
    · exact h.sameSlots (fun _ _ => rfl) rfl rfl h.ctimNumber
  | closes =>
    dsimp only
    unfold ctrDrvrClose
    dsimp only
    split
    · exact h
    · refine Allocated.disConnectAll ?_ client
      exact h.sameSlots (fun _ _ => rfl) rfl rfl h.ctimNumber
  | ioctl cm =>
    dsimp only
    unfold ctrDrvrIoctl
    dsimp only
    split
    · exact h
    · split
      · exact h
      · exact h.control hok

/-! ### Failures -/

/-- The calls that make objects, or instances of CTIM objects. -/
def Creates : CtrControl → Prop
  | .connect _ | .createCtim _ | .createPtim _ => True
  | _ => False

theorem connected_failed {midx : Fin ctrDrvrModuleContexts} {result : CtrDrvrModuleContext × ℕ}
    (hsame : result.2 = 0 → result.1.slots = (wa.moduleContexts midx).slots)
    (hfail : (connected wa midx result).2 ≠ .ok) (m : Fin ctrDrvrModuleContexts) (i : Fin ctrDrvrRamTableSize) :
    (connected wa midx result).1.slot m i = wa.slot m i := by
  unfold connected at hfail ⊢
  by_cases hcount : result.2 = 0
  · rw [if_pos hcount, setModule_slot, hsame hcount]
    split
    · rename_i hm
      rw [hm]
      rfl
    · rfl
  · rw [if_neg hcount] at hfail
    exact absurd rfl hfail

theorem connectCtim_failed {mcon : CtrDrvrModuleContext} {errno : CtrErrno}
    (hfail : (connectCtim wa client conx mcon).2 = .error errno) : (connectCtim wa client conx mcon).1 = mcon := by
  unfold connectCtim at hfail ⊢
  cases hexisting : firstPlace fun i => (mcon.slots i).matches conx with
  | some i =>
    rw [hexisting] at hfail
    cases hfail
  | none =>
    rw [hexisting] at hfail
    cases hframe : ctimFrame wa conx.eqpNum with
    | none => rfl
    | some frame =>
      cases hempty : firstPlace fun i => (mcon.slots i).eqpNum == 0 with
      | none => rfl
      | some i =>
        dsimp only at hfail
        rw [hframe, hempty] at hfail
        cases hfail

theorem setModule_self (m midx : Fin ctrDrvrModuleContexts) (i : Fin ctrDrvrRamTableSize) :
    (wa.setModule midx (wa.moduleContexts midx)).slot m i = wa.slot m i := by
  rw [setModule_slot]
  split
  · rename_i hm
    rw [hm]
    rfl
  · rfl

theorem connect_failed (hfail : (connect wa client conx).2 ≠ .ok) (m : Fin ctrDrvrModuleContexts)
    (i : Fin ctrDrvrRamTableSize) : (connect wa client conx).1.slot m i = wa.slot m i := by
  have hhard : ∀ midx, (connectHard client conx (wa.moduleContexts midx)).2 = 0 →
      (connectHard client conx (wa.moduleContexts midx)).1.slots = (wa.moduleContexts midx).slots :=
    fun midx _ => connectHard_slots
  unfold connect at hfail ⊢
  dsimp only at hfail ⊢
  cases hclass : conx.eqpClass with
  | ptim =>
    rw [hclass] at hfail
    dsimp only at hfail ⊢
    split
    · rename_i hnumber
      rw [dif_pos hnumber] at hfail
      refine connected_failed (fun hcount => ?_) hfail m i
      have hnone : ∀ j, ((wa.moduleContexts ⟨getPtimModule wa conx.eqpNum - 1, hnumber.1⟩).slots j).matches
        conx = false := by
        intro j
        by_contra hmatch
        exact connectPtim_count.mpr ⟨j, by simpa using hmatch⟩ hcount
      funext j
      rw [connectPtim_slots, hnone j, if_neg (by decide)]
    · rfl
  | ctim =>
    rw [hclass] at hfail
    dsimp only at hfail ⊢
    cases hreply : (connectCtim wa client conx (wa.moduleContexts (connectModule wa client conx))).2 with
    | ok =>
      rw [hreply] at hfail
      exact absurd rfl hfail
    | error errno =>
      dsimp only
      rw [connectCtim_failed hreply]
      exact setModule_self m _ i
  | hard =>
    rw [hclass] at hfail
    exact connected_failed (hhard _) hfail m i
  | other value =>
    rw [hclass] at hfail
    exact connected_failed (hhard _) hfail m i

theorem createCtim_failed {ctim : CtrDrvrCtimBinding} (hfail : (createCtimObject wa ctim).2 ≠ .ok) :
    (createCtimObject wa ctim).1 = wa := by
  unfold createCtimObject at hfail ⊢
  split
  · rfl
  · rename_i hnew
    rw [if_neg hnew] at hfail
    split
    · rename_i hroom
      rw [if_pos hroom] at hfail
      exact absurd rfl hfail
    · rfl

theorem createPtim_failed {ptim : CtrDrvrPtimBinding} (hfail : (createPtimObject wa ptim).2 ≠ .ok) :
    (createPtimObject wa ptim).1 = wa := by
  unfold createPtimObject at hfail ⊢
  by_cases hdefined : (wa.ptim.any fun object => ptim.eqpNum == object.eqpNum) = true
  · rw [if_pos hdefined]
  rw [if_neg hdefined] at hfail ⊢
  by_cases hfull : ctrDrvrPtimObjects ≤ wa.ptim.length
  · rw [if_pos hfull]
  rw [if_neg hfull] at hfail ⊢
  by_cases hmodule : ptim.moduleIndex < wa.modules
  · rw [dif_pos hmodule] at hfail ⊢
    dsimp only at hfail ⊢
    generalize searchSlots (wa.moduleContexts ⟨ptim.moduleIndex, hmodule.trans_le wa.modules_le⟩) ptim.size
      (List.finRange ctrDrvrRamTableSize) 0 0 = search at hfail
    cases search with
    | some start => exact absurd rfl hfail
    | none => rfl
  · rw [dif_neg hmodule]

/-- A call that makes something and fails leaves the slots as they are. -/
theorem creation_failed {cm : CtrControl} (hcm : Creates cm) (hfail : (ctrDrvrIoctl beyond wa client cm).2 ≠ .ok)
    (m : Fin ctrDrvrModuleContexts) (i : Fin ctrDrvrRamTableSize) :
    (ctrDrvrIoctl beyond wa client cm).1.slot m i = wa.slot m i := by
  unfold ctrDrvrIoctl at hfail ⊢
  dsimp only at hfail ⊢
  by_cases hopen : (wa.clientContexts client).inUse = false
  · rw [if_pos hopen]
  rw [if_neg hopen] at hfail ⊢
  by_cases hmodule : (wa.moduleContexts (wa.clientContexts client).moduleIndex).inUse = false
  · rw [if_pos hmodule]
  rw [if_neg hmodule] at hfail ⊢
  cases cm with
  | connect conx => exact connect_failed hfail m i
  | createCtim ctim =>
    have hsame : (createCtimObject wa ctim).1 = wa := createCtim_failed hfail
    unfold control
    dsimp only
    rw [hsame]
  | createPtim ptim =>
    have hsame : (createPtimObject wa ptim).1 = wa := createPtim_failed hfail
    unfold control
    dsimp only
    rw [hsame]
  | _ => exact absurd hcm id

theorem allocated_install (modules : ℕ) (hmodules : modules ≤ ctrDrvrModuleContexts) (found : ℕ → Bool) :
    Allocated (ctrDrvrInstall modules hmodules found) := by
  refine ⟨fun m i _ => ⟨rfl, rfl⟩, fun m i hocc => absurd rfl hocc, by simp [ctrDrvrInstall], fun m i j hi => ?_,
    List.nodup_nil, by simp [ctrDrvrInstall], fun m i eqpNum => ?_, by simp [ctrDrvrInstall]⟩
  · cases hi
  · constructor
    · intro hptim
      cases (isPtim_iff.mp hptim).2
    · rintro ⟨object, hobject, -⟩
      cases hobject

/-- In every state of a run the slots are allocated to the objects, and a call that makes something there and fails
changes no slot. -/
theorem allocated_reach (modules : ℕ) (hmodules : modules ≤ ctrDrvrModuleContexts) (found : ℕ → Bool)
    (s : CtrDrvrWorkingArea) (h : Reach ctrNext Numbered (ctrDrvrInstall modules hmodules found) s) :
    Allocated s ∧ ∀ beyond client cm, Creates cm → (ctrDrvrIoctl beyond s client cm).2 ≠ .ok →
      ∀ m i, (ctrDrvrIoctl beyond s client cm).1.slot m i = s.slot m i := by
  refine ⟨h.invariant (allocated_install modules hmodules found) ?_, fun beyond client cm hcm hfail =>
    creation_failed hcm hfail⟩
  intro s step s' hs hok hnext
  obtain rfl := ctrCall_of_next hnext
  exact hs.call hok

end Calls

section Example

/-- Client 0 opens module 0 and creates a PTIM object of three slots there. -/
def ptimRun : List CtrStep :=
  [⟨0, .opens, fun _ _ => 0⟩, ⟨0, .ioctl (.createPtim ⟨5, 0, 3, 3, 0⟩), fun _ _ => 0⟩]

theorem allocated_ptimRun : ∃ s, Reach ctrNext Numbered (ctrDrvrInstall 1 (by decide) fun _ => true) s ∧ Allocated s ∧
    (s.slot 0 2).isPtim 5 = true ∧ (s.slot 0 3).isPtim 5 = false := by
  have hrun : (ptimRun.foldlM ctrNext (ctrDrvrInstall 1 (by decide) fun _ => true)).map
      (fun s => ((s.slot 0 2).isPtim 5, (s.slot 0 3).isPtim 5)) = some (true, false) := by decide +kernel
  obtain ⟨s, hs, hval⟩ := Option.map_eq_some_iff.mp hrun
  have hreach : Reach ctrNext Numbered (ctrDrvrInstall 1 (by decide) fun _ => true) s := by
    refine Reach.of_foldlM .refl (fun step hstep _ => ?_) hs
    unfold ptimRun at hstep
    simp only [List.mem_cons, List.not_mem_nil, or_false] at hstep
    obtain rfl | rfl := hstep
    · trivial
    · show (5 : BitVec 32) ≠ 0
      decide
  rw [Prod.mk.injEq] at hval
  exact ⟨s, hreach, (allocated_reach 1 (by decide) _ s hreach).1, hval⟩

end Example

end HtDrivers.Ctr
