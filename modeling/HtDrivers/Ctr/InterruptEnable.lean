import HtDrivers.Ctr.Slots

/-! The interrupts that are enabled are those of the connections, as long as no call takes a client from a slot whose
number stands for a source that others use, or from one of two connections on a counter. -/
namespace HtDrivers.Ctr
open HtDrivers.Lib.Tables HtDrivers.Lib.Masks HtDrivers.Lib.Transition
set_option autoImplicit false

/-! ## Other clients -/

section Others
variable {beyond : ℕ → BitVec 32} {client : Fin ctrDrvrClientContexts} {clients : BitVec 32}

theorem otherClients_iff : otherClients client clients = true ↔ ∃ i : ℕ, clients.getLsbD i = true ∧ i ≠ client := by
  unfold otherClients clientMask
  rw [bne_iff_ne, and_not_twoPow_ne_zero_iff]

theorem otherClients_left : otherClients client (clients &&& ~~~clientMask client) = otherClients client clients := by
  unfold otherClients
  rw [BitVec.and_assoc, BitVec.and_self]

/-- The client is the only one. -/
def OnlyClient (client : Fin ctrDrvrClientContexts) (clients : BitVec 32) : Prop :=
  clients.getLsbD client = true ∧ otherClients client clients = false

theorem left_zero_iff : clients &&& ~~~clientMask client = 0 ↔ otherClients client clients = false := by
  unfold otherClients
  simp

theorem left_ne_zero_iff : clients &&& ~~~clientMask client ≠ 0 ↔ otherClients client clients = true := by
  rw [ne_eq, left_zero_iff, Bool.not_eq_false]

/-- Apart from the connections of the client itself the modules are the same. -/
structure Thinned (client : Fin ctrDrvrClientContexts) (mcon s : CtrDrvrModuleContext) : Prop where
  trig : ∀ i, (s.slots i).trig = (mcon.slots i).trig
  slots : ∀ i, otherClients client (s.slots i).clients = otherClients client (mcon.slots i).clients
  sources : ∀ i, otherClients client (s.hardClients i) = otherClients client (mcon.hardClients i)

variable {mcon s : CtrDrvrModuleContext}

theorem Thinned.refl : Thinned client mcon mcon := ⟨fun _ => rfl, fun _ => rfl, fun _ => rfl⟩

theorem Thinned.hardClientsAt (h : Thinned client mcon s) (k : ℕ) :
    otherClients client (hardClientsAt beyond s k) = otherClients client (hardClientsAt beyond mcon k) := by
  unfold Ctr.hardClientsAt
  split
  · exact h.sources _
  · rfl

theorem Thinned.shared (h : Thinned client mcon s) (k : ℕ) :
    sharedCounter beyond client s k = sharedCounter beyond client mcon k := by
  have hslots : othersOnSlots client s k ↔ othersOnSlots client mcon k := by
    unfold othersOnSlots
    refine exists_congr fun i => ?_
    rw [h.trig i, h.slots i]
  unfold sharedCounter
  rw [h.hardClientsAt, decide_eq_decide.mpr hslots]

theorem Thinned.ofSlots (h : Thinned client mcon s) {s' : CtrDrvrModuleContext} {i : Fin ctrDrvrRamTableSize}
    {slot : TrigSlot} (hslots : s'.slots = Function.update s.slots i slot) (htrig : slot.trig = (s.slots i).trig)
    (hclients : otherClients client slot.clients = otherClients client (s.slots i).clients)
    (hhard : s'.hardClients = s.hardClients) : Thinned client mcon s' := by
  refine ⟨fun j => ?_, fun j => ?_, fun j => ?_⟩
  · rw [hslots]
    by_cases hj : j = i
    · rw [hj, Function.update_self, htrig]
      exact h.trig i
    · rw [Function.update_of_ne hj]
      exact h.trig j
  · rw [hslots]
    by_cases hj : j = i
    · rw [hj, Function.update_self, hclients]
      exact h.slots i
    · rw [Function.update_of_ne hj]
      exact h.slots j
  · rw [hhard]
    exact h.sources j

theorem Thinned.leaveSlot (h : Thinned client mcon s) (clss : CtrDrvrConnectionClass) (i : Fin ctrDrvrRamTableSize) :
    Thinned client mcon (leaveSlot beyond client clss s i) :=
  h.ofSlots (leaveSlot_slots i) leftSlot_trig (by rw [leftSlot_clients, otherClients_left]) (leaveSlot_hardClients i)

theorem Thinned.leaveSource (h : Thinned client mcon s) (i : Fin ctrDrvrInterruptSources) :
    Thinned client mcon (leaveSource beyond client s i) := by
  refine ⟨fun j => ?_, fun j => ?_, fun j => ?_⟩
  · rw [leaveSource_slots]
    exact h.trig j
  · rw [leaveSource_slots]
    exact h.slots j
  · rw [leaveSource_hardClients]
    by_cases hj : j = i
    · rw [hj, Function.update_self, otherClients_left]
      exact h.sources i
    · rw [Function.update_of_ne hj]
      exact h.sources j

end Others

/-! ## One visit -/

section Visits
variable {beyond : ℕ → BitVec 32} {client : Fin ctrDrvrClientContexts} {mcon s : CtrDrvrModuleContext}
  {clss : CtrDrvrConnectionClass}

/-- The end of the connection to slot `i` clears the bit of counter `b`. -/
def Clears (beyond : ℕ → BitVec 32) (client : Fin ctrDrvrClientContexts) (mcon : CtrDrvrModuleContext)
    (i : Fin ctrDrvrRamTableSize) (b : ℕ) : Prop :=
  OnlyClient client (mcon.slots i).clients ∧ (mcon.slots i).trig.counter = b ∧
    sharedCounter beyond client mcon b = false ∧ otherClients client (hardClientsAt beyond mcon i) = false

/-- The end of the connection to slot `i` reads past the end of `HardClients`. -/
def Strays (beyond : ℕ → BitVec 32) (client : Fin ctrDrvrClientContexts) (mcon : CtrDrvrModuleContext)
    (i : Fin ctrDrvrRamTableSize) : Prop :=
  OnlyClient client (mcon.slots i).clients ∧ (ctrDrvrInterruptSources ≤ (mcon.slots i).trig.counter ∨
    sharedCounter beyond client mcon (mcon.slots i).trig.counter = false ∧ ctrDrvrInterruptSources ≤ (i : ℕ))

/-- The end of the connection to a source clears the bit of source `b`. -/
def ClearsSource (beyond : ℕ → BitVec 32) (client : Fin ctrDrvrClientContexts) (mcon : CtrDrvrModuleContext)
    (i : Fin ctrDrvrInterruptSources) (b : ℕ) : Prop :=
  mcon.hardClients i ≠ 0 ∧ otherClients client (mcon.hardClients i) = false ∧ (i : ℕ) = b ∧
    ((i : ℕ) ≤ ctrDrvrCounters → sharedCounter beyond client mcon i = false)

theorem disableInterrupts_slot (beyond : ℕ → BitVec 32) (client : Fin ctrDrvrClientContexts) (s : CtrDrvrModuleContext)
    (hclss : clss ≠ .hard) (i : Fin ctrDrvrRamTableSize) (b : ℕ) :
    ((disableInterrupts beyond client clss s i).interruptEnable.getLsbD b = true ↔
      s.interruptEnable.getLsbD b = true ∧ ¬((s.slots i).trig.counter = b ∧ sharedCounter beyond client s b = false ∧
        otherClients client (hardClientsAt beyond s i) = false)) ∧
    ((disableInterrupts beyond client clss s i).pastEnd = true ↔ s.pastEnd = true ∨
      (ctrDrvrInterruptSources ≤ (s.slots i).trig.counter ∨
        sharedCounter beyond client s (s.slots i).trig.counter = false ∧ ctrDrvrInterruptSources ≤ (i : ℕ))) := by
  have hcntr : counterOf s clss i = some (s.slots i).trig.counter := if_pos hclss
  have hshared : ∀ past k, sharedCounter beyond client { s with pastEnd := past } k = sharedCounter beyond client s k :=
    fun _ _ => rfl
  have hat : ∀ past k, hardClientsAt beyond { s with pastEnd := past } k = hardClientsAt beyond s k := fun _ _ => rfl
  unfold disableInterrupts
  simp only [hcntr, Option.any_some, Option.getD_some, hshared, hat]
  generalize (s.slots i).trig.counter = k
  by_cases hk : sharedCounter beyond client s k = true
  · rw [if_pos hk]
    constructor
    · refine ⟨fun hbit => ⟨hbit, ?_⟩, fun h => h.1⟩
      rintro ⟨rfl, hnone, -⟩
      rw [hk] at hnone
      cases hnone
    · simp [hk]
  · rw [if_neg hk]
    rw [Bool.not_eq_true] at hk
    by_cases hother : otherClients client (hardClientsAt beyond s i) = true
    · rw [if_pos hother]
      exact ⟨by simp [hother], by simp [hk, or_assoc]⟩
    · rw [if_neg hother]
      rw [Bool.not_eq_true] at hother
      constructor
      · rw [and_not_twoPow_bit]
        refine and_congr_right fun _ => ?_
        constructor
        · rintro hne ⟨rfl, -⟩
          exact hne rfl
        · rintro hnot rfl
          exact hnot ⟨rfl, hk, hother⟩
      · simp [hk, or_assoc]

theorem Clears.thinned (h : Thinned client mcon s) {i : Fin ctrDrvrRamTableSize}
    (hslot : s.slots i = mcon.slots i) (b : ℕ) : Clears beyond client s i b ↔ Clears beyond client mcon i b := by
  unfold Clears
  rw [hslot, h.shared, h.hardClientsAt]

theorem Strays.thinned (h : Thinned client mcon s) {i : Fin ctrDrvrRamTableSize} (hslot : s.slots i = mcon.slots i) :
    Strays beyond client s i ↔ Strays beyond client mcon i := by
  unfold Strays
  rw [hslot, h.shared]

/-- What `DisConnectOne` does to the interrupts at a slot. -/
theorem leaveSlot_enabled (hclss : clss ≠ .hard) (i : Fin ctrDrvrRamTableSize) (b : ℕ) :
    ((leaveSlot beyond client clss s i).interruptEnable.getLsbD b = true ↔
      s.interruptEnable.getLsbD b = true ∧ ¬Clears beyond client s i b) ∧
    ((leaveSlot beyond client clss s i).pastEnd = true ↔ s.pastEnd = true ∨ Strays beyond client s i) := by
  unfold leaveSlot Clears Strays OnlyClient
  dsimp only
  by_cases hin : (s.slots i).clients.getLsbD client = true
  · rw [if_pos hin]
    by_cases hlast : (s.slots i).clients &&& ~~~clientMask client = 0
    · rw [if_pos hlast]
      have hnone := left_zero_iff.mp hlast
      have hthin : Thinned client s
        (s.setSlot i { s.slots i with clients := (s.slots i).clients &&& ~~~clientMask client }) :=
        Thinned.refl.ofSlots rfl rfl otherClients_left rfl
      obtain ⟨henable, hpast⟩ := disableInterrupts_slot beyond client (s.setSlot i
        { s.slots i with clients := (s.slots i).clients &&& ~~~clientMask client }) hclss i b
      have hcounter : ((s.setSlot i { s.slots i with
          clients := (s.slots i).clients &&& ~~~clientMask client }).slots i).trig.counter =
          (s.slots i).trig.counter := by
        rw [hthin.trig i]
      rw [hcounter, hthin.shared, hthin.hardClientsAt] at henable
      rw [hcounter, hthin.shared] at hpast
      have hsame : ∀ (mcon : CtrDrvrModuleContext) (slot : TrigSlot),
          (if (s.slots i).eqpClass = .ctim then mcon.setSlot i slot else mcon).interruptEnable = mcon.interruptEnable ∧
            (if (s.slots i).eqpClass = .ctim then mcon.setSlot i slot else mcon).pastEnd = mcon.pastEnd := by
        intro mcon slot
        split
        · exact ⟨rfl, rfl⟩
        · exact ⟨rfl, rfl⟩
      rw [(hsame _ _).1, (hsame _ _).2, henable, hpast]
      exact ⟨by simp [hin, hnone, CtrDrvrModuleContext.setSlot], by simp [hin, hnone, CtrDrvrModuleContext.setSlot]⟩
    · rw [if_neg hlast]
      have hother := left_ne_zero_iff.mp hlast
      exact ⟨by simp [hother, CtrDrvrModuleContext.setSlot], by simp [hother, CtrDrvrModuleContext.setSlot]⟩
  · rw [if_neg hin]
    exact ⟨by simp [hin], by simp [hin]⟩

theorem disableInterrupts_source (beyond : ℕ → BitVec 32) (client : Fin ctrDrvrClientContexts)
    (s : CtrDrvrModuleContext) (i : Fin ctrDrvrInterruptSources) (b : ℕ) :
    ((disableInterrupts beyond client .hard s (i.castLE (by decide))).interruptEnable.getLsbD b = true ↔
      s.interruptEnable.getLsbD b = true ∧ ¬((i : ℕ) = b ∧
        ((i : ℕ) ≤ ctrDrvrCounters → sharedCounter beyond client s i = false) ∧
        otherClients client (s.hardClients i) = false)) ∧
    (disableInterrupts beyond client .hard s (i.castLE (by decide))).pastEnd = s.pastEnd := by
  generalize htndx : (i.castLE (by decide) : Fin ctrDrvrRamTableSize) = tndx
  have hval : (tndx : ℕ) = i := by rw [← htndx]; rfl
  have hlt : ¬ctrDrvrInterruptSources ≤ (tndx : ℕ) := by
    rw [hval]
    exact Nat.not_le_of_lt i.isLt
  have hat : ∀ past, hardClientsAt beyond { s with pastEnd := past } tndx = s.hardClients i := by
    intro past
    unfold hardClientsAt
    rw [dif_pos (Nat.lt_of_not_le hlt)]
    exact congrArg s.hardClients (Fin.ext hval)
  have hcntr : counterOf s .hard tndx = if (i : ℕ) ≤ ctrDrvrCounters then some (i : ℕ) else none := by
    unfold counterOf
    rw [if_neg (by decide), hval]
  unfold disableInterrupts
  simp only [hcntr, hat, hlt, decide_false, Bool.or_false]
  have hbit : ∀ m : BitVec 32, (m &&& ~~~BitVec.twoPow 32 i).getLsbD b = true ↔ m.getLsbD b = true ∧ ¬(i : ℕ) = b := by
    intro m
    rw [and_not_twoPow_bit, ne_comm]
  by_cases hcounter : (i : ℕ) ≤ ctrDrvrCounters
  · rw [if_pos hcounter]
    have hsource : ¬ctrDrvrInterruptSources ≤ (i : ℕ) := Nat.not_le_of_lt i.isLt
    simp only [Option.any_some, Option.getD_some, hsource, decide_false, Bool.or_false]
    by_cases hk : sharedCounter beyond client s i = true
    · rw [if_pos hk]
      exact ⟨by simp [hk, hcounter], rfl⟩
    · rw [if_neg hk]
      rw [Bool.not_eq_true] at hk
      split
      · rename_i hother
        exact ⟨by simp [hother], rfl⟩
      · rename_i hother
        rw [Bool.not_eq_true] at hother
        refine ⟨?_, rfl⟩
        rw [hbit]
        simp [hk, hother]
  · rw [if_neg hcounter]
    simp only [Option.any_none, Option.getD_none, Bool.or_false, hval, Bool.false_eq_true, if_false]
    split
    · rename_i hother
      exact ⟨by simp [hother], rfl⟩
    · rename_i hother
      rw [Bool.not_eq_true] at hother
      refine ⟨?_, rfl⟩
      rw [hbit]
      simp [hcounter, hother]

/-- What `DisConnectOne` does to the interrupts at a source. -/
theorem leaveSource_enabled (i : Fin ctrDrvrInterruptSources) (b : ℕ) :
    ((leaveSource beyond client s i).interruptEnable.getLsbD b = true ↔
      s.interruptEnable.getLsbD b = true ∧ ¬ClearsSource beyond client s i b) ∧
    (leaveSource beyond client s i).pastEnd = s.pastEnd := by
  unfold leaveSource ClearsSource
  dsimp only
  by_cases hnone : s.hardClients i = 0
  · rw [if_neg (not_not.mpr hnone)]
    exact ⟨by simp [hnone], rfl⟩
  · rw [if_pos hnone]
    by_cases hlast : s.hardClients i &&& ~~~clientMask client = 0
    · rw [if_pos hlast]
      have hother := left_zero_iff.mp hlast
      have hthin : Thinned client s (s.setHardClients i (s.hardClients i &&& ~~~clientMask client)) := by
        refine ⟨fun _ => rfl, fun _ => rfl, fun j => ?_⟩
        unfold CtrDrvrModuleContext.setHardClients
        dsimp only
        by_cases hj : j = i
        · rw [hj, Function.update_self, otherClients_left]
        · rw [Function.update_of_ne hj]
      obtain ⟨henable, hpast⟩ := disableInterrupts_source beyond client
        (s.setHardClients i (s.hardClients i &&& ~~~clientMask client)) i b
      rw [hthin.shared, hthin.sources i] at henable
      rw [henable, hpast]
      refine ⟨and_congr_right fun _ => not_congr ?_, rfl⟩
      constructor
      · rintro ⟨hib, hshared, -⟩
        exact ⟨hnone, hother, hib, hshared⟩
      · rintro ⟨-, -, hib, hshared⟩
        exact ⟨hib, hshared, hother⟩
    · rw [if_neg hlast]
      have hother := left_ne_zero_iff.mp hlast
      exact ⟨by simp [hother, CtrDrvrModuleContext.setHardClients], rfl⟩

end Visits

/-! ## The loops -/

section Loops
variable {beyond : ℕ → BitVec 32} {client : Fin ctrDrvrClientContexts} {mcon : CtrDrvrModuleContext}

/-- In a loop over the slots those that are still to come are as they were. -/
structure Untouched (client : Fin ctrDrvrClientContexts) (mcon : CtrDrvrModuleContext) (k : ℕ)
    (s : CtrDrvrModuleContext) : Prop where
  thin : Thinned client mcon s
  sources : s.hardClients = mcon.hardClients
  slots : ∀ j : Fin ctrDrvrRamTableSize, k ≤ (j : ℕ) → s.slots j = mcon.slots j

/-- A loop that takes the client from the slots that satisfy `p`. -/
theorem slotLoop_enabled {body : CtrDrvrModuleContext → Fin ctrDrvrRamTableSize → CtrDrvrModuleContext}
    {p : TrigSlot → Prop}
    (hleave : ∀ s i, s.slots i = mcon.slots i → p (mcon.slots i) →
      ∃ clss, clss ≠ .hard ∧ body s i = leaveSlot beyond client clss s i)
    (hstay : ∀ s i, s.slots i = mcon.slots i → ¬p (mcon.slots i) → body s i = s) :
    Thinned client mcon (forEach body mcon) ∧ (forEach body mcon).hardClients = mcon.hardClients ∧
      (∀ b, (forEach body mcon).interruptEnable.getLsbD b = true ↔
        mcon.interruptEnable.getLsbD b = true ∧ ¬∃ i, p (mcon.slots i) ∧ Clears beyond client mcon i b) ∧
      ((forEach body mcon).pastEnd = true ↔
        mcon.pastEnd = true ∨ ∃ i, p (mcon.slots i) ∧ Strays beyond client mcon i) := by
  have hthin : ∀ (i : Fin ctrDrvrRamTableSize) s, Untouched client mcon i s →
    Untouched client mcon (i + 1) (body s i) := by
    rintro i s ⟨hthin, hhard, hslots⟩
    have hi := hslots i (Nat.le_refl _)
    by_cases hp : p (mcon.slots i)
    · obtain ⟨clss, -, hbody⟩ := hleave s i hi hp
      rw [hbody]
      refine ⟨hthin.leaveSlot clss i, (leaveSlot_hardClients i).trans hhard, fun j hj => ?_⟩
      have hne : j ≠ i := by
        rintro rfl
        omega
      rw [leaveSlot_slots, Function.update_of_ne hne]
      exact hslots j (by omega)
    · rw [hstay s i hi hp]
      exact ⟨hthin, hhard, fun j hj => hslots j (by omega)⟩
  have hstart : Untouched client mcon 0 mcon := ⟨.refl, rfl, fun _ _ => rfl⟩
  have hend := forEach_rule (Untouched client mcon) body mcon hstart hthin
  refine ⟨hend.thin, hend.sources, fun b => ?_, ?_⟩
  · have hloop := forEach_collect (Untouched client mcon) (fun s => ¬s.interruptEnable.getLsbD b = true)
      (fun i => p (mcon.slots i) ∧ Clears beyond client mcon i b) body mcon hstart hthin (fun i s hs => by
        have hi := hs.slots i (Nat.le_refl _)
        by_cases hp : p (mcon.slots i)
        · obtain ⟨clss, hclss, hbody⟩ := hleave s i hi hp
          rw [hbody, (leaveSlot_enabled hclss i b).1, Clears.thinned hs.thin hi]
          tauto
        · rw [hstay s i hi hp]
          tauto)
    rw [← not_iff_not, hloop, not_and_or, not_not]
  · exact forEach_collect (Untouched client mcon) (fun s => s.pastEnd = true)
      (fun i => p (mcon.slots i) ∧ Strays beyond client mcon i) body mcon hstart hthin (fun i s hs => by
        have hi := hs.slots i (Nat.le_refl _)
        by_cases hp : p (mcon.slots i)
        · obtain ⟨clss, hclss, hbody⟩ := hleave s i hi hp
          rw [hbody, (leaveSlot_enabled hclss i 0).2, Strays.thinned hs.thin hi]
          tauto
        · rw [hstay s i hi hp]
          tauto)

theorem ClearsSource.thinned {s : CtrDrvrModuleContext} (h : Thinned client mcon s) {i : Fin ctrDrvrInterruptSources}
    (hsource : s.hardClients i = mcon.hardClients i) (b : ℕ) :
    ClearsSource beyond client s i b ↔ ClearsSource beyond client mcon i b := by
  unfold ClearsSource
  rw [hsource, h.shared]

theorem disConnectSource_eq (s : CtrDrvrModuleContext) (i : Fin ctrDrvrInterruptSources) :
    disConnectSource beyond client s i = leaveSource beyond client s i := by
  unfold disConnectSource disConnectOne
  have hi : ((i.castLE (by decide) : Fin ctrDrvrRamTableSize) : ℕ) < ctrDrvrInterruptSources := i.isLt
  rw [dif_pos hi]
  rfl

theorem sourceLoop_enabled : Thinned client mcon (forEach (disConnectSource beyond client) mcon) ∧
    (∀ b, (forEach (disConnectSource beyond client) mcon).interruptEnable.getLsbD b = true ↔
      mcon.interruptEnable.getLsbD b = true ∧ ¬∃ i, ClearsSource beyond client mcon i b) ∧
    (forEach (disConnectSource beyond client) mcon).pastEnd = mcon.pastEnd := by
  have hstep : ∀ (i : Fin ctrDrvrInterruptSources) s,
      (Thinned client mcon s ∧ ∀ j : Fin ctrDrvrInterruptSources, (i : ℕ) ≤ j → s.hardClients j = mcon.hardClients j) →
      Thinned client mcon (disConnectSource beyond client s i) ∧ ∀ j : Fin ctrDrvrInterruptSources, (i : ℕ) + 1 ≤ j →
        (disConnectSource beyond client s i).hardClients j = mcon.hardClients j := by
    rintro i s ⟨hthin, hsources⟩
    rw [disConnectSource_eq]
    refine ⟨hthin.leaveSource i, fun j hj => ?_⟩
    have hne : j ≠ i := by
      rintro rfl
      omega
    rw [leaveSource_hardClients, Function.update_of_ne hne]
    exact hsources j (by omega)
  have hstart : Thinned client mcon mcon ∧ ∀ j : Fin ctrDrvrInterruptSources, 0 ≤ (j : ℕ) →
      mcon.hardClients j = mcon.hardClients j := ⟨.refl, fun _ _ => rfl⟩
  have hend := forEach_rule (fun k s => Thinned client mcon s ∧ ∀ j : Fin ctrDrvrInterruptSources, k ≤ (j : ℕ) →
    s.hardClients j = mcon.hardClients j) (disConnectSource beyond client) mcon hstart hstep
  refine ⟨hend.1, fun b => ?_, ?_⟩
  · have hloop := forEach_collect (fun k s => Thinned client mcon s ∧ ∀ j : Fin ctrDrvrInterruptSources, k ≤ (j : ℕ) →
        s.hardClients j = mcon.hardClients j) (fun s => ¬s.interruptEnable.getLsbD b = true)
      (fun i => ClearsSource beyond client mcon i b) (disConnectSource beyond client) mcon hstart hstep
      (fun i s hs => by
        rw [disConnectSource_eq, (leaveSource_enabled i b).1, ClearsSource.thinned hs.1 (hs.2 i (Nat.le_refl _))]
        tauto)
    rw [← not_iff_not, hloop, not_and_or, not_not]
  · refine forEach_frame CtrDrvrModuleContext.pastEnd (disConnectSource beyond client) (fun s i => ?_) mcon
    rw [disConnectSource_eq]
    exact (leaveSource_enabled i 0).2

end Loops

/-! ## Modules -/

section Modules
variable {client : Fin ctrDrvrClientContexts} {conx : CtrDrvrConnection} {mcon mcon' : CtrDrvrModuleContext}

/-- Somebody is connected to the source or to a slot of its counter. -/
def InUse (mcon : CtrDrvrModuleContext) (b : Fin ctrDrvrInterruptSources) : Prop :=
  mcon.hardClients b ≠ 0 ∨ ∃ i, (mcon.slots i).clients ≠ 0 ∧ (mcon.slots i).trig.counter = b

structure Wired (mcon : CtrDrvrModuleContext) : Prop where
  enabled : ∀ b : Fin ctrDrvrInterruptSources, mcon.interruptEnable.getLsbD b = true ↔ InUse mcon b
  used : ∀ i, (mcon.slots i).clients ≠ 0 → (mcon.slots i).eqpNum ≠ 0
  counters : ∀ i, (mcon.slots i).eqpNum ≠ 0 → (mcon.slots i).trig.counter < ctrDrvrCounters
  ctim : ∀ i, (mcon.slots i).eqpClass = .ctim → (mcon.slots i).trig.counter = 0
  inside : mcon.pastEnd = false

theorem joined_ne_zero {clients : BitVec 32} : clients ||| clientMask client ≠ 0 :=
  ne_zero_iff.mpr ⟨client, clientMask_bit.mpr (.inr rfl)⟩

theorem source_lt (b : Fin ctrDrvrInterruptSources) : (b : ℕ) < 32 := b.isLt.trans (by decide)

/-- The client joins the slots of `q`, and their counters are enabled. -/
theorem Wired.joined (h : Wired mcon) (client : Fin ctrDrvrClientContexts) {q : Fin ctrDrvrRamTableSize → Prop}
    (hused : ∀ i, q i → (mcon.slots i).eqpNum ≠ 0)
    (hjoin : ∀ i, q i → mcon'.slots i = joinedSlot client (mcon.slots i))
    (hstay : ∀ i, ¬q i → mcon'.slots i = mcon.slots i) (hsources : mcon'.hardClients = mcon.hardClients)
    (henable : ∀ b : Fin ctrDrvrInterruptSources, mcon'.interruptEnable.getLsbD b = true ↔
      mcon.interruptEnable.getLsbD b = true ∨ ∃ i, q i ∧ (mcon.slots i).trig.counter = b)
    (hpast : mcon'.pastEnd = mcon.pastEnd) : Wired mcon' := by
  have hobject : ∀ i, (mcon'.slots i).eqpNum = (mcon.slots i).eqpNum ∧
    (mcon'.slots i).eqpClass = (mcon.slots i).eqpClass ∧
      (mcon'.slots i).trig = (mcon.slots i).trig := by
    intro i
    by_cases hq : q i
    · rw [hjoin i hq]
      exact ⟨rfl, rfl, rfl⟩
    · rw [hstay i hq]
      exact ⟨rfl, rfl, rfl⟩
  have hclients : ∀ i, (mcon'.slots i).clients ≠ 0 ↔ (mcon.slots i).clients ≠ 0 ∨ q i := by
    intro i
    by_cases hq : q i
    · rw [hjoin i hq]
      exact ⟨fun _ => .inr hq, fun _ => joined_ne_zero⟩
    · rw [hstay i hq]
      exact ⟨.inl, fun hor => hor.resolve_right hq⟩
  refine ⟨fun b => ?_, fun i hi => ?_, fun i hi => ?_, fun i hi => ?_, hpast.trans h.inside⟩
  · rw [henable b, h.enabled b]
    unfold InUse
    rw [hsources]
    constructor
    · rintro ((hhard | ⟨i, hi, hb⟩) | ⟨i, hq, hb⟩)
      · exact .inl hhard
      · exact .inr ⟨i, (hclients i).mpr (.inl hi), (hobject i).2.2 ▸ hb⟩
      · exact .inr ⟨i, (hclients i).mpr (.inr hq), (hobject i).2.2 ▸ hb⟩
    · rintro (hhard | ⟨i, hi, hb⟩)
      · exact .inl (.inl hhard)
      · rw [(hobject i).2.2] at hb
        obtain hold | hq := (hclients i).mp hi
        · exact .inl (.inr ⟨i, hold, hb⟩)
        · exact .inr ⟨i, hq, hb⟩
  · rw [(hobject i).1]
    obtain hold | hq := (hclients i).mp hi
    · exact h.used i hold
    · exact hused i hq
  · rw [(hobject i).2.2]
    exact h.counters i ((hobject i).1 ▸ hi)
  · rw [(hobject i).2.2]
    exact h.ctim i ((hobject i).2.1 ▸ hi)

theorem connectPtim_enabled (b : Fin ctrDrvrInterruptSources) :
    (connectPtim client conx mcon).1.interruptEnable.getLsbD b = true ↔ mcon.interruptEnable.getLsbD b = true ∨
      ∃ i, (mcon.slots i).matches conx = true ∧ (mcon.slots i).trig.counter = b := by
  rw [connectPtim]
  exact forEach_collect
    (fun _ s => ∀ j, (s.1.slots j).matches conx = (mcon.slots j).matches conx ∧
      (s.1.slots j).trig = (mcon.slots j).trig)
    (fun s : CtrDrvrModuleContext × ℕ => s.1.interruptEnable.getLsbD b = true)
    (fun i => (mcon.slots i).matches conx = true ∧ (mcon.slots i).trig.counter = b)
    (connectPtimAt client conx) (mcon, 0) (fun _ => ⟨rfl, rfl⟩)
    (fun i s hs j => ⟨(connectPtimAt_same s i j).1.trans (hs j).1, (connectPtimAt_same s i j).2.trans (hs j).2⟩)
    (fun i s hs => by
      unfold connectPtimAt
      rw [(hs i).1, (hs i).2]
      by_cases hmatch : (mcon.slots i).matches conx = true
      · rw [if_pos hmatch]
        unfold joinSlot
        dsimp only
        rw [or_twoPow_bit_of_lt (source_lt b), eq_comm (a := (b : ℕ))]
        simp [hmatch, CtrDrvrModuleContext.setSlot]
      · rw [if_neg hmatch]
        simp [hmatch])

theorem connectPtim_pastEnd : (connectPtim client conx mcon).1.pastEnd = mcon.pastEnd := by
  rw [connectPtim]
  refine forEach_frame (fun s : CtrDrvrModuleContext × ℕ => s.1.pastEnd) (connectPtimAt client conx) (fun s i => ?_)
    (mcon, 0)
  unfold connectPtimAt
  split <;> rfl

theorem Wired.connectPtim (h : Wired mcon)
    (hused : ∀ i, (mcon.slots i).matches conx = true → (mcon.slots i).eqpNum ≠ 0) :
    Wired (connectPtim client conx mcon).1 := by
  refine h.joined client (q := fun i => (mcon.slots i).matches conx = true) hused (fun i hi => ?_) (fun i hi => ?_)
    connectPtim_hardClients connectPtim_enabled connectPtim_pastEnd
  · rw [connectPtim_slots, if_pos hi]
  · rw [connectPtim_slots, if_neg hi]

/-- A slot with counter 0 is joined. -/
theorem Wired.joinSlot (h : Wired mcon) {i : Fin ctrDrvrRamTableSize} (hused : (mcon.slots i).eqpNum ≠ 0)
    (hcounter : (mcon.slots i).trig.counter = 0) : Wired (joinSlot client mcon i (BitVec.twoPow 32 0)) := by
  refine h.joined client (q := fun j => j = i) (fun j hj => hj ▸ hused) (fun j hj => ?_) (fun j hj => ?_) rfl
    (fun b => ?_) rfl
  · rw [hj, joinSlot_slots, Function.update_self]
  · rw [joinSlot_slots, Function.update_of_ne hj]
  · unfold Ctr.joinSlot
    dsimp only
    rw [or_twoPow_bit_of_lt (source_lt b)]
    refine or_congr_right ⟨fun hb => ⟨i, rfl, hcounter.trans hb.symm⟩, ?_⟩
    rintro ⟨j, rfl, hb⟩
    exact hb.symm.trans hcounter

/-- What a call on the objects does to a slot: the connections of the object stay, or there are none. -/
inductive SlotReshaped (old new : TrigSlot) : Prop
  | same (hclients : new.clients = old.clients) (hcounter : new.trig.counter = old.trig.counter)
      (hnum : new.eqpNum = old.eqpNum) (hclass : new.eqpClass = old.eqpClass)
  | idle (hold : old.clients = 0) (hnew : new.clients = 0)
  (hcounter : new.eqpNum ≠ 0 → new.trig.counter < ctrDrvrCounters) (hctim : new.eqpClass = .ctim → new.trig.counter = 0)

theorem Wired.reshaped (h : Wired mcon) (hslots : ∀ i, SlotReshaped (mcon.slots i) (mcon'.slots i))
    (hsources : mcon'.hardClients = mcon.hardClients) (henable : mcon'.interruptEnable = mcon.interruptEnable)
    (hpast : mcon'.pastEnd = mcon.pastEnd) : Wired mcon' := by
  refine ⟨fun b => ?_, fun i hi => ?_, fun i hi => ?_, fun i hi => ?_, hpast.trans h.inside⟩
  · rw [henable, h.enabled b]
    unfold InUse
    rw [hsources]
    refine or_congr_right (exists_congr fun i => ?_)
    obtain ⟨hclients, hcounter, -, -⟩ | ⟨hold, hnew, -, -⟩ := hslots i
    · rw [hclients, hcounter]
    · rw [hold, hnew]
      exact ⟨fun hne => absurd rfl hne.1, fun hne => absurd rfl hne.1⟩
  · obtain ⟨hclients, -, hnum, -⟩ | ⟨-, hnew, -, -⟩ := hslots i
    · rw [hclients] at hi
      rw [hnum]
      exact h.used i hi
    · exact absurd hnew hi
  · obtain ⟨-, hcounter, hnum, -⟩ | ⟨-, -, hcounter, -⟩ := hslots i
    · rw [hnum] at hi
      rw [hcounter]
      exact h.counters i hi
    · exact hcounter hi
  · obtain ⟨-, hcounter, -, hclass⟩ | ⟨-, -, -, hctim⟩ := hslots i
    · rw [hclass] at hi
      rw [hcounter]
      exact h.ctim i hi
    · exact hctim hi

theorem Wired.setSlot (h : Wired mcon) {i : Fin ctrDrvrRamTableSize} {slot : TrigSlot}
    (hslot : SlotReshaped (mcon.slots i) slot) : Wired (mcon.setSlot i slot) := by
  refine h.reshaped (fun j => ?_) rfl rfl rfl
  unfold CtrDrvrModuleContext.setSlot
  dsimp only
  by_cases hj : j = i
  · rw [hj, Function.update_self]
    exact hslot
  · rw [Function.update_of_ne hj]
    exact .same rfl rfl rfl rfl

theorem Wired.newCtim (h : Wired mcon) {eqpNum : BitVec 32} {frame : CtrDrvrEventFrame} {i : Fin ctrDrvrRamTableSize}
    (hnum : eqpNum ≠ 0) (hfree : (mcon.slots i).clients = 0) : Wired (newCtim client eqpNum frame mcon i) := by
  unfold Ctr.newCtim
  dsimp only
  have hpos : 0 < ctrDrvrCounters := by decide
  have hreplaced : Wired (mcon.setSlot i { mcon.slots i with
      eqpNum := eqpNum, eqpClass := .ctim, trig := ⟨eqpNum, frame, 0⟩ }) :=
    h.setSlot (.idle hfree hfree (fun _ => hpos) (fun _ => rfl))
  refine hreplaced.joinSlot ?_ ?_
  · unfold CtrDrvrModuleContext.setSlot
    dsimp only
    rw [Function.update_self]
    exact hnum
  · unfold CtrDrvrModuleContext.setSlot
    dsimp only
    rw [Function.update_self]

theorem connectHard_enabled (b : Fin ctrDrvrInterruptSources) :
    (connectHard client conx mcon).1.interruptEnable.getLsbD b = true ↔
      mcon.interruptEnable.getLsbD b = true ∨ conx.eqpNum.getLsbD b = true := by
  rw [connectHard]
  have hloop := forEach_collect (fun _ _ => True)
    (fun s : CtrDrvrModuleContext × ℕ => s.1.interruptEnable.getLsbD b = true)
    (fun i => conx.eqpNum.getLsbD i = true ∧ i = b) (connectHardAt client conx) (mcon, 0) trivial (fun _ _ _ => trivial)
    (fun i s _ => by
      unfold connectHardAt
      by_cases hbit : conx.eqpNum.getLsbD i = true
      · rw [if_pos hbit]
        unfold CtrDrvrModuleContext.setHardClients
        dsimp only
        rw [or_twoPow_bit_of_lt (source_lt b), ← Fin.ext_iff, eq_comm (a := b)]
        simp [hbit]
      · rw [if_neg hbit]
        simp [hbit])
  rw [hloop]
  refine or_congr_right ⟨?_, fun hbit => ⟨b, hbit, rfl⟩⟩
  rintro ⟨i, hbit, rfl⟩
  exact hbit

theorem Wired.connectHard (h : Wired mcon) : Wired (connectHard client conx mcon).1 := by
  have hpast : (Ctr.connectHard client conx mcon).1.pastEnd = mcon.pastEnd := by
    rw [Ctr.connectHard]
    refine forEach_frame (fun s : CtrDrvrModuleContext × ℕ => s.1.pastEnd) (connectHardAt client conx) (fun s i => ?_)
      (mcon, 0)
    unfold connectHardAt
    split <;> rfl
  refine ⟨fun b => ?_, ?_, ?_, ?_, hpast.trans h.inside⟩
  · rw [connectHard_enabled, h.enabled b]
    unfold InUse
    rw [connectHard_slots, connectHard_hardClients, or_right_comm]
    refine or_congr_left ?_
    split
    · rename_i hbit
      exact ⟨fun _ => joined_ne_zero, fun _ => .inr hbit⟩
    · rename_i hbit
      exact ⟨fun hor => hor.resolve_right hbit, .inl⟩
  · rw [connectHard_slots]
    exact h.used
  · rw [connectHard_slots]
    exact h.counters
  · rw [connectHard_slots]
    exact h.ctim

theorem Wired.enabledAgain (h : Wired mcon) : Wired (enableInterrupts mcon mcon.interruptEnable) := by
  refine ⟨fun b => ?_, h.used, h.counters, h.ctim, h.inside⟩
  unfold enableInterrupts
  dsimp only
  rw [BitVec.or_self]
  exact h.enabled b

/-! ### Leaving -/

/-- The client keeps a connection on counter `b` when it leaves the slots of `p`, and the sources where `hard` holds. -/
def Keeps (client : Fin ctrDrvrClientContexts) (mcon : CtrDrvrModuleContext) (p : TrigSlot → Prop)
    (hard : Prop) (b : ℕ) : Prop :=
  (¬hard ∧ ∃ k : Fin ctrDrvrInterruptSources, (k : ℕ) = b ∧ (mcon.hardClients k).getLsbD client = true) ∨
    ∃ i, (mcon.slots i).trig.counter = b ∧ (mcon.slots i).clients.getLsbD client = true ∧ ¬p (mcon.slots i)

/-- Where the client was the last one on a counter by a slot, the slot has the number of a source that no other client
uses, and the client keeps nothing on the counter; nor does it where it was the last one by a source. -/
structure Spared (beyond : ℕ → BitVec 32) (client : Fin ctrDrvrClientContexts) (mcon : CtrDrvrModuleContext)
    (p : TrigSlot → Prop) (hard : Prop) : Prop where
  slots : ∀ i, p (mcon.slots i) → OnlyClient client (mcon.slots i).clients →
    sharedCounter beyond client mcon (mcon.slots i).trig.counter = false →
      (i : ℕ) < ctrDrvrInterruptSources ∧ otherClients client (hardClientsAt beyond mcon i) = false ∧
        ¬Keeps client mcon p hard (mcon.slots i).trig.counter
  sources : hard → ∀ k, OnlyClient client (mcon.hardClients k) → sharedCounter beyond client mcon k = false →
    ¬Keeps client mcon p hard k

theorem sharedCounter_iff {beyond : ℕ → BitVec 32} {b : Fin ctrDrvrInterruptSources} :
    sharedCounter beyond client mcon b = true ↔ otherClients client (mcon.hardClients b) = true ∨
      ∃ i, (mcon.slots i).trig.counter = b ∧ otherClients client (mcon.slots i).clients = true := by
  unfold sharedCounter hardClientsAt
  rw [dif_pos b.isLt, Bool.or_eq_true, decide_eq_true_iff]
  rfl

/-- A mask has a client: this one or another. -/
theorem clients_ne_zero_iff (client : Fin ctrDrvrClientContexts) {clients : BitVec 32} :
    clients ≠ 0 ↔ clients.getLsbD client = true ∨ otherClients client clients = true := by
  rw [ne_zero_iff, otherClients_iff]
  constructor
  · rintro ⟨i, hi⟩
    by_cases hclient : i = client
    · exact .inl (hclient ▸ hi)
    · exact .inr ⟨i, hi, hclient⟩
  · rintro (hin | ⟨i, hi, -⟩)
    · exact ⟨client, hin⟩
    · exact ⟨i, hi⟩

/-- `mcon'` is `mcon` after the client has left the slots of `p`, and the sources where `hard` holds. -/
structure GoneFrom (client : Fin ctrDrvrClientContexts) (mcon mcon' : CtrDrvrModuleContext) (p : TrigSlot → Prop)
    (hard : Prop) : Prop where
  left : ∀ i, p (mcon.slots i) → mcon'.slots i = leftSlot client (mcon.slots i)
  stayed : ∀ i, ¬p (mcon.slots i) → mcon'.slots i = mcon.slots i
  sources : hard → ∀ k, mcon'.hardClients k = mcon.hardClients k &&& ~~~clientMask client
  kept : ¬hard → ∀ k, mcon'.hardClients k = mcon.hardClients k

section Leaving
variable {beyond : ℕ → BitVec 32} {p : TrigSlot → Prop} {hard : Prop}

theorem GoneFrom.trig (h : GoneFrom client mcon mcon' p hard) (i : Fin ctrDrvrRamTableSize) :
    (mcon'.slots i).trig = (mcon.slots i).trig := by
  by_cases hp : p (mcon.slots i)
  · rw [h.left i hp, leftSlot_trig]
  · rw [h.stayed i hp]

/-- A slot is freed or keeps its object. -/
theorem GoneFrom.object (h : GoneFrom client mcon mcon' p hard) (i : Fin ctrDrvrRamTableSize) :
    (mcon'.slots i).clients = 0 ∧ (mcon'.slots i).eqpNum = 0 ∧ (mcon'.slots i).eqpClass = .hard ∨
      (mcon'.slots i).eqpNum = (mcon.slots i).eqpNum ∧ (mcon'.slots i).eqpClass = (mcon.slots i).eqpClass := by
  by_cases hp : p (mcon.slots i)
  · rw [h.left i hp]
    obtain hkept | ⟨-, hnum, hclass, hclients⟩ := leftSlot_object client (mcon.slots i)
    · exact .inr hkept
    · exact .inl ⟨hclients, hnum, hclass⟩
  · rw [h.stayed i hp]
    exact .inr ⟨rfl, rfl⟩

theorem GoneFrom.slot_clients (h : GoneFrom client mcon mcon' p hard) (i : Fin ctrDrvrRamTableSize) :
    (mcon'.slots i).clients ≠ 0 ↔ otherClients client (mcon.slots i).clients = true ∨
      (mcon.slots i).clients.getLsbD client = true ∧ ¬p (mcon.slots i) := by
  by_cases hp : p (mcon.slots i)
  · rw [h.left i hp, leftSlot_clients, left_ne_zero_iff]
    simp [hp]
  · rw [h.stayed i hp, clients_ne_zero_iff client, or_comm]
    simp [hp]

theorem GoneFrom.source_clients (h : GoneFrom client mcon mcon' p hard) (k : Fin ctrDrvrInterruptSources) :
    mcon'.hardClients k ≠ 0 ↔ otherClients client (mcon.hardClients k) = true ∨
      (mcon.hardClients k).getLsbD client = true ∧ ¬hard := by
  by_cases hh : hard
  · rw [h.sources hh k, left_ne_zero_iff]
    simp [hh]
  · rw [h.kept hh k, clients_ne_zero_iff client, or_comm]
    simp [hh]

/-- A counter stays in use by the other clients, or by what the client keeps. -/
theorem GoneFrom.inUse (h : GoneFrom client mcon mcon' p hard) (beyond : ℕ → BitVec 32)
    (b : Fin ctrDrvrInterruptSources) :
    InUse mcon' b ↔ sharedCounter beyond client mcon b = true ∨ Keeps client mcon p hard b := by
  rw [sharedCounter_iff]
  unfold InUse Keeps
  rw [h.source_clients b]
  constructor
  · rintro ((hother | ⟨hin, hh⟩) | ⟨i, hi, hb⟩)
    · exact .inl (.inl hother)
    · exact .inr (.inl ⟨hh, b, rfl, hin⟩)
    · rw [h.trig i] at hb
      obtain hother | ⟨hin, hp⟩ := (h.slot_clients i).mp hi
      · exact .inl (.inr ⟨i, hb, hother⟩)
      · exact .inr (.inr ⟨i, hb, hin, hp⟩)
  · rintro ((hother | ⟨i, hb, hother⟩) | ⟨hh, k, hk, hin⟩ | ⟨i, hb, hin, hp⟩)
    · exact .inl (.inl hother)
    · exact .inr ⟨i, (h.slot_clients i).mpr (.inl hother), h.trig i ▸ hb⟩
    · obtain rfl := Fin.ext hk
      exact .inl (.inr ⟨hin, hh⟩)
    · exact .inr ⟨i, (h.slot_clients i).mpr (.inr ⟨hin, hp⟩), h.trig i ▸ hb⟩

/-- What stays in use was in use. -/
theorem inUse_of_still {b : Fin ctrDrvrInterruptSources}
    (hstill : sharedCounter beyond client mcon b = true ∨ Keeps client mcon p hard b) : InUse mcon b := by
  obtain hshared | ⟨-, k, hk, hin⟩ | ⟨i, hb, hin, -⟩ := hstill
  · obtain hother | ⟨i, hb, hother⟩ := sharedCounter_iff.mp hshared
    · exact .inl ((clients_ne_zero_iff client).mpr (.inr hother))
    · exact .inr ⟨i, (clients_ne_zero_iff client).mpr (.inr hother), hb⟩
  · obtain rfl := Fin.ext hk
    exact .inl ((clients_ne_zero_iff client).mpr (.inl hin))
  · exact .inr ⟨i, (clients_ne_zero_iff client).mpr (.inl hin), hb⟩

/-- A counter that does not stay in use is cleared, by one of the slots or by a source. -/
theorem Spared.cleared (hspared : Spared beyond client mcon p hard) {b : Fin ctrDrvrInterruptSources}
    (huse : InUse mcon b) (hshared : sharedCounter beyond client mcon b = false)
    (hkeeps : ¬Keeps client mcon p hard b) :
    (∃ i, p (mcon.slots i) ∧ Clears beyond client mcon i b) ∨ hard ∧ ∃ k, ClearsSource beyond client mcon k b := by
  have hothers := (not_congr sharedCounter_iff).mp (Bool.eq_false_iff.mp hshared)
  rw [not_or, Bool.not_eq_true] at hothers
  obtain hb | ⟨i, hi, hb⟩ := huse
  · have hin := ((clients_ne_zero_iff client).mp hb).resolve_right (Bool.eq_false_iff.mp hothers.1)
    have hh : hard := by
      by_contra hh
      exact hkeeps (.inl ⟨hh, b, rfl, hin⟩)
    exact .inr ⟨hh, b, hb, hothers.1, rfl, fun _ => hshared⟩
  · have hnoother : otherClients client (mcon.slots i).clients = false := by
      by_contra hother
      exact hothers.2 ⟨i, hb, Bool.not_eq_false _ ▸ hother⟩
    have hin := ((clients_ne_zero_iff client).mp hi).resolve_right (Bool.eq_false_iff.mp hnoother)
    have hp : p (mcon.slots i) := by
      by_contra hp
      exact hkeeps (.inr ⟨i, hb, hin, hp⟩)
    obtain ⟨-, hfree, -⟩ := hspared.slots i hp ⟨hin, hnoother⟩ (hb ▸ hshared)
    exact .inl ⟨i, hp, ⟨hin, hnoother⟩, hb, hshared, hfree⟩

theorem Wired.counter_lt (h : Wired mcon) {i : Fin ctrDrvrRamTableSize} (hi : (mcon.slots i).clients ≠ 0) :
    (mcon.slots i).trig.counter < ctrDrvrCounters :=
  h.counters i (h.used i hi)

/-- No slot clears a counter that stays in use. -/
theorem Spared.not_clears (hspared : Spared beyond client mcon p hard) {b : Fin ctrDrvrInterruptSources}
    (hstill : sharedCounter beyond client mcon b = true ∨ Keeps client mcon p hard b) :
    ¬∃ i, p (mcon.slots i) ∧ Clears beyond client mcon i b := by
  rintro ⟨i, hp, honly, hb, hshared, -⟩
  have hkeeps := hstill.resolve_left (Bool.eq_false_iff.mp hshared)
  exact (hspared.slots i hp honly (hb ▸ hshared)).2.2 (hb ▸ hkeeps)

/-- Nor does a source. -/
theorem Spared.not_clearsSource (hspared : Spared beyond client mcon p hard) (h : Wired mcon)
    {b : Fin ctrDrvrInterruptSources}
    (hstill : sharedCounter beyond client mcon b = true ∨ Keeps client mcon p hard b) :
    ¬(hard ∧ ∃ k, ClearsSource beyond client mcon k b) := by
  rintro ⟨hh, k, hk, hnoother, hkb, hcond⟩
  obtain rfl := Fin.ext hkb
  have hin := ((clients_ne_zero_iff client).mp hk).resolve_right (Bool.eq_false_iff.mp hnoother)
  by_cases hlow : (k : ℕ) ≤ ctrDrvrCounters
  · have hkeeps := hstill.resolve_left (Bool.eq_false_iff.mp (hcond hlow))
    exact hspared.sources hh k ⟨hin, hnoother⟩ (hcond hlow) hkeeps
  · -- no slot has a counter there
    obtain hshared | ⟨hh', -⟩ | ⟨i, hb, hin', -⟩ := hstill
    · obtain hother | ⟨i, hb, hother⟩ := sharedCounter_iff.mp hshared
      · rw [hnoother] at hother
        cases hother
      · have := h.counter_lt ((clients_ne_zero_iff client).mpr (.inr hother))
        omega
    · exact hh' hh
    · have := h.counter_lt ((clients_ne_zero_iff client).mpr (.inl hin'))
      omega

theorem Spared.not_strays (hspared : Spared beyond client mcon p hard) (h : Wired mcon) :
    ¬∃ i, p (mcon.slots i) ∧ Strays beyond client mcon i := by
  rintro ⟨i, hp, honly, hlow | ⟨hshared, hlow⟩⟩
  · have hlt := h.counter_lt ((clients_ne_zero_iff client).mpr (.inl honly.1))
    unfold ctrDrvrCounters at hlt
    unfold ctrDrvrInterruptSources at hlow
    omega
  · have := (hspared.slots i hp honly hshared).1
    omega

theorem Wired.left (h : Wired mcon) (hspared : Spared beyond client mcon p hard)
    (hleaves : GoneFrom client mcon mcon' p hard)
    (henable : ∀ b : Fin ctrDrvrInterruptSources, mcon'.interruptEnable.getLsbD b = true ↔
      mcon.interruptEnable.getLsbD b = true ∧ (¬∃ i, p (mcon.slots i) ∧ Clears beyond client mcon i b) ∧
        ¬(hard ∧ ∃ k, ClearsSource beyond client mcon k b))
    (hpast : mcon'.pastEnd = true ↔ mcon.pastEnd = true ∨ ∃ i, p (mcon.slots i) ∧ Strays beyond client mcon i) :
    Wired mcon' := by
  refine ⟨fun b => ?_, fun i hi => ?_, fun i hi => ?_, fun i hi => ?_, ?_⟩
  · rw [henable b, hleaves.inUse beyond b, h.enabled b]
    constructor
    · rintro ⟨huse, hslot, hsource⟩
      by_contra hnone
      rw [not_or, Bool.not_eq_true] at hnone
      exact (hspared.cleared huse hnone.1 hnone.2).elim hslot hsource
    · intro hstill
      exact ⟨inUse_of_still hstill, hspared.not_clears hstill, hspared.not_clearsSource h hstill⟩
  · obtain ⟨hnone, -⟩ | ⟨hnum, -⟩ := hleaves.object i
    · exact absurd hnone hi
    · rw [hnum]
      refine h.used i ((clients_ne_zero_iff client).mpr ?_)
      obtain hother | ⟨hin, -⟩ := (hleaves.slot_clients i).mp hi
      · exact .inr hother
      · exact .inl hin
  · rw [hleaves.trig i]
    obtain ⟨-, hnum, -⟩ | ⟨hnum, -⟩ := hleaves.object i
    · exact absurd hnum hi
    · exact h.counters i (hnum ▸ hi)
  · rw [hleaves.trig i]
    obtain ⟨-, -, hclass⟩ | ⟨-, hclass⟩ := hleaves.object i
    · rw [hclass] at hi
      cases hi
    · exact h.ctim i (hclass ▸ hi)
  · rw [← Bool.not_eq_true, hpast]
    rintro (hold | hstrays)
    · rw [h.inside] at hold
      cases hold
    · exact hspared.not_strays h hstrays

end Leaving

end Modules

end HtDrivers.Ctr
