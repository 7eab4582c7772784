import HtDrivers.Ctr.CtimUse

/-! The entries that an interrupt and a simulated event put on the queues of the clients (`IntrHandler`,
`CtrDrvrWrite`). -/
namespace HtDrivers.Ctr
open HtDrivers.Lib.Tables HtDrivers.Lib.Masks HtDrivers.Lib.Transition
set_option autoImplicit false

structure CtrDrvrCTime where
  second : ℕ
  ticksHPTDC : ℕ
  cTrain : ℕ

structure CtrDrvrReadBuf where
  connection : CtrDrvrConnection
  triggerNumber : ℕ
  interruptNumber : ℕ
  ctim : BitVec 32
  frame : CtrDrvrEventFrame
  triggerTime : CtrDrvrCTime
  startTime : CtrDrvrCTime
  onZeroTime : CtrDrvrCTime

structure CtrDrvrWriteBuf where
  triggerNumber : ℕ
  connection : CtrDrvrConnection
  payload : ℕ

structure CtrDrvrCounterHistory where
  index : ℕ
  frame : CtrDrvrEventFrame
  triggerTime : CtrDrvrCTime
  startTime : CtrDrvrCTime
  onZeroTime : CtrDrvrCTime

/-- What the handler reads of a counter; one with its configuration locked is in remote. -/
structure CtrDrvrFpgaCounter where
  lockConfig : Bool
  history : CtrDrvrCounterHistory

/-- The entry with all words cleared. -/
def noEntry : CtrDrvrReadBuf := ⟨⟨0, .hard, 0⟩, 0, 0, 0, ⟨0, 0, 0⟩, ⟨0, 0, 0⟩, ⟨0, 0, 0⟩, ⟨0, 0, 0⟩⟩

/-- The entries that a call puts on the queue of each client. -/
abbrev Queued := Fin ctrDrvrClientContexts → List CtrDrvrReadBuf

def putOn (clients : BitVec 32) (rb : CtrDrvrReadBuf) : Queued := fun client => if clients.getLsbD client
    then [rb] else []

/-! ## Interrupts -/

section Handler
variable (mcon : CtrDrvrModuleContext) (counters : ℕ → CtrDrvrFpgaCounter) (now : CtrDrvrCTime)

/-- The slot whose object the interrupt is for. -/
def objectSlot (inum : ℕ) : Option (Fin ctrDrvrRamTableSize) :=
  if inum < ctrDrvrCounters ∧ (counters inum).lockConfig = false then
    if h : (counters inum).history.index < ctrDrvrRamTableSize then
      if (mcon.slots ⟨_, h⟩).clients ≠ 0 then some ⟨_, h⟩ else none
    else none
  else none

/-- One round of the loop over the sources. -/
def intrSource (inum : Fin ctrDrvrInterruptSources) : Queued :=
  let hist := (counters inum).history
  match objectSlot mcon counters inum with
  | some tndx =>
    let slot := mcon.slots tndx
    putOn (slot.clients ||| mcon.hardClients inum)
      { connection := ⟨mcon.moduleIndex + 1, slot.eqpClass, slot.eqpNum⟩
        triggerNumber := tndx + 1
        interruptNumber := inum
        ctim := slot.trig.ctim
        frame := hist.frame
        triggerTime := hist.triggerTime
        startTime := hist.startTime
        onZeroTime := hist.onZeroTime }
  | none =>
    putOn (mcon.hardClients inum)
      { noEntry with
        connection := ⟨mcon.moduleIndex + 1, .hard, BitVec.twoPow 32 inum⟩
        interruptNumber := inum
        onZeroTime := if (inum : ℕ) < ctrDrvrCounters then hist.onZeroTime else now }

/-- `isrc` are the sources that the module reports. -/
def intrHandler (isrc : BitVec 32) : Queued :=
  forEach (fun (queued : Queued) (inum : Fin ctrDrvrInterruptSources) =>
    if isrc.getLsbD inum then fun client => queued client ++ intrSource mcon counters now inum client else queued)
      fun _ => []

end Handler

/-! ## Simulated events -/

section Write
variable (beyond : ℕ → TrigSlot)

/-- `beyond` is what lies past the end of the tables. -/
def slotAt (mcon : CtrDrvrModuleContext) (tndx : ℕ) : TrigSlot :=
  if h : tndx < ctrDrvrRamTableSize then mcon.slots ⟨tndx, h⟩ else beyond tndx

def slotEvent (slot : TrigSlot) (tndx : ℕ) : CtrDrvrReadBuf :=
  { noEntry with
    triggerNumber := tndx + 1
    frame := slot.trig.frame
    ctim := slot.trig.ctim
    interruptNumber := slot.trig.counter }

def hardEvent (mcon : CtrDrvrModuleContext) (eqpNum : BitVec 32) : BitVec 32 × CtrDrvrReadBuf :=
  forEach (fun (s : BitVec 32 × CtrDrvrReadBuf) (i : Fin ctrDrvrInterruptSources) =>
    if eqpNum.getLsbD i then (s.1 ||| mcon.hardClients i, { s.2 with interruptNumber := i + 1 }) else s) (0, noEntry)

/-- The clients of an event and its entry, before the connection and the times are filled in. -/
def simulatedEvent (mcon : CtrDrvrModuleContext) (wb : CtrDrvrWriteBuf) : BitVec 32 × CtrDrvrReadBuf :=
  if wb.connection.eqpClass ≠ .hard then
    if wb.triggerNumber = 0 then
      match firstPlace fun i => (mcon.slots i).matches wb.connection with
      | some tndx =>
        let slot := mcon.slots tndx
        (slot.clients, { slotEvent slot tndx with frame := { slot.trig.frame with value := wb.payload } })
      | none => (0, noEntry)
    else
      let tndx := wb.triggerNumber - 1
      let slot := slotAt beyond mcon tndx
      (slot.clients, slotEvent slot tndx)
  else hardEvent mcon wb.connection.eqpNum

def ctrDrvrWrite (wa : CtrDrvrWorkingArea) (now : CtrDrvrCTime) (wb : CtrDrvrWriteBuf) : CtrReply × Queued :=
  if h : wb.connection.module - 1 < ctrDrvrModuleContexts ∧ wb.connection.module ≠ 0 then
    let event := simulatedEvent beyond (wa.moduleContexts ⟨wb.connection.module - 1, h.1⟩) wb
    let rb := { event.2 with connection := wb.connection, triggerTime := now, startTime := now, onZeroTime := now }
    (.ok, putOn event.1 rb)
  else (.error .einval, fun _ => [])

end Write

/-! ## Agreement -/

/-- The fields that say where an event came from. -/
def CtrDrvrReadBuf.origin (rb : CtrDrvrReadBuf) : CtrDrvrConnection × ℕ × ℕ × BitVec 32 :=
  (rb.connection, rb.triggerNumber, rb.interruptNumber, rb.ctim)

section Agreement
variable (wa : CtrDrvrWorkingArea) (m : Fin ctrDrvrModuleContexts)

/-- The event of a source alone queues what the interrupt of the source queues where it is for no object. -/
def SourceAgrees (k : Fin ctrDrvrInterruptSources) : Prop :=
  ∀ beyond counters now number payload client, objectSlot (wa.moduleContexts m) counters k = none →
    ((ctrDrvrWrite beyond wa now ⟨number, ⟨m + 1, .hard, BitVec.twoPow 32 k⟩, payload⟩).2 client).map
      CtrDrvrReadBuf.origin =
      (intrHandler (wa.moduleContexts m) counters now (BitVec.twoPow 32 k) client).map CtrDrvrReadBuf.origin

/-- The event of a slot queues what the interrupt of its counter queues where the slot loaded the counter, but for
clients that are only at the source of the counter. -/
def SlotAgrees (t : Fin ctrDrvrRamTableSize) (conx : CtrDrvrConnection) (number : ℕ) : Prop :=
  ∀ (beyond : ℕ → TrigSlot) (counters : ℕ → CtrDrvrFpgaCounter) (now : CtrDrvrCTime) (payload : ℕ)
    (client : Fin ctrDrvrClientContexts),
    (counters (wa.slot m t).trig.counter).lockConfig = false →
    (counters (wa.slot m t).trig.counter).history.index = (t : ℕ) →
    (wa.slot m t).clients.getLsbD client = true ∨
      (hardClientsAt (fun _ => 0) (wa.moduleContexts m) (wa.slot m t).trig.counter).getLsbD client = false →
    ((ctrDrvrWrite beyond wa now ⟨number, conx, payload⟩).2 client).map CtrDrvrReadBuf.origin =
      (intrHandler (wa.moduleContexts m) counters now (BitVec.twoPow 32 (wa.slot m t).trig.counter) client).map
        CtrDrvrReadBuf.origin

end Agreement

section Entries
variable {mcon : CtrDrvrModuleContext} {counters : ℕ → CtrDrvrFpgaCounter} {now : CtrDrvrCTime} {beyond : ℕ → TrigSlot}

theorem source_bit {k i : Fin ctrDrvrInterruptSources} : (BitVec.twoPow 32 (k : ℕ)).getLsbD i = true ↔ i = k := by
  rw [BitVec.getLsbD_twoPow, Bool.and_eq_true, decide_eq_true_iff, decide_eq_true_iff]
  have hk : (k : ℕ) < 32 := k.isLt.trans (by decide)
  exact ⟨fun h => Fin.ext h.2.symm, fun h => ⟨hk, by rw [h]⟩⟩

/-- The interrupt of one source. -/
theorem intrHandler_source (mcon : CtrDrvrModuleContext) (counters : ℕ → CtrDrvrFpgaCounter) (now : CtrDrvrCTime)
    (k : Fin ctrDrvrInterruptSources) (client : Fin ctrDrvrClientContexts) :
    intrHandler mcon counters now (BitVec.twoPow 32 k) client = intrSource mcon counters now k client := by
  have hloop := forEach_only (fun (queued : Queued) (inum : Fin ctrDrvrInterruptSources) =>
    if (BitVec.twoPow 32 (k : ℕ)).getLsbD inum then fun client =>
      queued client ++ intrSource mcon counters now inum client
    else queued) k (fun queued i hi => if_neg fun hbit => hi (source_bit.mp hbit)) fun _ => []
  unfold intrHandler
  rw [hloop, if_pos (source_bit.mpr rfl)]
  exact List.nil_append _

/-- No interrupt of a module is of a source that it does not have. -/
theorem intrHandler_none {k : ℕ} (hk : ctrDrvrInterruptSources ≤ k) (client : Fin ctrDrvrClientContexts) :
    intrHandler mcon counters now (BitVec.twoPow 32 k) client = [] := by
  have hframe := forEach_frame (fun queued : Queued => queued client)
    (fun (queued : Queued) (inum : Fin ctrDrvrInterruptSources) =>
    if (BitVec.twoPow 32 k).getLsbD inum then fun client => queued client ++ intrSource mcon counters now inum client
    else queued) (fun queued i => by
      have hbit : ¬ (BitVec.twoPow 32 k).getLsbD i = true := by
        rw [BitVec.getLsbD_twoPow, Bool.and_eq_true, decide_eq_true_iff, decide_eq_true_iff]
        have hi := i.isLt
        omega
      rw [if_neg hbit]) fun _ => []
  exact hframe

theorem hardEvent_source (k : Fin ctrDrvrInterruptSources) :
    hardEvent mcon (BitVec.twoPow 32 k) = (mcon.hardClients k, { noEntry with interruptNumber := k + 1 }) := by
  have hloop := forEach_only (fun (s : BitVec 32 × CtrDrvrReadBuf) (i : Fin ctrDrvrInterruptSources) =>
    if (BitVec.twoPow 32 (k : ℕ)).getLsbD i then (s.1 ||| mcon.hardClients i, { s.2 with interruptNumber := i + 1 })
      else s)
    k (fun s i hi => if_neg fun hbit => hi (source_bit.mp hbit)) (0, noEntry)
  unfold hardEvent
  rw [hloop, if_pos (source_bit.mpr rfl)]
  exact congrArg (·, _) (BitVec.zero_or)

theorem putOn_origin (clients : BitVec 32) (rb : CtrDrvrReadBuf) (client : Fin ctrDrvrClientContexts) :
    (putOn clients rb client).map CtrDrvrReadBuf.origin = if clients.getLsbD client then [rb.origin] else [] := by
  unfold putOn
  split
  · rfl
  · rfl

variable {wa : CtrDrvrWorkingArea} {m : Fin ctrDrvrModuleContexts} {wb : CtrDrvrWriteBuf}

theorem ctrDrvrWrite_module (h : wb.connection.module = m + 1) : ctrDrvrWrite beyond wa now wb =
    (.ok, putOn (simulatedEvent beyond (wa.moduleContexts m) wb).1
      { (simulatedEvent beyond (wa.moduleContexts m) wb).2 with
        connection := wb.connection, triggerTime := now, startTime := now, onZeroTime := now }) := by
  have hm : wb.connection.module - 1 < ctrDrvrModuleContexts ∧ wb.connection.module ≠ 0 := by
    have := m.isLt
    omega
  have hval : wb.connection.module - 1 = m := by omega
  have hmidx : (⟨wb.connection.module - 1, hm.1⟩ : Fin ctrDrvrModuleContexts) = m := Fin.ext hval
  unfold ctrDrvrWrite
  rw [dif_pos hm, hmidx]

theorem write_origin {clients : BitVec 32} {number interrupt : ℕ} {ctim : BitVec 32} (h : wb.connection.module = m + 1)
    (hclients : (simulatedEvent beyond (wa.moduleContexts m) wb).1 = clients)
    (hevent : (simulatedEvent beyond (wa.moduleContexts m) wb).2.triggerNumber = number ∧
      (simulatedEvent beyond (wa.moduleContexts m) wb).2.interruptNumber = interrupt ∧
      (simulatedEvent beyond (wa.moduleContexts m) wb).2.ctim = ctim) (client : Fin ctrDrvrClientContexts) :
    ((ctrDrvrWrite beyond wa now wb).2 client).map CtrDrvrReadBuf.origin =
      if clients.getLsbD client then [(wb.connection, number, interrupt, ctim)] else [] := by
  obtain ⟨rfl, rfl, rfl⟩ := hevent
  rw [ctrDrvrWrite_module h, ← hclients]
  exact putOn_origin ..

/-- The handler on an interrupt that is for the object of a slot. -/
theorem intrHandler_slot {t : Fin ctrDrvrRamTableSize} {counter : ℕ} (hcounter : counter < ctrDrvrCounters)
    (hlock : (counters counter).lockConfig = false) (hindex : (counters counter).history.index = (t : ℕ))
    (hclients : (mcon.slots t).clients ≠ 0) (client : Fin ctrDrvrClientContexts) :
    (intrHandler mcon counters now (BitVec.twoPow 32 counter) client).map CtrDrvrReadBuf.origin =
      if ((mcon.slots t).clients ||| hardClientsAt (fun _ => 0) mcon counter).getLsbD client then
        [((⟨mcon.moduleIndex + 1, (mcon.slots t).eqpClass, (mcon.slots t).eqpNum⟩ : CtrDrvrConnection),
          (t : ℕ) + 1, counter, (mcon.slots t).trig.ctim)] else [] := by
  have hsource : counter < ctrDrvrInterruptSources := hcounter.trans (by decide)
  have hlt : (counters counter).history.index < ctrDrvrRamTableSize := by
    rw [hindex]
    exact t.isLt
  have ht : (⟨(counters counter).history.index, hlt⟩ : Fin ctrDrvrRamTableSize) = t := Fin.ext hindex
  have hslot : objectSlot mcon counters counter = some t := by
    unfold objectSlot
    rw [if_pos ⟨hcounter, hlock⟩, dif_pos hlt, ht, if_pos hclients]
  have hhandler := intrHandler_source mcon counters now ⟨counter, hsource⟩ client
  dsimp only at hhandler
  rw [hhandler]
  unfold intrSource hardClientsAt
  dsimp only
  rw [hslot, dif_pos hsource]
  exact putOn_origin ..

/-- Without an object the entry has no trigger number. -/
theorem intrSource_hard {k : Fin ctrDrvrInterruptSources} (hslot : objectSlot mcon counters k = none)
    (client : Fin ctrDrvrClientContexts) :
    (intrSource mcon counters now k client).map CtrDrvrReadBuf.origin =
      if (mcon.hardClients k).getLsbD client then
        [((⟨mcon.moduleIndex + 1, .hard, BitVec.twoPow 32 k⟩ : CtrDrvrConnection), 0, (k : ℕ), 0)]
      else [] := by
  unfold intrSource
  dsimp only
  rw [hslot]
  exact putOn_origin ..

end Entries

/-! ## Where they agree -/

section Where
variable {wa : CtrDrvrWorkingArea} {m : Fin ctrDrvrModuleContexts} {conx : CtrDrvrConnection}
    {t : Fin ctrDrvrRamTableSize}

/-- A history of all counters that names a slot. -/
def loadedBy (index : ℕ) : ℕ → CtrDrvrFpgaCounter :=
  fun _ => ⟨false, ⟨index, ⟨0, 0, 0⟩, ⟨0, 0, 0⟩, ⟨0, 0, 0⟩, ⟨0, 0, 0⟩⟩⟩

/-- The interrupt number of the event is one more than that of the interrupt. -/
theorem sourceAgrees_iff (k : Fin ctrDrvrInterruptSources) :
    SourceAgrees wa m k ↔ ∀ client : Fin ctrDrvrClientContexts, ((wa.moduleContexts m).hardClients k).getLsbD
    client = false := by
  have hwrite : ∀ beyond now number payload client,
      ((ctrDrvrWrite beyond wa now ⟨number, ⟨m + 1, .hard, BitVec.twoPow 32 k⟩, payload⟩).2 client).map
        CtrDrvrReadBuf.origin =
        if ((wa.moduleContexts m).hardClients k).getLsbD client then
          [(⟨m + 1, .hard, BitVec.twoPow 32 k⟩, 0, (k : ℕ) + 1, 0)]
        else [] := by
    intro beyond now number payload client
    have hevent : simulatedEvent beyond (wa.moduleContexts m) ⟨number, ⟨m + 1, .hard, BitVec.twoPow 32 k⟩, payload⟩ =
        ((wa.moduleContexts m).hardClients k, { noEntry with interruptNumber := k + 1 }) :=
      (if_neg (not_not.mpr rfl)).trans (hardEvent_source k)
    refine write_origin rfl (congrArg Prod.fst hevent) ?_ client
    rw [hevent]
    exact ⟨rfl, rfl, rfl⟩
  constructor
  · intro h client
    by_contra hbit
    rw [Bool.not_eq_false] at hbit
    have hnone : objectSlot (wa.moduleContexts m) (loadedBy ctrDrvrRamTableSize) k = none := by
      have hpast : ¬ (loadedBy ctrDrvrRamTableSize k).history.index < ctrDrvrRamTableSize := Nat.lt_irrefl _
      unfold objectSlot
      rw [dif_neg hpast, ite_self]
    have heq := h (fun _ => freeSlot) (loadedBy ctrDrvrRamTableSize) ⟨0, 0, 0⟩ 0 0 client hnone
    rw [hwrite, intrHandler_source, intrSource_hard hnone, if_pos hbit, if_pos hbit, List.cons_eq_cons, Prod.mk.injEq,
      Prod.mk.injEq, Prod.mk.injEq] at heq
    exact absurd heq.1.2.2.1 (Nat.succ_ne_self _)
  · intro hnone beyond counters now number payload client hobject
    rw [hwrite, intrHandler_source, intrSource_hard hobject, hnone client]
    rfl

/-- What decides for a slot, whichever way its event is asked for. -/
theorem slotAgrees_iff {number : ℕ} (hname : (wa.moduleContexts m).moduleIndex = m) (hmodule : conx.module = m + 1)
    (hconnected : ∃ client : Fin ctrDrvrClientContexts, (wa.slot m t).clients.getLsbD client = true)
    (hevent : ∀ beyond payload, (simulatedEvent beyond (wa.moduleContexts m) ⟨number, conx, payload⟩).1 =
      (wa.slot m t).clients ∧
      (simulatedEvent beyond (wa.moduleContexts m) ⟨number, conx, payload⟩).2.triggerNumber = t + 1 ∧
      (simulatedEvent beyond (wa.moduleContexts m) ⟨number, conx, payload⟩).2.interruptNumber =
      (wa.slot m t).trig.counter ∧
      (simulatedEvent beyond (wa.moduleContexts m) ⟨number, conx, payload⟩).2.ctim = (wa.slot m t).trig.ctim) :
    SlotAgrees wa m t conx number ↔ conx.eqpClass = (wa.slot m t).eqpClass ∧ conx.eqpNum = (wa.slot m t).eqpNum ∧
      (wa.slot m t).trig.counter < ctrDrvrCounters := by
  have hwrite : ∀ beyond now payload client,
      ((ctrDrvrWrite beyond wa now ⟨number, conx, payload⟩).2 client).map CtrDrvrReadBuf.origin =
        if (wa.slot m t).clients.getLsbD client then
          [(conx, (t : ℕ) + 1, (wa.slot m t).trig.counter, (wa.slot m t).trig.ctim)]
        else [] :=
    fun beyond now payload client => write_origin hmodule (hevent beyond payload).1 (hevent beyond payload).2 client
  obtain ⟨joined, hjoined⟩ := hconnected
  have hclients : ((wa.moduleContexts m).slots t).clients ≠ 0 := by
    intro hzero
    rw [slot_eq, hzero] at hjoined
    simp at hjoined
  constructor
  · intro h
    have heq := h (fun _ => freeSlot) (loadedBy t) ⟨0, 0, 0⟩ 0 joined rfl rfl (.inl hjoined)
    rw [hwrite, if_pos hjoined] at heq
    by_cases hcounter : (wa.slot m t).trig.counter < ctrDrvrCounters
    · have hbit : (((wa.moduleContexts m).slots t).clients |||
          hardClientsAt (fun _ => 0) (wa.moduleContexts m) (wa.slot m t).trig.counter).getLsbD joined = true := by
        rw [BitVec.getLsbD_or, Bool.or_eq_true]
        exact .inl hjoined
      rw [intrHandler_slot hcounter rfl rfl hclients, if_pos hbit, List.cons_eq_cons, Prod.mk.injEq] at heq
      rw [heq.1.1]
      exact ⟨rfl, rfl, hcounter⟩
    · -- the interrupt is not one of a counter
      exfalso
      by_cases hsource : (wa.slot m t).trig.counter < ctrDrvrInterruptSources
      · have hnone : objectSlot (wa.moduleContexts m) (loadedBy t) (wa.slot m t).trig.counter = none := if_neg fun h =>
          hcounter h.1
        have hhandler := intrHandler_source (wa.moduleContexts m) (loadedBy t) ⟨0, 0, 0⟩
          ⟨(wa.slot m t).trig.counter, hsource⟩ joined
        dsimp only at hhandler
        rw [hhandler, intrSource_hard hnone] at heq
        split at heq
        · rw [List.cons_eq_cons, Prod.mk.injEq, Prod.mk.injEq] at heq
          exact absurd heq.1.2.1 (Nat.succ_ne_zero _)
        · cases heq
      · rw [intrHandler_none (not_lt.mp hsource)] at heq
        cases heq
  · rintro ⟨hclass, hnum, hcounter⟩ beyond counters now payload client hlock hindex honly
    rw [hwrite, intrHandler_slot hcounter hlock hindex hclients, hname]
    have hconx : (⟨m + 1, ((wa.moduleContexts m).slots t).eqpClass, ((wa.moduleContexts m).slots t).eqpNum⟩ :
      CtrDrvrConnection) =
        conx := by
      rw [← slot_eq, ← hclass, ← hnum, ← hmodule]
    have hbits : (((wa.moduleContexts m).slots t).clients |||
        hardClientsAt (fun _ => 0) (wa.moduleContexts m) (wa.slot m t).trig.counter).getLsbD client =
        (wa.slot m t).clients.getLsbD client := by
      rw [BitVec.getLsbD_or, ← slot_eq]
      rcases honly with hin | hout
      · rw [hin, Bool.true_or]
      · rw [hout, Bool.or_false]
    rw [hbits, hconx]
    rfl

theorem slotAgrees_number (hname : (wa.moduleContexts m).moduleIndex = m) (hmodule : conx.module = m + 1)
    (hclass : conx.eqpClass ≠ .hard)
    (hconnected : ∃ client : Fin ctrDrvrClientContexts, (wa.slot m t).clients.getLsbD client = true) :
    SlotAgrees wa m t conx (t + 1) ↔ conx.eqpClass = (wa.slot m t).eqpClass ∧ conx.eqpNum = (wa.slot m t).eqpNum ∧
      (wa.slot m t).trig.counter < ctrDrvrCounters := by
  refine slotAgrees_iff hname hmodule hconnected fun beyond payload => ?_
  have hevent : simulatedEvent beyond (wa.moduleContexts m) ⟨t + 1, conx, payload⟩ =
      ((wa.slot m t).clients, slotEvent (wa.slot m t) t) := by
    have hslot : slotAt beyond (wa.moduleContexts m) t = wa.slot m t := dif_pos t.isLt
    unfold simulatedEvent
    dsimp only
    rw [if_pos hclass, if_neg (Nat.succ_ne_zero _), Nat.add_sub_cancel, hslot]
  rw [hevent]
  exact ⟨rfl, rfl, rfl, rfl⟩

theorem slotAgrees_first (hname : (wa.moduleContexts m).moduleIndex = m) (hmodule : conx.module = m + 1)
    (hclass : conx.eqpClass ≠ .hard)
    (hconnected : ∃ client : Fin ctrDrvrClientContexts, (wa.slot m t).clients.getLsbD client = true)
    (hfirst : (firstPlace fun i => ((wa.moduleContexts m).slots i).matches conx) = some t) :
    SlotAgrees wa m t conx 0 ↔ (wa.slot m t).trig.counter < ctrDrvrCounters := by
  obtain ⟨hnum, heqpClass⟩ := matches_iff.mp (firstPlace_eq_some.mp hfirst).1
  refine (slotAgrees_iff hname hmodule hconnected fun beyond payload => ?_).trans
    ⟨fun h => h.2.2, fun h => ⟨heqpClass, hnum, h⟩⟩
  have hevent : simulatedEvent beyond (wa.moduleContexts m) ⟨0, conx, payload⟩ =
      ((wa.slot m t).clients,
        { slotEvent (wa.slot m t) t with frame := { (wa.slot m t).trig.frame with value := payload } }) := by
    unfold simulatedEvent
    dsimp only
    rw [if_pos hclass, if_pos rfl, hfirst]
    rfl
  rw [hevent]
  exact ⟨rfl, rfl, rfl, rfl⟩

end Where

/-! ## Runs -/

section Index
variable {beyond : ℕ → BitVec 32} {client : Fin ctrDrvrClientContexts} {conx : CtrDrvrConnection}
  {clss : CtrDrvrConnectionClass} {mcon : CtrDrvrModuleContext}

theorem disableInterrupts_index (tndx : Fin ctrDrvrRamTableSize) :
    (disableInterrupts beyond client clss mcon tndx).moduleIndex = mcon.moduleIndex := by
  unfold disableInterrupts
  dsimp only
  split
  · rfl
  · split
    · rfl
    · rfl

theorem leaveSlot_index (tndx : Fin ctrDrvrRamTableSize) :
    (leaveSlot beyond client clss mcon tndx).moduleIndex = mcon.moduleIndex := by
  unfold leaveSlot
  dsimp only
  split
  · split
    · split
      · exact disableInterrupts_index tndx
      · exact disableInterrupts_index tndx
    · rfl
  · rfl

theorem leaveSource_index (source : Fin ctrDrvrInterruptSources) :
    (leaveSource beyond client mcon source).moduleIndex = mcon.moduleIndex := by
  unfold leaveSource
  dsimp only
  split
  · split
    · exact disableInterrupts_index _
    · rfl
  · rfl

theorem disConnectOne_index (tndx : Fin ctrDrvrRamTableSize) :
    (disConnectOne beyond client clss mcon tndx).moduleIndex = mcon.moduleIndex := by
  unfold disConnectOne
  cases clss with
  | ctim => exact leaveSlot_index tndx
  | ptim => exact leaveSlot_index tndx
  | hard =>
    dsimp only
    split
    · exact leaveSource_index _
    · rfl
  | other value => rfl

theorem sourceLoop_index : (forEach (disConnectSource beyond client) mcon).moduleIndex = mcon.moduleIndex :=
  forEach_frame CtrDrvrModuleContext.moduleIndex (disConnectSource beyond client)
    (fun _ _ => disConnectOne_index _) mcon

theorem disConnectFrom_index : (disConnectFrom beyond client conx mcon).moduleIndex = mcon.moduleIndex := by
  unfold disConnectFrom
  split
  · refine forEach_frame CtrDrvrModuleContext.moduleIndex (disConnectObject beyond client conx) (fun mcon i => ?_) mcon
    unfold disConnectObject
    split
    · exact disConnectOne_index i
    · rfl
  · exact sourceLoop_index

theorem disConnectModule_index : (disConnectModule beyond client mcon).moduleIndex = mcon.moduleIndex := by
  unfold disConnectModule
  rw [sourceLoop_index]
  refine forEach_frame CtrDrvrModuleContext.moduleIndex (disConnectAny beyond client) (fun mcon i => ?_) mcon
  unfold disConnectAny
  split
  · exact disConnectOne_index i
  · rfl

end Index

section Runs
variable {wa wa' : CtrDrvrWorkingArea} {client : Fin ctrDrvrClientContexts}
  {beyond : Fin ctrDrvrModuleContexts → ℕ → BitVec 32}

/-- An installed module knows its number. -/
def Indexed (wa : CtrDrvrWorkingArea) : Prop :=
  ∀ m : Fin ctrDrvrModuleContexts, (m : ℕ) < wa.modules → (wa.moduleContexts m).moduleIndex = m

theorem Indexed.same (h : Indexed wa) (hmodules : wa'.modules = wa.modules)
    (hindex : ∀ m, (wa'.moduleContexts m).moduleIndex = (wa.moduleContexts m).moduleIndex) : Indexed wa' := by
  intro m hm
  rw [hmodules] at hm
  rw [hindex m]
  exact h m hm

theorem setModule_index {midx : Fin ctrDrvrModuleContexts} {mcon : CtrDrvrModuleContext}
    (hmcon : mcon.moduleIndex = (wa.moduleContexts midx).moduleIndex) (m : Fin ctrDrvrModuleContexts) :
    ((wa.setModule midx mcon).moduleContexts m).moduleIndex = (wa.moduleContexts m).moduleIndex := by
  unfold CtrDrvrWorkingArea.setModule
  dsimp only
  by_cases hm : m = midx
  · rw [hm, Function.update_self]
    exact hmcon
  · rw [Function.update_of_ne hm]

theorem Indexed.connect (h : Indexed wa) (client : Fin ctrDrvrClientContexts) (conx : CtrDrvrConnection) :
    Indexed (connect wa client conx).1 := by
  refine h.same ?_ fun m => congrArg Prod.fst (connect_fixed m)
  rw [connect_frame]

theorem Indexed.disConnectAll (h : Indexed wa) (client : Fin ctrDrvrClientContexts) :
    Indexed (disConnectAll beyond wa client) := by
  refine h.same rfl fun m => ?_
  unfold Ctr.disConnectAll
  dsimp only
  split
  · exact disConnectModule_index
  · rfl

theorem Indexed.setAction (h : Indexed wa) (midx : Fin ctrDrvrModuleContexts) (act : CtrDrvrAction) :
    Indexed (setAction wa midx act).1 := by
  unfold Ctr.setAction
  dsimp only
  split
  · split
    · exact h
    · split
      · split
        · exact h.same rfl (setModule_index rfl)
        · exact h
      · exact h.same rfl (setModule_index rfl)
  · exact h

theorem Indexed.createPtim (h : Indexed wa) (ptim : CtrDrvrPtimBinding) : Indexed (createPtimObject wa ptim).1 := by
  unfold createPtimObject
  dsimp only
  split
  · exact h
  · split
    · exact h
    · split
      · split
        · exact h.same rfl (setModule_index rfl)
        · exact h
      · exact h

theorem Indexed.destroyPtim (h : Indexed wa) (ptim : CtrDrvrPtimBinding) : Indexed (destroyPtimObject wa ptim).1 := by
  unfold destroyPtimObject
  split
  · unfold destroyPtimOn
    split
    · exact h
    · split
      · exact h.same rfl (setModule_index rfl)
      · exact h
  · exact h

theorem Indexed.control (h : Indexed wa) (midx : Fin ctrDrvrModuleContexts) (cm : CtrControl) :
    Indexed (control beyond wa client midx cm).1 := by
  unfold Ctr.control
  cases cm with
  | setModule lav =>
    dsimp only
    unfold selectModule
    split
    · rename_i hlav
      intro m hm
      unfold CtrDrvrWorkingArea.setModule
      dsimp only
      by_cases hm' : m = ⟨(lav - 1).toNat, by have := wa.modules_le; omega⟩
      · rw [hm', Function.update_self]
      · rw [Function.update_of_ne hm']
        exact h m hm
    · exact h
  | connect conx => exact h.connect client conx
  | disConnect conx =>
    dsimp only
    split
    · unfold Ctr.disConnect
      split
      · exact h.same rfl (setModule_index disConnectFrom_index)
      · exact h
    · exact h.disConnectAll client
  | setAction act => exact h.setAction midx act
  | createCtim ctim =>
    dsimp only
    unfold createCtimObject
    split
    · exact h
    · split
      · exact h
      · exact h
  | destroyCtim ctim =>
    dsimp only
    unfold destroyCtimObject
    split
    · split
      · exact h
      · exact h
    · exact h
  | changeCtim ctim =>
    dsimp only
    unfold changeCtimFrame
    split
    · split
      · exact h
      · exact h
    · exact h
  | createPtim ptim => exact h.createPtim ptim
  | destroyPtim ptim => exact h.destroyPtim ptim

theorem Indexed.call (h : Indexed wa) (step : CtrStep) : Indexed (ctrCall wa step).1 := by
  unfold ctrCall
  split
  · unfold ctrDrvrOpen
    split
    · exact h
    · exact h
  · unfold ctrDrvrClose
    dsimp only
    split
    · exact h
    · refine Indexed.disConnectAll ?_ step.client
      exact h
  · unfold ctrDrvrIoctl
    dsimp only
    split
    · exact h
    · split
      · exact h
      · exact h.control _ _

/-- The modules know their numbers in every state of a run. -/
theorem indexed_reach {modules : ℕ} {hmodules : modules ≤ ctrDrvrModuleContexts} {found : ℕ → Bool}
    {ok : CtrDrvrWorkingArea → CtrStep → Prop} (h : Reach ctrNext ok (ctrDrvrInstall modules hmodules found) wa) :
    Indexed wa := by
  apply h.invariant
  · intro m hm
    exact if_pos hm
  · intro s step s' hs _ hnext
    obtain rfl := ctrCall_of_next hnext
    exact hs.call step

/-- Which simulated events agree with interrupts, in every state of a run: none of a source with clients, those of the
slots of a counter, asked for with the descriptor of the slot; and no trigger number is rejected. -/
theorem simulated_agree (modules : ℕ) (hmodules : modules ≤ ctrDrvrModuleContexts) (found : ℕ → Bool)
    (s : CtrDrvrWorkingArea) (h : Reach ctrNext (fun _ _ => True) (ctrDrvrInstall modules hmodules found) s)
    (m : Fin ctrDrvrModuleContexts) (hm : (m : ℕ) < s.modules) :
    (∀ k, SourceAgrees s m k ↔ ∀ client : Fin ctrDrvrClientContexts, ((s.moduleContexts m).hardClients k).getLsbD
      client = false) ∧ (∀ t conx, (∃ client : Fin ctrDrvrClientContexts, (s.slot m t).clients.getLsbD client = true) →
      conx.module = (m : ℕ) + 1 → conx.eqpClass ≠ .hard →
      (SlotAgrees s m t conx (t + 1) ↔ conx.eqpClass = (s.slot m t).eqpClass ∧ conx.eqpNum = (s.slot m t).eqpNum ∧
        (s.slot m t).trig.counter < ctrDrvrCounters) ∧
      ((firstPlace fun i => ((s.moduleContexts m).slots i).matches conx) = some t →
        (SlotAgrees s m t conx 0 ↔ (s.slot m t).trig.counter < ctrDrvrCounters))) ∧
    ∀ beyond now wb, wb.connection.module = (m : ℕ) + 1 → (ctrDrvrWrite beyond s now wb).1 = .ok := by
  have hindexed : Indexed s := indexed_reach h
  refine ⟨sourceAgrees_iff, fun t conx hconnected hmodule hclass => ⟨?_, ?_⟩, fun beyond now wb hmodule => ?_⟩
  · exact slotAgrees_number (hindexed m hm) hmodule hclass hconnected
  · exact slotAgrees_first (hindexed m hm) hmodule hclass hconnected
  · rw [ctrDrvrWrite_module hmodule]

end Runs

/-! ## One client at source 0 -/

/-- The event of the object agrees, and that of a source without clients. -/
theorem simulated_soloBoth : SlotAgrees soloBoth 0 0 ⟨1, .ctim, 10⟩ 1 ∧ SourceAgrees soloBoth 0 3 := by
  have hagree := simulated_agree 1 (by decide) (fun _ => true) soloBoth (soloBoth_reach.weaken fun _ _ _ => trivial) 0
    soloBoth_modules.ge
  have hslot : soloBoth.slot 0 0 = { clients := 1, trig := ⟨10, ⟨1, 0, 0⟩, 0⟩, eqpNum := 10, eqpClass := .ctim } :=
    (soloBoth_slot 0).trans (if_pos rfl)
  constructor
  · refine (hagree.2.1 0 ⟨1, .ctim, 10⟩ ⟨0, ?_⟩ rfl (by decide)).1.mpr ?_
    · rw [hslot]
      rfl
    · rw [hslot]
      exact ⟨rfl, rfl, Nat.succ_pos 8⟩
  · exact (hagree.1 3).mpr (by decide +kernel)

/-- The client is told of interrupt 1. -/
theorem not_simulated_soloHard : Reach ctrNext (fun _ _ => True) (ctrDrvrInstall 1 (by decide) fun _ => true) soloHard ∧
    ((soloHard.moduleContexts 0).hardClients 0).getLsbD 0 = true ∧ ¬ SourceAgrees soloHard 0 0 ∧
    ∀ beyond now conx payload, conx.module = 1 → (ctrDrvrWrite beyond soloHard now ⟨2049, conx, payload⟩).1 = .ok := by
  have hbit : ((soloHard.moduleContexts 0).hardClients 0).getLsbD 0 = true := by decide +kernel
  refine ⟨soloHard_reach.weaken fun _ _ _ => trivial, hbit, fun h => ?_, fun beyond now conx payload hmodule => ?_⟩
  · have hfalse := (sourceAgrees_iff 0).mp h 0
    rw [show ((soloHard.moduleContexts 0).hardClients 0).getLsbD ((0 : Fin ctrDrvrClientContexts) : ℕ) =
      true from hbit] at hfalse
    cases hfalse
  · rw [ctrDrvrWrite_module (m := 0) hmodule]

end HtDrivers.Ctr
