import HtDrivers.Ctr.Simulated
import HtDrivers.Lib.Collect

/-! # The connections of a client (`CtrDrvrGET_CLIENT_CONNECTIONS`)

The list is filled by loops over the clients with the Pid, the modules, and the slots and sources of each module.
-/
namespace HtDrivers.Ctr
open HtDrivers.Lib.Collect HtDrivers.Lib.Masks HtDrivers.Lib.Tables HtDrivers.Lib.Transition
set_option autoImplicit false

def ctrDrvrConnections : ℕ := 512

/-! ## The code -/

section Code

/-- The connection is written before the size is tested; the error stands for the return from the loops. -/
def appendConnection (ccn : List CtrDrvrConnection) (conx : CtrDrvrConnection) :
    Except (List CtrDrvrConnection) (List CtrDrvrConnection) :=
  if ctrDrvrConnections ≤ ccn.length then .error (ccn ++ [conx]) else .ok (ccn ++ [conx])

def listSlot (client : Fin ctrDrvrClientContexts) (mcon : CtrDrvrModuleContext) (ccn : List CtrDrvrConnection)
    (k : Fin ctrDrvrRamTableSize) : Except (List CtrDrvrConnection) (List CtrDrvrConnection) :=
  let slot := mcon.slots k
  if clientMask client &&& slot.clients ≠ 0 then
    if ccn.any fun conx => slot.eqpNum == conx.eqpNum && slot.eqpClass == conx.eqpClass then .ok ccn
    else appendConnection ccn ⟨mcon.moduleIndex + 1, slot.eqpClass, slot.eqpNum⟩
  else .ok ccn

/-- `hmsk` behind its loop. -/
def hardMask (client : Fin ctrDrvrClientContexts) (mcon : CtrDrvrModuleContext) : BitVec 32 :=
  forEach (fun hmsk (k : Fin ctrDrvrInterruptSources) =>
    if clientMask client &&& mcon.hardClients k ≠ 0 then hmsk ||| BitVec.twoPow 32 k else hmsk) 0

def listModule (client : Fin ctrDrvrClientContexts) (ccn : List CtrDrvrConnection) (mcon : CtrDrvrModuleContext) :
    Except (List CtrDrvrConnection) (List CtrDrvrConnection) := do
  let ccn ← (List.finRange ctrDrvrRamTableSize).foldlM (listSlot client mcon) ccn
  let hmsk := hardMask client mcon
  if hmsk ≠ 0 then appendConnection ccn ⟨mcon.moduleIndex + 1, .hard, hmsk⟩ else .ok ccn

variable (wa : CtrDrvrWorkingArea) (pid : Fin ctrDrvrClientContexts → BitVec 32) (p : BitVec 32)

/-- The context is in use by the process. -/
def HasPid (client : Fin ctrDrvrClientContexts) : Prop := (wa.clientContexts client).inUse = true ∧ pid client = p

instance (client : Fin ctrDrvrClientContexts) : Decidable (HasPid wa pid p client) :=
  inferInstanceAs (Decidable ((wa.clientContexts client).inUse = true ∧ pid client = p))

def listClient (ccn : List CtrDrvrConnection) (client : Fin ctrDrvrClientContexts) :
    Except (List CtrDrvrConnection) (List CtrDrvrConnection) :=
  if HasPid wa pid p client then
    (List.finRange ctrDrvrModuleContexts).foldlM (fun ccn m => listModule client ccn (wa.moduleContexts m)) ccn
  else .ok ccn

/-- All connections that are written, from index 0 on; `Size` is their number. -/
def getClientConnections : List CtrDrvrConnection :=
  outcome ((List.finRange ctrDrvrClientContexts).foldlM (listClient wa pid p) [])

end Code

/-! ## What is to be listed -/

section Listing
variable (wa : CtrDrvrWorkingArea) (pid : Fin ctrDrvrClientContexts → BitVec 32) (p : BitVec 32)

/-- A client of the process is connected to a slot, or to sources of a module. -/
def ConnectedTo (conx : CtrDrvrConnection) : Prop :=
  ∃ client, ∃ m : Fin ctrDrvrModuleContexts, HasPid wa pid p client ∧ conx.module = (m : ℕ) + 1 ∧
    ((∃ k, (wa.slot m k).clients.getLsbD client = true ∧ conx.eqpClass = (wa.slot m k).eqpClass ∧
      conx.eqpNum = (wa.slot m k).eqpNum) ∨
    (hardMask client (wa.moduleContexts m) ≠ 0 ∧ conx.eqpClass = .hard ∧
      conx.eqpNum = hardMask client (wa.moduleContexts m)))

/-- Nothing is written past the array, and connections that fit are each listed once. -/
structure Lists (ccn : List CtrDrvrConnection) : Prop where
  inside : ccn.length ≤ ctrDrvrConnections
  exact : {conx | ConnectedTo wa pid p conx}.encard ≤ ctrDrvrConnections →
    ccn.Nodup ∧ ∀ conx, conx ∈ ccn ↔ ConnectedTo wa pid p conx

/-- The clients of the process are connected to installed modules, and no slot passes for a hardware connection. -/
structure Regular : Prop where
  slots : ∀ client, HasPid wa pid p client → ∀ m k, (wa.slot m k).clients.getLsbD client = true → (m : ℕ) < wa.modules
  sources : ∀ client, HasPid wa pid p client → ∀ m, hardMask client (wa.moduleContexts m) ≠ 0 → (m : ℕ) < wa.modules
  unmixed : ∀ client, HasPid wa pid p client → ∀ m k, (wa.slot m k).clients.getLsbD client = true →
    ∀ client', HasPid wa pid p client' → ∀ m', hardMask client' (wa.moduleContexts m') ≠ 0 →
      (wa.slot m k).eqpClass = .hard → (wa.slot m k).eqpNum ≠ hardMask client' (wa.moduleContexts m')

/-- No object is connected on two modules. -/
def OneModule : Prop :=
  ∀ client, HasPid wa pid p client → ∀ m k, (wa.slot m k).clients.getLsbD client = true →
    ∀ client', HasPid wa pid p client' → ∀ m' k', (wa.slot m' k').clients.getLsbD client' = true →
      (wa.slot m k).eqpClass = (wa.slot m' k').eqpClass → (wa.slot m k).eqpNum = (wa.slot m' k').eqpNum → m = m'

/-- No two clients of the process are connected to the same sources of a module. -/
def OwnMasks : Prop :=
  ∀ client, HasPid wa pid p client → ∀ client', HasPid wa pid p client' → ∀ m,
    hardMask client (wa.moduleContexts m) ≠ 0 →
      hardMask client (wa.moduleContexts m) = hardMask client' (wa.moduleContexts m) → client = client'

/-- The clients of the process with the modules on which they are connected to sources. -/
def hardPairs : List (Fin ctrDrvrClientContexts × Fin ctrDrvrModuleContexts) :=
  ((List.finRange ctrDrvrClientContexts).product (List.finRange ctrDrvrModuleContexts)).filter fun pair =>
    decide (HasPid wa pid p pair.1 ∧ hardMask pair.1 (wa.moduleContexts pair.2) ≠ 0)

/-- The objects that the clients of the process are connected to, on whatever module. -/
def connectedObjects : Set (CtrDrvrConnectionClass × BitVec 32) :=
  {object | ∃ client m k, HasPid wa pid p client ∧ (wa.slot m k).clients.getLsbD client = true ∧
    object = ((wa.slot m k).eqpClass, (wa.slot m k).eqpNum)}

/-- The entries fit, and are right where the connections fit. -/
structure Fits : Prop where
  room : (hardPairs wa pid p).length + (connectedObjects wa pid p).ncard ≤ ctrDrvrConnections
  right : {conx | ConnectedTo wa pid p conx}.encard ≤ ctrDrvrConnections → OneModule wa pid p ∧ OwnMasks wa pid p

end Listing

/-! ## The entries in the order of the loops -/

section Entries
variable (client : Fin ctrDrvrClientContexts) (mcon : CtrDrvrModuleContext)

/-- What the search in the list compares. -/
def connectionKey (conx : CtrDrvrConnection) : CtrDrvrConnectionClass × BitVec 32 := (conx.eqpClass, conx.eqpNum)

def slotEntry (k : Fin ctrDrvrRamTableSize) : Option (Entry CtrDrvrConnection) :=
  if (mcon.slots k).clients.getLsbD client then
    some (.fresh ⟨mcon.moduleIndex + 1, (mcon.slots k).eqpClass, (mcon.slots k).eqpNum⟩)
  else none

def hardEntry : Option (Entry CtrDrvrConnection) :=
  if hardMask client mcon ≠ 0 then some (.always ⟨mcon.moduleIndex + 1, .hard, hardMask client mcon⟩) else none

def moduleEntries : List (Entry CtrDrvrConnection) :=
  (List.finRange ctrDrvrRamTableSize).filterMap (slotEntry client mcon) ++ (hardEntry client mcon).toList

def clientEntries (wa : CtrDrvrWorkingArea) : List (Entry CtrDrvrConnection) :=
  (List.finRange ctrDrvrModuleContexts).flatMap fun m => moduleEntries client (wa.moduleContexts m)

variable (wa : CtrDrvrWorkingArea) (pid : Fin ctrDrvrClientContexts → BitVec 32) (p : BitVec 32)

def connectionEntries : List (Entry CtrDrvrConnection) :=
  (List.finRange ctrDrvrClientContexts).flatMap fun client =>
    if HasPid wa pid p client then clientEntries client wa else []

variable {client mcon} {ccn : List CtrDrvrConnection} {k : Fin ctrDrvrRamTableSize}

theorem clientMask_and_ne_zero {clients : BitVec 32} :
    clientMask client &&& clients ≠ 0 ↔ clients.getLsbD client = true :=
  twoPow_and_ne_zero (client.isLt.trans (by decide))

/-- The mask has the sources that the client is connected to. -/
theorem hardMask_bit {b : ℕ} : (hardMask client mcon).getLsbD b = true ↔
    ∃ k : Fin ctrDrvrInterruptSources, (mcon.hardClients k).getLsbD client = true ∧ b = k := by
  unfold hardMask
  rw [forEach_collect (fun _ _ => True) (fun hmsk : BitVec 32 => hmsk.getLsbD b = true)
    (fun k => (mcon.hardClients k).getLsbD client = true ∧ b = k) _ _ trivial fun _ _ _ => trivial]
  · simp
  · intro k hmsk _
    simp only [clientMask_and_ne_zero]
    split
    · rename_i hbit
      rw [or_twoPow_bit (k.isLt.trans (by decide)), and_iff_right hbit]
    · rename_i hbit
      rw [or_iff_left fun hboth => hbit hboth.1]

/-- The search in the list. -/
theorem found_iff {slot : TrigSlot} :
    (ccn.any fun conx => slot.eqpNum == conx.eqpNum && slot.eqpClass == conx.eqpClass) = true ↔
      (slot.eqpClass, slot.eqpNum) ∈ ccn.map connectionKey := by
  rw [List.any_eq_true, List.mem_map]
  refine exists_congr fun conx => and_congr_right fun _ => ?_
  rw [Bool.and_eq_true, beq_iff_eq, beq_iff_eq, connectionKey, Prod.mk.injEq]
  exact ⟨fun h => ⟨h.2.symm, h.1.symm⟩, fun h => ⟨h.2.symm, h.1.symm⟩⟩

theorem listSlot_some {e : Entry CtrDrvrConnection} (h : slotEntry client mcon k = some e) :
    listSlot client mcon ccn k = addUpTo connectionKey ctrDrvrConnections ccn e := by
  unfold slotEntry at h
  split at h
  · rename_i hbit
    obtain rfl := Option.some.inj h
    unfold listSlot
    rw [if_pos (clientMask_and_ne_zero.mpr hbit)]
    split
    · rename_i hfound
      exact (if_neg fun htaken => htaken (found_iff.mp hfound)).symm
    · rename_i hnew
      exact (if_pos fun hmem => hnew (found_iff.mpr hmem)).symm
  · cases h

theorem listSlot_none (h : slotEntry client mcon k = none) : listSlot client mcon ccn k = .ok ccn := by
  unfold slotEntry at h
  split at h
  · cases h
  · rename_i hbit
    exact if_neg fun hmask => hbit (clientMask_and_ne_zero.mp hmask)

theorem listSlots_eq (ks : List (Fin ctrDrvrRamTableSize)) : ks.foldlM (listSlot client mcon) ccn =
    (ks.filterMap (slotEntry client mcon)).foldlM (addUpTo connectionKey ctrDrvrConnections) ccn := by
  induction ks generalizing ccn with
  | nil => rfl
  | cons k ks ih =>
    rw [List.foldlM_cons]
    simp only [ih]
    cases hentry : slotEntry client mcon k with
    | some e =>
      rw [List.filterMap_cons_some hentry, List.foldlM_cons, listSlot_some hentry]
    | none =>
      rw [List.filterMap_cons_none hentry, listSlot_none hentry]
      rfl

theorem listModule_eq : listModule client ccn mcon =
    (moduleEntries client mcon).foldlM (addUpTo connectionKey ctrDrvrConnections) ccn := by
  unfold listModule moduleEntries
  rw [List.foldlM_append, listSlots_eq]
  refine bind_congr ?_
  intro ccn
  unfold hardEntry
  dsimp only
  split
  · rw [Option.toList_some, List.foldlM_cons]
    simp only [List.foldlM_nil, bind_pure]
    exact (if_pos trivial).symm
  · rfl

/-- The loops collect the entries, as far as there is room. -/
theorem getClientConnections_eq : getClientConnections wa pid p =
    outcome ((connectionEntries wa pid p).foldlM (addUpTo connectionKey ctrDrvrConnections) []) := by
  unfold getClientConnections connectionEntries
  rw [foldlM_flatMap]
  refine congrArg (fun f => outcome (List.foldlM f [] (List.finRange ctrDrvrClientContexts))) ?_
  funext ccn client
  unfold listClient
  split
  · rw [clientEntries, foldlM_flatMap]
    simp only [listModule_eq]
  · rfl

/-! ## The entries as connections -/

variable {wa pid p} {e : Entry CtrDrvrConnection} {conx : CtrDrvrConnection} {m : Fin ctrDrvrModuleContexts}

theorem slotEntry_iff : slotEntry client mcon k = some e ↔ (mcon.slots k).clients.getLsbD client = true ∧
    e = .fresh ⟨mcon.moduleIndex + 1, (mcon.slots k).eqpClass, (mcon.slots k).eqpNum⟩ := by
  unfold slotEntry
  split
  · rename_i hbit
    rw [Option.some.injEq, eq_comm]
    exact ⟨fun h => ⟨hbit, h⟩, fun h => h.2⟩
  · rename_i hbit
    exact iff_of_false (Option.some_ne_none e).symm fun h => hbit h.1

theorem hardEntry_iff : hardEntry client mcon = some e ↔ hardMask client mcon ≠ 0 ∧
    e = .always ⟨mcon.moduleIndex + 1, .hard, hardMask client mcon⟩ := by
  unfold hardEntry
  split
  · rename_i hmask
    rw [Option.some.injEq, eq_comm]
    exact ⟨fun h => ⟨hmask, h⟩, fun h => h.2⟩
  · rename_i hmask
    exact iff_of_false (Option.some_ne_none e).symm fun h => hmask h.1

theorem mem_moduleEntries : e ∈ moduleEntries client mcon ↔
    (∃ k, slotEntry client mcon k = some e) ∨ hardEntry client mcon = some e := by
  rw [moduleEntries, List.mem_append, List.mem_filterMap, Option.mem_toList]
  simp only [List.mem_finRange, true_and]

theorem mem_connectionEntries : e ∈ connectionEntries wa pid p ↔
    ∃ client, HasPid wa pid p client ∧ ∃ m, e ∈ moduleEntries client (wa.moduleContexts m) := by
  unfold connectionEntries clientEntries
  rw [List.mem_flatMap]
  simp only [List.mem_finRange, true_and]
  refine exists_congr fun client => ?_
  split
  · rename_i hpid
    rw [List.mem_flatMap]
    simp only [List.mem_finRange, true_and, hpid]
  · rename_i hpid
    exact iff_of_false List.not_mem_nil fun h => hpid h.1

theorem mem_fresh_connectionEntries : conx ∈ fresh (connectionEntries wa pid p) ↔
    ∃ client, HasPid wa pid p client ∧ ∃ m k, (wa.slot m k).clients.getLsbD client = true ∧
      conx = ⟨(wa.moduleContexts m).moduleIndex + 1, (wa.slot m k).eqpClass, (wa.slot m k).eqpNum⟩ := by
  rw [mem_fresh, mem_connectionEntries]
  simp only [mem_moduleEntries, slotEntry_iff, hardEntry_iff, Entry.fresh.injEq, reduceCtorEq, and_false, or_false]
  rfl

/-- How the sources of a module are listed. -/
def hardConnection (wa : CtrDrvrWorkingArea) (pair : Fin ctrDrvrClientContexts × Fin ctrDrvrModuleContexts) :
    CtrDrvrConnection :=
  ⟨(wa.moduleContexts pair.2).moduleIndex + 1, .hard, hardMask pair.1 (wa.moduleContexts pair.2)⟩

theorem mem_hardPairs {pair : Fin ctrDrvrClientContexts × Fin ctrDrvrModuleContexts} : pair ∈ hardPairs wa pid p ↔
    HasPid wa pid p pair.1 ∧ hardMask pair.1 (wa.moduleContexts pair.2) ≠ 0 := by
  rw [hardPairs, List.mem_filter, decide_eq_true_eq]
  exact and_iff_right (List.mem_product.mpr ⟨List.mem_finRange _, List.mem_finRange _⟩)

theorem hardPairs_nodup : (hardPairs wa pid p).Nodup :=
  ((List.nodup_finRange _).product (List.nodup_finRange _)).filter _

theorem always_moduleEntries : always (moduleEntries client mcon) =
    if hardMask client mcon ≠ 0 then [⟨mcon.moduleIndex + 1, .hard, hardMask client mcon⟩] else [] := by
  have hslots : ((List.finRange ctrDrvrRamTableSize).filterMap (slotEntry client mcon)).filterMap
    Entry.always? = [] := by
    rw [List.filterMap_filterMap, List.filterMap_eq_nil_iff]
    intro k _
    unfold slotEntry
    split
    · rfl
    · rfl
  rw [always, moduleEntries, List.filterMap_append, hslots, List.nil_append, hardEntry]
  split
  · rfl
  · rfl

theorem flatMap_ite {α β : Type} (q : α → Prop) [DecidablePred q] (f : α → β) (as : List α) :
    (as.flatMap fun a => if q a then [f a] else []) = (as.filter fun a => decide (q a)).map f := by
  induction as with
  | nil => rfl
  | cons a as ih =>
    rw [List.flatMap_cons, ih, List.filter_cons]
    by_cases hq : q a <;> simp [hq]

/-- The sources are listed once for each client and module. -/
theorem always_connectionEntries :
    always (connectionEntries wa pid p) = (hardPairs wa pid p).map (hardConnection wa) := by
  rw [connectionEntries, always_flatMap, hardPairs, List.product, List.filter_flatMap, List.map_flatMap]
  refine List.flatMap_congr fun client _ => ?_
  rw [List.filter_map, List.map_map]
  by_cases hpid : HasPid wa pid p client
  · have hone : ∀ m ∈ List.finRange ctrDrvrModuleContexts, always (moduleEntries client (wa.moduleContexts m)) =
        if hardMask client (wa.moduleContexts m) ≠ 0 then [hardConnection wa (client, m)] else [] := by
      intro m _
      rw [always_moduleEntries]
      rfl
    rw [if_pos hpid, clientEntries, always_flatMap, List.flatMap_congr hone, flatMap_ite]
    refine congrArg₂ List.map rfl (List.filter_congr fun m _ => ?_)
    exact decide_eq_decide.mpr (and_iff_right hpid).symm
  · rw [if_neg hpid, always, List.filterMap_nil, eq_comm, List.map_eq_nil_iff, List.filter_eq_nil_iff]
    intro m _ hboth
    exact hpid (of_decide_eq_true hboth).1

end Entries

/-! ## When the list is right -/

section Right
variable {wa : CtrDrvrWorkingArea} {pid : Fin ctrDrvrClientContexts → BitVec 32} {p : BitVec 32}
  {conx : CtrDrvrConnection}

theorem mem_always_connectionEntries : conx ∈ always (connectionEntries wa pid p) ↔
    ∃ client, HasPid wa pid p client ∧ ∃ m, hardMask client (wa.moduleContexts m) ≠ 0 ∧
      conx = hardConnection wa (client, m) := by
  rw [always_connectionEntries, List.mem_map]
  constructor
  · rintro ⟨⟨client, m⟩, hpair, rfl⟩
    obtain ⟨hpid, hmask⟩ := mem_hardPairs.mp hpair
    exact ⟨client, hpid, m, hmask, rfl⟩
  · rintro ⟨client, hpid, m, hmask, rfl⟩
    exact ⟨(client, m), mem_hardPairs.mpr ⟨hpid, hmask⟩, rfl⟩

theorem Regular.unmixed_entries (h : Regular wa pid p) : Unmixed connectionKey (connectionEntries wa pid p) := by
  intro a ha b hb hkey
  obtain ⟨client, hpid, m, k, hbit, rfl⟩ := mem_fresh_connectionEntries.mp ha
  obtain ⟨client', hpid', m', hmask, rfl⟩ := mem_always_connectionEntries.mp hb
  obtain ⟨hclass, hnum⟩ := Prod.mk.inj hkey
  exact h.unmixed client hpid m k hbit client' hpid' m' hmask hclass hnum

theorem Regular.values_iff (h : Regular wa pid p) (hindexed : Indexed wa) :
    (∃ e ∈ connectionEntries wa pid p, e.value = conx) ↔ ConnectedTo wa pid p conx := by
  obtain ⟨module, eqpClass, eqpNum⟩ := conx
  rw [mem_values, mem_always_connectionEntries, mem_fresh_connectionEntries]
  constructor
  · rintro (⟨client, hpid, m, hmask, hconx⟩ | ⟨client, hpid, m, k, hbit, hconx⟩)
    · rw [hardConnection, hindexed m (h.sources client hpid m hmask)] at hconx
      cases hconx
      exact ⟨client, m, hpid, rfl, .inr ⟨hmask, rfl, rfl⟩⟩
    · rw [hindexed m (h.slots client hpid m k hbit)] at hconx
      cases hconx
      exact ⟨client, m, hpid, rfl, .inl ⟨k, hbit, rfl, rfl⟩⟩
  · rintro ⟨client, m, hpid, hmodule, ⟨k, hbit, hclass, hnum⟩ | ⟨hmask, hclass, hnum⟩⟩
    · refine .inr ⟨client, hpid, m, k, hbit, ?_⟩
      rw [hindexed m (h.slots client hpid m k hbit), CtrDrvrConnection.mk.injEq]
      exact ⟨hmodule, hclass, hnum⟩
    · refine .inl ⟨client, hpid, m, hmask, ?_⟩
      rw [hardConnection, hindexed m (h.sources client hpid m hmask), CtrDrvrConnection.mk.injEq]
      exact ⟨hmodule, hclass, hnum⟩

theorem fresh_keys : ((fresh (connectionEntries wa pid p)).map connectionKey).toFinset.card =
    (connectedObjects wa pid p).ncard := by
  rw [← Set.ncard_coe_finset]
  congr 1
  ext object
  rw [Finset.mem_coe, List.mem_toFinset, List.mem_map]
  constructor
  · rintro ⟨conx, hconx, rfl⟩
    obtain ⟨client, hpid, m, k, hbit, rfl⟩ := mem_fresh_connectionEntries.mp hconx
    exact ⟨client, m, k, hpid, hbit, rfl⟩
  · rintro ⟨client, m, k, hpid, hbit, rfl⟩
    exact ⟨_, mem_fresh_connectionEntries.mpr ⟨client, hpid, m, k, hbit, rfl⟩, rfl⟩

theorem Regular.ownMasks_iff (h : Regular wa pid p) (hindexed : Indexed wa) :
    (always (connectionEntries wa pid p)).Nodup ↔ OwnMasks wa pid p := by
  rw [always_connectionEntries, List.nodup_map_iff_inj_on hardPairs_nodup]
  constructor
  · intro hinj client hpid client' hpid' m hmask hsame
    have hmask' : hardMask client' (wa.moduleContexts m) ≠ 0 := hsame ▸ hmask
    have hpair := hinj (client, m) (mem_hardPairs.mpr ⟨hpid, hmask⟩) (client', m) (mem_hardPairs.mpr ⟨hpid', hmask'⟩)
      (by rw [hardConnection, hardConnection, hsame])
    exact congrArg Prod.fst hpair
  · rintro hown ⟨client, m⟩ hpair ⟨client', m'⟩ hpair' heq
    obtain ⟨hpid, hmask⟩ := mem_hardPairs.mp hpair
    obtain ⟨hpid', hmask'⟩ := mem_hardPairs.mp hpair'
    rw [hardConnection, hardConnection, hindexed m (h.sources client hpid m hmask),
      hindexed m' (h.sources client' hpid' m' hmask')] at heq
    obtain ⟨hmodule, -, hnum⟩ := CtrDrvrConnection.mk.inj heq
    obtain rfl : m = m' := Fin.ext (Nat.succ.inj hmodule)
    rw [hown client hpid client' hpid' m hmask hnum]

theorem Regular.oneModule_iff (h : Regular wa pid p) (hindexed : Indexed wa) :
    (∀ a ∈ fresh (connectionEntries wa pid p), ∀ b ∈ fresh (connectionEntries wa pid p),
      connectionKey a = connectionKey b → a = b) ↔ OneModule wa pid p := by
  constructor
  · intro hdetermined client hpid m k hbit client' hpid' m' k' hbit' hclass hnum
    have heq := hdetermined _ (mem_fresh_connectionEntries.mpr ⟨client, hpid, m, k, hbit, rfl⟩) _
      (mem_fresh_connectionEntries.mpr ⟨client', hpid', m', k', hbit', rfl⟩) (congrArg₂ Prod.mk hclass hnum)
    rw [hindexed m (h.slots client hpid m k hbit), hindexed m' (h.slots client' hpid' m' k' hbit')] at heq
    exact Fin.ext (Nat.succ.inj (CtrDrvrConnection.mk.inj heq).1)
  · intro hone a ha b hb hkey
    obtain ⟨client, hpid, m, k, hbit, rfl⟩ := mem_fresh_connectionEntries.mp ha
    obtain ⟨client', hpid', m', k', hbit', rfl⟩ := mem_fresh_connectionEntries.mp hb
    obtain ⟨hclass, hnum⟩ := Prod.mk.inj hkey
    obtain rfl := hone client hpid m k hbit client' hpid' m' k' hbit' hclass hnum
    exact congrArg₂ (CtrDrvrConnection.mk _) hclass hnum

theorem Regular.lists_iff_fits (h : Regular wa pid p) (hindexed : Indexed wa) :
    Lists wa pid p (getClientConnections wa pid p) ↔ Fits wa pid p := by
  have hroom : (getClientConnections wa pid p).length ≤ ctrDrvrConnections ↔
      (hardPairs wa pid p).length + (connectedObjects wa pid p).ncard ≤ ctrDrvrConnections := by
    rw [getClientConnections_eq, outcome_length_le_iff, collect_length h.unmixed_entries, always_connectionEntries,
      List.length_map, fresh_keys]
  have hexact : (getClientConnections wa pid p).length ≤ ctrDrvrConnections →
      (((getClientConnections wa pid p).Nodup ∧
        ∀ conx, conx ∈ getClientConnections wa pid p ↔ ConnectedTo wa pid p conx) ↔
          OneModule wa pid p ∧ OwnMasks wa pid p) := by
    intro hlength
    rw [getClientConnections_eq] at hlength ⊢
    rw [outcome_eq ((outcome_length_le_iff _ _).mp hlength), and_comm (a := OneModule wa pid p),
      ← h.ownMasks_iff hindexed, ← h.oneModule_iff hindexed, ← collect_exact_iff h.unmixed_entries]
    simp only [h.values_iff hindexed]
  constructor
  · exact fun hlists => ⟨hroom.mp hlists.inside, fun hfit => (hexact hlists.inside).mp (hlists.exact hfit)⟩
  · exact fun hfits => ⟨hroom.mpr hfits.room, fun hfit => (hexact (hroom.mpr hfits.room)).mpr (hfits.right hfit)⟩

end Right

/-- In every state of a run, the list is right for a process where its entries fit and, if the connections fit, no
object is connected on two modules and no mask twice on one. -/
theorem getClientConnections_lists_iff (modules : ℕ) (hmodules : modules ≤ ctrDrvrModuleContexts) (found : ℕ → Bool)
    (s : CtrDrvrWorkingArea) (h : Reach ctrNext (fun _ _ => True) (ctrDrvrInstall modules hmodules found) s)
    (pid : Fin ctrDrvrClientContexts → BitVec 32) (p : BitVec 32) (hregular : Regular s pid p) :
    Lists s pid p (getClientConnections s pid p) ↔ Fits s pid p :=
  hregular.lists_iff_fits (indexed_reach h)

section Example

/-- Two modules are found, client 0 opens one and creates the CTIM object 10. -/
def duoStart : CtrDrvrWorkingArea :=
  (createCtimObject (ctrDrvrOpen (ctrDrvrInstall 2 (by decide) fun _ => true) 0).1 ⟨10, ⟨1, 0, 0⟩⟩).1

/-- The client is connected to the object on the first module. -/
def duoOne : CtrDrvrWorkingArea := (connect duoStart 0 ⟨1, .ctim, 10⟩).1

/-- The client is connected to the object on both. -/
def duoBoth : CtrDrvrWorkingArea := (connect duoOne 0 ⟨2, .ctim, 10⟩).1

/-- A slot of the object with client 0. -/
def duoSlot : TrigSlot := { clients := 1, trig := ⟨10, ⟨1, 0, 0⟩, 0⟩, eqpNum := 10, eqpClass := .ctim }

theorem duo_names : (1 : ℕ) = ((0 : Fin ctrDrvrModuleContexts) : ℕ) + 1 ∧
    (2 : ℕ) = ((1 : Fin ctrDrvrModuleContexts) : ℕ) + 1 := ⟨rfl, rfl⟩

theorem duoOne_slot (m : Fin ctrDrvrModuleContexts) (k : Fin ctrDrvrRamTableSize) :
    duoOne.slot m k = if m = 0 ∧ k = 0 then duoSlot else freeSlot := by
  rw [ite_and]
  exact connect_ctim_first_slot duo_names.1 rfl (fun _ => rfl) rfl m k

theorem duoOne_free (k : Fin ctrDrvrRamTableSize) : duoOne.slot 1 k = freeSlot := by
  rw [duoOne_slot, if_neg fun h => absurd h.1 (by decide)]

theorem duoOne_frame : ctimFrame duoOne 10 = some ⟨1, 0, 0⟩ := by
  unfold ctimFrame
  rw [duoOne, connect_frame]
  rfl

theorem duoBoth_slot (m : Fin ctrDrvrModuleContexts) (k : Fin ctrDrvrRamTableSize) :
    duoBoth.slot m k = if (m = 0 ∨ m = 1) ∧ k = 0 then duoSlot else freeSlot := by
  have hslot : duoBoth.slot m k = if m = 1 then (if k = 0 then duoSlot else freeSlot) else duoOne.slot m k :=
    connect_ctim_first_slot duo_names.2 rfl duoOne_free duoOne_frame m k
  rw [hslot, duoOne_slot]
  by_cases hm : m = 1
  · simp [hm]
  · simp [hm]

theorem duoOne_sources (m : Fin ctrDrvrModuleContexts) : (duoOne.moduleContexts m).hardClients = fun _ => 0 :=
  connect_ctim_first_sources duo_names.1 rfl (fun _ => rfl) rfl m

theorem duoBoth_sources (m : Fin ctrDrvrModuleContexts) : (duoBoth.moduleContexts m).hardClients = fun _ => 0 :=
  (connect_ctim_first_sources duo_names.2 rfl duoOne_free duoOne_frame m).trans (duoOne_sources m)

section Slots
variable {wa : CtrDrvrWorkingArea} {q : Fin ctrDrvrModuleContexts → Prop} [DecidablePred q]
  {pid : Fin ctrDrvrClientContexts → BitVec 32} {p : BitVec 32}

theorem hardMask_eq_zero {client : Fin ctrDrvrClientContexts} {mcon : CtrDrvrModuleContext}
    (h : mcon.hardClients = fun _ => 0) : hardMask client mcon = 0 := by
  by_contra hne
  obtain ⟨b, hb⟩ := ne_zero_iff.mp hne
  obtain ⟨k, hbit, -⟩ := hardMask_bit.mp hb
  rw [h] at hbit
  simp at hbit

theorem duoSlot_of_bit (hslots : ∀ m k, wa.slot m k = if q m ∧ k = 0 then duoSlot else freeSlot)
    {client : Fin ctrDrvrClientContexts} {m : Fin ctrDrvrModuleContexts} {k : Fin ctrDrvrRamTableSize}
    (h : (wa.slot m k).clients.getLsbD client = true) : q m ∧ wa.slot m k = duoSlot := by
  rw [hslots] at h ⊢
  split at h
  · rename_i hq
    rw [if_pos hq]
    exact ⟨hq.1, rfl⟩
  · simp [freeSlot] at h

theorem duo_regular (hslots : ∀ m k, wa.slot m k = if q m ∧ k = 0 then duoSlot else freeSlot)
    (hsources : ∀ m, (wa.moduleContexts m).hardClients = fun _ => 0)
    (hinstalled : ∀ m : Fin ctrDrvrModuleContexts, q m → (m : ℕ) < wa.modules) : Regular wa pid p :=
  ⟨fun _ _ m _ hbit => hinstalled m (duoSlot_of_bit hslots hbit).1,
    fun _ _ m hmask => absurd (hardMask_eq_zero (hsources m)) hmask,
    fun _ _ _ _ _ _ _ m hmask => absurd (hardMask_eq_zero (hsources m)) hmask⟩

theorem duo_connections (hslots : ∀ m k, wa.slot m k = if q m ∧ k = 0 then duoSlot else freeSlot)
    (hsources : ∀ m, (wa.moduleContexts m).hardClients = fun _ => 0) {conx : CtrDrvrConnection}
    (h : ConnectedTo wa pid p conx) : ∃ m, q m ∧ conx = ⟨m + 1, .ctim, 10⟩ := by
  obtain ⟨client, m, -, hmodule, ⟨k, hbit, hclass, hnum⟩ | ⟨hmask, -⟩⟩ := h
  · obtain ⟨hq, hslot⟩ := duoSlot_of_bit hslots hbit
    refine ⟨m, hq, ?_⟩
    obtain ⟨module, eqpClass, eqpNum⟩ := conx
    rw [CtrDrvrConnection.mk.injEq]
    rw [hslot] at hclass hnum
    exact ⟨hmodule, hclass, hnum⟩
  · exact absurd (hardMask_eq_zero (hsources m)) hmask

end Slots

theorem duoStart_reach : Reach ctrNext (fun _ _ => True) (ctrDrvrInstall 2 (by decide) fun _ => true) duoStart := by
  have hopened : Reach ctrNext (fun _ _ => True) (ctrDrvrInstall 2 (by decide) fun _ => true)
      (ctrDrvrOpen (ctrDrvrInstall 2 (by decide) fun _ => true) 0).1 :=
    Reach.refl.step (a := ⟨0, .opens, fun _ _ => 0⟩) trivial rfl
  exact hopened.step (a := ⟨0, .ioctl (.createCtim ⟨10, ⟨1, 0, 0⟩⟩), fun _ _ => 0⟩) trivial rfl

theorem duoOne_reach : Reach ctrNext (fun _ _ => True) (ctrDrvrInstall 2 (by decide) fun _ => true) duoOne :=
  duoStart_reach.step (a := ⟨0, .ioctl (.connect ⟨1, .ctim, 10⟩), fun _ _ => 0⟩) trivial rfl

theorem duoBoth_reach : Reach ctrNext (fun _ _ => True) (ctrDrvrInstall 2 (by decide) fun _ => true) duoBoth := by
  have hopen : (duoOne.clientContexts 0).inUse = true := congrArg ClientModule.inUse (connect_clientContexts 0)
  have hmodule : (duoOne.moduleContexts (duoOne.clientContexts 0).moduleIndex).inUse = true := connect_clientModule 0
  refine duoOne_reach.step (a := ⟨0, .ioctl (.connect ⟨2, .ctim, 10⟩), fun _ _ => 0⟩) trivial ?_
  unfold ctrNext
  rw [if_neg (by rintro ⟨⟩), ctrCall_ioctl hopen hmodule]
  rfl

/-- One connection, to the object on the first module. -/
theorem getClientConnections_lists_duoOne :
    Lists duoOne (fun _ => 7) 7 (getClientConnections duoOne (fun _ => 7) 7) := by
  have hmodules : duoOne.modules = 2 := connect_modules
  have hregular : Regular duoOne (fun _ => 7) 7 := by
    refine duo_regular duoOne_slot duoOne_sources ?_
    rintro m rfl
    rw [hmodules]
    decide
  refine (getClientConnections_lists_iff 2 (by decide) _ duoOne duoOne_reach _ _ hregular).mpr ⟨?_, fun _ => ⟨?_, ?_⟩⟩
  · have hpairs : hardPairs duoOne (fun _ => 7) 7 = [] := by
      refine List.eq_nil_iff_forall_not_mem.mpr fun pair hpair => ?_
      exact (mem_hardPairs.mp hpair).2 (hardMask_eq_zero (duoOne_sources _))
    have hobjects : connectedObjects duoOne (fun _ => 7) 7 ⊆ {(.ctim, 10)} := by
      rintro object ⟨client, m, k, -, hbit, rfl⟩
      rw [(duoSlot_of_bit duoOne_slot hbit).2]
      rfl
    have hone := Set.ncard_le_ncard hobjects
    rw [Set.ncard_singleton] at hone
    rw [hpairs, List.length_nil, Nat.zero_add]
    exact hone.trans (by decide)
  · intro _ _ m _ hbit _ _ m' _ hbit' _ _
    rw [(duoSlot_of_bit duoOne_slot hbit).1, (duoSlot_of_bit duoOne_slot hbit').1]
  · exact fun _ _ _ _ m hmask => absurd (hardMask_eq_zero (duoOne_sources m)) hmask

/-- The object is listed for one of the two modules only. -/
theorem not_getClientConnections_lists :
    ¬∀ s, Reach ctrNext (fun _ _ => True) (ctrDrvrInstall 2 (by decide) fun _ => true) s →
      ∀ (pid : Fin ctrDrvrClientContexts → BitVec 32) (p : BitVec 32),
      Lists s pid p (getClientConnections s pid p) := by
  intro h
  have hmodules : duoBoth.modules = 2 := connect_modules.trans connect_modules
  have hregular : Regular duoBoth (fun _ => 7) 7 := by
    refine duo_regular duoBoth_slot duoBoth_sources ?_
    rintro m (rfl | rfl)
    · rw [hmodules]
      decide
    · rw [hmodules]
      decide
  have hpid : HasPid duoBoth (fun _ => 7) 7 0 :=
    ⟨congrArg ClientModule.inUse ((connect_clientContexts 0).trans (connect_clientContexts 0)), rfl⟩
  have hfew : {conx | ConnectedTo duoBoth (fun _ => 7) 7 conx} ⊆ {⟨1, .ctim, 10⟩, ⟨2, .ctim, 10⟩} := by
    intro conx hconx
    obtain ⟨m, rfl | rfl, rfl⟩ := duo_connections duoBoth_slot duoBoth_sources hconx
    · exact .inl rfl
    · exact .inr rfl
  have hfits := (hregular.lists_iff_fits (indexed_reach duoBoth_reach)).mp (h duoBoth duoBoth_reach (fun _ => 7) 7)
  have hcount : {conx | ConnectedTo duoBoth (fun _ => 7) 7 conx}.encard ≤ ctrDrvrConnections := by
    refine (Set.encard_le_encard hfew).trans ?_
    rw [Set.encard_pair (by decide)]
    exact Nat.cast_le.mpr (by decide : 2 ≤ ctrDrvrConnections)
  have hone := (hfits.right hcount).1
  have hfirst : duoBoth.slot 0 0 = duoSlot := (duoBoth_slot 0 0).trans (if_pos ⟨.inl rfl, rfl⟩)
  have hsecond : duoBoth.slot 1 0 = duoSlot := (duoBoth_slot 1 0).trans (if_pos ⟨.inr rfl, rfl⟩)
  have hsame := hone 0 hpid 0 0 (by rw [hfirst]; rfl) 0 hpid 1 0 (by rw [hsecond]; rfl) (by rw [hfirst, hsecond])
    (by rw [hfirst, hsecond])
  exact absurd hsame (by decide)

end Example

end HtDrivers.Ctr
