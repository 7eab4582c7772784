import HtDrivers.Xmem.Messages
import HtDrivers.Xmem.SegTable
import HtDrivers.Xmem.ReadQueue

/-! How the nodes get to know each other by INIT messages: the driver (`xmemDrvr.c`) and the daemon (`XmemDaemon.c`) on
every node of a network. A node is known by its number, from 1 to 32. -/
namespace HtDrivers.Xmem
open HtDrivers.Lib.Transition
set_option autoImplicit false

def xmemInitMessageSeenBy : BitVec 32 := 0
def xmemInitMessageReset : BitVec 32 := 1

/-- A node that has started is connected to PENDING_INIT. `nodes` is `Wa->Nodes`, and `events` are the data of the
INITIALIZED events that the daemon has not handled. -/
structure DiscoveryNode where
  started : Bool
  nodes : BitVec 32
  events : List (BitVec 32)

/-- The nodes, and the data of the INIT messages on their way from one node to another. -/
structure Discovery where
  node : ℕ → DiscoveryNode
  wire : ℕ → ℕ → List (BitVec 32)

inductive DiscoveryStep
  | reset (k : ℕ)
  | coldStart (k : ℕ)
  | warmStart (k : ℕ)
  | deliver (sender receiver : ℕ)
  | handle (k : ℕ)

section Operations
variable (net : Finset ℕ) (s : Discovery)

/-- The data of the INIT interrupts that node `r` gets from a broadcast of node `k`. -/
def initInterrupts (k r : ℕ) (data : BitVec 32) : List (BitVec 32) :=
  match sendInterrupt ⟨1, fun _ => k⟩ ⟨1, 0, 0, xmemDrvrNicInitialized ||| xmemDrvrNicBroadcast, data⟩ with
  | .ok acts => (interruptsAt k r 0 0 acts).map Interrupt.data
  | .error _ => []

/-- The queue of the daemon, which drops what it has no room for. -/
def pushEvents (events new : List (BitVec 32)) : List (BitVec 32) :=
  new.foldl (fun events data => if xmemDrvrQueueSize ≤ events.length then events else events ++ [data]) events

def setNode (k : ℕ) (node : DiscoveryNode) : Discovery := { s with node := Function.update s.node k node }

/-- `SendInterrupt` of an INIT; the sender gets its own event. -/
def broadcastInit (k : ℕ) (data : BitVec 32) : Discovery :=
  { node := Function.update s.node k { s.node k with events := pushEvents (s.node k).events (initInterrupts k k data) }
    wire := fun a b => if a = k ∧ b ≠ k ∧ b ∈ net then s.wire a b ++ initInterrupts k b data else s.wire a b }

/-- `Reset` of the driver with PENDING_INIT connected. -/
def resetNode (k : ℕ) : Discovery :=
  broadcastInit net (setNode s k { s.node k with nodes := nodeMask k }) k (nodeMask k)

/-- A daemon starts with a queue of its own. Before a cold start the library resets the module, and nothing of the
daemon runs between this and its message. -/
def coldStartNode (k : ℕ) : Discovery :=
  broadcastInit net (resetNode net (setNode s k ⟨true, (s.node k).nodes, []⟩) k) k xmemInitMessageReset

def warmStartNode (k : ℕ) : Discovery :=
  broadcastInit net (setNode s k ⟨true, (s.node k).nodes, []⟩) k xmemInitMessageSeenBy

/-- The block for PENDING_INIT of `IntrHandler`, and its `__q_put`. -/
def pendingInit (k sender : ℕ) (data : BitVec 32) (node : DiscoveryNode) : DiscoveryNode :=
  if node.started then
    { node with
      nodes := if data = 0 then node.nodes ||| nodeMask sender else nodeMask k ||| nodeMask sender
      events := pushEvents node.events [data] }
  else node

def deliverInit (sender receiver : ℕ) (data : BitVec 32) (rest : List (BitVec 32)) : Discovery :=
  { setNode s receiver (pendingInit receiver sender data (s.node receiver)) with
    wire := Function.update s.wire sender (Function.update (s.wire sender) receiver rest) }

/-- The callback of the daemon. -/
def initialized (k : ℕ) (data : BitVec 32) : Discovery :=
  if data = xmemInitMessageReset then broadcastInit net s k xmemInitMessageSeenBy else s

def discoveryNext : DiscoveryStep → Option Discovery
  | .reset k => if k ∈ net ∧ (s.node k).started = true then some (resetNode net s k) else none
  | .coldStart k => if k ∈ net then some (coldStartNode net s k) else none
  | .warmStart k => if k ∈ net then some (warmStartNode net s k) else none
  | .deliver sender receiver =>
    match s.wire sender receiver with
    | [] => none
    | data :: rest => some (deliverInit s sender receiver data rest)
  | .handle k =>
    match (s.node k).events with
    | [] => none
    | data :: events => some (initialized net (setNode s k { s.node k with events := events }) k data)

/-- The drivers are installed, and nobody has started. -/
def discoveryStart : Discovery := ⟨fun k => ⟨false, nodeMask k, []⟩, fun _ _ => []⟩

/-- Only the highest of the nodes that it sees issues the write of a table. -/
def issuesWrite (me acnds : BitVec 32) : Prop := ¬(~~~me &&& acnds).toNat > me.toNat

end Operations

/-! ## Broadcasts -/

section Broadcasts
variable {k r : ℕ} {data : BitVec 32}

theorem initInterrupts_eq (k r : ℕ) (data : BitVec 32) : initInterrupts k r data = [data] := by
  have hnic : nicOf .initializeMe = some xmemDrvrNicInitialized := rfl
  have hsend : sendInterrupt ⟨1, fun _ => k⟩ ⟨1, 0, 0, xmemDrvrNicInitialized ||| xmemDrvrNicBroadcast, data⟩ = _ :=
    (sendInterrupt_message hnic Nat.one_pos).1
  unfold initInterrupts
  rw [hsend]
  dsimp only
  rw [interruptsAt_broadcast hnic]
  rfl

/-- A message of the daemon to all nodes is such a broadcast. -/
theorem vmicSendMessage_init (k : ℕ) (data : BitVec 32) :
    vmicSendMessage ⟨1, fun _ => k⟩ xmemAllNodes ⟨.initializeMe, data⟩ =
      (sendInterrupt ⟨1, fun _ => k⟩ ⟨1, 0, 0, xmemDrvrNicInitialized ||| xmemDrvrNicBroadcast, data⟩).mapError
        fun _ => .system := by
  unfold vmicSendMessage
  rw [castOf_all]
  dsimp only [nicOf]
  cases sendInterrupt ⟨1, fun _ => k⟩ ⟨1, 0, 0, xmemDrvrNicInitialized ||| xmemDrvrNicBroadcast, data⟩ <;> rfl

theorem nodeMask_getLsbD {n i : ℕ} (hn : 1 ≤ n) (hle : n ≤ 32) : (nodeMask n).getLsbD i = decide (i + 1 = n) := by
  have htwo : nodeMask n = BitVec.twoPow 32 (n - 1) := (BitVec.twoPow_eq ..).symm
  rw [htwo, BitVec.getLsbD_twoPow]
  by_cases hi : i + 1 = n
  · simp [hi]
    omega
  · have hne : ¬n - 1 = i := by omega
    simp [hi, hne]

theorem issuesWrite_nodeMask {acnds : BitVec 32} (hk : 1 ≤ k) (hle : k ≤ 32) :
    issuesWrite (nodeMask k) acnds ↔ ∀ i, acnds.getLsbD i = true → i + 1 ≤ k := by
  have hme : (nodeMask k).toNat = 2 ^ (k - 1) := by
    have htwo : nodeMask k = BitVec.twoPow 32 (k - 1) := (BitVec.twoPow_eq ..).symm
    rw [htwo, BitVec.toNat_twoPow]
    exact Nat.mod_eq_of_lt (Nat.pow_lt_pow_right Nat.one_lt_two (by omega))
  have hbit : ∀ i, (~~~nodeMask k &&& acnds).toNat.testBit i = (decide (i + 1 ≠ k) && acnds.getLsbD i) := by
    intro i
    rw [BitVec.testBit_toNat, BitVec.getLsbD_and, BitVec.getLsbD_not, nodeMask_getLsbD hk hle]
    by_cases hi : i < 32
    · simp [hi]
    · simp [hi, BitVec.getLsbD_of_ge acnds i (by omega)]
  unfold issuesWrite
  rw [hme]
  constructor
  · intro hnot i hset
    by_contra hlt
    have hhigh : (~~~nodeMask k &&& acnds).toNat.testBit i = true := by
      rw [hbit, hset, Bool.and_true, decide_eq_true_eq]
      omega
    have hge := Nat.ge_two_pow_of_testBit hhigh
    have hpow : 2 ^ (k - 1) < 2 ^ i := Nat.pow_lt_pow_right Nat.one_lt_two (by omega)
    omega
  · intro hlow
    have hlt : (~~~nodeMask k &&& acnds).toNat < 2 ^ (k - 1) := by
      refine Nat.lt_pow_two_of_testBit _ fun i hi => ?_
      rw [hbit]
      by_cases hset : acnds.getLsbD i = true
      · have hik : i + 1 = k := by
          have hle := hlow i hset
          omega
        simp [hik]
      · rw [Bool.not_eq_true] at hset
        rw [hset, Bool.and_false]
    omega

end Broadcasts

/-! ## The state after a broadcast -/

section Fields
variable {net : Finset ℕ} {s : Discovery} {k a b : ℕ} {data d : BitVec 32} {events : List (BitVec 32)}

@[simp] theorem setNode_self (node : DiscoveryNode) : (setNode s k node).node k = node := Function.update_self ..

theorem setNode_ne (node : DiscoveryNode) (h : b ≠ k) : (setNode s k node).node b = s.node b :=
  Function.update_of_ne h ..

@[simp] theorem setNode_wire (node : DiscoveryNode) : (setNode s k node).wire = s.wire := rfl

theorem broadcastInit_ne (h : b ≠ k) : (broadcastInit net s k data).node b = s.node b := Function.update_of_ne h ..

@[simp] theorem broadcastInit_started : ((broadcastInit net s k data).node b).started = (s.node b).started := by
  by_cases hb : b = k
  · subst hb
    unfold broadcastInit
    simp
  · rw [broadcastInit_ne hb]

@[simp] theorem broadcastInit_nodes : ((broadcastInit net s k data).node b).nodes = (s.node b).nodes := by
  by_cases hb : b = k
  · subst hb
    unfold broadcastInit
    simp
  · rw [broadcastInit_ne hb]

theorem mem_pushEvents (h : d ∈ events) (new : List (BitVec 32)) : d ∈ pushEvents events new := by
  unfold pushEvents
  induction new generalizing events with
  | nil => exact h
  | cons data new ih =>
    rw [List.foldl_cons]
    refine ih ?_
    split
    · exact h
    · exact List.mem_append_left _ h

theorem mem_broadcastInit_events (h : d ∈ (s.node b).events) : d ∈ ((broadcastInit net s k data).node b).events := by
  by_cases hb : b = k
  · subst hb
    unfold broadcastInit
    simpa using mem_pushEvents h _
  · rw [broadcastInit_ne hb]
    exact h

theorem broadcastInit_wire : (broadcastInit net s k data).wire a b =
    if a = k ∧ b ≠ k ∧ b ∈ net then s.wire a b ++ [data] else s.wire a b := by
  unfold broadcastInit
  simp only [initInterrupts_eq]

theorem mem_broadcastInit_wire (h : d ∈ s.wire a b) : d ∈ (broadcastInit net s k data).wire a b := by
  rw [broadcastInit_wire]
  split
  · exact List.mem_append_left _ h
  · exact h

theorem mem_broadcastInit_sent (hb : b ≠ k) (hmem : b ∈ net) : data ∈ (broadcastInit net s k data).wire k b := by
  rw [broadcastInit_wire, if_pos ⟨rfl, hb, hmem⟩]
  exact List.mem_append_right _ (List.mem_singleton_self data)

end Fields

end HtDrivers.Xmem
