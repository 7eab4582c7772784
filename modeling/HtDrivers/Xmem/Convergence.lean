import HtDrivers.Xmem.Discovery

/-! When the nodes have found each other. An INIT that is not zero makes its receiver forget all but two nodes, and only
the INITs with `XmemInitMessageRESET` are answered. -/
namespace HtDrivers.Xmem
open HtDrivers.Lib.Transition
set_option autoImplicit false

section Purpose
variable (net : Finset ℕ) (s : Discovery)

/-- No INIT message is in flight, and no daemon has an unhandled event. -/
def Settled : Prop := (∀ a ∈ net, ∀ b ∈ net, s.wire a b = []) ∧ ∀ k ∈ net, (s.node k).events = []

/-- A node that has started sees exactly the nodes that have, and it writes exactly the tables of which it is the
highest active owner. -/
structure Discovered (k : ℕ) : Prop where
  sees : ∀ i, (s.node k).nodes.getLsbD i = true ↔ i + 1 ∈ net ∧ (s.node (i + 1)).started = true
  elects : ∀ owners : BitVec 32, issuesWrite (nodeMask k) ((s.node k).nodes &&& owners) ↔
    ∀ b ∈ net, (s.node b).started = true → owners.getLsbD (b - 1) = true → b ≤ k

def Converged : Prop := ∀ k ∈ net, (s.node k).started = true → Discovered net s k

end Purpose

/-! ## What the nodes know of each other -/

section Invariant
variable (net : Finset ℕ) (s : Discovery)

def Knows (c b : ℕ) : Prop := (s.node c).nodes.getLsbD (b - 1) = true

/-- An INIT of `b` is on its way to `c`, or `b` has still to answer one. -/
def Owes (b c : ℕ) : Prop :=
  s.wire b c ≠ [] ∨ xmemInitMessageReset ∈ (s.node b).events ∨ ∃ a ∈ net, xmemInitMessageReset ∈ s.wire a b

/-- Where `c` forgets all nodes but itself and `a`, it will hear of the others. -/
def OthersOwe (a c : ℕ) : Prop := ∀ b ∈ net, b ≠ a → b ≠ c → (s.node b).started = true → Owes net s b c

/-- Every INIT that makes a node forget the others is answered after it by all of them, and no queue loses one that asks
for an answer. -/
def Answered : DiscoveryStep → Prop
  | .reset k => nodeMask k ≠ xmemInitMessageReset → OthersOwe net s k k
  | .coldStart _ => True
  | .warmStart k => (s.node k).started = false → OthersOwe net s k k
  | .deliver sender receiver =>
    ∀ data ∈ (s.wire sender receiver).head?, (s.node receiver).started = true →
      (data ≠ 0 → OthersOwe net s sender receiver) ∧
        (data = xmemInitMessageReset → xmemDrvrQueueSize ≤ (s.node receiver).events.length →
          xmemInitMessageReset ∈ (s.node receiver).events)
  | .handle _ => True

/-- The invariant, where what the nodes in `silent` know and owe is left open. -/
structure Introduced (silent : Finset ℕ) : Prop where
  own : ∀ c ∈ net, Knows s c c
  honest : ∀ c ∈ net, ∀ i, (s.node c).nodes.getLsbD i = true → i + 1 ≠ c → i + 1 ∈ net ∧ (s.node (i + 1)).started = true
  wires : ∀ a b, s.wire a b ≠ [] → a ∈ net ∧ b ∈ net ∧ a ≠ b ∧ (s.node a).started = true
  queues : ∀ k, (s.node k).events ≠ [] → k ∈ net ∧ (s.node k).started = true
  known : ∀ b ∈ net, ∀ c ∈ net, b ≠ c → b ∉ silent → c ∉ silent → (s.node b).started = true →
    (s.node c).started = true →
    Knows s c b ∨ Owes net s b c

end Invariant

section Steps
variable {net silent : Finset ℕ} {s : Discovery} {k a b c : ℕ} {data : BitVec 32} {node : DiscoveryNode}

theorem Owes.setNode (h : Owes net s b c) (hb : b ≠ k) : Owes net (setNode s k node) b c := by
  unfold Owes at h ⊢
  rw [setNode_ne node hb, setNode_wire]
  exact h

theorem Owes.broadcast (h : Owes net s b c) : Owes net (broadcastInit net s k data) b c := by
  obtain hwire | hevent | ⟨a, ha, hmem⟩ := h
  · left
    obtain ⟨d, hd⟩ := List.exists_mem_of_ne_nil _ hwire
    exact List.ne_nil_of_mem (mem_broadcastInit_wire hd)
  · exact .inr (.inl (mem_broadcastInit_events hevent))
  · exact .inr (.inr ⟨a, ha, mem_broadcastInit_wire hmem⟩)

theorem Introduced.broadcast (h : Introduced net s silent) (hk : k ∈ net) (hstarted : (s.node k).started = true) :
    Introduced net (broadcastInit net s k data) silent where
  own c hc := by
    unfold Knows
    rw [broadcastInit_nodes]
    exact h.own c hc
  honest c hc i hset hne := by
    rw [broadcastInit_nodes] at hset
    rw [broadcastInit_started]
    exact h.honest c hc i hset hne
  wires a b hwire := by
    rw [broadcastInit_started]
    rw [broadcastInit_wire] at hwire
    split at hwire
    · rename_i hsent
      obtain ⟨rfl, hb, hmem⟩ := hsent
      exact ⟨hk, hmem, Ne.symm hb, hstarted⟩
    · exact h.wires a b hwire
  queues b hevents := by
    rw [broadcastInit_started]
    by_cases hb : b = k
    · subst hb
      exact ⟨hk, hstarted⟩
    · rw [broadcastInit_ne hb] at hevents
      exact h.queues b hevents
  known b hb c hc hne hbs hcs hbstarted hcstarted := by
    rw [broadcastInit_started] at hbstarted hcstarted
    have hknown := h.known b hb c hc hne hbs hcs hbstarted hcstarted
    unfold Knows
    rw [broadcastInit_nodes]
    exact hknown.imp id Owes.broadcast

/-- Node `k` has introduced itself, and it knows the others or will hear of them. -/
theorem Introduced.spoken (h : Introduced net s {k})
    (hself : ∀ c ∈ net, c ≠ k → (s.node c).started = true → Knows s c k ∨ Owes net s k c)
    (hothers : ∀ b ∈ net, b ≠ k → (s.node b).started = true → Knows s k b ∨ Owes net s b k) : Introduced net s ∅ where
  own := h.own
  honest := h.honest
  wires := h.wires
  queues := h.queues
  known b hb c hc hne _ _ hbstarted hcstarted := by
    by_cases hbk : b = k
    · subst hbk
      exact hself c hc (Ne.symm hne) hcstarted
    · by_cases hck : c = k
      · subst hck
        exact hothers b hb hne hbstarted
      · exact h.known b hb c hc hne (by simpa using hbk) (by simpa using hck) hbstarted hcstarted

/-- After its broadcast the others know a node or will hear of it; where it asks for answers, it hears of them. -/
theorem Introduced.announced (h : Introduced net s {k}) (hk : k ∈ net) (hstarted : (s.node k).started = true)
    (hothers : data ≠ xmemInitMessageReset → ∀ b ∈ net, b ≠ k → (s.node b).started = true → Knows s k b ∨
      Owes net s b k) : Introduced net (broadcastInit net s k data) ∅ := by
  refine (h.broadcast hk hstarted).spoken (fun c hc hne _ => ?_) (fun b hb hne hbstarted => ?_)
  · exact .inr (.inl (List.ne_nil_of_mem (mem_broadcastInit_sent hne hc)))
  · by_cases hdata : data = xmemInitMessageReset
    · right
      exact .inr (.inr ⟨k, hk, hdata ▸ mem_broadcastInit_sent hne hb⟩)
    · rw [broadcastInit_started] at hbstarted
      have hknown := hothers hdata b hb hne hbstarted
      unfold Knows
      rw [broadcastInit_nodes]
      exact hknown.imp id Owes.broadcast

theorem started_setNode (hnode : node.started = true) (h : (s.node b).started = true) :
    ((setNode s k node).node b).started = true := by
  by_cases hb : b = k
  · subst hb
    rw [setNode_self]
    exact hnode
  · rw [setNode_ne node hb]
    exact h

theorem Introduced.replaced (h : Introduced net s ∅) (node : DiscoveryNode) (hk : k ∈ net) (hnode : node.started = true)
    (hown : node.nodes.getLsbD (k - 1) = true) (hhonest : ∀ i, node.nodes.getLsbD i = true → i + 1 ≠ k →
      i + 1 ∈ net ∧ (s.node (i + 1)).started = true) : Introduced net (setNode s k node) {k} where
  own c hc := by
    unfold Knows
    by_cases hck : c = k
    · subst hck
      rw [setNode_self]
      exact hown
    · rw [setNode_ne node hck]
      exact h.own c hc
  honest c hc i hset hne := by
    have hbefore : i + 1 ∈ net ∧ (s.node (i + 1)).started = true := by
      by_cases hck : c = k
      · subst hck
        rw [setNode_self] at hset
        exact hhonest i hset hne
      · rw [setNode_ne node hck] at hset
        exact h.honest c hc i hset hne
    exact hbefore.imp id (started_setNode hnode)
  wires a b hwire := by
    obtain ⟨ha, hb, hne, hstarted⟩ := h.wires a b hwire
    exact ⟨ha, hb, hne, started_setNode hnode hstarted⟩
  queues b hevents := by
    by_cases hb : b = k
    · subst hb
      rw [setNode_self]
      exact ⟨hk, hnode⟩
    · rw [setNode_ne node hb] at hevents ⊢
      exact h.queues b hevents
  known b hb c hc hne hbs hcs hbstarted hcstarted := by
    have hbk : b ≠ k := by simpa using hbs
    have hck : c ≠ k := by simpa using hcs
    rw [setNode_ne node hbk] at hbstarted
    rw [setNode_ne node hck] at hcstarted
    have hknown := h.known b hb c hc hne (Finset.notMem_empty b) (Finset.notMem_empty c) hbstarted hcstarted
    unfold Knows
    rw [setNode_ne node hck]
    exact hknown.imp id fun howes => howes.setNode hbk

theorem nodeMask_bit (hk : 1 ≤ k ∧ k ≤ 32) (i : ℕ) : (nodeMask k).getLsbD i = true ↔ i + 1 = k := by
  rw [nodeMask_getLsbD hk.1 hk.2, decide_eq_true_eq]

theorem Introduced.forget (h : Introduced net s ∅) (node : DiscoveryNode) (hrange : 1 ≤ k ∧ k ≤ 32) (hk : k ∈ net)
    (hnode : node.started = true) (hnodes : node.nodes = nodeMask k) : Introduced net (setNode s k node) {k} := by
  refine h.replaced node hk hnode ?_ fun i hset hne => ?_
  · rw [hnodes, nodeMask_bit hrange]
    omega
  · rw [hnodes, nodeMask_bit hrange] at hset
    exact absurd hset hne

theorem Introduced.reset (h : Introduced net s ∅) (hrange : 1 ≤ k ∧ k ≤ 32) (hk : k ∈ net)
    (hstarted : (s.node k).started = true) (hanswered : nodeMask k ≠ xmemInitMessageReset → OthersOwe net s k k) :
    Introduced net (resetNode net s k) ∅ := by
  have hforget := h.forget { s.node k with nodes := nodeMask k } hrange hk hstarted rfl
  refine hforget.announced hk (by rw [setNode_self]; exact hstarted) fun hdata b hb hne hbstarted => ?_
  rw [setNode_ne _ hne] at hbstarted
  exact .inr ((hanswered hdata b hb hne hne hbstarted).setNode hne)

theorem Introduced.coldStart (h : Introduced net s ∅) (hrange : 1 ≤ k ∧ k ≤ 32) (hk : k ∈ net) :
    Introduced net (coldStartNode net s k) ∅ := by
  have htwice : ∀ first second : DiscoveryNode, setNode (setNode s k first) k second =
      setNode s k second := by
    intro first second
    unfold setNode
    rw [Function.update_idem]
  unfold coldStartNode resetNode
  rw [setNode_self, htwice]
  have hforget := h.forget ⟨true, nodeMask k, []⟩ hrange hk rfl rfl
  have hsent : Introduced net (broadcastInit net (setNode s k ⟨true, nodeMask k, []⟩) k (nodeMask k)) {k} :=
    hforget.broadcast hk (by rw [setNode_self])
  refine hsent.announced hk ?_ fun hdata => absurd rfl hdata
  rw [broadcastInit_started, setNode_self]

theorem Introduced.warmStart (h : Introduced net s ∅) (hk : k ∈ net)
    (hanswered : (s.node k).started = false → OthersOwe net s k k) : Introduced net (warmStartNode net s k) ∅ := by
  have hset := h.replaced ⟨true, (s.node k).nodes, []⟩ hk rfl (h.own k hk) (h.honest k hk)
  refine hset.announced hk (by rw [setNode_self]) fun _ b hb hne hbstarted => ?_
  rw [setNode_ne _ hne] at hbstarted
  unfold Knows
  rw [setNode_self]
  cases hstarted : (s.node k).started with
  | false => exact .inr ((hanswered hstarted b hb hne hne hbstarted).setNode hne)
  | true =>
    have hknown := h.known b hb k hk hne (Finset.notMem_empty b) (Finset.notMem_empty k) hbstarted hstarted
    exact hknown.imp id fun howes => howes.setNode hne

theorem Introduced.handle (h : Introduced net s ∅) {events : List (BitVec 32)}
    (hevents : (s.node k).events = data :: events) :
    Introduced net (initialized net (setNode s k { s.node k with events := events }) k data) ∅ := by
  obtain ⟨hk, hstarted⟩ := h.queues k (by rw [hevents]; exact List.cons_ne_nil data events)
  have hset := h.replaced { s.node k with events := events } hk hstarted (h.own k hk) (h.honest k hk)
  have hothers : ∀ b ∈ net, b ≠ k → (s.node b).started = true →
      Knows (setNode s k { s.node k with events := events }) k b ∨
        Owes net (setNode s k { s.node k with events := events }) b k := by
    intro b hb hne hbstarted
    have hknown := h.known b hb k hk hne (Finset.notMem_empty b) (Finset.notMem_empty k) hbstarted hstarted
    unfold Knows
    rw [setNode_self]
    exact hknown.imp id fun howes => howes.setNode hne
  unfold initialized
  split
  · refine hset.announced hk (by rw [setNode_self]; exact hstarted) fun _ b hb hne hbstarted => ?_
    rw [setNode_ne _ hne] at hbstarted
    exact hothers b hb hne hbstarted
  · rename_i hdata
    refine hset.spoken (fun c hc hne hcstarted => ?_) fun b hb hne hbstarted => ?_
    · rw [setNode_ne _ hne] at hcstarted
      have hknown := h.known k hk c hc (Ne.symm hne) (Finset.notMem_empty k) (Finset.notMem_empty c) hstarted hcstarted
      unfold Knows
      rw [setNode_ne _ hne]
      refine hknown.imp id fun howes => ?_
      unfold Owes at howes ⊢
      rw [hevents, List.mem_cons] at howes
      rw [setNode_self, setNode_wire]
      exact howes.imp id fun hask => hask.imp (fun hmem => hmem.resolve_left (Ne.symm hdata)) id
    · rw [setNode_ne _ hne] at hbstarted
      exact hothers b hb hne hbstarted

end Steps

/-! ## Deliveries -/

section Deliveries
variable {net : Finset ℕ} {s : Discovery} {a b c x y i : ℕ} {data : BitVec 32} {rest : List (BitVec 32)}
    {node : DiscoveryNode}

theorem pendingInit_started : (pendingInit c a data node).started = node.started := by
  unfold pendingInit
  split <;> rfl

theorem deliverInit_ne (h : b ≠ c) : (deliverInit s a c data rest).node b = s.node b := setNode_ne _ h

@[simp] theorem deliverInit_self : (deliverInit s a c data rest).node c = pendingInit c a data (s.node c) :=
  setNode_self _

theorem deliverInit_started : ((deliverInit s a c data rest).node b).started = (s.node b).started := by
  by_cases hb : b = c
  · subst hb
    rw [deliverInit_self, pendingInit_started]
  · rw [deliverInit_ne hb]

theorem deliverInit_wire : (deliverInit s a c data rest).wire x y = if x = a ∧ y = c then rest else s.wire x y := by
  change Function.update s.wire a (Function.update (s.wire a) c rest) x y = _
  by_cases hx : x = a
  · subst hx
    rw [Function.update_self]
    by_cases hy : y = c
    · subst hy
      rw [Function.update_self, if_pos ⟨rfl, rfl⟩]
    · rw [Function.update_of_ne hy, if_neg fun h => hy h.2]
  · rw [Function.update_of_ne hx, if_neg fun h => hx h.1]

/-- Whatever the INIT, a node gets to know its sender, and it does not forget itself. -/
theorem pendingInit_knows (ha : 1 ≤ a ∧ a ≤ 32) (hc : 1 ≤ c ∧ c ≤ 32) (hstarted : node.started = true)
    (hown : node.nodes.getLsbD (c - 1) = true) : (pendingInit c a data node).nodes.getLsbD (a - 1) = true ∧
      (pendingInit c a data node).nodes.getLsbD (c - 1) = true := by
  have hsender : (nodeMask a).getLsbD (a - 1) = true := (nodeMask_bit ha _).mpr (by omega)
  have hself : (nodeMask c).getLsbD (c - 1) = true := (nodeMask_bit hc _).mpr (by omega)
  unfold pendingInit
  rw [if_pos hstarted]
  dsimp only
  split
  · simp [hsender, hown]
  · simp [hsender, hself]

theorem pendingInit_keeps (hset : node.nodes.getLsbD i = true) :
    (pendingInit c a 0 node).nodes.getLsbD i = true := by
  unfold pendingInit
  split
  · rw [if_pos rfl, BitVec.getLsbD_or, hset, Bool.true_or]
  · exact hset

theorem pendingInit_honest (ha : 1 ≤ a ∧ a ≤ 32) (hc : 1 ≤ c ∧ c ≤ 32)
    (hset : (pendingInit c a data node).nodes.getLsbD i = true) :
    node.nodes.getLsbD i = true ∨ i + 1 = c ∨ i + 1 = a := by
  unfold pendingInit at hset
  split at hset
  · dsimp only at hset
    split at hset
    · rw [BitVec.getLsbD_or, Bool.or_eq_true, nodeMask_bit ha] at hset
      exact hset.imp id .inr
    · rw [BitVec.getLsbD_or, Bool.or_eq_true, nodeMask_bit hc, nodeMask_bit ha] at hset
      exact .inr hset
  · exact .inl hset

theorem pendingInit_events (hstarted : node.started = true) :
    (pendingInit c a data node).events = pushEvents node.events [data] := by
  unfold pendingInit
  rw [if_pos hstarted]

theorem pendingInit_asked (hstarted : node.started = true)
    (hroom : xmemDrvrQueueSize ≤ node.events.length → xmemInitMessageReset ∈ node.events) :
    xmemInitMessageReset ∈ (pendingInit c a xmemInitMessageReset node).events := by
  rw [pendingInit_events hstarted]
  change xmemInitMessageReset ∈ if xmemDrvrQueueSize ≤ node.events.length then node.events
    else node.events ++ [xmemInitMessageReset]
  split
  · rename_i hfull
    exact hroom hfull
  · exact List.mem_append_right _ (List.mem_singleton_self _)

/-- What the delivery leaves owed: all but the message of the sender itself. -/
theorem Owes.deliver (h : Owes net s x y) (hwire : s.wire a c = data :: rest) (hother : ¬(x = a ∧ y = c))
    (hstarted : (s.node x).started = true) (hroom : x = c → data = xmemInitMessageReset →
      xmemDrvrQueueSize ≤ (s.node c).events.length → xmemInitMessageReset ∈ (s.node c).events) :
    Owes net (deliverInit s a c data rest) x y := by
  unfold Owes at h ⊢
  rw [deliverInit_wire, if_neg hother]
  by_cases hx : x = c
  · subst hx
    rw [deliverInit_self]
    obtain hfull | hevent | ⟨z, hz, hmem⟩ := h
    · exact .inl hfull
    · rw [pendingInit_events hstarted]
      exact .inr (.inl (mem_pushEvents hevent _))
    · by_cases hza : z = a
      · subst hza
        rw [hwire, List.mem_cons] at hmem
        obtain hfirst | hlater := hmem
        · subst hfirst
          exact .inr (.inl (pendingInit_asked hstarted (hroom rfl rfl)))
        · refine .inr (.inr ⟨z, hz, ?_⟩)
          rw [deliverInit_wire, if_pos ⟨rfl, rfl⟩]
          exact hlater
      · refine .inr (.inr ⟨z, hz, ?_⟩)
        rw [deliverInit_wire, if_neg fun h => hza h.1]
        exact hmem
  · rw [deliverInit_ne hx]
    refine h.imp id fun hask => hask.imp id fun hreset => ?_
    obtain ⟨z, hz, hmem⟩ := hreset
    refine ⟨z, hz, ?_⟩
    rw [deliverInit_wire, if_neg fun h => hx h.2]
    exact hmem

theorem Introduced.deliver (h : Introduced net s ∅) (hnet : ∀ k ∈ net, 1 ≤ k ∧ k ≤ 32)
    (hwire : s.wire a c = data :: rest)
    (hanswered : (s.node c).started = true → (data ≠ 0 → OthersOwe net s a c) ∧ (data = xmemInitMessageReset →
      xmemDrvrQueueSize ≤ (s.node c).events.length → xmemInitMessageReset ∈ (s.node c).events)) :
    Introduced net (deliverInit s a c data rest) ∅ := by
  obtain ⟨ha, hc, hac, hastarted⟩ := h.wires a c (by rw [hwire]; exact List.cons_ne_nil data rest)
  have hknows : (s.node c).started = true → Knows (deliverInit s a c data rest) c a ∧
    Knows (deliverInit s a c data rest) c c := by
    intro hstarted
    unfold Knows
    rw [deliverInit_self]
    exact pendingInit_knows (hnet a ha) (hnet c hc) hstarted (h.own c hc)
  refine ⟨fun d hd => ?_, fun d hd i hset hne => ?_, fun x y hxy => ?_, fun d hevents => ?_,
    fun x hx y hy hne _ _ hxstarted hystarted => ?_⟩
  · by_cases hdc : d = c
    · subst hdc
      cases hstarted : (s.node d).started with
      | true => exact (hknows hstarted).2
      | false =>
        unfold Knows
        rw [deliverInit_self, pendingInit, hstarted]
        exact h.own d hd
    · unfold Knows
      rw [deliverInit_ne hdc]
      exact h.own d hd
  · rw [deliverInit_started]
    by_cases hdc : d = c
    · subst hdc
      rw [deliverInit_self] at hset
      obtain hbefore | hself | hsender := pendingInit_honest (hnet a ha) (hnet d hd) hset
      · exact h.honest d hd i hbefore hne
      · exact absurd hself hne
      · rw [hsender]
        exact ⟨ha, hastarted⟩
    · rw [deliverInit_ne hdc] at hset
      exact h.honest d hd i hset hne
  · rw [deliverInit_started]
    rw [deliverInit_wire] at hxy
    split at hxy
    · rename_i hsame
      obtain ⟨rfl, rfl⟩ := hsame
      exact ⟨ha, hc, hac, hastarted⟩
    · exact h.wires x y hxy
  · rw [deliverInit_started]
    by_cases hdc : d = c
    · subst hdc
      cases hstarted : (s.node d).started with
      | true => exact ⟨hc, rfl⟩
      | false =>
        rw [deliverInit_self, pendingInit, hstarted] at hevents
        exact absurd ((h.queues d hevents).2) (by rw [hstarted]; exact Bool.false_ne_true)
    · rw [deliverInit_ne hdc] at hevents
      exact h.queues d hevents
  · rw [deliverInit_started] at hxstarted hystarted
    have hknown := h.known x hx y hy hne (Finset.notMem_empty x) (Finset.notMem_empty y) hxstarted hystarted
    have hroom : x = c → data = xmemInitMessageReset → xmemDrvrQueueSize ≤ (s.node c).events.length →
        xmemInitMessageReset ∈ (s.node c).events := by
      intro hxc
      subst hxc
      exact (hanswered hxstarted).2
    by_cases hyc : y = c
    · subst hyc
      by_cases hxa : x = a
      · subst hxa
        exact .inl (hknows hystarted).1
      · have hother : ¬(x = a ∧ y = y) := fun h => hxa h.1
        by_cases hdata : data = 0
        · refine hknown.imp (fun hbit => ?_) fun howes => howes.deliver hwire hother hxstarted hroom
          subst hdata
          unfold Knows
          rw [deliverInit_self]
          exact pendingInit_keeps hbit
        · have howes := (hanswered hystarted).1 hdata x hx hxa hne hxstarted
          exact .inr (howes.deliver hwire hother hxstarted hroom)
    · unfold Knows
      rw [deliverInit_ne hyc]
      exact hknown.imp id fun howes => howes.deliver hwire (fun h => hyc h.2) hxstarted hroom

end Deliveries

/-! ## Whole runs -/

section Runs
variable {net : Finset ℕ} {s s' : Discovery} {act : DiscoveryStep}

theorem introduced_start (hnet : ∀ k ∈ net, 1 ≤ k ∧ k ≤ 32) : Introduced net discoveryStart ∅ where
  own c hc := by
    have hrange := hnet c hc
    exact (nodeMask_bit hrange (c - 1)).mpr (by omega)
  honest c hc i hset hne := absurd ((nodeMask_bit (hnet c hc) i).mp hset) hne
  wires _ _ hwire := absurd rfl hwire
  queues _ hevents := absurd rfl hevents
  known _ _ _ _ _ _ _ hstarted _ := absurd hstarted Bool.false_ne_true

theorem Introduced.step (hnet : ∀ k ∈ net, 1 ≤ k ∧ k ≤ 32) (h : Introduced net s ∅) (hok : Answered net s act)
    (hnext : discoveryNext net s act = some s') : Introduced net s' ∅ := by
  cases act with
  | reset k =>
    rw [discoveryNext, Option.ite_none_right_eq_some] at hnext
    obtain ⟨⟨hk, hstarted⟩, hnext⟩ := hnext
    cases hnext
    exact h.reset (hnet k hk) hk hstarted hok
  | coldStart k =>
    rw [discoveryNext, Option.ite_none_right_eq_some] at hnext
    obtain ⟨hk, hnext⟩ := hnext
    cases hnext
    exact h.coldStart (hnet k hk) hk
  | warmStart k =>
    rw [discoveryNext, Option.ite_none_right_eq_some] at hnext
    obtain ⟨hk, hnext⟩ := hnext
    cases hnext
    exact h.warmStart hk hok
  | deliver sender receiver =>
    rw [discoveryNext] at hnext
    rw [Answered] at hok
    cases hwire : s.wire sender receiver with
    | nil =>
      rw [hwire] at hnext
      cases hnext
    | cons data rest =>
      rw [hwire] at hnext hok
      cases hnext
      exact h.deliver hnet hwire (hok data rfl)
  | handle k =>
    rw [discoveryNext] at hnext
    cases hevents : (s.node k).events with
    | nil =>
      rw [hevents] at hnext
      cases hnext
    | cons data events =>
      rw [hevents] at hnext
      cases hnext
      exact h.handle hevents

theorem Introduced.converged (hnet : ∀ k ∈ net, 1 ≤ k ∧ k ≤ 32) (h : Introduced net s ∅) (hquiet : Settled net s) :
    Converged net s := by
  intro k hk hstarted
  have hsees : ∀ i, (s.node k).nodes.getLsbD i = true ↔ i + 1 ∈ net ∧ (s.node (i + 1)).started = true := by
    intro i
    constructor
    · intro hset
      by_cases hself : i + 1 = k
      · rw [hself]
        exact ⟨hk, hstarted⟩
      · exact h.honest k hk i hset hself
    · intro hactive
      obtain ⟨hi, histarted⟩ := hactive
      by_cases hself : i + 1 = k
      · have hown := h.own k hk
        unfold Knows at hown
        rw [← hself, Nat.add_sub_cancel] at hown
        rwa [← hself]
      · have hknown := h.known (i + 1) hi k hk hself (Finset.notMem_empty _) (Finset.notMem_empty k) histarted hstarted
        refine hknown.resolve_right fun howes => ?_
        obtain hwire | hevent | ⟨a, ha, hmem⟩ := howes
        · exact hwire (hquiet.1 (i + 1) hi k hk)
        · rw [hquiet.2 (i + 1) hi] at hevent
          cases hevent
        · rw [hquiet.1 a ha (i + 1) hi] at hmem
          cases hmem
  refine ⟨hsees, fun owners => ?_⟩
  rw [issuesWrite_nodeMask (hnet k hk).1 (hnet k hk).2]
  constructor
  · intro hhighest b hb hbstarted howner
    have hrange := hnet b hb
    have hb' : b - 1 + 1 = b := by omega
    have hset : (s.node k).nodes.getLsbD (b - 1) = true := (hsees (b - 1)).mpr (by rw [hb']; exact ⟨hb, hbstarted⟩)
    have hle := hhighest (b - 1) (by rw [BitVec.getLsbD_and, hset, howner]; rfl)
    omega
  · intro hhighest i hset
    rw [BitVec.getLsbD_and, Bool.and_eq_true] at hset
    obtain ⟨hi, histarted⟩ := (hsees i).mp hset.1
    exact hhighest (i + 1) hi histarted hset.2

/-- The nodes find each other where all answers come after the last INIT that asks for them. -/
theorem discovery_converges (hnet : ∀ k ∈ net, 1 ≤ k ∧ k ≤ 32)
    (h : Reach (discoveryNext net) (Answered net) discoveryStart s) (hquiet : Settled net s) : Converged net s := by
  have hknown : Introduced net s ∅ :=
    h.invariant (I := fun t => Introduced net t ∅) (introduced_start hnet) fun _ _ _ hbefore hok hnext =>
      hbefore.step hnet hok hnext
  exact hknown.converged hnet hquiet

end Runs

/-! ## Two nodes -/

section Example
variable {s : Discovery}

/-- Nodes 2 and 3 start, one after the other, and each time all messages are delivered and handled. -/
def twoColdStarts : List DiscoveryStep :=
  [.coldStart 2, .deliver 2 3, .deliver 2 3, .handle 2, .handle 2, .handle 2, .deliver 2 3,
    .coldStart 3, .deliver 3 2, .deliver 3 2, .handle 2, .handle 2, .handle 2, .deliver 2 3,
    .handle 3, .handle 3, .handle 3, .handle 3, .deliver 3 2, .handle 2]

/-- Cold starts of two nodes whose queues have room. -/
def HasRoom (s : Discovery) : DiscoveryStep → Prop
  | .reset _ | .warmStart _ => False
  | .deliver sender receiver =>
    (sender = 2 ∧ receiver = 3 ∨ sender = 3 ∧ receiver = 2) ∧ (s.node receiver).events.length < xmemDrvrQueueSize
  | .coldStart _ | .handle _ => True

instance (s : Discovery) : ∀ act, Decidable (HasRoom s act)
  | .reset _ | .warmStart _ => inferInstanceAs (Decidable False)
  | .deliver _ _ => inferInstanceAs (Decidable (_ ∧ _))
  | .coldStart _ | .handle _ => inferInstanceAs (Decidable True)

theorem HasRoom.answered {act : DiscoveryStep} (h : HasRoom s act) : Answered {2, 3} s act := by
  cases act with
  | reset k => exact absurd h id
  | warmStart k => exact absurd h id
  | coldStart k => trivial
  | handle k => trivial
  | deliver sender receiver =>
    obtain ⟨hpair, hroom⟩ := h
    refine fun data _ _ => ⟨fun _ b hb hsender hreceiver _ => ?_, fun _ hfull => absurd hroom (Nat.not_lt.mpr hfull)⟩
    simp only [Finset.mem_insert, Finset.mem_singleton] at hb
    omega

def messagesOfTwo (s : Discovery) : List (List (BitVec 32)) :=
  [(s.node 2).events, (s.node 3).events, s.wire 2 2, s.wire 2 3, s.wire 3 2, s.wire 3 3]

theorem settled_two (h : messagesOfTwo s = [[], [], [], [], [], []]) : Settled {2, 3} s := by
  simp only [messagesOfTwo, List.cons.injEq, and_true] at h
  obtain ⟨hsecond, hthird, hwire, hup, hdown, hback⟩ := h
  refine ⟨fun a ha b hb => ?_, fun k hk => ?_⟩
  · simp only [Finset.mem_insert, Finset.mem_singleton] at ha hb
    obtain rfl | rfl := ha <;> obtain rfl | rfl := hb
    · exact hwire
    · exact hup
    · exact hdown
    · exact hback
  · simp only [Finset.mem_insert, Finset.mem_singleton] at hk
    obtain rfl | rfl := hk
    · exact hsecond
    · exact hthird

theorem twoColdStarts_converge : ∃ s, Reach (discoveryNext {2, 3}) (Answered {2, 3}) discoveryStart s ∧
    ((s.node 2).started = true ∧ (s.node 3).started = true) ∧ Settled {2, 3} s ∧ Converged {2, 3} s := by
  have hrun : (replay (discoveryNext {2, 3}) HasRoom discoveryStart twoColdStarts).map
      (fun s => ((s.node 2).started, (s.node 3).started, messagesOfTwo s)) =
        some (true, true, [[], [], [], [], [], []]) := by
    decide
  obtain ⟨s, hs, hval⟩ := Option.map_eq_some_iff.mp hrun
  simp only [Prod.mk.injEq] at hval
  obtain ⟨hsecond, hthird, hmessages⟩ := hval
  have hreach : Reach (discoveryNext {2, 3}) (Answered {2, 3}) discoveryStart s :=
    (Reach.of_replay Reach.refl hs).weaken fun _ _ hroom => hroom.answered
  exact ⟨s, hreach, ⟨hsecond, hthird⟩, settled_two hmessages,
    discovery_converges (by decide) hreach (settled_two hmessages)⟩

/-- Then the module of node 3 is reset. Its INIT has the value 4, which no daemon answers. -/
def thenReset : List DiscoveryStep := twoColdStarts ++ [.reset 3, .deliver 3 2, .handle 2, .handle 3]

theorem reset_not_answered : ¬∀ (net : Finset ℕ), (∀ k ∈ net, 1 ≤ k ∧ k ≤ 32) → ∀ s,
    Reach (discoveryNext net) (fun _ _ => True) discoveryStart s → Settled net s → Converged net s := by
  intro hall
  have hrun : (thenReset.foldlM (discoveryNext {2, 3}) discoveryStart).map
      (fun s => ((s.node 2).started, (s.node 3).started, (s.node 3).nodes, messagesOfTwo s)) =
        some (true, true, 4, [[], [], [], [], [], []]) := by
    decide
  obtain ⟨s, hs, hval⟩ := Option.map_eq_some_iff.mp hrun
  simp only [Prod.mk.injEq] at hval
  obtain ⟨hsecond, hthird, hnodes, hmessages⟩ := hval
  have hreach : Reach (discoveryNext {2, 3}) (fun _ _ => True) discoveryStart s :=
    Reach.of_foldlM .refl (fun _ _ _ => trivial) hs
  have hconv := hall {2, 3} (by decide) s hreach (settled_two hmessages)
  have hsees := ((hconv 3 (by decide) hthird).sees 1).mpr ⟨by decide, hsecond⟩
  rw [hnodes] at hsees
  exact absurd hsees (by decide)

end Example

end HtDrivers.Xmem
