import HtDrivers.Xmem.SendMessage

/-! Which nodes a message reaches. `XmemSendMessage` chooses one interrupt to one node, one broadcast or a loop over
the nodes of the mask, which always ends with the sender's own interrupt. -/
namespace HtDrivers.Xmem
open HtDrivers.Lib.Masks
set_option autoImplicit false

/-! ## The choice of the cast -/

section Casts
variable {nodes : BitVec 32} {k last : ℕ} {bits : List ℕ} {found : ℕ × ℕ}

theorem countNodes_none (h : ∀ i ∈ bits, nodes.getLsbD i = false) (hfound : found.1 ≤ 1) :
    countNodes nodes bits found = found := by
  induction bits with
  | nil => rfl
  | cons i bits ih =>
    have hrest := ih fun j hj => h j (List.mem_cons_of_mem i hj)
    rw [countNodes, h i (List.mem_cons_self ..)]
    simpa [Nat.not_lt.mpr hfound] using hrest

theorem countNodes_second (h : ∃ i ∈ bits, nodes.getLsbD i = true) : (countNodes nodes bits (1, last)).1 = 2 := by
  induction bits with
  | nil => simp at h
  | cons i bits ih =>
    rw [countNodes]
    cases hbit : nodes.getLsbD i with
    | true => simp
    | false =>
      have hrest : ∃ j ∈ bits, nodes.getLsbD j = true := by
        obtain ⟨j, hj, hset⟩ := h
        obtain rfl | hj := List.mem_cons.mp hj
        · rw [hbit] at hset
          cases hset
        · exact ⟨j, hj, hset⟩
      simpa using ih hrest

/-- The loop ends with a count of one exactly for a mask with one bit among those that are looked at. -/
theorem countNodes_one (hnodup : bits.Nodup) (hk : k ∈ bits) (hbit : nodes.getLsbD k = true)
    (honly : ∀ i ∈ bits, nodes.getLsbD i = true → i = k) : countNodes nodes bits (0, 0) = (1, k + 1) := by
  induction bits with
  | nil => cases hk
  | cons i bits ih =>
    obtain ⟨hfirst, hrest⟩ := List.nodup_cons.mp hnodup
    rw [countNodes]
    by_cases hik : i = k
    · subst hik
      have hnone : ∀ j ∈ bits, nodes.getLsbD j = false := by
        intro j hj
        by_contra hset
        rw [Bool.not_eq_false] at hset
        have heq := honly j (List.mem_cons_of_mem i hj) hset
        exact hfirst (heq ▸ hj)
      rw [hbit]
      simpa using countNodes_none hnone (Nat.le_refl 1)
    · have hclear : nodes.getLsbD i = false := by
        by_contra hset
        rw [Bool.not_eq_false] at hset
        exact hik (honly i (List.mem_cons_self ..) hset)
      have hmem : k ∈ bits := (List.mem_cons.mp hk).resolve_left (Ne.symm hik)
      rw [hclear]
      simpa using ih hrest hmem fun j hj => honly j (List.mem_cons_of_mem i hj)

theorem single_of_countNodes (h : (countNodes nodes bits (0, 0)).1 = 1) :
    ∃ k ∈ bits, nodes.getLsbD k = true ∧ ∀ i ∈ bits, nodes.getLsbD i = true → i = k := by
  induction bits with
  | nil => cases h
  | cons i bits ih =>
    rw [countNodes] at h
    cases hbit : nodes.getLsbD i with
    | true =>
      rw [hbit] at h
      refine ⟨i, List.mem_cons_self .., hbit, fun j hj hset => ?_⟩
      obtain rfl | hj := List.mem_cons.mp hj
      · rfl
      · have htwo : (countNodes nodes bits (1, i + 1)).1 = 2 := countNodes_second ⟨j, hj, hset⟩
        simp only [if_true, Nat.zero_add, Nat.lt_irrefl, if_false] at h
        omega
    | false =>
      rw [hbit] at h
      obtain ⟨k, hk, hset, honly⟩ := ih (by simpa using h)
      refine ⟨k, List.mem_cons_of_mem i hk, hset, fun j hj hjset => ?_⟩
      obtain rfl | hj := List.mem_cons.mp hj
      · rw [hbit] at hjset
        cases hjset
      · exact honly j hj hjset

theorem castOf_all : castOf xmemAllNodes = (xmemDrvrNicBroadcast, 0, 0) := if_pos rfl

theorem castOf_single (hk : k < 32) : castOf (BitVec.twoPow 32 k) = (xmemDrvrNicUnicast, k + 1, 0) := by
  have hbit : (BitVec.twoPow 32 k).getLsbD k = true := by simp [hk]
  have honly : ∀ i ∈ List.range xmemDrvrNodes, (BitVec.twoPow 32 k).getLsbD i = true → i = k := by
    intro i _ hset
    rw [BitVec.getLsbD_twoPow] at hset
    simp at hset
    omega
  have hne : BitVec.twoPow 32 k ≠ xmemAllNodes := by
    intro heq
    have hfirst : (BitVec.twoPow 32 k).getLsbD 0 = true := by rw [heq]; decide
    have hsecond : (BitVec.twoPow 32 k).getLsbD 1 = true := by rw [heq]; decide
    have hzero := honly 0 (by decide) hfirst
    have hone := honly 1 (by decide) hsecond
    omega
  have hcount : countNodes (BitVec.twoPow 32 k) (List.range xmemDrvrNodes) (0, 0) = (1, k + 1) :=
    countNodes_one List.nodup_range (List.mem_range.mpr hk) hbit honly
  unfold castOf
  rw [if_neg hne, hcount]
  rfl

/-- Every other mask is a multicast, also the empty one. -/
theorem castOf_many (hall : nodes ≠ xmemAllNodes) (hmany : ∀ k < 32, nodes ≠ BitVec.twoPow 32 k) :
    castOf nodes = (xmemDrvrNicMulticast, 0, nodes) := by
  unfold castOf
  rw [if_neg hall, if_neg]
  intro hone
  obtain ⟨k, hk, hset, honly⟩ := single_of_countNodes hone
  have hlt : k < 32 := List.mem_range.mp hk
  refine hmany k hlt (BitVec.eq_of_getLsbD_eq fun i hi => ?_)
  rw [BitVec.getLsbD_twoPow]
  by_cases hik : i = k
  · subst hik
    simp [hset, hi]
  · have hclear : nodes.getLsbD i = false := by
      by_contra hne
      rw [Bool.not_eq_false] at hne
      exact hik (honly i (List.mem_range.mpr hi) hne)
    simp [hclear, Ne.symm hik]

end Casts

/-! ## The interrupts of a cast -/

section Network
variable {ntd mtyp data : BitVec 32} {ntn : BitVec 8} {nodeId n k : ℕ} {sbuf : XmemDrvrSendBuf} {bits : List ℕ}
  {wa : SendArea} {t : XmemMessageType} {nodes : BitVec 32} {acts : List SendAct}

/-- The types of messages fit beside each of the casts. -/
theorem nicOf_fields (h : nicOf t = some mtyp) {cast : BitVec 32}
    (hcast : cast = xmemDrvrNicBroadcast ∨ cast = xmemDrvrNicMulticast ∨ cast = xmemDrvrNicUnicast) :
    (mtyp ||| cast) &&& xmemDrvrNicType = mtyp ∧ (mtyp ||| cast) &&& xmemDrvrNicCast = cast := by
  obtain rfl | rfl | rfl := hcast <;> cases t <;> cases h <;> decide

theorem nicOf_bits (h : nicOf t = some mtyp) : (mtyp.truncate 8).getLsbD 3 = false ∧
    ((xmemDrvrNicBroadcast ||| mtyp).truncate 8).getLsbD 3 = true ∧
      (mtyp.truncate 8).truncate 3 = mtyp.truncate 3 ∧
        ((xmemDrvrNicBroadcast ||| mtyp).truncate 8).truncate 3 = mtyp.truncate 3 := by
  cases t <;> cases h <;> decide

theorem interruptsAt_broadcast (h : nicOf t = some mtyp) :
    interruptsAt nodeId n ntd ntn
      [.ntd data, .nic ((xmemDrvrNicBroadcast ||| mtyp).truncate 8), .interruptSelf ⟨mtyp.truncate 3, data⟩] =
        [⟨mtyp.truncate 3, data⟩] := by
  obtain ⟨-, hcast, -, htype⟩ := nicOf_bits h
  simp only [interruptsAt, nicReaches, hcast, htype, if_true]
  by_cases hn : n = nodeId <;> simp [hn]

/-- A write of NTN and then NIC reaches the one node. -/
theorem interruptsAt_nic (h : nicOf t = some mtyp) {node : ℕ} (hnode : node < 256) :
    interruptsAt nodeId n ntd ntn (.ntn (BitVec.ofNat 8 node) :: .nic (mtyp.truncate 8) :: acts) =
      (if n = node then [⟨mtyp.truncate 3, ntd⟩] else []) ++ interruptsAt nodeId n ntd (BitVec.ofNat 8 node) acts := by
  obtain ⟨hcast, -, htype, -⟩ := nicOf_bits h
  have hto : (BitVec.ofNat 8 node).toNat = node := by
    rw [BitVec.toNat_ofNat]
    exact Nat.mod_eq_of_lt hnode
  rw [interruptsAt, interruptsAt, htype]
  simp only [nicReaches, hcast, hto, Bool.false_eq_true, if_false]

/-- A turn of a multicast reaches node `i + 1` where the mask asks for it, and the sender's own node in any case. -/
theorem interruptsAt_turns (h : nicOf t = some mtyp) (htype : ntypeOf sbuf = mtyp) (hbits : ∀ i ∈ bits, i < 255) :
    interruptsAt nodeId n sbuf.data ntn (bits.flatMap (multicastTurn nodeId sbuf)) =
      bits.flatMap fun i => if i + 1 = n ∧ (n = nodeId ∨ sbuf.multicastMask.getLsbD i = true) then
        [⟨mtyp.truncate 3, sbuf.data⟩] else [] := by
  induction bits generalizing ntn with
  | nil => rfl
  | cons i bits ih =>
    have hlater : ∀ j ∈ bits, j < 255 := fun j hj => hbits j (List.mem_cons_of_mem i hj)
    have hi := hbits i (List.mem_cons_self ..)
    rw [List.flatMap_cons, List.flatMap_cons, multicastTurn, interruptSelf, htype]
    split
    · rename_i hself
      rw [List.singleton_append, interruptsAt, ih hlater]
      congr 1
      by_cases hn : n = nodeId
      · simp [hn, hself]
      · have hne : ¬i + 1 = n := fun heq => hn (heq.symm.trans hself)
        simp [hn, hne]
    · rename_i hself
      split
      · rename_i hset
        rw [List.cons_append, List.singleton_append, interruptsAt_nic h (by omega), ih hlater]
        congr 1
        simp [hset, eq_comm (a := n)]
      · rename_i hset
        rw [List.nil_append, ih hlater]
        have hnone : ¬(i + 1 = n ∧ (n = nodeId ∨ sbuf.multicastMask.getLsbD i = true)) := by
          rintro ⟨heq, hn | hbit⟩
          · exact hself (heq.trans hn)
          · exact hset hbit
        rw [if_neg hnone, List.nil_append]

theorem flatMap_at {α : Type} (x : α) (P : ℕ → Prop) [DecidablePred P] (m : ℕ) :
    ((List.range m).flatMap fun i => if i + 1 = n ∧ P i then [x] else []) =
      if 0 < n ∧ n ≤ m ∧ P (n - 1) then [x] else [] := by
  induction m with
  | zero =>
    have hnone : ¬(0 < n ∧ n ≤ 0 ∧ P (n - 1)) := fun h => by omega
    rw [if_neg hnone]
    rfl
  | succ m ih =>
    rw [List.range_succ, List.flatMap_append, ih, List.flatMap_singleton]
    by_cases hm : m + 1 = n
    · subst hm
      simp
    · have hsame : (n ≤ m + 1) = (n ≤ m) := propext ⟨fun h => by omega, fun h => by omega⟩
      simp [hm, hsame]

theorem sendInterrupt_message (h : nicOf t = some mtyp) (hmodules : 0 < wa.modules) {node : ℕ} {mask : BitVec 32} :
    sendInterrupt wa ⟨1, node, mask, mtyp ||| xmemDrvrNicBroadcast, data⟩ =
        .ok [.ntd data, .nic ((xmemDrvrNicBroadcast ||| mtyp).truncate 8), .interruptSelf ⟨mtyp.truncate 3, data⟩] ∧
      sendInterrupt wa ⟨1, node, mask, mtyp ||| xmemDrvrNicMulticast, data⟩ =
        .ok (.ntd data :: (List.range xmemDrvrNodes).flatMap
          (multicastTurn (wa.nodeId 0) ⟨1, node, mask, mtyp ||| xmemDrvrNicMulticast, data⟩)) ∧
      sendInterrupt wa ⟨1, node, mask, mtyp ||| xmemDrvrNicUnicast, data⟩ =
        .ok (.ntd data :: if node = wa.nodeId 0 then [.interruptSelf ⟨mtyp.truncate 3, data⟩]
          else [.ntn (BitVec.ofNat 8 node), .nic (mtyp.truncate 8)]) := by
  have hmodule : ¬((1 : ℕ) = 0 ∨ wa.modules < 1) := by omega
  obtain ⟨hbtype, hbcast⟩ := nicOf_fields h (.inl rfl)
  obtain ⟨-, hmcast⟩ := nicOf_fields h (.inr (.inl rfl))
  obtain ⟨hutype, hucast⟩ := nicOf_fields h (.inr (.inr rfl))
  have hmulticast : xmemDrvrNicMulticast ≠ xmemDrvrNicBroadcast := by decide
  have hunicast : xmemDrvrNicUnicast ≠ xmemDrvrNicBroadcast ∧ xmemDrvrNicUnicast ≠ xmemDrvrNicMulticast := by decide
  unfold sendInterrupt interruptSelf ncastOf ntypeOf
  simp only [if_neg hmodule, hbcast, hbtype, hmcast, hucast, hutype, if_true, if_neg hmulticast, if_neg hunicast.1,
    if_neg hunicast.2]
  exact ⟨rfl, rfl, rfl⟩

end Network

/-! ## The nodes that a message reaches -/

section Messages
variable {wa : SendArea} {net : Set ℕ} {nodes : BitVec 32} {mess : XmemMessage}

def Addressed (nodes : BitVec 32) (n : ℕ) : Prop := 0 < n ∧ nodes.getLsbD (n - 1) = true

instance (nodes : BitVec 32) (n : ℕ) : Decidable (Addressed nodes n) := inferInstanceAs (Decidable (_ ∧ _))

/-- The message raises its interrupt once at each addressed node of the network and none at the others, whatever was in
the registers before. -/
def Reaches (wa : SendArea) (net : Set ℕ) (nodes : BitVec 32) (mess : XmemMessage) : Prop :=
  ∃ mtyp acts, nicOf mess.messageType = some mtyp ∧ vmicSendMessage wa nodes mess = .ok acts ∧
    ∀ n ∈ net, ∀ ntd ntn, interruptsAt (wa.nodeId 0) n ntd ntn acts =
      if Addressed nodes n then [⟨mtyp.truncate 3, mess.data⟩] else []

/-- A multicast spares the sender only where the sender is addressed too or has a number that no mask has. A broadcast
reaches nodes with such numbers. -/
def CastFits (nodeId : ℕ) (net : Set ℕ) (nodes : BitVec 32) : Prop :=
  if nodes = xmemAllNodes then ∀ n ∈ net, n ≤ 32
  else (∃ k < 32, nodes = BitVec.twoPow 32 k) ∨ Addressed nodes nodeId ∨ 32 < nodeId

theorem Addressed.le {n : ℕ} (h : Addressed nodes n) : n ≤ 32 := by
  have hlt := BitVec.lt_of_getLsbD h.2
  omega

theorem addressed_all {n : ℕ} (hn : 0 < n) : Addressed xmemAllNodes n ↔ n ≤ 32 := by
  refine ⟨Addressed.le, fun hle => ⟨hn, ?_⟩⟩
  rw [xmemAllNodes, BitVec.getLsbD_allOnes, decide_eq_true_eq]
  omega

theorem addressed_single {n k : ℕ} (hn : 0 < n) (hk : k < 32) : Addressed (BitVec.twoPow 32 k) n ↔ n = k + 1 := by
  unfold Addressed
  rw [BitVec.getLsbD_twoPow]
  simp only [hk, decide_true, Bool.true_and, decide_eq_true_eq]
  omega

/-- The interrupts of the message go to the nodes in `P`. -/
def Spreads (wa : SendArea) (nodes : BitVec 32) (mess : XmemMessage) (mtyp : BitVec 32) (P : ℕ → Prop) : Prop :=
  ∃ acts, vmicSendMessage wa nodes mess = .ok acts ∧ ∀ n ntd ntn,
    (P n → interruptsAt (wa.nodeId 0) n ntd ntn acts = [⟨mtyp.truncate 3, mess.data⟩]) ∧
      (¬P n → interruptsAt (wa.nodeId 0) n ntd ntn acts = [])

theorem Spreads.reaches_iff {mtyp : BitVec 32} {P : ℕ → Prop} (h : Spreads wa nodes mess mtyp P)
    (hnic : nicOf mess.messageType = some mtyp) :
    Reaches wa net nodes mess ↔ ∀ n ∈ net, (P n ↔ Addressed nodes n) := by
  obtain ⟨acts, hsend, hat⟩ := h
  constructor
  · rintro ⟨mtyp', acts', hnic', hsend', hexact⟩ n hn
    obtain rfl := Option.some.inj (hnic.symm.trans hnic')
    obtain rfl := Except.ok.inj (hsend.symm.trans hsend')
    have hgot := hexact n hn 0 0
    obtain ⟨hin, hout⟩ := hat n 0 0
    by_cases hP : P n
    · rw [hin hP] at hgot
      by_cases haddressed : Addressed nodes n
      · exact iff_of_true hP haddressed
      · rw [if_neg haddressed] at hgot
        cases hgot
    · rw [hout hP] at hgot
      by_cases haddressed : Addressed nodes n
      · rw [if_pos haddressed] at hgot
        cases hgot
      · exact iff_of_false hP haddressed
  · intro hiff
    refine ⟨mtyp, acts, hnic, hsend, fun n hn ntd ntn => ?_⟩
    obtain ⟨hin, hout⟩ := hat n ntd ntn
    split
    · exact hin ((hiff n hn).mpr ‹_›)
    · exact hout fun hP => absurd ((hiff n hn).mp hP) ‹_›

variable {mtyp : BitVec 32}

theorem spreads_all (hnic : nicOf mess.messageType = some mtyp) (hmodules : 0 < wa.modules) :
    Spreads wa xmemAllNodes mess mtyp fun _ => True := by
  refine ⟨_, ?_, fun n ntd ntn => ⟨fun _ => interruptsAt_broadcast hnic, fun hnone => absurd trivial hnone⟩⟩
  unfold vmicSendMessage
  simp only [castOf_all, hnic, (sendInterrupt_message hnic hmodules).1]

theorem spreads_single (hnic : nicOf mess.messageType = some mtyp) (hmodules : 0 < wa.modules) {k : ℕ} (hk : k < 32) :
    Spreads wa (BitVec.twoPow 32 k) mess mtyp fun n => n = k + 1 := by
  have hacts : vmicSendMessage wa (BitVec.twoPow 32 k) mess =
      .ok (.ntd mess.data :: if k + 1 = wa.nodeId 0 then [.interruptSelf ⟨mtyp.truncate 3, mess.data⟩]
        else [.ntn (BitVec.ofNat 8 (k + 1)), .nic (mtyp.truncate 8)]) := by
    unfold vmicSendMessage
    simp only [castOf_single hk, hnic, (sendInterrupt_message hnic hmodules).2.2]
  refine ⟨_, hacts, fun n ntd ntn => ?_⟩
  rw [interruptsAt]
  split
  · rename_i hself
    rw [hself]
    exact ⟨fun hn => by simp [interruptsAt, hn], fun hn => by simp [interruptsAt, hn]⟩
  · rw [interruptsAt_nic hnic (by omega)]
    exact ⟨fun hn => by simp [interruptsAt, hn], fun hn => by simp [interruptsAt, hn]⟩

theorem spreads_many (hnic : nicOf mess.messageType = some mtyp) (hmodules : 0 < wa.modules)
    (hall : nodes ≠ xmemAllNodes) (hmany : ∀ k < 32, nodes ≠ BitVec.twoPow 32 k) :
    Spreads wa nodes mess mtyp fun n => 0 < n ∧ n ≤ 32 ∧ (n = wa.nodeId 0 ∨ nodes.getLsbD (n - 1) = true) := by
  let sbuf : XmemDrvrSendBuf := ⟨1, 0, nodes, mtyp ||| xmemDrvrNicMulticast, mess.data⟩
  have hacts : vmicSendMessage wa nodes mess =
      .ok (.ntd mess.data :: (List.range xmemDrvrNodes).flatMap (multicastTurn (wa.nodeId 0) sbuf)) := by
    unfold vmicSendMessage
    simp only [castOf_many hall hmany, hnic, (sendInterrupt_message hnic hmodules).2.1]
    rfl
  have htype : ntypeOf sbuf = mtyp := (nicOf_fields hnic (.inr (.inl rfl))).1
  have hbits : ∀ i ∈ List.range xmemDrvrNodes, i < 255 := by
    intro i hi
    have hlt : i < 32 := List.mem_range.mp hi
    omega
  refine ⟨_, hacts, fun n ntd ntn => ?_⟩
  have hat : interruptsAt (wa.nodeId 0) n mess.data ntn
      ((List.range xmemDrvrNodes).flatMap (multicastTurn (wa.nodeId 0) sbuf)) = _ :=
    interruptsAt_turns hnic htype hbits
  have hone := flatMap_at (n := n) (⟨mtyp.truncate 3, mess.data⟩ : Interrupt)
    (fun i => n = wa.nodeId 0 ∨ nodes.getLsbD i = true) xmemDrvrNodes
  rw [interruptsAt]
  refine ⟨fun hP => (hat.trans hone).trans (if_pos hP), fun hP => (hat.trans hone).trans (if_neg hP)⟩

/-- A message reaches exactly the addressed nodes if and only if its cast fits the mask and the sender. -/
theorem message_reaches_iff (hmodules : 0 < wa.modules) (hnet : ∀ n ∈ net, 0 < n) (hself : wa.nodeId 0 ∈ net)
    (hmess : mess.messageType ≠ .count) : Reaches wa net nodes mess ↔ CastFits (wa.nodeId 0) net nodes := by
  obtain ⟨mtyp, hnic⟩ : ∃ mtyp, nicOf mess.messageType = some mtyp := by
    cases htype : mess.messageType <;> first | exact absurd htype hmess | exact ⟨_, rfl⟩
  unfold CastFits
  by_cases hall : nodes = xmemAllNodes
  · subst hall
    rw [(spreads_all hnic hmodules).reaches_iff hnic, if_pos rfl]
    simp only [true_iff]
    exact forall₂_congr fun n hn => addressed_all (hnet n hn)
  rw [if_neg hall]
  by_cases hsingle : ∃ k < 32, nodes = BitVec.twoPow 32 k
  · obtain ⟨k, hk, rfl⟩ := hsingle
    rw [(spreads_single hnic hmodules hk).reaches_iff hnic]
    exact iff_of_true (fun n hn => (addressed_single (hnet n hn) hk).symm) (.inl ⟨k, hk, rfl⟩)
  · have hmany : ∀ k < 32, nodes ≠ BitVec.twoPow 32 k := fun k hk heq => hsingle ⟨k, hk, heq⟩
    rw [(spreads_many hnic hmodules hall hmany).reaches_iff hnic]
    constructor
    · intro hiff
      by_cases hlow : wa.nodeId 0 ≤ 32
      · exact .inr (.inl ((hiff _ hself).mp ⟨hnet _ hself, hlow, .inl rfl⟩))
      · exact .inr (.inr (Nat.lt_of_not_le hlow))
    · rintro (hk | hown) n hn
      · exact absurd hk hsingle
      · constructor
        · rintro ⟨hpos, hle, rfl | hbit⟩
          · exact hown.resolve_right (Nat.not_lt.mpr hle)
          · exact ⟨hpos, hbit⟩
        · exact fun h => ⟨h.1, h.le, .inr h.2⟩

/-- A message from node 1 to all nodes of a network of three. -/
theorem message_reaches_three :
    Reaches ⟨1, fun _ => 1⟩ {1, 2, 3} xmemAllNodes ⟨.tableUpdate, 5⟩ ↔ CastFits 1 {1, 2, 3} xmemAllNodes :=
  message_reaches_iff (by decide) (by simp) (by simp) (by decide)

/-- A kill for the nodes 2 and 3 also kills the daemon of the sender. -/
theorem not_message_reaches_others : ¬Reaches ⟨1, fun _ => 1⟩ {1, 2, 3} 6 ⟨.kill, 0⟩ := by
  rintro ⟨mtyp, acts, -, hsend, hexact⟩
  have hone := hexact 1 (by simp) 0 0
  have hacts : vmicSendMessage ⟨1, fun _ => 1⟩ 6 ⟨.kill, 0⟩ =
      .ok [.ntd 0, .interruptSelf ⟨0, 0⟩, .ntn 2, .nic 0, .ntn 3, .nic 0] := rfl
  obtain rfl := Except.ok.inj (hacts.symm.trans hsend)
  rw [if_neg (by decide)] at hone
  exact absurd hone (by decide)

end Messages

end HtDrivers.Xmem
