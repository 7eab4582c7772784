import HtDrivers.Skel.Connections

/-! The interrupts that are enabled on a module, and the clients that are connected to them. `Connect` and
`DisConnect` set and clear the whole mask of the request, whichever interrupt of it is the one that changed. -/
namespace HtDrivers.Skel
open HtDrivers.Lib.Transition
set_option autoImplicit false

section Modules
variable {user : SkelUser} {ccon : Ptr} {imsk : U32} {connected : SkelDrvrModConn} {sysbrk : ℕ → Bool}

/-- An interrupt is enabled exactly when it has clients. -/
def EnabledMatch (user : SkelUser) (connected : SkelDrvrModConn) : Prop :=
  ∀ j < user.interrupts, connected.enabledInts.getLsbD j = true ↔ connected.clients j ≠ []

/-- If an interrupt of the mask loses its last client, then none of the mask has other clients. -/
def CutSafe (user : SkelUser) (ccon : Ptr) (imsk : U32) (connected : SkelDrvrModConn) : Prop :=
  (∃ j < user.interrupts, imsk.getLsbD j = true ∧ connected.clients j = [ccon]) →
    ∀ j < user.interrupts, imsk.getLsbD j = true → ∀ other ∈ connected.clients j, other = ccon

instance instDecidableCutSafe : Decidable (CutSafe user ccon imsk connected) :=
  inferInstanceAs (Decidable ((∃ j < user.interrupts, _ ∧ _) → ∀ j < user.interrupts, _ → ∀ other ∈ _, other = ccon))

theorem erase_eq_nil {clients : List Ptr} (h : clients.Nodup) :
    clients.erase ccon = [] ↔ ∀ other ∈ clients, other = ccon := by
  constructor
  · intro hnil other hmem
    by_contra hne
    have hkept := (List.mem_erase_of_ne hne).mpr hmem
    rw [hnil] at hkept
    exact absurd hkept List.not_mem_nil
  · intro hall
    refine List.eq_nil_iff_forall_not_mem.mpr ?_
    intro other hmem
    have heq := hall other (List.mem_of_mem_erase hmem)
    subst heq
    exact h.not_mem_erase hmem

theorem enabledMatch_connectLoop (h : EnabledMatch user connected) (hlinks : ∀ j, sysbrk j = true) :
    EnabledMatch user (connectLoop sysbrk ccon imsk connected user.interrupts) := by
  intro j hj
  rw [connectLoop_enabledInts hlinks, connectLoop_clients]
  by_cases hbit : imsk.getLsbD j = true
  · have hex : ∃ k < user.interrupts, imsk.getLsbD k = true := ⟨j, hj, hbit⟩
    rw [if_pos hex, BitVec.getLsbD_or, hbit, Bool.or_true]
    refine ⟨fun _ => ?_, fun _ => rfl⟩
    by_cases hmem : ccon ∈ connected.clients j
    · rw [if_neg fun hnew => hnew.2.2.1 hmem]
      exact List.ne_nil_of_mem hmem
    · rw [if_pos ⟨hj, rfl, hmem, hlinks j⟩]
      exact List.cons_ne_nil _ _
  · have hold : ¬(j < user.interrupts ∧ imsk.getLsbD j = true ∧ ccon ∉ connected.clients j ∧ sysbrk j = true) :=
      fun hnew => hbit hnew.2.1
    rw [if_neg hold]
    split
    · rw [BitVec.getLsbD_or, Bool.eq_false_of_not_eq_true hbit, Bool.or_false]
      exact h j hj
    · exact h j hj

theorem enabledMatch_disConnectLoop (h : EnabledMatch user connected) (hone : ∀ j, (connected.clients j).Nodup) :
    EnabledMatch user (disConnectLoop ccon imsk connected user.interrupts) ↔ CutSafe user ccon imsk connected := by
  have hkept : ∀ j, (disConnectLoop ccon imsk connected user.interrupts).clients j =
      if j < user.interrupts ∧ imsk.getLsbD j = true then (connected.clients j).erase ccon else connected.clients j :=
    fun j => disConnectLoop_clients
  by_cases hlast : ∃ j < user.interrupts, imsk.getLsbD j = true ∧ connected.clients j = [ccon]
  · have hints : (disConnectLoop ccon imsk connected user.interrupts).enabledInts = connected.enabledInts &&&
      ~~~imsk := by
      rw [disConnectLoop_enabledInts, if_pos hlast]
    constructor
    · intro hmatch _ j hj hbit
      have hj' := hmatch j hj
      rw [hints, hkept, if_pos ⟨hj, hbit⟩, BitVec.getLsbD_and, BitVec.getLsbD_not, hbit] at hj'
      refine (erase_eq_nil (hone j)).mp ?_
      by_contra hne
      have hoff := hj'.mpr hne
      simp at hoff
    · intro hsafe j hj
      rw [hints, hkept, BitVec.getLsbD_and, BitVec.getLsbD_not]
      by_cases hbit : imsk.getLsbD j = true
      · rw [if_pos ⟨hj, hbit⟩, (erase_eq_nil (hone j)).mpr (hsafe hlast j hj hbit), hbit]
        simp
      · have hwide : j < 32 := lt_of_lt_of_le hj user.interrupts_le
        rw [if_neg fun hboth => hbit hboth.2, Bool.eq_false_of_not_eq_true hbit, decide_eq_true hwide]
        simpa using h j hj
  · have hints : (disConnectLoop ccon imsk connected user.interrupts).enabledInts = connected.enabledInts := by
      rw [disConnectLoop_enabledInts, if_neg hlast]
    refine ⟨fun _ hex => absurd hex hlast, ?_⟩
    intro _ j hj
    rw [hints, hkept, h j hj]
    split
    · rename_i hboth
      rw [not_iff_not]
      constructor
      · intro hnil
        rw [hnil]
        rfl
      · intro hnil
        obtain hnil | hone := List.erase_eq_nil_iff.mp hnil
        · exact hnil
        · exact absurd ⟨j, hj, hboth.2, hone⟩ hlast
    · exact Iff.rfl

end Modules

/-! ## Runs -/

section Runs
variable {user : SkelUser} {T : Type} {m : ℕ} {wa wa' : SkelDrvrWorkingArea T m} {call : ClientCall}

def LinksAllocated : ClientCall → Prop
  | .connect _ _ sysbrk => ∀ j, sysbrk j = true
  | _ => True

def Change.CutSafe (user : SkelUser) (connected : SkelDrvrModConn) : Change → Prop
  | .cut ccon imsk => Skel.CutSafe user ccon imsk connected
  | _ => True

instance instDecidableChangeCutSafe (user : SkelUser) (connected : SkelDrvrModConn) (c : Change) :
    Decidable (c.CutSafe user connected) :=
  match c with
  | .same => isTrue trivial
  | .link _ _ _ => isTrue trivial
  | .cut _ _ => instDecidableCutSafe

def DisConnectSafe (user : SkelUser) (wa : SkelDrvrWorkingArea T m) (call : ClientCall) : Prop :=
  ∀ i, (change wa i call).CutSafe user (wa.modules i).connected

instance (user : SkelUser) (wa : SkelDrvrWorkingArea T m) (call : ClientCall) :
    Decidable (DisConnectSafe user wa call) :=
  inferInstanceAs (Decidable (∀ _, _))

theorem enabledMatch_next (hone : OneLink wa) (hmatch : ∀ i, EnabledMatch user (wa.modules i).connected)
    (hlinks : LinksAllocated call) (hnext : clientNext user wa call = some wa') :
    (∀ i, EnabledMatch user (wa'.modules i).connected) ↔ DisConnectSafe user wa call := by
  refine forall_congr' ?_
  intro i
  rw [(clientNext_change hone hnext i).2]
  cases hchange : change wa i call with
  | same => exact ⟨fun _ => trivial, fun _ => hmatch i⟩
  | link ccon imsk sysbrk =>
    obtain ⟨flp, conx, rfl, -⟩ := change_eq_link hchange
    exact ⟨fun _ => trivial, fun _ => enabledMatch_connectLoop (hmatch i) hlinks⟩
  | cut ccon imsk => exact enabledMatch_disConnectLoop (hmatch i) (hone i)

/-- Enabled interrupts are those with clients as long as every disconnection is safe, and no longer. -/
theorem enabled_ints_match {modnr : Fin m → U32} {memory : Ptr → SkelDrvrClientContext T}
    (h : Reach (clientNext user) (fun wa call => LinksAllocated call ∧ DisConnectSafe user wa call)
      (waStart modnr memory) wa) :
    (∀ i, EnabledMatch user (wa.modules i).connected) ∧
    ∀ call wa', LinksAllocated call → clientNext user wa call = some wa' →
      ((∀ i, EnabledMatch user (wa'.modules i).connected) ↔ DisConnectSafe user wa call) := by
  have hinv : OneLink wa ∧ ∀ i, EnabledMatch user (wa.modules i).connected := by
    refine h.invariant (I := fun wa => OneLink wa ∧ ∀ i, EnabledMatch user (wa.modules i).connected) ?_ ?_
    · refine ⟨OneLink.start modnr memory, ?_⟩
      intro i j _
      simp [waStart]
    · intro wa call wa' hinv hok hnext
      exact ⟨hinv.1.next hnext, (enabledMatch_next hinv.1 hinv.2 hok.1 hnext).mpr hok.2⟩
  refine ⟨hinv.2, ?_⟩
  intro call wa' hlinks hnext
  exact enabledMatch_next hinv.1 hinv.2 hlinks hnext

/-- Two clients share an interrupt and leave it one after the other; then the first one leaves its own and closes. -/
def sharedInterrupt : List ClientCall :=
  [.open 0 10, .open 1 11, .connect 10 ⟨1, 5⟩ fun _ => true, .connect 11 ⟨1, 12⟩ fun _ => true, .disConnect 10 ⟨1, 4⟩,
    .disConnect 11 ⟨1, 4⟩, .disConnect 10 ⟨1, 1⟩, .close 10]

/-- The interrupt of the second client is left. -/
theorem enabled_ints_match_shared : ∃ wa : SkelDrvrWorkingArea Unit 1,
    (wa.modules 0).connected.enabledInts = 8 ∧ (wa.modules 0).connected.clients 3 = [1] ∧
      EnabledMatch template (wa.modules 0).connected := by
  have hlinks : ∀ call ∈ sharedInterrupt, LinksAllocated call := by
    simp [sharedInterrupt, LinksAllocated]
  have hrun : (replay (clientNext template) (DisConnectSafe template) oneModule sharedInterrupt).map
      (fun wa => ((wa.modules 0).connected.enabledInts, (wa.modules 0).connected.clients 3)) = some (8, [1]) := by
    decide +kernel
  obtain ⟨wa, hwa, hval⟩ := Option.map_eq_some_iff.mp hrun
  rw [Prod.mk.injEq] at hval
  exact ⟨wa, hval.1, hval.2, (enabled_ints_match (Reach.of_replay_and Reach.refl hlinks hwa)).1 0⟩

/-- Two clients on two interrupts: the one that closes disables the interrupt of the other one. -/
theorem enabled_ints_lost :
    ¬ ∀ wa, Reach (clientNext template) (fun _ call => LinksAllocated call) oneModule wa →
      ∀ i, EnabledMatch template (wa.modules i).connected := by
  intro hall
  let calls : List ClientCall := [.open 0 10, .open 1 11, .connect 10 ⟨1, 1⟩ fun _ => true,
    .connect 11 ⟨1, 2⟩ fun _ => true, .close 10]
  have hlinks : ∀ call ∈ calls, LinksAllocated call := by
    simp [calls, LinksAllocated]
  have hlost : (calls.foldlM (clientNext template) oneModule).map (fun wa =>
      ((wa.modules 0).connected.enabledInts.getLsbD 1, (wa.modules 0).connected.clients 1)) = some (false, [1]) := by
    decide +kernel
  obtain ⟨wa, hrun, he⟩ := Option.map_eq_some_iff.mp hlost
  obtain ⟨hoff, hclients⟩ := Prod.mk.inj he
  have hmatch := hall wa (Reach.refl.of_foldlM (fun call hcall _ => hlinks call hcall) hrun) 0 1 (by decide)
  rw [hoff, hclients] at hmatch
  simp at hmatch

end Runs

end HtDrivers.Skel
