import HtDrivers.Skel.Connections

/-! The links of the modules and the clients that they refer to. A request for module number 0 means the current
module of the client, and so `DisConnectAll` does not always get at a module that has this number. -/
namespace HtDrivers.Skel
open HtDrivers.Lib.Transition
set_option autoImplicit false

variable {user : SkelUser} {T : Type} {m : ℕ} {wa wa' : SkelDrvrWorkingArea T m} {call : ClientCall} {ccon : Ptr}
  {flp : ℕ} {i : Fin m}

/-- Every link refers to a client context in use, and no two links of an interrupt to the same one. -/
structure LinksValid (user : SkelUser) (wa : SkelDrvrWorkingArea T m) : Prop where
  known : ∀ i, ∀ j < user.interrupts, ∀ c ∈ (wa.modules i).connected.clients j, c ∈ wa.clients
  once : OneLink wa

def Linked (user : SkelUser) (wa : SkelDrvrWorkingArea T m) (ccon : Ptr) (i : Fin m) : Prop :=
  ∃ j < user.interrupts, ccon ∈ (wa.modules i).connected.clients j

/-- A client that is connected to a module with number 0 has this module as its current one when it closes. -/
def CloseSafe (user : SkelUser) (wa : SkelDrvrWorkingArea T m) : ClientCall → Prop
  | .close flp => ∀ ccon ∈ skelGetCcon wa flp, ∀ i, (wa.modules i).moduleNumber = 0 → Linked user wa ccon i →
      (wa.ccon ccon).moduleNumber = 0
  | _ => True

instance instDecidableLinked : Decidable (Linked user wa ccon i) :=
  inferInstanceAs (Decidable (∃ j < user.interrupts, _ ∈ _))

/-! ## The modules that are reached -/

section Reached
variable (hdistinct : Function.Injective fun i => (wa.modules i).moduleNumber)
include hdistinct

theorem getMcon_eq_some {modnr : U32} : getMcon wa modnr = some i ↔ (wa.modules i).moduleNumber = modnr := by
  unfold getMcon
  constructor
  · intro hfind
    simpa using List.find?_some hfind
  · intro hnumber
    cases hfind : (List.finRange m).find? fun i => (wa.modules i).moduleNumber = modnr with
    | none => simpa [hnumber] using List.find?_eq_none.mp hfind i (List.mem_finRange i)
    | some k =>
      have hk : (wa.modules k).moduleNumber = modnr := by simpa using List.find?_some hfind
      rw [hdistinct (hk.trans hnumber.symm)]

theorem reached_iff :
    Reached wa ccon i ↔ (wa.modules i).moduleNumber ≠ 0 ∨ (wa.ccon ccon).moduleNumber = 0 := by
  unfold Reached requestMcon
  constructor
  · rintro ⟨k, hk⟩
    split at hk
    · have hi := (getMcon_eq_some hdistinct).mp hk
      rw [← hi]
      exact (em _).symm
    · rename_i hne
      rw [(getMcon_eq_some hdistinct).mp hk]
      exact .inl hne
  · intro hor
    refine ⟨i, ?_⟩
    split
    · rename_i hzero
      rw [getMcon_eq_some hdistinct, hzero]
      exact (hor.resolve_left (not_not.mpr hzero)).symm
    · exact (getMcon_eq_some hdistinct).mpr rfl

end Reached

/-! ## One step -/

theorem mem_of_skelGetCcon (h : skelGetCcon wa flp = some ccon) : ccon ∈ wa.clients := List.mem_of_find?_eq_some h

/-- The clients after a call. -/
def clientsNext (wa : SkelDrvrWorkingArea T m) : ClientCall → List Ptr
  | .open ccon _ => ccon :: wa.clients
  | .close flp =>
    match skelGetCcon wa flp with
    | none => wa.clients
    | some ccon => wa.clients.erase ccon
  | _ => wa.clients

theorem clientNext_clients (hone : OneLink wa) (hnext : clientNext user wa call = some wa') :
    wa'.clients = clientsNext wa call := by
  cases call with
  | «open» ccon flp =>
    rw [clientNext] at hnext
    split at hnext
    · cases hnext
    · cases hnext
      rfl
  | setModule flp lav =>
    cases hnext
    unfold withCcon ioctlSetModule
    cases skelGetCcon wa flp with
    | none => rfl
    | some ccon =>
      cases getMcon wa lav with
      | none => rfl
      | some k => rfl
  | connect flp conx sysbrk =>
    cases hnext
    unfold withCcon
    cases skelGetCcon wa flp with
    | none => rfl
    | some ccon => exact (connect_spec sysbrk ccon conx).1.clients
  | disConnect flp conx =>
    cases hnext
    unfold withCcon
    cases skelGetCcon wa flp with
    | none => rfl
    | some ccon => exact (disConnect_spec ccon conx).1.clients
  | disConnectAll flp =>
    cases hnext
    unfold withCcon
    cases skelGetCcon wa flp with
    | none => rfl
    | some ccon => exact (disConnectAll_spec hone ccon).1.clients
  | close flp =>
    cases hnext
    cases hget : skelGetCcon wa flp with
    | none => simp only [withCcon, clientsNext, hget]
    | some ccon =>
      simp only [withCcon, clientsNext, hget]
      exact congrArg (List.erase · ccon) (disConnectAll_spec hone ccon).1.clients

theorem nodup_next (hone : OneLink wa) (hnodup : wa.clients.Nodup) (hnext : clientNext user wa call = some wa') :
    wa'.clients.Nodup := by
  rw [clientNext_clients hone hnext]
  cases call with
  | «open» ccon flp =>
    rw [clientNext] at hnext
    split at hnext
    · cases hnext
    · rename_i hnew
      exact List.nodup_cons.mpr ⟨hnew, hnodup⟩
  | close flp =>
    rw [clientsNext]
    split
    · exact hnodup
    · exact hnodup.erase _
  | setModule flp lav => exact hnodup
  | connect flp conx sysbrk => exact hnodup
  | disConnect flp conx => exact hnodup
  | disConnectAll flp => exact hnodup

theorem mem_clients_next {j : ℕ} {c : Ptr} (hone : OneLink wa) (hnext : clientNext user wa call = some wa')
    (hmem : c ∈ (wa'.modules i).connected.clients j) : c ∈ (wa.modules i).connected.clients j ∨ c ∈ wa.clients := by
  rw [(clientNext_change hone hnext i).2] at hmem
  cases hchange : change wa i call with
  | same =>
    rw [hchange] at hmem
    exact .inl hmem
  | link ccon imsk sysbrk =>
    rw [hchange, Change.apply, connectLoop_clients] at hmem
    split at hmem
    · obtain rfl | hold := List.mem_cons.mp hmem
      · obtain ⟨flp, conx, -, hget⟩ := change_eq_link hchange
        exact .inr (mem_of_skelGetCcon hget)
      · exact .inl hold
    · exact .inl hmem
  | cut ccon imsk =>
    rw [hchange, Change.apply, disConnectLoop_clients] at hmem
    split at hmem
    · exact .inl (List.mem_of_mem_erase hmem)
    · exact .inl hmem

/-- A client that closes leaves the lists of the modules that are reached. -/
theorem close_clients {j : ℕ} (hone : OneLink wa) (hget : skelGetCcon wa flp = some ccon) (hj : j < user.interrupts)
    (hnext : clientNext user wa (.close flp) = some wa') :
    (wa'.modules i).connected.clients j =
      if Reached wa ccon i then ((wa.modules i).connected.clients j).erase ccon
      else (wa.modules i).connected.clients j := by
  have hwide : j < 32 := lt_of_lt_of_le hj user.interrupts_le
  rw [(clientNext_change hone hnext i).2, change]
  simp only [hget]
  split
  · rw [Change.apply, disConnectLoop_clients, if_pos]
    refine ⟨hj, ?_⟩
    rw [BitVec.getLsbD_not, decide_eq_true hwide]
    simp
  · rfl

/-- A client that closes is gone from all lists exactly when it closes safely. -/
theorem not_linked_close (hdistinct : Function.Injective fun i => (wa.modules i).moduleNumber) (hone : OneLink wa)
    (hget : skelGetCcon wa flp = some ccon) (hnext : clientNext user wa (.close flp) = some wa') :
    (∀ i, ¬ Linked user wa' ccon i) ↔ CloseSafe user wa (.close flp) := by
  constructor
  · intro hgone c hc i hzero hlinked
    obtain rfl : ccon = c := Option.some.inj (hget.symm.trans hc)
    by_contra hcur
    have hout : ¬ Reached wa ccon i := by
      rw [reached_iff hdistinct]
      exact not_or.mpr ⟨not_not.mpr hzero, hcur⟩
    obtain ⟨j, hj, hmem⟩ := hlinked
    refine hgone i ⟨j, hj, ?_⟩
    rw [close_clients hone hget hj hnext, if_neg hout]
    exact hmem
  · rintro hsafe i ⟨j, hj, hmem⟩
    rw [close_clients hone hget hj hnext] at hmem
    split at hmem
    · exact (hone i j).not_mem_erase hmem
    · rename_i hout
      rw [reached_iff hdistinct, not_or, not_not] at hout
      exact hout.2 (hsafe ccon hget i hout.1 ⟨j, hj, hmem⟩)

theorem LinksValid.next (hdistinct : Function.Injective fun i => (wa.modules i).moduleNumber)
    (hnodup : wa.clients.Nodup) (h : LinksValid user wa) (hnext : clientNext user wa call = some wa') :
    LinksValid user wa' ↔ CloseSafe user wa call := by
  have hone := h.once.next hnext
  have hold : ∀ i, ∀ j < user.interrupts, ∀ c ∈ (wa'.modules i).connected.clients j, c ∈ wa.clients := by
    intro i j hj c hmem
    obtain hmem | hmem := mem_clients_next h.once hnext hmem
    · exact h.known i j hj c hmem
    · exact hmem
  have hclients := clientNext_clients h.once hnext
  have hgrow : (∀ c ∈ wa.clients, c ∈ wa'.clients) → LinksValid user wa' := by
    intro hsub
    refine ⟨?_, hone⟩
    intro i j hj c hmem
    exact hsub c (hold i j hj c hmem)
  cases call with
  | «open» ccon flp =>
    refine ⟨fun _ => trivial, fun _ => hgrow ?_⟩
    intro c hc
    rw [hclients]
    exact List.mem_cons_of_mem ccon hc
  | setModule flp lav => exact ⟨fun _ => trivial, fun _ => hgrow fun c hc => hclients ▸ hc⟩
  | connect flp conx sysbrk => exact ⟨fun _ => trivial, fun _ => hgrow fun c hc => hclients ▸ hc⟩
  | disConnect flp conx => exact ⟨fun _ => trivial, fun _ => hgrow fun c hc => hclients ▸ hc⟩
  | disConnectAll flp => exact ⟨fun _ => trivial, fun _ => hgrow fun c hc => hclients ▸ hc⟩
  | close flp =>
    rw [clientsNext] at hclients
    cases hget : skelGetCcon wa flp with
    | none =>
      simp only [hget] at hclients
      refine ⟨fun _ c hc => ?_, fun _ => hgrow fun c hc => hclients ▸ hc⟩
      rw [hget] at hc
      cases hc
    | some ccon =>
      simp only [hget] at hclients
      rw [← not_linked_close hdistinct h.once hget hnext]
      constructor
      · rintro hvalid i ⟨j, hj, hmem⟩
        have hin := hvalid.known i j hj ccon hmem
        rw [hclients] at hin
        exact hnodup.not_mem_erase hin
      · intro hgone
        refine ⟨?_, hone⟩
        intro i j hj c hmem
        rw [hclients]
        refine (List.mem_erase_of_ne ?_).mpr (hold i j hj c hmem)
        rintro rfl
        exact hgone i ⟨j, hj, hmem⟩

/-! ## Runs -/

/-- No connection outlives its client as long as clients close safely, and no longer. -/
theorem links_valid {modnr : Fin m → U32} {memory : Ptr → SkelDrvrClientContext T}
    (hdistinct : Function.Injective modnr) (h : Reach (clientNext user) (CloseSafe user) (waStart modnr memory) wa) :
    LinksValid user wa ∧
    (∀ call wa', clientNext user wa call = some wa' → (LinksValid user wa' ↔ CloseSafe user wa call)) ∧
    ∀ flp ccon wa', skelGetCcon wa flp = some ccon → clientNext user wa (.close flp) = some wa' →
      ((∀ i, ¬ Linked user wa' ccon i) ↔ CloseSafe user wa (.close flp)) := by
  have hinv : LinksValid user wa ∧ wa.clients.Nodup ∧ ∀ i, (wa.modules i).moduleNumber = modnr i := by
    refine h.invariant (I := fun wa => LinksValid user wa ∧ wa.clients.Nodup ∧
      ∀ i, (wa.modules i).moduleNumber = modnr i) ?_ ?_
    · refine ⟨⟨?_, OneLink.start modnr memory⟩, List.nodup_nil, fun _ => rfl⟩
      intro i j _ c hmem
      exact absurd hmem List.not_mem_nil
    · rintro wa call wa' ⟨hvalid, hnodup, hnumber⟩ hok hnext
      have hinj : Function.Injective fun i => (wa.modules i).moduleNumber := by
        rw [funext hnumber]
        exact hdistinct
      refine ⟨(hvalid.next hinj hnodup hnext).mpr hok, nodup_next hvalid.once hnodup hnext, ?_⟩
      intro i
      rw [(clientNext_change hvalid.once hnext i).1, hnumber i]
  obtain ⟨hvalid, hnodup, hnumber⟩ := hinv
  have hinj : Function.Injective fun i => (wa.modules i).moduleNumber := by
    rw [funext hnumber]
    exact hdistinct
  refine ⟨hvalid, ?_, ?_⟩
  · intro call wa' hnext
    exact hvalid.next hinj hnodup hnext
  · intro flp ccon wa' hget hnext
    exact not_linked_close hinj hvalid.once hget hnext

/-- Two modules, the first one with number 0. -/
def twoModules : Fin 2 → U32 := fun i => BitVec.ofNat 32 i

instance (wa : SkelDrvrWorkingArea Unit 2) : ∀ call, Decidable (CloseSafe template wa call)
  | .close flp => inferInstanceAs (Decidable (∀ ccon ∈ skelGetCcon wa flp, ∀ _, _ → _ → _))
  | .open _ _ | .setModule _ _ | .connect _ _ _ | .disConnect _ _ | .disConnectAll _ => inferInstanceAs (Decidable True)

/-- Two clients are connected to module 0, one of them to module 1 too; the other one is on module 0 again when it
closes. -/
def closesOnZero : List ClientCall :=
  [.open 0 10, .open 1 11, .connect 10 ⟨0, 1⟩ fun _ => true, .connect 11 ⟨0, 1⟩ fun _ => true,
    .connect 11 ⟨1, 2⟩ fun _ => true, .setModule 10 1, .setModule 10 0, .close 10]

theorem links_valid_closed : ∃ wa : SkelDrvrWorkingArea Unit 2,
    (wa.modules 0).connected.clients 0 = [1] ∧ wa.clients = [1] ∧ LinksValid template wa := by
  have hdistinct : Function.Injective twoModules := by decide
  let start : SkelDrvrWorkingArea Unit 2 := waStart twoModules fun _ => clientInit ⟨0, []⟩ 0 0
  have hrun : (replay (clientNext template) (CloseSafe template) start closesOnZero).map
      (fun wa => ((wa.modules 0).connected.clients 0, wa.clients)) = some ([1], [1]) := by
    decide +kernel
  obtain ⟨wa, hwa, hval⟩ := Option.map_eq_some_iff.mp hrun
  rw [Prod.mk.injEq] at hval
  exact ⟨wa, hval.1, hval.2, (links_valid hdistinct (Reach.of_replay Reach.refl hwa)).1⟩

/-- The client selects module 1 and closes: its link on module 0 is left behind. -/
theorem link_outlives :
    ¬ ∀ wa, Reach (clientNext template) (fun _ _ => True)
        (waStart twoModules fun _ => clientInit (T := Unit) ⟨0, []⟩ 0 0) wa → LinksValid template wa := by
  intro hall
  let calls : List ClientCall := [.open 0 10, .connect 10 ⟨0, 1⟩ fun _ => true, .setModule 10 1, .close 10]
  have hleft : (calls.foldlM (clientNext template) (waStart twoModules fun _ => clientInit (T := Unit) ⟨0, []⟩ 0 0)).map
      (fun wa => ((wa.modules 0).connected.clients 0, wa.clients)) = some ([0], []) := by
    decide
  obtain ⟨wa, hrun, he⟩ := Option.map_eq_some_iff.mp hleft
  obtain ⟨hlink, hclients⟩ := Prod.mk.inj he
  have hvalid := hall wa (Reach.refl.of_foldlM (fun _ _ _ => trivial) hrun)
  have hknown := hvalid.known 0 0 (by decide) 0
  rw [hlink, hclients] at hknown
  simp at hknown

end HtDrivers.Skel
