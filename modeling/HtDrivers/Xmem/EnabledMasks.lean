import HtDrivers.Xmem.Connections

/-! The interrupts that are enabled are those that some client is connected to, as long as no client disconnects at once
from interrupts that others use and from some that only it uses. -/
namespace HtDrivers.Xmem
open HtDrivers.Lib.Transition
set_option autoImplicit false

/-! ## One module -/

section Module
variable {mcon : ConnModuleContext} {mask : BitVec 32} {cnum : ℕ}

/-- Of the interrupts of the hardware exactly those are enabled that some client is connected to. -/
def EnabledExactly (mcon : ConnModuleContext) : Prop :=
  ∀ k, vmicLierMask.getLsbD k = true → (mcon.interruptEnable.getLsbD k = true ↔
    ∃ i < xmemDrvrClientContexts, (mcon.clients i).getLsbD k = true)

/-- Another client is connected to some interrupt of the mask. -/
def Shared (mcon : ConnModuleContext) (mask : BitVec 32) (cnum : ℕ) : Prop :=
  ∃ i < xmemDrvrClientContexts, i ≠ cnum ∧ mask &&& mcon.clients i ≠ 0

/-- Where another client uses an interrupt of the mask, other clients use each of those that this client gives up. -/
def SharesEvenly (mcon : ConnModuleContext) (mask : BitVec 32) (cnum : ℕ) : Prop :=
  Shared mcon mask cnum →
    ∀ k, vmicLierMask.getLsbD k = true → mask.getLsbD k = true → (mcon.clients cnum).getLsbD k = true →
      ∃ i < xmemDrvrClientContexts, i ≠ cnum ∧ (mcon.clients i).getLsbD k = true

theorem enableInterrupts_bit (k : ℕ) (hk : vmicLierMask.getLsbD k = true) :
    (enableInterrupts mcon mask).interruptEnable.getLsbD k = true ↔
      mcon.interruptEnable.getLsbD k = true ∨ mask.getLsbD k = true := by
  unfold enableInterrupts
  dsimp only
  split
  · rename_i hzero
    have hbit := congrArg (BitVec.getLsbD · k) hzero
    simp only [BitVec.getLsbD_and, hk, Bool.and_true] at hbit
    simp [hbit]
  · simp [hk]

theorem enableInterrupts_clients : (enableInterrupts mcon mask).clients = mcon.clients := by
  unfold enableInterrupts
  dsimp only
  split <;> rfl

theorem EnabledExactly.connect (h : EnabledExactly mcon) (hc : cnum < xmemDrvrClientContexts) :
    EnabledExactly (connectMcon mcon mask cnum) := by
  intro k hk
  unfold connectMcon
  rw [enableInterrupts_bit k hk, enableInterrupts_clients]
  show mcon.interruptEnable.getLsbD k = true ∨ mask.getLsbD k = true ↔ _
  rw [h k hk]
  constructor
  · intro hset
    obtain ⟨i, hi, hbit⟩ | hmask := hset
    · refine ⟨i, hi, ?_⟩
      by_cases hic : i = cnum
      · subst hic
        simp [hbit]
      · simpa [hic] using hbit
    · exact ⟨cnum, hc, by simp [hmask]⟩
  · intro hset
    obtain ⟨i, hi, hbit⟩ := hset
    by_cases hic : i = cnum
    · subst hic
      simp only [Function.update_self, BitVec.getLsbD_or, Bool.or_eq_true] at hbit
      exact hbit.imp (fun hown => ⟨i, hi, hown⟩) id
    · exact .inl ⟨i, hi, by simpa [hic] using hbit⟩

theorem EnabledExactly.reset (h : EnabledExactly mcon) :
    EnabledExactly (enableInterrupts mcon mcon.interruptEnable) := by
  intro k hk
  rw [enableInterrupts_bit k hk, enableInterrupts_clients, or_self]
  exact h k hk

theorem disConnect_clients_bit {i k : ℕ} : ((disConnectMcon mcon mask cnum).clients i).getLsbD k = true ↔
    (mcon.clients i).getLsbD k = true ∧ ¬(i = cnum ∧ mask.getLsbD k = true) := by
  have hclients : (disConnectMcon mcon mask cnum).clients =
      Function.update mcon.clients cnum (mcon.clients cnum &&& ~~~mask) := by
    unfold disConnectMcon
    dsimp only
    split <;> rfl
  rw [hclients]
  by_cases hic : i = cnum
  · subst hic
    have hlt := fun hbit : (mcon.clients i).getLsbD k = true => BitVec.lt_of_getLsbD hbit
    by_cases hbit : (mcon.clients i).getLsbD k = true
    · simp [hbit, hlt hbit]
    · simp [hbit]
  · simp [hic]

/-- All of the mask is disabled where no other client uses any of it, and else nothing is. -/
theorem disConnect_enable_bit {k : ℕ} (hk : vmicLierMask.getLsbD k = true) :
    (disConnectMcon mcon mask cnum).interruptEnable.getLsbD k = true ↔ mcon.interruptEnable.getLsbD k = true ∧
      (Shared mcon mask cnum ∨ mask.getLsbD k = false) := by
  have hown : mask &&& (mcon.clients cnum &&& ~~~mask) = 0 := by
    refine BitVec.eq_of_getLsbD_eq fun j hj => ?_
    cases hbit : mask.getLsbD j <;> simp [hbit]
  have hothers : (List.range xmemDrvrClientContexts).all (fun i =>
      mask &&& Function.update mcon.clients cnum (mcon.clients cnum &&& ~~~mask) i == 0) = true ↔
        ¬Shared mcon mask cnum := by
    unfold Shared
    rw [List.all_eq_true]
    simp only [not_exists, not_and, not_not, List.mem_range, beq_iff_eq]
    refine forall₂_congr fun i hi => ?_
    by_cases hic : i = cnum
    · subst hic
      simp [hown]
    · simp [hic]
  have hlt := BitVec.lt_of_getLsbD hk
  unfold disConnectMcon
  dsimp only
  split
  · rename_i hall
    have hnone := hothers.mp hall.1
    rw [BitVec.getLsbD_and, BitVec.getLsbD_not, BitVec.getLsbD_and, hk]
    simp [hnone, hlt]
  · rename_i hkeep
    by_cases hshared : Shared mcon mask cnum
    · simp [hshared]
    · have hzero : mask &&& vmicLierMask = 0 := by
        by_contra hne
        exact hkeep ⟨hothers.mpr hshared, hne⟩
      have hclear := congrArg (BitVec.getLsbD · k) hzero
      simp only [BitVec.getLsbD_and, hk, Bool.and_true] at hclear
      simp [hclear]

/-- A disconnect keeps the enables exact if and only if it gives up either interrupts that others use too, or only
interrupts that no other client uses. -/
theorem disConnect_exact (h : EnabledExactly mcon) (hc : cnum < xmemDrvrClientContexts) :
    EnabledExactly (disConnectMcon mcon mask cnum) ↔ SharesEvenly mcon mask cnum := by
  constructor
  · intro hafter hshared k hk hmask hown
    have henabled := (h k hk).mpr ⟨cnum, hc, hown⟩
    obtain ⟨i, hi, hbit⟩ := (hafter k hk).mp ((disConnect_enable_bit hk).mpr ⟨henabled, .inl hshared⟩)
    obtain ⟨hbit, hother⟩ := disConnect_clients_bit.mp hbit
    exact ⟨i, hi, fun hic => hother ⟨hic, hmask⟩, hbit⟩
  · intro heven k hk
    rw [disConnect_enable_bit hk, h k hk]
    constructor
    · intro hset
      obtain ⟨⟨i, hi, hbit⟩, hkeep⟩ := hset
      by_cases hgone : i = cnum ∧ mask.getLsbD k = true
      · obtain ⟨hic, hmask⟩ := hgone
        have hshared := hkeep.resolve_right (by simp [hmask])
        obtain ⟨j, hj, hne, hjbit⟩ := heven hshared k hk hmask (hic ▸ hbit)
        exact ⟨j, hj, disConnect_clients_bit.mpr ⟨hjbit, fun hown => hne hown.1⟩⟩
      · exact ⟨i, hi, disConnect_clients_bit.mpr ⟨hbit, hgone⟩⟩
    · intro hset
      obtain ⟨i, hi, hbit⟩ := hset
      obtain ⟨hbit, hgone⟩ := disConnect_clients_bit.mp hbit
      refine ⟨⟨i, hi, hbit⟩, ?_⟩
      cases hmask : mask.getLsbD k with
      | false => exact .inr rfl
      | true =>
        have hne : i ≠ cnum := fun hic => hgone ⟨hic, hmask⟩
        have hboth : mask &&& mcon.clients i ≠ 0 := by
          intro hzero
          have hclear := congrArg (BitVec.getLsbD · k) hzero
          simp [hmask, hbit] at hclear
        exact .inl ⟨i, hi, hne, hboth⟩

end Module

/-! ## The driver -/

section Area
variable {wa wa' : ConnArea} {cnum m : ℕ} {conx : XmemDrvrConnection} {a : ConnStep}

structure ConnectionsMatch (wa : ConnArea) : Prop where
  exact : ∀ m < wa.modules, EnabledExactly (wa.moduleContexts m)
  closed : ∀ c < xmemDrvrClientContexts, (wa.clientContexts c).inUse = false →
    ∀ m < wa.modules, (wa.moduleContexts m).clients c = 0

structure ConnInv (wa : ConnArea) : Prop extends ConnectionsMatch wa where
  current : ∀ c, (wa.clientContexts c).moduleIndex < wa.modules

/-- A module is replaced by one with exact enables and with the same clients, apart from one that is in use. -/
theorem ConnInv.setMcon (h : ConnInv wa) {mcon : ConnModuleContext} (hmcon : EnabledExactly mcon)
    (hclients : ∀ c, c ≠ cnum → mcon.clients c = (wa.moduleContexts m).clients c)
    (hopen : (wa.clientContexts cnum).inUse = true) : ConnInv (setMcon wa m mcon) := by
  refine ⟨⟨fun i hi => ?_, fun c hc hclosed i hi => ?_⟩, h.current⟩
  · show EnabledExactly (Function.update wa.moduleContexts m mcon i)
    by_cases him : i = m
    · rw [him, Function.update_self]
      exact hmcon
    · rw [Function.update_of_ne him]
      exact h.exact i hi
  · show (Function.update wa.moduleContexts m mcon i).clients c = 0
    have hold := h.closed c hc hclosed i hi
    by_cases him : i = m
    · have hne : c ≠ cnum := by
        intro heq
        have hopen' := heq ▸ hopen
        exact absurd (hclosed.symm.trans hopen') (by decide)
      rw [him, Function.update_self, hclients c hne, ← him, hold]
    · rw [Function.update_of_ne him, hold]

theorem connectMcon_clients {mcon : ConnModuleContext} {mask : BitVec 32} {c : ℕ} (hc : c ≠ cnum) :
    (connectMcon mcon mask cnum).clients c = mcon.clients c := by
  unfold connectMcon
  rw [enableInterrupts_clients]
  exact Function.update_of_ne hc ..

theorem disConnectMcon_clients {mcon : ConnModuleContext} {mask : BitVec 32} {c : ℕ} (hc : c ≠ cnum) :
    (disConnectMcon mcon mask cnum).clients c = mcon.clients c := by
  unfold disConnectMcon
  dsimp only
  split <;> exact Function.update_of_ne hc ..

theorem disConnectMcon_own {mcon : ConnModuleContext} :
    (disConnectMcon mcon (mcon.clients cnum) cnum).clients cnum = 0 := by
  refine BitVec.eq_of_getLsbD_eq fun k _ => ?_
  rw [Bool.eq_iff_iff, disConnect_clients_bit]
  simp

/-! ### The loop over the modules -/

theorem disConnectTurn_eq (hm : m < wa.modules) : disConnectTurn cnum wa m =
    if (wa.moduleContexts m).clients cnum = 0 then wa
    else setMcon wa m (disConnectMcon (wa.moduleContexts m) ((wa.moduleContexts m).clients cnum) cnum) := by
  have hmodule : connectionModule wa ⟨m + 1, (wa.moduleContexts m).clients cnum⟩ cnum = m := by
    have hinside : ¬(m + 1 = 0 ∨ wa.modules < m + 1) := by omega
    exact if_neg hinside
  unfold disConnectTurn disConnect
  simp only [hmodule]

theorem disConnectAll_loop (wa : ConnArea) (cnum n : ℕ) (hn : n ≤ wa.modules) :
    let after := (List.range n).foldl (disConnectTurn cnum) wa
    after.modules = wa.modules ∧ after.clientContexts = wa.clientContexts ∧
      ∀ m, after.moduleContexts m = if m < n ∧ (wa.moduleContexts m).clients cnum ≠ 0 then
        disConnectMcon (wa.moduleContexts m) ((wa.moduleContexts m).clients cnum) cnum else wa.moduleContexts m := by
  induction n with
  | zero => simp
  | succ n ih =>
    obtain ⟨hmodules, hclients, hmcons⟩ := ih (by omega)
    rw [List.range_succ, List.foldl_append]
    simp only [List.foldl_cons, List.foldl_nil]
    generalize (List.range n).foldl (disConnectTurn cnum) wa = before at hmodules hclients hmcons
    have hlast := hmcons n
    simp only [Nat.lt_irrefl, false_and, if_false] at hlast
    rw [disConnectTurn_eq (by omega), hlast]
    split
    · rename_i hnone
      refine ⟨hmodules, hclients, fun m => ?_⟩
      rw [hmcons m]
      by_cases hmn : m = n
      · rw [hmn, hnone]
        simp
      · have hlt : m < n + 1 ↔ m < n := by omega
        simp only [hlt]
    · rename_i hsome
      refine ⟨hmodules, hclients, fun m => ?_⟩
      show Function.update before.moduleContexts n _ m = _
      by_cases hmn : m = n
      · subst hmn
        rw [Function.update_self, if_pos ⟨Nat.lt_succ_self m, hsome⟩]
      · have hlt : m < n + 1 ↔ m < n := by omega
        rw [Function.update_of_ne hmn, hmcons m]
        simp only [hlt]

/-- A disconnect from all that the client uses is even on each of the modules. -/
def EvenAll (wa : ConnArea) (cnum : ℕ) : Prop :=
  ∀ m < wa.modules, SharesEvenly (wa.moduleContexts m) ((wa.moduleContexts m).clients cnum) cnum

theorem ConnInv.disConnectAll (h : ConnInv wa) (hc : cnum < xmemDrvrClientContexts)
    (hopen : (wa.clientContexts cnum).inUse = true) (heven : EvenAll wa cnum) :
    ConnInv (disConnectAll wa cnum) ∧ ∀ m < wa.modules, ((disConnectAll wa cnum).moduleContexts m).clients
    cnum = 0 := by
  obtain ⟨hmodules, hclients, hmcons⟩ := disConnectAll_loop wa cnum wa.modules (Nat.le_refl _)
  change (Xmem.disConnectAll wa cnum).modules = _ at hmodules
  change (Xmem.disConnectAll wa cnum).clientContexts = _ at hclients
  change ∀ m, (Xmem.disConnectAll wa cnum).moduleContexts m = _ at hmcons
  generalize Xmem.disConnectAll wa cnum = after at hmodules hclients hmcons
  refine ⟨⟨⟨fun m hm => ?_, fun c hcc hclosed m hm => ?_⟩, fun c => ?_⟩, fun m hm => ?_⟩
  · rw [hmodules] at hm
    rw [hmcons m]
    split
    · exact (disConnect_exact (h.exact m hm) hc).mpr (heven m hm)
    · exact h.exact m hm
  · rw [hmodules] at hm
    rw [hclients] at hclosed
    have hne : c ≠ cnum := by
      intro heq
      have hopen' := heq ▸ hopen
      exact absurd (hclosed.symm.trans hopen') (by decide)
    rw [hmcons m]
    split
    · rw [disConnectMcon_clients hne]
      exact h.closed c hcc hclosed m hm
    · exact h.closed c hcc hclosed m hm
  · rw [hclients, hmodules]
    exact h.current c
  · rw [hmcons m]
    split
    · exact disConnectMcon_own
    · rename_i hkeep
      simpa [hm] using hkeep

/-! ### Steps and runs -/

/-- No disconnect gives up an interrupt of its own together with one that others use. -/
def EvenStep (wa : ConnArea) : ConnStep → Prop
  | .ioctl minor (.disConnect conx) =>
    if conx.mask = 0 then EvenAll wa (minor - 1)
    else SharesEvenly (wa.moduleContexts (connectionModule wa conx (minor - 1))) conx.mask (minor - 1)
  | .close minor => EvenAll wa (minor - 1)
  | _ => True

theorem ConnInv.connectionModule_lt (h : ConnInv wa) : connectionModule wa conx cnum < wa.modules := by
  have hcurrent := h.current cnum
  unfold connectionModule
  split
  · exact hcurrent
  · omega

theorem ConnInv.ioctl (h : ConnInv wa) {call : ConnCall} {minor : ℕ} (hc : minor - 1 < xmemDrvrClientContexts)
    (hopen : (wa.clientContexts (minor - 1)).inUse = true) (heven : EvenStep wa (.ioctl minor call))
    (hcall : connIoctl wa (minor - 1) call = .ok wa') : ConnInv wa' := by
  cases call with
  | connect conx =>
    obtain rfl := Except.ok.inj hcall
    exact h.setMcon ((h.exact _ h.connectionModule_lt).connect hc) (fun c hcc => connectMcon_clients hcc) hopen
  | disConnect conx =>
    obtain rfl := Except.ok.inj hcall
    simp only [EvenStep] at heven
    by_cases hmask : conx.mask = 0
    · rw [if_pos hmask] at heven ⊢
      exact (h.disConnectAll hc hopen heven).1
    · rw [if_neg hmask] at heven ⊢
      exact h.setMcon ((disConnect_exact (h.exact _ h.connectionModule_lt) hc).mpr heven)
        (fun c hcc => disConnectMcon_clients hcc) hopen
  | setModule lav =>
    simp only [connIoctl] at hcall
    split at hcall
    · rename_i hlav
      obtain rfl := Except.ok.inj hcall
      refine ⟨⟨h.exact, fun c hcc hclosed => ?_⟩, fun c => ?_⟩
      · refine h.closed c hcc ?_
        change (Function.update wa.clientContexts (minor - 1) _ c).inUse = false at hclosed
        by_cases heq : c = minor - 1
        · rw [heq, Function.update_self] at hclosed
          rw [heq]
          exact hclosed
        · rw [Function.update_of_ne heq] at hclosed
          exact hclosed
      · show (Function.update wa.clientContexts (minor - 1) _ c).moduleIndex < wa.modules
        by_cases heq : c = minor - 1
        · rw [heq, Function.update_self]
          show lav - 1 < wa.modules
          omega
        · rw [Function.update_of_ne heq]
          exact h.current c
    · cases hcall
  | reset =>
    obtain rfl := Except.ok.inj hcall
    refine h.setMcon (h.exact _ (h.current _)).reset (fun c _ => ?_) hopen
    rw [enableInterrupts_clients]

/-- A client context is replaced that uses the first module; it may be free where the client has no connections. -/
theorem ConnInv.setCcon (h : ConnInv wa) {ccon : ConnClientContext} (hmodule : ccon.moduleIndex < wa.modules)
    (hfree : ccon.inUse = false → ∀ m < wa.modules, (wa.moduleContexts m).clients cnum = 0) :
    ConnInv (setCcon wa cnum ccon) := by
  refine ⟨⟨h.exact, fun c hc hclosed m hm => ?_⟩, fun c => ?_⟩
  · change (Function.update wa.clientContexts cnum ccon c).inUse = false at hclosed
    by_cases heq : c = cnum
    · rw [heq, Function.update_self] at hclosed
      rw [heq]
      exact hfree hclosed m hm
    · rw [Function.update_of_ne heq] at hclosed
      exact h.closed c hc hclosed m hm
  · show (Function.update wa.clientContexts cnum ccon c).moduleIndex < wa.modules
    by_cases heq : c = cnum
    · rw [heq, Function.update_self]
      exact hmodule
    · rw [Function.update_of_ne heq]
      exact h.current c

theorem ConnInv.entry (h : ConnInv wa) (heven : EvenStep wa a) (hentry : connEntry wa a = .ok wa') : ConnInv wa' := by
  have hmodules := h.current 0
  cases a with
  | «open» minor =>
    simp only [connEntry, xmemDrvrOpen] at hentry
    split at hentry
    · cases hentry
    · split at hentry
      · cases hentry
      · obtain rfl := Except.ok.inj hentry
        exact h.setCcon (show 0 < wa.modules by omega) (fun hfree => absurd hfree (by decide))
  | close minor =>
    simp only [connEntry, xmemDrvrClose] at hentry
    split at hentry
    · cases hentry
    · split at hentry
      · rename_i hminor hopen
        obtain rfl := Except.ok.inj hentry
        obtain ⟨hinv, hcleared⟩ := h.disConnectAll (by omega) hopen heven
        have hsame : (Xmem.disConnectAll wa (minor - 1)).modules = wa.modules :=
          (disConnectAll_loop wa (minor - 1) wa.modules (Nat.le_refl _)).1
        refine hinv.setCcon ?_ fun _ => ?_
        · rw [hsame]
          show 0 < wa.modules
          omega
        · rw [hsame]
          exact hcleared
      · cases hentry
  | ioctl minor call =>
    simp only [connEntry, xmemDrvrIoctl] at hentry
    split at hentry
    · cases hentry
    · split at hentry
      · rename_i hminor hopen
        exact h.ioctl (by omega) hopen heven hentry
      · cases hentry

theorem connInv_start {modules : ℕ} (hmodules : 0 < modules) : ConnInv (connStart modules) := by
  refine ⟨⟨fun m _ k _ => ?_, fun c _ _ m _ => rfl⟩, fun _ => hmodules⟩
  simp [connStart]

/-- In every run with even disconnects the enabled interrupts are those that are used, and a closed client has no
connections. -/
theorem connections_match {modules : ℕ} (hmodules : 0 < modules)
    (hreach : Reach connNext EvenStep (connStart modules) wa) : ConnectionsMatch wa := by
  have hinv : ConnInv wa := by
    refine hreach.invariant (connInv_start hmodules) fun s a s' hs heven hnext => ?_
    obtain rfl := Option.some.inj hnext
    cases hentry : connEntry s a with
    | error e => exact hs
    | ok t => exact hs.entry heven hentry
  exact hinv.toConnectionsMatch

/-- Two clients of the only module: the first one uses both general interrupts, the second one only the first. -/
def twoUsers : List ConnStep := [.open 1, .open 2, .ioctl 1 (.connect ⟨1, 3⟩), .ioctl 2 (.connect ⟨1, 1⟩)]

def afterCalls (calls : List ConnStep) : ConnArea :=
  calls.foldl (fun wa a => (connEntry wa a).toOption.getD wa) (connStart 1)

/-- The second client leaves the interrupt that both use, and then the first one closes. -/
theorem connections_match_twoUsers :
    ConnectionsMatch (afterCalls (twoUsers ++ [.ioctl 2 (.disConnect ⟨1, 1⟩), .close 1])) := by
  have hconnected : Reach connNext EvenStep (connStart 1) (afterCalls twoUsers) :=
    (((Reach.refl.step (a := .open 1) trivial rfl).step (a := .open 2) trivial rfl).step
      (a := .ioctl 1 (.connect ⟨1, 3⟩)) trivial rfl).step (a := .ioctl 2 (.connect ⟨1, 1⟩)) trivial rfl
  have hleaves : EvenStep (afterCalls twoUsers) (.ioctl 2 (.disConnect ⟨1, 1⟩)) := by
    intro _ k _ hk _
    obtain rfl : k = 0 := by
      by_contra hne
      simp [hne] at hk
    exact ⟨0, by decide, by decide, by decide⟩
  have hcloses : EvenStep (afterCalls (twoUsers ++ [.ioctl 2 (.disConnect ⟨1, 1⟩)])) (.close 1) := by
    intro m hm hshared
    obtain rfl : m = 0 := Nat.lt_one_iff.mp hm
    unfold Shared at hshared
    exact absurd hshared (by decide)
  exact connections_match Nat.one_pos ((hconnected.step hleaves rfl).step hcloses rfl)

/-- When the first client leaves both interrupts, the second one stays enabled though nobody uses it. -/
theorem not_connections_match_mixed : ∃ wa, Reach connNext (fun _ _ => True) (connStart 1) wa ∧
    ¬ConnectionsMatch wa := by
  let calls := twoUsers ++ [.ioctl 1 (.disConnect ⟨1, 3⟩)]
  have hrun : calls.foldlM connNext (connStart 1) = some (afterCalls calls) := rfl
  refine ⟨afterCalls calls, Reach.refl.of_foldlM (fun _ _ _ => trivial) hrun, fun hmatch => ?_⟩
  have henabled := (hmatch.exact 0 (by decide) 1 (by decide)).mp (by decide)
  exact absurd henabled (by decide)

end Area

end HtDrivers.Xmem
