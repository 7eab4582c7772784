import HtDrivers.Lib.Transition
import HtDrivers.Skel.Queue

/-! Clients of the driver skeleton and their connections to the interrupts of the modules (`skeldrvr.c`). A client
context is known by its address, and `m` is the number of installed modules. -/
namespace HtDrivers.Skel
open HtDrivers.Cdcm
set_option autoImplicit false

/-! ## Data -/

abbrev Ptr := ℕ

/-- The links of each interrupt, by the client contexts they refer to. -/
structure SkelDrvrModConn where
  clients : ℕ → List Ptr
  enabledInts : U32

structure SkelDrvrModuleContext where
  moduleNumber : U32
  connected : SkelDrvrModConn

/-- `ccon` is the memory for client contexts; those in `clients` are in use. -/
structure SkelDrvrWorkingArea (T : Type) (m : ℕ) where
  clients : List Ptr
  modules : Fin m → SkelDrvrModuleContext
  ccon : Ptr → SkelDrvrClientContext T

section Calls
variable {T : Type} {m : ℕ} (user : SkelUser)

def getMcon (wa : SkelDrvrWorkingArea T m) (modnr : U32) : Option (Fin m) :=
  (List.finRange m).find? fun i => (wa.modules i).moduleNumber = modnr

def skelGetCcon (wa : SkelDrvrWorkingArea T m) (flp : ℕ) : Option Ptr :=
  wa.clients.find? fun ccon => (wa.ccon ccon).cdcmf = flp

/-- The module that a request is for; number 0 stands for the current module of the client. -/
def requestMcon (wa : SkelDrvrWorkingArea T m) (ccon : Ptr) (modnr : U32) : Option (Fin m) :=
  if modnr = 0 then getMcon wa (wa.ccon ccon).moduleNumber else getMcon wa modnr

def setConnected (wa : SkelDrvrWorkingArea T m) (i : Fin m) (connected : SkelDrvrModConn) : SkelDrvrWorkingArea T m :=
  { wa with modules := Function.update wa.modules i { wa.modules i with connected := connected } }

/-! ## Connecting -/

/-- One turn of the loop of `Connect`; `link` is whether a link could be allocated. -/
def connectInt (link : Bool) (ccon : Ptr) (imsk : U32) (connected : SkelDrvrModConn) (j : ℕ) : SkelDrvrModConn :=
  if imsk.getLsbD j then
    if ccon ∈ connected.clients j then { connected with enabledInts := connected.enabledInts ||| imsk }
    else if link then
      { clients := Function.update connected.clients j (ccon :: connected.clients j)
        enabledInts := connected.enabledInts ||| imsk }
    else connected
  else connected

/-- The loop of `Connect` over the first `n` interrupts. -/
def connectLoop (sysbrk : ℕ → Bool) (ccon : Ptr) (imsk : U32) (connected : SkelDrvrModConn) : ℕ → SkelDrvrModConn
  | 0 => connected
  | n + 1 => connectInt (sysbrk n) ccon imsk (connectLoop sysbrk ccon imsk connected n) n

def connect (sysbrk : ℕ → Bool) (wa : SkelDrvrWorkingArea T m) (ccon : Ptr) (conx : SkelDrvrConnection) :
    SkelDrvrWorkingArea T m :=
  match requestMcon wa ccon conx.module with
  | none => wa
  | some i => setConnected wa i (connectLoop sysbrk ccon conx.conMask (wa.modules i).connected user.interrupts)

/-! ## Disconnecting -/

/-- One turn of the loop of `DisConnect`. -/
def disConnectInt (ccon : Ptr) (imsk : U32) (connected : SkelDrvrModConn) (j : ℕ) : SkelDrvrModConn :=
  if imsk.getLsbD j ∧ ccon ∈ connected.clients j then
    let clients := Function.update connected.clients j ((connected.clients j).erase ccon)
    if clients j = [] then { clients := clients, enabledInts := connected.enabledInts &&& ~~~imsk }
    else { connected with clients := clients }
  else connected

def disConnectLoop (ccon : Ptr) (imsk : U32) (connected : SkelDrvrModConn) : ℕ → SkelDrvrModConn
  | 0 => connected
  | n + 1 => disConnectInt ccon imsk (disConnectLoop ccon imsk connected n) n

/-- An empty mask stands for all interrupts, and is filled in the caller's request. -/
def fullMask (conMask : U32) : U32 := if conMask = 0 then ~~~conMask else conMask

def disConnect (wa : SkelDrvrWorkingArea T m) (ccon : Ptr) (conx : SkelDrvrConnection) :
    SkelDrvrWorkingArea T m × SkelDrvrConnection :=
  match requestMcon wa ccon conx.module with
  | none => (wa, conx)
  | some i =>
    let conx := { conx with conMask := fullMask conx.conMask }
    (setConnected wa i (disConnectLoop ccon conx.conMask (wa.modules i).connected user.interrupts), conx)

/-- The loop of `DisConnectAll`, which uses one request for all modules. -/
def disConnectAllLoop (ccon : Ptr) :
    List (Fin m) → SkelDrvrWorkingArea T m → SkelDrvrConnection → SkelDrvrWorkingArea T m
  | [], wa, _ => wa
  | i :: rest, wa, conx =>
    let (wa, conx) := disConnect user wa ccon { conx with module := (wa.modules i).moduleNumber }
    disConnectAllLoop ccon rest wa conx

def disConnectAll (wa : SkelDrvrWorkingArea T m) (ccon : Ptr) : SkelDrvrWorkingArea T m :=
  disConnectAllLoop user ccon (List.finRange m) wa ⟨0, 0⟩

/-! ## Entry points -/

/-- The first installed module is the current one at first. -/
def firstModule (wa : SkelDrvrWorkingArea T m) : U32 :=
  ((List.finRange m).head?.map fun i => (wa.modules i).moduleNumber).getD 0

/-- `SkelDrvrOpen`; `ccon` is the memory that was allocated. -/
def skelDrvrOpen (wa : SkelDrvrWorkingArea T m) (ccon : Ptr) (flp : ℕ) : SkelDrvrWorkingArea T m :=
  { wa with
    clients := ccon :: wa.clients
    ccon := Function.update wa.ccon ccon (clientInit (wa.ccon ccon).semaphore (firstModule wa) flp) }

/-- `__do_close` -/
def doClose (wa : SkelDrvrWorkingArea T m) (ccon : Ptr) : SkelDrvrWorkingArea T m :=
  let wa := disConnectAll user wa ccon
  { wa with clients := wa.clients.erase ccon }

def setCcon (wa : SkelDrvrWorkingArea T m) (ccon : Ptr) (f : SkelDrvrClientContext T → SkelDrvrClientContext T) :
    SkelDrvrWorkingArea T m :=
  { wa with ccon := Function.update wa.ccon ccon (f (wa.ccon ccon)) }

/-- The request SET_MODULE, which a module that is not installed leaves without effect. -/
def ioctlSetModule (wa : SkelDrvrWorkingArea T m) (ccon : Ptr) (lav : U32) : SkelDrvrWorkingArea T m :=
  match getMcon wa lav with
  | none => wa
  | some _ => setCcon wa ccon fun context => { context with moduleNumber := lav }

/-- The request CONNECT, which disconnects when the mask is empty. -/
def ioctlConnect (sysbrk : ℕ → Bool) (wa : SkelDrvrWorkingArea T m) (ccon : Ptr) (conx : SkelDrvrConnection) :
    SkelDrvrWorkingArea T m :=
  if conx.conMask ≠ 0 then connect user sysbrk wa ccon conx
  else if conx.module = 0 then disConnectAll user wa ccon
  else (disConnect user wa ccon conx).1

/-- What clients do, each known by its open file. -/
inductive ClientCall
  | open (ccon : Ptr) (flp : ℕ)
  | setModule (flp : ℕ) (lav : U32)
  | connect (flp : ℕ) (conx : SkelDrvrConnection) (sysbrk : ℕ → Bool)
  | disConnect (flp : ℕ) (conx : SkelDrvrConnection)
  | disConnectAll (flp : ℕ)
  | close (flp : ℕ)

/-- A file that no client has is a bad file descriptor. -/
def withCcon (wa : SkelDrvrWorkingArea T m) (flp : ℕ) (f : Ptr → SkelDrvrWorkingArea T m) : SkelDrvrWorkingArea T m :=
  match skelGetCcon wa flp with
  | none => wa
  | some ccon => f ccon

/-- Memory that is in use is not allocated again. -/
def clientNext (wa : SkelDrvrWorkingArea T m) : ClientCall → Option (SkelDrvrWorkingArea T m)
  | .open ccon flp => if ccon ∈ wa.clients then none else some (skelDrvrOpen wa ccon flp)
  | .setModule flp lav => some (withCcon wa flp fun ccon => ioctlSetModule wa ccon lav)
  | .connect flp conx sysbrk => some (withCcon wa flp fun ccon => Skel.connect user sysbrk wa ccon conx)
  | .disConnect flp conx => some (withCcon wa flp fun ccon => (Skel.disConnect user wa ccon conx).1)
  | .disConnectAll flp => some (withCcon wa flp fun ccon => Skel.disConnectAll user wa ccon)
  | .close flp => some (withCcon wa flp fun ccon => doClose user wa ccon)

/-- The driver after the installation of its modules. -/
def waStart (modnr : Fin m → U32) (memory : Ptr → SkelDrvrClientContext T) : SkelDrvrWorkingArea T m where
  clients := []
  modules := fun i => ⟨modnr i, ⟨fun _ => [], 0⟩⟩
  ccon := memory

/-- One module with number 1, and clients with nothing in their memory. -/
def oneModule : SkelDrvrWorkingArea Unit 1 := waStart (fun _ => 1) fun _ => clientInit ⟨0, []⟩ 0 0

/-- The same with a client that is connected to the interrupts 0 and 2. -/
def connectedOne : SkelDrvrWorkingArea Unit 1 :=
  connect template (fun _ => true) (skelDrvrOpen oneModule 0 10) 0 ⟨1, 5⟩

end Calls

/-! ## What the loops do -/

section Loops
variable {sysbrk : ℕ → Bool} {ccon : Ptr} {imsk : U32} {connected : SkelDrvrModConn} {n j : ℕ}

theorem connectLoop_clients :
    (connectLoop sysbrk ccon imsk connected n).clients j =
      if j < n ∧ imsk.getLsbD j = true ∧ ccon ∉ connected.clients j ∧ sysbrk j = true then ccon :: connected.clients j
      else connected.clients j := by
  induction n with
  | zero =>
    rw [if_neg fun h => Nat.not_lt_zero _ h.1]
    rfl
  | succ n ih =>
    rw [connectLoop, connectInt]
    generalize connectLoop sysbrk ccon imsk connected n = con at ih ⊢
    by_cases hj : j = n
    · subst hj
      rw [if_neg fun h => absurd h.1 (lt_irrefl j)] at ih
      rw [ih]
      by_cases hbit : imsk.getLsbD j = true
      · rw [if_pos hbit]
        by_cases hmem : ccon ∈ connected.clients j
        · rw [if_pos hmem, if_neg fun h => h.2.2.1 hmem]
          exact ih
        · rw [if_neg hmem]
          by_cases hlink : sysbrk j = true
          · rw [if_pos hlink, if_pos ⟨Nat.lt_succ_self j, hbit, hmem, hlink⟩]
            exact Function.update_self ..
          · rw [if_neg hlink, if_neg fun h => hlink h.2.2.2]
            exact ih
      · rw [if_neg hbit, if_neg fun h => hbit h.2.1]
        exact ih
    · have hlt : (j < n + 1) = (j < n) := propext (by omega)
      simp only [hlt]
      rw [← ih]
      split
      · split
        · rfl
        · split
          · exact Function.update_of_ne hj _ _
          · rfl
      · rfl

theorem disConnectLoop_clients :
    (disConnectLoop ccon imsk connected n).clients j =
      if j < n ∧ imsk.getLsbD j = true then (connected.clients j).erase ccon else connected.clients j := by
  induction n with
  | zero =>
    rw [if_neg fun h => Nat.not_lt_zero _ h.1]
    rfl
  | succ n ih =>
    rw [disConnectLoop, disConnectInt]
    generalize disConnectLoop ccon imsk connected n = con at ih ⊢
    by_cases hj : j = n
    · subst hj
      rw [if_neg fun h => absurd h.1 (lt_irrefl j)] at ih
      by_cases hbit : imsk.getLsbD j = true
      · have hcond : j < j + 1 ∧ imsk.getLsbD j = true := ⟨Nat.lt_succ_self j, hbit⟩
        rw [if_pos hcond, ← ih]
        by_cases hmem : ccon ∈ con.clients j
        · have hboth : imsk.getLsbD j = true ∧ ccon ∈ con.clients j := ⟨hbit, hmem⟩
          rw [if_pos hboth]
          dsimp only
          split
          · exact Function.update_self ..
          · exact Function.update_self ..
        · rw [if_neg fun h => hmem h.2, List.erase_of_not_mem hmem]
      · rw [if_neg fun h => hbit h.1, if_neg fun h => hbit h.2]
        exact ih
    · have hlt : (j < n + 1) = (j < n) := propext (by omega)
      simp only [hlt]
      rw [← ih]
      split
      · split
        · exact Function.update_of_ne hj _ _
        · exact Function.update_of_ne hj _ _
      · rfl

/-- Where every link can be allocated, one interrupt of the mask enables the whole mask. -/
theorem connectLoop_enabledInts (hlinks : ∀ j, sysbrk j = true) :
    (connectLoop sysbrk ccon imsk connected n).enabledInts =
      if ∃ j < n, imsk.getLsbD j = true then connected.enabledInts ||| imsk else connected.enabledInts := by
  induction n with
  | zero =>
    rw [if_neg fun ⟨j, hj, _⟩ => Nat.not_lt_zero j hj]
    rfl
  | succ n ih =>
    rw [connectLoop, connectInt]
    by_cases hbit : imsk.getLsbD n = true
    · have hex : ∃ j < n + 1, imsk.getLsbD j = true := ⟨n, Nat.lt_succ_self n, hbit⟩
      have hor : (connectLoop sysbrk ccon imsk connected n).enabledInts ||| imsk = connected.enabledInts ||| imsk := by
        rw [ih]
        split
        · rw [BitVec.or_assoc, BitVec.or_self]
        · rfl
      rw [if_pos hbit, if_pos hex, if_pos (hlinks n), ← hor]
      split
      · rfl
      · rfl
    · have hiff : (∃ j < n + 1, imsk.getLsbD j = true) = ∃ j < n, imsk.getLsbD j = true := by
        simp only [Nat.exists_lt_succ_right, hbit, or_false, Bool.false_eq_true]
      rw [if_neg hbit, ih]
      simp only [hiff]

/-- One interrupt of the mask that loses its last client disables the whole mask. -/
theorem disConnectLoop_enabledInts :
    (disConnectLoop ccon imsk connected n).enabledInts =
      if ∃ j < n, imsk.getLsbD j = true ∧ connected.clients j = [ccon] then connected.enabledInts &&& ~~~imsk
      else connected.enabledInts := by
  induction n with
  | zero =>
    rw [if_neg fun ⟨j, hj, _⟩ => Nat.not_lt_zero j hj]
    rfl
  | succ n ih =>
    have hlists : (disConnectLoop ccon imsk connected n).clients n = connected.clients n := by
      rw [disConnectLoop_clients, if_neg fun h => absurd h.1 (lt_irrefl n)]
    rw [disConnectLoop, disConnectInt]
    by_cases hlast : imsk.getLsbD n = true ∧ connected.clients n = [ccon]
    · obtain ⟨hbit, hone⟩ := hlast
      have hex : ∃ j < n + 1, imsk.getLsbD j = true ∧ connected.clients j = [ccon] :=
        ⟨n, Nat.lt_succ_self n, hbit, hone⟩
      have hmem : imsk.getLsbD n = true ∧ ccon ∈ (disConnectLoop ccon imsk connected n).clients n := by
        rw [hlists, hone]
        exact ⟨hbit, List.mem_singleton_self ccon⟩
      have hnil : ((disConnectLoop ccon imsk connected n).clients n).erase ccon = [] := by
        rw [hlists, hone, List.erase_cons_head]
      rw [if_pos hmem, if_pos hex]
      dsimp only
      rw [Function.update_self, if_pos hnil]
      change (disConnectLoop ccon imsk connected n).enabledInts &&& ~~~imsk = _
      rw [ih]
      split
      · rw [BitVec.and_assoc, BitVec.and_self]
      · rfl
    · have hiff : (∃ j < n + 1, imsk.getLsbD j = true ∧ connected.clients j = [ccon]) =
          ∃ j < n, imsk.getLsbD j = true ∧ connected.clients j = [ccon] := by
        simp only [Nat.exists_lt_succ_right, hlast, or_false]
      simp only [hiff]
      rw [← ih]
      split
      · rename_i hmem
        rw [Function.update_self, if_neg]
        rw [hlists] at hmem ⊢
        intro hnil
        obtain hnil | hone := List.erase_eq_nil_iff.mp hnil
        · rw [hnil] at hmem
          exact absurd hmem.2 List.not_mem_nil
        · exact hlast ⟨hmem.1, hone⟩
      · rfl

end Loops

/-! ## What the calls do -/

section Frames
variable {user : SkelUser} {T : Type} {m : ℕ} {wa wa' : SkelDrvrWorkingArea T m} {ccon : Ptr} {flp : ℕ} {i : Fin m}
  {connected : SkelDrvrModConn} {call : ClientCall}

/-- What connections do not touch. -/
structure SameClients (wa wa' : SkelDrvrWorkingArea T m) : Prop where
  clients : wa'.clients = wa.clients
  ccon : wa'.ccon = wa.ccon
  moduleNumber : ∀ i, (wa'.modules i).moduleNumber = (wa.modules i).moduleNumber

theorem SameClients.refl (wa : SkelDrvrWorkingArea T m) : SameClients wa wa := ⟨rfl, rfl, fun _ => rfl⟩

theorem SameClients.requestMcon (h : SameClients wa wa') (ccon : Ptr) (modnr : U32) :
    requestMcon wa' ccon modnr = requestMcon wa ccon modnr := by
  unfold Skel.requestMcon Skel.getMcon
  simp only [h.ccon, h.moduleNumber]

theorem SameClients.getMcon (h : SameClients wa wa') (modnr : U32) : getMcon wa' modnr = getMcon wa modnr := by
  unfold Skel.getMcon
  simp only [h.moduleNumber]

theorem SameClients.skelGetCcon (h : SameClients wa wa') (flp : ℕ) : skelGetCcon wa' flp = skelGetCcon wa flp := by
  unfold Skel.skelGetCcon
  rw [h.clients, h.ccon]

theorem skelGetCcon_setCcon {f : SkelDrvrClientContext T → SkelDrvrClientContext T}
    (hf : (f (wa.ccon ccon)).cdcmf = (wa.ccon ccon).cdcmf) :
    skelGetCcon (setCcon wa ccon f) flp = skelGetCcon wa flp := by
  unfold skelGetCcon
  refine congrArg (List.find? · wa.clients) ?_
  funext c
  change decide ((Function.update wa.ccon ccon _ c).cdcmf = flp) = _
  by_cases hc : c = ccon
  · rw [hc, Function.update_self, hf]
  · rw [Function.update_of_ne hc]

theorem setConnected_same (wa : SkelDrvrWorkingArea T m) (i : Fin m) (connected : SkelDrvrModConn) :
    SameClients wa (setConnected wa i connected) := by
  refine ⟨rfl, rfl, ?_⟩
  intro k
  change (Function.update wa.modules i _ k).moduleNumber = _
  by_cases hk : k = i
  · rw [hk, Function.update_self]
  · rw [Function.update_of_ne hk]

theorem setConnected_connected (wa : SkelDrvrWorkingArea T m) (i k : Fin m) (connected : SkelDrvrModConn) :
    ((setConnected wa i connected).modules k).connected = if k = i then connected else (wa.modules k).connected := by
  change (Function.update wa.modules i _ k).connected = _
  split
  · rename_i hk
    rw [hk, Function.update_self]
  · rename_i hk
    rw [Function.update_of_ne hk]

/-- No client is twice in a list. -/
def OneLink (wa : SkelDrvrWorkingArea T m) : Prop := ∀ i j, ((wa.modules i).connected.clients j).Nodup

theorem OneLink.connectLoop (h : OneLink wa) (ccon : Ptr) (i : Fin m) (sysbrk : ℕ → Bool) (imsk : U32) (n j : ℕ) :
    ((connectLoop sysbrk ccon imsk (wa.modules i).connected n).clients j).Nodup := by
  rw [connectLoop_clients]
  split
  · rename_i hnew
    exact List.nodup_cons.mpr ⟨hnew.2.2.1, h i j⟩
  · exact h i j

theorem OneLink.disConnectLoop (h : OneLink wa) (ccon : Ptr) (i : Fin m) (imsk : U32) (n j : ℕ) :
    ((disConnectLoop ccon imsk (wa.modules i).connected n).clients j).Nodup := by
  rw [disConnectLoop_clients]
  split
  · exact (h i j).erase ccon
  · exact h i j

theorem OneLink.setConnected (h : OneLink wa) (i : Fin m) (hlists : ∀ j, (connected.clients j).Nodup) :
    OneLink (setConnected wa i connected) := by
  intro k j
  rw [setConnected_connected]
  split
  · exact hlists j
  · exact h k j

/-- The modules that `DisConnectAll` gets at. -/
def Reached (wa : SkelDrvrWorkingArea T m) (ccon : Ptr) (i : Fin m) : Prop :=
  ∃ k, requestMcon wa ccon (wa.modules k).moduleNumber = some i

instance instDecidableReached (wa : SkelDrvrWorkingArea T m) (ccon : Ptr) (i : Fin m) : Decidable (Reached wa ccon i) :=
  inferInstanceAs (Decidable (∃ _, _ = some i))

theorem SameClients.trans {wa'' : SkelDrvrWorkingArea T m} (h : SameClients wa wa') (h' : SameClients wa' wa'') :
    SameClients wa wa'' := by
  refine ⟨h'.clients.trans h.clients, h'.ccon.trans h.ccon, ?_⟩
  intro i
  rw [h'.moduleNumber, h.moduleNumber]

theorem disConnectLoop_twice (h : OneLink wa) (n : ℕ) :
    disConnectLoop ccon (~~~0) (disConnectLoop ccon (~~~0) (wa.modules i).connected n) n =
      disConnectLoop ccon (~~~0) (wa.modules i).connected n := by
  have hnone : ∀ k ≤ n, disConnectLoop ccon (~~~0) (disConnectLoop ccon (~~~0) (wa.modules i).connected n) k =
      disConnectLoop ccon (~~~0) (wa.modules i).connected n := by
    intro k hk
    induction k with
    | zero => rfl
    | succ k ih =>
      rw [disConnectLoop, ih (Nat.le_of_succ_le hk), disConnectInt, if_neg]
      rintro ⟨hbit, hmem⟩
      rw [disConnectLoop_clients, if_pos ⟨hk, hbit⟩] at hmem
      exact (h i k).not_mem_erase hmem
  exact hnone n (le_refl n)

/-- Every module that is reached is left by the client as if it had been reached once. -/
theorem disConnectAllLoop_spec (l : List (Fin m)) (conx : SkelDrvrConnection) (hone : OneLink wa)
    (hmask : fullMask conx.conMask = ~~~0) :
    SameClients wa (disConnectAllLoop user ccon l wa conx) ∧
    ∀ i, ((disConnectAllLoop user ccon l wa conx).modules i).connected =
      if ∃ k ∈ l, requestMcon wa ccon (wa.modules k).moduleNumber = some i then
        disConnectLoop ccon (~~~0) (wa.modules i).connected user.interrupts
      else (wa.modules i).connected := by
  have hfull : fullMask (~~~0) = ~~~0 := by decide
  induction l generalizing wa conx with
  | nil =>
    refine ⟨SameClients.refl wa, ?_⟩
    intro i
    rw [if_neg fun ⟨k, hk, _⟩ => List.not_mem_nil hk]
    rfl
  | cons k rest ih =>
    rw [disConnectAllLoop]
    cases hreq : requestMcon wa ccon (wa.modules k).moduleNumber with
    | none =>
      have hdis : disConnect user wa ccon { conx with module := (wa.modules k).moduleNumber } =
          (wa, { conx with module := (wa.modules k).moduleNumber }) := by
        rw [disConnect]
        simp only [hreq]
      rw [hdis]
      obtain ⟨hsame, hmod⟩ := ih { conx with module := (wa.modules k).moduleNumber } hone hmask
      refine ⟨hsame, ?_⟩
      intro i
      rw [hmod i]
      simp [hreq]
    | some i₀ =>
      have hdis : disConnect user wa ccon { conx with module := (wa.modules k).moduleNumber } =
          (setConnected wa i₀ (disConnectLoop ccon (~~~0) (wa.modules i₀).connected user.interrupts),
            ⟨(wa.modules k).moduleNumber, ~~~0⟩) := by
        rw [disConnect]
        simp only [hreq, hmask]
      rw [hdis]
      have hone' := hone.setConnected i₀ (hone.disConnectLoop ccon i₀ (~~~0) user.interrupts)
      have hsame' := setConnected_same wa i₀ (disConnectLoop ccon (~~~0) (wa.modules i₀).connected user.interrupts)
      obtain ⟨hsame, hmod⟩ := ih ⟨(wa.modules k).moduleNumber, ~~~0⟩ hone' hfull
      refine ⟨hsame'.trans hsame, ?_⟩
      intro i
      rw [hmod i]
      simp only [hsame'.requestMcon, hsame'.moduleNumber, setConnected_connected]
      by_cases hi : i = i₀
      · subst hi
        have hex : ∃ j ∈ k :: rest, requestMcon wa ccon (wa.modules j).moduleNumber = some i :=
          ⟨k, List.mem_cons_self .., hreq⟩
        rw [if_pos rfl, if_pos hex, disConnectLoop_twice hone]
        split
        · rfl
        · rfl
      · have hne : requestMcon wa ccon (wa.modules k).moduleNumber ≠ some i := by
          rw [hreq]
          intro heq
          exact hi (Option.some.inj heq).symm
        have hiff : (∃ j ∈ k :: rest, requestMcon wa ccon (wa.modules j).moduleNumber = some i) =
            ∃ j ∈ rest, requestMcon wa ccon (wa.modules j).moduleNumber = some i := by
          simp [hne]
        simp only [hiff, if_neg hi]

theorem disConnectAll_spec (hone : OneLink wa) (ccon : Ptr) :
    SameClients wa (disConnectAll user wa ccon) ∧
    ∀ i, ((disConnectAll user wa ccon).modules i).connected =
      if Reached wa ccon i then disConnectLoop ccon (~~~0) (wa.modules i).connected user.interrupts
      else (wa.modules i).connected := by
  have hempty : fullMask 0 = ~~~0 := by decide
  obtain ⟨hsame, hmod⟩ := disConnectAllLoop_spec (List.finRange m) ⟨0, 0⟩ hone hempty
  refine ⟨hsame, ?_⟩
  intro i
  rw [disConnectAll, hmod i]
  exact if_congr (by simp [Reached]) rfl rfl

/-! ## One step -/

/-- What a call does to one module. -/
inductive Change
  | same
  | link (ccon : Ptr) (imsk : U32) (sysbrk : ℕ → Bool)
  | cut (ccon : Ptr) (imsk : U32)

def Change.apply (user : SkelUser) (connected : SkelDrvrModConn) : Change → SkelDrvrModConn
  | .same => connected
  | .link ccon imsk sysbrk => Skel.connectLoop sysbrk ccon imsk connected user.interrupts
  | .cut ccon imsk => Skel.disConnectLoop ccon imsk connected user.interrupts

def change (wa : SkelDrvrWorkingArea T m) (i : Fin m) : ClientCall → Change
  | .open _ _ => .same
  | .setModule _ _ => .same
  | .connect flp conx sysbrk =>
    match skelGetCcon wa flp with
    | none => .same
    | some ccon => if requestMcon wa ccon conx.module = some i then .link ccon conx.conMask sysbrk else .same
  | .disConnect flp conx =>
    match skelGetCcon wa flp with
    | none => .same
    | some ccon => if requestMcon wa ccon conx.module = some i then .cut ccon (fullMask conx.conMask) else .same
  | .disConnectAll flp =>
    match skelGetCcon wa flp with
    | none => .same
    | some ccon => if Reached wa ccon i then .cut ccon (~~~0) else .same
  | .close flp =>
    match skelGetCcon wa flp with
    | none => .same
    | some ccon => if Reached wa ccon i then .cut ccon (~~~0) else .same

theorem change_eq_link {imsk : U32} {sysbrk : ℕ → Bool} (h : change wa i call = .link ccon imsk sysbrk) :
    ∃ flp conx, call = .connect flp conx sysbrk ∧ skelGetCcon wa flp = some ccon := by
  cases call with
  | «open» new flp => cases h
  | setModule flp lav => cases h
  | connect flp conx allocs =>
    rw [change] at h
    split at h
    · cases h
    · rename_i hget
      split at h
      · cases h
        exact ⟨flp, conx, rfl, hget⟩
      · cases h
  | disConnect flp conx =>
    rw [change] at h
    split at h
    · cases h
    · split at h
      · cases h
      · cases h
  | disConnectAll flp | close flp =>
    rw [change] at h
    split at h
    · cases h
    · split at h
      · cases h
      · cases h

/-- What a request does to the modules when it is for module `k`. -/
theorem setConnected_spec (c : Change) (k : Fin m) :
    SameClients wa (setConnected wa k (c.apply user (wa.modules k).connected)) ∧
    ∀ i, ((setConnected wa k (c.apply user (wa.modules k).connected)).modules i).connected =
      (if some k = some i then c else .same).apply user (wa.modules i).connected := by
  refine ⟨setConnected_same .., ?_⟩
  intro i
  rw [setConnected_connected]
  by_cases hi : i = k
  · rw [if_pos hi, if_pos (congrArg some hi.symm), hi]
  · rw [if_neg hi, if_neg fun heq => hi (Option.some.inj heq).symm]
    rfl

theorem connect_spec (sysbrk : ℕ → Bool) (ccon : Ptr) (conx : SkelDrvrConnection) :
    SameClients wa (connect user sysbrk wa ccon conx) ∧
    ∀ i, ((connect user sysbrk wa ccon conx).modules i).connected =
      (if requestMcon wa ccon conx.module = some i then Change.link ccon conx.conMask sysbrk else .same).apply user
        (wa.modules i).connected := by
  unfold connect
  cases hreq : requestMcon wa ccon conx.module with
  | none => exact ⟨SameClients.refl wa, fun i => rfl⟩
  | some k => exact setConnected_spec (.link ccon conx.conMask sysbrk) k

theorem disConnect_spec (ccon : Ptr) (conx : SkelDrvrConnection) :
    SameClients wa (disConnect user wa ccon conx).1 ∧
    ∀ i, ((disConnect user wa ccon conx).1.modules i).connected =
      (if requestMcon wa ccon conx.module = some i then Change.cut ccon (fullMask conx.conMask) else .same).apply user
        (wa.modules i).connected := by
  unfold disConnect
  cases hreq : requestMcon wa ccon conx.module with
  | none => exact ⟨SameClients.refl wa, fun i => rfl⟩
  | some k => exact setConnected_spec (.cut ccon (fullMask conx.conMask)) k

theorem clientNext_change (hone : OneLink wa) (hnext : clientNext user wa call = some wa') (i : Fin m) :
    (wa'.modules i).moduleNumber = (wa.modules i).moduleNumber ∧
    (wa'.modules i).connected = (change wa i call).apply user (wa.modules i).connected := by
  cases call with
  | «open» ccon flp =>
    rw [clientNext] at hnext
    split at hnext
    · cases hnext
    · cases hnext
      exact ⟨rfl, rfl⟩
  | setModule flp lav =>
    cases hnext
    unfold withCcon ioctlSetModule
    cases skelGetCcon wa flp with
    | none => exact ⟨rfl, rfl⟩
    | some ccon =>
      cases getMcon wa lav with
      | none => exact ⟨rfl, rfl⟩
      | some k => exact ⟨rfl, rfl⟩
  | connect flp conx sysbrk =>
    cases hnext
    cases hget : skelGetCcon wa flp with
    | none =>
      simp only [withCcon, change, hget]
      exact ⟨trivial, rfl⟩
    | some ccon =>
      simp only [withCcon, change, hget]
      obtain ⟨hsame, hmod⟩ := connect_spec sysbrk ccon conx
      exact ⟨hsame.moduleNumber i, hmod i⟩
  | disConnect flp conx =>
    cases hnext
    cases hget : skelGetCcon wa flp with
    | none =>
      simp only [withCcon, change, hget]
      exact ⟨trivial, rfl⟩
    | some ccon =>
      simp only [withCcon, change, hget]
      obtain ⟨hsame, hmod⟩ := disConnect_spec ccon conx
      exact ⟨hsame.moduleNumber i, hmod i⟩
  | disConnectAll flp | close flp =>
    cases hnext
    cases hget : skelGetCcon wa flp with
    | none =>
      simp only [withCcon, change, hget]
      exact ⟨trivial, rfl⟩
    | some ccon =>
      simp only [withCcon, change, hget]
      obtain ⟨hsame, hmod⟩ := disConnectAll_spec hone ccon
      refine ⟨hsame.moduleNumber i, (hmod i).trans ?_⟩
      split
      · rfl
      · rfl

theorem OneLink.next (hone : OneLink wa) (hnext : clientNext user wa call = some wa') : OneLink wa' := by
  intro i j
  rw [(clientNext_change hone hnext i).2]
  cases change wa i call with
  | same => exact hone i j
  | link ccon imsk sysbrk => exact hone.connectLoop ccon i sysbrk imsk user.interrupts j
  | cut ccon imsk => exact hone.disConnectLoop ccon i imsk user.interrupts j

theorem OneLink.start (modnr : Fin m → U32) (memory : Ptr → SkelDrvrClientContext T) : OneLink (waStart modnr memory) :=
  fun _ _ => List.nodup_nil

end Frames

end HtDrivers.Skel
