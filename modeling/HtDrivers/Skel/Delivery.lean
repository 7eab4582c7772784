import HtDrivers.Skel.Connections

/-! The delivery of interrupts to the queues of the clients. `IntrHandler` goes through the bits of the interrupt word,
and for each one that is set through the clients that are connected to it. -/
namespace HtDrivers.Skel
open HtDrivers.Lib.Transition
set_option autoImplicit false

/-! ## Operations -/

section Operations
variable {T : Type} {m : ℕ} (user : SkelUser)

/-- The client contexts, and the readers that were woken up so far. -/
abbrev Queues (T : Type) := (Ptr → SkelDrvrClientContext T) × List T

def putQueue (rb : SkelDrvrReadBuf) (queues : Queues T) (context : Ptr) : Queues T :=
  let put := qPut user rb (queues.1 context)
  (Function.update queues.1 context put.1, queues.2 ++ put.2.toList)

def putQueues (rb : SkelDrvrReadBuf) (clientList : List Ptr) (queues : Queues T) : Queues T :=
  clientList.foldl (putQueue user rb) queues

/-- The loop of `__fill_clients_queues` over the first `n` interrupts. -/
def fillLoop (connected : SkelDrvrModConn) (rb : SkelDrvrReadBuf) (imask : U32) (queues : Queues T) : ℕ → Queues T
  | 0 => queues
  | n + 1 =>
    let queues := fillLoop connected rb imask queues n
    let interrupt := imask &&& (1 : U32) <<< n
    if interrupt = 0 ∨ connected.clients n = [] then queues
    else putQueues user { rb with connection := { rb.connection with conMask := interrupt } }
      (connected.clients n) queues

def fillClientsQueues (wa : SkelDrvrWorkingArea T m) (i : Fin m) (rb : SkelDrvrReadBuf) (imask : U32) :
    SkelDrvrWorkingArea T m × List T :=
  let queues := fillLoop user (wa.modules i).connected rb imask (wa.ccon, []) user.interrupts
  ({ wa with ccon := queues.1 }, queues.2)

/-- `IntrHandler`; the time and the mask come from the hardware, and `stack` is what the read buffer held before. -/
def intrHandler (stack : SkelDrvrReadBuf) (wa : SkelDrvrWorkingArea T m) (i : Fin m) (time : SkelDrvrTime)
    (interrupt : U32) : SkelDrvrWorkingArea T m × List T :=
  if interrupt = 0 then (wa, [])
  else
    fillClientsQueues user wa i
      ⟨{ stack.connection with module := (wa.modules i).moduleNumber }, time⟩ interrupt

/-- `SkelDrvrWrite` with the number of bytes that are written, or none for EFAULT. -/
def skelDrvrWrite (wa : SkelDrvrWorkingArea T m) (conx : SkelDrvrConnection) (time : SkelDrvrTime) :
    Option ℕ × SkelDrvrWorkingArea T m × List T :=
  match getMcon wa conx.module with
  | none => (none, wa, [])
  | some i => (some 8, fillClientsQueues user wa i ⟨conx, time⟩ conx.conMask)

/-- What happens to the driver; `context` stands for all that concerns one client context only. -/
inductive SkelStep (T : Type) (m : ℕ)
  | client (call : ClientCall)
  | context (ccon : Ptr) (f : SkelDrvrClientContext T → SkelDrvrClientContext T)
  | interrupt (stack : SkelDrvrReadBuf) (i : Fin m) (time : SkelDrvrTime) (interrupt : U32)
  | write (conx : SkelDrvrConnection) (time : SkelDrvrTime)

def skelNext (wa : SkelDrvrWorkingArea T m) : SkelStep T m → Option (SkelDrvrWorkingArea T m)
  | .client call => clientNext user wa call
  | .context ccon f => some (setCcon wa ccon f)
  | .interrupt stack i time interrupt => some (intrHandler user stack wa i time interrupt).1
  | .write conx time => some (skelDrvrWrite user wa conx time).2.1

end Operations

/-! ## One delivery -/

section Delivery
variable {user : SkelUser} {T : Type} {m : ℕ} {wa wa' : SkelDrvrWorkingArea T m} {c : Ptr}

/-- The interrupts of the mask that a client is connected to, in ascending order. -/
def interruptsOf (user : SkelUser) (connected : SkelDrvrModConn) (imask : U32) (c : Ptr) : List ℕ :=
  (List.range user.interrupts).filter fun j => imask.getLsbD j && decide (c ∈ connected.clients j)

/-- The context of a client after one put for each of the interrupts. -/
def putAll (user : SkelUser) (modnr : U32) (time : SkelDrvrTime) (interrupts : List ℕ)
    (ccon : SkelDrvrClientContext T) : SkelDrvrClientContext T :=
  interrupts.foldl (fun ccon j => (qPut user ⟨⟨modnr, (1 : U32) <<< j⟩, time⟩ ccon).1) ccon

theorem putQueues_ccon {rb : SkelDrvrReadBuf} {clientList : List Ptr} (hnodup : clientList.Nodup) (queues : Queues T) :
    (putQueues user rb clientList queues).1 c =
      if c ∈ clientList then (qPut user rb (queues.1 c)).1 else queues.1 c := by
  induction clientList generalizing queues with
  | nil => rfl
  | cons first rest ih =>
    obtain ⟨hfirst, hrest⟩ := List.nodup_cons.mp hnodup
    rw [putQueues, List.foldl_cons]
    refine (ih hrest (putQueue user rb queues first)).trans ?_
    by_cases hc : c = first
    · subst hc
      rw [if_neg hfirst, if_pos (List.mem_cons_self ..)]
      exact Function.update_self ..
    · have hsame : (putQueue user rb queues first).1 c = queues.1 c := Function.update_of_ne hc ..
      have hmem : (c ∈ first :: rest) = (c ∈ rest) := by simp [hc]
      rw [hsame]
      simp only [hmem]

theorem putAll_append {modnr : U32} {time : SkelDrvrTime} {xs ys : List ℕ} {ccon : SkelDrvrClientContext T} :
    putAll user modnr time (xs ++ ys) ccon = putAll user modnr time ys (putAll user modnr time xs ccon) :=
  List.foldl_append ..

theorem interrupt_bit (imask : U32) (n : ℕ) :
    imask &&& (1 : U32) <<< n = if imask.getLsbD n = true then (1 : U32) <<< n else 0 := by
  have hone : (1 : U32) <<< n = BitVec.twoPow 32 n := (BitVec.twoPow_eq 32 n).symm
  rw [hone]
  exact BitVec.and_twoPow imask n

theorem bit_ne_zero {n : ℕ} (h : n < 32) : (1 : U32) <<< n ≠ 0 := by
  intro hzero
  have hbit := congrArg (BitVec.getLsbD · n) hzero
  simp [h] at hbit

/-- The first `n` turns of the loop put one entry for each connected interrupt below `n`. -/
theorem fillLoop_ccon {connected : SkelDrvrModConn} {rb : SkelDrvrReadBuf} {imask : U32} {queues : Queues T} {n : ℕ}
    (hnodup : ∀ j, (connected.clients j).Nodup) (hn : n ≤ 32) :
    (fillLoop user connected rb imask queues n).1 c =
      putAll user rb.connection.module rb.time
        ((List.range n).filter fun j => imask.getLsbD j && decide (c ∈ connected.clients j)) (queues.1 c) := by
  induction n with
  | zero => rfl
  | succ n ih =>
    rw [List.range_succ, List.filter_append, putAll_append, ← ih (Nat.le_of_succ_le hn), fillLoop, interrupt_bit]
    generalize fillLoop user connected rb imask queues n = before
    by_cases hbit : imask.getLsbD n = true
    · rw [if_pos hbit]
      by_cases hmem : c ∈ connected.clients n
      · have hskip : ¬((1 : U32) <<< n = 0 ∨ connected.clients n = []) :=
          not_or.mpr ⟨bit_ne_zero hn, List.ne_nil_of_mem hmem⟩
        simp only [if_neg hskip, putQueues_ccon (hnodup n), if_pos hmem]
        simp [hbit, hmem, putAll]
      · have hkeep : (if (1 : U32) <<< n = 0 ∨ connected.clients n = [] then before
            else putQueues user ⟨⟨rb.connection.module, (1 : U32) <<< n⟩, rb.time⟩ (connected.clients n) before).1 c =
              before.1 c := by
          split
          · rfl
          · rw [putQueues_ccon (hnodup n), if_neg hmem]
        refine hkeep.trans ?_
        simp [hmem, putAll]
    · simp only [if_neg hbit]
      simp [hbit, putAll]

/-- Each client gets one entry for each of its interrupts, and nothing else changes. -/
structure Delivers (user : SkelUser) (wa wa' : SkelDrvrWorkingArea T m) (i : Fin m) (modnr : U32) (time : SkelDrvrTime)
    (imask : U32) : Prop where
  clients : wa'.clients = wa.clients
  modules : wa'.modules = wa.modules
  puts : ∀ c, wa'.ccon c = putAll user modnr time (interruptsOf user (wa.modules i).connected imask c) (wa.ccon c)

theorem fillClientsQueues_delivers {i : Fin m} {rb : SkelDrvrReadBuf} {imask : U32} (hone : OneLink wa) :
    Delivers user wa (fillClientsQueues user wa i rb imask).1 i rb.connection.module rb.time imask :=
  ⟨rfl, rfl, fun _ => fillLoop_ccon (hone i) user.interrupts_le⟩

theorem intrHandler_delivers {stack : SkelDrvrReadBuf} {i : Fin m} {time : SkelDrvrTime} {interrupt : U32}
    (hone : OneLink wa) :
    Delivers user wa (intrHandler user stack wa i time interrupt).1 i (wa.modules i).moduleNumber time interrupt := by
  unfold intrHandler
  split
  · rename_i hzero
    refine ⟨rfl, rfl, ?_⟩
    intro c
    have hnone : interruptsOf user (wa.modules i).connected interrupt c = [] := by
      rw [interruptsOf, hzero]
      simp
    rw [hnone]
    rfl
  · exact fillClientsQueues_delivers hone

theorem OneLink.skelNext {step : SkelStep T m} (hone : OneLink wa) (hnext : skelNext user wa step = some wa') :
    OneLink wa' := by
  cases step with
  | client call => exact hone.next hnext
  | context ccon f =>
    cases hnext
    exact hone
  | interrupt stack i time interrupt =>
    cases hnext
    unfold OneLink
    rw [(intrHandler_delivers hone).modules]
    exact hone
  | write conx time =>
    cases hnext
    unfold skelDrvrWrite
    cases getMcon wa conx.module with
    | none => exact hone
    | some i => exact hone

/-- In every state of the driver an interrupt, read from the hardware or written by a client, is delivered to
exactly the connected clients. -/
theorem delivery_exact {modnr : Fin m → U32} {memory : Ptr → SkelDrvrClientContext T}
    (h : Reach (skelNext user) (fun _ _ => True) (waStart modnr memory) wa) :
    (∀ stack i time interrupt,
      Delivers user wa (intrHandler user stack wa i time interrupt).1 i (wa.modules i).moduleNumber time interrupt) ∧
    ∀ conx time,
      match getMcon wa conx.module with
      | none => skelDrvrWrite user wa conx time = (none, wa, [])
      | some i => (skelDrvrWrite user wa conx time).1 = some 8 ∧
        Delivers user wa (skelDrvrWrite user wa conx time).2.1 i conx.module time conx.conMask := by
  have hone : OneLink wa :=
    h.invariant (OneLink.start modnr memory) fun _ _ _ hone _ hnext => hone.skelNext hnext
  refine ⟨fun _ _ _ _ => intrHandler_delivers hone, ?_⟩
  intro conx time
  unfold skelDrvrWrite
  cases getMcon wa conx.module with
  | none => rfl
  | some i => exact ⟨rfl, fillClientsQueues_delivers hone⟩

theorem delivery_exact_connected :
    Delivers template connectedOne (intrHandler template zeroReadBuf connectedOne 0 ⟨3, 4⟩ 7).1 0 1 ⟨3, 4⟩ 7 ∧
    interruptsOf template (connectedOne.modules 0).connected 7 0 = [0, 2] := by
  have hrun : Reach (skelNext template) (fun _ _ => True) oneModule connectedOne :=
    .step (a := .client (.connect 10 ⟨1, 5⟩ fun _ => true))
      (.step (a := .client (.open 0 10)) .refl trivial rfl) trivial rfl
  exact ⟨(delivery_exact hrun).1 zeroReadBuf 0 ⟨3, 4⟩ 7, by decide⟩

end Delivery

end HtDrivers.Skel
