import HtDrivers.Lib.ByteMemory
import HtDrivers.Xmem.EnabledMasks

/-! The listing of the connections of a process (`GET_CLIENT_CONNECTIONS` of `xmemDrvr.c`): it goes over all client
contexts and all modules, through a temporary array with one entry a module. -/
namespace HtDrivers.Xmem
open HtDrivers.Lib.ByteMemory HtDrivers.Lib.Transition
set_option autoImplicit false

/-! ## The model -/

def xmemDrvrModuleContexts : ℕ := 2

/-- The driver with the process of every client context. -/
structure PidArea where
  wa : ConnArea
  pid : ℕ → BitVec 32

/-- A call of the process `getpid`; only the process that has opened a file may use its ioctls. -/
def pidNext (s : PidArea) (call : ConnStep × BitVec 32) : Option PidArea :=
  match call.1 with
  | .open minor =>
    match xmemDrvrOpen s.wa minor with
    | .ok wa => some ⟨wa, Function.update s.pid (minor - 1) call.2⟩
    | .error _ => some s
  | .close minor =>
    match xmemDrvrClose s.wa minor with
    | .ok wa => some ⟨wa, Function.update s.pid (minor - 1) 0⟩
    | .error _ => some s
  | .ioctl minor request =>
    if s.pid (minor - 1) = call.2 then some { s with wa := (xmemDrvrIoctl s.wa minor request).toOption.getD s.wa }
    else some s

def pidStart (modules : ℕ) : PidArea := ⟨connStart modules, fun _ => 0⟩

/-- `tempcon[size++] = conx`: `none` where the entry is not in the array. -/
def addEntry (tempcon : List XmemDrvrConnection) (conx : XmemDrvrConnection) : Option (List XmemDrvrConnection) :=
  if tempcon.length < xmemDrvrModuleContexts then some (tempcon ++ [conx]) else none

section Loops
variable (s : PidArea) (pid : BitVec 32)

def moduleTurn (i : ℕ) (tempcon : List XmemDrvrConnection) (j : ℕ) : Option (List XmemDrvrConnection) :=
  if (s.wa.moduleContexts j).clients i ≠ 0 then addEntry tempcon ⟨j + 1, (s.wa.moduleContexts j).clients i⟩
  else some tempcon

def clientTurn (tempcon : List XmemDrvrConnection) (i : ℕ) : Option (List XmemDrvrConnection) :=
  if (s.wa.clientContexts i).inUse = true ∧ s.pid i = pid then (List.range s.wa.modules).foldlM (moduleTurn s i) tempcon
  else some tempcon

def tempconOf : Option (List XmemDrvrConnection) := (List.range xmemDrvrClientContexts).foldlM (clientTurn s pid) []

end Loops

/-- A word in the order of the host. -/
def wordBytes (little : Bool) (v : ℕ) : List Byte := if little then bytesOf 4 v else (bytesOf 4 v).reverse

def readWord (little : Bool) (m : Memory) (a : ℕ) : BitVec 32 :=
  BitVec.ofNat 32 (valueOf (if little then load m a 4 else (load m a 4).reverse))

def connectionBytes (little : Bool) (conx : XmemDrvrConnection) : List Byte :=
  wordBytes little conx.module ++ wordBytes little conx.mask.toNat

/-- The systems that the driver is built for. Under Linux the argument of an ioctl is a buffer of the kernel, and
nothing of the caller's is in it for a command that only reads. -/
inductive System
  | lynx
  | linux

/-- `cdcm_copy_to_user` to the array behind the argument: Linux refuses an address of the kernel. -/
def copyToArgument (system : System) (m : Memory) (a : ℕ) (bs : List Byte) : Option Memory :=
  match system with
  | .lynx => some (store m a bs)
  | .linux => if bs = [] then some m else none

/-- The structure at `a` has the Pid, the size and the array. The copy is given the size, which counts entries, for the
number of bytes. -/
def getClientConnections (system : System) (little : Bool) (s : PidArea) (m : Memory) (a : ℕ) :
    Option (Bool × Memory) := do
  let tempcon ← tempconOf s (readWord little m a)
  let m := store m (a + 4) (wordBytes little tempcon.length)
  match copyToArgument system m (a + 8) ((tempcon.flatMap (connectionBytes little)).take tempcon.length) with
  | some m => some (true, m)
  | none => some (false, m)

/-- The call with the structure of the caller at `a`; `buffer` is what Linux finds in the buffer that it takes. -/
def listConnections (system : System) (little : Bool) (s : PidArea) (buffer m : Memory) (a : ℕ) :
    Option (Bool × Memory) :=
  match system with
  | .lynx => getClientConnections .lynx little s m a
  | .linux =>
    (getClientConnections .linux little s buffer 0).map fun reply =>
      if reply.1 then (true, store m a (load reply.2 0 24)) else (false, m)

/-! ## The connections of a process -/

section Listing
variable {s : PidArea} {pid : BitVec 32} {little : Bool}

def connectionsOn (s : PidArea) (i : ℕ) (js : List ℕ) : List XmemDrvrConnection :=
  js.filterMap fun j =>
    if (s.wa.moduleContexts j).clients i ≠ 0 then some ⟨j + 1, (s.wa.moduleContexts j).clients i⟩ else none

/-- Every pair of an open context of the process and a module on which it is connected. -/
def connectionsOf (s : PidArea) (pid : BitVec 32) : List XmemDrvrConnection :=
  (List.range xmemDrvrClientContexts).flatMap fun i =>
    if (s.wa.clientContexts i).inUse = true ∧ s.pid i = pid then connectionsOn s i (List.range s.wa.modules) else []

/-- The entries of `conxs` behind those of `tempcon`, where they all have their place. -/
def appended (tempcon conxs : List XmemDrvrConnection) : Option (List XmemDrvrConnection) :=
  if tempcon.length + conxs.length ≤ xmemDrvrModuleContexts ∨ conxs = [] then some (tempcon ++ conxs) else none

theorem appended_nil {tempcon : List XmemDrvrConnection} : appended tempcon [] = some tempcon := by
  rw [appended, if_pos (.inr rfl), List.append_nil]

theorem appended_append {tempcon xs ys : List XmemDrvrConnection} :
    (appended tempcon xs).bind (appended · ys) = appended tempcon (xs ++ ys) := by
  unfold appended
  by_cases hxs : tempcon.length + xs.length ≤ xmemDrvrModuleContexts ∨ xs = []
  · rw [if_pos hxs, Option.bind_some]
    by_cases hys : ys = []
    · subst hys
      rw [if_pos (.inr rfl), List.append_nil, List.append_nil, if_pos hxs]
    · have hne : xs ++ ys ≠ [] := List.append_ne_nil_of_right_ne_nil xs hys
      simp only [hys, hne, or_false, List.length_append, List.append_assoc, Nat.add_assoc]
  · rw [if_neg hxs, Option.bind_none, if_neg]
    rw [not_or] at hxs ⊢
    refine ⟨?_, List.append_ne_nil_of_left_ne_nil hxs.2 ys⟩
    rw [List.length_append]
    omega

theorem moduleTurns_eq {i : ℕ} {js : List ℕ} {tempcon : List XmemDrvrConnection} :
    js.foldlM (moduleTurn s i) tempcon = appended tempcon (connectionsOn s i js) := by
  induction js generalizing tempcon with
  | nil => exact appended_nil.symm
  | cons j js ih =>
    rw [List.foldlM_cons, connectionsOn, List.filterMap_cons, moduleTurn]
    by_cases hj : (s.wa.moduleContexts j).clients i ≠ 0
    · rw [if_pos hj, if_pos hj]
      have hone : addEntry tempcon ⟨j + 1, (s.wa.moduleContexts j).clients i⟩ =
          appended tempcon [⟨j + 1, (s.wa.moduleContexts j).clients i⟩] := by
        simp [addEntry, appended]
      rw [hone, Option.bind_eq_bind]
      simp only [ih]
      exact appended_append
    · rw [if_neg hj, if_neg hj]
      exact ih

theorem clientTurns_eq {is : List ℕ} {tempcon : List XmemDrvrConnection} :
    is.foldlM (clientTurn s pid) tempcon = appended tempcon (is.flatMap fun i =>
      if (s.wa.clientContexts i).inUse = true ∧ s.pid i = pid then connectionsOn s i (List.range s.wa.modules)
      else []) := by
  induction is generalizing tempcon with
  | nil => exact appended_nil.symm
  | cons i is ih =>
    rw [List.foldlM_cons, List.flatMap_cons, ← appended_append, Option.bind_eq_bind]
    simp only [ih, clientTurn]
    congr 1
    split_ifs
    · exact moduleTurns_eq
    · exact appended_nil.symm

/-- The temporary array has room for one entry a module, and the entries are those of all contexts of the process. -/
theorem tempconOf_eq :
    tempconOf s pid =
      if (connectionsOf s pid).length ≤ xmemDrvrModuleContexts then some (connectionsOf s pid) else none := by
  have hzero : connectionsOf s pid = [] → (connectionsOf s pid).length ≤ xmemDrvrModuleContexts := fun h => by simp [h]
  rw [tempconOf, clientTurns_eq]
  change appended [] (connectionsOf s pid) = _
  rw [appended, List.length_nil, Nat.zero_add, List.nil_append]
  simp only [or_iff_left_of_imp hzero]

theorem wordBytes_length {v : ℕ} : (wordBytes little v).length = 4 := by
  unfold wordBytes
  split_ifs
  · exact bytesOf_length
  · rw [List.length_reverse, bytesOf_length]

theorem connectionBytes_length {conxs : List XmemDrvrConnection} :
    (conxs.flatMap (connectionBytes little)).length = 8 * conxs.length := by
  induction conxs with
  | nil => rfl
  | cons conx conxs ih =>
    rw [List.flatMap_cons, List.length_append, ih, connectionBytes, List.length_append, wordBytes_length,
      wordBytes_length, List.length_cons]
    omega

theorem wordBytes_zero_iff {n : ℕ} (hn : n < 2 ^ 32) : wordBytes little 0 = wordBytes little n ↔ n = 0 := by
  constructor
  · intro heq
    have hbytes : bytesOf 4 0 = bytesOf 4 n := by
      unfold wordBytes at heq
      split_ifs at heq
      · exact heq
      · exact List.reverse_injective heq
    have hvalue := congrArg valueOf hbytes
    rw [valueOf_bytesOf, valueOf_bytesOf] at hvalue
    omega
  · rintro rfl
    rfl

end Listing

/-! ## What the caller receives -/

/-- No entry is written outside the array; and where the connections fit, the caller has them all, with their number. -/
def Listed (little : Bool) (s : PidArea) (pid : BitVec 32) (a : ℕ) (result : Option (Bool × Memory)) : Prop :=
  result ≠ none ∧ ((connectionsOf s pid).length ≤ xmemDrvrModuleContexts → ∃ m, result = some (true, m) ∧
    load m (a + 4) 4 = wordBytes little (connectionsOf s pid).length ∧
    load m (a + 8) (8 * (connectionsOf s pid).length) = (connectionsOf s pid).flatMap (connectionBytes little))

/-- Under LynxOS the bytes that are not copied are there already. Under Linux the process that is listed is the one of
the kernel's buffer, and nothing can be copied. -/
def Complete (little : Bool) (s : PidArea) (pid : BitVec 32) (buffer m : Memory) (a : ℕ) : System → Prop
  | .lynx => (connectionsOf s pid).length ≤ xmemDrvrModuleContexts ∧
      load m (a + 8 + (connectionsOf s pid).length) (7 * (connectionsOf s pid).length) =
        ((connectionsOf s pid).flatMap (connectionBytes little)).drop (connectionsOf s pid).length
  | .linux => (connectionsOf s (readWord little buffer 0)).length ≤ xmemDrvrModuleContexts ∧
      (xmemDrvrModuleContexts < (connectionsOf s pid).length ∨
        connectionsOf s (readWord little buffer 0) = [] ∧ connectionsOf s pid = [])

section Caller
variable {little : Bool} {s : PidArea} {pid : BitVec 32} {buffer m : Memory} {a : ℕ}

theorem listed_lynx_iff (hpid : readWord little m a = pid) :
    Listed little s pid a (listConnections .lynx little s buffer m a) ↔ Complete little s pid buffer m a .lynx := by
  set conxs := connectionsOf s pid with hconxs
  set bytes := conxs.flatMap (connectionBytes little) with hbytes
  have hlength : bytes.length = 8 * conxs.length := connectionBytes_length
  unfold Listed Complete listConnections getClientConnections
  rw [hpid, tempconOf_eq, ← hconxs, ← hbytes]
  by_cases hfit : conxs.length ≤ xmemDrvrModuleContexts
  swap
  · simp [hfit]
  rw [if_pos hfit]
  simp only [copyToArgument, Option.bind_eq_bind, Option.bind_some, ← hbytes]
  have hsize : load (store (store m (a + 4) (wordBytes little conxs.length)) (a + 8) (bytes.take conxs.length)) (a + 4)
      4 = wordBytes little conxs.length := by
    have happart : a + 4 + 4 ≤ a + 8 := by omega
    rw [load_store_apart (.inl happart)]
    have hstored : load (store m (a + 4) (wordBytes little conxs.length)) (a + 4)
        (wordBytes little conxs.length).length = wordBytes little conxs.length := load_store
    rwa [wordBytes_length] at hstored
  have harray : load (store (store m (a + 4) (wordBytes little conxs.length)) (a + 8) (bytes.take conxs.length)) (a + 8)
      (8 * conxs.length) = bytes ↔ load m (a + 8 + conxs.length) (7 * conxs.length) = bytes.drop conxs.length := by
    have hrest : bytes.length - conxs.length = 7 * conxs.length := by omega
    rw [← hlength, load_store_take (by omega), hrest, load_store_apart]
    exact .inr (by rw [wordBytes_length]; omega)
  constructor
  · rintro ⟨-, hall⟩
    obtain ⟨m', heq, -, hgot⟩ := hall hfit
    obtain rfl := congrArg Prod.snd (Option.some.inj heq)
    exact ⟨hfit, harray.mp hgot⟩
  · rintro ⟨-, hthere⟩
    exact ⟨by simp, fun _ => ⟨_, rfl, hsize, harray.mpr hthere⟩⟩

/-- What Linux answers, by the connections of the process in the buffer. -/
theorem listConnections_linux {found : List XmemDrvrConnection}
    (hfound : connectionsOf s (readWord little buffer 0) = found) :
    listConnections .linux little s buffer m a =
      if found.length ≤ xmemDrvrModuleContexts then
        if found = [] then some (true, store m a (load (store buffer 4 (wordBytes little 0)) 0 24)) else some (false, m)
      else none := by
  simp only [listConnections, getClientConnections, tempconOf_eq, hfound]
  by_cases hfit : found.length ≤ xmemDrvrModuleContexts
  swap
  · rw [if_neg hfit, if_neg hfit]
    rfl
  rw [if_pos hfit, if_pos hfit]
  cases found with
  | nil => rfl
  | cons conx conxs =>
    have hsome : ((conx :: conxs).flatMap (connectionBytes little)).take (conx :: conxs).length ≠ [] := by
      rw [← List.length_pos_iff, List.length_take, connectionBytes_length, List.length_cons]
      omega
    simp only [copyToArgument, Option.bind_eq_bind, Option.bind_some, if_neg hsome, List.cons_ne_nil, if_false]
    rfl

theorem listed_linux_iff :
    Listed little s pid a (listConnections .linux little s buffer m a) ↔ Complete little s pid buffer m a .linux := by
  unfold Complete
  set found := connectionsOf s (readWord little buffer 0) with hfound
  set conxs := connectionsOf s pid with hconxs
  have hrun := listConnections_linux (m := m) (a := a) hfound.symm
  rw [Listed, hrun, ← hconxs]
  by_cases hfit : found.length ≤ xmemDrvrModuleContexts
  swap
  · simp [hfit]
  rw [if_pos hfit]
  have hsize : load (store m a (load (store buffer 4 (wordBytes little 0)) 0 24)) (a + 4) 4 = wordBytes little 0 := by
    have hstored : load (store buffer 4 (wordBytes little 0)) 4 (wordBytes little 0).length = wordBytes little 0 :=
      load_store
    rw [load_store_load (by decide), Nat.zero_add]
    rwa [wordBytes_length] at hstored
  constructor
  · rintro ⟨-, hall⟩
    refine ⟨hfit, ?_⟩
    by_cases hmany : xmemDrvrModuleContexts < conxs.length
    · exact .inl hmany
    have hfew := not_lt.mp hmany
    obtain ⟨m', heq, hgot, -⟩ := hall hfew
    by_cases hnone : found = []
    · rw [if_pos hnone] at heq
      obtain rfl := congrArg Prod.snd (Option.some.inj heq)
      rw [hsize] at hgot
      have hlt : conxs.length < 2 ^ 32 := hfew.trans_lt (by decide)
      exact .inr ⟨hnone, List.length_eq_zero_iff.mp ((wordBytes_zero_iff hlt).mp hgot)⟩
    · rw [if_neg hnone] at heq
      exact absurd (congrArg Prod.fst (Option.some.inj heq)) Bool.false_ne_true
  · rintro ⟨-, hmany | ⟨hnone, hempty⟩⟩
    · exact ⟨by split_ifs <;> simp, fun hfew => absurd hmany (not_lt.mpr hfew)⟩
    · rw [if_pos hnone, hempty]
      exact ⟨by simp, fun _ => ⟨_, rfl, hsize, rfl⟩⟩

/-- A listing is complete in exactly the states of `Complete`, whatever the calls before it were. -/
theorem listConnections_listed_iff (system : System) (hpid : readWord little m a = pid) :
    Listed little s pid a (listConnections system little s buffer m a) ↔ Complete little s pid buffer m a system := by
  cases system with
  | lynx => exact listed_lynx_iff hpid
  | linux => exact listed_linux_iff

end Caller

/-- The state after calls that a driver with two modules sees. -/
def afterPidCalls (calls : List (ConnStep × BitVec 32)) : PidArea :=
  (calls.foldlM pidNext (pidStart 2)).getD (pidStart 2)

def oneConnection : List (ConnStep × BitVec 32) := [(.open 1, 7), (.ioctl 1 (.connect ⟨1, 4⟩), 7)]

/-- A process with two files, each connected on both modules. -/
def fourConnections : List (ConnStep × BitVec 32) :=
  [(.open 1, 7), (.open 2, 7), (.ioctl 1 (.connect ⟨1, 4⟩), 7), (.ioctl 1 (.connect ⟨2, 4⟩), 7),
    (.ioctl 2 (.connect ⟨1, 4⟩), 7), (.ioctl 2 (.connect ⟨2, 4⟩), 7)]

/-- The Pid 7 at 0, and at 8 the mask 4 of a first connection. -/
def preparedMemory : Memory := fun i => if i = 0 then 7 else if i = 12 then 4 else 0

theorem listConnections_prepared :
    Listed true (afterPidCalls oneConnection) 7 0
      (listConnections .lynx true (afterPidCalls oneConnection) preparedMemory preparedMemory 0) :=
  (listConnections_listed_iff .lynx (by decide)).mpr ⟨by decide +kernel, by decide +kernel⟩

theorem not_listed_fourConnections :
    ∃ s, Reach pidNext (fun _ _ => True) (pidStart 2) s ∧
      ¬Listed true s 7 0 (listConnections .lynx true s preparedMemory preparedMemory 0) := by
  have hrun : fourConnections.foldlM pidNext (pidStart 2) = some (afterPidCalls fourConnections) := rfl
  have hnone : (listConnections .lynx true (afterPidCalls fourConnections) preparedMemory preparedMemory 0).isNone =
      true := by decide +kernel
  exact ⟨_, Reach.refl.of_foldlM (fun _ _ _ => trivial) hrun,
    fun hlisted => hlisted.1 (Option.isNone_iff_eq_none.mp hnone)⟩

end HtDrivers.Xmem
