import HtDrivers.Skel.RawIoWindow

/-! What raw block transfers move. Behind each full buffer a write copies the buffer from the user that it has just
sent, so its items are late by one buffer; a read of 8 bit items does not move in the module. -/
namespace HtDrivers.Skel
set_option autoImplicit false

/-! ## Statements -/

/-- The items of a request; at least one is transferred. -/
def items (bytesTr : BitVec 32) (size : ℕ) : ℕ := max 1 (bytesTr.toNat / size)

def userItem (user : UserMemory) (size i : ℕ) : List (Option Byte) := (List.range size).map fun b => user (i * size + b)

def Access.moved (a : Access) : IoFunction × BitVec 32 × List (Option Byte) :=
  (a.function, a.address, a.bytes.map some)

/-- `n` items of the user went to or came from their addresses, in order, and nothing else of the user was touched. -/
structure Moved (r : RawIo) (n : ℕ) (user : UserMemory) (s : RawIoState) : Prop where
  inOrder : s.accesses.map Access.moved = (List.range n).map fun i =>
    (r.function, r.mmap + BitVec.ofNat 32 i * r.stride, userItem s.user r.tszby i)
  behind : ∀ b, n * r.tszby ≤ b → s.user b = user b
  copies : ∀ c ∈ s.copies, c.uindx + c.len ≤ n * r.tszby
  kept : r.flag = true → s.user = user

/-- The count is positive as an `int`, the user has the items, those of a write repeat behind the size of the buffer,
and a read of 8 bit items does not move. -/
structure MovesWhen (r : RawIo) (n : ℕ) (user : UserMemory) : Prop where
  count : n < 2^31
  accessible : ∀ b < n * r.tszby, (user b).isSome = true
  repeats : r.flag = true → ∀ i, bufferItems ≤ i → i < n →
    userItem user r.tszby i = userItem user r.tszby (i - bufferItems)
  still : r.flag = false → r.function = .io8 → r.addrIncr = 0 ∨ n = 1

/-! ## Copies -/

section Copies
variable {user : UserMemory} {kbuf : ℕ → Byte} {uindx len b size i : ℕ}

theorem reaches_of_accessible {limit : ℕ} (h : ∀ b < limit, (user b).isSome = true) (hb : uindx + b < limit) :
    Reaches user uindx b := fun _ hc => h _ (by omega)

theorem copyFromUser_eq (hb : b < len) (h : Reaches user uindx b) :
    some (copyFromUser user uindx len kbuf b) = user (uindx + b) := by
  obtain ⟨v, hv⟩ := Option.isSome_iff_exists.mp (h b le_rfl)
  rw [copyFromUser, if_pos hb, if_pos h, hv]
  rfl

theorem copyToUser_eq (h : ∀ b, uindx ≤ b → b < uindx + len → Reaches user uindx (b - uindx)) :
    copyToUser user uindx len kbuf b =
      if uindx ≤ b ∧ b < uindx + len then some (kbuf (b - uindx)) else user b := by
  unfold copyToUser
  apply if_congr _ rfl rfl
  constructor
  · rintro ⟨hlo, hhi, -⟩
    exact ⟨hlo, hhi⟩
  · rintro ⟨hlo, hhi⟩
    exact ⟨hlo, hhi, h b hlo hhi⟩

@[simp] theorem copyToUser_isSome : (copyToUser user uindx len kbuf b).isSome = (user b).isSome := by
  unfold copyToUser
  by_cases hin : uindx ≤ b ∧ b < uindx + len ∧ Reaches user uindx (b - uindx)
  · have hsome := hin.2.2 (b - uindx) le_rfl
    rw [Nat.add_sub_of_le hin.1] at hsome
    rw [if_pos hin, hsome]
    rfl
  · rw [if_neg hin]

end Copies

/-! ## Any run -/

section Runs
variable {r : RawIo} {resp : ℕ → ℕ → Byte} {s : RawIoState} {K i q m n : ℕ} {user : UserMemory} {kbuf : ℕ → Byte}

theorem transferStep_isSome (b : ℕ) : ((transferStep r resp s).user b).isSome = (s.user b).isSome := by
  unfold transferStep flush
  split
  · dsimp only
    split
    · rw [advance, transfer_user]
    · rw [copyToUser_isSome, advance, transfer_user]
  · rw [advance, transfer_user]

theorem run_isSome (r : RawIo) (resp : ℕ → ℕ → Byte) (n : ℕ) (user : UserMemory) (kbuf : ℕ → Byte) (b : ℕ) :
    ((copyRest r (transferLoop r resp n (startState r user kbuf))).user b).isSome = (user b).isSome := by
  have hloop : ((transferLoop r resp n (startState r user kbuf)).user b).isSome = (user b).isSome :=
    transferLoop_induct (P := fun _ s => (s.user b).isSome = (user b).isSome)
      (fun _ _ _ hs => (transferStep_isSome b).trans hs) rfl
  unfold copyRest
  split
  · rw [copyToUser_isSome, hloop]
  · exact hloop

theorem transferStep_user (hflag : r.flag = true) : (transferStep r resp s).user = s.user := by
  unfold transferStep flush
  rw [hflag]
  split <;> exact transfer_user

theorem copyRest_of_flag (hflag : r.flag = true) : copyRest r s = s := by
  unfold copyRest
  rw [hflag]
  exact if_neg fun hread => nomatch hread.1

theorem run_copies (hk : r.ksize = K * r.tszby) (hKn : K ≤ n) (h : At r K n q m s) :
    ∀ c ∈ (copyRest r s).copies, c.uindx + c.len ≤ n * r.tszby := by
  have hfull : q * r.ksize + m * r.tszby = n * r.tszby := by
    rw [hk, h.count]
    ring
  have hfirst : r.ksize ≤ n * r.tszby := by
    rw [hk]
    exact Nat.mul_le_mul_right _ hKn
  have hold : ∀ c ∈ s.copies, c.uindx + c.len ≤ n * r.tszby := by
    intro c hc
    obtain hle | ⟨-, rfl⟩ := h.copies c hc
    · omega
    · show 0 + r.ksize ≤ n * r.tszby
      omega
  unfold copyRest
  split
  · intro c hc
    obtain hc | hc := List.mem_append.mp hc
    · exact hold c hc
    · rw [List.mem_singleton.mp hc, h.uindx, h.kindx]
      exact hfull.le
  · exact hold

end Runs

/-! ## Writes -/

/-- The item of the user that a write sends as item `i`, with `K` items in a buffer. -/
def sentItem (K i : ℕ) : ℕ := if i < K then i else i - K

/-- A write within buffer `q`; the buffer holds what was copied behind the one before. -/
structure WriteAt (r : RawIo) (K i q m : ℕ) (user : UserMemory) (s : RawIoState) : Prop extends At r K i q m s where
  user_eq : s.user = user
  kbuf : ∀ b < r.ksize, some (s.kbuf b) = user ((q - 1) * r.ksize + b)
  moved : s.accesses.map Access.moved = (List.range i).map fun j =>
    (r.function, r.itemAddress j, userItem user r.tszby (sentItem K j))

section Writes
variable {r : RawIo} {resp : ℕ → ℕ → Byte} {s : RawIoState} {K i q m n : ℕ} {user : UserMemory} {kbuf : ℕ → Byte}

theorem sentItem_eq (hm : m < K) : sentItem K (q * K + m) = (q - 1) * K + m := by
  unfold sentItem
  cases q with
  | zero =>
    rw [Nat.zero_mul, Nat.zero_add, if_pos hm]
  | succ q =>
    rw [Nat.succ_mul, Nat.add_sub_cancel, if_neg (by omega)]
    omega

theorem WriteAt.transferred (hsize : r.function.size = r.tszby) (hflag : r.flag = true) (hk : r.ksize = K * r.tszby)
    (h : WriteAt r K i q m user s) :
    (transferred r resp s).map some = userItem user r.tszby (sentItem K i) := by
  have hcount := h.count
  subst hcount
  unfold HtDrivers.Skel.transferred userItem
  rw [List.map_map, hsize, sentItem_eq h.inBuffer, hflag, h.kindx]
  apply List.map_congr_left
  intro b hb
  have hb := List.mem_range.mp hb
  have hin : m * r.tszby + b < r.ksize := by
    rw [hk]
    calc m * r.tszby + b < (m + 1) * r.tszby := by rw [Nat.succ_mul]; omega
      _ ≤ K * r.tszby := Nat.mul_le_mul_right _ h.inBuffer
  have hplace : ((q - 1) * K + m) * r.tszby + b = (q - 1) * r.ksize + (m * r.tszby + b) := by
    rw [hk]
    ring
  rw [hplace, ← h.kbuf _ hin]
  rfl

theorem WriteAt.step (hsize : r.function.size = r.tszby) (hflag : r.flag = true) (hk : r.ksize = K * r.tszby)
    (hby : 0 < r.tszby) (haccessible : ∀ b < n * r.tszby, (user b).isSome = true) (hi : i < n)
    (h : WriteAt r K i q m user s) : ∃ q m, WriteAt r K (i + 1) q m user (transferStep r resp s) := by
  have huser : (transferStep r resp s).user = user := (transferStep_user hflag).trans h.user_eq
  have hmoved : (transferStep r resp s).accesses.map Access.moved = (List.range (i + 1)).map fun j =>
      (r.function, r.itemAddress j, userItem user r.tszby (sentItem K j)) := by
    rw [transferStep, flush_accesses, advance, transfer_accesses h.hskip, List.map_append, h.moved, List.range_succ,
      List.map_append, List.map_singleton, List.map_singleton, Access.moved, h.transferred hsize hflag hk]
  have hkept : (transfer r resp s).kbuf = s.kbuf := by
    unfold transfer
    rw [hflag]
    rfl
  obtain ⟨hlt, hnext⟩ | ⟨heq, hnext⟩ := h.toAt.step resp hk hby
  · refine ⟨q, m + 1, hnext, huser, ?_, hmoved⟩
    have hflush := h.toAt.transferStep_of_lt resp hk hby hlt
    rw [hflush, advance, hkept]
    exact h.kbuf
  · refine ⟨q + 1, 0, hnext, huser, ?_, hmoved⟩
    have hfull := h.toAt.full resp hk heq
    intro b hb
    have hcopied := h.toAt.buffer_le hk heq hi
    rw [transferStep, flush, if_pos hfull]
    simp only [hflag, if_true, advance, transfer_user, transfer_uindx, h.user_eq, h.uindx, Nat.add_sub_cancel]
    exact copyFromUser_eq hb (reaches_of_accessible haccessible (by omega))

/-- A whole write sends the items that its buffers hold. -/
theorem write_moved (hsize : r.function.size = r.tszby) (hflag : r.flag = true) (hk : r.ksize = K * r.tszby)
    (hby : 0 < r.tszby) (hK : 0 < K) (hKn : K ≤ n) (haccessible : ∀ b < n * r.tszby, (user b).isSome = true) :
    (transferLoop r resp n (startState r user kbuf)).accesses.map Access.moved = (List.range n).map fun j =>
      (r.function, r.itemAddress j, userItem user r.tszby (sentItem K j)) := by
  obtain ⟨q, m, h⟩ : ∃ q m, WriteAt r K n q m user (transferLoop r resp n (startState r user kbuf)) := by
    apply transferLoop_induct (P := fun i s => ∃ q m, WriteAt r K i q m user s)
    · intro i s hi hat
      obtain ⟨q, m, hat⟩ := hat
      exact hat.step hsize hflag hk hby haccessible hi
    · refine ⟨0, 0, at_start hK, rfl, fun b hb => ?_, rfl⟩
      have hfirst : r.ksize ≤ n * r.tszby := by
        rw [hk]
        exact Nat.mul_le_mul_right _ hKn
      unfold startState
      rw [hflag]
      simp only [if_true, Nat.zero_sub, Nat.zero_mul]
      exact copyFromUser_eq hb (reaches_of_accessible haccessible (by omega))
  exact h.moved

end Writes

/-! ## Reads -/

/-- Byte `b` of all that a module answers to a read. -/
def answer (resp : ℕ → ℕ → Byte) (size b : ℕ) : Byte := resp (b / size) (b % size)

/-- A read within buffer `q`. -/
structure ReadAt (r : RawIo) (resp : ℕ → ℕ → Byte) (K i q m : ℕ) (user : UserMemory) (s : RawIoState) : Prop
    extends At r K i q m s where
  kbuf : ∀ b < m * r.tszby, s.kbuf b = answer resp r.tszby (q * r.ksize + b)
  user_eq : ∀ b, s.user b = if b < q * r.ksize then some (answer resp r.tszby b) else user b
  moved : s.accesses.map Access.moved = (List.range i).map fun j =>
    (r.function, r.itemAddress j, (List.range r.tszby).map fun b => some (resp j b))

section Reads
variable {r : RawIo} {resp : ℕ → ℕ → Byte} {s : RawIoState} {K i q m n : ℕ} {user : UserMemory} {kbuf : ℕ → Byte}

theorem answer_item {size b : ℕ} (hb : b < size) : answer resp size (i * size + b) = resp i b := by
  unfold answer
  rw [Nat.mul_comm, Nat.mul_add_div (by omega), Nat.div_eq_of_lt hb, Nat.mul_add_mod, Nat.mod_eq_of_lt hb, Nat.add_zero]

/-- The buffer behind an access of a read. -/
theorem ReadAt.transfer_kbuf (hsize : r.function.size = r.tszby) (hflag : r.flag = false) (hk : r.ksize = K * r.tszby)
    (h : ReadAt r resp K i q m user s) (b : ℕ) (hb : b < (m + 1) * r.tszby) :
    (transfer r resp s).kbuf b = answer resp r.tszby (q * r.ksize + b) := by
  have hlength := h.toAt.length
  rw [Nat.succ_mul] at hb
  unfold transfer
  rw [hflag, if_neg Bool.false_ne_true]
  simp only [hlength, hsize, h.kindx]
  by_cases hin : m * r.tszby ≤ b
  · obtain ⟨c, rfl⟩ := Nat.exists_eq_add_of_le hin
    have hplace : q * r.ksize + (m * r.tszby + c) = i * r.tszby + c := by
      rw [hk, h.count]
      ring
    rw [if_pos ⟨hin, hb⟩, Nat.add_sub_cancel_left, hplace, answer_item (by omega)]
  · rw [if_neg (fun hboth => hin hboth.1)]
    exact h.kbuf b (by omega)

theorem ReadAt.reaches {len : ℕ} (haccessible : ∀ b < n * r.tszby, (user b).isSome = true)
    (h : ReadAt r resp K i q m user s) (hlen : q * r.ksize + len ≤ n * r.tszby) :
    ∀ b, q * r.ksize ≤ b → b < q * r.ksize + len → Reaches s.user (q * r.ksize) (b - q * r.ksize) := by
  intro b hlo hhi c hc
  rw [h.user_eq, if_neg (by omega)]
  exact haccessible _ (by omega)

theorem ReadAt.step (hsize : r.function.size = r.tszby) (hflag : r.flag = false) (hk : r.ksize = K * r.tszby)
    (hby : 0 < r.tszby) (haccessible : ∀ b < n * r.tszby, (user b).isSome = true) (hi : i < n)
    (h : ReadAt r resp K i q m user s) : ∃ q m, ReadAt r resp K (i + 1) q m user (transferStep r resp s) := by
  have hlength := h.toAt.length
  have hmoved : (transferStep r resp s).accesses.map Access.moved = (List.range (i + 1)).map fun j =>
      (r.function, r.itemAddress j, (List.range r.tszby).map fun b => some (resp j b)) := by
    rw [transferStep, flush_accesses, advance, transfer_accesses h.hskip, List.map_append, h.moved, List.range_succ,
      List.map_append, List.map_singleton, List.map_singleton, Access.moved, transferred, hflag, hlength, hsize,
      List.map_map]
    rfl
  have hkbuf := h.transfer_kbuf hsize hflag hk
  obtain ⟨hlt, hnext⟩ | ⟨heq, hnext⟩ := h.toAt.step resp hk hby
  · have hflush := h.toAt.transferStep_of_lt resp hk hby hlt
    refine ⟨q, m + 1, hnext, ?_, ?_, hmoved⟩
    · rw [hflush, advance]
      exact hkbuf
    · rw [hflush, advance, transfer_user]
      exact h.user_eq
  · have hfull := h.toAt.full resp hk heq
    refine ⟨q + 1, 0, hnext, fun b hb => absurd hb (by omega), ?_, hmoved⟩
    intro b
    have hcopied := h.toAt.buffer_le hk heq hi
    rw [transferStep, flush, if_pos hfull]
    simp only [hflag, advance, transfer_user, transfer_uindx, h.uindx]
    rw [if_neg Bool.false_ne_true, copyToUser_eq (h.reaches haccessible hcopied), Nat.succ_mul]
    by_cases hb : q * r.ksize ≤ b ∧ b < q * r.ksize + r.ksize
    · have hin : b - q * r.ksize < (m + 1) * r.tszby := by
        rw [heq, ← hk]
        omega
      rw [if_pos hb, if_pos hb.2, hkbuf _ hin, Nat.add_sub_of_le hb.1]
    · rw [if_neg hb, h.user_eq]
      exact if_congr (by omega) rfl rfl

/-- The user behind a read of `n` items. -/
theorem ReadAt.copyRest_user (hflag : r.flag = false) (hk : r.ksize = K * r.tszby)
    (haccessible : ∀ b < n * r.tszby, (user b).isSome = true) (h : ReadAt r resp K n q m user s) (b : ℕ) :
    (copyRest r s).user b = if b < n * r.tszby then some (answer resp r.tszby b) else user b := by
  have hend : q * r.ksize + m * r.tszby = n * r.tszby := by
    rw [hk, h.count]
    ring
  unfold copyRest
  by_cases hrest : s.kindx = 0
  · rw [if_neg (fun hboth => hboth.2 hrest), h.user_eq]
    rw [h.kindx] at hrest
    rw [← hend, hrest, Nat.add_zero]
  · rw [if_pos ⟨hflag, hrest⟩, h.uindx, h.kindx]
    dsimp only
    rw [copyToUser_eq (h.reaches haccessible hend.le), hend]
    by_cases hin : q * r.ksize ≤ b ∧ b < n * r.tszby
    · rw [if_pos hin, if_pos hin.2, h.kbuf _ (by omega), Nat.add_sub_of_le hin.1]
    · rw [if_neg hin, h.user_eq]
      exact if_congr (by omega) rfl rfl

/-- A whole read delivers what the module answers. -/
theorem read_moved (resp : ℕ → ℕ → Byte) (kbuf : ℕ → Byte) (hsize : r.function.size = r.tszby) (hflag : r.flag = false)
    (hk : r.ksize = K * r.tszby) (hby : 0 < r.tszby) (hK : 0 < K)
    (haccessible : ∀ b < n * r.tszby, (user b).isSome = true) :
    ∃ s, copyRest r (transferLoop r resp n (startState r user kbuf)) = s ∧
      (∀ b, s.user b = if b < n * r.tszby then some (answer resp r.tszby b) else user b) ∧
      s.accesses.map Access.moved = (List.range n).map fun j =>
        (r.function, r.itemAddress j, userItem s.user r.tszby j) := by
  obtain ⟨q, m, h⟩ : ∃ q m, ReadAt r resp K n q m user (transferLoop r resp n (startState r user kbuf)) := by
    apply transferLoop_induct (P := fun i s => ∃ q m, ReadAt r resp K i q m user s)
    · intro i s hi hat
      obtain ⟨q, m, hat⟩ := hat
      exact hat.step hsize hflag hk hby haccessible hi
    · refine ⟨0, 0, at_start hK, fun b hb => absurd hb (by omega), fun b => ?_, rfl⟩
      rw [if_neg (by omega)]
      rfl
  have huser := h.copyRest_user hflag hk haccessible
  refine ⟨_, rfl, huser, ?_⟩
  rw [copyRest_accesses, h.moved]
  apply List.map_congr_left
  intro j hj
  have hitem : (j + 1) * r.tszby ≤ n * r.tszby := Nat.mul_le_mul_right _ (List.mem_range.mp hj)
  rw [Nat.succ_mul] at hitem
  have hbytes : (List.range r.tszby).map (fun b => some (resp j b)) =
      userItem (copyRest r (transferLoop r resp n (startState r user kbuf))).user r.tszby j := by
    apply List.map_congr_left
    intro b hb
    have hb := List.mem_range.mp hb
    rw [huser, if_pos (by omega), answer_item hb]
  rw [hbytes]

end Reads

/-! ## The condition -/

section Condition
variable {r : RawIo} {resp : ℕ → ℕ → Byte} {s : RawIoState} {n : ℕ} {user : UserMemory} {kbuf : ℕ → Byte}
  {anyas : InsLibAnyAddressSpace} {riob : SkelDrvrRawIoTransferBlock} {flag : Bool}
  {spaces : Option (List InsLibAnyAddressSpace)} {buffer : Option (ℕ → Byte)}

theorem accessible_of_inOrder {f : IoFunction} {address : ℕ → BitVec 32} {size : ℕ} {accesses : List Access}
    (h : accesses.map Access.moved = (List.range n).map fun i => (f, address i, userItem user size i)) :
    ∀ b < n * size, (user b).isSome = true := by
  intro b hb
  have hsize : 0 < size := Nat.pos_of_mul_pos_left (by omega : 0 < n * size)
  have hitem : b / size < n := Nat.div_lt_of_lt_mul (by rwa [Nat.mul_comm])
  have hmem : (f, address (b / size), userItem user size (b / size)) ∈ accesses.map Access.moved := by
    rw [h]
    exact List.mem_map_of_mem (List.mem_range.mpr hitem)
  obtain ⟨a, -, ha⟩ := List.mem_map.mp hmem
  have hbytes : a.bytes.map some = userItem user size (b / size) := congrArg (fun t => t.2.2) ha
  have hbyte : user b ∈ a.bytes.map some := by
    rw [hbytes]
    refine List.mem_map.mpr ⟨b % size, List.mem_range.mpr (Nat.mod_lt b hsize), ?_⟩
    rw [Nat.mul_comm, Nat.div_add_mod]
  obtain ⟨v, -, hv⟩ := List.mem_map.mp hbyte
  rw [← hv]
  rfl

theorem run_user_of_flag (resp : ℕ → ℕ → Byte) (n : ℕ) (user : UserMemory) (kbuf : ℕ → Byte) (hflag : r.flag = true) :
    (copyRest r (transferLoop r resp n (startState r user kbuf))).user = user := by
  rw [copyRest_of_flag hflag]
  exact transferLoop_induct (P := fun _ s => s.user = user) (fun _ _ _ hs => (transferStep_user hflag).trans hs) rfl

/-- A write moves its items exactly when they repeat behind the size of the buffer. -/
theorem write_inOrder_iff (hsize : r.function.size = r.tszby) (hflag : r.flag = true)
    (hk : r.ksize = min n bufferItems * r.tszby) (hby : 0 < r.tszby) (hn : 0 < n)
    (haccessible : ∀ b < n * r.tszby, (user b).isSome = true) :
    (transferLoop r resp n (startState r user kbuf)).accesses.map Access.moved =
        ((List.range n).map fun i => (r.function, r.mmap + BitVec.ofNat 32 i * r.stride, userItem user r.tszby i)) ↔
      ∀ i, bufferItems ≤ i → i < n → userItem user r.tszby i = userItem user r.tszby (i - bufferItems) := by
  have haddress : ∀ i, r.itemAddress i = r.mmap + BitVec.ofNat 32 i * r.stride := by
    intro i
    unfold RawIo.itemAddress
    rw [hflag]
    exact if_neg fun hread => nomatch hread.1
  have hbuffer : 0 < bufferItems := by decide
  rw [write_moved hsize hflag hk hby (lt_min hn hbuffer) (min_le_left n bufferItems) haccessible, List.map_inj_left]
  simp only [haddress, Prod.mk.injEq, true_and, List.mem_range]
  constructor
  · intro hsent i hi hin
    have hlate : sentItem (min n bufferItems) i = i - bufferItems := by
      unfold sentItem
      rw [min_eq_right (by omega), if_neg (by omega)]
    rw [← hlate, hsent i hin]
  · intro hrepeats i hin
    unfold sentItem
    by_cases hi : bufferItems ≤ i
    · rw [min_eq_right (by omega), if_neg (by omega), hrepeats i hi hin]
    · rw [if_pos (lt_min hin (by omega))]

theorem itemAddress_eq_iff (hsize : r.function.size = r.tszby) (hflag : r.flag = false) :
    (∀ i < n, r.itemAddress i = r.mmap + BitVec.ofNat 32 i * r.stride) ↔
      (r.function = .io8 → r.addrIncr = 0 ∨ n ≤ 1) := by
  unfold RawIo.itemAddress
  rw [hflag]
  by_cases hio8 : r.function = .io8
  · have hone : r.tszby = 1 := by
      rw [← hsize, hio8]
      rfl
    have hstride : r.stride = r.addrIncr := by
      rw [RawIo.stride, hone]
      exact BitVec.mul_one r.addrIncr
    simp only [hio8, true_and, if_true, forall_const, hstride]
    constructor
    · intro haddress
      by_contra hnot
      rw [not_or] at hnot
      have hsecond := haddress 1 (by omega)
      exact hnot.1 (by simpa using hsecond)
    · rintro (hzero | hle) i hi
      · simp [hzero]
      · obtain rfl : i = 0 := by omega
        simp
  · simp [hio8]

/-- A run with as many accesses as items moves them exactly under the condition. -/
theorem moved_iff (hsize : r.function.size = r.tszby) (hk : r.ksize = min n bufferItems * r.tszby)
    (hby : 0 < r.tszby) (hn : 0 < n) (hcount : n < 2^31) :
    Moved r n user (copyRest r (transferLoop r resp n (startState r user kbuf))) ↔ MovesWhen r n user := by
  have hK : 0 < min n bufferItems := lt_min hn (by decide)
  have hcopies : ∀ c ∈ (copyRest r (transferLoop r resp n (startState r user kbuf))).copies,
      c.uindx + c.len ≤ n * r.tszby := by
    obtain ⟨q, m, hat⟩ := transferLoop_at n resp user kbuf hk hby hK
    exact run_copies hk (min_le_left n bufferItems) hat
  have haccessible : Moved r n user (copyRest r (transferLoop r resp n (startState r user kbuf))) →
      ∀ b < n * r.tszby, (user b).isSome = true := by
    intro hmoved b hb
    rw [← run_isSome r resp n user kbuf b]
    exact accessible_of_inOrder hmoved.inOrder b hb
  cases hflag : r.flag with
  | true =>
    have huser := run_user_of_flag resp n user kbuf hflag
    constructor
    · intro hmoved
      have hacc := haccessible hmoved
      have hinOrder := hmoved.inOrder
      rw [huser, copyRest_accesses] at hinOrder
      refine ⟨hcount, hacc, fun _ => (write_inOrder_iff hsize hflag hk hby hn hacc).mp hinOrder, ?_⟩
      rw [hflag]
      exact nofun
    · intro hwhen
      refine ⟨?_, fun b _ => by rw [huser], hcopies, fun _ => huser⟩
      rw [huser, copyRest_accesses]
      exact (write_inOrder_iff hsize hflag hk hby hn hwhen.accessible).mpr (hwhen.repeats hflag)
  | false =>
    have hone : (r.function = .io8 → r.addrIncr = 0 ∨ n ≤ 1) ↔ (r.function = .io8 → r.addrIncr = 0 ∨ n = 1) := by
      rw [show n ≤ 1 ↔ n = 1 by omega]
    constructor
    · intro hmoved
      have hacc := haccessible hmoved
      obtain ⟨s, hs, -, hread⟩ := read_moved resp kbuf hsize hflag hk hby hK hacc
      have hinOrder := hmoved.inOrder
      rw [hs, hread, List.map_inj_left] at hinOrder
      refine ⟨hcount, hacc, ?_, fun _ => hone.mp ((itemAddress_eq_iff hsize hflag).mp fun i hi => ?_)⟩
      · rw [hflag]
        exact nofun
      · exact congrArg (fun t => t.2.1) (hinOrder i (List.mem_range.mpr hi))
    · intro hwhen
      obtain ⟨s, hs, huser, hread⟩ := read_moved resp kbuf hsize hflag hk hby hK hwhen.accessible
      have haddress := (itemAddress_eq_iff hsize hflag).mpr (hone.mpr (hwhen.still hflag))
      rw [hs] at hcopies ⊢
      refine ⟨?_, fun b hb => ?_, hcopies, ?_⟩
      · rw [hread]
        apply List.map_congr_left
        intro i hi
        rw [haddress i (List.mem_range.mp hi)]
      · rw [huser, if_neg (by omega)]
      · rw [hflag]
        exact nofun

theorem transfers_eq_items (tszby : ℕ) (h : items riob.bytesTr tszby < 2^31) :
    transfers riob.bytesTr tszby = items riob.bytesTr tszby := by
  unfold items transfers at *
  generalize riob.bytesTr.toNat / tszby = tremg at *
  dsimp only
  by_cases hone : tremg = 0 ∨ 2^31 ≤ tremg
  · rw [if_pos hone]
    omega
  · rw [if_neg hone]
    omega

theorem transfers_eq_one (tszby : ℕ) (h : 2^31 ≤ items riob.bytesTr tszby) : transfers riob.bytesTr tszby = 1 := by
  unfold items transfers at *
  generalize riob.bytesTr.toNat / tszby = tremg at *
  dsimp only
  exact if_pos (by omega)

theorem function_size (flag : Bool) (h : itemBits anyas riob ∈ [8, 16, 32]) :
    (rawIo anyas riob flag).function.size = (rawIo anyas riob flag).tszby := by
  have hbits : (rawIo anyas riob flag).tszbt = itemBits anyas riob := rfl
  have hbytes : (rawIo anyas riob flag).tszby = itemBits anyas riob / 8 := rfl
  unfold RawIo.function ioFunction
  rw [hbits, hbytes]
  obtain h | h | h : itemBits anyas riob = 8 ∨ itemBits anyas riob = 16 ∨ itemBits anyas riob = 32 := by
    simpa using h
  · rw [h]
    rfl
  · rw [h, if_pos rfl]
    split <;> rfl
  · rw [h, if_neg (by decide), if_pos rfl]
    split <;> rfl

theorem rawIoBlock_ok (hspace : insLibGetAddressSpace spaces riob.spaceNumber = some anyas)
    (hrun : rawIoBlock spaces buffer resp user riob flag = .ok s) :
    ∃ kbuf, copyRest (rawIo anyas riob flag) (transferLoop (rawIo anyas riob flag) resp
      (transfers riob.bytesTr (rawIo anyas riob flag).tszby) (startState (rawIo anyas riob flag) user kbuf)) = s := by
  unfold rawIoBlock at hrun
  rw [hspace] at hrun
  dsimp only at hrun
  by_cases hoffset : anyas.windowSize ≠ 0 ∧ anyas.windowSize ≤ riob.offset
  · rw [if_pos hoffset] at hrun
    cases hrun
  · rw [if_neg hoffset] at hrun
    by_cases hbits : (rawIo anyas riob flag).tszby = 0
    · rw [if_pos hbits] at hrun
      cases hrun
    · rw [if_neg hbits] at hrun
      cases buffer with
      | none => cases hrun
      | some kbuf => exact ⟨kbuf, Except.ok.inj hrun⟩

/-- A transfer that succeeds moves its items exactly under the condition. -/
theorem rawIoBlock_moves_iff (hspace : insLibGetAddressSpace spaces riob.spaceNumber = some anyas)
    (hbits : itemBits anyas riob ∈ [8, 16, 32]) (hrun : rawIoBlock spaces buffer resp user riob flag = .ok s) :
    Moved (rawIo anyas riob flag) (items riob.bytesTr (rawIo anyas riob flag).tszby) user s ↔
      MovesWhen (rawIo anyas riob flag) (items riob.bytesTr (rawIo anyas riob flag).tszby) user := by
  obtain ⟨kbuf, rfl⟩ := rawIoBlock_ok hspace hrun
  have hsize := function_size flag hbits
  have hby : 0 < (rawIo anyas riob flag).tszby := by
    rw [← hsize]
    cases (rawIo anyas riob flag).function <;> decide
  have hksize : (rawIo anyas riob flag).ksize =
      min (transfers riob.bytesTr (rawIo anyas riob flag).tszby) bufferItems * (rawIo anyas riob flag).tszby := rfl
  by_cases hcount : items riob.bytesTr (rawIo anyas riob flag).tszby < 2^31
  · rw [transfers_eq_items _ hcount] at hksize ⊢
    exact moved_iff hsize hksize hby (lt_of_lt_of_le Nat.one_pos (le_max_left _ _)) hcount
  · refine iff_of_false (fun hmoved => ?_) (fun hwhen => hcount hwhen.count)
    rw [transfers_eq_one _ (not_lt.mp hcount)] at hksize hmoved
    obtain ⟨q, m, hat⟩ := transferLoop_at 1 resp user kbuf hksize hby (by decide)
    have hone := congrArg List.length hat.targets
    have hall := congrArg List.length hmoved.inOrder
    rw [copyRest_accesses, List.length_map, List.length_map, List.length_range] at hall
    rw [List.length_map, List.length_map, List.length_range] at hone
    omega

end Condition

/-- A read of 1500 items, which come in two buffers. -/
theorem rawIoBlock_moves_twoBuffers : ∃ s, rawIoBlock (some [twoPages]) (some fun _ => 0) (fun k b => (k + b : ℕ))
    (fun _ => some 7) (fromStart 0 6000) false = .ok s ∧
    Moved (rawIo twoPages (fromStart 0 6000) false) 1500 (fun _ => some 7) s := by
  obtain ⟨s, hrun⟩ : ∃ s, rawIoBlock (some [twoPages]) (some fun _ => 0) (fun k b => (k + b : ℕ)) (fun _ => some 7)
      (fromStart 0 6000) false = .ok s := ⟨_, rfl⟩
  have hspace : insLibGetAddressSpace (some [twoPages]) (fromStart 0 6000).spaceNumber = some twoPages := rfl
  have hwhen : MovesWhen (rawIo twoPages (fromStart 0 6000) false)
      (items (fromStart 0 6000).bytesTr (rawIo twoPages (fromStart 0 6000) false).tszby) fun _ => some 7 :=
    ⟨by decide, fun _ _ => rfl, nofun, fun _ hbytes => absurd hbytes (by decide)⟩
  exact ⟨s, hrun, (rawIoBlock_moves_iff hspace (by decide) hrun).mpr hwhen⟩

/-- A read of two items of 8 bits gets both from the first address. -/
theorem read_two_bytes : ¬ ∀ (spaces : Option (List InsLibAnyAddressSpace)) (buffer : Option (ℕ → Byte))
    (resp : ℕ → ℕ → Byte) (user : UserMemory) (riob : SkelDrvrRawIoTransferBlock) (flag : Bool)
    (anyas : InsLibAnyAddressSpace) (s : RawIoState),
    insLibGetAddressSpace spaces riob.spaceNumber = some anyas → itemBits anyas riob ∈ [8, 16, 32] →
      (∀ b, (user b).isSome = true) → rawIoBlock spaces buffer resp user riob flag = .ok s →
      Moved (rawIo anyas riob flag) (items riob.bytesTr (rawIo anyas riob flag).tszby) user s := by
  intro h
  have hmoved := h (some [fourBytes]) (some fun _ => 0) (fun _ _ => 0) (fun _ => some 0)
    (fromStart 8 2) false fourBytes _
    rfl (by decide) (fun _ => rfl) rfl
  have hwhen := (moved_iff (r := rawIo fourBytes (fromStart 8 2) false) (n := 2) rfl rfl (by decide) (by decide)
    (by decide)).mp hmoved
  exact absurd (hwhen.still rfl rfl) (by decide)

end HtDrivers.Skel
