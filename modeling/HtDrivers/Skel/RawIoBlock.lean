import Mathlib.Tactic

/-! Raw block transfers of the driver skeleton (`RawIoBlock` in `skeldrvr.c`): items move between the memory of the
user and the module, through a buffer of the kernel that holds 1024 of them. Addresses have 32 bits, and bytes of
the user are counted from the start of the data. -/
namespace HtDrivers.Skel
set_option autoImplicit false

/-! ## The model -/

abbrev Byte := BitVec 8

structure InsLibAnyAddressSpace where
  mapped : BitVec 32
  spaceNumber : BitVec 32
  windowSize : BitVec 32
  dataWidth : BitVec 32
  big : Bool
  /-- The width is not negative as an `int`. -/
  dataWidth_lt : dataWidth.toNat < 2^31

structure SkelDrvrRawIoTransferBlock where
  spaceNumber : BitVec 32
  offset : BitVec 32
  dataWidth : BitVec 32
  addrIncr : BitVec 32
  bytesTr : BitVec 32

/-- The spaces are missing for a module without an address. -/
def getAddrSpace (spaces : Option (List InsLibAnyAddressSpace)) (spaceNumber datawidth : BitVec 32) :
    Option InsLibAnyAddressSpace :=
  (spaces.getD []).find? fun anyas =>
    anyas.spaceNumber = spaceNumber ∧ (datawidth = 0 ∨ anyas.dataWidth = datawidth)

def insLibGetAddressSpace (spaces : Option (List InsLibAnyAddressSpace)) (spaceNumber : BitVec 32) :
    Option InsLibAnyAddressSpace :=
  getAddrSpace spaces spaceNumber 0

/-- The reads and writes of one item, which end in `8`, `16be` and so on in the source. -/
inductive IoFunction
  | io8 | io16be | io16le | io32be | io32le
deriving DecidableEq

def IoFunction.size : IoFunction → ℕ
  | io8 => 1
  | io16be | io16le => 2
  | io32be | io32le => 4

def ioFunction (tszbt : ℕ) (bendf : Bool) : IoFunction :=
  if tszbt = 16 then if bendf then .io16be else .io16le
  else if tszbt = 32 then if bendf then .io32be else .io32le
  else .io8

/-- One access to the module, with the bytes of its value as the processor keeps them. -/
structure Access where
  function : IoFunction
  address : BitVec 32
  bytes : List Byte

structure UserCopy where
  uindx : ℕ
  len : ℕ

/-- The bytes of the user; some cannot be accessed. -/
abbrev UserMemory := ℕ → Option Byte

/-- A copy at `uindx` gets to its byte `b`. -/
def Reaches (user : UserMemory) (uindx b : ℕ) : Prop := ∀ c ≤ b, (user (uindx + c)).isSome = true

instance (user : UserMemory) (uindx b : ℕ) : Decidable (Reaches user uindx b) := Nat.decidableBallLE _ _

/-- What is not copied is filled up with zeros. -/
def copyFromUser (user : UserMemory) (uindx len : ℕ) (kbuf : ℕ → Byte) : ℕ → Byte := fun b =>
  if b < len then if Reaches user uindx b then (user (uindx + b)).getD 0 else 0 else kbuf b

def copyToUser (user : UserMemory) (uindx len : ℕ) (kbuf : ℕ → Byte) : UserMemory := fun b =>
  if uindx ≤ b ∧ b < uindx + len ∧ Reaches user uindx (b - uindx) then some (kbuf (b - uindx)) else user b

/-- The variables that do not change in the loop; `flag` is set for a write. -/
structure RawIo where
  flag : Bool
  tszbt : ℕ
  tszby : ℕ
  ksize : ℕ
  addrIncr : BitVec 32
  mmap : BitVec 32
  bendf : Bool

/-- The variables that do, with the accesses and the copies so far. -/
structure RawIoState where
  kbuf : ℕ → Byte
  user : UserMemory
  uindx : ℕ
  kindx : ℕ
  hskip : BitVec 32
  accesses : List Access
  copies : List UserCopy

section Loop
variable (r : RawIo) (resp : ℕ → ℕ → Byte) (s : RawIoState)

def RawIo.function : IoFunction := ioFunction r.tszbt r.bendf

/-- One access; the module answers the access of number `i` with the bytes `resp i`. -/
def transfer : RawIoState :=
  let mp := r.mmap + s.hskip
  if r.flag then
    { s with
      accesses := s.accesses ++ [⟨r.function, mp, (List.range r.function.size).map fun b => s.kbuf (s.kindx + b)⟩] }
  else
    -- the read of 8 bits is at `mmap`
    let address := if r.function = .io8 then r.mmap else mp
    let value := resp s.accesses.length
    { s with
      kbuf := fun b => if s.kindx ≤ b ∧ b < s.kindx + r.function.size then value (b - s.kindx) else s.kbuf b
      accesses := s.accesses ++ [⟨r.function, address, (List.range r.function.size).map value⟩] }

def advance : RawIoState :=
  { s with hskip := s.hskip + r.addrIncr * BitVec.ofNat 32 r.tszby, kindx := s.kindx + r.tszby }

def flush : RawIoState :=
  if r.ksize ≤ s.kindx then
    { s with
      kbuf := if r.flag then copyFromUser s.user s.uindx r.ksize s.kbuf else s.kbuf
      user := if r.flag then s.user else copyToUser s.user s.uindx r.ksize s.kbuf
      uindx := s.uindx + r.ksize
      kindx := 0
      copies := s.copies ++ [⟨s.uindx, r.ksize⟩] }
  else s

def transferStep : RawIoState := flush r (advance r (transfer r resp s))

def transferLoop : ℕ → RawIoState → RawIoState
  | 0, s => s
  | tremg + 1, s => transferLoop tremg (transferStep r resp s)

/-- What is left in the buffer behind the loop of a read. -/
def copyRest : RawIoState :=
  if r.flag = false ∧ s.kindx ≠ 0 then
    { s with
      user := copyToUser s.user s.uindx s.kindx s.kbuf
      copies := s.copies ++ [⟨s.uindx, s.kindx⟩] }
  else s

def startState (user : UserMemory) (kbuf : ℕ → Byte) : RawIoState where
  kbuf := if r.flag then copyFromUser user 0 r.ksize kbuf else kbuf
  user := user
  uindx := 0
  kindx := 0
  hskip := 0
  accesses := []
  copies := if r.flag then [⟨0, r.ksize⟩] else []

end Loop

/-- The failures of the call, and the division by an item size of 0 bytes. -/
inductive RawIoError
  | enxio | einval | enomem | divideByZero
deriving DecidableEq

/-- `tszbt`: the bits of one item. -/
def itemBits (anyas : InsLibAnyAddressSpace) (riob : SkelDrvrRawIoTransferBlock) : ℕ :=
  if riob.dataWidth &&& 0x3F = 0 then anyas.dataWidth.toNat else (riob.dataWidth &&& 0x3F).toNat

/-- The first value of `tremg`, from a quotient without a sign. -/
def transfers (bytesTr : BitVec 32) (tszby : ℕ) : ℕ :=
  let tremg := bytesTr.toNat / tszby
  if tremg = 0 ∨ 2^31 ≤ tremg then 1 else tremg

/-- `TRANSFERS`. -/
def bufferItems : ℕ := 1024

def rawIo (anyas : InsLibAnyAddressSpace) (riob : SkelDrvrRawIoTransferBlock) (flag : Bool) : RawIo where
  flag := flag
  tszbt := itemBits anyas riob
  tszby := itemBits anyas riob / 8
  ksize := min (transfers riob.bytesTr (itemBits anyas riob / 8)) bufferItems * (itemBits anyas riob / 8)
  addrIncr := riob.addrIncr
  mmap := anyas.mapped + riob.offset
  bendf := anyas.big

/-- `kbuf` is the memory that `sysbrk` gives, when it gives any. -/
def rawIoBlock (spaces : Option (List InsLibAnyAddressSpace)) (kbuf : Option (ℕ → Byte)) (resp : ℕ → ℕ → Byte)
    (user : UserMemory) (riob : SkelDrvrRawIoTransferBlock) (flag : Bool) : Except RawIoError RawIoState :=
  match insLibGetAddressSpace spaces riob.spaceNumber with
  | none => .error .enxio
  | some anyas =>
    if anyas.windowSize ≠ 0 ∧ anyas.windowSize ≤ riob.offset then .error .einval
    else
      let r := rawIo anyas riob flag
      if r.tszby = 0 then .error .divideByZero
      else match kbuf with
        | none => .error .enomem
        | some kbuf => .ok (copyRest r (transferLoop r resp (transfers riob.bytesTr r.tszby) (startState r user kbuf)))

/-! ## The course of the loop -/

/-- What the module address moves by from one item to the next. -/
def RawIo.stride (r : RawIo) : BitVec 32 := r.addrIncr * BitVec.ofNat 32 r.tszby

/-- Where the access of item `i` goes. -/
def RawIo.itemAddress (r : RawIo) (i : ℕ) : BitVec 32 :=
  if r.flag = false ∧ r.function = .io8 then r.mmap else r.mmap + BitVec.ofNat 32 i * r.stride

def Access.target (a : Access) : IoFunction × BitVec 32 := (a.function, a.address)

/-- `i` items are done: `q` buffers of `K`, and `m` items of the next one. -/
structure At (r : RawIo) (K i q m : ℕ) (s : RawIoState) : Prop where
  count : i = q * K + m
  inBuffer : m < K
  kindx : s.kindx = m * r.tszby
  uindx : s.uindx = q * r.ksize
  hskip : s.hskip = BitVec.ofNat 32 i * r.stride
  targets : s.accesses.map Access.target = (List.range i).map fun j => (r.function, r.itemAddress j)
  copies : ∀ c ∈ s.copies, c.uindx + c.len ≤ q * r.ksize ∨ r.flag = true ∧ c = ⟨0, r.ksize⟩

section Course
variable {r : RawIo} {resp : ℕ → ℕ → Byte} {s : RawIoState} {K i q m n : ℕ}

theorem transferLoop_induct {P : ℕ → RawIoState → Prop}
    (hstep : ∀ i s, i < n → P i s → P (i + 1) (transferStep r resp s)) (h : P 0 s) : P n (transferLoop r resp n s) := by
  have hrun : ∀ k i s, i + k = n → P i s → P n (transferLoop r resp k s) := by
    intro k
    induction k with
    | zero =>
      intro i s hi hp
      rw [Nat.add_zero] at hi
      rw [transferLoop, ← hi]
      exact hp
    | succ k ih =>
      intro i s hi hp
      rw [transferLoop]
      exact ih (i + 1) _ (by omega) (hstep i s (by omega) hp)
  exact hrun n 0 s (Nat.zero_add n) h

section Fields

@[simp] theorem transfer_user : (transfer r resp s).user = s.user := by
  unfold transfer
  split <;> rfl

@[simp] theorem transfer_uindx : (transfer r resp s).uindx = s.uindx := by
  unfold transfer
  split <;> rfl

@[simp] theorem transfer_kindx : (transfer r resp s).kindx = s.kindx := by
  unfold transfer
  split <;> rfl

@[simp] theorem transfer_hskip : (transfer r resp s).hskip = s.hskip := by
  unfold transfer
  split <;> rfl

@[simp] theorem transfer_copies : (transfer r resp s).copies = s.copies := by
  unfold transfer
  split <;> rfl

end Fields

/-- The bytes of the next access. -/
def transferred (r : RawIo) (resp : ℕ → ℕ → Byte) (s : RawIoState) : List Byte :=
  (List.range r.function.size).map fun b => if r.flag then s.kbuf (s.kindx + b) else resp s.accesses.length b

theorem transfer_accesses (h : s.hskip = BitVec.ofNat 32 i * r.stride) :
    (transfer r resp s).accesses = s.accesses ++ [⟨r.function, r.itemAddress i, transferred r resp s⟩] := by
  unfold transfer RawIo.itemAddress transferred
  cases hflag : r.flag with
  | true =>
    have hread : ¬ (true = false ∧ r.function = .io8) := fun hread => nomatch hread.1
    rw [if_pos rfl, if_neg hread, h]
    rfl
  | false =>
    rw [if_neg Bool.false_ne_true, h]
    simp only [true_and]
    rfl

theorem transfer_targets (h : s.hskip = BitVec.ofNat 32 i * r.stride) :
    (transfer r resp s).accesses.map Access.target =
      s.accesses.map Access.target ++ [(r.function, r.itemAddress i)] := by
  rw [transfer_accesses h, List.map_append]
  rfl

theorem flush_of_lt (h : s.kindx < r.ksize) : flush r s = s := if_neg (not_le.mpr h)

@[simp] theorem flush_accesses : (flush r s).accesses = s.accesses := by
  unfold flush
  split <;> rfl

@[simp] theorem flush_hskip : (flush r s).hskip = s.hskip := by
  unfold flush
  split <;> rfl

theorem At.advance_kindx (h : At r K i q m s) : (advance r (transfer r resp s)).kindx = (m + 1) * r.tszby := by
  rw [advance, transfer_kindx, h.kindx, Nat.succ_mul]

/-- Nothing is copied before the last item of a buffer. -/
theorem At.transferStep_of_lt (resp : ℕ → ℕ → Byte) (hk : r.ksize = K * r.tszby) (hby : 0 < r.tszby)
    (h : At r K i q m s) (hlt : m + 1 < K) : transferStep r resp s = advance r (transfer r resp s) := by
  apply flush_of_lt
  rw [h.advance_kindx, hk]
  exact Nat.mul_lt_mul_of_pos_right hlt hby

theorem At.full (resp : ℕ → ℕ → Byte) (hk : r.ksize = K * r.tszby) (h : At r K i q m s) (heq : m + 1 = K) :
    r.ksize ≤ (advance r (transfer r resp s)).kindx := by
  rw [h.advance_kindx, hk, heq]

theorem At.length (h : At r K i q m s) : s.accesses.length = i := by
  rw [← List.length_map (f := Access.target), h.targets, List.length_map, List.length_range]

/-- A full buffer is within the items. -/
theorem At.buffer_le (hk : r.ksize = K * r.tszby) (h : At r K i q m s) (heq : m + 1 = K) (hi : i < n) :
    q * r.ksize + r.ksize ≤ n * r.tszby := by
  have hcount := h.count
  have hbuffers : (q + 1) * K ≤ n := by
    rw [Nat.succ_mul]
    omega
  calc q * r.ksize + r.ksize = (q + 1) * K * r.tszby := by rw [hk]; ring
    _ ≤ n * r.tszby := Nat.mul_le_mul_right _ hbuffers

/-- One step ends in the same buffer or at the start of the next. -/
theorem At.step (resp : ℕ → ℕ → Byte) (hk : r.ksize = K * r.tszby) (hby : 0 < r.tszby) (h : At r K i q m s) :
    (m + 1 < K ∧ At r K (i + 1) q (m + 1) (transferStep r resp s)) ∨
      (m + 1 = K ∧ At r K (i + 1) (q + 1) 0 (transferStep r resp s)) := by
  have hcount := h.count
  have hhskip : (transferStep r resp s).hskip = BitVec.ofNat 32 (i + 1) * r.stride := by
    rw [transferStep, flush_hskip, advance, transfer_hskip, h.hskip, BitVec.ofNat_add, BitVec.add_mul, BitVec.one_mul]
    rfl
  have htargets : (transferStep r resp s).accesses.map Access.target =
      (List.range (i + 1)).map fun j => (r.function, r.itemAddress j) := by
    rw [transferStep, flush_accesses, advance, transfer_targets h.hskip, h.targets, List.range_succ, List.map_append,
      List.map_singleton]
  obtain hlt | heq : m + 1 < K ∨ m + 1 = K := Nat.lt_or_eq_of_le h.inBuffer
  · have hflush := h.transferStep_of_lt resp hk hby hlt
    refine .inl ⟨hlt, ⟨by omega, hlt, ?_, ?_, hhskip, htargets, ?_⟩⟩
    · rw [hflush, h.advance_kindx]
    · rw [hflush, advance, transfer_uindx, h.uindx]
    · rw [hflush, advance, transfer_copies]
      exact h.copies
  · have hfull := h.full resp hk heq
    refine .inr ⟨heq, ⟨?_, by omega, ?_, ?_, hhskip, htargets, ?_⟩⟩
    · rw [Nat.succ_mul]
      omega
    · rw [transferStep, flush, if_pos hfull, Nat.zero_mul]
    · rw [transferStep, flush, if_pos hfull, advance, transfer_uindx, h.uindx, Nat.succ_mul]
    · rw [transferStep, flush, if_pos hfull, advance, transfer_copies, transfer_uindx, h.uindx]
      intro c hc
      rw [Nat.succ_mul]
      obtain hold | hnew := List.mem_append.mp hc
      · obtain hle | hfirst := h.copies c hold
        · exact .inl (by omega)
        · exact .inr hfirst
      · rw [List.mem_singleton.mp hnew]
        exact .inl le_rfl

theorem at_start {user : UserMemory} {kbuf : ℕ → Byte} (hK : 0 < K) : At r K 0 0 0 (startState r user kbuf) where
  count := by omega
  inBuffer := hK
  kindx := by rw [startState, Nat.zero_mul]
  uindx := by rw [startState, Nat.zero_mul]
  hskip := by simp [startState]
  targets := rfl
  copies := by
    intro c hc
    unfold startState at hc
    cases hflag : r.flag with
    | true =>
      rw [hflag] at hc
      exact .inr ⟨rfl, List.mem_singleton.mp hc⟩
    | false =>
      rw [hflag] at hc
      cases hc

/-- The whole loop makes `n` accesses, to the addresses of the items. -/
theorem transferLoop_at (n : ℕ) (resp : ℕ → ℕ → Byte) (user : UserMemory) (kbuf : ℕ → Byte) (hk : r.ksize = K * r.tszby)
    (hby : 0 < r.tszby) (hK : 0 < K) : ∃ q m, At r K n q m (transferLoop r resp n (startState r user kbuf)) := by
  apply transferLoop_induct (P := fun i s => ∃ q m, At r K i q m s)
  · intro i s _ hat
    obtain ⟨q, m, hat⟩ := hat
    obtain ⟨-, hnext⟩ | ⟨-, hnext⟩ := hat.step resp hk hby
    · exact ⟨_, _, hnext⟩
    · exact ⟨_, _, hnext⟩
  · exact ⟨0, 0, at_start hK⟩

@[simp] theorem copyRest_accesses : (copyRest r s).accesses = s.accesses := by
  unfold copyRest
  split <;> rfl

end Course

end HtDrivers.Skel
