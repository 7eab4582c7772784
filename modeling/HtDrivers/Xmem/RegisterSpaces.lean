import HtDrivers.Lib.ByteMemory
import HtDrivers.Xmem.SegmentCopy

/-! The registers and the SDRAM of a module as its `CONFIG`, `LOCAL`, `RFM` and `RAW` ioctls access them (`xmemDrvr.c`).
The accesses to the hardware succeed. -/
namespace HtDrivers.Xmem
open HtDrivers.Lib.ByteMemory
set_option autoImplicit false

/-! ## Accesses of the host -/

/-- The byte order of the processor, and whether the accessors of its system store the lowest byte first. -/
structure HostOrder where
  little : Bool
  lowFirst : Bool

/-- Bytes given low one first, in the order that is asked for. -/
def ordered (low : Bool) (bs : List Byte) : List Byte := if low then bs else bs.reverse

inductive XmemDrvrSize
  | byte
  | word
  | long
deriving DecidableEq

def XmemDrvrSize.bytes : XmemDrvrSize → ℕ
  | .byte => 1
  | .word => 2
  | .long => 4

section Accesses
variable (h : HostOrder) (m : Memory) (a : ℕ) (size : XmemDrvrSize)

/-- `cdcm_cpu_to_le` and `cdcm_le_to_cpu`; one byte stays as it is. -/
def cpuToLe (v : ℕ) : ℕ := valueOf (ordered h.little (bytesOf size.bytes v))

/-- `cdcm_iowrite8`, `cdcm_iowrite16le` and `cdcm_iowrite32le`. -/
def cdcmIowriteLe (v : BitVec 32) : Memory :=
  store m a (ordered h.lowFirst (bytesOf size.bytes (cpuToLe h size v.toNat)))

def cdcmIoreadLe : BitVec 32 :=
  BitVec.ofNat 32 (cpuToLe h size (valueOf (ordered h.lowFirst (load m a size.bytes))))

end Accesses

/-! ## The spaces of a module -/

inductive Space
  | plxConfig
  | plxLocal
  | rfm
  | sdRam
deriving DecidableEq

structure SpaceModule where
  memory : Space → Memory
  configOpen : Bool
  localOpen : Bool
  rfmOpen : Bool
  rawOpen : Bool

def SpaceModule.setMemory (mcon : SpaceModule) (space : Space) (m : Memory) : SpaceModule :=
  { mcon with memory := Function.update mcon.memory space m }

/-- `UserArray` is `none` when it is `NULL`, and has the words that can be accessed behind it. -/
structure XmemDrvrRawIoBlock where
  items : ℕ
  size : XmemDrvrSize
  offset : BitVec 32
  userArray : Option (List (BitVec 32))

section Accesses
variable (h : HostOrder) (mcon : SpaceModule)

/-- Both directions for one value; `m` is the memory of the local registers. -/
def drmLocalReadWrite (addr : BitVec 32) (value : BitVec 32) (size : XmemDrvrSize) (flag : XmemDrvrIoDir) :
    SpaceModule × BitVec 32 :=
  match flag with
  | .write => (mcon.setMemory .plxLocal (cdcmIowriteLe h (mcon.memory .plxLocal) addr.toNat size value), value)
  | .read => (mcon, cdcmIoreadLe h (mcon.memory .plxLocal) addr.toNat size)

/-- The registers of the configuration are little-endian, and `regval` has the order of the host. -/
def drmDeviceRead (regnum : ℕ) : ℕ := valueOf (load (mcon.memory .plxConfig) (regnum * 4) 4)

def drmDeviceWrite (regnum regval : ℕ) : SpaceModule :=
  mcon.setMemory .plxConfig (store (mcon.memory .plxConfig) (regnum * 4) (bytesOf 4 regval))

/-- The element of `cptr` or of `sptr`. -/
def laneOf (addr : BitVec 32) : XmemDrvrSize → ℕ
  | .byte => (if h.little then addr &&& 3 else ~~~addr &&& 3).toNat
  | .word => (if h.little then (addr >>> 1) &&& 1 else (~~~addr >>> 1) &&& 1).toNat
  | .long => 0

/-- The bytes `k`, … of `regval` in memory. -/
def laneValue (regval k : ℕ) (size : XmemDrvrSize) : ℕ :=
  valueOf (ordered h.little (((ordered h.little (bytesOf 4 regval)).drop k).take size.bytes))

def setLane (regval k : ℕ) (size : XmemDrvrSize) (v : ℕ) : ℕ :=
  let regs := ordered h.little (bytesOf 4 regval)
  valueOf (ordered h.little (regs.take k ++ ordered h.little (bytesOf size.bytes v) ++ regs.drop (k + size.bytes)))

def drmConfigReadWrite (addr : BitVec 32) (value : BitVec 32) (size : XmemDrvrSize) (flag : XmemDrvrIoDir) :
    SpaceModule × BitVec 32 :=
  let regnum := (addr >>> 2).toNat
  let regval := drmDeviceRead mcon regnum
  let k := laneOf h addr size * size.bytes
  match flag with
  | .write => (drmDeviceWrite mcon regnum (setLane h regval k size value.toNat), value)
  | .read => (mcon, BitVec.ofNat 32 (laneValue h regval k size))

/-- The loop of `RfmIo` from the offset `offs` on. -/
def rfmItems (size : XmemDrvrSize) (flag : XmemDrvrIoDir) :
    Memory → BitVec 32 → List (BitVec 32) → Memory × List (BitVec 32)
  | m, _, [] => (m, [])
  | m, offs, u :: us =>
    match flag with
    | .write =>
      let rest := rfmItems size flag (cdcmIowriteLe h m offs.toNat size u) (offs + BitVec.ofNat 32 size.bytes) us
      (rest.1, u :: rest.2)
    | .read =>
      let rest := rfmItems size flag m (offs + BitVec.ofNat 32 size.bytes) us
      (rest.1, cdcmIoreadLe h m offs.toNat size :: rest.2)

/-- `if (itms == 0) itms = 1`. -/
def itemsOf (riob : XmemDrvrRawIoBlock) : ℕ := if riob.items = 0 then 1 else riob.items

def rfmIo (riob : XmemDrvrRawIoBlock) (uary : List (BitVec 32)) (flag : XmemDrvrIoDir) :
    SpaceModule × List (BitVec 32) :=
  let done := rfmItems h riob.size flag (mcon.memory .rfm) riob.offset (uary.take (itemsOf riob))
  (mcon.setMemory .rfm done.1, done.2 ++ uary.drop (itemsOf riob))

/-- `LongCopyToXmem` and `LongCopyFromXmem` go over words, whatever the size of the block says. -/
def rawIo (riob : XmemDrvrRawIoBlock) (uary : List (BitVec 32)) (flag : XmemDrvrIoDir) :
    SpaceModule × List (BitVec 32) :=
  let offs := riob.offset / 4
  let done := rfmItems h .long flag (mcon.memory .sdRam) (offs * 4) (uary.take (itemsOf riob))
  (mcon.setMemory .sdRam done.1, done.2 ++ uary.drop (itemsOf riob))

end Accesses

/-! ## The ioctls -/

inductive SpaceCall
  | open (space : Space)
  | read (space : Space) (riob : XmemDrvrRawIoBlock)
  | write (space : Space) (riob : XmemDrvrRawIoBlock)
  | close (space : Space)

/-- An access function that gets a pointer to one value. -/
def oneValue (access : BitVec 32 → SpaceModule × BitVec 32) (uary : List (BitVec 32)) :
    SpaceModule × List (BitVec 32) :=
  let done := access (uary.headD 0)
  (done.1, done.2 :: uary.tail)

section Ioctls
variable (h : HostOrder) (mcon : SpaceModule)

def mayAccess : Space → Bool
  | .plxConfig => mcon.configOpen
  | .plxLocal => mcon.localOpen
  | .rfm => true
  | .sdRam => true

/-- The function that the `READ` ioctl of a space calls. -/
def readAccess (space : Space) (riob : XmemDrvrRawIoBlock) (uary : List (BitVec 32)) : SpaceModule × List (BitVec 32) :=
  match space with
  | .plxConfig => oneValue (fun value => drmConfigReadWrite h mcon riob.offset value riob.size .read) uary
  | .plxLocal => oneValue (fun value => drmLocalReadWrite h mcon riob.offset value riob.size .read) uary
  | .rfm => rfmIo h mcon riob uary .read
  | .sdRam => rawIo h mcon riob uary .read

/-- The `WRITE` ioctl of the local registers calls `DrmConfigReadWrite`, as that of the configuration does. -/
def writeAccess (space : Space) (riob : XmemDrvrRawIoBlock) (uary : List (BitVec 32)) :
    SpaceModule × List (BitVec 32) :=
  match space with
  | .plxConfig => oneValue (fun value => drmConfigReadWrite h mcon riob.offset value riob.size .write) uary
  | .plxLocal => oneValue (fun value => drmConfigReadWrite h mcon riob.offset value riob.size .write) uary
  | .rfm => rfmIo h mcon riob uary .write
  | .sdRam => rawIo h mcon riob uary .write

/-- Does the ioctl copy the array back? -/
def copiesBack : Space → XmemDrvrIoDir → Bool
  | _, .read => true
  | .sdRam, .write => true
  | _, .write => false

/-- What an access ioctl does around its access: `lptr` is the array on its stack, with what is left there; `none` where
more words are copied than it has. -/
def withArray (lptr : List (BitVec 32)) (space : Space) (flag : XmemDrvrIoDir) (riob : XmemDrvrRawIoBlock)
    (access : List (BitVec 32) → SpaceModule × List (BitVec 32)) :
    Option (Except XmemErrno (SpaceModule × Option (List (BitVec 32)))) :=
  if mayAccess mcon space = false then some (.error .eacces)
  else
    match riob.userArray with
    | none => some (.error .einval)
    | some user =>
      if lptr.length < riob.items then none
      else if user.length < riob.items then some (.error .efault)
      else
        let done := access (user.take riob.items ++ lptr.drop riob.items)
        let back := if copiesBack space flag then done.2.take riob.items ++ user.drop riob.items else user
        some (.ok (done.1, some back))

/-- The ioctls of the spaces, with the module and the user's array afterwards. -/
def spaceIoctl (lptr : List (BitVec 32)) :
    SpaceCall → Option (Except XmemErrno (SpaceModule × Option (List (BitVec 32))))
  | .open .plxConfig => some (.ok ({ mcon with configOpen := true }, none))
  | .open .plxLocal => some (.ok ({ mcon with localOpen := true }, none))
  | .open .rfm => some (.ok ({ mcon with rfmOpen := true }, none))
  | .open .sdRam => some (.ok ({ mcon with rawOpen := true }, none))
  | .read space riob => withArray mcon lptr space .read riob (readAccess h mcon space riob)
  | .write space riob => withArray mcon lptr space .write riob (writeAccess h mcon space riob)
  | .close .plxConfig => some (.ok ({ mcon with configOpen := false }, none))
  | .close .plxLocal => some (.ok ({ mcon with localOpen := false }, none))
  | .close .rfm => some (.ok ({ mcon with rfmOpen := false }, none))
  -- the flag of the registers, not of the SDRAM
  | .close .sdRam => some (.ok ({ mcon with rfmOpen := false }, none))

end Ioctls

/-! ## The accesses as stores and loads -/

section Items
variable {h : HostOrder} {mcon : SpaceModule} {m : Memory} {a v : ℕ} {size : XmemDrvrSize} {low : Bool} {bs : List Byte}

@[simp] theorem ordered_length : (ordered low bs).length = bs.length := by
  cases low <;> simp [ordered]

@[simp] theorem ordered_ordered : ordered low (ordered low bs) = bs := by
  cases low <;> simp [ordered]

@[simp] theorem cpuToLe_cpuToLe : cpuToLe h size (cpuToLe h size v) = v % 256 ^ size.bytes := by
  have hback : bytesOf size.bytes (valueOf (ordered h.little (bytesOf size.bytes v))) = ordered h.little
    (bytesOf size.bytes v) := by
    have hlength : (ordered h.little (bytesOf size.bytes v)).length = size.bytes := by simp
    have hbytes : bytesOf (ordered h.little (bytesOf size.bytes v)).length
      (valueOf (ordered h.little (bytesOf size.bytes v)))
        = ordered h.little (bytesOf size.bytes v) := bytesOf_valueOf
    rwa [hlength] at hbytes
  rw [cpuToLe, cpuToLe, hback, ordered_ordered, valueOf_bytesOf]

theorem cdcmIoread_iowrite {value : BitVec 32} :
    cdcmIoreadLe h (cdcmIowriteLe h m a size value) a size = BitVec.ofNat 32 (value.toNat % 256 ^ size.bytes) := by
  have hstored : load (cdcmIowriteLe h m a size value) a size.bytes
      = ordered h.lowFirst (bytesOf size.bytes (cpuToLe h size value.toNat)) := by
    have hload : load (cdcmIowriteLe h m a size value) a
        (ordered h.lowFirst (bytesOf size.bytes (cpuToLe h size value.toNat))).length
          = ordered h.lowFirst (bytesOf size.bytes (cpuToLe h size value.toNat)) := load_store
    rwa [ordered_length, bytesOf_length] at hload
  have hbound : cpuToLe h size value.toNat % 256 ^ size.bytes = cpuToLe h size value.toNat := by
    apply Nat.mod_eq_of_lt
    have hlt : cpuToLe h size value.toNat < 256 ^ (ordered h.little (bytesOf size.bytes value.toNat)).length :=
      valueOf_lt
    rwa [ordered_length, bytesOf_length] at hlt
  rw [cdcmIoreadLe, hstored, ordered_ordered, valueOf_bytesOf, hbound, cpuToLe_cpuToLe]

end Items

section Lanes
variable {h : HostOrder} {addr : BitVec 32} {size : XmemDrvrSize} {L : List Byte} {k v : ℕ}

/-- On a big-endian host the lanes are counted from the other end. -/
def hostLane (h : HostOrder) (k n : ℕ) : ℕ := if h.little then k else 4 - n - k

theorem laneOf_bytes (halign : size.bytes ∣ addr.toNat) :
    laneOf h addr size * size.bytes = hostLane h (addr.toNat % 4) size.bytes := by
  have hlow (x : BitVec 32) : (x &&& 3).toNat = x.toNat % 4 := by
    rw [BitVec.toNat_and]
    exact Nat.and_two_pow_sub_one_eq_mod x.toNat 2
  have hbit (x : BitVec 32) : ((x >>> 1) &&& 1).toNat = x.toNat / 2 % 2 := by
    rw [BitVec.toNat_and, BitVec.toNat_ushiftRight, Nat.shiftRight_eq_div_pow]
    exact Nat.and_two_pow_sub_one_eq_mod _ 1
  have hnot : (~~~addr).toNat = 2 ^ 32 - 1 - addr.toNat := BitVec.toNat_not
  have haddr := addr.isLt
  cases size with
  | byte =>
    simp only [laneOf, hostLane, XmemDrvrSize.bytes]
    split
    · rw [hlow]
      omega
    · rw [hlow, hnot]
      omega
  | word =>
    simp only [XmemDrvrSize.bytes] at halign
    simp only [laneOf, hostLane, XmemDrvrSize.bytes]
    split
    · rw [hbit]
      omega
    · rw [hbit, hnot]
      omega
  | long =>
    simp only [XmemDrvrSize.bytes] at halign
    simp only [laneOf, hostLane, XmemDrvrSize.bytes]
    split
    · omega
    · omega

/-- Whatever the order of the host, the lane is the part of the register that the address names. -/
theorem laneValue_eq (hL : L.length = 4) (hk : k + size.bytes ≤ 4) :
    laneValue h (valueOf L) (hostLane h k size.bytes) size = valueOf ((L.drop k).take size.bytes) := by
  have hbytes : bytesOf 4 (valueOf L) = L := hL ▸ bytesOf_valueOf
  rw [laneValue, hbytes]
  cases hl : h.little with
  | true => simp [ordered, hostLane, hl]
  | false =>
    have hend : 4 - (4 - size.bytes - k) = k + size.bytes := by omega
    have hstart : k + size.bytes - size.bytes = k := by omega
    simp only [ordered, hostLane, hl, Bool.false_eq_true, if_false]
    rw [List.drop_reverse, hL, hend, List.take_reverse, List.reverse_reverse, List.length_take, hL, Nat.min_eq_left hk,
      hstart, List.drop_take, Nat.add_sub_cancel_left]

theorem setLane_eq (hL : L.length = 4) (hk : k + size.bytes ≤ 4) :
    bytesOf 4 (setLane h (valueOf L) (hostLane h k size.bytes) size v)
      = L.take k ++ bytesOf size.bytes v ++ L.drop (k + size.bytes) := by
  have hbytes : bytesOf 4 (valueOf L) = L := hL ▸ bytesOf_valueOf
  have hsplice : (L.take k ++ bytesOf size.bytes v ++ L.drop (k + size.bytes)).length = 4 := by
    simp only [List.length_append, List.length_take, List.length_drop, bytesOf_length, hL]
    omega
  have hvalue : setLane h (valueOf L) (hostLane h k size.bytes) size v
      = valueOf (L.take k ++ bytesOf size.bytes v ++ L.drop (k + size.bytes)) := by
    rw [setLane, hbytes]
    cases hl : h.little with
    | true => simp [ordered, hostLane, hl]
    | false =>
      have hstart : 4 - (4 - size.bytes - k) = k + size.bytes := by omega
      have hend : 4 - (4 - size.bytes - k + size.bytes) = k := by omega
      simp only [ordered, hostLane, hl, Bool.false_eq_true, if_false]
      rw [List.take_reverse, List.drop_reverse, hL, hstart, hend, List.reverse_append, List.reverse_append,
        List.reverse_reverse, List.reverse_reverse, List.reverse_reverse, List.append_assoc]
  have hback : bytesOf (L.take k ++ bytesOf size.bytes v ++ L.drop (k + size.bytes)).length
      (valueOf (L.take k ++ bytesOf size.bytes v ++ L.drop (k + size.bytes)))
        = L.take k ++ bytesOf size.bytes v ++ L.drop (k + size.bytes) := bytesOf_valueOf
  rwa [hsplice, ← hvalue] at hback

end Lanes

section Spaces
variable {h : HostOrder} {mcon : SpaceModule} {addr value : BitVec 32} {size : XmemDrvrSize} {user : List (BitVec 32)}
  {space : Space} {v : BitVec 32}

theorem lane_inside (halign : size.bytes ∣ addr.toNat) : addr.toNat % 4 + size.bytes ≤ 4 := by
  cases size <;> simp only [XmemDrvrSize.bytes] at halign ⊢ <;> omega

theorem regnum_bytes : (addr >>> 2).toNat * 4 + addr.toNat % 4 = addr.toNat := by
  rw [BitVec.toNat_ushiftRight, Nat.shiftRight_eq_div_pow]
  omega

theorem drmConfigReadWrite_write (halign : size.bytes ∣ addr.toNat) :
    drmConfigReadWrite h mcon addr value size .write
      = (mcon.setMemory .plxConfig (store (mcon.memory .plxConfig) addr.toNat (bytesOf size.bytes value.toNat)),
        value) := by
  have hinside := lane_inside halign
  have hlane : bytesOf 4 (setLane h (drmDeviceRead mcon (addr >>> 2).toNat) (laneOf h addr size * size.bytes) size
    value.toNat) =
      (load (mcon.memory .plxConfig) ((addr >>> 2).toNat * 4) 4).take (addr.toNat % 4) ++ bytesOf size.bytes value.toNat
        ++ (load (mcon.memory .plxConfig) ((addr >>> 2).toNat * 4) 4).drop (addr.toNat % 4 + size.bytes) := by
    rw [laneOf_bytes halign, drmDeviceRead]
    exact setLane_eq load_length hinside
  have hsplice : store (mcon.memory .plxConfig) ((addr >>> 2).toNat * 4)
      ((load (mcon.memory .plxConfig) ((addr >>> 2).toNat * 4) 4).take (addr.toNat % 4) ++
        bytesOf size.bytes value.toNat ++ (load (mcon.memory .plxConfig) ((addr >>> 2).toNat * 4) 4).drop
            (addr.toNat % 4 + (bytesOf size.bytes value.toNat).length))
      = store (mcon.memory .plxConfig) ((addr >>> 2).toNat * 4 + addr.toNat % 4) (bytesOf size.bytes value.toNat) :=
    store_splice (by rwa [bytesOf_length])
  rw [bytesOf_length, regnum_bytes] at hsplice
  simp only [drmConfigReadWrite, drmDeviceWrite]
  rw [hlane, hsplice]

theorem drmConfigReadWrite_read (halign : size.bytes ∣ addr.toNat) :
    drmConfigReadWrite h mcon addr value size .read
      = (mcon, BitVec.ofNat 32 (valueOf (load (mcon.memory .plxConfig) addr.toNat size.bytes))) := by
  have hinside := lane_inside halign
  simp only [drmConfigReadWrite]
  rw [laneOf_bytes halign, drmDeviceRead, laneValue_eq load_length hinside, load_part hinside, regnum_bytes]

/-- Where the `WRITE` ioctl of a space goes. -/
def writtenSpace : Space → Space
  | .plxConfig => .plxConfig
  | .plxLocal => .plxConfig
  | .rfm => .rfm
  | .sdRam => .sdRam

/-- The bytes that the ioctls have for an item in a space. -/
def itemBytes (h : HostOrder) (size : XmemDrvrSize) (v : BitVec 32) : Space → List Byte
  | .plxConfig => bytesOf size.bytes v.toNat
  | _ => ordered h.lowFirst (bytesOf size.bytes (cpuToLe h size v.toNat))

def readItem (h : HostOrder) (m : Memory) (a : ℕ) (size : XmemDrvrSize) : Space → BitVec 32
  | .plxConfig => BitVec.ofNat 32 (valueOf (load m a size.bytes))
  | _ => cdcmIoreadLe h m a size

/-- A value as far as it fits into an item. -/
def truncated (size : XmemDrvrSize) (v : BitVec 32) : BitVec 32 := BitVec.ofNat 32 (v.toNat % 256 ^ size.bytes)

@[simp] theorem itemBytes_length : (itemBytes h size v space).length = size.bytes := by
  cases space <;> simp [itemBytes]

theorem readItem_store {m : Memory} {a : ℕ} : readItem h (store m a (itemBytes h size v space)) a size space =
    truncated size v := by
  cases space with
  | plxConfig =>
    have hload : load (store m a (bytesOf size.bytes v.toNat)) a (bytesOf size.bytes v.toNat).length
        = bytesOf size.bytes v.toNat := load_store
    rw [bytesOf_length] at hload
    rw [readItem, itemBytes, hload, valueOf_bytesOf, truncated]
  | plxLocal => exact cdcmIoread_iowrite
  | rfm => exact cdcmIoread_iowrite
  | sdRam => exact cdcmIoread_iowrite

/-- The SDRAM is accessed in words of 32 bits. -/
def SizeFits (space : Space) (size : XmemDrvrSize) : Prop := space = .sdRam → size = .long

theorem sizeFits_of_ne (hspace : space ≠ .sdRam) : SizeFits space size := fun heq => absurd heq hspace

theorem rawOffset (halign : 4 ∣ addr.toNat) : addr / 4 * 4 = addr := by
  have hdiv : (addr / 4).toNat = addr.toNat / 4 := BitVec.toNat_udiv
  have hfour : (4 : BitVec 32).toNat = 4 := rfl
  have hlt := addr.isLt
  apply BitVec.eq_of_toNat_eq
  rw [BitVec.toNat_mul, hdiv, hfour]
  omega

section OneItem
variable {riob : XmemDrvrRawIoBlock} (hone : riob.items = 1) (hsize : SizeFits space riob.size)
  (halign : riob.size.bytes ∣ riob.offset.toNat)
include hone hsize halign

theorem writeAccess_eq :
    writeAccess h mcon space riob (v :: user)
      = (mcon.setMemory (writtenSpace space)
          (store (mcon.memory (writtenSpace space)) riob.offset.toNat (itemBytes h riob.size v (writtenSpace space))),
        v :: user) := by
  cases space with
  | plxConfig =>
    simp only [writeAccess, oneValue, List.headD_cons, List.tail_cons, drmConfigReadWrite_write halign]
    rfl
  | plxLocal =>
    simp only [writeAccess, oneValue, List.headD_cons, List.tail_cons, drmConfigReadWrite_write halign]
    rfl
  | rfm => simp [writeAccess, rfmIo, itemsOf, hone, rfmItems, cdcmIowriteLe, writtenSpace, itemBytes]
  | sdRam =>
    have hlong := hsize rfl
    rw [hlong] at halign
    have hoffset := rawOffset halign
    simp only [writeAccess, rawIo, hoffset]
    simp [itemsOf, hone, rfmItems, cdcmIowriteLe, writtenSpace, itemBytes, hlong]

theorem readAccess_eq :
    readAccess h mcon space riob (v :: user)
      = (mcon, readItem h (mcon.memory space) riob.offset.toNat riob.size space :: user) := by
  cases space with
  | plxConfig =>
    simp only [readAccess, oneValue, List.headD_cons, List.tail_cons, drmConfigReadWrite_read halign]
    rfl
  | plxLocal => rfl
  | rfm => simp [readAccess, rfmIo, itemsOf, hone, rfmItems, SpaceModule.setMemory, readItem]
  | sdRam =>
    have hlong := hsize rfl
    rw [hlong] at halign
    have hoffset := rawOffset halign
    simp only [readAccess, rawIo, hoffset]
    simp [itemsOf, hone, rfmItems, SpaceModule.setMemory, readItem, hlong]

end OneItem
end Spaces

/-! ## An item written and read -/

section Ioctls
variable {h : HostOrder} {mcon : SpaceModule} {space other : Space} {riob : XmemDrvrRawIoBlock}
  {lptr vs ws : List (BitVec 32)} {v w : BitVec 32}

/-- After the `OPEN` ioctl of the space. -/
def SpaceModule.opened (mcon : SpaceModule) : Space → SpaceModule
  | .plxConfig => { mcon with configOpen := true }
  | .plxLocal => { mcon with localOpen := true }
  | .rfm => { mcon with rfmOpen := true }
  | .sdRam => { mcon with rawOpen := true }

theorem spaceIoctl_open : spaceIoctl h mcon lptr (.open space) = some (.ok (mcon.opened space, none)) := by
  cases space <;> rfl

@[simp] theorem opened_memory : (mcon.opened space).memory = mcon.memory := by
  cases space <;> rfl

@[simp] theorem mayAccess_opened : mayAccess (mcon.opened space) space = true := by
  cases space <;> rfl

@[simp] theorem mayAccess_setMemory {m : Memory} : mayAccess (mcon.setMemory other m) space = mayAccess mcon space := by
  cases space <;> rfl

section OneItem
variable (hmay : mayAccess mcon space = true) (hsize : SizeFits space riob.size)
  (halign : riob.size.bytes ∣ riob.offset.toNat) (hlptr : 0 < lptr.length)
include hmay hsize halign hlptr

theorem spaceIoctl_write :
    spaceIoctl h mcon lptr (.write space { riob with items := 1, userArray := some (v :: vs) })
      = some (.ok (mcon.setMemory (writtenSpace space)
          (store (mcon.memory (writtenSpace space)) riob.offset.toNat (itemBytes h riob.size v (writtenSpace space))),
        some (v :: vs))) := by
  have haccess : writeAccess h mcon space { riob with items := 1, userArray := some (v :: vs) } (v :: lptr.drop 1)
      = (mcon.setMemory (writtenSpace space)
          (store (mcon.memory (writtenSpace space)) riob.offset.toNat (itemBytes h riob.size v (writtenSpace space))),
        v :: lptr.drop 1) := writeAccess_eq rfl hsize halign
  have hfits : ¬lptr.length < 1 := by omega
  simp only [spaceIoctl, withArray, hmay, Bool.true_eq_false, if_false, hfits, List.length_cons, Nat.lt_one_iff,
    Nat.add_eq_zero_iff, Nat.one_ne_zero, and_false, List.take_succ_cons, List.take_zero, List.cons_append,
    List.nil_append, haccess]
  cases copiesBack space .write <;> rfl

theorem spaceIoctl_read :
    spaceIoctl h mcon lptr (.read space { riob with items := 1, userArray := some (w :: ws) })
      = some (.ok (mcon, some (readItem h (mcon.memory space) riob.offset.toNat riob.size space :: ws))) := by
  have haccess : readAccess h mcon space { riob with items := 1, userArray := some (w :: ws) } (w :: lptr.drop 1)
      = (mcon, readItem h (mcon.memory space) riob.offset.toNat riob.size space :: lptr.drop 1) :=
    readAccess_eq rfl hsize halign
  have hfits : ¬lptr.length < 1 := by omega
  simp only [spaceIoctl, withArray, hmay, Bool.true_eq_false, if_false, hfits, List.length_cons, Nat.lt_one_iff,
    Nat.add_eq_zero_iff, Nat.one_ne_zero, and_false, List.take_succ_cons, List.take_zero, List.cons_append,
    List.nil_append, haccess]
  rfl

end OneItem
end Ioctls

section Property
variable (h : HostOrder) (mcon : SpaceModule) (space : Space) (riob : XmemDrvrRawIoBlock) (v : BitVec 32)

/-- After the `OPEN` ioctl, a `WRITE` of one item leaves alone the other spaces and what is around the item, and a
`READ` then has the value. The stack and the user's arrays can be anything. -/
def ReadsBack : Prop :=
  ∀ lptr lptr' : List (BitVec 32), lptr.length = 50 → lptr'.length = 50 → ∀ vs w ws, ∃ opened written,
    spaceIoctl h mcon lptr (.open space) = some (.ok (opened, none)) ∧
    spaceIoctl h opened lptr (.write space { riob with items := 1, userArray := some (v :: vs) })
      = some (.ok (written, some (v :: vs))) ∧
    (∀ other, other ≠ space → written.memory other = mcon.memory other) ∧
    (∀ i, i < riob.offset.toNat ∨ riob.offset.toNat + riob.size.bytes ≤ i →
      written.memory space i = mcon.memory space i) ∧
    spaceIoctl h written lptr' (.read space { riob with items := 1, userArray := some (w :: ws) })
      = some (.ok (written, some (truncated riob.size v :: ws)))

end Property

section Results
variable {h : HostOrder} {mcon : SpaceModule} {space : Space} {riob : XmemDrvrRawIoBlock} {v : BitVec 32}

@[simp] theorem setMemory_same {m : Memory} : (mcon.setMemory space m).memory space = m := Function.update_self ..

theorem setMemory_other {m : Memory} {other : Space} (hother : other ≠ space) :
    (mcon.setMemory space m).memory other = mcon.memory other := Function.update_of_ne hother _ _

variable (hsize : SizeFits space riob.size) (halign : riob.size.bytes ∣ riob.offset.toNat)
include hsize halign

/-- The module after the write. -/
def writtenItem (h : HostOrder) (mcon : SpaceModule) (space : Space) (riob : XmemDrvrRawIoBlock) (v : BitVec 32) :
    SpaceModule :=
  (mcon.opened space).setMemory (writtenSpace space)
    (store (mcon.memory (writtenSpace space)) riob.offset.toNat (itemBytes h riob.size v (writtenSpace space)))

/-- The outcome of the three calls, whatever is in the arrays. -/
theorem readsBack_iff_written :
    ReadsBack h mcon space riob v ↔
      (∀ other, other ≠ space → (writtenItem h mcon space riob v).memory other = mcon.memory other) ∧
      (∀ i, i < riob.offset.toNat ∨ riob.offset.toNat + riob.size.bytes ≤ i →
        (writtenItem h mcon space riob v).memory space i = mcon.memory space i) ∧
      readItem h ((writtenItem h mcon space riob v).memory space) riob.offset.toNat riob.size space
        = truncated riob.size v := by
  have hmay : mayAccess (writtenItem h mcon space riob v) space = true := by simp [writtenItem]
  have hwrite (lptr vs : List (BitVec 32)) (hlptr : lptr.length = 50) :
      spaceIoctl h (mcon.opened space) lptr (.write space { riob with items := 1, userArray := some (v :: vs) })
        = some (.ok (writtenItem h mcon space riob v, some (v :: vs))) := by
    rw [spaceIoctl_write mayAccess_opened hsize halign (by omega), opened_memory]
    rfl
  have hread (lptr ws : List (BitVec 32)) (w : BitVec 32) (hlptr : lptr.length = 50) :
      spaceIoctl h (writtenItem h mcon space riob v) lptr
          (.read space { riob with items := 1, userArray := some (w :: ws) })
        = some (.ok (writtenItem h mcon space riob v,
          some (readItem h ((writtenItem h mcon space riob v).memory space) riob.offset.toNat riob.size
            space :: ws))) :=
    spaceIoctl_read hmay hsize halign (by omega)
  constructor
  · intro hreads
    have hlength : (List.replicate 50 (0 : BitVec 32)).length = 50 := List.length_replicate
    obtain ⟨opened, written, hopen, hwritten, hothers, haround, hvalue⟩ := hreads _ _ hlength hlength [] 0 []
    rw [spaceIoctl_open] at hopen
    cases hopen
    rw [hwrite _ _ hlength] at hwritten
    cases hwritten
    rw [hread _ _ _ hlength] at hvalue
    injection hvalue with hvalue
    injection hvalue with hvalue
    injection hvalue with _ hvalue
    injection hvalue with hvalue
    injection hvalue with hvalue _
    exact ⟨hothers, haround, hvalue⟩
  · rintro ⟨hothers, haround, hvalue⟩ lptr lptr' hlptr hlptr' vs w ws
    refine ⟨_, _, spaceIoctl_open, hwrite _ _ hlptr, hothers, haround, ?_⟩
    rw [hread _ _ _ hlptr', hvalue]

/-- A space with its own function is written where it is read. -/
theorem readsBack_of_own (hown : writtenSpace space = space) : ReadsBack h mcon space riob v := by
  apply (readsBack_iff_written hsize halign).mpr
  rw [writtenItem, hown]
  refine ⟨fun other hother => ?_, fun i hi => ?_, ?_⟩
  · rw [setMemory_other hother, opened_memory]
  · rw [setMemory_same]
    exact store_outside (by rwa [itemBytes_length])
  · rw [setMemory_same, readItem_store]

omit hsize in
theorem readsBack_local_iff :
    ReadsBack h mcon .plxLocal riob v ↔
      load (mcon.memory .plxConfig) riob.offset.toNat riob.size.bytes = bytesOf riob.size.bytes v.toNat ∧
      cdcmIoreadLe h (mcon.memory .plxLocal) riob.offset.toNat riob.size = truncated riob.size v := by
  have hconfig : (writtenItem h mcon .plxLocal riob v).memory .plxConfig
      = store (mcon.memory .plxConfig) riob.offset.toNat (bytesOf riob.size.bytes v.toNat) := setMemory_same
  have hlocal : (writtenItem h mcon .plxLocal riob v).memory .plxLocal = mcon.memory .plxLocal :=
    setMemory_other (by decide)
  have hsame : store (mcon.memory .plxConfig) riob.offset.toNat (bytesOf riob.size.bytes v.toNat) =
    mcon.memory .plxConfig
      ↔ load (mcon.memory .plxConfig) riob.offset.toNat riob.size.bytes = bytesOf riob.size.bytes v.toNat := by
    rw [store_eq_self, bytesOf_length]
  have hsize : SizeFits .plxLocal riob.size := sizeFits_of_ne (by decide)
  rw [readsBack_iff_written hsize halign, hlocal, ← hsame]
  constructor
  · rintro ⟨hothers, -, hvalue⟩
    refine ⟨?_, hvalue⟩
    rw [← hconfig]
    exact hothers .plxConfig (by decide)
  · rintro ⟨hunchanged, hvalue⟩
    refine ⟨fun other hother => ?_, fun _ _ => rfl, hvalue⟩
    cases other with
    | plxConfig => rw [hconfig, hunchanged]
    | plxLocal => exact absurd rfl hother
    | rfm => exact setMemory_other (by decide)
    | sdRam => exact setMemory_other (by decide)

/-- The configuration, the RFM registers and the SDRAM read back what was written, on every host. What is written to the
local registers goes to the configuration: it is as it should be only where the configuration already has the bytes and
the local registers the value. -/
theorem spaces_readBack_iff :
    ReadsBack h mcon space riob v ↔
      (space = .plxLocal →
        load (mcon.memory .plxConfig) riob.offset.toNat riob.size.bytes = bytesOf riob.size.bytes v.toNat ∧
        cdcmIoreadLe h (mcon.memory .plxLocal) riob.offset.toNat riob.size = truncated riob.size v) := by
  by_cases hlocal : space = .plxLocal
  · subst hlocal
    rw [readsBack_local_iff halign]
    exact ⟨fun hthere _ => hthere, fun hthere => hthere rfl⟩
  · have hown : writtenSpace space = space := by
      cases space with
      | plxLocal => exact absurd rfl hlocal
      | plxConfig => rfl
      | rfm => rfl
      | sdRam => rfl
    exact ⟨fun _ hspace => absurd hspace hlocal, fun _ => readsBack_of_own hsize halign hown⟩

end Results

/-! ## Witnesses -/

def blankModule : SpaceModule := ⟨fun _ _ => 0, false, false, false, false⟩

def ppcHost : HostOrder := ⟨false, true⟩

/-- Two bytes of the configuration on a big-endian host. -/
theorem spaces_readBack_config :
    SizeFits .plxConfig .word ∧ 2 ∣ (6 : BitVec 32).toNat ∧
      ReadsBack ppcHost blankModule .plxConfig ⟨1, .word, 6, none⟩ 0x1234 := by
  have hsize : SizeFits .plxConfig .word := sizeFits_of_ne (by decide)
  have halign : 2 ∣ (6 : BitVec 32).toNat := by decide
  have hlocal : Space.plxConfig ≠ .plxLocal := by decide
  refine ⟨hsize, halign, ?_⟩
  apply (spaces_readBack_iff hsize halign).mpr
  intro hspace
  exact absurd hspace hlocal

/-- A write to the local registers changes the configuration. -/
theorem not_readsBack_local : ¬ReadsBack ppcHost blankModule .plxLocal ⟨1, .long, 0x68, none⟩ 1 := by
  intro hreads
  have halign : 4 ∣ (0x68 : BitVec 32).toNat := by decide
  have hconfig := ((readsBack_local_iff halign).mp hreads).1
  exact absurd hconfig (by decide)

end HtDrivers.Xmem
