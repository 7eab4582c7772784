import HtDrivers.Vmod.LunArgs
import HtDrivers.Vmod.Vmodttl

/-! From minors to boards in the drivers of the VMOD-12E16, 12A2, 16A2, DOR and TTL. Three look for the lun, one keeps
its boards by position and one by lun. -/
namespace HtDrivers.Vmod
set_option autoImplicit false

inductive VmodDriver
  | vmod12e16 | vmod12a2 | vmod16a2 | vmoddor | vmodttl
deriving DecidableEq

/-- The minors of the device, which are the entries of its table. -/
def VmodDriver.minors : VmodDriver → ℕ
  | vmod12e16 | vmod12a2 | vmod16a2 | vmodttl => vmodMaxBoards
  | vmoddor => 16

/-! ## Requests and the registers they access -/

inductive TtlRequest
  | config (conf : Vmodttlconfig)
  | readConfig
  | simpio
  | pattern (buf : VmodttlPattern)
  | readChan (dev : BitVec 32)
  | writeChan (dev : BitVec 32)

/-- The requests of all drivers; to the others, and when it cannot be copied, a request is refused. Of the hardware
comes when it is ready and what it answers for its `MCCR`. -/
inductive VmodRequest
  | convert (interrupted : Bool) (channel amplification : BitVec 32) (ready : ℕ → Bool)
  | put (channel : BitVec 32)
  | write (size offset : BitVec 16)
  | ttl (pd : VmodttlDev) (master : BitVec 16) (request : TtlRequest)
  | refused

/-- The loop that waits for the end of a conversion, with `k` rounds of two microseconds left. -/
def pollReady (ready : ℕ → Bool) : ℕ → ℕ → List ℕ
  | 0, _ => []
  | k + 1, i => 4 :: if ready i then [0] else pollReady ready k (i + 1)

def doConversion (interrupted : Bool) (channel amplification : BitVec 32) (ready : ℕ → Bool) : List ℕ :=
  if interrupted then []
  else 6 :: if amplification &&& ~~~0x3 ≠ 0 ∨ channel &&& ~~~0xf ≠ 0 then [] else 0 :: pollReady ready 15 0

def doIocput (channel : BitVec 32) : Option (List ℕ) :=
  if channel = 0 then some [0] else if channel = 1 then some [2] else none

def doOutput (channel : BitVec 32) : List ℕ :=
  if channel = 0 then [0, 4] else if channel = 1 then [2, 6] else []

def vmoddorWrite (size offset : BitVec 16) : Option (List ℕ) :=
  if size = 16 then if offset = 0 then some [0] else none
  else if size = 8 then if offset ≤ 1 then some [offset.toNat] else none
  else if size = 4 then if 2 ≤ offset ∧ offset ≤ 5 then some [offset.toNat] else none
  else none

def vmodttlPortc : ℕ := 0
def vmodttlPortb : ℕ := 2
def vmodttlPorta : ℕ := 4
def vmodttlControl : ℕ := 6

/-- The writes of `vmodttl_def_io`, and its one read. -/
def defIoOffsets (pd : VmodttlDev) (master : BitVec 16) : List ℕ :=
  List.replicate ((vmodttlDefIo pd master).length + 1) vmodttlControl

/-- The data ports by the number of a channel. -/
def channelPorts (dev : BitVec 32) : List ℕ :=
  if dev = 0 then [vmodttlPorta] else if dev = 1 then [vmodttlPortb] else if dev = 2 then [vmodttlPorta, vmodttlPortb]
  else []

/-- A strobe on port C. -/
def strobe : List ℕ := [vmodttlPortc, vmodttlPortc]

def vmodttlReadChan (dev : BitVec 32) : List ℕ := if 2 < dev &&& 0xff then [] else channelPorts dev ++ strobe

/-- Each port is written before a read of `MCCR`, and the ports are enabled at the end. -/
def vmodttlWriteChan (pd : VmodttlDev) (dev : BitVec 32) : List ℕ :=
  let output (bit : BitVec 32) := pd.ioFlag &&& bit ≠ 0
  if 2 < dev then []
  else if (dev ≠ 1 ∧ ¬ output aChanOut) ∨ (dev ≠ 0 ∧ ¬ output bChanOut) then []
  else (channelPorts dev).flatMap (fun port => [port, vmodttlControl, vmodttlControl]) ++
    [vmodttlControl, vmodttlControl] ++ strobe

def vmodttlOffsets (pd : VmodttlDev) (master : BitVec 16) : TtlRequest → List ℕ
  | .config conf => if (ioctlConfig conf pd).1 then defIoOffsets (ioctlConfig conf pd).2 master else []
  | .simpio => defIoOffsets pd master
  | .readChan dev => vmodttlReadChan dev
  | .writeChan dev => vmodttlWriteChan pd dev
  | .readConfig | .pattern _ => []

/-- The offsets that a request accesses; without a result it fails before it looks at a board. -/
def ioctlOffsets : VmodDriver → VmodRequest → Option (List ℕ)
  | .vmod12e16, .convert interrupted channel amplification ready =>
    some (doConversion interrupted channel amplification ready)
  | .vmod12a2, .put channel => doIocput channel
  | .vmod16a2, .put channel => some (doOutput channel)
  | .vmoddor, .write size offset => vmoddorWrite size offset
  | .vmodttl, .ttl pd master request => some (vmodttlOffsets pd master request)
  | _, _ => none

/-! ## Tables -/

/-- An entry that is used but lies outside of its table, or was never set. -/
inductive TableFault
  | outsideTable | neverConfigured

structure BoardAccess where
  base : BitVec 64
  offset : ℕ

def accessesOf (offsets : List ℕ) (mod : VmodDev) : List BoardAccess := offsets.map fun offset => ⟨mod.address, offset⟩

def tableEntry (devs : List VmodDev) (size idx : ℕ) : Except TableFault VmodDev :=
  if size ≤ idx then .error .outsideTable
  else match devs[idx]? with
    | none => .error .neverConfigured
    | some mod => .ok mod

/-- The index that an open finds for its lun. It has no sign, so that the test for a negative one never holds. -/
def openByLun (devs : List VmodDev) (lun : ℕ) : Option ℕ :=
  let idx : BitVec 32 := BitVec.ofInt 32 (lunToIndex devs lun)
  if idx < 0 then none else some idx.toNat

/-- `pvmodttlDv` behind the loop of the init, with a board for each of the first modules. -/
def pvmodttlDv (devs : List VmodDev) : ℤ → Option ℕ :=
  devs.zipIdx.foldl (fun table entry => Function.update table entry.1.lun (some entry.2)) fun _ => none

def vmodttlEntry (devs : List VmodDev) (minor : ℕ) : Except TableFault VmodDev :=
  match pvmodttlDv devs minor with
  | none => .error .neverConfigured
  | some i => tableEntry devs vmodMaxBoards i

def ioctlByLun (devs : List VmodDev) (minor : ℕ) (offsets : Option (List ℕ)) : Except TableFault (List BoardAccess) :=
  match openByLun devs minor, offsets with
  | some idx, some offsets => (tableEntry devs vmodMaxBoards idx).map (accessesOf offsets)
  | _, _ => .ok []

/-- An open of a minor and a request behind it. -/
def openIoctl (driver : VmodDriver) (devs : List VmodDev) (minor : ℕ) (request : VmodRequest) :
    Except TableFault (List BoardAccess) :=
  let offsets := ioctlOffsets driver request
  match driver with
  | .vmod12e16 | .vmod12a2 | .vmod16a2 => ioctlByLun devs minor offsets
  | .vmoddor =>
    match offsets with
    | none => .ok []
    | some offsets => (tableEntry devs 16 minor).map (accessesOf offsets)
  | .vmodttl => (vmodttlEntry devs minor).map (accessesOf (offsets.getD []))

/-- The entries that the init of a driver sets in its own table. -/
def entriesSet : VmodDriver → List VmodDev → List ℤ
  | .vmod12e16, devs | .vmoddor, devs => (List.range devs.length).map fun i : ℕ => (i : ℤ)
  | .vmodttl, devs => devs.map VmodDev.lun
  | .vmod12a2, _ | .vmod16a2, _ => []

/-- The boards that an init allocates, by their modules. -/
def boardsSetUp : VmodDriver → List VmodDev → List ℕ
  | .vmodttl, devs => List.range devs.length
  | _, _ => []

/-- The boards that the exit frees. -/
def boardsReleased : VmodDriver → List VmodDev → List ℕ
  | .vmodttl, devs => (List.range devs.length).filterMap fun i : ℕ => pvmodttlDv devs i
  | _, _ => []

/-! ## Statements -/

/-- No request goes wrong at a minor: all accesses go to a board with its lun. -/
def MinorSafe (driver : VmodDriver) (devs : List VmodDev) (minor : ℕ) : Prop :=
  ∀ request, ∃ accesses, openIoctl driver devs minor request = .ok accesses ∧
    ∀ a ∈ accesses, ∃ mod ∈ devs, mod.lun = minor ∧ a.base = mod.address

def SetupSafe (driver : VmodDriver) (devs : List VmodDev) : Prop :=
  ∀ i ∈ entriesSet driver devs, 0 ≤ i ∧ i < driver.minors

def ReleasesBoards (driver : VmodDriver) (devs : List VmodDev) : Prop :=
  (boardsReleased driver devs).Perm (boardsSetUp driver devs)

/-- A board has the lun; for the DOR, one at the address of the board at this position. -/
def MinorConfigured : VmodDriver → List VmodDev → ℕ → Prop
  | .vmoddor, devs, minor => ∃ entry, devs[minor]? = some entry ∧ ∃ mod ∈ devs, mod.lun = minor ∧
  mod.address = entry.address
  | _, devs, minor => ∃ mod ∈ devs, mod.lun = minor

def TableFits : VmodDriver → List VmodDev → Prop
  | .vmoddor, devs => devs.length ≤ 16
  | .vmodttl, devs => ∀ mod ∈ devs, mod.lun < vmodMaxBoards
  | _, _ => True

/-- The luns of TTL boards are 0, 1, 2 and so on in some order. -/
def LunsWithoutGaps : VmodDriver → List VmodDev → Prop
  | .vmodttl, devs => (devs.map VmodDev.lun).Perm ((List.range devs.length).map fun i : ℕ => (i : ℤ))
  | _, _ => True

/-! ## Drivers that look for the lun -/

section Minors
variable {devs : List VmodDev} {minor : ℕ}

theorem map_tableEntry_ok {size i : ℕ} {mod : VmodDev} (hi : i < size) (hmod : devs[i]? = some mod) (offsets : List ℕ) :
    (tableEntry devs size i).map (accessesOf offsets) = .ok (accessesOf offsets mod) := by
  unfold tableEntry
  rw [if_neg (not_le.mpr hi), hmod]
  rfl

theorem accessesOf_base {offsets : List ℕ} {mod : VmodDev} {a : BoardAccess} (h : a ∈ accessesOf offsets mod) :
    a.base = mod.address := by
  obtain ⟨_, -, rfl⟩ := List.mem_map.mp h
  rfl

theorem openByLun_of_mem (hlength : devs.length < vmodMaxBoards) (h : ∃ mod ∈ devs, mod.lun = minor) :
    ∃ i mod, openByLun devs minor = some i ∧ i < vmodMaxBoards ∧ devs[i]? = some mod ∧ mod.lun = minor := by
  obtain ⟨i, mod, hindex, hmod, hlun⟩ := lunToIndex_of_mem h
  obtain ⟨hi, -⟩ := List.getElem?_eq_some_iff.mp hmod
  have hmax : vmodMaxBoards = 64 := rfl
  refine ⟨i, mod, ?_, by omega, hmod, hlun⟩
  have hsign : ¬ BitVec.ofNat 32 i < 0 := BitVec.not_lt_zero
  unfold openByLun
  rw [hindex, BitVec.ofInt_natCast]
  dsimp only
  rw [if_neg hsign, BitVec.toNat_ofNat, Nat.mod_eq_of_lt (by omega)]

/-- A lun that no board has leads behind the end of the table. -/
theorem openByLun_of_not_mem (h : ¬ ∃ mod ∈ devs, mod.lun = minor) : openByLun devs minor = some (2^32 - 1) := by
  unfold openByLun
  rw [lunToIndex_of_not_mem h]
  rfl

theorem ioctlByLun_safe_iff {f : VmodRequest → Option (List ℕ)} (hlength : devs.length < vmodMaxBoards)
    (hreach : ∃ request offsets, f request = some offsets) :
    (∀ request, ∃ accesses, ioctlByLun devs minor (f request) = .ok accesses ∧
      ∀ a ∈ accesses, ∃ mod ∈ devs, mod.lun = minor ∧ a.base = mod.address) ↔ ∃ mod ∈ devs, mod.lun = minor := by
  constructor
  · intro hsafe
    by_contra hnone
    obtain ⟨request, offsets, hoffsets⟩ := hreach
    obtain ⟨accesses, hrun, -⟩ := hsafe request
    have hwild : ioctlByLun devs minor (some offsets) = .error .outsideTable := by
      unfold ioctlByLun
      rw [openByLun_of_not_mem hnone]
      rfl
    rw [hoffsets, hwild] at hrun
    cases hrun
  · intro hmem request
    obtain ⟨i, mod, hopen, hi, hmod, hlun⟩ := openByLun_of_mem hlength hmem
    unfold ioctlByLun
    rw [hopen]
    cases f request with
    | none => exact ⟨[], rfl, nofun⟩
    | some offsets =>
      refine ⟨_, map_tableEntry_ok hi hmod offsets, fun a ha => ⟨mod, List.mem_of_getElem? hmod, hlun, ?_⟩⟩
      exact accessesOf_base ha

/-! ## Boards by position -/

theorem vmoddor_safe_iff (hminor : minor < 16) :
    MinorSafe .vmoddor devs minor ↔ MinorConfigured .vmoddor devs minor := by
  constructor
  · intro hsafe
    obtain ⟨accesses, hrun, hall⟩ := hsafe (.write 16 0)
    have hoffsets : ioctlOffsets .vmoddor (.write 16 0) = some [0] := by decide
    unfold openIoctl at hrun
    rw [hoffsets] at hrun
    dsimp only at hrun
    cases hentry : devs[minor]? with
    | none =>
      unfold tableEntry at hrun
      rw [if_neg (not_le.mpr hminor), hentry] at hrun
      cases hrun
    | some entry =>
      rw [map_tableEntry_ok hminor hentry] at hrun
      obtain ⟨mod, hmem, hlun, hbase⟩ := hall ⟨entry.address, 0⟩ (by
        rw [← Except.ok.inj hrun]
        exact List.mem_singleton_self _)
      exact ⟨entry, hentry, mod, hmem, hlun, hbase.symm⟩
  · rintro ⟨entry, hentry, mod, hmem, hlun, haddress⟩ request
    unfold openIoctl
    cases ioctlOffsets .vmoddor request with
    | none => exact ⟨[], rfl, nofun⟩
    | some offsets =>
      refine ⟨_, map_tableEntry_ok hminor hentry offsets, fun a ha => ⟨mod, hmem, hlun, ?_⟩⟩
      rw [accessesOf_base ha, haddress]

/-! ## Boards by lun -/

theorem pvmodttlDv_append (mod : VmodDev) (devs : List VmodDev) :
    pvmodttlDv (devs ++ [mod]) = Function.update (pvmodttlDv devs) mod.lun (some devs.length) := by
  unfold pvmodttlDv
  rw [List.zipIdx_append, List.foldl_append, Nat.zero_add]
  rfl

/-- An entry of the table belongs to a module with its lun. -/
theorem lun_of_pvmodttlDv {k : ℤ} {i : ℕ} (h : pvmodttlDv devs k = some i) : ∃ mod, devs[i]? = some mod ∧
    mod.lun = k := by
  induction devs using List.reverseRecOn with
  | nil => cases h
  | append_singleton devs mod ih =>
    rw [pvmodttlDv_append, Function.update_apply] at h
    by_cases hk : k = mod.lun
    · rw [if_pos hk] at h
      rw [← Option.some.inj h]
      exact ⟨mod, by rw [List.getElem?_concat_length], hk.symm⟩
    · rw [if_neg hk] at h
      obtain ⟨m, hm, hlun⟩ := ih h
      obtain ⟨hi, -⟩ := List.getElem?_eq_some_iff.mp hm
      exact ⟨m, by rw [List.getElem?_append_left hi, hm], hlun⟩

theorem pvmodttlDv_isSome_iff {k : ℤ} : (pvmodttlDv devs k).isSome = true ↔ ∃ mod ∈ devs, mod.lun = k := by
  constructor
  · intro hsome
    obtain ⟨i, hi⟩ := Option.isSome_iff_exists.mp hsome
    obtain ⟨mod, hmod, hlun⟩ := lun_of_pvmodttlDv hi
    exact ⟨mod, List.mem_of_getElem? hmod, hlun⟩
  · intro hmem
    induction devs using List.reverseRecOn with
    | nil =>
      obtain ⟨_, hnil, -⟩ := hmem
      cases hnil
    | append_singleton devs mod ih =>
      rw [pvmodttlDv_append, Function.update_apply]
      by_cases hk : k = mod.lun
      · rw [if_pos hk]
        rfl
      · rw [if_neg hk]
        obtain ⟨m, hm, hlun⟩ := hmem
        obtain hm | hm := List.mem_append.mp hm
        · exact ih ⟨m, hm, hlun⟩
        · rw [List.mem_singleton.mp hm] at hlun
          exact absurd hlun.symm hk

theorem vmodttl_safe_iff (hlength : devs.length < vmodMaxBoards) :
    MinorSafe .vmodttl devs minor ↔ MinorConfigured .vmodttl devs minor := by
  have hconfigured : MinorConfigured .vmodttl devs minor ↔ (pvmodttlDv devs minor).isSome = true :=
    pvmodttlDv_isSome_iff.symm
  rw [hconfigured]
  unfold MinorSafe openIoctl vmodttlEntry
  cases hentry : pvmodttlDv devs minor with
  | none =>
    refine iff_of_false (fun hsafe => ?_) nofun
    obtain ⟨_, hrun, -⟩ := hsafe .refused
    cases hrun
  | some i =>
    obtain ⟨mod, hmod, hlun⟩ := lun_of_pvmodttlDv hentry
    obtain ⟨hi, -⟩ := List.getElem?_eq_some_iff.mp hmod
    refine iff_of_true (fun request => ?_) rfl
    refine ⟨_, map_tableEntry_ok (by omega) hmod _, fun a ha => ⟨mod, List.mem_of_getElem? hmod, hlun, ?_⟩⟩
    exact accessesOf_base ha

/-- The exit frees every board exactly when no lun is missing below their number. -/
theorem vmodttl_released_iff : (boardsReleased .vmodttl devs).Perm (boardsSetUp .vmodttl devs) ↔
    LunsWithoutGaps .vmodttl devs := by
  have hcast : Function.Injective fun i : ℕ => (i : ℤ) := fun _ _ h => Int.ofNat.inj h
  have hlength : ((List.range devs.length).map fun i : ℕ => (i : ℤ)).length = devs.length := by
    rw [List.length_map, List.length_range]
  show ((List.range devs.length).filterMap fun i : ℕ => pvmodttlDv devs i).Perm (List.range devs.length) ↔
    (devs.map VmodDev.lun).Perm ((List.range devs.length).map fun i : ℕ => (i : ℤ))
  constructor
  · intro hperm
    have hall : ∀ i ∈ List.range devs.length, (pvmodttlDv devs i).isSome = true := by
      rw [← List.countP_eq_length, ← List.length_filterMap_eq_countP, hperm.length_eq]
    have hsub : ((List.range devs.length).map fun i : ℕ => (i : ℤ)) ⊆ devs.map VmodDev.lun := by
      intro k hk
      obtain ⟨i, hi, rfl⟩ := List.mem_map.mp hk
      obtain ⟨mod, hmem, hlun⟩ := pvmodttlDv_isSome_iff.mp (hall i hi)
      exact List.mem_map.mpr ⟨mod, hmem, hlun⟩
    have hsubperm := List.subperm_of_subset (List.nodup_range.map hcast) hsub
    exact (hsubperm.perm_of_length_le (by rw [hlength, List.length_map])).symm
  · intro hperm
    have hnodup : (devs.map VmodDev.lun).Nodup := hperm.nodup_iff.mpr (List.nodup_range.map hcast)
    have hsub : List.range devs.length ⊆ (List.range devs.length).filterMap fun i : ℕ => pvmodttlDv devs i := by
      intro j hj
      have hj' := List.mem_range.mp hj
      have hlun : devs[j].lun ∈ (List.range devs.length).map fun i : ℕ => (i : ℤ) :=
        hperm.subset (List.mem_map_of_mem (List.getElem_mem hj'))
      obtain ⟨i, hi, hcastLun⟩ := List.mem_map.mp hlun
      refine List.mem_filterMap.mpr ⟨i, hi, ?_⟩
      obtain ⟨j', hentry⟩ := Option.isSome_iff_exists.mp
        (pvmodttlDv_isSome_iff.mpr ⟨devs[j], List.getElem_mem hj', rfl⟩)
      obtain ⟨mod, hmod, hsame⟩ := lun_of_pvmodttlDv hentry
      obtain ⟨hlt, hget⟩ := List.getElem?_eq_some_iff.mp hmod
      have hlt₁ : j' < (devs.map VmodDev.lun).length := by
        rw [List.length_map]
        exact hlt
      have hlt₂ : j < (devs.map VmodDev.lun).length := by
        rw [List.length_map]
        exact hj'
      have hluns : (devs.map VmodDev.lun)[j'] = (devs.map VmodDev.lun)[j] := by
        rw [List.getElem_map, List.getElem_map, hget, hsame]
      rw [hcastLun, hentry, hnodup.getElem_inj_iff.mp hluns]
    have hsubperm := List.subperm_of_subset List.nodup_range hsub
    exact (hsubperm.perm_of_length_le (List.length_filterMap_le _ _)).symm

/-! ## All drivers -/

theorem minorSafe_iff (driver : VmodDriver) (hlength : devs.length < vmodMaxBoards) (hminor : minor < driver.minors) :
    MinorSafe driver devs minor ↔ MinorConfigured driver devs minor := by
  cases driver with
  | vmod12e16 =>
    exact ioctlByLun_safe_iff (f := ioctlOffsets .vmod12e16) hlength ⟨.convert true 0 0 fun _ => false, _, rfl⟩
  | vmod12a2 => exact ioctlByLun_safe_iff (f := ioctlOffsets .vmod12a2) hlength ⟨.put 0, _, rfl⟩
  | vmod16a2 => exact ioctlByLun_safe_iff (f := ioctlOffsets .vmod16a2) hlength ⟨.put 0, _, rfl⟩
  | vmoddor => exact vmoddor_safe_iff hminor
  | vmodttl => exact vmodttl_safe_iff hlength

theorem setupSafe_iff (driver : VmodDriver) (hlength : devs.length < vmodMaxBoards)
    (hluns : ∀ mod ∈ devs, 0 ≤ mod.lun) : SetupSafe driver devs ↔ TableFits driver devs := by
  have hrange : ∀ size : ℕ, (∀ i ∈ (List.range devs.length).map fun i : ℕ => (i : ℤ), 0 ≤ i ∧ i < size) ↔
      devs.length ≤ size := by
    intro size
    rw [List.forall_mem_map]
    constructor
    · intro hall
      by_contra hlt
      have hlast := (hall size (List.mem_range.mpr (by omega))).2
      omega
    · intro hle i hi
      have hi := List.mem_range.mp hi
      omega
  cases driver with
  | vmod12e16 => exact (hrange vmodMaxBoards).trans (iff_of_true hlength.le trivial)
  | vmod12a2 => exact iff_of_true nofun trivial
  | vmod16a2 => exact iff_of_true nofun trivial
  | vmoddor => exact hrange 16
  | vmodttl =>
    show (∀ i ∈ devs.map VmodDev.lun, 0 ≤ i ∧ i < (vmodMaxBoards : ℤ)) ↔ ∀ mod ∈ devs, mod.lun < vmodMaxBoards
    rw [List.forall_mem_map]
    exact forall_congr' fun mod => forall_congr' fun hmem => and_iff_right (hluns mod hmem)

theorem releasesBoards_iff (driver : VmodDriver) : ReleasesBoards driver devs ↔ LunsWithoutGaps driver devs := by
  cases driver with
  | vmodttl => exact vmodttl_released_iff
  | vmod12e16 => exact iff_of_true (List.Perm.refl _) trivial
  | vmod12a2 => exact iff_of_true (List.Perm.refl _) trivial
  | vmod16a2 => exact iff_of_true (List.Perm.refl _) trivial
  | vmoddor => exact iff_of_true (List.Perm.refl _) trivial

/-- A minor is safe exactly when it is configured, the tables are kept exactly when the boards fit, and the boards
are released exactly when no lun is missing. -/
theorem vmodMinors_iff {R : Type} {register : CarrierRegister GetAddressSpace R} {params : VmodParams}
    (h : readParams register params = some devs) (driver : VmodDriver) :
    (∀ minor < driver.minors, MinorSafe driver devs minor ↔ MinorConfigured driver devs minor) ∧
      (SetupSafe driver devs ↔ TableFits driver devs) ∧ (ReleasesBoards driver devs ↔ LunsWithoutGaps driver devs) := by
  obtain ⟨hlength, hluns⟩ := readParams_spec h
  exact ⟨fun _ hminor => minorSafe_iff driver hlength hminor, setupSafe_iff driver hlength hluns,
    releasesBoards_iff driver⟩

end Minors

/-- A register with one carrier, whose slots are 512 bytes apart. -/
def oneCarrier : CarrierRegister GetAddressSpace Unit where
  cregister := fun _ => ⟨[118], fun _ slot _ => some ⟨0x200 * BitVec.ofInt 64 slot, 16, 0x200, true⟩, ()⟩
  usedEntries := 1

/-- Two boards, with luns 1 and 0. -/
def twoBoards : VmodParams := ⟨[1, 0], [[118], [118]], [0, 0], [0, 1]⟩

theorem vmodMinors_two_boards : ∃ devs, readParams oneCarrier twoBoards = some devs ∧
    MinorSafe .vmodttl devs 1 ∧ SetupSafe .vmodttl devs ∧ ReleasesBoards .vmodttl devs := by
  obtain ⟨devs, hread, hluns⟩ : ∃ devs, readParams oneCarrier twoBoards = some devs ∧ devs.map VmodDev.lun = [1, 0] :=
    ⟨_, rfl, rfl⟩
  obtain ⟨hminor, hsetup, hrelease⟩ := vmodMinors_iff hread .vmodttl
  have hlength : devs.length = 2 := by
    rw [← List.length_map (f := VmodDev.lun), hluns]
    rfl
  refine ⟨devs, hread, (hminor 1 (by decide)).mpr ?_, hsetup.mpr ?_, hrelease.mpr ?_⟩
  · have hone : (1 : ℤ) ∈ devs.map VmodDev.lun := by
      rw [hluns]
      decide
    exact List.mem_map.mp hone
  · have hall : ∀ lun ∈ devs.map VmodDev.lun, lun < (vmodMaxBoards : ℤ) := by
      rw [hluns]
      decide
    exact fun mod hmem => hall mod.lun (List.mem_map_of_mem hmem)
  · show (devs.map VmodDev.lun).Perm ((List.range devs.length).map fun i : ℕ => (i : ℤ))
    rw [hluns, hlength]
    decide

/-- One board, with lun 1. -/
def oneBoard : VmodParams := ⟨[1], [[118]], [0], [0]⟩

/-- A lun that no board has is used as an index behind the table. -/
theorem open_unconfigured_minor : ¬ ∀ (R : Type) (register : CarrierRegister GetAddressSpace R) (params : VmodParams)
    (devs : List VmodDev) (driver : VmodDriver), readParams register params = some devs →
      (∀ minor < driver.minors, MinorSafe driver devs minor) ∧ SetupSafe driver devs ∧ ReleasesBoards driver devs := by
  intro h
  obtain ⟨devs, hread, hluns⟩ : ∃ devs, readParams oneCarrier oneBoard = some devs ∧ devs.map VmodDev.lun = [1] :=
    ⟨_, rfl, rfl⟩
  have hsafe := (h Unit oneCarrier oneBoard devs .vmod12e16 hread).1 0 (by decide)
  obtain ⟨mod, hmem, hlun⟩ := (minorSafe_iff .vmod12e16 (readParams_spec hread).1 (by decide)).mp hsafe
  have hzero : (0 : ℤ) ∈ devs.map VmodDev.lun := List.mem_map.mpr ⟨mod, hmem, hlun⟩
  rw [hluns] at hzero
  exact absurd hzero (by decide)

end HtDrivers.Vmod
