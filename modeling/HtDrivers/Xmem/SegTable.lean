import HtDrivers.Lib.Masks
import Mathlib.Data.Finset.Card

/-! The table of the segments: how the library and the driver find a segment in it (`libxmem.c`, `xmemDrvr.c`). -/
namespace HtDrivers.Xmem
set_option autoImplicit false

def xmemDrvrSegments : ℕ := 32

structure XmemDrvrSegDesc where
  name : List Char
  id : BitVec 32
  size : BitVec 32
  address : BitVec 32
  nodes : BitVec 32
  user : BitVec 32
deriving DecidableEq

structure XmemDrvrSegTable where
  used : BitVec 32
  descriptors : ℕ → XmemDrvrSegDesc

section Library
variable (tab : XmemDrvrSegTable)

/-- The loops of the library: the first descriptor that satisfies the test and whose position is a bit of `Used`. -/
def findTable (test : XmemDrvrSegDesc → Bool) : Option XmemDrvrSegDesc :=
  ((List.range xmemDrvrSegments).find? fun i => tab.used.getLsbD i && test (tab.descriptors i)).map tab.descriptors

def xmemGetTableName (table : BitVec 32) : Option (List Char) :=
  (findTable tab fun segment => table == segment.id).map XmemDrvrSegDesc.name

def xmemGetTableId (name : List Char) : Option (BitVec 32) :=
  (findTable tab fun segment => name == segment.name).map XmemDrvrSegDesc.id

def xmemHfElems : ℕ := 4

def privToPubElems (enabled : Bool) (privElems : ℕ) : ℤ :=
  if enabled then (privElems : ℤ) - (xmemHfElems : ℤ) else (privElems : ℤ)

structure TableDesc where
  elems : ℤ
  nodes : BitVec 32
  user : BitVec 32
deriving DecidableEq

/-- `enabled` says whether markers are enabled. -/
def tableDesc (enabled : Bool) (segment : XmemDrvrSegDesc) : TableDesc :=
  ⟨privToPubElems enabled (segment.size.toNat / 4), segment.nodes, segment.user⟩

def xmemGetTableDesc (enabled : Bool) (table : BitVec 32) : Option TableDesc :=
  (findTable tab fun segment => table == segment.id).map (tableDesc enabled)

end Library

section Driver
variable (tab : XmemDrvrSegTable)

/-- Whether the segment is defined, and its index, which is left alone when no bit is set; the last mask of the loop is
then that of bit 31. -/
def getSeg (segid : BitVec 32) : Bool × Option ℕ :=
  match (List.range xmemDrvrSegments).find? segid.getLsbD with
  | some i => (tab.used.getLsbD i, some i)
  | none => (tab.used.getLsbD (xmemDrvrSegments - 1), none)

/-- The descriptor that `GetSeg` leads to. -/
def segmentOf (segid : BitVec 32) : Option XmemDrvrSegDesc :=
  if (getSeg tab segid).1 then (getSeg tab segid).2.map tab.descriptors else none

def nodeMask (node : ℕ) : BitVec 32 := (1 : BitVec 32) <<< (node - 1)

def wrPermSeg (segid : BitVec 32) (node : ℕ) : Bool :=
  (segmentOf tab segid).any fun segment => nodeMask node &&& segment.nodes != 0

/-- The segments that `FlushSegments` copies, with the masks that it uses as their Ids. -/
def flushSegments (mask : BitVec 32) : List (BitVec 32 × XmemDrvrSegDesc) :=
  ((List.range xmemDrvrSegments).filter fun i => mask.getLsbD i && tab.used.getLsbD i).map fun i =>
    (BitVec.twoPow 32 i, tab.descriptors i)

end Driver

/-! ## Lookups -/

section Lookups
variable {tab : XmemDrvrSegTable} {test : XmemDrvrSegDesc → Bool} {segment : XmemDrvrSegDesc} {i n : ℕ}

theorem findTable_used (h : findTable tab test = some segment) :
    ∃ i < 32, tab.used.getLsbD i = true ∧ test segment = true ∧ tab.descriptors i = segment := by
  unfold findTable at h
  obtain ⟨i, hfind, rfl⟩ := Option.map_eq_some_iff.mp h
  have htest := List.find?_some hfind
  have hlt : i < 32 := List.mem_range.mp (List.mem_of_find?_eq_some hfind)
  rw [Bool.and_eq_true] at htest
  exact ⟨i, hlt, htest.1, htest.2, rfl⟩

theorem findTable_isSome (test : XmemDrvrSegDesc → Bool) (hi : i < 32) (hused : tab.used.getLsbD i = true)
    (htest : test (tab.descriptors i) = true) : ∃ segment, findTable tab test = some segment := by
  unfold findTable
  cases hfind : (List.range xmemDrvrSegments).find? fun i => tab.used.getLsbD i && test (tab.descriptors i) with
  | some j => exact ⟨_, rfl⟩
  | none =>
    have hnone := List.find?_eq_none.mp hfind i (List.mem_range.mpr hi)
    simp [hused, htest] at hnone

theorem getSeg_twoPow (hi : i < 32) : getSeg tab (BitVec.twoPow 32 i) = (tab.used.getLsbD i, some i) := by
  have hfind : (List.range xmemDrvrSegments).find? (BitVec.twoPow 32 i).getLsbD = some i := by
    rw [List.find?_eq_some_iff_append]
    refine ⟨by simp [hi], List.range i, (List.range (31 - i)).map fun j => i + 1 + j, ?_, fun j hj => ?_⟩
    · have hsplit : xmemDrvrSegments = i + (1 + (31 - i)) := by
        unfold xmemDrvrSegments
        omega
      rw [hsplit, List.range_add, List.range_add]
      simp [Function.comp_def, Nat.add_assoc]
    · have hlt := List.mem_range.mp hj
      have hne : i ≠ j := by omega
      simp [BitVec.getLsbD_twoPow, hne]
  unfold getSeg
  rw [hfind]

theorem segmentOf_twoPow (hi : i < 32) (hused : tab.used.getLsbD i = true) :
    segmentOf tab (BitVec.twoPow 32 i) = some (tab.descriptors i) := by
  unfold segmentOf
  rw [getSeg_twoPow hi, hused]
  rfl

end Lookups

/-! ## Tables that are found by their Id -/

section Found
variable {tab : XmemDrvrSegTable} {n : ℕ}

/-- A table with `n` entries, as the library fills it: single-bit Ids and names that differ, and a bit of `Used` for
each Id. -/
structure Filled (tab : XmemDrvrSegTable) (n : ℕ) : Prop where
  le : n ≤ 32
  used : ∀ b, tab.used.getLsbD b = true ↔ ∃ i < n, (tab.descriptors i).id.getLsbD b = true
  single : ∀ i < n, ∃ b < 32, (tab.descriptors i).id = BitVec.twoPow 32 b
  ids : ∀ i < n, ∀ j < n, (tab.descriptors i).id = (tab.descriptors j).id → i = j
  names : ∀ i < n, ∀ j < n, (tab.descriptors i).name = (tab.descriptors j).name → i = j

/-- What the driver uses of a descriptor. -/
def SameSegment (segment segment' : XmemDrvrSegDesc) : Prop :=
  segment.address = segment'.address ∧ segment.size = segment'.size ∧ segment.nodes = segment'.nodes

/-- Every entry is found by its name and its Id, no other name or Id is found, and the driver uses the data of the entry
for its Id. -/
structure FoundById (tab : XmemDrvrSegTable) (n : ℕ) : Prop where
  name : ∀ id name, xmemGetTableName tab id = some name ↔
    ∃ i < n, (tab.descriptors i).id = id ∧ (tab.descriptors i).name = name
  id : ∀ name id, xmemGetTableId tab name = some id ↔
    ∃ i < n, (tab.descriptors i).name = name ∧ (tab.descriptors i).id = id
  desc : ∀ enabled id desc, xmemGetTableDesc tab enabled id = some desc ↔
    ∃ i < n, (tab.descriptors i).id = id ∧ tableDesc enabled (tab.descriptors i) = desc
  driver : ∀ i < n, ∃ segment, segmentOf tab (tab.descriptors i).id = some segment ∧
    SameSegment segment (tab.descriptors i)
  perm : ∀ i < n, ∀ node, wrPermSeg tab (tab.descriptors i).id node = true ↔
    nodeMask node &&& (tab.descriptors i).nodes ≠ 0
  flush : ∀ mask id segment, (id, segment) ∈ flushSegments tab mask →
    ∃ i < n, (tab.descriptors i).id = id ∧ SameSegment segment (tab.descriptors i)

/-- The Ids are the lowest bits, and the entry at the position of the bit of an Id has the segment of that Id. -/
structure InBitOrder (tab : XmemDrvrSegTable) (n : ℕ) : Prop where
  lowest : ∀ b < n, ∃ i < n, (tab.descriptors i).id = BitVec.twoPow 32 b
  aligned : ∀ i < n, ∀ b < 32, (tab.descriptors i).id = BitVec.twoPow 32 b →
    SameSegment (tab.descriptors b) (tab.descriptors i)

theorem twoPow_bit {b k : ℕ} (hb : b < 32) : (BitVec.twoPow 32 b).getLsbD k = true ↔ k = b := by
  rw [BitVec.getLsbD_twoPow]
  simp only [hb, decide_true, Bool.true_and, decide_eq_true_eq]
  exact eq_comm

theorem Filled.used_twoPow (h : Filled tab n) {b : ℕ} (hb : b < 32) :
    tab.used.getLsbD b = true ↔ ∃ i < n, (tab.descriptors i).id = BitVec.twoPow 32 b := by
  rw [h.used b]
  constructor
  · intro hbit
    obtain ⟨i, hi, hbit⟩ := hbit
    obtain ⟨k, hk, hid⟩ := h.single i hi
    rw [hid, twoPow_bit hk] at hbit
    exact ⟨i, hi, hbit ▸ hid⟩
  · intro hid
    obtain ⟨i, hi, hid⟩ := hid
    refine ⟨i, hi, ?_⟩
    rw [hid, twoPow_bit hb]

/-- There are as many used bits as entries, so they are the lowest ones as soon as all of these are used. -/
theorem Filled.used_lt (h : Filled tab n) (hlow : ∀ b < n, tab.used.getLsbD b = true) {b : ℕ}
    (hb : tab.used.getLsbD b = true) : b < n := by
  have hbits : ∀ i < n, ∃ b, b < 32 ∧ (tab.descriptors i).id = BitVec.twoPow 32 b := h.single
  choose! bit hlt hid using hbits
  have hinj : Set.InjOn bit (Finset.range n : Set ℕ) := by
    intro i hi j hj heq
    have hi := Finset.mem_range.mp hi
    have hj := Finset.mem_range.mp hj
    exact h.ids i hi j hj (by rw [hid i hi, hid j hj, heq])
  have hsubset : Finset.range n ⊆ (Finset.range n).image bit := by
    intro c hc
    have hc := Finset.mem_range.mp hc
    obtain ⟨i, hi, hset⟩ := (h.used c).mp (hlow c hc)
    rw [hid i hi, twoPow_bit (hlt i hi)] at hset
    exact Finset.mem_image.mpr ⟨i, Finset.mem_range.mpr hi, hset.symm⟩
  have hall := Finset.eq_of_subset_of_card_le hsubset (Finset.card_image_of_injOn hinj).le
  obtain ⟨i, hi, hset⟩ := (h.used b).mp hb
  rw [hid i hi, twoPow_bit (hlt i hi)] at hset
  have hmem : bit i ∈ (Finset.range n).image bit := Finset.mem_image_of_mem bit (Finset.mem_range.mpr hi)
  rw [← hall] at hmem
  rw [hset]
  exact Finset.mem_range.mp hmem

theorem InBitOrder.used_iff (h : InBitOrder tab n) (hfilled : Filled tab n) {b : ℕ} :
    tab.used.getLsbD b = true ↔ b < n := by
  have hlow : ∀ b < n, tab.used.getLsbD b = true := fun b hb =>
    (hfilled.used_twoPow (hb.trans_le hfilled.le)).mpr (h.lowest b hb)
  exact ⟨hfilled.used_lt hlow, hlow b⟩

/-- With the lowest bits used a lookup by a key that differs from entry to entry finds the entry with this key. -/
theorem InBitOrder.find_key {κ α : Type} [BEq κ] [LawfulBEq κ] (h : InBitOrder tab n) (hfilled : Filled tab n)
    {key : XmemDrvrSegDesc → κ}
    (hunique : ∀ i < n, ∀ j < n, key (tab.descriptors i) = key (tab.descriptors j) → i = j)
    (f : XmemDrvrSegDesc → α) (k : κ) (x : α) :
    (findTable tab fun segment => k == key segment).map f = some x ↔
      ∃ i < n, key (tab.descriptors i) = k ∧ f (tab.descriptors i) = x := by
  rw [Option.map_eq_some_iff]
  constructor
  · intro hfind
    obtain ⟨segment, hfind, hx⟩ := hfind
    obtain ⟨i, -, hused, htest, rfl⟩ := findTable_used hfind
    exact ⟨i, (h.used_iff hfilled).mp hused, (beq_iff_eq.mp htest).symm, hx⟩
  · intro hentry
    obtain ⟨i, hi, hkey, hx⟩ := hentry
    have htest : (k == key (tab.descriptors i)) = true := beq_iff_eq.mpr hkey.symm
    obtain ⟨found, hfound⟩ := findTable_isSome (fun segment => k == key segment) (hi.trans_le hfilled.le)
      ((h.used_iff hfilled).mpr hi) htest
    obtain ⟨j, -, hused, hjtest, rfl⟩ := findTable_used hfound
    have hjkey := beq_iff_eq.mp hjtest
    obtain rfl := hunique i hi j ((h.used_iff hfilled).mp hused) (hkey.trans hjkey)
    exact ⟨_, hfound, hx⟩

theorem InBitOrder.segmentOf (h : InBitOrder tab n) (hfilled : Filled tab n) {i : ℕ} (hi : i < n) :
    ∃ segment, segmentOf tab (tab.descriptors i).id = some segment ∧ SameSegment segment (tab.descriptors i) := by
  obtain ⟨b, hb, hid⟩ := hfilled.single i hi
  have hused := (hfilled.used_twoPow hb).mpr ⟨i, hi, hid⟩
  refine ⟨tab.descriptors b, ?_, h.aligned i hi b hb hid⟩
  rw [hid]
  exact segmentOf_twoPow hb hused

theorem InBitOrder.foundById (h : InBitOrder tab n) (hfilled : Filled tab n) : FoundById tab n := by
  refine ⟨h.find_key hfilled hfilled.ids _, h.find_key hfilled hfilled.names XmemDrvrSegDesc.id, fun enabled =>
    h.find_key hfilled hfilled.ids _, fun i hi => h.segmentOf hfilled hi, fun i hi node => ?_,
    fun mask id segment hmem => ?_⟩
  · obtain ⟨segment, hsegment, hsame⟩ := h.segmentOf hfilled hi
    unfold wrPermSeg
    rw [hsegment, Option.any_some, hsame.2.2]
    exact bne_iff_ne
  · unfold flushSegments at hmem
    obtain ⟨b, hb, heq⟩ := List.mem_map.mp hmem
    obtain ⟨rfl, rfl⟩ := Prod.mk.inj heq
    have hlt : b < 32 := List.mem_range.mp (List.mem_of_mem_filter hb)
    have hused := (List.mem_filter.mp hb).2
    rw [Bool.and_eq_true] at hused
    obtain ⟨i, hi, hid'⟩ := (hfilled.used_twoPow hlt).mp hused.2
    exact ⟨i, hi, hid', h.aligned i hi b hlt hid'⟩

/-- Where nothing was left behind the entries, they are found only if their Ids are in the order of the bits. -/
theorem FoundById.inBitOrder (h : FoundById tab n) (hfilled : Filled tab n)
    (hclean : ∀ j, n ≤ j → (tab.descriptors j).id = 0) : InBitOrder tab n := by
  have hlow : ∀ b < n, tab.used.getLsbD b = true := by
    intro b hb
    have hfound := (h.name (tab.descriptors b).id (tab.descriptors b).name).mpr ⟨b, hb, rfl, rfl⟩
    unfold xmemGetTableName at hfound
    obtain ⟨segment, hfind, -⟩ := Option.map_eq_some_iff.mp hfound
    obtain ⟨j, -, hused, htest, rfl⟩ := findTable_used hfind
    rw [beq_iff_eq] at htest
    have hj : j < n := by
      by_contra hge
      obtain ⟨k, hk, hid⟩ := hfilled.single b hb
      have hzero := congrArg (BitVec.getLsbD · k) (htest.trans (hclean j (Nat.le_of_not_lt hge)))
      rw [hid] at hzero
      simp [hk] at hzero
    obtain rfl := hfilled.ids b hb j hj htest
    exact hused
  refine ⟨fun b hb => (hfilled.used_twoPow (hb.trans_le hfilled.le)).mp (hlow b hb), fun i hi b hb hid => ?_⟩
  obtain ⟨segment, hsegment, hsame⟩ := h.driver i hi
  have hused := (hfilled.used_twoPow hb).mpr ⟨i, hi, hid⟩
  rw [hid, segmentOf_twoPow hb hused] at hsegment
  obtain rfl := Option.some.inj hsegment
  exact hsame

end Found

end HtDrivers.Xmem
