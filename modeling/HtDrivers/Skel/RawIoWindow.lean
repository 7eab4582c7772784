import HtDrivers.Lib.Strides
import HtDrivers.Skel.RawIoBlock

/-! Which raw block transfers stay in the window of their address space. The call compares the first address with
the window; the other ones follow in equal strides. -/
namespace HtDrivers.Skel
open HtDrivers.Lib.Strides
set_option autoImplicit false

/-! ## Statements -/

/-- The bytes of an access lie in the window. -/
def InWindow (anyas : InsLibAnyAddressSpace) (a : Access) : Prop :=
  (a.address - anyas.mapped).toNat + a.function.size ≤ anyas.windowSize.toNat

/-- A call fails, or divides by no zero and stays in the window. -/
def WindowSafe (spaces : Option (List InsLibAnyAddressSpace)) (kbuf : Option (ℕ → Byte)) (resp : ℕ → ℕ → Byte)
    (user : UserMemory) (riob : SkelDrvrRawIoTransferBlock) (flag : Bool) : Prop :=
  match rawIoBlock spaces kbuf resp user riob flag with
  | .error e => e ≠ .divideByZero
  | .ok s => ∃ anyas, insLibGetAddressSpace spaces riob.spaceNumber = some anyas ∧ ∀ a ∈ s.accesses, InWindow anyas a

/-- `n` items fit into a window: the first and the last one do, if a stride is too short to pass round the addresses
outside of the window, and else each of them does. -/
def ItemsFit (windowSize : ℕ) (offset stride : BitVec 32) (size n : ℕ) : Prop :=
  offset.toNat + size ≤ windowSize ∧
    if stride.toInt.natAbs + windowSize < 2^32 + size then
      0 ≤ wide offset stride (n - 1) ∧ wide offset stride (n - 1) + size ≤ windowSize
    else ∀ i < n, (place offset stride i).toNat + size ≤ windowSize

/-- The width of a request is no fraction of a byte, and its items fit, if there is memory for the buffer; a read of
8 bit items always does. -/
def RequestFits (anyas : InsLibAnyAddressSpace) (kbuf : Option (ℕ → Byte)) (riob : SkelDrvrRawIoTransferBlock)
    (flag : Bool) : Prop :=
  let r := rawIo anyas riob flag
  8 ≤ r.tszbt ∧ (kbuf = none ∨ flag = false ∧ r.function = .io8 ∨
    ItemsFit anyas.windowSize.toNat riob.offset r.stride r.function.size (transfers riob.bytesTr r.tszby))

/-! ## Accesses in the window -/

section Window
variable {anyas : InsLibAnyAddressSpace} {riob : SkelDrvrRawIoTransferBlock} {flag : Bool}
  {spaces : Option (List InsLibAnyAddressSpace)} {kbuf : Option (ℕ → Byte)} {resp : ℕ → ℕ → Byte} {user : UserMemory}
  {windowSize size n : ℕ} {offset stride : BitVec 32}

theorem transfers_pos (bytesTr : BitVec 32) (tszby : ℕ) : 0 < transfers bytesTr tszby := by
  unfold transfers
  generalize bytesTr.toNat / tszby = tremg
  dsimp only
  split <;> omega

theorem itemsFit_iff (hn : 0 < n) :
    ItemsFit windowSize offset stride size n ↔ ∀ i < n, (place offset stride i).toNat + size ≤ windowSize := by
  unfold ItemsFit
  by_cases hgap : stride.toInt.natAbs + windowSize < 2^32 + size
  · rw [if_pos hgap]
    by_cases hfirst : offset.toNat + size ≤ windowSize
    · have hwalk := walk_le_iff (n := n - 1) (show offset.toNat ≤ windowSize - size by omega)
        (show stride.toInt.natAbs + (windowSize - size) < 2^32 by omega)
      constructor
      · rintro ⟨-, h0, hle⟩ i hi
        have hplace := hwalk.mpr ⟨h0, by omega⟩ i (by omega)
        omega
      · intro hall
        obtain ⟨h0, hle⟩ := hwalk.mp fun i hi => by
          have hplace := hall i (by omega)
          omega
        exact ⟨hfirst, h0, by omega⟩
    · refine iff_of_false (fun hfit => hfirst hfit.1) (fun hall => hfirst ?_)
      have hplace := hall 0 hn
      rw [place_zero] at hplace
      exact hplace
  · rw [if_neg hgap]
    refine ⟨fun hfit => hfit.2, fun hall => ⟨?_, hall⟩⟩
    have hplace := hall 0 hn
    rw [place_zero] at hplace
    exact hplace

theorem itemsFit_iff_last (h : windowSize ≤ 2^31) (hsize : 0 < size) : ItemsFit windowSize offset stride size n ↔
    offset.toNat + size ≤ windowSize ∧ 0 ≤ wide offset stride (n - 1) ∧ wide offset stride (n - 1) + size ≤
    windowSize := by
  have hlo := BitVec.le_toInt stride
  have hhi := BitVec.toInt_lt (x := stride)
  have hgap : stride.toInt.natAbs + windowSize < 2^32 + size := by omega
  unfold ItemsFit
  rw [if_pos hgap]

theorem itemAddress_sub (i : ℕ) : (rawIo anyas riob flag).itemAddress i - anyas.mapped =
    if flag = false ∧ (rawIo anyas riob flag).function = .io8 then riob.offset
    else place riob.offset (rawIo anyas riob flag).stride i := by
  have hmmap : (rawIo anyas riob flag).mmap = anyas.mapped + riob.offset := rfl
  have hflag : (rawIo anyas riob flag).flag = flag := rfl
  unfold RawIo.itemAddress
  rw [hflag, hmmap]
  by_cases hread : flag = false ∧ (rawIo anyas riob flag).function = .io8
  · rw [if_pos hread, if_pos hread, BitVec.add_comm, BitVec.add_sub_cancel]
  · rw [if_neg hread, if_neg hread, BitVec.add_assoc, BitVec.add_comm, BitVec.add_sub_cancel]
    rfl

/-- The accesses of a run are those to its items. -/
theorem forall_access_iff {s : RawIoState} {P : IoFunction → BitVec 32 → Prop} {r : RawIo}
    (h : s.accesses.map Access.target = (List.range n).map fun j => (r.function, r.itemAddress j)) :
    (∀ a ∈ s.accesses, P a.function a.address) ↔ ∀ i < n, P r.function (r.itemAddress i) := by
  have htarget : (∀ a ∈ s.accesses, P a.function a.address) ↔ ∀ t ∈ s.accesses.map Access.target, P t.1 t.2 := by
    rw [List.forall_mem_map]
    exact Iff.rfl
  rw [htarget, h, List.forall_mem_map]
  exact forall_congr' fun i => imp_congr List.mem_range Iff.rfl

theorem rawIoBlock_safe_iff (hoffset : riob.offset.toNat < anyas.windowSize.toNat)
    (hby : 0 < (rawIo anyas riob flag).tszby) (kbuf : ℕ → Byte) :
    (∀ a ∈ (copyRest (rawIo anyas riob flag) (transferLoop (rawIo anyas riob flag) resp
        (transfers riob.bytesTr (rawIo anyas riob flag).tszby)
        (startState (rawIo anyas riob flag) user kbuf))).accesses, InWindow anyas a) ↔
    flag = false ∧ (rawIo anyas riob flag).function = .io8 ∨
      ItemsFit anyas.windowSize.toNat riob.offset (rawIo anyas riob flag).stride (rawIo anyas riob flag).function.size
        (transfers riob.bytesTr (rawIo anyas riob flag).tszby) := by
  have hn := transfers_pos riob.bytesTr (rawIo anyas riob flag).tszby
  obtain ⟨q, m, hat⟩ := transferLoop_at (transfers riob.bytesTr (rawIo anyas riob flag).tszby) resp user kbuf
    (show (rawIo anyas riob flag).ksize = _ from rfl) hby
    (lt_min hn (by decide))
  rw [copyRest_accesses]
  unfold InWindow
  rw [forall_access_iff (P := fun f address => (address - anyas.mapped).toNat + f.size ≤ anyas.windowSize.toNat)
    hat.targets]
  simp only [itemAddress_sub]
  by_cases hread : flag = false ∧ (rawIo anyas riob flag).function = .io8
  · refine iff_of_true (fun i _ => ?_) (.inl hread)
    rw [if_pos hread, hread.2]
    exact hoffset
  · rw [itemsFit_iff hn, or_iff_right hread]
    simp only [if_neg hread]

theorem windowSafe_space_iff (hspace : insLibGetAddressSpace spaces riob.spaceNumber = some anyas)
    (hwindow : anyas.windowSize ≠ 0) :
    WindowSafe spaces kbuf resp user riob flag ↔ anyas.windowSize ≤ riob.offset ∨ RequestFits anyas kbuf riob flag := by
  unfold WindowSafe rawIoBlock
  rw [hspace]
  simp only [Option.some.injEq, exists_eq_left']
  by_cases hoffset : anyas.windowSize ≤ riob.offset
  · rw [if_pos ⟨hwindow, hoffset⟩]
    exact iff_of_true nofun (.inl hoffset)
  · rw [if_neg (fun hrefused => hoffset hrefused.2), or_iff_right hoffset]
    unfold RequestFits
    have htszby : (rawIo anyas riob flag).tszby = (rawIo anyas riob flag).tszbt / 8 := rfl
    by_cases hbits : (rawIo anyas riob flag).tszby = 0
    · rw [if_pos hbits]
      refine iff_of_false (fun hne => hne rfl) (fun hfit => ?_)
      have hwidth := hfit.1
      omega
    · rw [if_neg hbits]
      have hwidth : 8 ≤ (rawIo anyas riob flag).tszbt := by omega
      cases kbuf with
      | none => exact iff_of_true nofun ⟨hwidth, .inl rfl⟩
      | some kbuf =>
        have hlt : riob.offset.toNat < anyas.windowSize.toNat := BitVec.lt_def.mp (BitVec.not_le.mp hoffset)
        refine (rawIoBlock_safe_iff hlt (Nat.pos_of_ne_zero hbits) kbuf).trans ?_
        simp only [hwidth, true_and, reduceCtorEq, false_or]

/-- A transfer stays in its window exactly when it is refused for its offset or its request fits. -/
theorem windowSafe_iff (hspaces : ∀ anyas ∈ spaces.getD [], anyas.windowSize ≠ 0) :
    WindowSafe spaces kbuf resp user riob flag ↔ ∀ anyas, insLibGetAddressSpace spaces riob.spaceNumber = some anyas →
      anyas.windowSize ≤ riob.offset ∨ RequestFits anyas kbuf riob flag := by
  cases hspace : insLibGetAddressSpace spaces riob.spaceNumber with
  | none =>
    have hrefused : rawIoBlock spaces kbuf resp user riob flag = .error .enxio := by
      unfold rawIoBlock
      rw [hspace]
    unfold WindowSafe
    rw [hrefused]
    exact iff_of_true nofun nofun
  | some anyas =>
    have hwindow : anyas.windowSize ≠ 0 := hspaces anyas (List.mem_of_find?_eq_some hspace)
    rw [windowSafe_space_iff hspace hwindow]
    simp only [Option.some.injEq, forall_eq']

end Window

/-- A window of four bytes, with 32 bit items. -/
def fourBytes : InsLibAnyAddressSpace := ⟨0x1000, 1, 4, 32, true, by decide⟩

/-- `bytesTr` bytes from the start of space 1, in steps of one item of the given width. -/
def fromStart (dataWidth bytesTr : BitVec 32) : SkelDrvrRawIoTransferBlock := ⟨1, 0, dataWidth, 1, bytesTr⟩

/-- A window of two pages, with 32 bit items. -/
def twoPages : InsLibAnyAddressSpace := ⟨0x8000, 1, 0x2000, 32, true, by decide⟩

theorem windowSafe_twoPages : WindowSafe (some [twoPages]) (some fun _ => 0) (fun _ _ => 0) (fun _ => some 0)
    (fromStart 0 6000) true := by
  refine (windowSafe_iff fun anyas hmem => ?_).mpr fun anyas hspace => .inr ?_
  · rw [List.mem_singleton.mp hmem]
    decide
  · have hpages : insLibGetAddressSpace (some [twoPages]) (fromStart 0 6000).spaceNumber = some twoPages := rfl
    rw [← Option.some.inj (hpages.symm.trans hspace)]
    exact ⟨by decide, .inr (.inr ((itemsFit_iff_last (by decide) (by decide)).mpr (by decide)))⟩

/-- The second item of a transfer is behind the window. -/
theorem rawIoBlock_leaves_window : ¬ ∀ (spaces : Option (List InsLibAnyAddressSpace)) (kbuf : Option (ℕ → Byte))
    (resp : ℕ → ℕ → Byte) (user : UserMemory) (riob : SkelDrvrRawIoTransferBlock) (flag : Bool),
    (∀ anyas ∈ spaces.getD [], anyas.windowSize ≠ 0 ∧ anyas.dataWidth ∈ [8, 16, 32]) →
      WindowSafe spaces kbuf resp user riob flag := by
  intro h
  have hspaces : ∀ anyas ∈ (some [fourBytes]).getD [], anyas.windowSize ≠ 0 ∧ anyas.dataWidth ∈ [8, 16, 32] := by
    intro anyas hmem
    rw [List.mem_singleton.mp hmem]
    decide
  have hsafe := h (some [fourBytes]) (some fun _ => 0) (fun _ _ => 0) (fun _ => some 0) (fromStart 0 8) true hspaces
  obtain hrefused | ⟨-, hnone | hread | hfit⟩ := (windowSafe_space_iff rfl (by decide)).mp hsafe
  · exact absurd hrefused (by decide)
  · cases hnone
  · exact absurd hread.1 (by decide)
  · exact absurd ((itemsFit_iff_last (by decide) (by decide)).mp hfit) (by decide)

-- a width of one bit makes items of no bytes
example : rawIoBlock (some [fourBytes]) (some fun _ => 0) (fun _ _ => 0) (fun _ => some 0)
    (fromStart 1 4) true = .error .divideByZero := rfl

end HtDrivers.Skel
