import HtDrivers.Xmem.SegTable
import HtDrivers.Lib.Transition

/-! Tables that are wrapped by markers, a header and a footer (`libxmem.c`). The offsets count elements, words of 32
bits. -/
namespace HtDrivers.Xmem
open HtDrivers.Lib.Transition
set_option autoImplicit false

def xmemMarkersDisable : BitVec 32 := 0x1
def xmemMarkersEnable : BitVec 32 := 0x2
def xmemMarkersAtomic : BitVec 32 := 0x4
def xmemMarkersChecksum : BitVec 32 := 0x8
def xmemMarkersAll : BitVec 32 := 0xF

def xmemHElems : ℕ := 3

/-- The new mask. -/
def xmemSetMarkersMask (omask mask : BitVec 32) : BitVec 32 :=
  let mask := if mask &&& xmemMarkersEnable ≠ 0 then
    if mask &&& xmemMarkersDisable ≠ 0 then xmemMarkersDisable else mask
  else xmemMarkersDisable
  let mask := mask &&& xmemMarkersAll
  let mask := if mask &&& xmemMarkersChecksum ≠ 0 ∧ mask &&& xmemMarkersAtomic = 0 then mask &&& ~~~xmemMarkersChecksum
    else mask
  if mask ≠ 0 then mask else omask

/-- The masks that calls of `XmemSetMarkersMask` lead to. -/
inductive Settable : BitVec 32 → Prop
  | disable : Settable xmemMarkersDisable
  | set {omask : BitVec 32} (mask : BitVec 32) : Settable omask → Settable (xmemSetMarkersMask omask mask)

/-- One `routines.SendTable`: these words, of which `dataElems` from `dataFrom` on are the user's. -/
structure TableWrite where
  eloff : ℕ
  words : List (BitVec 32)
  dataFrom : ℕ
  dataElems : ℕ

def TableWrite.Covers (write : TableWrite) (w : ℕ) : Prop := write.eloff ≤ w ∧ w < write.eloff + write.words.length

def TableWrite.Carries (write : TableWrite) (w : ℕ) : Prop :=
  write.eloff + write.dataFrom ≤ w ∧ w < write.eloff + write.dataFrom + write.dataElems

instance (write : TableWrite) (w : ℕ) : Decidable (write.Covers w) := inferInstanceAs (Decidable (_ ∧ _))

instance (write : TableWrite) (w : ℕ) : Decidable (write.Carries w) := inferInstanceAs (Decidable (_ ∧ _))

def applyWrite (words : ℕ → BitVec 32) (write : TableWrite) : ℕ → BitVec 32 :=
  fun w => if write.Covers w then write.words.getD (w - write.eloff) 0 else words w

def readWords (words : ℕ → BitVec 32) (eloff elems : ℕ) : List (BitVec 32) :=
  (List.range elems).map fun i => words (eloff + i)

def adlerBase : ℕ := 65521
def adlerNmax : ℕ := 5552

/-- The two sums over the bytes, reduced after each run of `NMAX`; they fit into an unsigned long. -/
def zlibAdler32 (adler : ℕ) (buf : List ℕ) : ℕ :=
  let sums := (buf.toChunks adlerNmax).foldl (fun s chunk =>
    let s := chunk.foldl (fun s byte => (s.1 + byte, s.2 + (s.1 + byte))) s
    (s.1 % adlerBase, s.2 % adlerBase)) (adler % 2 ^ 16, adler / 2 ^ 16 % 2 ^ 16)
  sums.2 * 2 ^ 16 + sums.1

/-- `bytesOf` are the bytes of a word as they lie in memory. -/
def calcAdler32 (bytesOf : BitVec 32 → List ℕ) (pubBuf : List (BitVec 32)) : BitVec 32 :=
  BitVec.ofNat 32 (zlibAdler32 1 (pubBuf.flatMap bytesOf))

/-- What a call meets: which of its `routines` calls work, whether `malloc` does, the value of `rand`, what the checksum
of a header holds before it is filled in, and what there is at the place of the footer before that, in the bounce buffer
or behind it. -/
structure MarkerEnv where
  works : ℕ → Bool
  malloc : Bool
  rand : BitVec 32
  stale : BitVec 32
  beyond : BitVec 32

inductive MarkerError
  | io | enomem | incoherentMarkers | checksum
deriving DecidableEq

structure Header where
  val : BitVec 32
  checksum : BitVec 32
  size : BitVec 32

def Header.words (header : Header) : List (BitVec 32) := [header.val, header.checksum, header.size]

section Library
variable (bytesOf : BitVec 32 → List ℕ) (mask : BitVec 32)

def hEloff (pubEloff : ℕ) : ℕ := pubEloff

def physEloff (pubEloff : ℕ) : ℕ := if mask &&& xmemMarkersEnable ≠ 0 then pubEloff + xmemHElems else pubEloff

def fEloff (pubElems pubEloff : ℕ) : ℕ := physEloff mask pubEloff + pubElems

/-- The header, and the value of the footer. -/
def fillHf (env : MarkerEnv) (pubElems : ℕ) (pubBuf : Option (List (BitVec 32))) : Header × BitVec 32 :=
  let checksum := match pubBuf with
    | none => env.stale
    | some buf => if mask &&& xmemMarkersChecksum ≠ 0 then calcAdler32 bytesOf buf else env.stale
  (⟨env.rand, checksum, BitVec.ofNat 32 (4 * pubElems)⟩, env.rand)

def evaluateHf (val checksum footer : BitVec 32) (pubBuf : Option (List (BitVec 32))) : Option MarkerError :=
  if val ≠ footer then some .incoherentMarkers
  else match pubBuf with
    | none => none
    | some buf => if mask &&& xmemMarkersChecksum ≠ 0 ∧ checksum ≠ calcAdler32 bytesOf buf then some .checksum else none

/-- The error of a call, and what it has written up to there. -/
abbrev SendResult := Option MarkerError × List TableWrite

def sendTableAtomic (env : MarkerEnv) (buf : List (BitVec 32)) (pubEloff : ℕ) : SendResult :=
  if env.malloc = false then (some .enomem, [])
  else
    let hf := fillHf bytesOf mask env buf.length (some buf)
    let bounce := (hf.1.words ++ buf ++ [env.beyond]).set (fEloff mask buf.length pubEloff) hf.2
    if env.works 0 then (none, [⟨hEloff pubEloff, bounce, xmemHElems, buf.length⟩]) else (some .io, [])

def sendTable (env : MarkerEnv) (buf : List (BitVec 32)) (pubEloff : ℕ) : SendResult :=
  let hf := fillHf bytesOf mask env buf.length none
  let header : TableWrite := ⟨hEloff pubEloff, hf.1.words, 0, 0⟩
  let footer : TableWrite := ⟨fEloff mask buf.length pubEloff, [hf.2], 0, 0⟩
  let data : TableWrite := ⟨physEloff mask pubEloff, buf, 0, buf.length⟩
  if env.works 0 = false then (some .io, [])
  else if env.works 1 = false then (some .io, [header])
  else if env.works 2 = false then (some .io, [header, footer])
  else (none, [header, footer, data])

def xmemSendTable (env : MarkerEnv) (buf : List (BitVec 32)) (offset : ℕ) : SendResult :=
  if mask &&& xmemMarkersDisable ≠ 0 then
    if env.works 0 then (none, [⟨physEloff mask offset, buf, 0, buf.length⟩]) else (some .io, [])
  else if mask &&& xmemMarkersAtomic ≠ 0 then sendTableAtomic bytesOf mask env buf offset
  else sendTable bytesOf mask env buf offset

def receiveTableAtomic (env : MarkerEnv) (words : ℕ → BitVec 32) (pubElems pubEloff : ℕ) :
    Except MarkerError (List (BitVec 32)) :=
  if env.malloc = false then .error .enomem
  else if env.works 0 = false then .error .io
  else
    let bounce := readWords words (hEloff pubEloff) (pubElems + xmemHfElems)
    let buf := (bounce.drop xmemHElems).take pubElems
    match evaluateHf bytesOf mask (bounce.getD 0 0) (bounce.getD 1 0)
      (bounce.getD (fEloff mask pubElems pubEloff) env.beyond) (some buf) with
    | some err => .error err
    | none => .ok buf

def checkMarkers (env : MarkerEnv) (words : ℕ → BitVec 32) (pubElems pubEloff : ℕ) : Option MarkerError :=
  if mask &&& xmemMarkersDisable ≠ 0 then none
  else if env.works 0 = false then some .io
  else if env.works 1 = false then some .io
  else evaluateHf bytesOf mask (words (hEloff pubEloff)) (words (hEloff pubEloff + 1))
    (words (fEloff mask pubElems pubEloff))
    none

def xmemRecvTable (env : MarkerEnv) (words : ℕ → BitVec 32) (elems offset : ℕ) :
    Except MarkerError (List (BitVec 32)) :=
  if mask &&& xmemMarkersAtomic ≠ 0 then receiveTableAtomic bytesOf mask env words elems offset
  else match checkMarkers bytesOf mask env words elems offset with
    | some err => .error err
    | none => if env.works 2 then .ok (readWords words (physEloff mask offset) elems) else .error .io

/-- The words of a table with the writes so far, the last one first; the value sent last to each public element, at
first what is there; and for each receive that succeeded what it delivered and what was sent. -/
structure MarkerTable where
  words : ℕ → BitVec 32
  log : List TableWrite
  sent : ℕ → BitVec 32
  delivered : List (List (BitVec 32) × List (BitVec 32))

inductive MarkerStep
  | send (env : MarkerEnv) (buf : List (BitVec 32)) (offset : ℕ)
  | recv (env : MarkerEnv) (elems offset : ℕ)

/-- The public elements after `buf` was sent to them. -/
def sendTo (sent : ℕ → BitVec 32) (buf : List (BitVec 32)) (offset : ℕ) : ℕ → BitVec 32 :=
  fun e => if offset ≤ e ∧ e < offset + buf.length then buf.getD (e - offset) 0 else sent e

def markerNext (s : MarkerTable) : MarkerStep → Option MarkerTable
  | .send env buf offset =>
    let result := xmemSendTable bytesOf mask env buf offset
    some { s with
      words := result.2.foldl applyWrite s.words
      log := result.2.reverse ++ s.log
      sent := if result.1 = none then sendTo s.sent buf offset else s.sent }
  | .recv env elems offset =>
    match xmemRecvTable bytesOf mask env s.words elems offset with
    | .error _ => some s
    | .ok data => some { s with delivered := (data, readWords s.sent offset elems) :: s.delivered }

def tableStart (words : ℕ → BitVec 32) : MarkerTable := ⟨words, [], fun e => words (physEloff mask e), []⟩

end Library

/-! ## Masks -/

section Masks
variable {mask : BitVec 32}

/-- A mask that is set enables the markers or is `DISABLE`. -/
theorem settable_cases (h : Settable mask) : mask = xmemMarkersDisable ∨ mask &&& xmemMarkersEnable ≠ 0 := by
  induction h with
  | disable => exact Or.inl rfl
  | @set omask mask _ _ =>
    have hall : mask &&& xmemMarkersAll &&& xmemMarkersEnable = mask &&& xmemMarkersEnable := by
      rw [BitVec.and_assoc]
      rfl
    have hclear : mask &&& xmemMarkersAll &&& ~~~xmemMarkersChecksum &&& xmemMarkersEnable = mask &&&
      xmemMarkersEnable := by
      rw [BitVec.and_assoc, BitVec.and_assoc]
      rfl
    have hkeep : ∀ m : BitVec 32, m &&& xmemMarkersEnable = mask &&& xmemMarkersEnable →
        mask &&& xmemMarkersEnable ≠ 0 → (if m ≠ 0 then m else omask) &&& xmemMarkersEnable ≠ 0 := by
      intro m hm henable
      have hne : m ≠ 0 := by
        rintro rfl
        exact henable (hm.symm.trans (BitVec.zero_and))
      rw [if_pos hne, hm]
      exact henable
    unfold xmemSetMarkersMask
    by_cases henable : mask &&& xmemMarkersEnable ≠ 0
    · by_cases hdisable : mask &&& xmemMarkersDisable ≠ 0
      · simp only [if_pos henable, if_pos hdisable]
        exact Or.inl rfl
      · simp only [if_pos henable, if_neg hdisable]
        right
        by_cases hchecksum : mask &&& xmemMarkersAll &&& xmemMarkersChecksum ≠ 0 ∧
            mask &&& xmemMarkersAll &&& xmemMarkersAtomic = 0
        · simp only [if_pos hchecksum]
          exact hkeep _ hclear henable
        · simp only [if_neg hchecksum]
          exact hkeep _ hall henable
    · simp only [if_neg henable]
      exact Or.inl rfl

theorem physEloff_atomic (h : Settable mask) (hatomic : mask &&& xmemMarkersAtomic ≠ 0) (e : ℕ) :
    physEloff mask e = e + xmemHElems := by
  obtain rfl | henable := settable_cases h
  · exact absurd rfl hatomic
  · exact if_pos henable

theorem physEloff_add (e i : ℕ) : physEloff mask (e + i) = physEloff mask e + i := by
  unfold physEloff
  split
  · exact Nat.add_right_comm e i xmemHElems
  · rfl

theorem physEloff_inj {e e' : ℕ} : physEloff mask e ≤ physEloff mask e' ↔ e ≤ e' := by
  unfold physEloff
  split
  · exact Nat.add_le_add_iff_right
  · rfl

end Masks

/-! ## Words that hold what was sent -/

section Writes
variable {mask : BitVec 32} {words sent : ℕ → BitVec 32} {log : List TableWrite} {write : TableWrite}
  {buf : List (BitVec 32)} {offset : ℕ}

/-- The last write to a word was that of the user's data, if there was one. -/
def LastAsData : List TableWrite → ℕ → Prop
  | [], _ => True
  | write :: log, w => if write.Covers w then write.Carries w else LastAsData log w

/-- Each word of a public element that was last written as such holds what was sent last. -/
def Holds (mask : BitVec 32) (words : ℕ → BitVec 32) (log : List TableWrite) (sent : ℕ → BitVec 32) : Prop :=
  ∀ e, LastAsData log (physEloff mask e) → words (physEloff mask e) = sent e

/-- Words that are not the user's. -/
theorem Holds.marker (h : Holds mask words log sent) (hnone : write.dataElems = 0) :
    Holds mask (applyWrite words write) (write :: log) sent := by
  intro e hlast
  rw [LastAsData] at hlast
  unfold applyWrite
  split at hlast
  · unfold TableWrite.Carries at hlast
    omega
  · rename_i hcovers
    rw [if_neg hcovers]
    exact h e hlast

/-- The user's words, with or without markers around them. -/
theorem Holds.data (h : Holds mask words log sent) (hfrom : write.eloff + write.dataFrom = physEloff mask offset)
    (helems : write.dataElems = buf.length) (hfit : write.dataFrom + buf.length ≤ write.words.length)
    (hwords : ∀ i < buf.length, write.words.getD (write.dataFrom + i) 0 = buf.getD i 0) :
    Holds mask (applyWrite words write) (write :: log) (sendTo sent buf offset) := by
  intro e hlast
  have hcarries : write.Carries (physEloff mask e) ↔ offset ≤ e ∧ e < offset + buf.length := by
    unfold TableWrite.Carries
    rw [hfrom, helems, ← physEloff_add, physEloff_inj, ← Nat.not_le, physEloff_inj, Nat.not_le]
  rw [LastAsData] at hlast
  unfold applyWrite sendTo
  split at hlast
  · rename_i hcovers
    obtain ⟨hle, hlt⟩ := hcarries.mp hlast
    have hplace : physEloff mask e - write.eloff = write.dataFrom + (e - offset) := by
      have hadd : physEloff mask (offset + (e - offset)) = physEloff mask offset + (e - offset) := physEloff_add ..
      rw [Nat.add_sub_cancel' hle] at hadd
      omega
    rw [if_pos hcovers, if_pos ⟨hle, hlt⟩, hplace]
    exact hwords _ (by omega)
  · rename_i hcovers
    have hout : ¬(offset ≤ e ∧ e < offset + buf.length) := by
      rw [← hcarries]
      unfold TableWrite.Covers at hcovers
      unfold TableWrite.Carries
      omega
    rw [if_neg hcovers, if_neg hout]
    exact h e hlast

end Writes

/-! ## Sends and receives -/

section Calls
variable {bytesOf : BitVec 32 → List ℕ} {mask : BitVec 32} {env : MarkerEnv} {words sent : ℕ → BitVec 32}
  {log : List TableWrite} {buf data : List (BitVec 32)} {elems offset : ℕ}

/-- The user's part of the bounce buffer. -/
theorem bounce_getD (header : Header) (last footer : BitVec 32) {i : ℕ} (hi : i < buf.length) :
    ((header.words ++ buf ++ [last]).set (xmemHElems + buf.length) footer).getD (xmemHElems + i) 0 = buf.getD i 0 := by
  have hlength : header.words.length = xmemHElems := rfl
  have hne : xmemHElems + buf.length ≠ xmemHElems + i := by omega
  have hleft : xmemHElems + i < (header.words ++ buf).length := by
    rw [List.length_append, hlength]
    omega
  rw [List.getD_eq_getElem?_getD, List.getD_eq_getElem?_getD, List.getElem?_set_ne hne, List.getElem?_append_left hleft,
    List.getElem?_append_right (by omega), hlength, Nat.add_sub_cancel_left]

theorem sendTableAtomic_holds (h : Holds mask words log sent) (hphys : physEloff mask offset = offset + xmemHElems)
    (hzero : offset = 0) : Holds mask
      ((sendTableAtomic bytesOf mask env buf offset).2.foldl applyWrite words)
      ((sendTableAtomic bytesOf mask env buf offset).2.reverse ++ log)
      (if (sendTableAtomic bytesOf mask env buf offset).1 = none then sendTo sent buf offset else sent) := by
  unfold sendTableAtomic
  by_cases hmalloc : env.malloc = false
  · simpa [hmalloc] using h
  by_cases hworks : env.works 0 = true
  · simp only [if_neg hmalloc, if_pos hworks]
    -- the footer is the last word of the bounce buffer
    have hfooter : fEloff mask buf.length offset = xmemHElems + buf.length := by
      unfold fEloff
      rw [hphys, hzero, Nat.zero_add]
    rw [hfooter]
    refine h.data hphys.symm rfl ?_ fun i hi => bounce_getD _ _ _ hi
    simp [Header.words, xmemHElems]
    omega
  · simpa [hmalloc, hworks] using h

theorem sendTable_holds (h : Holds mask words log sent) : Holds mask
    ((sendTable bytesOf mask env buf offset).2.foldl applyWrite words)
    ((sendTable bytesOf mask env buf offset).2.reverse ++ log)
    (if (sendTable bytesOf mask env buf offset).1 = none then sendTo sent buf offset else sent) := by
  unfold sendTable
  dsimp only
  by_cases hheader : env.works 0 = false
  · simpa [hheader] using h
  by_cases hfooter : env.works 1 = false
  · simp only [if_neg hheader, if_pos hfooter]
    exact h.marker rfl
  by_cases hdata : env.works 2 = false
  · simp only [if_neg hheader, if_neg hfooter, if_pos hdata]
    exact (h.marker rfl).marker rfl
  · simp only [if_neg hheader, if_neg hfooter, if_neg hdata]
    refine ((h.marker rfl).marker rfl).data rfl rfl ?_ fun i _ => ?_
    · exact (Nat.zero_add _).le
    · exact congrArg (buf.getD · 0) (Nat.zero_add i)

/-- A send writes the user's words as such if the footer of a bounce buffer is inside it. -/
theorem xmemSendTable_holds (h : Holds mask words log sent) (hmask : Settable mask)
    (hzero : mask &&& xmemMarkersAtomic ≠ 0 → offset = 0) : Holds mask
      ((xmemSendTable bytesOf mask env buf offset).2.foldl applyWrite words)
      ((xmemSendTable bytesOf mask env buf offset).2.reverse ++ log)
      (if (xmemSendTable bytesOf mask env buf offset).1 = none then sendTo sent buf offset else sent) := by
  unfold xmemSendTable
  by_cases hdisable : mask &&& xmemMarkersDisable ≠ 0
  · simp only [if_pos hdisable]
    by_cases hworks : env.works 0 = true
    · simp only [if_pos hworks]
      refine h.data rfl rfl ?_ fun i _ => ?_
      · exact (Nat.zero_add _).le
      · exact congrArg (buf.getD · 0) (Nat.zero_add i)
    · simpa [hworks] using h
  simp only [if_neg hdisable]
  by_cases hatomic : mask &&& xmemMarkersAtomic ≠ 0
  · simp only [if_pos hatomic]
    exact sendTableAtomic_holds h (physEloff_atomic hmask hatomic offset) (hzero hatomic)
  · simp only [if_neg hatomic]
    exact sendTable_holds h

theorem readWords_data : ((readWords words offset (elems + xmemHfElems)).drop xmemHElems).take elems =
    readWords words (offset + xmemHElems) elems := by
  apply List.ext_getElem
  · simp [readWords, xmemHfElems, xmemHElems]
  · intro i hi hi'
    simp [readWords, Nat.add_assoc]

/-- A receive that succeeds delivers the words of its elements. -/
theorem xmemRecvTable_ok (hmask : Settable mask) (h : xmemRecvTable bytesOf mask env words elems offset = .ok data) :
    data = readWords words (physEloff mask offset) elems := by
  unfold xmemRecvTable at h
  split at h
  · rename_i hatomic
    unfold receiveTableAtomic at h
    split at h
    · cases h
    split at h
    · cases h
    dsimp only at h
    split at h
    · cases h
    · cases h
      rw [physEloff_atomic hmask hatomic]
      exact readWords_data
  · split at h
    · cases h
    · split at h
      · cases h
        rfl
      · cases h

end Calls

/-! ## Runs -/

section Runs
variable {bytesOf : BitVec 32 → List ℕ} {mask : BitVec 32} {s s' : MarkerTable} {a : MarkerStep}

/-- A bounce buffer contains its footer, and no marker was written since over a word that is read. -/
def ReadsData (mask : BitVec 32) (s : MarkerTable) : MarkerStep → Prop
  | .send _ _ offset => mask &&& xmemMarkersAtomic ≠ 0 → offset = 0
  | .recv _ elems offset => (mask &&& xmemMarkersAtomic ≠ 0 → offset = 0) ∧
    ∀ i < elems, LastAsData s.log (physEloff mask (offset + i))

instance decidableLastAsData : (log : List TableWrite) → (w : ℕ) → Decidable (LastAsData log w)
  | [], _ => .isTrue trivial
  | write :: log, w =>
    if hcovers : write.Covers w then decidable_of_iff (write.Carries w) (by rw [LastAsData, if_pos hcovers])
    else
      have := decidableLastAsData log w
      decidable_of_iff (LastAsData log w) (by rw [LastAsData, if_neg hcovers])

instance (s : MarkerTable) : (a : MarkerStep) → Decidable (ReadsData mask s a)
  | .send _ _ offset => inferInstanceAs (Decidable (mask &&& xmemMarkersAtomic ≠ 0 → offset = 0))
  | .recv _ elems offset => inferInstanceAs (Decidable ((mask &&& xmemMarkersAtomic ≠ 0 → offset = 0) ∧
    ∀ i < elems, LastAsData s.log (physEloff mask (offset + i))))

structure MarkerInv (mask : BitVec 32) (s : MarkerTable) : Prop where
  holds : Holds mask s.words s.log s.sent
  delivered : ∀ d ∈ s.delivered, d.1 = d.2

theorem MarkerInv.step (hmask : Settable mask) (h : MarkerInv mask s) (hok : ReadsData mask s a)
    (hnext : markerNext bytesOf mask s a = some s') : MarkerInv mask s' := by
  cases a with
  | send env buf offset =>
    cases hnext
    exact ⟨xmemSendTable_holds h.holds hmask hok, h.delivered⟩
  | recv env elems offset =>
    simp only [markerNext] at hnext
    split at hnext
    · cases hnext
      exact h
    · rename_i data hdata
      cases hnext
      refine ⟨h.holds, fun d hd => ?_⟩
      obtain rfl | hold := List.mem_cons.mp hd
      · dsimp only
        rw [xmemRecvTable_ok hmask hdata]
        refine List.map_congr_left fun i hi => ?_
        rw [← physEloff_add]
        exact h.holds _ (hok.2 i (List.mem_range.mp hi))
      · exact h.delivered d hold

/-- With any mask that can be set, a receive that succeeds delivers what was sent last. -/
theorem delivered_sent (hmask : Settable mask) {words : ℕ → BitVec 32}
    (h : Reach (markerNext bytesOf mask) (ReadsData mask) (tableStart mask words) s) : ∀ d ∈ s.delivered,
    d.1 = d.2 := by
  have hstart : MarkerInv mask (tableStart mask words) := ⟨fun _ _ => rfl, fun d hd => by cases hd⟩
  exact (h.invariant hstart fun _ _ _ hs hok hnext => hs.step hmask hok hnext).delivered

end Runs

/-! ## Ranges that share words -/

section Example

def littleEndian (word : BitVec 32) : List ℕ :=
  [word.toNat % 2 ^ 8, word.toNat / 2 ^ 8 % 2 ^ 8, word.toNat / 2 ^ 16 % 2 ^ 8, word.toNat / 2 ^ 24]

def calm (rand : BitVec 32) : MarkerEnv := ⟨fun _ => true, true, rand, 0, 0⟩

def enabled : BitVec 32 := xmemSetMarkersMask xmemMarkersDisable xmemMarkersEnable

/-- The ranges leave room for the markers of one another. -/
def apartCalls : List MarkerStep :=
  [.send (calm 1) (List.replicate 10 5) 0, .send (calm 2) (List.replicate 6 9) 14, .recv (calm 3) 10 0,
    .recv (calm 4) 6 14]

theorem apart_sent : ∃ s, Reach (markerNext littleEndian enabled) (ReadsData enabled)
    (tableStart enabled fun _ => 0) s ∧ (∀ d ∈ s.delivered, d.1 = d.2) ∧ s.delivered.length = 2 := by
  have hrun : (replay (markerNext littleEndian enabled) (ReadsData enabled) (tableStart enabled fun _ => 0)
    apartCalls).map
      (fun s => s.delivered.length) = some 2 := by decide
  obtain ⟨s, hs, hlength⟩ := Option.map_eq_some_iff.mp hrun
  have hreach := Reach.of_replay Reach.refl hs
  exact ⟨s, hreach, delivered_sent (Settable.disable.set xmemMarkersEnable) hreach, hlength⟩

/-- The markers of the second range lie over elements of the first one, but not over its markers. -/
def sharedCalls : List MarkerStep :=
  [.send (calm 1) (List.replicate 10 5) 0, .send (calm 2) (List.replicate 4 9) 4, .recv (calm 3) 10 0]

theorem shared_altered : ∃ s, Reach (markerNext littleEndian enabled) (fun _ _ => True)
    (tableStart enabled fun _ => 0) s ∧ ¬∀ d ∈ s.delivered, d.1 = d.2 := by
  have hrun : (sharedCalls.foldlM (markerNext littleEndian enabled) (tableStart enabled fun _ => 0)).map
      MarkerTable.delivered = some [([5, 2, 0, 16, 9, 9, 9, 9, 2, 5], [5, 5, 5, 5, 9, 9, 9, 9, 5, 5])] := by decide
  obtain ⟨s, hs, hdelivered⟩ := Option.map_eq_some_iff.mp hrun
  refine ⟨s, Reach.of_foldlM .refl (fun _ _ _ => trivial) hs, fun hall => ?_⟩
  have hsame := hall _ (by rw [hdelivered]; exact List.mem_singleton_self _)
  exact absurd hsame (by decide)

end Example

end HtDrivers.Xmem
