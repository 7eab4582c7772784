import Mathlib.Data.List.GetD
import HtDrivers.Lib.Block
import HtDrivers.Xmem.Markers

/-! The bounce buffers of the atomic transfers (`libxmem.c`): the transfers with every access to the allocated words,
and what they do beside `sendTableAtomic` and `receiveTableAtomic`. -/
namespace HtDrivers.Xmem
open HtDrivers.Lib
set_option autoImplicit false

/-! ## The model -/

section Library
variable (bytesOf : BitVec 32 → List ℕ) (mask : BitVec 32)

/-- What `malloc` gives. -/
def mallocBounce (env : MarkerEnv) (privElems : ℕ) : List (BitVec 32) :=
  [env.beyond, env.stale, env.beyond] ++ List.replicate (privElems - xmemHElems) env.beyond

/-- `fill_hf` with the header at the start of the bounce buffer, the footer at the element `footer`, and the public data
behind the header. -/
def fillHfAt (env : MarkerEnv) (bounce : List (BitVec 32)) (footer pubElems : ℕ) : Option (List (BitVec 32)) := do
  let bounce ← Block.put bounce 0 [env.rand]
  let bounce ← Block.put bounce 2 [BitVec.ofNat 32 (4 * pubElems)]
  let bounce ← Block.put bounce footer [env.rand]
  if mask &&& xmemMarkersChecksum ≠ 0 then
    let pubBuf ← Block.get bounce xmemHElems pubElems
    Block.put bounce 1 [calcAdler32 bytesOf pubBuf]
  else some bounce

/-- `send_table_atomic`; `none` where an access leaves the bounce buffer. -/
def sendBounced (env : MarkerEnv) (buf : List (BitVec 32)) (pubEloff : ℕ) : Option SendResult :=
  if env.malloc = false then some (some .enomem, [])
  else do
    let bounce ← Block.put (mallocBounce env (buf.length + xmemHfElems)) xmemHElems buf
    let bounce ← fillHfAt bytesOf mask env bounce (fEloff mask buf.length pubEloff) buf.length
    let words ← Block.get bounce 0 (buf.length + xmemHfElems)
    if env.works 0 then some (none, [⟨hEloff pubEloff, words, xmemHElems, buf.length⟩]) else some (some .io, [])

/-- `receive_table_atomic`, with the caller's buffer before and after it. -/
def receiveBounced (env : MarkerEnv) (words : ℕ → BitVec 32) (user : List (BitVec 32)) (pubElems pubEloff : ℕ) :
    Option (Option MarkerError × List (BitVec 32)) :=
  if env.malloc = false then some (some .enomem, user)
  else if env.works 0 = false then some (some .io, user)
  else do
    let table := readWords words (hEloff pubEloff) (pubElems + xmemHfElems)
    let bounce ← Block.put (mallocBounce env (pubElems + xmemHfElems)) 0 table
    let header ← Block.get bounce 0 xmemHElems
    let footer ← Block.get bounce (fEloff mask pubElems pubEloff) 1
    let pubBuf ← Block.get bounce xmemHElems pubElems
    match evaluateHf bytesOf mask (header.getD 0 0) (header.getD 1 0) (footer.getD 0 0) (some pubBuf) with
    | some err => some (some err, user)
    | none => some (none, pubBuf ++ user.drop pubElems)

/-- `XmemSendTable` and `XmemRecvTable` of an atomic mask, from these. -/
def xmemSendBounced (env : MarkerEnv) (buf : List (BitVec 32)) (offset : ℕ) : Option SendResult :=
  if mask &&& xmemMarkersDisable ≠ 0 ∨ mask &&& xmemMarkersAtomic = 0
    then some (xmemSendTable bytesOf mask env buf offset)
  else sendBounced bytesOf mask env buf offset

/-- What a receive leaves in the caller's buffer. -/
def received (user : List (BitVec 32)) : Except MarkerError (List (BitVec 32)) → Option MarkerError × List (BitVec 32)
  | .error err => (some err, user)
  | .ok data => (none, data ++ user.drop data.length)

def xmemRecvBounced (env : MarkerEnv) (words : ℕ → BitVec 32) (user : List (BitVec 32)) (elems offset : ℕ) :
    Option (Option MarkerError × List (BitVec 32)) :=
  if mask &&& xmemMarkersAtomic ≠ 0 then receiveBounced bytesOf mask env words user elems offset
  else some (received user (xmemRecvTable bytesOf mask env words elems offset))

/-- Both calls of a range stay inside their bounce buffers, a receive after a send has what was sent, and a receive from
a table whose markers do not fit leaves the caller's buffer alone. -/
structure BouncesRight (buf : List (BitVec 32)) (offset : ℕ) : Prop where
  sendsInside : ∀ env, ∃ result, xmemSendBounced bytesOf mask env buf offset = some result
  receivesInside : ∀ env words user, ∃ result, xmemRecvBounced bytesOf mask env words user buf.length
    offset = some result
  roundTrip : ∀ env env' words user, env.malloc = true → env.works 0 = true → env'.malloc = true → env'.works 0 = true →
    user.length = buf.length → ∃ writes, xmemSendBounced bytesOf mask env buf offset = some (none, writes) ∧
      xmemRecvBounced bytesOf mask env' (writes.foldl applyWrite words) user buf.length offset = some (none, buf)
  rejects : ∀ env words user,
    (words offset ≠ words (offset + xmemHElems + buf.length) ∨
      mask &&& xmemMarkersChecksum ≠ 0 ∧
        words (offset + 1) ≠ calcAdler32 bytesOf (readWords words (offset + xmemHElems) buf.length)) →
    ∃ err, xmemRecvBounced bytesOf mask env words user buf.length offset = some (some err, user)

end Library

/-! ## Layouts -/

section Layouts
variable {bytesOf : BitVec 32 → List ℕ} {mask : BitVec 32} {env : MarkerEnv} {buf data user behind : List (BitVec 32)}
  {words : ℕ → BitVec 32} {offset elems footer : ℕ}

theorem readWords_length : (readWords words offset elems).length = elems := by
  simp [readWords]

theorem readWords_add {n : ℕ} : readWords words offset (elems + n) = readWords words offset elems ++
    readWords words (offset + elems) n := by
  simp [readWords, List.range_add, Nat.add_assoc]

theorem mallocBounce_eq : mallocBounce env (elems + xmemHfElems)
    = [env.beyond, env.stale, env.beyond] ++ (List.replicate elems env.beyond ++ [env.beyond]) := by
  have hbehind : elems + xmemHfElems - xmemHElems = elems + 1 := by
    simp only [xmemHfElems, xmemHElems]
    omega
  rw [mallocBounce, hbehind, List.replicate_succ']

theorem mallocBounce_length : (mallocBounce env (elems + xmemHfElems)).length = elems + xmemHfElems := by
  rw [mallocBounce_eq]
  simp [xmemHfElems]

/-- The two words of the header that are filled in first. -/
theorem fillHfAt_header (s b b' : BitVec 32) : fillHfAt bytesOf mask env ([b, s, b'] ++ behind) footer elems = (do
    let bounce ← Block.put ([env.rand, s, BitVec.ofNat 32 (4 * elems)] ++ behind) footer [env.rand]
    if mask &&& xmemMarkersChecksum ≠ 0 then
      let pubBuf ← Block.get bounce xmemHElems elems
      Block.put bounce 1 [calcAdler32 bytesOf pubBuf]
    else some bounce) := by
  have hval : Block.put ([] ++ ([b] ++ ([s, b'] ++ behind))) 0 [env.rand]
      = some ([] ++ ([env.rand] ++ ([s, b'] ++ behind))) := Block.put_part rfl rfl
  have hsize : Block.put ([env.rand, s] ++ ([b'] ++ behind)) 2 [BitVec.ofNat 32 (4 * elems)]
      = some ([env.rand, s] ++ ([BitVec.ofNat 32 (4 * elems)] ++ behind)) := Block.put_part rfl rfl
  simp only [List.nil_append, List.cons_append] at hval hsize
  rw [fillHfAt]
  simp only [List.nil_append, List.cons_append, hval, hsize, Option.bind_eq_bind, Option.bind_some]

/-- With the footer as its last word, the bounce buffer is filled as `fill_hf` says. -/
theorem fillHfAt_last : fillHfAt bytesOf mask env ([env.beyond, env.stale, env.beyond] ++ (buf ++ [env.beyond]))
      (xmemHElems + buf.length) buf.length
    = some ((fillHf bytesOf mask env buf.length (some buf)).1.words ++ (buf ++ [env.rand])) := by
  have hfooter : Block.put (([env.rand, env.stale, BitVec.ofNat 32 (4 * buf.length)] ++ buf) ++ ([env.beyond] ++ []))
      (xmemHElems + buf.length) [env.rand]
      = some (([env.rand, env.stale, BitVec.ofNat 32 (4 * buf.length)] ++ buf) ++ ([env.rand] ++ [])) := by
    refine Block.put_part ?_ rfl
    simp [xmemHElems]
    omega
  have hdata : Block.get ([env.rand, env.stale, BitVec.ofNat 32 (4 * buf.length)] ++ (buf ++ [env.rand]))
    xmemHElems buf.length
      = some buf := Block.get_part rfl rfl
  have hchecksum (c : BitVec 32) :
    Block.put ([env.rand] ++ ([env.stale] ++ (BitVec.ofNat 32 (4 * buf.length) :: (buf ++ [env.rand])))) 1 [c]
      = some ([env.rand] ++ ([c] ++ (BitVec.ofNat 32 (4 * buf.length) :: (buf ++ [env.rand])))) :=
        Block.put_part rfl rfl
  simp only [List.append_nil, List.append_assoc] at hfooter
  simp only [List.nil_append, List.cons_append] at hfooter hdata hchecksum
  rw [fillHfAt_header]
  simp only [List.nil_append, List.cons_append, hfooter, Option.bind_eq_bind, Option.bind_some, hdata, hchecksum]
  by_cases hmask : mask &&& xmemMarkersChecksum ≠ 0
  · simp only [if_pos hmask, fillHf, Header.words]
    rfl
  · simp only [if_neg hmask, fillHf, Header.words]
    rfl

theorem fillHfAt_outside (s b b' : BitVec 32) (h : behind.length < footer - 2) :
    fillHfAt bytesOf mask env ([b, s, b'] ++ behind) footer elems = none := by
  have hput : Block.put ([env.rand, s, BitVec.ofNat 32 (4 * elems)] ++ behind) footer [env.rand] = none := by
    apply Block.put_outside
    simp
    omega
  rw [fillHfAt_header, hput]
  rfl

theorem readWords_framed (words : ℕ → BitVec 32) (offset elems : ℕ) :
    readWords words offset (elems + xmemHfElems)
      = [words offset, words (offset + 1), words (offset + 2)]
        ++ (readWords words (offset + xmemHElems) elems ++ [words (offset + xmemHElems + elems)]) := by
  have hsum : elems + xmemHfElems = xmemHElems + (elems + 1) := by
    simp only [xmemHfElems, xmemHElems]
    omega
  rw [hsum, readWords_add, readWords_add]
  rfl

theorem readWords_applyWrite (write : TableWrite) :
    readWords (applyWrite words write) write.eloff write.words.length = write.words := by
  refine List.ext_getElem readWords_length fun i hi hi' => ?_
  have hcovers : write.Covers (write.eloff + i) := ⟨Nat.le_add_right _ _, Nat.add_lt_add_left hi' _⟩
  simp only [readWords, List.getElem_map, List.getElem_range, applyWrite, if_pos hcovers, Nat.add_sub_cancel_left]
  exact List.getD_eq_getElem _ _ hi'

/-- The table after a header, data and a footer are written to it. -/
theorem applyWrite_framed {table : ℕ → BitVec 32} {header : Header} {footer : BitVec 32} {dataElems : ℕ}
    (htable : table = applyWrite words ⟨offset, header.words ++ (buf ++ [footer]), xmemHElems, dataElems⟩) :
    table offset = header.val ∧ table (offset + 1) = header.checksum ∧
      readWords table (offset + xmemHElems) buf.length = buf ∧ table (offset + xmemHElems + buf.length) = footer := by
  have hback : readWords table offset (header.words ++ (buf ++ [footer])).length = header.words ++
    (buf ++ [footer]) := by
    rw [htable]
    exact readWords_applyWrite _
  have hlength : (header.words ++ (buf ++ [footer])).length = buf.length + xmemHfElems := by
    simp [Header.words, xmemHfElems]
  rw [hlength, readWords_framed] at hback
  obtain ⟨hheader, hrest⟩ := List.append_inj hback rfl
  obtain ⟨hdata, hfooter⟩ := List.append_inj hrest readWords_length
  simp only [Header.words, List.cons.injEq, and_true] at hheader hfooter
  exact ⟨hheader.1, hheader.2.1, hdata, hfooter⟩

end Layouts

/-! ## The calls at the start of a table -/

section Calls
variable {bytesOf : BitVec 32 → List ℕ} {mask : BitVec 32} {env : MarkerEnv} {buf data user : List (BitVec 32)}
  {words : ℕ → BitVec 32} {offset elems : ℕ} (hphys : physEloff mask offset = offset + xmemHElems)
include hphys

theorem fEloff_zero (hzero : offset = 0) : fEloff mask elems offset = xmemHElems + elems := by
  rw [fEloff, hphys, hzero, Nat.zero_add]

theorem sendTableAtomic_zero (hzero : offset = 0) (hmalloc : env.malloc = true) (hworks : env.works 0 = true) :
    sendTableAtomic bytesOf mask env buf offset
      = (none, [⟨offset, (fillHf bytesOf mask env buf.length (some buf)).1.words ++ (buf ++ [env.rand]), xmemHElems,
        buf.length⟩]) := by
  have hlast (header : Header) : (header.words ++ buf ++ [env.beyond]).set (xmemHElems + buf.length) env.rand
      = header.words ++ (buf ++ [env.rand]) := by
    have hlength : (header.words ++ buf).length = xmemHElems + buf.length := by
      rw [List.length_append]
      rfl
    rw [List.set_append_right _ _ hlength.le, hlength, Nat.sub_self, List.append_assoc]
    rfl
  have hmalloc' : ¬env.malloc = false := by simp [hmalloc]
  simp only [sendTableAtomic, if_neg hmalloc', if_pos hworks, fEloff_zero hphys hzero]
  exact congrArg (fun words => ((none, [⟨offset, words, xmemHElems, buf.length⟩]) : SendResult)) (hlast _)

theorem sendBounced_zero (hzero : offset = 0) :
    sendBounced bytesOf mask env buf offset = some (sendTableAtomic bytesOf mask env buf offset) := by
  by_cases hmalloc : env.malloc = false
  · rw [sendBounced, sendTableAtomic, if_pos hmalloc, if_pos hmalloc]
  have hcopy : Block.put (mallocBounce env (buf.length + xmemHfElems)) xmemHElems buf
      = some ([env.beyond, env.stale, env.beyond] ++ (buf ++ [env.beyond])) := by
    rw [mallocBounce_eq]
    apply Block.put_part rfl
    rw [List.length_replicate]
  have hwords : Block.get ((fillHf bytesOf mask env buf.length (some buf)).1.words ++ (buf ++ [env.rand])) 0
      (buf.length + xmemHfElems) = some ((fillHf bytesOf mask env buf.length (some buf)).1.words ++
        (buf ++ [env.rand])) := by
    apply Block.get_all
    simp [Header.words, xmemHfElems]
  simp only [sendBounced, if_neg hmalloc, hcopy, Option.bind_eq_bind, Option.bind_some, fEloff_zero hphys hzero,
    fillHfAt_last, hwords]
  cases hworks : env.works 0 with
  | true =>
    rw [sendTableAtomic_zero hphys hzero (by simpa using hmalloc) hworks]
    rfl
  | false => simp [sendTableAtomic, hmalloc, hworks]

theorem sendBounced_overrun (hmalloc : env.malloc = true) (hpos : 0 < offset) :
    sendBounced bytesOf mask env buf offset = none := by
  have hmalloc' : ¬env.malloc = false := by simp [hmalloc]
  have hcopy : Block.put (mallocBounce env (buf.length + xmemHfElems)) xmemHElems buf
      = some ([env.beyond, env.stale, env.beyond] ++ (buf ++ [env.beyond])) := by
    rw [mallocBounce_eq]
    apply Block.put_part rfl
    rw [List.length_replicate]
  have hfill : fillHfAt bytesOf mask env ([env.beyond, env.stale, env.beyond] ++ (buf ++ [env.beyond]))
      (fEloff mask buf.length offset) buf.length = none := by
    apply fillHfAt_outside
    rw [fEloff, hphys, List.length_append, List.length_singleton, xmemHElems]
    omega
  simp only [sendBounced, if_neg hmalloc', hcopy, Option.bind_eq_bind, Option.bind_some, hfill, Option.bind_none]

/-- A receive at the start of a table evaluates the words of the table. -/
theorem receiveBounced_zero (hzero : offset = 0) (hmalloc : env.malloc = true) (hworks : env.works 0 = true) :
    receiveBounced bytesOf mask env words user elems offset
      = some (match evaluateHf bytesOf mask (words offset) (words (offset + 1)) (words (offset + xmemHElems + elems))
          (some (readWords words (offset + xmemHElems) elems)) with
        | some err => (some err, user)
        | none => (none, readWords words (offset + xmemHElems) elems ++ user.drop elems)) := by
  have hmalloc' : ¬env.malloc = false := by simp [hmalloc]
  have hworks' : ¬env.works 0 = false := by simp [hworks]
  have hput : Block.put (mallocBounce env (elems + xmemHfElems)) 0 (readWords words offset (elems + xmemHfElems))
      = some (readWords words offset (elems + xmemHfElems)) := by
    apply Block.put_all
    rw [readWords_length, mallocBounce_length]
  have hheader : Block.get (readWords words offset (elems + xmemHfElems)) 0 xmemHElems
      = some [words offset, words (offset + 1), words (offset + 2)] := by
    rw [readWords_framed]
    exact Block.get_front rfl
  have hdata : Block.get (readWords words offset (elems + xmemHfElems)) xmemHElems elems
      = some (readWords words (offset + xmemHElems) elems) := by
    rw [readWords_framed]
    exact Block.get_part rfl readWords_length.symm
  have hfooter : Block.get (readWords words offset (elems + xmemHfElems)) (xmemHElems + elems) 1
      = some [words (offset + xmemHElems + elems)] := by
    rw [readWords_framed, ← List.append_assoc, ← List.append_nil [words (offset + xmemHElems + elems)]]
    refine Block.get_part ?_ rfl
    rw [List.length_append, readWords_length]
    rfl
  simp only [receiveBounced, if_neg hmalloc', if_neg hworks', hEloff, hput, hheader, hdata, hfooter,
    Option.bind_eq_bind, Option.bind_some, fEloff_zero hphys hzero, List.getD_cons_zero, List.getD_cons_succ]
  split <;> rfl

theorem receiveBounced_overrun (hmalloc : env.malloc = true) (hworks : env.works 0 = true) (hpos : 0 < offset) :
    receiveBounced bytesOf mask env words user elems offset = none := by
  have hmalloc' : ¬env.malloc = false := by simp [hmalloc]
  have hworks' : ¬env.works 0 = false := by simp [hworks]
  have hput : Block.put (mallocBounce env (elems + xmemHfElems)) 0 (readWords words offset (elems + xmemHfElems))
      = some (readWords words offset (elems + xmemHfElems)) := by
    apply Block.put_all
    rw [readWords_length, mallocBounce_length]
  have hheader : Block.get (readWords words offset (elems + xmemHfElems)) 0 xmemHElems
      = some [words offset, words (offset + 1), words (offset + 2)] := by
    rw [readWords_framed]
    exact Block.get_front rfl
  have hfooter : Block.get (readWords words offset (elems + xmemHfElems)) (fEloff mask elems offset) 1 = none := by
    apply Block.get_outside
    rw [readWords_length, fEloff, hphys, xmemHElems, xmemHfElems]
    omega
  simp only [receiveBounced, if_neg hmalloc', if_neg hworks', hEloff, hput, hheader, hfooter, Option.bind_eq_bind,
    Option.bind_some, Option.bind_none]

theorem receiveBounced_eq (hzero : offset = 0) : receiveBounced bytesOf mask env words user elems offset
    = some (received user (receiveTableAtomic bytesOf mask env words elems offset)) := by
  by_cases hmalloc : env.malloc = false
  · simp [receiveBounced, receiveTableAtomic, hmalloc, received]
  by_cases hworks : env.works 0 = false
  · simp [receiveBounced, receiveTableAtomic, hmalloc, hworks, received]
  rw [receiveBounced_zero hphys hzero (by simpa using hmalloc) (by simpa using hworks)]
  have hdata : ((readWords words offset (elems + xmemHfElems)).drop xmemHElems).take elems
      = readWords words (offset + xmemHElems) elems := readWords_data
  have hfooter : (readWords words offset (elems + xmemHfElems)).getD (xmemHElems + elems) env.beyond
      = words (offset + xmemHElems + elems) := by
    have hin : xmemHElems + elems < (readWords words offset (elems + xmemHfElems)).length := by
      rw [readWords_length, xmemHElems, xmemHfElems]
      omega
    rw [List.getD_eq_getElem _ _ hin]
    simp only [readWords, List.getElem_map, List.getElem_range, Nat.add_assoc]
  have hheader : (readWords words offset (elems + xmemHfElems)).getD 0 0 = words offset ∧
      (readWords words offset (elems + xmemHfElems)).getD 1 0 = words (offset + 1) := by
    rw [readWords_framed]
    exact ⟨rfl, rfl⟩
  simp only [receiveTableAtomic, if_neg hmalloc, if_neg hworks, hEloff, hdata, fEloff_zero hphys hzero,
    hfooter, hheader]
  cases hevaluate : evaluateHf bytesOf mask (words offset) (words (offset + 1)) (words (offset + xmemHElems + elems))
      (some (readWords words (offset + xmemHElems) elems)) with
  | some err => simp [received]
  | none => simp [received, readWords_length]

end Calls

/-! ## Ranges that are transferred right -/

theorem settable_disable {mask : BitVec 32} (h : Settable mask) :
    mask = xmemMarkersDisable ∨ mask &&& xmemMarkersDisable = 0 := by
  induction h with
  | disable => exact .inl rfl
  | @set omask mask _ ih =>
    unfold xmemSetMarkersMask
    by_cases henable : mask &&& xmemMarkersEnable ≠ 0
    · by_cases hdisable : mask &&& xmemMarkersDisable ≠ 0
      · simp only [if_pos henable, if_pos hdisable]
        exact .inl rfl
      · simp only [if_pos henable, if_neg hdisable]
        have hnone : mask &&& xmemMarkersDisable = 0 := not_not.mp hdisable
        have hall : mask &&& xmemMarkersAll &&& xmemMarkersDisable = 0 := by
          rw [BitVec.and_assoc]
          exact hnone
        have hclear : mask &&& xmemMarkersAll &&& ~~~xmemMarkersChecksum &&& xmemMarkersDisable = 0 := by
          rw [BitVec.and_assoc, BitVec.and_assoc]
          exact hnone
        have hkeep (m : BitVec 32) (hm : m &&& xmemMarkersDisable = 0) :
            (if m ≠ 0 then m else omask) = xmemMarkersDisable ∨ (if m ≠ 0 then m else omask) &&&
              xmemMarkersDisable = 0 := by
          split
          · exact .inr hm
          · exact ih
        by_cases hchecksum : mask &&& xmemMarkersAll &&& xmemMarkersChecksum ≠ 0 ∧
            mask &&& xmemMarkersAll &&& xmemMarkersAtomic = 0
        · simp only [if_pos hchecksum]
          exact hkeep _ hclear
        · simp only [if_neg hchecksum]
          exact hkeep _ hall
    · simp only [if_neg henable]
      exact .inl rfl

section Ranges
variable {bytesOf : BitVec 32 → List ℕ} {mask : BitVec 32} {env env' : MarkerEnv} {buf user : List (BitVec 32)}
  {words : ℕ → BitVec 32} {offset elems : ℕ} (hmask : Settable mask) (hatomic : mask &&& xmemMarkersAtomic ≠ 0)
include hmask hatomic

theorem xmemSendBounced_atomic : xmemSendBounced bytesOf mask env buf offset = sendBounced bytesOf mask env buf
    offset := by
  have hdisable : mask &&& xmemMarkersDisable = 0 := by
    obtain rfl | hdisable := settable_disable hmask
    · exact absurd rfl hatomic
    · exact hdisable
  have hother : ¬(mask &&& xmemMarkersDisable ≠ 0 ∨ mask &&& xmemMarkersAtomic = 0) := by
    rintro (hset | hclear)
    · exact hset hdisable
    · exact hatomic hclear
  rw [xmemSendBounced, if_neg hother]

omit hmask in
theorem xmemRecvBounced_atomic :
    xmemRecvBounced bytesOf mask env words user elems offset = receiveBounced bytesOf mask env words user elems
    offset := by
  rw [xmemRecvBounced, if_pos hatomic]

/-- A receive directly after a send has what was sent. -/
theorem receive_sent (hzero : offset = 0) (hmalloc : env.malloc = true) (hworks : env.works 0 = true)
    (hmalloc' : env'.malloc = true) (hworks' : env'.works 0 = true) (huser : user.length = buf.length) :
    ∃ writes, xmemSendBounced bytesOf mask env buf offset = some (none, writes) ∧
      xmemRecvBounced bytesOf mask env' (writes.foldl applyWrite words) user buf.length offset = some (none, buf) := by
  have hphys := physEloff_atomic hmask hatomic offset
  have hsend : xmemSendBounced bytesOf mask env buf offset
      = some (none,
        [⟨offset, (fillHf bytesOf mask env buf.length (some buf)).1.words ++ (buf ++ [env.rand]), xmemHElems,
        buf.length⟩]) := by
    rw [xmemSendBounced_atomic hmask hatomic, sendBounced_zero hphys hzero,
      sendTableAtomic_zero hphys hzero hmalloc hworks]
  refine ⟨_, hsend, ?_⟩
  obtain ⟨table, htable⟩ : ∃ table,
    table = applyWrite words ⟨offset, (fillHf bytesOf mask env buf.length (some buf)).1.words
    ++ (buf ++ [env.rand]), xmemHElems, buf.length⟩ := ⟨_, rfl⟩
  obtain ⟨hval, hchecksum, hdata, hfooter⟩ := applyWrite_framed htable
  have hevaluate : evaluateHf bytesOf mask env.rand (fillHf bytesOf mask env buf.length (some buf)).1.checksum env.rand
      (some buf) = none := by
    by_cases hset : mask &&& xmemMarkersChecksum ≠ 0
    · simp only [evaluateHf, fillHf, if_pos hset]
      simp
    · have hwrong : ¬(mask &&& xmemMarkersChecksum ≠ 0 ∧ env.stale ≠ calcAdler32 bytesOf buf) := fun h => hset h.1
      simp only [evaluateHf, fillHf, if_neg hset, if_neg hwrong]
      simp
  have hrand : (fillHf bytesOf mask env buf.length (some buf)).1.val = env.rand := rfl
  rw [xmemRecvBounced_atomic hatomic, receiveBounced_zero hphys hzero hmalloc' hworks', List.foldl_cons, List.foldl_nil,
    ← htable, hval, hchecksum, hdata, hfooter, hrand, hevaluate, ← huser, List.drop_length, List.append_nil]

/-- Markers that do not fit are an error, and the caller's buffer stays as it is. -/
theorem receive_rejects (hzero : offset = 0)
    (hwrong : words offset ≠ words (offset + xmemHElems + elems) ∨
      mask &&& xmemMarkersChecksum ≠ 0 ∧
        words (offset + 1) ≠ calcAdler32 bytesOf (readWords words (offset + xmemHElems) elems)) :
    ∃ err, xmemRecvBounced bytesOf mask env words user elems offset = some (some err, user) := by
  have hphys := physEloff_atomic hmask hatomic offset
  rw [xmemRecvBounced_atomic hatomic]
  by_cases hmalloc : env.malloc = false
  · exact ⟨.enomem, by rw [receiveBounced, if_pos hmalloc]⟩
  by_cases hworks : env.works 0 = false
  · exact ⟨.io, by rw [receiveBounced, if_neg hmalloc, if_pos hworks]⟩
  rw [receiveBounced_zero hphys hzero (by simpa using hmalloc) (by simpa using hworks)]
  by_cases hfooter : words offset ≠ words (offset + xmemHElems + elems)
  · refine ⟨.incoherentMarkers, ?_⟩
    simp only [evaluateHf, if_pos hfooter]
  · refine ⟨.checksum, ?_⟩
    have hchecksum := hwrong.resolve_left hfooter
    simp only [evaluateHf, if_neg hfooter, if_pos hchecksum]

/-- The atomic transfers of a range are right if and only if it starts at the start of the table: the place of the
footer in the bounce buffer counts the words before the range, which are not in it. -/
theorem bounces_iff : BouncesRight bytesOf mask buf offset ↔ offset = 0 := by
  have hphys := physEloff_atomic hmask hatomic offset
  constructor
  · intro hright
    by_contra hpos
    obtain ⟨result, hresult⟩ := hright.sendsInside (calm 0)
    rw [xmemSendBounced_atomic hmask hatomic, sendBounced_overrun hphys rfl (Nat.pos_of_ne_zero hpos)] at hresult
    cases hresult
  · intro hzero
    refine ⟨fun env => ?_, fun env words user => ?_, ?_, ?_⟩
    · exact ⟨_, (xmemSendBounced_atomic hmask hatomic).trans (sendBounced_zero hphys hzero)⟩
    · exact ⟨_, (xmemRecvBounced_atomic hatomic).trans (receiveBounced_eq hphys hzero)⟩
    · intro env env' words user hmalloc hworks hmalloc' hworks' huser
      exact receive_sent hmask hatomic hzero hmalloc hworks hmalloc' hworks' huser
    · intro env words user hwrong
      exact receive_rejects hmask hatomic hzero hwrong

end Ranges

/-! ## Witnesses -/

def atomicMask : BitVec 32 :=
  xmemSetMarkersMask xmemMarkersDisable (xmemMarkersEnable ||| xmemMarkersAtomic ||| xmemMarkersChecksum)

theorem atomicMask_settable : Settable atomicMask := Settable.set _ Settable.disable

theorem bounces_start : Settable atomicMask ∧ atomicMask &&& xmemMarkersAtomic ≠ 0 ∧
    BouncesRight littleEndian atomicMask [1, 2] 0 := by
  have hatomic : atomicMask &&& xmemMarkersAtomic ≠ 0 := by decide
  exact ⟨atomicMask_settable, hatomic, (bounces_iff atomicMask_settable hatomic).mpr rfl⟩

/-- One element at the offset 1. -/
theorem not_bounces_middle : ¬BouncesRight littleEndian atomicMask [7] 1 := by
  intro hright
  obtain ⟨result, hresult⟩ := hright.sendsInside (calm 0)
  have houtside : xmemSendBounced littleEndian atomicMask (calm 0) [7] 1 = none := by decide
  rw [houtside] at hresult
  cases hresult

end HtDrivers.Xmem
