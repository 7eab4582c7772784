import HtDrivers.Cvorg.StoreSeq
import HtDrivers.Lib.Words

/-! What is left in a channel after a sequence was stored. The SRAM is seen as a row of half-words; a waveform is
written from the word its start lies in, whether or not the start is the beginning of that word. -/
namespace HtDrivers.Cvorg
open HtDrivers.Lib.Words
set_option autoImplicit false

/-! ## Half-words -/

theorem swab16_swab16 (x : U16) : swab16 (swab16 x) = x := by
  unfold swab16
  refine BitVec.eq_of_getLsbD_eq fun i hi => ?_
  simp only [BitVec.getLsbD_append, BitVec.getLsbD_extractLsb']
  by_cases h8 : i < 8
  · simp [h8]
  · have hlow : i - 8 < 8 := by omega
    have hback : 8 + (i - 8) = i := by omega
    simp [h8, hlow, hback]

@[simp] theorem be16_be16 (e : CvorgEndian) (x : U16) : be16 e (be16 e x) = x := by
  unfold be16
  split
  · rfl
  · exact swab16_swab16 x

theorem be16_zero (e : CvorgEndian) : be16 e 0 = 0 := by
  unfold be16 swab16
  split <;> decide

theorem high_half (a b : U16) : ((a.setWidth 32 <<< 16 ||| b.setWidth 32) >>> 16).setWidth 16 = a := by
  refine BitVec.eq_of_getLsbD_eq fun i hi => ?_
  have hword : i < 32 := by omega
  have hshift : 16 + i < 32 := by omega
  simp [hi, hword, hshift]

theorem low_half (a b : U16) : ((a.setWidth 32 <<< 16 ||| b.setWidth 32) &&& 0xffff).setWidth 16 = b := by
  have hmask : ∀ i (hi : i < 16), (0xffff#16)[i] = true := by decide
  refine BitVec.eq_of_getLsbD_eq fun i hi => ?_
  simp [hi, hmask]

theorem hwToCpu_cpuToHw (e : CvorgEndian) (data0 data1 : U16) : cvorgHwToCpu e (cvorgCpuToHw e data0 data1) =
    (data0, data1) := by
  unfold cvorgHwToCpu cvorgCpuToHw
  cases e.waLittle with
  | false => simp only [Bool.false_eq_true, if_false, high_half, low_half, be16_be16]
  | true => simp only [if_true, high_half, low_half, be16_be16]

theorem cpuToHwSingle_eq (e : CvorgEndian) (data0 : U16) : cvorgCpuToHwSingle e data0 = cvorgCpuToHw e data0 0 := by
  unfold cvorgCpuToHwSingle cvorgCpuToHw
  rw [be16_zero]
  cases e.waLittle <;> simp

/-- Half-word `j` of the SRAM. -/
def half (e : CvorgEndian) (mem : ℕ → U32) (j : ℕ) : U16 :=
  if j % 2 = 0 then (cvorgHwToCpu e (mem (j / 2))).1 else (cvorgHwToCpu e (mem (j / 2))).2

theorem half_update (e : CvorgEndian) (mem : ℕ → U32) (a j : ℕ) (data0 data1 : U16) :
    half e (Function.update mem a (cvorgCpuToHw e data0 data1)) j =
      if j = 2 * a then data0 else if j = 2 * a + 1 then data1 else half e mem j := by
  unfold half
  obtain hlt | heq | heq | hgt : j < 2 * a ∨ j = 2 * a ∨ j = 2 * a + 1 ∨ 2 * a + 1 < j := by omega
  · rw [Function.update_of_ne (by omega), if_neg (by omega : ¬ j = 2 * a), if_neg (by omega : ¬ j = 2 * a + 1)]
  · have hdiv : j / 2 = a := by omega
    have hmod : j % 2 = 0 := by omega
    rw [if_pos hmod, if_pos heq, hdiv, Function.update_self, hwToCpu_cpuToHw]
  · have hdiv : j / 2 = a := by omega
    have hmod : ¬ j % 2 = 0 := by omega
    rw [if_neg hmod, if_neg (by omega : ¬ j = 2 * a), if_pos heq, hdiv, Function.update_self, hwToCpu_cpuToHw]
  · rw [Function.update_of_ne (by omega), if_neg (by omega : ¬ j = 2 * a), if_neg (by omega : ¬ j = 2 * a + 1)]

/-! ## The loop that writes a form -/

/-- The half-words that are written: an odd number of points is followed by a zero. -/
def padded : List U16 → List U16
  | data0 :: data1 :: rest => data0 :: data1 :: padded rest
  | [data0] => [data0, 0]
  | [] => []

theorem length_padded (points : List U16) : (padded points).length = points.length + points.length % 2 := by
  induction points using padded.induct with
  | case1 data0 data1 rest ih => simp only [padded, List.length_cons]; omega
  | case2 data0 => rfl
  | case3 => rfl

theorem padded_getElem? (points : List U16) (k : ℕ) (hk : k < points.length) : (padded points)[k]? = points[k]? := by
  induction points using padded.induct generalizing k with
  | case1 data0 data1 rest ih =>
    match k with
    | 0 => rfl
    | 1 => rfl
    | k + 2 =>
      simp only [padded, List.getElem?_cons_succ]
      exact ih k (by simpa using hk)
  | case2 data0 =>
    obtain rfl : k = 0 := by simpa using hk
    rfl
  | case3 => simp at hk

theorem padded_last (points : List U16) (h : points.length % 2 = 1) : (padded points)[points.length]? = some 0 := by
  induction points using padded.induct with
  | case1 data0 data1 rest ih =>
    simp only [padded, List.length_cons, List.getElem?_cons_succ]
    simp only [List.length_cons] at h
    exact ih (by omega)
  | case2 data0 => rfl
  | case3 => simp at h

/-- What the loop leaves: the half-words from the pointer on, and nothing else. -/
structure Writes (e : CvorgEndian) (points : List U16) (chan chan' : CvorgChannel) : Prop where
  regs : chan'.regs = chan.regs
  before : ∀ j, j < 2 * chan.sramAddr → half e chan'.sram j = half e chan.sram j
  here : ∀ k, half e chan'.sram (2 * chan.sramAddr + k) =
    ((padded points)[k]?).getD (half e chan.sram (2 * chan.sramAddr + k))
  written : ∀ a ∈ chan'.written, a ∈ chan.written ∨ (chan.sramAddr ≤ a ∧ 2 * a < 2 * chan.sramAddr + points.length)

theorem writeData_regs (chan : CvorgChannel) (value : U32) : (cvorgWchan chan cvorgSramData value) =
    { chan with
      sram := Function.update chan.sram chan.sramAddr value
      sramAddr := chan.sramAddr + 1
      written := chan.written ++ [chan.sramAddr] } := rfl

theorem sramLoop_writes (e : CvorgEndian) (points : List U16) (chan : CvorgChannel) :
    Writes e points chan (sramLoop e points chan) := by
  induction points, chan using sramLoop.induct e with
  | case1 data0 data1 rest chan ih =>
    rw [writeData_regs] at ih
    rw [sramLoop, writeData_regs]
    refine ⟨ih.regs, fun j hj => ?_, fun k => ?_, fun a ha => ?_⟩
    · rw [ih.before j (by simp only; omega), half_update, if_neg (by omega), if_neg (by omega)]
    · match k with
      | 0 =>
        rw [ih.before _ (by simp only; omega), half_update]
        simp [padded]
      | 1 =>
        rw [ih.before _ (by simp only; omega), half_update]
        simp [padded]
      | k + 2 =>
        have hk : 2 * chan.sramAddr + (k + 2) = 2 * (chan.sramAddr + 1) + k := by omega
        have := ih.here k
        simp only at this
        rw [hk, this, half_update, if_neg (by omega), if_neg (by omega)]
        rfl
    · obtain hold | hnew := ih.written a ha
      · simp only [List.mem_append, List.mem_singleton] at hold
        obtain hold | rfl := hold
        · exact .inl hold
        · exact .inr ⟨Nat.le_refl _, by simp only [List.length_cons]; omega⟩
      · simp only at hnew
        exact .inr ⟨by omega, by simp only [List.length_cons]; omega⟩
  | case2 data0 chan =>
    rw [sramLoop, writeData_regs, cpuToHwSingle_eq]
    refine ⟨rfl, fun j hj => ?_, fun k => ?_, fun a ha => ?_⟩
    · rw [half_update, if_neg (by omega), if_neg (by omega)]
    · rw [half_update]
      match k with
      | 0 => simp [padded]
      | 1 => simp [padded]
      | k + 2 => simp [padded]
    · simp only [List.mem_append, List.mem_singleton] at ha
      obtain hold | rfl := ha
      · exact .inl hold
      · exact .inr ⟨Nat.le_refl _, by simp⟩
  | case3 chan =>
    exact ⟨rfl, fun _ _ => rfl, fun _ => rfl, fun a ha => .inl ha⟩

/-! ## Block registers -/

theorem blockOffset_inj {i j a b : ℕ} (ha : a < cvorgBlkSize) (hb : b < cvorgBlkSize)
    (h : blockOffset i + a = blockOffset j + b) : i = j ∧ a = b := by
  unfold blockOffset cvorgBlkOffset cvorgBlkSize at *
  omega

def CvorgChannel.setReg (chan : CvorgChannel) (offset : ℕ) (value : U32) : CvorgChannel :=
  { chan with regs := Function.update chan.regs offset value }

@[simp] theorem setReg_sram (chan : CvorgChannel) (offset : ℕ) (value : U32) :
    (chan.setReg offset value).sram = chan.sram := rfl

@[simp] theorem setReg_written (chan : CvorgChannel) (offset : ℕ) (value : U32) :
    (chan.setReg offset value).written = chan.written := rfl

theorem setReg_regs (chan : CvorgChannel) (offset o : ℕ) (value : U32) :
    (chan.setReg offset value).regs o = if o = offset then value else chan.regs o :=
  Function.update_apply ..

theorem setReg_setReg (chan : CvorgChannel) (offset : ℕ) (value value' : U32) :
    (chan.setReg offset value).setReg offset value' = chan.setReg offset value' := by
  simp [CvorgChannel.setReg]

section Regs
variable (chan : CvorgChannel) {offset : ℕ} (value mask : U32)

/-- A register behind those of the SRAM. -/
theorem wchan_block (h : cvorgSramData < offset) : cvorgWchan chan offset value = chan.setReg offset value := by
  unfold cvorgSramData at h
  unfold cvorgWchan cvorgSramAddr cvorgSramData
  rw [if_neg (by omega), if_neg (by omega)]
  rfl

theorem uchan_block (h : cvorgSramData < offset) : cvorgUchan chan offset value mask =
    chan.setReg offset (chan.regs offset &&& ~~~mask ||| value) := by
  unfold cvorgUchan cvorgOchan cvorgAchan cvorgRchan
  rw [wchan_block _ _ h, wchan_block _ _ h, setReg_setReg, setReg_regs, if_pos rfl]

theorem gainStore_block (wv : CvorgWv) {block : ℕ} (h : cvorgSramData < block + cvorgWfNextBlk) :
    ∃ x, cvorgWvGainStore chan block wv = chan.setReg (block + cvorgWfNextBlk) x := by
  unfold cvorgWvGainStore cvorgAchan cvorgOchan
  by_cases hgain : wv.dynamicGain = 0
  · simp only [hgain, if_true]
    exact ⟨_, wchan_block _ _ h⟩
  · simp only [hgain, if_false]
    rw [uchan_block _ _ _ h, wchan_block _ _ h, wchan_block _ _ h, setReg_setReg, setReg_setReg]
    exact ⟨_, rfl⟩

theorem masked_update (x v m : U32) : (x &&& ~~~m ||| v) &&& m = v &&& m := by
  refine BitVec.eq_of_getLsbD_eq fun i hi => ?_
  simp only [BitVec.getLsbD_and, BitVec.getLsbD_or, BitVec.getLsbD_not, hi, decide_true, Bool.true_and]
  cases x.getLsbD i <;> cases v.getLsbD i <;> cases m.getLsbD i <;> rfl

end Regs

def startReg (regs : ℕ → U32) (i : ℕ) : U32 := regs (blockOffset i + cvorgWfStart)

def lenReg (regs : ℕ → U32) (i : ℕ) : U32 := regs (blockOffset i + cvorgWfLen)

/-- The NEXT field of a block. -/
def nextField (regs : ℕ → U32) (i : ℕ) : U32 := regs (blockOffset i + cvorgWfNextBlk) &&& cvorgWfNextBlkNextMask

/-- What one turn of the loop does to the block registers. -/
structure StepRegs (n i : ℕ) (wv : CvorgWv) (ramaddr : U32) (regs regs' : ℕ → U32) : Prop where
  start : startReg regs' i = ramaddr
  len : lenReg regs' i = BitVec.ofNat 32 (wv.size.toNat / 2)
  last : i = n - 1 → nextField regs' i = cvorgWfNextBlkLast &&& cvorgWfNextBlkNextMask
  prev : 0 < i → nextField regs' (i - 1) = BitVec.ofNat 32 i &&& cvorgWfNextBlkNextMask
  otherStart : ∀ j, j ≠ i → startReg regs' j = startReg regs j
  otherLen : ∀ j, j ≠ i → lenReg regs' j = lenReg regs j
  otherNext : ∀ j, j ≠ i → j + 1 ≠ i → nextField regs' j = nextField regs j

/-- The writes of one turn, one after the other. -/
theorem storeWave_eq (e : CvorgEndian) (n : ℕ) (chan : CvorgChannel) (ramaddr : U32) (wv : CvorgWv) (i : ℕ) :
    ∃ x link last, link &&& cvorgWfNextBlkNextMask = BitVec.ofNat 32 i &&& cvorgWfNextBlkNextMask ∧
      last &&& cvorgWfNextBlkNextMask = cvorgWfNextBlkLast &&& cvorgWfNextBlkNextMask ∧
      (storeWave e n (chan, ramaddr) (wv, i)).1 =
        let written := sram e chan wv.normalized ramaddr
        let linked := if i > 0 then written.setReg (blockOffset (i - 1) + cvorgWfNextBlk) link else written
        let filled := (((linked.setReg (blockOffset i + cvorgWfStart) ramaddr).setReg (blockOffset i + cvorgWfLen)
          (BitVec.ofNat 32 (wv.size.toNat / 2))).setReg (blockOffset i + cvorgWfRecurr) wv.recurr).setReg
          (blockOffset i + cvorgWfNextBlk) x
        if i = n - 1 then filled.setReg (blockOffset i + cvorgWfNextBlk) last else filled := by
  have hoff : ∀ j r, cvorgSramData < blockOffset j + r := by
    intro j r
    unfold blockOffset cvorgBlkOffset cvorgSramData
    omega
  have hprev : prevBlockOffset i = blockOffset (i - 1) := rfl
  simp only [storeWave, cvorgWvStore, cvorgWvMarkPrev, cvorgWvMarkLast, hprev]
  rw [wchan_block _ _ (hoff i _), wchan_block _ _ (hoff i _), wchan_block _ _ (hoff i _)]
  obtain ⟨x, hx⟩ := gainStore_block _ wv (hoff i cvorgWfNextBlk)
  rw [hx, uchan_block _ _ _ (hoff i _), uchan_block _ _ _ (hoff (i - 1) _)]
  exact ⟨x, _, _, masked_update _ _ _, masked_update _ _ _, rfl⟩

theorem storeWave_regs (e : CvorgEndian) (n : ℕ) (chan : CvorgChannel) (ramaddr : U32) (wv : CvorgWv) (i : ℕ) :
    StepRegs n i wv ramaddr (sram e chan wv.normalized ramaddr).regs
    (storeWave e n (chan, ramaddr) (wv, i)).1.regs := by
  obtain ⟨x, link, last, hlink, hlast, heq⟩ := storeWave_eq e n chan ramaddr wv i
  rw [heq]
  have hreg : ∀ (c : CvorgChannel) (j k a b : ℕ) (v : U32), a < cvorgBlkSize → b < cvorgBlkSize →
      (c.setReg (blockOffset k + b) v).regs (blockOffset j + a) =
        if j = k ∧ a = b then v else c.regs (blockOffset j + a) := by
    intro c j k a b v ha hb
    rw [setReg_regs]
    by_cases h : j = k ∧ a = b
    · rw [if_pos h, if_pos (by rw [h.1, h.2])]
    · rw [if_neg h, if_neg fun heq => h (blockOffset_inj ha hb heq)]
  have hstart : cvorgWfStart ≠ cvorgWfLen ∧ cvorgWfStart ≠ cvorgWfRecurr ∧ cvorgWfStart ≠ cvorgWfNextBlk := by decide
  have hlen : cvorgWfLen ≠ cvorgWfStart ∧ cvorgWfLen ≠ cvorgWfRecurr ∧ cvorgWfLen ≠ cvorgWfNextBlk := by decide
  have hnext : cvorgWfNextBlk ≠ cvorgWfStart ∧ cvorgWfNextBlk ≠ cvorgWfLen ∧ cvorgWfNextBlk ≠ cvorgWfRecurr := by decide
  constructor
  · unfold startReg
    split <;> split <;> simp (disch := decide) [hreg, hstart]
  · unfold lenReg
    split <;> split <;> simp (disch := decide) [hreg, hlen]
  · intro hi
    unfold nextField
    rw [if_pos hi, hreg _ _ _ _ _ _ (by decide) (by decide), if_pos ⟨rfl, rfl⟩, hlast]
  · intro hpos
    have hne : i - 1 ≠ i := by omega
    unfold nextField
    simp only [gt_iff_lt, hpos, if_true]
    split <;> simp (disch := decide) [hreg, hne, hnext, hlink]
  · intro j hj
    unfold startReg
    split <;> split <;> simp (disch := decide) [hreg, hstart, hj]
  · intro j hj
    unfold lenReg
    split <;> split <;> simp (disch := decide) [hreg, hlen, hj]
  · intro j hj hj'
    unfold nextField
    by_cases hpos : i > 0
    · have hback : j ≠ i - 1 := by omega
      simp only [hpos, if_true]
      split <;> simp (disch := decide) [hreg, hj, hback]
    · simp only [hpos, if_false]
      split <;> simp (disch := decide) [hreg, hj]

/-! ## Splits of a sequence -/

/-- The points of the waveforms one after the other. -/
def stream (waves : List CvorgWv) : List U16 := waves.flatMap CvorgWv.normalized

theorem stream_append (pre : List CvorgWv) (wv : CvorgWv) : stream (pre ++ [wv]) = stream pre ++ wv.normalized := by
  simp [stream]

theorem length_normalized (wv : CvorgWv) : wv.normalized.length = wv.form.length := List.length_map ..

theorem form_pos (wv : CvorgWv) : 0 < wv.form.length := List.length_pos_iff.mpr wv.form_ne_nil

/-- A statement about every waveform with those before and behind it, when one waveform is appended. -/
theorem forall_split_append {P : List CvorgWv → CvorgWv → List CvorgWv → Prop} {waves : List CvorgWv} {last : CvorgWv}
    (hP : ∀ pre wv post, P pre wv (post ++ [last]) ↔ P pre wv post) :
    (∀ pre wv post, waves ++ [last] = pre ++ wv :: post → P pre wv post) ↔
      (∀ pre wv post, waves = pre ++ wv :: post → P pre wv post) ∧ P waves last [] := by
  constructor
  · intro h
    refine ⟨fun pre wv post hsplit => (hP pre wv post).mp (h pre wv (post ++ [last]) ?_), h waves last [] rfl⟩
    rw [hsplit, List.append_assoc, List.cons_append]
  · rintro ⟨h, hlast⟩ pre wv post hsplit
    obtain rfl | ⟨post, w, rfl⟩ := List.eq_nil_or_concat post
    · obtain ⟨rfl, rfl⟩ : waves = pre ∧ last = wv := by simpa using List.append_inj' hsplit rfl
      exact hlast
    · rw [List.concat_eq_append] at hsplit ⊢
      have hcut : waves ++ [last] = (pre ++ wv :: post) ++ [w] := by simpa using hsplit
      obtain ⟨rfl, rfl⟩ : waves = pre ++ wv :: post ∧ last = w := by simpa using List.append_inj' hcut rfl
      exact (hP pre wv post).mpr (h pre wv post rfl)

/-- Point by point, waveform by waveform. -/
theorem forall_stream_iff (f : ℕ → U16) (waves : List CvorgWv) :
    (∀ j, j < (stream waves).length → (stream waves)[j]? = some (f j)) ↔
      ∀ pre wv post, waves = pre ++ wv :: post →
        ∀ k, k < wv.normalized.length → wv.normalized[k]? = some (f ((stream pre).length + k)) := by
  induction waves using List.reverseRecOn with
  | nil => simp [stream]
  | append_singleton waves last ih =>
    rw [forall_split_append (fun _ _ _ => Iff.rfl), ← ih, stream_append]
    constructor
    · intro h
      refine ⟨fun j hj => ?_, fun k hk => ?_⟩
      · rw [← h j (by rw [List.length_append]; omega), List.getElem?_append_left hj]
      · rw [← h _ (by rw [List.length_append]; omega), List.getElem?_append_right (Nat.le_add_right _ _),
          Nat.add_sub_cancel_left]
    · rintro ⟨hfront, hlast⟩ j hj
      obtain hlt | hge := Nat.lt_or_ge j (stream waves).length
      · rw [List.getElem?_append_left hlt, hfront j hlt]
      · rw [List.length_append] at hj
        rw [List.getElem?_append_right hge, hlast _ (by omega), Nat.add_sub_cancel' hge]

/-! ## The run -/

/-- The loop over the first waveforms of a sequence of `n`. -/
def storeWaves (e : CvorgEndian) (n : ℕ) (chan : CvorgChannel) (waves : List CvorgWv) : CvorgChannel × U32 :=
  waves.zipIdx.foldl (storeWave e n) (chan, 0)

section Run
variable (e : CvorgEndian) (n : ℕ) (chan : CvorgChannel)

theorem storeWaves_append (pre : List CvorgWv) (wv : CvorgWv) :
    storeWaves e n chan (pre ++ [wv]) = storeWave e n (storeWaves e n chan pre) (wv, pre.length) := by
  simp [storeWaves, List.zipIdx_append, List.foldl_append]

theorem ramaddr_eq (pre : List CvorgWv) : (storeWaves e n chan pre).2 = BitVec.ofNat 32 (2 * (stream pre).length) := by
  induction pre using List.reverseRecOn with
  | nil => rfl
  | append_singleton pre wv ih =>
    have hstep : (storeWaves e n chan (pre ++ [wv])).2 = (storeWaves e n chan pre).2 + wv.size := by
      rw [storeWaves_append]
      rfl
    rw [hstep, ih, stream_append, List.length_append, length_normalized, CvorgWv.size, ← BitVec.ofNat_add, Nat.mul_add]

/-- What one turn of the loop does to the SRAM. -/
theorem storeWave_writes {ramaddr : U32} {points : ℕ} (hpoints : ramaddr.toNat = 2 * points) (c : CvorgChannel)
    (wv : CvorgWv) (i : ℕ) : Writes e wv.normalized { c with sramAddr := points / 2 }
      { (storeWave e n (c, ramaddr) (wv, i)).1 with regs := c.regs } := by
  have haddr : cvorgWchan c cvorgSramAddr ramaddr = { c with sramAddr := points / 2 } := by
    have : ramaddr.toNat / 4 = points / 2 := by omega
    rw [cvorgWchan, if_pos rfl, this]
  have hloop := sramLoop_writes e wv.normalized { c with sramAddr := points / 2 }
  obtain ⟨x, link, last, -, -, heq⟩ := storeWave_eq e n c ramaddr wv i
  have hsram : (storeWave e n (c, ramaddr) (wv, i)).1.sram = (sram e c wv.normalized ramaddr).sram := by
    rw [heq]
    dsimp only
    split <;> split <;> rfl
  have hwritten : (storeWave e n (c, ramaddr) (wv, i)).1.written = (sram e c wv.normalized ramaddr).written := by
    rw [heq]
    dsimp only
    split <;> split <;> rfl
  rw [sram, haddr] at hsram hwritten
  exact ⟨rfl, fun j hj => by simp only [hsram]; exact hloop.before j hj,
    fun k => by simp only [hsram]; exact hloop.here k, fun a ha => hloop.written a (hwritten ▸ ha)⟩

end Run

/-! ## Forms that begin inside a word -/

/-- The form repeats the last point before it, and that is zero when a zero is written behind it. -/
def Repeats (before form : List U16) : Prop :=
  (∀ p ∈ form, before.getLast? = some p) ∧ (form.length % 2 = 1 → before.getLast? = some 0)

section Overlap
variable {before form : List U16} {mem mem' : ℕ → U16}

/-- The half-words of all full words hold the points. -/
def Kept (points : List U16) (mem : ℕ → U16) : Prop :=
  ∀ j, j < 2 * (points.length / 2) → points[j]? = some (mem j)

/-- A form that begins with a word. -/
theorem kept_aligned (heven : before.length % 2 = 0) (hbefore : ∀ j, j < 2 * (before.length / 2) → mem' j = mem j)
    (hhere : ∀ k, mem' (2 * (before.length / 2) + k) = ((padded form)[k]?).getD (mem (2 * (before.length / 2) + k))) :
    Kept (before ++ form) mem' ↔ Kept before mem := by
  have hlen : 2 * (before.length / 2) = before.length := by omega
  unfold Kept
  rw [hlen] at hbefore hhere ⊢
  constructor
  · intro h j hj
    rw [← hbefore j hj, ← h j (by rw [List.length_append]; omega), List.getElem?_append_left hj]
  · intro h j hj
    rw [List.length_append] at hj
    obtain hlt | hge := Nat.lt_or_ge j before.length
    · rw [List.getElem?_append_left hlt, hbefore j hlt, h j hlt]
    · obtain ⟨k, rfl⟩ := Nat.exists_eq_add_of_le hge
      have hk : k < form.length := by omega
      rw [List.getElem?_append_right hge, Nat.add_sub_cancel_left, hhere, padded_getElem? form k hk,
        List.getElem?_eq_getElem hk, Option.getD_some]

/-- In a form that repeats the point before it every point is that point. -/
theorem repeats_of_shift {last : U16} (hlast : before.getLast? = some last) (hfirst : form[0]? = some last)
    (hshift : ∀ k, k + 1 < form.length → form[k + 1]? = form[k]?) : ∀ p ∈ form, before.getLast? = some p := by
  have hall : ∀ k, k < form.length → form[k]? = some last := by
    intro k hk
    induction k with
    | zero => exact hfirst
    | succ k ih => rw [hshift k hk, ih (by omega)]
  intro p hp
  obtain ⟨k, hk⟩ := List.mem_iff_getElem?.mp hp
  rw [hall k (List.getElem?_eq_some_iff.mp hk).1] at hk
  rw [hlast, hk]

/-- A form that begins in the middle of a word is written one half-word too early. -/
theorem kept_shifted (hne : form ≠ []) (hodd : before.length % 2 = 1)
    (hbefore : ∀ j, j < 2 * (before.length / 2) → mem' j = mem j)
    (hhere : ∀ k, mem' (2 * (before.length / 2) + k) = ((padded form)[k]?).getD (mem (2 * (before.length / 2) + k))) :
    Kept (before ++ form) mem' ↔ Kept before mem ∧ Repeats before form := by
  have hpos : 0 < form.length := List.length_pos_iff.mpr hne
  obtain ⟨m, hm⟩ : ∃ m, before.length = 2 * m + 1 := ⟨before.length / 2, by omega⟩
  have hhalf : 2 * (before.length / 2) = 2 * m := by omega
  have hlast : before.getLast? = before[2 * m]? := by
    rw [List.getLast?_eq_getElem?, hm, Nat.add_sub_cancel]
  have hpoint : ∀ k, (before ++ form)[2 * m + 1 + k]? = form[k]? := by
    intro k
    rw [List.getElem?_append_right (by omega), hm, Nat.add_sub_cancel_left]
  have hwritten : ∀ k, k < form.length → some (mem' (2 * m + k)) = form[k]? := by
    intro k hk
    rw [← hhalf, hhere, padded_getElem? form k hk, List.getElem?_eq_getElem hk, Option.getD_some]
  have hfill : form.length % 2 = 1 → mem' (2 * m + form.length) = 0 := by
    intro h
    rw [← hhalf, hhere, padded_last form h, Option.getD_some]
  have hmid : (before ++ form)[2 * m]? = before.getLast? := by
    rw [List.getElem?_append_left (by omega), hlast]
  unfold Kept Repeats
  rw [hhalf] at hbefore ⊢
  constructor
  · intro h
    have hkept : ∀ j, j < 2 * m → before[j]? = some (mem j) := by
      intro j hj
      rw [← hbefore j hj, ← h j (by rw [List.length_append]; omega), List.getElem?_append_left (by omega)]
    have hstart : before.getLast? = form[0]? := by
      rw [← hmid, h _ (by rw [List.length_append]; omega)]
      exact hwritten 0 hpos
    have hshift : ∀ k, k + 1 < form.length → form[k + 1]? = form[k]? := by
      intro k hk
      rw [← hwritten (k + 1) hk, ← hpoint k, h _ (by rw [List.length_append]; omega)]
      congr 2
      omega
    obtain ⟨last, hl⟩ : ∃ last, before.getLast? = some last := by
      rw [hstart]
      exact ⟨_, List.getElem?_eq_getElem hpos⟩
    have hrep := repeats_of_shift hl (hstart ▸ hl) hshift
    refine ⟨hkept, hrep, fun hlen => ?_⟩
    -- the zero lies where the last point should
    have hend := h (2 * m + form.length) (by rw [List.length_append]; omega)
    have hidx : 2 * m + form.length = 2 * m + 1 + (form.length - 1) := by omega
    rw [hidx, hpoint, ← hidx, hfill hlen] at hend
    exact (hrep _ (List.mem_of_getElem? hend)).trans rfl
  · rintro ⟨hkept, hrep, hzero⟩ j hj
    rw [List.length_append] at hj
    have hsame : ∀ k, k < form.length → form[k]? = before.getLast? := by
      intro k hk
      rw [List.getElem?_eq_getElem hk, hrep _ (List.getElem_mem hk)]
    obtain hlt | rfl | hgt : j < 2 * m ∨ j = 2 * m ∨ 2 * m < j := by omega
    · rw [List.getElem?_append_left (by omega), hbefore j hlt, hkept j hlt]
    · rw [hmid, ← hsame 0 hpos]
      exact (hwritten 0 hpos).symm
    · obtain ⟨k, rfl⟩ : ∃ k, j = 2 * m + 1 + k := ⟨j - (2 * m + 1), by omega⟩
      rw [hpoint, hsame k (by omega)]
      obtain hk | hk : k + 1 < form.length ∨ k + 1 = form.length := by omega
      · have hidx : 2 * m + 1 + k = 2 * m + (k + 1) := by omega
        rw [hidx, hwritten (k + 1) hk, hsame (k + 1) hk]
      · have hidx : 2 * m + 1 + k = 2 * m + form.length := by omega
        have hlen : form.length % 2 = 1 := by omega
        rw [hidx, hfill hlen, hzero hlen]

end Overlap

/-! ## The SRAM after the run -/

section Sram
variable (e : CvorgEndian) (n : ℕ) (chan : CvorgChannel)

/-- The half-words after the loop over these waveforms. -/
def memAfter (waves : List CvorgWv) : ℕ → U16 := half e (storeWaves e n chan waves).1.sram

theorem memAfter_append {pre : List CvorgWv} (hfit : 2 * (stream pre).length < 2 ^ 32) (wv : CvorgWv) :
    (∀ j, j < 2 * ((stream pre).length / 2) → memAfter e n chan (pre ++ [wv]) j = memAfter e n chan pre j) ∧
      ∀ k, memAfter e n chan (pre ++ [wv]) (2 * ((stream pre).length / 2) + k) =
        ((padded wv.normalized)[k]?).getD (memAfter e n chan pre (2 * ((stream pre).length / 2) + k)) := by
  have haddr : (storeWaves e n chan pre).2.toNat = 2 * (stream pre).length := by
    rw [ramaddr_eq, BitVec.toNat_ofNat, Nat.mod_eq_of_lt hfit]
  have hw := storeWave_writes e n haddr (storeWaves e n chan pre).1 wv pre.length
  unfold memAfter
  rw [storeWaves_append]
  exact ⟨hw.before, hw.here⟩

theorem length_stream_append (pre : List CvorgWv) (wv : CvorgWv) :
    (stream (pre ++ [wv])).length = (stream pre).length + wv.form.length := by
  rw [stream_append, List.length_append, length_normalized]

/-- Behind the points and the zero that fills the last word nothing is written. -/
theorem memAfter_beyond (waves : List CvorgWv) (hfit : 2 * (stream waves).length < 2 ^ 32) (j : ℕ)
    (hj : (stream waves).length + (stream waves).length % 2 ≤ j) : memAfter e n chan waves j = half e chan.sram j := by
  induction waves using List.reverseRecOn with
  | nil => rfl
  | append_singleton pre wv ih =>
    rw [length_stream_append] at hfit hj
    have hpos := form_pos wv
    obtain ⟨k, rfl⟩ := Nat.exists_eq_add_of_le (by omega : 2 * ((stream pre).length / 2) ≤ j)
    rw [(memAfter_append e n chan (by omega) wv).2 k]
    have hend : (padded wv.normalized)[k]? = none := by
      rw [List.getElem?_eq_none_iff, length_padded, length_normalized]
      omega
    rw [hend, Option.getD_none]
    exact ih (by omega) (by omega)

theorem written_bound (waves : List CvorgWv) (hfit : 2 * (stream waves).length < 2 ^ 32) :
    ∀ a ∈ (storeWaves e n chan waves).1.written, a ∈ chan.written ∨ 2 * a < (stream waves).length := by
  induction waves using List.reverseRecOn with
  | nil => exact fun a ha => .inl ha
  | append_singleton pre wv ih =>
    rw [length_stream_append] at hfit ⊢
    have haddr : (storeWaves e n chan pre).2.toNat = 2 * (stream pre).length := by
      rw [ramaddr_eq, BitVec.toNat_ofNat, Nat.mod_eq_of_lt (by omega)]
    have hw := (storeWave_writes e n haddr (storeWaves e n chan pre).1 wv pre.length).written
    intro a ha
    rw [storeWaves_append] at ha
    obtain hold | hnew := hw a ha
    · obtain h | h := ih (by omega) a hold
      · exact .inl h
      · exact .inr (by omega)
    · simp only [length_normalized] at hnew
      exact .inr (by omega)

/-- Every form that begins inside a word repeats the point before it. -/
def ShiftedRepeat (waves : List CvorgWv) : Prop :=
  ∀ pre wv post, waves = pre ++ wv :: post → (stream pre).length % 2 = 1 → Repeats (stream pre) wv.normalized

theorem kept_iff (waves : List CvorgWv) (hfit : 2 * (stream waves).length < 2 ^ 32) :
    Kept (stream waves) (memAfter e n chan waves) ↔ ShiftedRepeat waves := by
  induction waves using List.reverseRecOn with
  | nil => exact ⟨fun _ pre wv post h => by simp at h, fun _ j hj => by simp [stream] at hj⟩
  | append_singleton pre wv ih =>
    rw [length_stream_append] at hfit
    obtain ⟨hbefore, hhere⟩ := memAfter_append e n chan (by omega : 2 * (stream pre).length < 2 ^ 32) wv
    rw [ShiftedRepeat, forall_split_append (fun _ _ _ => Iff.rfl), ← ShiftedRepeat, ← ih (by omega), stream_append]
    have hne : wv.normalized ≠ [] := by
      rw [← List.length_pos_iff, length_normalized]
      exact form_pos wv
    obtain heven | hodd := Nat.mod_two_eq_zero_or_one (stream pre).length
    · rw [kept_aligned heven hbefore hhere]
      exact ⟨fun h => ⟨h, fun hodd => by omega⟩, fun h => h.1⟩
    · rw [kept_shifted hne hodd hbefore hhere]
      exact ⟨fun h => ⟨h.1, fun _ => h.2⟩, fun h => ⟨h.1, h.2 hodd⟩⟩

/-- What the code needs of the sequence and the old SRAM: a form that begins inside a word repeats the point before it,
and where it ends inside a word at the end of the sequence, that point was there already. -/
def StoreCondition (waves : List CvorgWv) : Prop :=
  ∀ pre wv post, waves = pre ++ wv :: post → (stream pre).length % 2 = 1 →
    Repeats (stream pre) wv.normalized ∧ (post = [] → wv.form.length % 2 = 0 →
      (stream pre).getLast? = some (half e chan.sram ((stream pre).length + wv.form.length - 1)))

/-- The last point of the sequence. -/
theorem last_point {pre : List CvorgWv} {wv : CvorgWv} (hfit : 2 * (stream (pre ++ [wv])).length < 2 ^ 32)
    (hodd : (stream (pre ++ [wv])).length % 2 = 1) :
    memAfter e n chan (pre ++ [wv]) ((stream (pre ++ [wv])).length - 1) =
      if (stream pre).length % 2 = 1 then half e chan.sram ((stream pre).length + wv.form.length - 1)
      else (wv.normalized[wv.form.length - 1]?).getD 0 := by
  have hpos := form_pos wv
  rw [length_stream_append] at hfit hodd ⊢
  obtain ⟨-, hhere⟩ := memAfter_append e n chan (by omega : 2 * (stream pre).length < 2 ^ 32) wv
  split
  · next hpre =>
    have hidx : (stream pre).length + wv.form.length - 1 = 2 * ((stream pre).length / 2) + wv.form.length := by omega
    have hend : (padded wv.normalized)[wv.form.length]? = none := by
      rw [List.getElem?_eq_none_iff, length_padded, length_normalized]
      omega
    rw [hidx, hhere, hend, Option.getD_none]
    exact memAfter_beyond e n chan pre (by omega) _ (by omega)
  · next hpre =>
    have hidx : (stream pre).length + wv.form.length - 1 = 2 * ((stream pre).length / 2) + (wv.form.length - 1) := by
      omega
    have hk : wv.form.length - 1 < wv.normalized.length := by rw [length_normalized]; omega
    rw [hidx, hhere, padded_getElem? _ _ hk, List.getElem?_eq_getElem hk, Option.getD_some, Option.getD_some]

theorem all_iff_kept (points : List U16) (mem : ℕ → U16) :
    (∀ j, j < points.length → points[j]? = some (mem j)) ↔
      Kept points mem ∧ (points.length % 2 = 1 → points[points.length - 1]? = some (mem (points.length - 1))) := by
  constructor
  · intro h
    exact ⟨fun j hj => h j (by omega), fun hodd => h _ (by omega)⟩
  · rintro ⟨hkept, hlast⟩ j hj
    obtain hlt | hge := Nat.lt_or_ge j (2 * (points.length / 2))
    · exact hkept j hlt
    · obtain rfl : j = points.length - 1 := by omega
      exact hlast (by omega)

theorem points_iff (waves : List CvorgWv) (hfit : 2 * (stream waves).length < 2 ^ 32) :
    (∀ j, j < (stream waves).length → (stream waves)[j]? = some (memAfter e n chan waves j)) ↔
      StoreCondition e chan waves := by
  rw [all_iff_kept, kept_iff e n chan waves hfit]
  obtain rfl | ⟨pre, wv, hsplit⟩ := List.eq_nil_or_concat waves
  · exact ⟨fun _ pre wv post h =>
      by simp at h, fun _ => ⟨fun pre wv post h => by simp at h, fun h => by simp [stream] at h⟩⟩
  rw [List.concat_eq_append] at hsplit
  subst hsplit
  have hpos := form_pos wv
  have hlen := length_stream_append pre wv
  have hlast : (stream (pre ++ [wv]))[(stream (pre ++ [wv])).length - 1]? = wv.normalized[wv.form.length - 1]? := by
    rw [hlen, stream_append, List.getElem?_append_right (by omega)]
    congr 1
    omega
  have hk : wv.form.length - 1 < wv.normalized.length := by rw [length_normalized]; omega
  constructor
  · rintro ⟨hrep, hend⟩ pre' wv' post hsplit hodd
    refine ⟨hrep pre' wv' post hsplit hodd, ?_⟩
    rintro rfl heven
    obtain ⟨rfl, rfl⟩ : pre = pre' ∧ wv = wv' := by simpa using List.append_inj' hsplit rfl
    have hoddEnd : (stream (pre ++ [wv])).length % 2 = 1 := by omega
    have hmem := hend hoddEnd
    rw [last_point e n chan hfit hoddEnd, if_pos hodd, hlast, List.getElem?_eq_getElem hk] at hmem
    rw [← hmem]
    exact (hrep pre wv [] rfl hodd).1 _ (List.getElem_mem hk)
  · intro hcond
    refine ⟨fun pre' wv' post hsplit hodd => (hcond pre' wv' post hsplit hodd).1, fun hoddEnd => ?_⟩
    rw [last_point e n chan hfit hoddEnd, hlast, List.getElem?_eq_getElem hk]
    split
    · next hodd =>
      obtain ⟨hrep, hold⟩ := hcond pre wv [] rfl hodd
      have hsame := hrep.1 _ (List.getElem_mem hk)
      rw [← hsame]
      exact hold rfl (by omega)
    · rw [Option.getD_some]

end Sram

/-! ## The block descriptors after the run -/

section Blocks
variable (e : CvorgEndian) (n : ℕ) (chan : CvorgChannel)

theorem sram_regs (c : CvorgChannel) (points : List U16) (dest : U32) : (sram e c points dest).regs = c.regs := by
  rw [sram, (sramLoop_writes e points _).regs, cvorgWchan, if_pos rfl]

/-- The descriptors of the blocks filled so far. -/
structure Filled (waves : List CvorgWv) (regs : ℕ → U32) : Prop where
  start : ∀ pre wv post, waves = pre ++ wv :: post →
    startReg regs pre.length = BitVec.ofNat 32 (2 * (stream pre).length)
  len : ∀ pre wv post, waves = pre ++ wv :: post → lenReg regs pre.length = BitVec.ofNat 32 wv.form.length
  next : ∀ i, i + 1 < waves.length → nextField regs i = BitVec.ofNat 32 (i + 1)
  last : waves ≠ [] → waves.length = n → nextField regs (n - 1) = cvorgWfNextBlkLast

theorem filled_storeWaves (waves : List CvorgWv) (hmax : waves.length ≤ cvorgMaxSequences) :
    Filled n waves (storeWaves e n chan waves).1.regs := by
  induction waves using List.reverseRecOn with
  | nil =>
    exact ⟨fun _ _ _ h => by simp at h, fun _ _ _ h => by simp at h, fun _ h => by simp at h, fun h => (h rfl).elim⟩
  | append_singleton pre wv ih =>
    rw [List.length_append, List.length_singleton] at hmax
    have hpre := ih (by omega)
    have hstep := storeWave_regs e n (storeWaves e n chan pre).1 (storeWaves e n chan pre).2 wv pre.length
    rw [← storeWaves_append, sram_regs] at hstep
    have hblock : ∀ (pre' : List CvorgWv) wv' post, pre = pre' ++ wv' :: post → pre'.length ≠ pre.length := by
      rintro pre' wv' post rfl
      simp
    have hmasked : ∀ i, i < 32 → BitVec.ofNat 32 i &&& cvorgWfNextBlkNextMask = BitVec.ofNat 32 i := by decide
    constructor
    · rw [forall_split_append (fun _ _ _ => Iff.rfl)]
      refine ⟨fun pre' wv' post hsplit => ?_, ?_⟩
      · rw [hstep.otherStart _ (hblock pre' wv' post hsplit), hpre.start pre' wv' post hsplit]
      · rw [hstep.start, ramaddr_eq]
    · rw [forall_split_append (fun _ _ _ => Iff.rfl)]
      refine ⟨fun pre' wv' post hsplit => ?_, ?_⟩
      · rw [hstep.otherLen _ (hblock pre' wv' post hsplit), hpre.len pre' wv' post hsplit]
      · have hsize := wv.size_lt
        rw [hstep.len, CvorgWv.size, BitVec.toNat_ofNat, Nat.mod_eq_of_lt hsize, Nat.mul_div_cancel_left _ (by decide)]
    · intro i hi
      rw [List.length_append, List.length_singleton] at hi
      unfold cvorgMaxSequences at hmax
      obtain heq | hlt : i + 1 = pre.length ∨ i + 1 < pre.length := by omega
      · have hprev := hstep.prev (by omega)
        rwa [hmasked _ (by omega), ← heq, Nat.add_sub_cancel] at hprev
      · rw [hstep.otherNext i (by omega) (by omega), hpre.next i hlt]
    · intro _ hn
      rw [List.length_append, List.length_singleton] at hn
      have hi : pre.length = n - 1 := by omega
      rw [← hi, hstep.last hi]
      decide

end Blocks

/-! ## Reading back -/

theorem and_not_three (address : U32) : (address &&& ~~~3).toNat / 4 = address.toNat / 4 := by
  rw [toNat_and_high address 3 (k := 2) rfl]
  omega

theorem readPoint_half (e : CvorgEndian) (chan : CvorgChannel) {j : ℕ} (hj : 2 * j < cvorgSramSize) :
    readPoint e chan (2 * j) = .ok (half e chan.sram j) := by
  have hword : (BitVec.ofNat 32 (2 * j) &&& ~~~3).toNat / 4 = j / 2 := by
    unfold cvorgSramSize at hj
    rw [and_not_three, BitVec.toNat_ofNat, Nat.mod_eq_of_lt (by omega)]
    omega
  have hget : gsSramGet e chan (2 * j) = .ok (cvorgHwToCpu e (chan.sram (j / 2))) := by
    unfold gsSramGet
    rw [if_neg (by omega), cvorgWchan, if_pos rfl, hword]
  unfold readPoint half
  rw [hget]
  obtain heven | hodd := Nat.mod_two_eq_zero_or_one j
  · simp [heven, (by omega : 2 * j % 4 < 2), Except.map]
  · have hhigh : ¬ 2 * j % 4 < 2 := by omega
    have hne : ¬ j % 2 = 0 := by omega
    simp only [Except.map, hhigh, hne, if_false]

/-! ## The stored sequence -/

/-- The sequence fits the SRAM and nothing behind it is written, every point is where its block says, and the blocks
are chained in order. -/
structure SeqIntact (e : CvorgEndian) (chan chan' : CvorgChannel) (waves : List CvorgWv) : Prop where
  fits : 2 * (stream waves).length ≤ cvorgSramSize
  bounded : ∀ a ∈ chan'.written, a ∈ chan.written ∨ a < cvorgSramSize / 4
  points : ∀ pre wv post, waves = pre ++ wv :: post → ∀ k (h : k < wv.normalized.length),
    readPoint e chan' ((startReg chan'.regs pre.length).toNat + 2 * k) = .ok wv.normalized[k]
  len : ∀ pre wv post, waves = pre ++ wv :: post → lenReg chan'.regs pre.length = BitVec.ofNat 32 wv.form.length
  next : ∀ i, i + 1 < waves.length → nextField chan'.regs i = BitVec.ofNat 32 (i + 1)
  last : nextField chan'.regs (waves.length - 1) = cvorgWfNextBlkLast

theorem stream_split (pre : List CvorgWv) (wv : CvorgWv) (post : List CvorgWv) :
    (stream (pre ++ wv :: post)).length = (stream pre).length + wv.normalized.length + (stream post).length := by
  simp [stream, Nat.add_assoc]

/-- In a sequence that fits, reading a point by its block is reading a half-word. -/
theorem points_iff_half (e : CvorgEndian) (n : ℕ) (chan : CvorgChannel) {waves : List CvorgWv}
    (hfits : 2 * (stream waves).length ≤ cvorgSramSize)
    (hfilled : Filled n waves (storeWaves e n chan waves).1.regs) :
    (∀ pre wv post, waves = pre ++ wv :: post → ∀ k (h : k < wv.normalized.length),
      readPoint e (storeWaves e n chan waves).1
        ((startReg (storeWaves e n chan waves).1.regs pre.length).toNat + 2 * k) = .ok wv.normalized[k]) ↔
      StoreCondition e chan waves := by
  have hfit : 2 * (stream waves).length < 2 ^ 32 := by unfold cvorgSramSize at hfits; omega
  rw [← points_iff e n chan waves hfit, forall_stream_iff]
  have hread : ∀ pre wv post, waves = pre ++ wv :: post → ∀ k, k < wv.normalized.length →
      readPoint e (storeWaves e n chan waves).1
        ((startReg (storeWaves e n chan waves).1.regs pre.length).toNat + 2 * k) =
        .ok (memAfter e n chan waves ((stream pre).length + k)) := by
    intro pre wv post hsplit k hk
    have hlen := stream_split pre wv post
    rw [← hsplit] at hlen
    rw [hfilled.start pre wv post hsplit, BitVec.toNat_ofNat, Nat.mod_eq_of_lt (by omega), ← Nat.mul_add,
      readPoint_half e _ (by omega)]
    rfl
  constructor
  · intro h pre wv post hsplit k hk
    have := h pre wv post hsplit k hk
    rw [hread pre wv post hsplit k hk, Except.ok.injEq] at this
    rw [this, List.getElem?_eq_getElem hk]
  · intro h pre wv post hsplit k hk
    have := h pre wv post hsplit k hk
    rw [List.getElem?_eq_getElem hk, Option.some.injEq] at this
    rw [hread pre wv post hsplit k hk, this]

theorem seqIntact_storeWaves (e : CvorgEndian) (chan : CvorgChannel) {waves : List CvorgWv} (hne : waves ≠ [])
    (hmax : waves.length ≤ cvorgMaxSequences) :
    SeqIntact e chan (storeWaves e waves.length chan waves).1 waves ↔
      2 * (stream waves).length ≤ cvorgSramSize ∧ StoreCondition e chan waves := by
  have hfilled := filled_storeWaves e waves.length chan waves hmax
  constructor
  · intro h
    exact ⟨h.fits, (points_iff_half e waves.length chan h.fits hfilled).mp h.points⟩
  · rintro ⟨hfits, hcond⟩
    refine ⟨hfits, fun a ha => ?_, (points_iff_half e waves.length chan hfits hfilled).mpr hcond, hfilled.len,
      hfilled.next, hfilled.last hne rfl⟩
    have hfit : 2 * (stream waves).length < 2 ^ 32 := by unfold cvorgSramSize at hfits; omega
    obtain hold | hnew := written_bound e waves.length chan waves hfit a ha
    · exact .inl hold
    · unfold cvorgSramSize at hfits ⊢
      exact .inr (by omega)

/-- Playing a single waveform more often changes no form. -/
theorem seqIntact_loopSingle (e : CvorgEndian) (chan chan' : CvorgChannel) (seq : CvorgSeq) :
    (SeqIntact e chan chan' (loopSingle seq).waves ↔ SeqIntact e chan chan' seq.waves) ∧
      (stream (loopSingle seq).waves = stream seq.waves) ∧
      (StoreCondition e chan (loopSingle seq).waves ↔ StoreCondition e chan seq.waves) := by
  obtain ⟨nr, waves⟩ := seq
  match waves with
  | [] => exact ⟨Iff.rfl, rfl, Iff.rfl⟩
  | wv :: wv' :: rest => exact ⟨Iff.rfl, rfl, Iff.rfl⟩
  | [wv] =>
    have hsingle : ∀ (P : List CvorgWv → CvorgWv → List CvorgWv → Prop) (w : CvorgWv),
        (∀ pre v post, [w] = pre ++ v :: post → P pre v post) ↔ P [] w [] := by
      intro P w
      refine ⟨fun h => h [] w [] rfl, fun h pre v post hsplit => ?_⟩
      obtain ⟨rfl, rfl, rfl⟩ : pre = [] ∧ v = w ∧ post = [] := by
        cases pre with
        | nil => simpa [eq_comm] using hsplit
        | cons a pre => simp at hsplit
      exact h
    refine ⟨?_, rfl, ?_⟩
    · constructor
      · intro h
        exact ⟨h.fits, h.bounded, (hsingle _ _).mpr ((hsingle _ _).mp h.points),
          (hsingle _ _).mpr ((hsingle _ _).mp h.len), h.next, h.last⟩
      · intro h
        exact ⟨h.fits, h.bounded, (hsingle _ _).mpr ((hsingle _ _).mp h.points),
          (hsingle _ _).mpr ((hsingle _ _).mp h.len), h.next, h.last⟩
    · exact ⟨fun h => (hsingle _ _).mpr ((hsingle _ _).mp h), fun h => (hsingle _ _).mpr ((hsingle _ _).mp h)⟩

/-- A sequence that is accepted is stored intact exactly when it fits as a sum of integers and meets the condition. -/
theorem seqIntact_iff (w : ℕ) (e : CvorgEndian) (sramBusy : Bool) (chan chan' : CvorgChannel) (seq : CvorgSeq)
    (h : cvorgStoreseq w e sramBusy chan seq = .ok chan') :
    SeqIntact e chan chan' seq.waves ↔
      2 * (stream seq.waves).length ≤ cvorgSramSize ∧ StoreCondition e chan seq.waves := by
  unfold cvorgStoreseq at h
  split at h
  · cases h
  split at h
  · cases h
  split at h
  · cases h
  next _ hn _ =>
  obtain ⟨hsame, hstream, hcond⟩ := seqIntact_loopSingle e chan chan' seq
  have hlen : (loopSingle seq).waves.length = seq.waves.length := by
    unfold loopSingle
    split
    · next hw => rw [hw]; rfl
    · rfl
  have hne : (loopSingle seq).waves ≠ [] := by
    intro hnil
    rw [hnil, List.length_nil] at hlen
    omega
  -- the number of cycles is written before the loop, into a register of its own
  have hseqNr : cvorgWchan chan cvorgSeqNr (loopSingle seq).nr = chan.setReg cvorgSeqNr (loopSingle seq).nr :=
    wchan_block _ _ (by decide)
  have hrun : chan' = (storeWaves e (loopSingle seq).waves.length (chan.setReg cvorgSeqNr (loopSingle seq).nr)
      (loopSingle seq).waves).1 := by
    simp only [Except.ok.injEq] at h
    rw [← h, storeseqLoop, hseqNr]
    rfl
  have hiff := seqIntact_storeWaves e (chan.setReg cvorgSeqNr (loopSingle seq).nr) hne (by omega)
  rw [← hrun, hstream] at hiff
  rw [← hsame, ← hcond]
  constructor
  · intro hintact
    exact hiff.mp ⟨hintact.fits, hintact.bounded, hintact.points, hintact.len, hintact.next, hintact.last⟩
  · intro hc
    have hintact := hiff.mpr hc
    exact ⟨hintact.fits, hintact.bounded, hintact.points, hintact.len, hintact.next, hintact.last⟩

/-- Where an `ssize_t` holds the sum of the sizes, what is accepted fits. -/
theorem fits_of_accepted {w : ℕ} {e : CvorgEndian} {sramBusy : Bool} {chan chan' : CvorgChannel} {seq : CvorgSeq}
    (hsum : 2 * (stream seq.waves).length < 2 ^ (w - 1)) (h : cvorgStoreseq w e sramBusy chan seq = .ok chan') :
    2 * (stream seq.waves).length ≤ cvorgSramSize := by
  have hsize : ∀ waves : List CvorgWv, waves.foldl (fun size wv => size + wv.size.setWidth w) (0 : BitVec w) =
      BitVec.ofNat w (2 * (stream waves).length) := by
    intro waves
    induction waves using List.reverseRecOn with
    | nil => rfl
    | append_singleton pre wv ih =>
      rw [List.foldl_append, List.foldl_cons, List.foldl_nil, ih, length_stream_append, Nat.mul_add, BitVec.ofNat_add]
      congr 1
      refine BitVec.eq_of_toNat_eq ?_
      rw [CvorgWv.size, BitVec.toNat_setWidth, BitVec.toNat_ofNat, BitVec.toNat_ofNat, Nat.mod_eq_of_lt wv.size_lt]
  have hint : (seqSize w seq).toInt = 2 * (stream seq.waves).length := by
    have hw : 2 * 2 ^ (w - 1) ≤ 2 ^ w ∨ w = 0 := by
      cases w with
      | zero => exact .inr rfl
      | succ w => exact .inl (by rw [Nat.add_sub_cancel, Nat.pow_succ, Nat.mul_comm])
    rw [seqSize, hsize, BitVec.toInt_eq_toNat_cond, BitVec.toNat_ofNat]
    obtain hw | rfl := hw
    · rw [Nat.mod_eq_of_lt (by omega), if_pos (by omega)]
      push_cast
      rfl
    · have hzero : (stream seq.waves).length = 0 := by simpa using hsum
      simp [hzero]
  unfold cvorgStoreseq at h
  split at h
  · cases h
  next hle =>
  rw [hint] at hle
  omega

def littleEndian : CvorgEndian := ⟨false, true⟩

/-- A channel that was reset. -/
def emptyChannel : CvorgChannel := { regs := fun _ => 0, sram := fun _ => 0, sramAddr := 0, written := [] }

def wave (form : List U16) (hne : form ≠ []) (hlt : 2 * form.length < 2 ^ 32) : CvorgWv :=
  { recurr := 1, dynamicGain := 0, gainVal := 0, form := form, form_ne_nil := hne, size_lt := hlt }

/-- Two points and one. -/
def evenFirst : CvorgSeq :=
  { nr := 1, waves := [wave [4, 8] (by decide) (by decide), wave [12] (by decide) (by decide)] }

/-- One point, and another one. -/
def oddFirst : CvorgSeq :=
  { nr := 1, waves := [wave [4] (by decide) (by decide), wave [8] (by decide) (by decide)] }

theorem seqIntact_iff_evenFirst : ∃ chan', cvorgStoreseq 32 littleEndian false emptyChannel evenFirst = .ok chan' ∧
    (SeqIntact littleEndian emptyChannel chan' evenFirst.waves ↔
      2 * (stream evenFirst.waves).length ≤ cvorgSramSize ∧
        StoreCondition littleEndian emptyChannel evenFirst.waves) :=
  ⟨storeseqLoop littleEndian emptyChannel evenFirst, rfl,
    seqIntact_iff 32 littleEndian false emptyChannel _ evenFirst rfl⟩

/-- The second waveform takes the place of the first one. -/
theorem not_seqIntact_oddFirst : ∃ chan', cvorgStoreseq 32 littleEndian false emptyChannel oddFirst = .ok chan' ∧
    ¬ SeqIntact littleEndian emptyChannel chan' oddFirst.waves := by
  refine ⟨storeseqLoop littleEndian emptyChannel oddFirst, rfl, fun h => ?_⟩
  have hpoint := h.points [] _ _ rfl 0 (by decide)
  have hread : readPoint littleEndian (storeseqLoop littleEndian emptyChannel oddFirst)
      ((startReg (storeseqLoop littleEndian emptyChannel oddFirst).regs 0).toNat + 2 * 0) = .ok 8 := by rfl
  rw [List.length_nil, hread] at hpoint
  revert hpoint
  decide

end HtDrivers.Cvorg
