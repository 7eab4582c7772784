import HtDrivers.Cvorg.LoadSeq
import HtDrivers.Cvorg.SeqIntact

/-! At an offset of 2.5 V a gain of 14 dB is needed, of the channel and of every block that carries its own. -/
namespace HtDrivers.Cvorg
open Lib.Transition
set_option autoImplicit false

/-! ## Bits that a masked write keeps -/

section Words
variable {x v m k : U32}

theorem or_keeps (h : v &&& k = 0) : (x ||| v) &&& k = x &&& k := by
  rw [BitVec.and_or_distrib_right, h]
  exact BitVec.or_zero

theorem and_keeps (h : m &&& k = k) : (x &&& m) &&& k = x &&& k := by
  rw [BitVec.and_assoc, h]

theorem masked_update_keeps (hm : ~~~m &&& k = k) (hv : v &&& k = 0) : (x &&& ~~~m ||| v) &&& k = x &&& k := by
  rw [or_keeps hv, and_keeps hm]

/-- The bits of a smaller mask follow from those of a larger one. -/
theorem and_eq_of_and_eq {y : U32} (hm : m &&& k = k) (h : x &&& m = y &&& m) : x &&& k = y &&& k := by
  have hx := congrArg (· &&& k) h
  simpa only [BitVec.and_assoc, hm] using hx

end Words

/-! ## Registers that matter -/

def nextBlk (regs : ℕ → U32) (i : ℕ) : U32 := regs (blockOffset i + cvorgWfNextBlk)

/-- The bits of a block that give its own gain. -/
def ownGainMask : U32 := cvorgWfNextBlkConfGain ||| cvorgWfNextBlkGainMask

def gainOffsetMask : U32 := cvorgConfigOutOffset ||| cvorgConfigOutGainMask

/-- Neither the gain nor the offset of the channel changes, nor the own gain of a block. -/
structure SameGain (regs regs' : ℕ → U32) : Prop where
  config : regs' cvorgConfig &&& gainOffsetMask = regs cvorgConfig &&& gainOffsetMask
  next : ∀ i, nextBlk regs' i &&& ownGainMask = nextBlk regs i &&& ownGainMask

section Registers
variable {regs regs' regs'' : ℕ → U32} {chan : CvorgChannel} {offset : ℕ} {value mask : U32}

theorem SameGain.refl (regs : ℕ → U32) : SameGain regs regs := ⟨rfl, fun _ => rfl⟩

theorem SameGain.trans (h : SameGain regs regs') (h' : SameGain regs' regs'') : SameGain regs regs'' :=
  ⟨h'.config.trans h.config, fun i => (h'.next i).trans (h.next i)⟩

theorem config_ne_block (i r : ℕ) : cvorgConfig ≠ blockOffset i + r := by
  unfold cvorgConfig blockOffset cvorgBlkOffset
  omega

theorem wchan_reg (haddr : offset ≠ cvorgSramAddr) (hdata : offset ≠ cvorgSramData) (value : U32) :
    cvorgWchan chan offset value = chan.setReg offset value := by
  unfold cvorgWchan
  rw [if_neg haddr, if_neg hdata]
  rfl

theorem wchan_ctl (value : U32) : cvorgWchan chan cvorgCtl value = chan.setReg cvorgCtl value :=
  wchan_reg (by decide) (by decide) value

theorem wchan_config (value : U32) : cvorgWchan chan cvorgConfig value = chan.setReg cvorgConfig value :=
  wchan_reg (by decide) (by decide) value

theorem sameGain_ctl (value : U32) : SameGain chan.regs (cvorgWchan chan cvorgCtl value).regs := by
  rw [wchan_ctl]
  refine ⟨?_, fun i => ?_⟩
  · rw [setReg_regs, if_neg (by decide)]
  · have hne : blockOffset i + cvorgWfNextBlk ≠ cvorgCtl := by
      unfold blockOffset cvorgBlkOffset cvorgCtl
      omega
    unfold nextBlk
    rw [setReg_regs, if_neg hne]

theorem sameGain_config (h : value &&& gainOffsetMask = chan.regs cvorgConfig &&& gainOffsetMask) :
    SameGain chan.regs (cvorgWchan chan cvorgConfig value).regs := by
  rw [wchan_config]
  refine ⟨?_, fun i => ?_⟩
  · rw [setReg_regs, if_pos rfl, h]
  · unfold nextBlk
    rw [setReg_regs, if_neg (config_ne_block i _).symm]

theorem sameGain_ochan (h : value &&& gainOffsetMask = 0) :
    SameGain chan.regs (cvorgOchan chan cvorgConfig value).regs :=
  sameGain_config (or_keeps h)

theorem sameGain_achan (h : value &&& gainOffsetMask = gainOffsetMask) :
    SameGain chan.regs (cvorgAchan chan cvorgConfig value).regs :=
  sameGain_config (and_keeps h)

theorem uchan_reg (haddr : offset ≠ cvorgSramAddr) (hdata : offset ≠ cvorgSramData) :
    cvorgUchan chan offset value mask = chan.setReg offset (chan.regs offset &&& ~~~mask ||| value) := by
  unfold cvorgUchan cvorgOchan cvorgAchan cvorgRchan
  rw [wchan_reg haddr hdata, wchan_reg haddr hdata, setReg_setReg, setReg_regs, if_pos rfl]

theorem uchan_config : cvorgUchan chan cvorgConfig value mask =
    chan.setReg cvorgConfig (chan.regs cvorgConfig &&& ~~~mask ||| value) :=
  uchan_reg (by decide) (by decide)

/-- Registers of a block other than NEXTBLK. -/
theorem sameGain_block (i : ℕ) {r : ℕ} (hr : r < cvorgWfNextBlk) (value : U32) :
    SameGain chan.regs (cvorgWchan chan (blockOffset i + r) value).regs := by
  have hdata : cvorgSramData < blockOffset i + r := by
    unfold blockOffset cvorgBlkOffset cvorgSramData
    omega
  rw [wchan_block _ _ hdata]
  refine ⟨?_, fun j => ?_⟩
  · rw [setReg_regs, if_neg (config_ne_block i r)]
  · have hne : blockOffset j + cvorgWfNextBlk ≠ blockOffset i + r := by
      intro heq
      have h := (blockOffset_inj (by decide) (hr.trans (by decide)) heq).2
      omega
    unfold nextBlk
    rw [setReg_regs, if_neg hne]

theorem nextBlk_data (i : ℕ) : cvorgSramData < blockOffset i + cvorgWfNextBlk := by
  unfold blockOffset cvorgBlkOffset cvorgSramData
  omega

theorem nextBlk_setReg (i j : ℕ) (x : U32) : nextBlk (chan.setReg (blockOffset i + cvorgWfNextBlk) x).regs j =
    if j = i then x else nextBlk chan.regs j := by
  unfold nextBlk
  rw [setReg_regs]
  by_cases h : j = i
  · rw [if_pos h, if_pos (by rw [h])]
  · rw [if_neg h, if_neg fun heq => h (blockOffset_inj (by decide) (by decide) heq).1]

/-- The link to another block is kept apart from the gain. -/
theorem sameGain_link (i : ℕ) (hvalue : value &&& ownGainMask = 0) :
    SameGain chan.regs (cvorgUchan chan (blockOffset i + cvorgWfNextBlk) value cvorgWfNextBlkNextMask).regs := by
  rw [uchan_block _ _ _ (nextBlk_data i)]
  refine ⟨?_, fun j => ?_⟩
  · rw [setReg_regs, if_neg (config_ne_block i _)]
  · rw [nextBlk_setReg]
    by_cases h : j = i
    · subst h
      rw [if_pos rfl]
      exact masked_update_keeps (by decide) hvalue
    · rw [if_neg h]

end Registers

/-! ## Storing a sequence -/

/-- A block without its own gain, or with 14 dB. -/
def Carries14 (next : U32) : Prop :=
  next &&& cvorgWfNextBlkConfGain ≠ 0 → next &&& cvorgWfNextBlkGainMask = cvorgGainToHw 14 <<< cvorgWfNextBlkGainShift

instance (next : U32) : Decidable (Carries14 next) := inferInstanceAs (Decidable (_ → _))

/-- A waveform without its own gain, or with 14 dB. -/
def Asks14 (wv : UserWv) : Prop := wv.dynamicGain = 0 ∨ wv.gainVal = 14

theorem carries14_congr {x y : U32} (h : y &&& ownGainMask = x &&& ownGainMask) (hx : Carries14 x) : Carries14 y := by
  have hconf : y &&& cvorgWfNextBlkConfGain = x &&& cvorgWfNextBlkConfGain := and_eq_of_and_eq (by decide) h
  have hgain : y &&& cvorgWfNextBlkGainMask = x &&& cvorgWfNextBlkGainMask := and_eq_of_and_eq (by decide) h
  unfold Carries14 at *
  rw [hconf, hgain]
  exact hx

section Store
variable {e : CvorgEndian} {n : ℕ}

/-- The gain store touches its own block only. -/
theorem gainStore_others (chan : CvorgChannel) (i : ℕ) (wv : UserWv) :
    (userGainStore chan (blockOffset i) wv).regs cvorgConfig = chan.regs cvorgConfig ∧
      ∀ j, j ≠ i → nextBlk (userGainStore chan (blockOffset i) wv).regs j = nextBlk chan.regs j := by
  have hset : ∃ x, userGainStore chan (blockOffset i) wv = chan.setReg (blockOffset i + cvorgWfNextBlk) x := by
    unfold userGainStore cvorgAchan cvorgOchan
    by_cases hgain : wv.dynamicGain = 0
    · simp only [hgain, if_true]
      exact ⟨_, wchan_block _ _ (nextBlk_data i)⟩
    · simp only [hgain, if_false]
      rw [uchan_block _ _ _ (nextBlk_data i), wchan_block _ _ (nextBlk_data i), wchan_block _ _ (nextBlk_data i),
        setReg_setReg, setReg_setReg]
      exact ⟨_, rfl⟩
  obtain ⟨x, hx⟩ := hset
  rw [hx]
  refine ⟨?_, fun j hj => ?_⟩
  · rw [setReg_regs, if_neg (config_ne_block i _)]
  · rw [nextBlk_setReg, if_neg hj]

theorem gainStore_own (chan : CvorgChannel) (i : ℕ) {wv : UserWv} (h : Asks14 wv) :
    Carries14 (nextBlk (userGainStore chan (blockOffset i) wv).regs i) := by
  unfold userGainStore cvorgAchan cvorgOchan
  by_cases hgain : wv.dynamicGain = 0
  · simp only [hgain, if_true]
    rw [wchan_block _ _ (nextBlk_data i), nextBlk_setReg, if_pos rfl]
    intro hconf
    exact absurd (by rw [BitVec.and_assoc]; exact BitVec.and_zero) hconf
  · obtain hzero | h14 := h
    · exact absurd hzero hgain
    · simp only [hgain, if_false]
      rw [uchan_block _ _ _ (nextBlk_data i), nextBlk_setReg, if_pos rfl, h14]
      intro _
      rw [masked_update]
      decide

theorem storeUserWave_regs (s : CvorgChannel × U32) (wv : UserWv) {i : ℕ} (hi : i < 32) :
    ∃ chan, SameGain s.1.regs chan.regs ∧
      SameGain (userGainStore chan (blockOffset i) wv).regs (storeUserWave e n s (wv, i)).1.regs := by
  have hlink : ∀ j < 32, BitVec.ofNat 32 j &&& ownGainMask = 0 := by decide
  have hsram : SameGain s.1.regs (sram e s.1 wv.points s.2).regs := by
    rw [sram_regs]
    exact .refl _
  let linked := if i > 0 then cvorgWvMarkPrev (sram e s.1 wv.points s.2) (prevBlockOffset i) i else
    sram e s.1 wv.points s.2
  have hlinked : SameGain (sram e s.1 wv.points s.2).regs linked.regs := by
    show SameGain _ (if i > 0 then _ else _ : CvorgChannel).regs
    split
    · exact sameGain_link (i - 1) (hlink i hi)
    · exact .refl _
  let described := cvorgWchan (cvorgWchan (cvorgWchan linked (blockOffset i + cvorgWfStart) s.2)
    (blockOffset i + cvorgWfLen) (BitVec.ofNat 32 (wv.size.toNat / 2))) (blockOffset i + cvorgWfRecurr) wv.recurr
  have hdescribed : SameGain linked.regs described.regs :=
    ((sameGain_block i (by decide) _).trans (sameGain_block i (by decide) _)).trans (sameGain_block i (by decide) _)
  refine ⟨described, (hsram.trans hlinked).trans hdescribed, ?_⟩
  show SameGain (userGainStore described (blockOffset i) wv).regs
    (if i = n - 1 then cvorgWvMarkLast (userGainStore described (blockOffset i) wv) (blockOffset i) else
      userGainStore described (blockOffset i) wv).regs
  split
  · exact sameGain_link i (by decide)
  · exact .refl _

/-- The run of the loop over the waveforms from the one with index `k` on. -/
theorem storeUser_fold (waves : List UserWv) (k : ℕ) (s : CvorgChannel × U32) (hlength : k + waves.length ≤ 32) :
    ((waves.zipIdx k).foldl (storeUserWave e n) s).1.regs cvorgConfig &&& gainOffsetMask =
        s.1.regs cvorgConfig &&& gainOffsetMask ∧
      ((∀ wv ∈ waves, Asks14 wv) → (∀ j < k, Carries14 (nextBlk s.1.regs j)) →
        ∀ j < k + waves.length, Carries14 (nextBlk ((waves.zipIdx k).foldl (storeUserWave e n) s).1.regs j)) := by
  induction waves generalizing k s with
  | nil => exact ⟨rfl, fun _ hbefore => hbefore⟩
  | cons wv waves ih =>
    rw [List.length_cons] at hlength ⊢
    rw [List.zipIdx_cons, List.foldl_cons]
    obtain ⟨chan, hfirst, hsecond⟩ := storeUserWave_regs (e := e) (n := n) s wv (i := k) (by omega)
    obtain ⟨hconfig, hothers⟩ := gainStore_others chan k wv
    obtain ⟨ihconfig, ihblocks⟩ := ih (k + 1) (storeUserWave e n s (wv, k)) (by omega)
    constructor
    · rw [ihconfig, hsecond.config, hconfig, hfirst.config]
    · intro hasks hbefore j hj
      refine ihblocks (fun wv' hwv' => hasks wv' (List.mem_cons_of_mem _ hwv')) (fun j hj => ?_) j (by omega)
      apply carries14_congr (hsecond.next j)
      by_cases hjk : j = k
      · subst hjk
        exact gainStore_own chan j (hasks wv (List.mem_cons_self ..))
      · rw [hothers j hjk]
        exact carries14_congr (hfirst.next j) (hbefore j (by omega))

theorem loopSingleUser_waves (seq : UserSeq) : (loopSingleUser seq).waves.length = seq.waves.length ∧
    ((∀ wv ∈ seq.waves, Asks14 wv) → ∀ wv ∈ (loopSingleUser seq).waves, Asks14 wv) := by
  unfold loopSingleUser
  split
  · rename_i wv hwaves
    rw [hwaves]
    refine ⟨rfl, fun hasks wv' hwv' => ?_⟩
    obtain rfl := List.mem_singleton.mp hwv'
    exact hasks wv (List.mem_singleton.mpr rfl)
  · exact ⟨rfl, id⟩

/-- A stored sequence leaves the channel's gain and offset alone. If no waveform asks for another gain than 14 dB, then
no block carries one. -/
theorem storeUserSeq_regs {w : ℕ} {sramBusy : Bool} {chan chan' : CvorgChannel} {seq : UserSeq}
    (h : storeUserSeq w e sramBusy chan seq = .ok chan') :
    chan'.regs cvorgConfig &&& gainOffsetMask = chan.regs cvorgConfig &&& gainOffsetMask ∧
      ((∀ wv ∈ seq.waves, Asks14 wv) → ∀ i < seq.waves.length, Carries14 (nextBlk chan'.regs i)) := by
  unfold storeUserSeq at h
  split at h
  · cases h
  split at h
  · cases h
  rename_i hmax
  split at h
  · cases h
  cases h
  obtain ⟨hlength, hasks⟩ := loopSingleUser_waves seq
  unfold cvorgMaxSequences at hmax
  obtain ⟨hconfig, hblocks⟩ := storeUser_fold (e := e) (n := (loopSingleUser seq).waves.length)
    (loopSingleUser seq).waves 0
    (cvorgWchan chan cvorgSeqNr (loopSingleUser seq).nr, 0) (by omega)
  have hnr : (cvorgWchan chan cvorgSeqNr (loopSingleUser seq).nr).regs cvorgConfig = chan.regs cvorgConfig := by
    rw [wchan_reg (by decide) (by decide), setReg_regs, if_neg (by decide)]
  refine ⟨hconfig.trans (by rw [hnr]), fun hall i hi => ?_⟩
  exact hblocks (hasks hall) (fun j hj => absurd hj (Nat.not_lt_zero j)) i (by omega)

end Store

/-! ## The rule of a channel -/

/-- CONFIG shows the channel's offset and gain, which are among those that it can show. -/
structure Encodes (channel : CvorgContext) : Prop where
  outoff : channel.outoff = cvorgOutOffset0V ∨ channel.outoff = cvorgOutOffset2_5V
  outgain : channel.outgain ∈ cvorgGains
  offsetField : channel.hw.regs cvorgConfig &&& cvorgConfigOutOffset = channel.outoff <<< 5
  gainField : channel.hw.regs cvorgConfig &&& cvorgConfigOutGainMask =
    cvorgGainToHw channel.outgain <<< cvorgConfigOutGainShift

/-- Every block of the loaded sequence that carries its own gain carries 14 dB. -/
def Blocks14 (channel : CvorgContext) : Prop := ∀ i < channel.loaded, Carries14 (nextBlk channel.hw.regs i)

structure GainOffset (channel : CvorgContext) : Prop where
  encodes : Encodes channel
  gain : channel.outoff = cvorgOutOffset2_5V → channel.outgain = 14
  blocks : channel.outoff = cvorgOutOffset2_5V → Blocks14 channel

section Channel
variable {channel channel' : CvorgContext}

theorem SameGain.fields {regs regs' : ℕ → U32} (h : SameGain regs regs') :
    regs' cvorgConfig &&& cvorgConfigOutOffset = regs cvorgConfig &&& cvorgConfigOutOffset ∧
      regs' cvorgConfig &&& cvorgConfigOutGainMask = regs cvorgConfig &&& cvorgConfigOutGainMask :=
  ⟨and_eq_of_and_eq (by decide) h.config, and_eq_of_and_eq (by decide) h.config⟩

theorem Blocks14.of_same (h : Blocks14 channel) (hloaded : channel'.loaded = channel.loaded)
    (hnext : ∀ i, nextBlk channel'.hw.regs i &&& ownGainMask = nextBlk channel.hw.regs i &&& ownGainMask) :
    Blocks14 channel' := by
  intro i hi
  rw [hloaded] at hi
  exact carries14_congr (hnext i) (h i hi)

theorem GainOffset.of_same (h : GainOffset channel) (hoff : channel'.outoff = channel.outoff)
    (hgain : channel'.outgain = channel.outgain) (hloaded : channel'.loaded = channel.loaded)
    (hsame : SameGain channel.hw.regs channel'.hw.regs) : GainOffset channel' := by
  obtain ⟨hoffField, hgainField⟩ := hsame.fields
  refine ⟨⟨?_, ?_, ?_, ?_⟩, fun hhigh => ?_, fun hhigh => ?_⟩
  · rw [hoff]
    exact h.encodes.outoff
  · rw [hgain]
    exact h.encodes.outgain
  · rw [hoffField, hoff, h.encodes.offsetField]
  · rw [hgainField, hgain, h.encodes.gainField]
  · rw [hgain]
    exact h.gain (hoff ▸ hhigh)
  · exact (h.blocks (hoff ▸ hhigh)).of_same hloaded hsame.next

/-! ### Gain and offset in CONFIG -/

theorem nearest_mem (array : List ℤ) (val : ℤ) (best : ℕ × ℤ) :
    (array.foldl (fun best gain => if (gain - val).natAbs < best.1 then ((gain - val).natAbs, gain) else best) best).2 =
      best.2 ∨
      (array.foldl (fun best gain => if (gain - val).natAbs < best.1 then ((gain - val).natAbs, gain) else best)
        best).2 ∈ array := by
  induction array generalizing best with
  | nil => exact .inl rfl
  | cons gain array ih =>
    rw [List.foldl_cons]
    obtain hbest | hmem := ih (if (gain - val).natAbs < best.1 then ((gain - val).natAbs, gain) else best)
    · rw [hbest]
      split
      · exact .inr (List.mem_cons_self ..)
      · exact .inl rfl
    · exact .inr (List.mem_cons_of_mem _ hmem)

theorem gainApprox_mem (gain : ℤ) : cvorgGainApprox gain ∈ cvorgGains := by
  unfold cvorgGainApprox
  split
  · decide
  split
  · decide
  obtain hfirst | hmem := nearest_mem cvorgGains gain (2 ^ 32 - 1, cvorgGains.headD 0)
  · unfold cvorgNearest
    rw [hfirst]
    decide
  · exact hmem

theorem outoff_field (h : channel.outoff = cvorgOutOffset0V ∨ channel.outoff = cvorgOutOffset2_5V) :
    (applyChannelOutoff channel).hw.regs cvorgConfig &&& cvorgConfigOutOffset = channel.outoff <<< 5 := by
  unfold applyChannelOutoff cvorgAchan cvorgOchan cvorgRchan
  obtain hlow | hhigh := h
  · rw [if_pos hlow, wchan_config, setReg_regs, if_pos rfl, hlow, BitVec.and_assoc]
    exact BitVec.and_zero
  · rw [if_neg (by rw [hhigh]; decide), wchan_config, setReg_regs, if_pos rfl, hhigh, BitVec.and_or_distrib_right]
    have hand : ∀ x : U32, x &&& cvorgConfigOutOffset ||| cvorgConfigOutOffset = cvorgConfigOutOffset := by
      intro x
      refine BitVec.eq_of_getLsbD_eq fun i hi => ?_
      simp only [BitVec.getLsbD_or, BitVec.getLsbD_and]
      cases x.getLsbD i <;> cases cvorgConfigOutOffset.getLsbD i <;> rfl
    exact hand _

/-- The offset's bit keeps the gain's field. -/
theorem outoff_keeps : (applyChannelOutoff channel).hw.regs cvorgConfig &&& cvorgConfigOutGainMask =
    channel.hw.regs cvorgConfig &&& cvorgConfigOutGainMask := by
  unfold applyChannelOutoff cvorgAchan cvorgOchan cvorgRchan
  split
  · rw [wchan_config, setReg_regs, if_pos rfl]
    exact and_keeps (by decide)
  · rw [wchan_config, setReg_regs, if_pos rfl]
    exact or_keeps (by decide)

theorem outgain_field (hgain : channel.outgain ∈ cvorgGains) :
    (applyChannelOutgain channel).hw.regs cvorgConfig &&& cvorgConfigOutGainMask =
      cvorgGainToHw channel.outgain <<< cvorgConfigOutGainShift := by
  have hfits : ∀ gain ∈ cvorgGains, (cvorgGainToHw gain <<< cvorgConfigOutGainShift) &&& cvorgConfigOutGainMask =
      cvorgGainToHw gain <<< cvorgConfigOutGainShift := by decide
  unfold applyChannelOutgain
  simp only [uchan_config]
  rw [setReg_regs, if_pos rfl, masked_update, hfits _ hgain]

theorem outgain_keeps (hgain : channel.outgain ∈ cvorgGains) :
    (applyChannelOutgain channel).hw.regs cvorgConfig &&& cvorgConfigOutOffset =
      channel.hw.regs cvorgConfig &&& cvorgConfigOutOffset := by
  have hapart : ∀ gain ∈ cvorgGains, (cvorgGainToHw gain <<< cvorgConfigOutGainShift) &&& cvorgConfigOutOffset = 0 := by
    decide
  unfold applyChannelOutgain
  simp only [uchan_config]
  rw [setReg_regs, if_pos rfl]
  exact masked_update_keeps (by decide) (hapart _ hgain)

theorem applyChannelOutoff_next (i : ℕ) :
    nextBlk (applyChannelOutoff channel).hw.regs i = nextBlk channel.hw.regs i := by
  unfold applyChannelOutoff cvorgAchan cvorgOchan nextBlk
  split <;> rw [wchan_config, setReg_regs, if_neg (config_ne_block i _).symm]

theorem applyChannelOutgain_next (i : ℕ) :
    nextBlk (applyChannelOutgain channel).hw.regs i = nextBlk channel.hw.regs i := by
  unfold applyChannelOutgain nextBlk
  simp only [uchan_config]
  rw [setReg_regs, if_neg (config_ne_block i _).symm]

theorem applyChannelOutoff_fields (channel : CvorgContext) : (applyChannelOutoff channel).outoff = channel.outoff ∧
    (applyChannelOutoff channel).outgain = channel.outgain ∧ (applyChannelOutoff channel).loaded = channel.loaded := by
  unfold applyChannelOutoff
  split <;> exact ⟨rfl, rfl, rfl⟩

theorem applyChannelInpol_same (h : GainOffset channel) : GainOffset (applyChannelInpol channel) := by
  unfold applyChannelInpol
  split
  · exact h.of_same rfl rfl rfl (sameGain_ochan (by decide))
  · exact h.of_same rfl rfl rfl (sameGain_achan (by decide))

theorem applyChannelOutEnable_same (h : GainOffset channel) : GainOffset (applyChannelOutEnable channel) := by
  unfold applyChannelOutEnable
  split
  · exact h.of_same rfl rfl rfl (sameGain_ochan (by decide))
  · exact h.of_same rfl rfl rfl (sameGain_achan (by decide))

theorem clearErrors_same (h : GainOffset channel) : GainOffset (clearErrors channel) :=
  h.of_same rfl rfl rfl (sameGain_ctl _)

theorem quiesceChannel_same (h : GainOffset channel) : GainOffset (quiesceChannel channel) :=
  h.of_same rfl rfl rfl ((sameGain_achan (by decide)).trans (sameGain_ctl _))

/-! ### Operations -/

/-- An offset of 2.5 V that the channel's gain permits is set only if the loaded sequence agrees. -/
def OffsetAgrees (channel : CvorgContext) (offset : U32) : Prop :=
  offset = cvorgOutOffset2_5V → channel.outgain = 14 → Blocks14 channel

theorem gsOutoff_keeps {offset : U32} (h : GainOffset channel) (hagrees : OffsetAgrees channel offset) :
    GainOffset (gsOutoff channel offset).1 := by
  unfold gsOutoff
  by_cases hinvalid : cvorgInvalidGainOffset channel.outgain offset
  · rw [if_pos hinvalid]
    exact h
  · rw [if_neg hinvalid]
    unfold cvorgInvalidGainOffset at hinvalid
    rw [Bool.and_eq_true, decide_eq_true_iff, decide_eq_true_iff, not_and, not_not] at hinvalid
    let set := { channel with outoff := if offset = cvorgOutOffset2_5V then cvorgOutOffset2_5V else cvorgOutOffset0V }
    have hvalues : set.outoff = cvorgOutOffset0V ∨ set.outoff = cvorgOutOffset2_5V := by
      show (if _ then _ else _ : U32) = _ ∨ (if _ then _ else _ : U32) = _
      split
      · exact .inr rfl
      · exact .inl rfl
    have hasked : set.outoff = cvorgOutOffset2_5V → offset = cvorgOutOffset2_5V := by
      intro hhigh
      by_contra hne
      have hlow : set.outoff = cvorgOutOffset0V := if_neg hne
      rw [hlow] at hhigh
      exact absurd hhigh (by decide)
    obtain ⟨hoff, hgain, hloaded⟩ := applyChannelOutoff_fields set
    show GainOffset (applyChannelOutoff set)
    refine ⟨⟨?_, ?_, ?_, ?_⟩, fun hhigh => ?_, fun hhigh => ?_⟩
    · rw [hoff]
      exact hvalues
    · rw [hgain]
      exact h.encodes.outgain
    · rw [outoff_field hvalues, hoff]
    · rw [outoff_keeps, hgain]
      exact h.encodes.gainField
    · rw [hgain]
      exact hinvalid (hasked (hoff ▸ hhigh))
    · have hoffset := hasked (hoff ▸ hhigh)
      exact (hagrees hoffset (hinvalid hoffset)).of_same hloaded
        fun i => congrArg (· &&& ownGainMask) (applyChannelOutoff_next i)

theorem gsOutgain_keeps {busy : Bool} {outgain : ℤ} (h : GainOffset channel) :
    GainOffset (gsOutgain channel busy outgain).1 := by
  unfold gsOutgain
  by_cases hbusy : busy
  · rw [if_pos hbusy]
    exact h
  by_cases hinvalid : cvorgInvalidGainOffset (cvorgGainApprox outgain) channel.outoff
  · rw [if_neg hbusy, if_pos hinvalid]
    exact h
  · rw [if_neg hbusy, if_neg hinvalid]
    unfold cvorgInvalidGainOffset at hinvalid
    rw [Bool.and_eq_true, decide_eq_true_iff, decide_eq_true_iff, not_and, not_not] at hinvalid
    have hmem := gainApprox_mem outgain
    refine ⟨⟨h.encodes.outoff, hmem, ?_, outgain_field hmem⟩, hinvalid, fun hhigh => ?_⟩
    · rw [outgain_keeps hmem]
      exact h.encodes.offsetField
    · exact (h.blocks hhigh).of_same rfl fun i => congrArg (· &&& ownGainMask) (applyChannelOutgain_next i)

/-- At 2.5 V the check of a sequence lets no other gain than 14 dB through. -/
theorem asks14_of_valid {sampfreq : U32} {seq : UserSeq} (h : ¬cvorgInvalidSeq cvorgOutOffset2_5V sampfreq seq) :
    ∀ wv ∈ seq.waves, Asks14 wv := by
  intro wv hmem
  unfold cvorgInvalidSeq at h
  rw [Bool.or_eq_true, not_or, List.any_eq_true] at h
  have hwv : ¬cvorgInvalidWv cvorgOutOffset2_5V sampfreq seq wv := fun hinvalid => h.2 ⟨wv, hmem, hinvalid⟩
  unfold cvorgInvalidWv cvorgCheckGainOffsetWv cvorgInvalidGainOffset at hwv
  by_cases hgain : wv.dynamicGain = 0
  · exact .inl hgain
  · refine .inr (not_not.mp fun hne => hwv ?_)
    rw [decide_eq_true hgain, decide_eq_true hne]
    rfl

theorem cvorgLoadseq_keeps {w : ℕ} {e : CvorgEndian} {io : LoadIo} {seq : UserSeq} (h : GainOffset channel) :
    GainOffset (cvorgLoadseq w e io channel seq).1 := by
  have hclear := clearErrors_same h
  unfold cvorgLoadseq
  by_cases hready : !io.ready
  · rw [if_pos hready]
    exact hclear
  by_cases hinvalid : cvorgInvalidSeq (clearErrors channel).outoff io.sampfreq seq
  · rw [if_neg hready, if_pos hinvalid]
    exact hclear
  rw [if_neg hready, if_neg hinvalid]
  have hquiet := quiesceChannel_same hclear
  cases hinit : io.seqInit with
  | some errno => exact hclear
  | none =>
    dsimp only
    cases hstore : storeUserSeq w e io.sramBusy (quiesceChannel (clearErrors channel)).hw seq with
    | error errno => exact hquiet
    | ok hw =>
      obtain ⟨hconfig, hblocks⟩ := storeUserSeq_regs hstore
      have hoff : (clearErrors channel).outoff = channel.outoff := rfl
      -- the play leaves the fields and the blocks alone
      let playing := playWv { quiesceChannel (clearErrors channel) with hw := hw } seq.waves.length
      have hplay : SameGain hw.regs playing.hw.regs := by
        refine SameGain.trans ?_ (sameGain_ctl _)
        rw [uchan_config]
        refine ⟨?_, fun i => ?_⟩
        · rw [setReg_regs, if_pos rfl]
          exact masked_update_keeps (by decide) (by decide)
        · unfold nextBlk
          rw [setReg_regs, if_neg (config_ne_block i _).symm]
      have hfields : playing.hw.regs cvorgConfig &&& gainOffsetMask =
          (quiesceChannel (clearErrors channel)).hw.regs cvorgConfig &&& gainOffsetMask := hplay.config.trans hconfig
      have hoffField := and_eq_of_and_eq (k := cvorgConfigOutOffset) (by decide) hfields
      have hgainField := and_eq_of_and_eq (k := cvorgConfigOutGainMask) (by decide) hfields
      refine ⟨⟨hquiet.encodes.outoff, hquiet.encodes.outgain, ?_, ?_⟩, hquiet.gain, fun hhigh => ?_⟩
      · exact hoffField.trans hquiet.encodes.offsetField
      · exact hgainField.trans hquiet.encodes.gainField
      · have hhigh' : (clearErrors channel).outoff = cvorgOutOffset2_5V := hhigh
        rw [hhigh'] at hinvalid
        intro i hi
        exact carries14_congr (hplay.next i) (hblocks (asks14_of_valid hinvalid) i hi)

theorem resetChannel_holds (hw : CvorgChannel) : GainOffset (resetChannel hw) := by
  unfold resetChannel applyChannelCfg
  apply applyChannelOutEnable_same
  let start : CvorgContext := ⟨.positivePulse, cvorgOutOffset0V, 20, false, cvorgWchan hw cvorgCtl cvorgCtlChanReset, 0⟩
  have hinpol : (applyChannelInpol start).outoff = cvorgOutOffset0V := rfl
  obtain ⟨hoff, hgain, -⟩ := applyChannelOutoff_fields (applyChannelInpol start)
  have hmem : (applyChannelOutoff (applyChannelInpol start)).outgain ∈ cvorgGains := by
    rw [hgain]
    show (20 : ℤ) ∈ cvorgGains
    decide
  have hlow : (applyChannelOutgain (applyChannelOutoff (applyChannelInpol start))).outoff ≠ cvorgOutOffset2_5V := by
    show (applyChannelOutoff (applyChannelInpol start)).outoff ≠ _
    rw [hoff]
    show cvorgOutOffset0V ≠ cvorgOutOffset2_5V
    decide
  refine ⟨⟨?_, hmem, ?_, outgain_field hmem⟩, fun hhigh => absurd hhigh hlow, fun hhigh => absurd hhigh hlow⟩
  · exact .inl (hoff.trans hinpol)
  · rw [outgain_keeps hmem, outoff_field (.inl hinpol)]
    exact congrArg (fun x : U32 => x <<< (5 : ℕ)) hoff.symm

end Channel

/-! ## Runs -/

section Runs
variable {w : ℕ} {e : CvorgEndian} {s s' : CvorgChannels}

/-- The offset that a command sets agrees with the loaded sequence. -/
def CommandAgrees (s : CvorgChannels) (op : ℕ × CvorgCommand) : Prop :=
  ∀ offset, op.2 = .setOutoff offset → OffsetAgrees (s.channels (s.channelNr op.1)) offset

theorem channelCommand_keeps {channel : CvorgContext} {command : CvorgCommand} (h : GainOffset channel)
    (hagrees : ∀ offset, command = .setOutoff offset → OffsetAgrees channel offset) :
    GainOffset (channelCommand w e channel command) := by
  cases command with
  | setChannel nr => exact h
  | setOutoff offset => exact gsOutoff_keeps h (hagrees offset rfl)
  | setInpol busy polarity =>
    show GainOffset (gsInpol channel busy polarity).1
    unfold gsInpol
    split
    · exact h
    · exact applyChannelInpol_same (h.of_same rfl rfl rfl (.refl _))
  | setOutgain busy gain => exact gsOutgain_keeps h
  | outEnable enable => exact applyChannelOutEnable_same (h.of_same rfl rfl rfl (.refl _))
  | loadseq io seq => exact cvorgLoadseq_keeps h
  | reset fpga => exact h

theorem cvorgCommand_keeps {op : ℕ × CvorgCommand} (h : ∀ n, GainOffset (s.channels n)) (hagrees : CommandAgrees s op)
    (hnext : cvorgCommand w e s op = some s') (n : Fin 2) : GainOffset (s'.channels n) := by
  obtain ⟨client, command⟩ := op
  have hselected : GainOffset (Function.update s.channels (s.channelNr client)
      (channelCommand w e (s.channels (s.channelNr client)) command) n) := by
    by_cases hn : n = s.channelNr client
    · subst hn
      rw [Function.update_self]
      exact channelCommand_keeps (h _) hagrees
    · rw [Function.update_of_ne hn]
      exact h n
  cases command with
  | setChannel nr =>
    obtain rfl := Option.some.inj hnext
    show GainOffset ((gsChannel s client nr).1.channels n)
    unfold gsChannel
    rw [apply_ite Prod.fst, apply_ite Prod.fst, apply_ite CvorgChannels.channels,
      apply_ite CvorgChannels.channels, ite_self, ite_self]
    exact h n
  | reset fpga =>
    obtain rfl := Option.some.inj hnext
    exact resetChannel_holds (fpga n)
  | setOutoff offset =>
    obtain rfl := Option.some.inj hnext
    exact hselected
  | setInpol busy polarity =>
    obtain rfl := Option.some.inj hnext
    exact hselected
  | setOutgain busy gain =>
    obtain rfl := Option.some.inj hnext
    exact hselected
  | outEnable enable =>
    obtain rfl := Option.some.inj hnext
    exact hselected
  | loadseq io seq =>
    obtain rfl := Option.some.inj hnext
    exact hselected

/-- As long as no 2.5 V are set against the gain of a block, both channels keep to the rule. -/
theorem gainOffset_reach (w : ℕ) (e : CvorgEndian) (fpga : Fin 2 → CvorgChannel) (s : CvorgChannels)
    (h : Reach (cvorgCommand w e) CommandAgrees (cvorgInstalled fpga) s) (n : Fin 2) : GainOffset (s.channels n) := by
  revert n
  apply Reach.invariant (I := fun s => ∀ n, GainOffset (s.channels n)) _ _ h
  · exact fun n => resetChannel_holds (fpga n)
  · exact fun s op s' hs hagrees hnext => cvorgCommand_keeps hs hagrees hnext

end Runs

/-! ## A gain of a block that the offset forgets -/

/-- One waveform of two points with a gain of 20 dB of its own. -/
def loudSeq : UserSeq := ⟨1, [⟨1, 4, 1, 20, fun _ => 0⟩]⟩

def readyIo : LoadIo := ⟨true, 1000000, none, false, true⟩

def loudRun : List (ℕ × CvorgCommand) := [(0, .loadseq readyIo loudSeq), (0, .setOutgain false 14)]

/-- The channels behind a list of commands. -/
def cvorgRun (commands : List (ℕ × CvorgCommand)) : Option CvorgChannels :=
  commands.foldlM (cvorgCommand 32 littleEndian) (cvorgInstalled fun _ => emptyChannel)

theorem gainOffset_loud : ∃ s, Reach (cvorgCommand 32 littleEndian) CommandAgrees
    (cvorgInstalled fun _ => emptyChannel) s ∧ (s.channels 0).loaded = 1 ∧ GainOffset (s.channels 0) := by
  have hagrees : ∀ op ∈ loudRun, ∀ s, CommandAgrees s op := by
    intro op hop s offset hset
    simp only [loudRun, List.mem_cons, List.not_mem_nil, or_false] at hop
    rcases hop with rfl | rfl <;> cases hset
  obtain ⟨s, hrun⟩ : ∃ s, cvorgRun loudRun = some s := ⟨_, rfl⟩
  have hreach : Reach (cvorgCommand 32 littleEndian) CommandAgrees (cvorgInstalled fun _ => emptyChannel) s :=
    Reach.of_foldlM .refl hagrees hrun
  refine ⟨s, hreach, ?_, gainOffset_reach _ _ _ s hreach 0⟩
  cases hrun
  rfl

/-- The sequence is loaded at 0 V, the gain set to 14 dB and then the offset to 2.5 V. -/
theorem not_gainOffset_loud : ∃ s, Reach (cvorgCommand 32 littleEndian) (fun _ _ => True)
    (cvorgInstalled fun _ => emptyChannel) s ∧ (s.channels 0).outoff = cvorgOutOffset2_5V ∧
    ¬Blocks14 (s.channels 0) := by
  obtain ⟨s, hrun⟩ : ∃ s, cvorgRun (loudRun ++ [(0, .setOutoff cvorgOutOffset2_5V)]) = some s := ⟨_, rfl⟩
  refine ⟨s, Reach.of_foldlM .refl (fun _ _ _ => trivial) hrun, ?_, ?_⟩
  · cases hrun
    rfl
  · cases hrun
    intro hblocks
    exact absurd (hblocks 0 (by decide)) (by decide)

end HtDrivers.Cvorg
