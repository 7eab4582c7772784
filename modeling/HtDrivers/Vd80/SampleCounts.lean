import HtDrivers.Vd80.ReadWindow
import HtDrivers.Vd80.TriggerLevels

/-! The sample counts of the VD80: post samples (`SET_POSTSAMPLES`, `vd80SetBufferSize`), and the least number of
samples before the trigger with its delay (`SET_TRIGGER_CONFIG`, `vd80SetTriggerConfig`). The registers count blocks of
32 samples. -/
namespace HtDrivers.Vd80
open HtDrivers.Lib.MaskLoop HtDrivers.Lib.Masks
set_option autoImplicit false

/-! ## The ioctls -/

def vd80Pscntclronstart : BitVec 32 := 1 <<< 0
def vd80Psregclronread : BitVec 32 := 1 <<< 1
def vd80Pscntclkonsmpl : BitVec 32 := 1 <<< 2
def vd80PresamplesminMask : BitVec 32 := 0x1fffffff <<< 3
def vd80PostsamplesMask : BitVec 32 := 0x7ffff
def vd80TrigoutDelay : BitVec 32 := 1 <<< 11

/-- The mode of the pre-trigger counter, which both setters choose. -/
def countMode (tval : BitVec 32) : BitVec 32 :=
  (tval ||| vd80Pscntclronstart) &&& ~~~(vd80Pscntclkonsmpl ||| vd80Psregclronread)

def setPostsamples : Command (BitVec 32) := fun mcon lval =>
  let mcon := setReg vd80PTCR (countMode (getReg vd80PTCR mcon)) mcon
  (.ok, setReg vd80TCR2 (if lval = 0 then 0 else BitVec.ofInt 32 ((lval.toInt - 1).tdiv 32)) mcon, lval)

def getPostsamples : Command (BitVec 32) := fun mcon _ => (.ok, mcon, (getReg vd80TCR2 mcon + 1) * 32)

structure Vd80DrvrTrigConfig where
  trigDelay : BitVec 32
  minPreTrig : BitVec 32
deriving DecidableEq

def getTriggerConfig : Command Vd80DrvrTrigConfig := fun mcon _ =>
  (.ok, mcon,
    { trigDelay := if getReg vd80TCR1 mcon &&& vd80TrigoutDelay ≠ 0 then getReg vd80TCR3 mcon else 0
      minPreTrig := ((getReg vd80PTCR mcon &&& vd80PresamplesminMask) >>> 3) * 32 })

def setDelay (trigDelay : BitVec 32) (mcon : SkelDrvrModuleContext) : SkelDrvrModuleContext :=
  let tval := getReg vd80TCR1 mcon
  if trigDelay ≠ 0 then setReg vd80TCR3 trigDelay (setReg vd80TCR1 (tval ||| vd80TrigoutDelay) mcon)
  else setReg vd80TCR3 0 (setReg vd80TCR1 (tval &&& ~~~vd80TrigoutDelay) mcon)

def setTriggerConfig : Command Vd80DrvrTrigConfig := fun mcon tcon =>
  let mcon := setDelay tcon.trigDelay mcon
  let tval := getReg vd80PTCR mcon &&& ~~~vd80PresamplesminMask
  let tval :=
    if tcon.minPreTrig ≠ 0 then
      tval ||| (BitVec.ofInt 32 (tcon.minPreTrig.toInt.tdiv 32) <<< 3 &&& vd80PresamplesminMask)
    else tval
  (.ok, setReg vd80PTCR (countMode tval) mcon, tcon)

/-! ## The library -/

/-- The channels and the size of the buffer are not looked at. -/
def vd80SetBufferSize (d : Driver) (mods post : BitVec 32) : Vd80Err × Driver :=
  forModules mods (fun d => orIo (ioctl setPostsamples d post)) d

/-- `mem` is the memory of the process, by words; the parameter `post` of the source is the word at `frame`, which holds
the address of the caller's variable, and it is the address of this word that the ioctl is given. -/
def vd80GetBufferSize (d : Driver) (mod : ℤ) (frame : ℕ) (mem : ℕ → BitVec 32) : Vd80Err × Driver × (ℕ → BitVec 32) :=
  let set := setModule d mod
  if set.1 = .success then
    let reply := ioctl getPostsamples set.2 (mem frame)
    (if reply.1 then .success else .io, reply.2.1, Function.update mem frame reply.2.2)
  else (set.1, set.2, mem)

/-- The loop over the channels ends after its first request. -/
def setModuleConfig (chns : BitVec 32) (ctrg : Vd80DrvrTrigConfig) (d : Driver) : Vd80Err × Driver :=
  if (List.range vd80CHANNELS).any chns.getLsbD then orIo (ioctl setTriggerConfig d ctrg) else (.success, d)

def vd80SetTriggerConfig (d : Driver) (mods chns : BitVec 32) (ctrg : Vd80DrvrTrigConfig) : Vd80Err × Driver :=
  forModules (orFirst mods) (setModuleConfig (orFirst chns) ctrg) d

/-- `ctrg` is the structure of the caller as it was. -/
def vd80GetTriggerConfig (d : Driver) (mod : ℤ) (ctrg : Vd80DrvrTrigConfig) : Vd80Err × Driver × Vd80DrvrTrigConfig :=
  let set := setModule d (if mod = 0 then 1 else mod)
  if set.1 = .success then
    let reply := ioctl getTriggerConfig set.2 { trigDelay := 0, minPreTrig := 0 }
    if reply.1 then (.success, reply.2.1, reply.2.2) else (.io, reply.2.1, ctrg)
  else (set.1, set.2, ctrg)

/-! ## Post samples -/

/-- The post samples that a module is programmed for. -/
def postSamples (emulation : Bool) (mcon : SkelDrvrModuleContext) : ℕ :=
  ((seen emulation mcon vd80TCR2 &&& vd80PostsamplesMask).toNat + 1) * 32

def roundUp (n : ℕ) : ℕ := ((n - 1) / 32 + 1) * 32

theorem roundUp_isLeast {n : ℕ} (hn : 1 ≤ n) : IsLeast {k | 32 ∣ k ∧ n ≤ k} (roundUp n) := by
  unfold roundUp
  refine ⟨⟨Dvd.intro_left _ rfl, by omega⟩, ?_⟩
  rintro k ⟨⟨q, rfl⟩, hle⟩
  omega

section Post
variable {mcon : SkelDrvrModuleContext} {emulation : Bool} {post : BitVec 32}

/-- The word that `SET_POSTSAMPLES` puts into `TCR2`. -/
theorem postBlocks_toNat (hpos : 1 ≤ post.toNat) (hle : post.toNat ≤ 2 ^ 24) :
    (if post = 0 then 0 else BitVec.ofInt 32 ((post.toInt - 1).tdiv 32)).toNat = (post.toNat - 1) / 32 := by
  have hne : post ≠ 0 := by
    rintro rfl
    simp at hpos
  have hint : post.toInt = post.toNat := BitVec.toInt_eq_toNat_of_lt (by omega)
  have hdiv : ((post.toNat : ℤ) - 1).tdiv 32 = ((post.toNat : ℤ) - 1) / 32 := Int.tdiv_eq_ediv_of_nonneg (by omega)
  rw [if_neg hne, hint, hdiv, BitVec.toNat_ofInt]
  omega

/-- What `SET_POSTSAMPLES` leaves behind. -/
structure PostSet (emulation : Bool) (post : BitVec 32) (mcon : SkelDrvrModuleContext) : Prop where
  ready : Ready emulation mcon
  blocks : (seen emulation mcon vd80TCR2).toNat = (post.toNat - 1) / 32

theorem setPostsamples_set (hpos : 1 ≤ post.toNat) (hle : post.toNat ≤ 2 ^ 24) (hready : Ready emulation mcon)
    (hsame : mcon.emulation = emulation) : PostSet emulation post (setPostsamples mcon post).2.1 := by
  refine ⟨⟨hready.hardware, hready.space⟩, ?_⟩
  have hmode : (setPostsamples mcon post).2.1.emulation = emulation := hsame
  rw [seen_of_eq hmode, setPostsamples, getReg_setReg_self, postBlocks_toNat hpos hle]

theorem PostSet.postSamples_eq (h : PostSet emulation post mcon) (hle : post.toNat ≤ 2 ^ 24) :
    postSamples emulation mcon = roundUp post.toNat := by
  have hmask : vd80PostsamplesMask.toNat = 2 ^ 19 - 1 := rfl
  rw [postSamples, roundUp, BitVec.toNat_and, hmask, Nat.and_two_pow_sub_one_eq_mod, h.blocks,
    Nat.mod_eq_of_lt (by omega)]

theorem PostSet.tcr2_eq_zero_iff (h : PostSet emulation post mcon) (hpos : 1 ≤ post.toNat) :
    seen emulation mcon vd80TCR2 = 0 ↔ post.toNat ≤ 32 := by
  have hzero : (0 : BitVec 32).toNat = 0 := rfl
  rw [← BitVec.toNat_inj, h.blocks, hzero]
  omega

end Post

section BufferSize
variable {d d' : Driver} {mods post : BitVec 32} {mcon : SkelDrvrModuleContext} {i frame caller : ℕ}
  {mem : ℕ → BitVec 32}

/-- `READ_SAMPLE` is never told that there are no post samples while `TCR2` is as in `mcon`. -/
def NeverRejected (little emulation : Bool) (mcon : SkelDrvrModuleContext) : Prop :=
  ∀ later dev sbuf reply, Ready emulation later → seen emulation later vd80TCR2 = seen emulation mcon vd80TCR2 →
    readSample dev (enter little emulation later).2 sbuf = some reply → reply.outcome ≠ .noPostsamples

theorem neverRejected_iff {little emulation : Bool} (hready : Ready emulation mcon) :
    NeverRejected little emulation mcon ↔ seen emulation mcon vd80TCR2 ≠ 0 ∨ emulation = true := by
  have htcr2 : ∀ later, Ready emulation later →
      getReg vd80TCR2 (enter little emulation later).2 = seen emulation later vd80TCR2 :=
    fun later hlater => hlater.enter_getReg_ne (by decide)
  constructor
  · intro hnever
    by_contra hnot
    rw [not_or, not_not, Bool.not_eq_true] at hnot
    obtain ⟨hzero, rfl⟩ := hnot
    have hset := (htcr2 mcon hready).trans hzero
    exact hnever mcon ⟨fun _ _ => 0, false⟩ ⟨1, 0, 0, 0, 0, []⟩ _ hready rfl
      (readSample_rejected (hready.entered little).2.1 hset) rfl
  · rintro hwhen later dev sbuf reply hlater hsame hread
    rcases hwhen with hset | rfl
    · rw [← hsame, ← htcr2 later hlater] at hset
      unfold readSample at hread
      split_ifs at hread
      · cases hread
        simp
      · simp only [Option.bind_eq_bind, Option.bind_eq_some_iff] at hread
        obtain ⟨w, -, op, -, hread⟩ := hread
        split_ifs at hread <;> cases hread <;> simp
    · rw [readSample, (hlater.entered little).2.1, if_pos rfl] at hread
      cases hread
      simp

/-- The setting of the post samples as a caller sees it, whose variable has the address `caller`. -/
def SizeHonoured (d d' : Driver) (i frame caller : ℕ) (mem : ℕ → BitVec 32) (n : ℕ) : Prop :=
  (∃ d'' mem', vd80GetBufferSize d' (i + 1) frame mem = (.success, d'', mem') ∧
    IsLeast {k | 32 ∣ k ∧ n ≤ k} (mem' caller).toNat) ∧
  ∃ mcon', d'.modules (i + 1) = some mcon' ∧ IsLeast {k | 32 ∣ k ∧ n ≤ k} (postSamples d.emulation mcon') ∧
    NeverRejected d.little d.emulation mcon'

/-- The word that the ioctl writes is not the caller's. -/
theorem vd80GetBufferSize_caller (hi : (i : ℤ) + 1 ≤ d.installedModules) (hmcon : d.modules (i + 1) = some mcon)
    (hready : Ready d.emulation mcon) (hne : caller ≠ frame) :
    ∃ d' mem', vd80GetBufferSize d (i + 1) frame mem = (.success, d', mem') ∧ mem' caller = mem caller := by
  have hfound : Driver.modules { d with moduleNumber := i + 1 } (i + 1) = some mcon := hmcon
  simp only [vd80GetBufferSize, setModule_eq (by omega) hi hmcon, if_true]
  rw [ioctl_eq hfound]
  simp only [skelUserIoctls, (hready.entered d.little).1, if_true, getPostsamples, decide_true]
  exact ⟨_, _, rfl, Function.update_of_ne hne _ _⟩

theorem sizeHonoured_iff (hpos : 1 ≤ post.toNat) (hle : post.toNat ≤ 2 ^ 24) (hi : i < vd80MODULES)
    (hsel : mods.getLsbD i = true) (hne : caller ≠ frame) (h : vd80SetBufferSize d mods post = (.success, d')) :
    SizeHonoured d d' i frame caller mem post.toNat ↔
      (mem caller).toNat = roundUp post.toNat ∧ (32 < post.toNat ∨ d.emulation = true) := by
  obtain ⟨hhost, hin, -, mcon', -, hset, hmcon'⟩ := forModules_success
    (R := fun _ mcon' => PostSet d.emulation post mcon')
    (fun e e' mcon hhost hmcon he => by
      obtain ⟨mcon, -, hready, -, rfl⟩ := orIo_success he
      obtain ⟨-, hsame, hready⟩ := hready.entered e.little
      rw [hhost.emulation] at hready hsame
      refine ⟨(setPostsamples (enter e.little e.emulation mcon).2 post).2.1, ?_, ⟨hhost.1, hhost.2, hhost.3⟩, rfl⟩
      rw [hhost.emulation]
      exact setPostsamples_set hpos hle hready hsame) h hi hsel
  have hleast := roundUp_isLeast hpos
  have hready : Ready d'.emulation mcon' := by rw [hhost.emulation]; exact hset.ready
  obtain ⟨d'', mem', hget, hmem'⟩ : ∃ d'' mem', vd80GetBufferSize d' (i + 1) frame mem = (.success, d'', mem') ∧
      mem' caller = mem caller :=
    vd80GetBufferSize_caller (by rw [hhost.installedModules]; exact hin) hmcon' hready hne
  have hnever : NeverRejected d.little d.emulation mcon' ↔ 32 < post.toNat ∨ d.emulation = true := by
    rw [neverRejected_iff hset.ready, ne_eq, hset.tcr2_eq_zero_iff hpos, not_le]
  constructor
  · rintro ⟨⟨e, mem₁, hget₁, hvar⟩, mcon₁, hmcon₁, -, hread⟩
    rw [hget, Prod.mk.injEq, Prod.mk.injEq] at hget₁
    obtain ⟨-, -, rfl⟩ := hget₁
    rw [hmcon', Option.some.injEq] at hmcon₁
    subst hmcon₁
    rw [hmem'] at hvar
    exact ⟨hvar.unique hleast, hnever.mp hread⟩
  · rintro ⟨hvar, hwhen⟩
    refine ⟨⟨d'', mem', hget, ?_⟩, mcon', hmcon', ?_, hnever.mpr hwhen⟩
    · rw [hmem', hvar]
      exact hleast
    · rw [hset.postSamples_eq hle]
      exact hleast

end BufferSize

/-! ## Trigger configurations -/

section Words
variable {tval blocks : BitVec 32} {k : ℕ}

theorem countMode_getLsbD (hk : k < 32) :
    (countMode tval).getLsbD k = if k = 0 then true else if k = 1 ∨ k = 2 then false else tval.getLsbD k := by
  have h0 : vd80Pscntclronstart = BitVec.twoPow 32 0 := rfl
  have h1 : vd80Psregclronread = BitVec.twoPow 32 1 := rfl
  have h2 : vd80Pscntclkonsmpl = BitVec.twoPow 32 2 := rfl
  rw [countMode, h0, h1, h2, BitVec.getLsbD_and, BitVec.getLsbD_or, BitVec.getLsbD_not, BitVec.getLsbD_or,
    BitVec.getLsbD_twoPow, BitVec.getLsbD_twoPow, BitVec.getLsbD_twoPow]
  by_cases hk0 : k = 0
  · subst hk0
    simp
  · by_cases hk1 : k = 1
    · subst hk1
      simp
    · by_cases hk2 : k = 2
      · subst hk2
        simp
      · simp [hk, hk0, hk1, hk2, Ne.symm hk0, Ne.symm hk1, Ne.symm hk2]

theorem presamplesMask_getLsbD (hk : k < 32) : vd80PresamplesminMask.getLsbD k = decide (3 ≤ k) := by
  interval_cases k <;> rfl

/-- The field of the least number of blocks before the trigger, in a word that has just been given it. -/
theorem presamples_field (hblocks : blocks.toNat < 2 ^ 29) :
    (countMode (tval &&& ~~~vd80PresamplesminMask ||| (blocks <<< 3 &&& vd80PresamplesminMask)) &&&
      vd80PresamplesminMask) >>> 3 = blocks := by
  apply BitVec.eq_of_getLsbD_eq
  intro k hk
  rw [BitVec.getLsbD_ushiftRight, BitVec.getLsbD_and]
  by_cases hin : 3 + k < 32
  · rw [countMode_getLsbD hin, if_neg (by omega), if_neg (by omega), BitVec.getLsbD_or, BitVec.getLsbD_and,
      BitVec.getLsbD_and, BitVec.getLsbD_not, presamplesMask_getLsbD hin, BitVec.getLsbD_shiftLeft]
    simp [hin]
  · rw [BitVec.getLsbD_of_ge _ _ (by omega), Bool.false_and, BitVec.getLsbD, Nat.testBit_lt_two_pow]
    exact hblocks.trans_le (Nat.pow_le_pow_right (by decide) (by omega))

end Words

/-- The samples before the trigger that a module is programmed for at least. -/
def preSamples (emulation : Bool) (mcon : SkelDrvrModuleContext) : ℕ :=
  ((seen emulation mcon vd80PTCR &&& vd80PresamplesminMask) >>> 3).toNat * 32

/-- All that a trigger configuration does not set, in the registers before and after. -/
structure OthersKept (before after : ℕ → BitVec 32) : Prop where
  registers : ∀ offset, offset / 4 ≠ vd80TCR1 / 4 → offset / 4 ≠ vd80TCR3 / 4 → offset / 4 ≠ vd80PTCR / 4 →
    after offset = before offset
  trigger : ∀ k, k ≠ 11 → (after vd80TCR1).getLsbD k = (before vd80TCR1).getLsbD k
  mode : ∀ k, k < 3 → (after vd80PTCR).getLsbD k = (before vd80PTCR).getLsbD k

section Config
variable {mcon : SkelDrvrModuleContext} {emulation : Bool} {tcon : Vd80DrvrTrigConfig} {offset : ℕ}

@[simp] theorem setDelay_emulation {delay : BitVec 32} : (setDelay delay mcon).emulation = mcon.emulation := by
  unfold setDelay
  split_ifs <;> rfl

@[simp] theorem setDelay_noHardware {delay : BitVec 32} : (setDelay delay mcon).noHardware = mcon.noHardware := by
  unfold setDelay
  split_ifs <;> rfl

@[simp] theorem setDelay_mapped {delay : BitVec 32} : (setDelay delay mcon).mapped = mcon.mapped := by
  unfold setDelay
  split_ifs <;> rfl

/-- The word of `TCR1` for a delay. -/
def delayWord (delay tval : BitVec 32) : BitVec 32 :=
  if delay ≠ 0 then tval ||| vd80TrigoutDelay else tval &&& ~~~vd80TrigoutDelay

theorem getReg_setDelay {delay : BitVec 32} :
    getReg offset (setDelay delay mcon) =
      if offset / 4 = vd80TCR3 / 4 then delay
      else if offset / 4 = vd80TCR1 / 4 then delayWord delay (getReg vd80TCR1 mcon) else getReg offset mcon := by
  unfold setDelay delayWord
  by_cases hdelay : delay = 0
  · simp only [hdelay, ne_eq, not_true_eq_false, if_false, getReg_setReg]
  · simp only [hdelay, ne_eq, not_false_eq_true, if_true, getReg_setReg]

theorem delayWord_bit {delay tval : BitVec 32} : delayWord delay tval &&& vd80TrigoutDelay ≠ 0 ↔ delay ≠ 0 := by
  have hbit : vd80TrigoutDelay = BitVec.twoPow 32 11 := rfl
  rw [BitVec.and_comm, hbit, twoPow_and_ne_zero (by decide), delayWord, hbit]
  split_ifs with hdelay
  · rw [or_twoPow_bit (by decide)]
    exact iff_of_true (.inr rfl) hdelay
  · rw [and_not_twoPow_bit]
    exact iff_of_false (fun hbit => hbit.2 rfl) hdelay

theorem delayWord_getLsbD {delay tval : BitVec 32} {k : ℕ} (hk : k ≠ 11) :
    (delayWord delay tval).getLsbD k = tval.getLsbD k := by
  have hbit : vd80TrigoutDelay = BitVec.twoPow 32 11 := rfl
  apply Bool.eq_iff_iff.mpr
  rw [delayWord, hbit]
  split_ifs
  · rw [or_twoPow_bit (by decide)]
    simp [hk]
  · rw [and_not_twoPow_bit]
    simp [hk]

/-- The blocks that the setter makes of a least count: it rounds down. -/
theorem minPreTrig_blocks (h : tcon.minPreTrig.toNat < 2 ^ 29) :
    (BitVec.ofInt 32 (tcon.minPreTrig.toInt.tdiv 32)).toNat = tcon.minPreTrig.toNat / 32 := by
  have hint : tcon.minPreTrig.toInt = tcon.minPreTrig.toNat := BitVec.toInt_eq_toNat_of_lt (by omega)
  have hdiv : (tcon.minPreTrig.toNat : ℤ).tdiv 32 = (tcon.minPreTrig.toNat : ℤ) / 32 :=
    Int.tdiv_eq_ediv_of_nonneg (by omega)
  rw [hint, hdiv, BitVec.toNat_ofInt]
  omega

/-- The word of `PTCR` for a least count. -/
def pretrigWord (tcon : Vd80DrvrTrigConfig) (tval : BitVec 32) : BitVec 32 :=
  countMode (tval &&& ~~~vd80PresamplesminMask |||
    (BitVec.ofInt 32 (tcon.minPreTrig.toInt.tdiv 32) <<< 3 &&& vd80PresamplesminMask))

theorem setTriggerConfig_eq :
    setTriggerConfig mcon tcon =
      (.ok, setReg vd80PTCR (pretrigWord tcon (getReg vd80PTCR mcon)) (setDelay tcon.trigDelay mcon), tcon) := by
  have hptcr : getReg vd80PTCR (setDelay tcon.trigDelay mcon) = getReg vd80PTCR mcon := by
    rw [getReg_setDelay, if_neg (by decide), if_neg (by decide)]
  simp only [setTriggerConfig, pretrigWord, hptcr]
  by_cases hzero : tcon.minPreTrig = 0
  · have hnone : BitVec.ofInt 32 ((0 : BitVec 32).toInt.tdiv 32) <<< 3 &&& vd80PresamplesminMask = 0 := by decide
    simp only [hzero, ne_eq, not_true_eq_false, if_false, hnone]
    rw [show ∀ x : BitVec 32, x ||| 0 = x from fun x => BitVec.or_zero]
  · rw [if_pos hzero]

/-- The registers after a trigger configuration, from those before it. -/
structure ConfigSet (little emulation : Bool) (tcon : Vd80DrvrTrigConfig) (mcon mcon' : SkelDrvrModuleContext) :
    Prop where
  ready : Ready emulation mcon'
  registers : ∀ offset, seen emulation mcon' offset =
    if offset / 4 = vd80PTCR / 4 then pretrigWord tcon (seen emulation mcon vd80PTCR)
    else if offset / 4 = vd80TCR3 / 4 then tcon.trigDelay
    else if offset / 4 = vd80TCR1 / 4 then delayWord tcon.trigDelay (seen emulation mcon vd80TCR1)
    else if offset / 4 = vd80GCR2 / 4 then setEndian little (seen emulation mcon vd80GCR2)
    else seen emulation mcon offset

theorem setTriggerConfig_set {little : Bool} (hready : Ready emulation mcon) :
    ConfigSet little emulation tcon mcon (setTriggerConfig (enter little emulation mcon).2 tcon).2.1 := by
  obtain ⟨-, hmode, hready'⟩ := hready.entered little
  rw [setTriggerConfig_eq]
  refine ⟨⟨by simpa using hready'.hardware, by simpa using hready'.space⟩, fun offset => ?_⟩
  rw [seen_of_eq (by rw [setReg_emulation, setDelay_emulation, hmode]), getReg_setReg, getReg_setDelay,
    hready.enter_getReg_ne (by decide), hready.enter_getReg_ne (by decide), hready.enter_getReg]

variable {little : Bool} {mcon' : SkelDrvrModuleContext}

theorem ConfigSet.preSamples_eq (h : ConfigSet little emulation tcon mcon mcon')
    (hmin : tcon.minPreTrig.toNat < 2 ^ 29) : preSamples emulation mcon' = tcon.minPreTrig.toNat / 32 * 32 := by
  have hblocks := minPreTrig_blocks hmin
  rw [preSamples, h.registers, if_pos rfl, pretrigWord, presamples_field (by omega), hblocks]

/-- The getter's view: the count that is programmed, and the delay that was set. -/
theorem ConfigSet.getTriggerConfig_eq (h : ConfigSet little emulation tcon mcon mcon') (old : Vd80DrvrTrigConfig) :
    (getTriggerConfig (enter little emulation mcon').2 old).2.2 =
      { trigDelay := tcon.trigDelay, minPreTrig := BitVec.ofNat 32 (preSamples emulation mcon') } := by
  have htcr1 : getReg vd80TCR1 (enter little emulation mcon').2 =
      delayWord tcon.trigDelay (seen emulation mcon vd80TCR1) := by
    rw [h.ready.enter_getReg_ne (by decide), h.registers, if_neg (by decide), if_neg (by decide), if_pos rfl]
  have htcr3 : getReg vd80TCR3 (enter little emulation mcon').2 = tcon.trigDelay := by
    rw [h.ready.enter_getReg_ne (by decide), h.registers, if_neg (by decide), if_pos rfl]
  have hptcr : getReg vd80PTCR (enter little emulation mcon').2 = seen emulation mcon' vd80PTCR :=
    h.ready.enter_getReg_ne (by decide)
  simp only [getTriggerConfig, htcr1, htcr3, hptcr, delayWord_bit]
  refine congrArg₂ Vd80DrvrTrigConfig.mk ?_ ?_
  · by_cases hdelay : tcon.trigDelay = 0
    · rw [if_neg (not_not.mpr hdelay), hdelay]
    · rw [if_pos hdelay]
  · apply BitVec.eq_of_toNat_eq
    rw [preSamples, BitVec.toNat_mul, BitVec.toNat_ofNat]
    rfl

/-- A second ioctl finds the bus as the first has left it. -/
theorem ConfigSet.enter_seen (h : ConfigSet little emulation tcon mcon mcon') (offset : ℕ) :
    seen emulation (enter little emulation mcon').2 offset = seen emulation mcon' offset := by
  have hidem : ∀ v, setEndian little (setEndian little v) = setEndian little v := by
    intro v
    unfold setEndian
    split_ifs
    · rw [BitVec.or_assoc, BitVec.or_self]
    · rw [BitVec.and_assoc, BitVec.and_self]
  rw [seen_of_eq (h.ready.entered little).2.1, h.ready.enter_getReg]
  split_ifs with hat
  · rw [h.registers offset, h.registers vd80GCR2, hat]
    exact hidem _
  · rfl

/-- What both calls are to leave alone is left alone where the counter had its mode and the bus its order. -/
theorem ConfigSet.othersKept_iff (h : ConfigSet little emulation tcon mcon mcon') :
    OthersKept (seen emulation mcon) (seen emulation mcon') ↔
      setEndian little (seen emulation mcon vd80GCR2) = seen emulation mcon vd80GCR2 ∧
        seen emulation mcon vd80PTCR &&& 7 = vd80Pscntclronstart := by
  have hptcr : ∀ k, k < 3 → (seen emulation mcon' vd80PTCR).getLsbD k = decide (k = 0) := by
    intro k hk
    rw [h.registers, if_pos rfl, pretrigWord, countMode_getLsbD (by omega)]
    interval_cases k <;> rfl
  have hmode : seen emulation mcon vd80PTCR &&& 7 = vd80Pscntclronstart ↔
      ∀ k, k < 3 → (seen emulation mcon vd80PTCR).getLsbD k = decide (k = 0) := by
    constructor
    · intro heq k hk
      have hbit := congrArg (fun v => v.getLsbD k) heq
      simp only [BitVec.getLsbD_and] at hbit
      interval_cases k <;> simpa [vd80Pscntclronstart] using hbit
    · intro hbits
      apply BitVec.eq_of_getLsbD_eq
      intro k hk
      rw [BitVec.getLsbD_and]
      by_cases hk3 : k < 3
      · rw [hbits k hk3]
        interval_cases k <;> rfl
      · have hseven : (7 : BitVec 32).getLsbD k = false := by interval_cases k <;> first | omega | rfl
        have hone : vd80Pscntclronstart.getLsbD k = false := by interval_cases k <;> first | omega | rfl
        rw [hseven, hone, Bool.and_false]
  rw [hmode]
  constructor
  · intro hkept
    refine ⟨?_, fun k hk => by rw [← hkept.mode k hk, hptcr k hk]⟩
    have hgcr := hkept.registers vd80GCR2 (by decide) (by decide) (by decide)
    rw [h.registers, if_neg (by decide), if_neg (by decide), if_neg (by decide), if_pos rfl] at hgcr
    exact hgcr
  · rintro ⟨hgcr, hbits⟩
    refine ⟨fun offset h1 h3 hp => ?_, fun k hk => ?_, fun k hk => by rw [hptcr k hk, hbits k hk]⟩
    · rw [h.registers, if_neg hp, if_neg h3, if_neg h1]
      split_ifs with hat
      · rw [hgcr]
        unfold seen getReg
        rw [hat]
      · rfl
    · rw [h.registers, if_neg (by decide), if_neg (by decide), if_pos rfl, delayWord_getLsbD hk]

end Config

section Calls
variable {d d' : Driver} {mods chns post : BitVec 32} {ctrg : Vd80DrvrTrigConfig} {mcon : SkelDrvrModuleContext}
  {i frame caller : ℕ} {mem : ℕ → BitVec 32}

/-- The trigger configuration as a caller sees it: enough samples before the trigger, the programmed count and the delay
read back, and neither call has changed anything else. -/
def ConfigHonoured (d d' : Driver) (i : ℕ) (ctrg : Vd80DrvrTrigConfig) : Prop :=
  ∃ mcon mcon', d.modules (i + 1) = some mcon ∧ d'.modules (i + 1) = some mcon' ∧
    ctrg.minPreTrig.toNat ≤ preSamples d.emulation mcon' ∧
    (∀ old, ∃ d'' mcon'', vd80GetTriggerConfig d' (i + 1) old = (.success, d'',
        { trigDelay := ctrg.trigDelay, minPreTrig := BitVec.ofNat 32 (preSamples d.emulation mcon') }) ∧
      d''.modules (i + 1) = some mcon'' ∧ ∀ offset, seen d.emulation mcon'' offset = seen d.emulation mcon' offset) ∧
    OthersKept (seen d.emulation mcon) (seen d.emulation mcon')

theorem setModuleConfig_success {e e' : Driver} (hchns : chns.toNat < 2 ^ 16) (hhost : SameHost d e)
    (hmcon : e.modules e.moduleNumber = some mcon) (h : setModuleConfig (orFirst chns) ctrg e = (.success, e')) :
    ∃ mcon', ConfigSet d.little d.emulation ctrg mcon mcon' ∧ SameHost d e' ∧
      e'.modules = Function.update e.modules e.moduleNumber (some mcon') := by
  obtain ⟨j, hj, hjsel⟩ := orFirst_bit hchns
  have hany : (List.range vd80CHANNELS).any (orFirst chns).getLsbD = true :=
    List.any_eq_true.mpr ⟨j, List.mem_range.mpr hj, hjsel⟩
  rw [setModuleConfig, if_pos hany] at h
  obtain ⟨mcon₁, hmcon₁, hready, -, rfl⟩ := orIo_success h
  rw [hmcon, Option.some.injEq] at hmcon₁
  subst hmcon₁
  refine ⟨_, ?_, ⟨hhost.1, hhost.2, hhost.3⟩, rfl⟩
  rw [hhost.emulation] at hready
  rw [hhost.emulation, hhost.little]
  exact setTriggerConfig_set hready

theorem configHonoured_iff (hchns : chns.toNat < 2 ^ 16)
    (hmin : ctrg.minPreTrig.toNat < 2 ^ 29) (hi : i < vd80MODULES) (hsel : (orFirst mods).getLsbD i = true)
    (hmcon : d.modules (i + 1) = some mcon) (h : vd80SetTriggerConfig d mods chns ctrg = (.success, d')) :
    ConfigHonoured d d' i ctrg ↔
      32 ∣ ctrg.minPreTrig.toNat ∧
        setEndian d.little (seen d.emulation mcon vd80GCR2) = seen d.emulation mcon vd80GCR2 ∧
        seen d.emulation mcon vd80PTCR &&& 7 = vd80Pscntclronstart := by
  obtain ⟨hhost, hin, mcon₁, mcon', hmcon₁, hset, hmcon'⟩ := forModules_success
    (fun e e' mcon hhost hmcon he => setModuleConfig_success hchns hhost hmcon he) h hi hsel
  rw [hmcon, Option.some.injEq] at hmcon₁
  subst hmcon₁
  have hcount : ctrg.minPreTrig.toNat ≤ preSamples d.emulation mcon' ↔ 32 ∣ ctrg.minPreTrig.toNat := by
    rw [hset.preSamples_eq hmin]
    omega
  have hget : ∀ old, ∃ d'' mcon'', vd80GetTriggerConfig d' (i + 1) old = (.success, d'',
        { trigDelay := ctrg.trigDelay, minPreTrig := BitVec.ofNat 32 (preSamples d.emulation mcon') }) ∧
      d''.modules (i + 1) = some mcon'' ∧
      ∀ offset, seen d.emulation mcon'' offset = seen d.emulation mcon' offset := by
    intro old
    have hmod : ¬(i : ℤ) + 1 = 0 := by omega
    have hle : (i : ℤ) + 1 ≤ d'.installedModules := by rw [hhost.installedModules]; exact hin
    have hfound : Driver.modules { d' with moduleNumber := i + 1 } (i + 1) = some mcon' := hmcon'
    simp only [vd80GetTriggerConfig, if_neg hmod, setModule_eq (by omega) hle hmcon', if_true]
    rw [ioctl_eq hfound]
    simp only [hhost.little, hhost.emulation, skelUserIoctls, (hset.ready.entered d.little).1, if_true,
      hset.getTriggerConfig_eq]
    exact ⟨_, (enter d.little d.emulation mcon').2, rfl, Function.update_self _ _ _, hset.enter_seen⟩
  rw [← hset.othersKept_iff, ← hcount]
  constructor
  · rintro ⟨mcon₁, mcon₂, hmcon₁, hmcon₂, henough, -, hkept⟩
    rw [hmcon, Option.some.injEq] at hmcon₁
    rw [hmcon', Option.some.injEq] at hmcon₂
    subst hmcon₁ hmcon₂
    exact ⟨henough, hkept⟩
  · rintro ⟨henough, hkept⟩
    exact ⟨mcon, mcon', hmcon, hmcon', henough, hget, hkept⟩

/-- When the sample counts are honoured: the post samples, and the trigger configuration. -/
theorem sampleCounts_iff {e e' : Driver} {mods' : BitVec 32} {j : ℕ}
    (hpos : 1 ≤ post.toNat) (hle : post.toNat ≤ 2 ^ 24) (hi : i < vd80MODULES) (hsel : mods.getLsbD i = true)
    (hne : caller ≠ frame) (hsize : vd80SetBufferSize d mods post = (.success, d'))
    (hchns : chns.toNat < 2 ^ 16) (hmin : ctrg.minPreTrig.toNat < 2 ^ 29)
    (hj : j < vd80MODULES) (hsel' : (orFirst mods').getLsbD j = true) (hmcon : e.modules (j + 1) = some mcon)
    (hconfig : vd80SetTriggerConfig e mods' chns ctrg = (.success, e')) :
    (SizeHonoured d d' i frame caller mem post.toNat ↔
      (mem caller).toNat = roundUp post.toNat ∧ (32 < post.toNat ∨ d.emulation = true)) ∧
    (ConfigHonoured e e' j ctrg ↔
      32 ∣ ctrg.minPreTrig.toNat ∧
        setEndian e.little (seen e.emulation mcon vd80GCR2) = seen e.emulation mcon vd80GCR2 ∧
        seen e.emulation mcon vd80PTCR &&& 7 = vd80Pscntclronstart) :=
  ⟨sizeHonoured_iff hpos hle hi hsel hne hsize, configHonoured_iff hchns hmin hj hsel' hmcon hconfig⟩

end Calls

/-- A module whose counter has its mode and whose bus its order already. -/
def preparedModule : SkelDrvrModuleContext :=
  { blankModule with map := fun i => if i = vd80PTCR / 4 then 1 else if i = vd80GCR2 / 4 then vd80Swap else 0 }

def preparedDriver : Driver := { twoModules with modules := fun mod => if mod = 1 then some preparedModule else none }

theorem sampleCounts_prepared :
    SizeHonoured preparedDriver (vd80SetBufferSize preparedDriver 1 100).2 0 8 4 (fun _ => 128) 100 ∧
      ConfigHonoured preparedDriver (vd80SetTriggerConfig preparedDriver 1 1 ⟨5, 64⟩).2 0 ⟨5, 64⟩ :=
  have hsize : vd80SetBufferSize preparedDriver 1 100 = (.success, (vd80SetBufferSize preparedDriver 1 100).2) :=
    Prod.ext (by decide +kernel) rfl
  have hconfig : vd80SetTriggerConfig preparedDriver 1 1 ⟨5, 64⟩ =
      (.success, (vd80SetTriggerConfig preparedDriver 1 1 ⟨5, 64⟩).2) := Prod.ext (by decide +kernel) rfl
  have hmcon : preparedDriver.modules ((0 : ℕ) + 1) = some preparedModule := rfl
  have hall := sampleCounts_iff (by decide) (by decide) (by decide) (by decide) (show (4 : ℕ) ≠ 8 by decide) hsize
    (by decide) (by decide) (by decide) (by decide) hmcon hconfig
  ⟨hall.1.mpr ⟨by decide, .inl (by decide)⟩, hall.2.mpr ⟨by decide, by decide, by decide⟩⟩

/-- Twenty post samples: the caller's variable stays as it was, and a read is rejected. -/
theorem sampleCounts_twenty :
    (vd80SetBufferSize twoModules 1 20).1 = .success ∧
      ¬SizeHonoured twoModules (vd80SetBufferSize twoModules 1 20).2 0 8 4 (fun _ => 0) 20 := by
  refine ⟨by decide +kernel, ?_⟩
  rintro ⟨⟨d', mem', hget, hleast⟩, -⟩
  have hread : (vd80GetBufferSize (vd80SetBufferSize twoModules 1 20).2 1 8 (fun _ => 0)).2.2 4 = 0 := by decide +kernel
  have hvar : mem' 4 = 0 := (congrArg (fun r => r.2.2 4) hget).symm.trans hread
  have hge := hleast.1.2
  rw [hvar] at hge
  exact absurd hge (by decide)

end HtDrivers.Vd80
