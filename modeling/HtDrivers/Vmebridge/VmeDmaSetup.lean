import HtDrivers.Vmebridge.Tsi148Frame
import HtDrivers.Vmebridge.VmeDma

/-! # The outcomes of `vme_dma_setup`

A request that gets as far as pinning (`Pins`) continues in one of three ways: it has no pages at
all, it comes to `tsi148_dma_setup` with the pages it pinned, or it comes there with whatever the
memory of the scatterlist held, since `sgl_map_user_pages` returns `nr_pages` on every path behind
the allocation of the page array.
-/
namespace HtDrivers.Vmebridge
open HtDrivers.Lib HtDrivers.Lib.Ledger
set_option autoImplicit false

variable {w : ℕ}

/-! ## Fields -/

section Fields
variable (ch : Chan w) (toUser : Bool)

@[simp] theorem start_launches : (tsi148DmaStart ch).launches =
    ch.launches ++ [⟨ch.dnlal, ch.mem, ch.hwDescList⟩] := rfl
@[simp] theorem start_ledger : (tsi148DmaStart ch).ledger = ch.ledger := rfl
@[simp] theorem start_list : (tsi148DmaStart ch).hwDescList = ch.hwDescList := rfl
@[simp] theorem start_sgl : (tsi148DmaStart ch).sgl = ch.sgl := rfl
@[simp] theorem start_sgPages : (tsi148DmaStart ch).sgPages = ch.sgPages := rfl
@[simp] theorem start_chained : (tsi148DmaStart ch).chained = ch.chained := rfl

@[simp] theorem abort_launches : (tsi148DmaAbort ch).launches = ch.launches := rfl
@[simp] theorem abort_ledger : (tsi148DmaAbort ch).ledger = ch.ledger := rfl
@[simp] theorem abort_list : (tsi148DmaAbort ch).hwDescList = ch.hwDescList := rfl
@[simp] theorem abort_sgl : (tsi148DmaAbort ch).sgl = ch.sgl := rfl
@[simp] theorem abort_sgPages : (tsi148DmaAbort ch).sgPages = ch.sgPages := rfl
@[simp] theorem abort_chained : (tsi148DmaAbort ch).chained = ch.chained := rfl

@[simp] theorem release_launches : (tsi148DmaRelease ch).launches = ch.launches := by
  unfold tsi148DmaRelease
  split <;> rfl

@[simp] theorem release_sgl : (tsi148DmaRelease ch).sgl = ch.sgl := by
  unfold tsi148DmaRelease
  split <;> rfl

@[simp] theorem release_sgPages : (tsi148DmaRelease ch).sgPages = ch.sgPages := by
  unfold tsi148DmaRelease
  split <;> rfl

@[simp] theorem unmap_launches : (sglUnmapUserPages ch toUser).launches = ch.launches := by
  cases toUser <;> rfl

@[simp] theorem unmap_list : (sglUnmapUserPages ch toUser).hwDescList = ch.hwDescList := by
  cases toUser <;> rfl

@[simp] theorem unmap_writes : (sglUnmapUserPages ch toUser).writes = ch.writes := by
  cases toUser <;> rfl

@[simp] theorem kfreeSgl_launches : (kfreeSgl ch).launches = ch.launches := rfl
@[simp] theorem kfreeSgl_list : (kfreeSgl ch).hwDescList = ch.hwDescList := rfl
@[simp] theorem kfreeSgl_writes : (kfreeSgl ch).writes = ch.writes := rfl

end Fields

/-! ## Pinning -/

def pin (env : DmaEnv w) (desc : VmeDma) (toUser : Bool) : Int × List ℕ :=
  if toUser then sglFillUserPages env (nrPages env.longBits (hostAddr desc) desc.length)
  else sglFillKernelPages env (hostAddr desc) (nrPages env.longBits (hostAddr desc) desc.length)

/-- The number of pages of a request. -/
def pagesOf (env : DmaEnv w) (desc : VmeDma) : ℕ := nrPages env.longBits (hostAddr desc) desc.length

/-- All pages of the request were delivered. -/
def PinComplete (env : DmaEnv w) (desc : VmeDma) (toUser : Bool) : Prop :=
  (pagesOf env desc : Int) ≤ (pin env desc toUser).1

instance (env : DmaEnv w) (desc : VmeDma) (toUser : Bool) : Decidable (PinComplete env desc toUser) :=
  inferInstanceAs (Decidable (_ ≤ _))

/-- The ledger entries of `sgl_map_user_pages`. -/
def pinLog (env : DmaEnv w) (desc : VmeDma) (toUser : Bool) : List (Entry (Res w)) :=
  let pages : List (Res w) := if toUser then (pin env desc toUser).2.map .page else []
  [.acquire .pageArray] ++ pages.map .acquire ++
    (if PinComplete env desc toUser then [] else pages.map .release) ++ [.release .pageArray]

/-- The scatterlist that is mapped. -/
def sglOf (env : DmaEnv w) (desc : VmeDma) (toUser : Bool) : List SgEntry :=
  if PinComplete env desc toUser then
    sglPopulate env.longBits (pin env desc toUser).2 (hostAddr desc) desc.length
  else (List.range (pagesOf env desc)).map env.sglStale

def mappedOf (env : DmaEnv w) (desc : VmeDma) (toUser : Bool) : List (DmaSeg w) :=
  env.pciMapSg (sglOf env desc toUser)

section Pin
variable {env : DmaEnv w} {desc : VmeDma} {toUser : Bool}

theorem fillUserPages_length {n : ℕ} (h : (n : Int) ≤ (sglFillUserPages env n).1) :
    (sglFillUserPages env n).2.length = n := by
  unfold sglFillUserPages at h ⊢
  cases hp : env.getUserPages with
  | error errno =>
    simp only [hp] at h ⊢
    rw [List.length_nil]
    omega
  | pinned pages =>
    simp only [hp] at h ⊢
    have := List.length_take_le n pages
    omega

theorem fillKernelPages_length {n : ℕ} {kaddr : U32} (h : (n : Int) ≤ (sglFillKernelPages env kaddr n).1) :
    (sglFillKernelPages env kaddr n).2.length = n := by
  unfold sglFillKernelPages at h ⊢
  by_cases hv : env.virtAddrValid
  · simp [hv]
  · simp only [hv, Bool.false_eq_true, if_false, EINVAL] at h
    omega

theorem pin_length (h : PinComplete env desc toUser) : (pin env desc toUser).2.length = pagesOf env desc := by
  cases toUser with
  | true => exact fillUserPages_length h
  | false => exact fillKernelPages_length h

theorem sglMapUserPages_eq (hp : env.pagesAlloc = true) (ch : Chan w) :
    sglMapUserPages env ch (pagesOf env desc) (hostAddr desc) desc.length toUser =
      if PinComplete env desc toUser then
        if pagesOf env desc = 0 then none
        else some ((pagesOf env desc : Int), { ch with
          sgl := sglPopulate env.longBits (pin env desc toUser).2 (hostAddr desc) desc.length
          ledger := ch.ledger ++ pinLog env desc toUser })
      else some ((pagesOf env desc : Int), { ch with ledger := ch.ledger ++ pinLog env desc toUser }) := by
  cases toUser with
  | true =>
    have hpin : sglFillUserPages env (pagesOf env desc) = pin env desc true := rfl
    simp only [sglMapUserPages, hp, if_true, hpin]
    by_cases hc : PinComplete env desc true
    · have hrc : ¬ (0 ≤ (pin env desc true).1 ∧ (pin env desc true).1 < pagesOf env desc) := by
        unfold PinComplete at hc
        omega
      have hneg : ¬ (pin env desc true).1 < 0 := by
        unfold PinComplete at hc
        omega
      simp only [hc, hrc, hneg, if_true, if_false]
      simp [pinLog, hc, Function.comp_def]
    · by_cases hpart : 0 ≤ (pin env desc true).1 ∧ (pin env desc true).1 < pagesOf env desc
      · simp only [hc, hpart, if_false]
        simp [pinLog, hc, Function.comp_def]
      · have hneg : (pin env desc true).1 < 0 := by
          unfold PinComplete at hc
          omega
        -- an error of `get_user_pages` leaves no page pinned
        have hnone : (pin env desc true).2 = [] := by
          rw [← hpin] at hneg ⊢
          unfold sglFillUserPages at hneg ⊢
          cases hu : env.getUserPages with
          | error errno => rfl
          | pinned pages =>
            simp only [hu] at hneg
            omega
        simp only [hc, hpart, hneg, if_true, if_false]
        simp [pinLog, hc, hnone]
  | false =>
    have hpin : sglFillKernelPages env (hostAddr desc) (pagesOf env desc) = pin env desc false := rfl
    simp only [sglMapUserPages, hp, if_true, hpin, Bool.false_eq_true, if_false]
    by_cases hc : PinComplete env desc false
    · have hneg : ¬ (pin env desc false).1 < 0 := by
        unfold PinComplete at hc
        omega
      simp only [hc, hneg, if_true, if_false]
      simp [pinLog, hc]
    · have hneg : (pin env desc false).1 < 0 := by
        unfold PinComplete at hc
        rw [← hpin] at hc ⊢
        unfold sglFillKernelPages at hc ⊢
        by_cases hv : env.virtAddrValid
        · simp [hv] at hc
        · simp [hv, EINVAL]
      simp only [hc, hneg, if_true, if_false]
      simp [pinLog, hc]

theorem pinLog_holds {log : List (Entry (Res w))} {rs : Multiset (Res w)} (h : Holds log rs) :
    Holds (log ++ pinLog env desc toUser)
      (rs + if PinComplete env desc toUser ∧ toUser = true then
        (((pin env desc toUser).2.map Res.page : List (Res w)) : Multiset (Res w)) else 0) := by
  set pages : List (Res w) := if toUser then (pin env desc toUser).2.map .page else [] with hpages
  have hlog : log ++ pinLog env desc toUser = log ++ [.acquire .pageArray] ++ pages.map .acquire ++
      (if PinComplete env desc toUser then [] else pages.map .release) ++ [.release .pageArray] := by
    simp [pinLog, hpages]
  have htaken : Holds (log ++ [.acquire .pageArray] ++ pages.map .acquire)
      (Res.pageArray ::ₘ (rs + (pages : Multiset (Res w)))) := by
    rw [← Multiset.cons_add]
    exact h.acquire.acquires pages
  rw [hlog]
  by_cases hc : PinComplete env desc toUser
  · rw [if_pos hc, List.append_nil]
    have hres : (rs + if PinComplete env desc toUser ∧ toUser = true then
        (((pin env desc toUser).2.map Res.page : List (Res w)) : Multiset (Res w)) else 0) =
        rs + (pages : Multiset (Res w)) := by
      cases toUser <;> simp [hc, hpages]
    rw [hres]
    exact htaken.release
  · rw [if_neg hc, if_neg fun h => hc h.1, add_zero]
    rw [← Multiset.cons_add] at htaken
    exact (htaken.releases pages).release

end Pin

/-! ## `tsi148_dma_setup` -/

/-- The attribute and control words of the request are accepted. -/
def AttrsOk (desc : VmeDma) : Prop :=
  (tsi148DmaSetupSrc desc).isSome ∧ (tsi148DmaSetupDst desc).isSome ∧ (tsi148DmaSetupCtl desc).isSome

instance (desc : VmeDma) : Decidable (AttrsOk desc) := inferInstanceAs (Decidable (_ ∧ _))

section Setup
variable {env : DmaEnv w} {desc : VmeDma} {toUser : Bool} {ch : Chan w} {pool : List (PoolAnswer w)}

theorem tsi148DmaSetup_rejected (h : ¬ AttrsOk ch.desc) : tsi148DmaSetup ch pool = some (-EINVAL, ch) := by
  unfold AttrsOk at h
  unfold tsi148DmaSetup
  cases hs : tsi148DmaSetupSrc ch.desc with
  | none => rfl
  | some dsat =>
    cases hd : tsi148DmaSetupDst ch.desc with
    | none => rfl
    | some ddat =>
      cases hc : tsi148DmaSetupCtl ch.desc with
      | none => rfl
      | some dctl => simp [hs, hd, hc] at h

/-- The channel on which the chain is built: its control register is programmed. -/
def controlled (ch : Chan w) (dctl : U32) : Chan w :=
  { ch with chained := true }.iowrite .dctl (dctl &&& ~~~tsi148LcsrDctlMod)

theorem tsi148DmaSetup_accepted (h : AttrsOk ch.desc) :
    ∃ dsat ddat dctl, ∀ pool, tsi148DmaSetup ch pool = tsi148DmaSetupChain (controlled ch dctl) dsat ddat pool := by
  obtain ⟨hs, hd, hc⟩ := h
  obtain ⟨dsat, hs⟩ := Option.isSome_iff_exists.mp hs
  obtain ⟨ddat, hd⟩ := Option.isSome_iff_exists.mp hd
  obtain ⟨dctl, hc⟩ := Option.isSome_iff_exists.mp hc
  refine ⟨dsat, ddat, dctl, fun pool => ?_⟩
  simp only [tsi148DmaSetup, hs, hd, hc]
  rfl

theorem tsi148DmaSetup_cases {rc : Int} {ch' : Chan w} (hdir : ValidDir ch.desc) (hempty : ch.hwDescList = [])
    (h : tsi148DmaSetup ch pool = some (rc, ch')) :
    (¬ AttrsOk ch.desc ∧ rc = -EINVAL ∧ ch' = ch) ∨
    (AttrsOk ch.desc ∧ ∃ dctl, SetupFrame (controlled ch dctl) ch' rc) := by
  by_cases ha : AttrsOk ch.desc
  · obtain ⟨dsat, ddat, dctl, hset⟩ := tsi148DmaSetup_accepted ha
    obtain ⟨v, hv⟩ := getVmeaddr_valid hdir
    rw [hset pool] at h
    exact .inr ⟨ha, dctl, setupChain_frame hempty hv h⟩
  · rw [tsi148DmaSetup_rejected ha] at h
    obtain ⟨rfl, rfl⟩ : -EINVAL = rc ∧ ch = ch' := by simpa using h
    exact .inl ⟨ha, rfl, rfl⟩

theorem tsi148DmaSetup_launches {rc : Int} {ch' : Chan w} (hdir : ValidDir ch.desc) (hempty : ch.hwDescList = [])
    (h : tsi148DmaSetup ch pool = some (rc, ch')) : ch'.launches = ch.launches := by
  obtain ⟨-, -, rfl⟩ | ⟨-, dctl, hf⟩ := tsi148DmaSetup_cases hdir hempty h
  · rfl
  · exact hf.launches

/-! ## `vme_dma_setup` -/

/-- The request gets as far as pinning its pages. -/
def Pins (env : DmaEnv w) (desc : VmeDma) : Prop :=
  env.acquire = .channel ∧ ¬ hostAddr desc + desc.length < hostAddr desc ∧
    env.sglAlloc = true ∧ env.pagesAlloc = true

instance (env : DmaEnv w) (desc : VmeDma) : Decidable (Pins env desc) := inferInstanceAs (Decidable (_ ∧ _))

/-- The channel that `tsi148_dma_setup` gets. -/
def prepared (env : DmaEnv w) (ch : Chan w) (toUser : Bool) : Chan w :=
  { ch with
    sgl := sglOf env ch.desc toUser
    sgPages := pagesOf env ch.desc
    sgMapped := mappedOf env ch.desc toUser
    ledger := ch.ledger ++ [.acquire .sgl] ++ pinLog env ch.desc toUser }

/-- The channel of a request without pages whose pinning failed. -/
def emptied (env : DmaEnv w) (ch : Chan w) (toUser : Bool) : Chan w :=
  { ch with
    sgl := []
    sgPages := 0
    ledger := ch.ledger ++ [.acquire .sgl] ++ pinLog env ch.desc toUser ++ [.release .sgl] }

theorem vmeDmaSetup_pages (h : Pins env ch.desc) (h0 : pagesOf env ch.desc ≠ 0) :
    vmeDmaSetup env ch toUser = (tsi148DmaSetup (prepared env ch toUser) env.pool).map fun r =>
      if r.1 ≠ 0 then (r.1, kfreeSgl (sglUnmapUserPages r.2 toUser)) else (0, r.2) := by
  obtain ⟨-, hov, hsgl, hpages⟩ := h
  have hpos : ¬ ((pagesOf env ch.desc : Int) ≤ 0) := by omega
  -- both ways through `sgl_map_user_pages` end in the prepared channel
  have hmap : sglMapUserPages env { ch with
        sgl := (List.range (pagesOf env ch.desc)).map env.sglStale
        ledger := ch.ledger ++ [.acquire .sgl] } (pagesOf env ch.desc) (hostAddr ch.desc) ch.desc.length toUser =
      some ((pagesOf env ch.desc : Int), { ch with
        sgl := sglOf env ch.desc toUser
        ledger := ch.ledger ++ [.acquire .sgl] ++ pinLog env ch.desc toUser }) := by
    rw [sglMapUserPages_eq hpages]
    by_cases hc : PinComplete env ch.desc toUser
    · rw [if_pos hc, if_neg h0, sglOf, if_pos hc]
    · rw [if_neg hc, sglOf, if_neg hc]
  have hnr : nrPages env.longBits (hostAddr ch.desc) ch.desc.length = pagesOf env ch.desc := rfl
  unfold vmeDmaSetup
  simp only [hov, if_false, hsgl, if_true, hnr, hmap, hpos, prepared, mappedOf]
  generalize tsi148DmaSetup _ env.pool = result
  cases result with
  | none => rfl
  | some r =>
    obtain ⟨rc, ch1⟩ := r
    by_cases hrc : rc = 0
    · simp [hrc]
    · simp [hrc]

theorem vmeDmaSetup_no_pages (h : Pins env ch.desc) (h0 : pagesOf env ch.desc = 0) :
    vmeDmaSetup env ch toUser =
      if PinComplete env ch.desc toUser then none else some (0, emptied env ch toUser) := by
  obtain ⟨-, hov, hsgl, hpages⟩ := h
  have hnr : nrPages env.longBits (hostAddr ch.desc) ch.desc.length = pagesOf env ch.desc := rfl
  unfold vmeDmaSetup
  simp only [hov, if_false, hsgl, if_true, hnr]
  rw [sglMapUserPages_eq hpages]
  by_cases hc : PinComplete env ch.desc toUser
  · simp only [hc, h0, if_true]
  · simp only [hc, if_false, h0]
    rfl

/-- A request that does not get as far as pinning leaves no trace. -/
structure Untouched (ch ch' : Chan w) : Prop where
  launches : ch'.launches = ch.launches
  writes : ch'.writes = ch.writes
  list : ch'.hwDescList = ch.hwDescList
  ledger : ∀ rs, Holds ch.ledger rs → Holds ch'.ledger rs

theorem vmeDmaSetup_early (h : ¬ Pins env ch.desc) (hacq : env.acquire = .channel) :
    ∃ rc ch', vmeDmaSetup env ch toUser = some (rc, ch') ∧ rc < 0 ∧ Untouched ch ch' := by
  unfold vmeDmaSetup
  by_cases hov : hostAddr ch.desc + ch.desc.length < hostAddr ch.desc
  · simp only [hov, if_true]
    exact ⟨_, _, rfl, by decide, rfl, rfl, rfl, fun _ h => h⟩
  · by_cases hsgl : env.sglAlloc = true
    · have hpages : env.pagesAlloc = false := by
        by_contra hp
        exact h ⟨hacq, hov, hsgl, by simpa using hp⟩
      simp only [hov, hsgl, if_true, if_false]
      unfold sglMapUserPages
      simp only [hpages, Bool.false_eq_true, if_false]
      refine ⟨-ENOMEM, _, rfl, by decide, rfl, rfl, rfl, fun rs hr => ?_⟩
      exact hr.acquire.release
    · simp only [hov, hsgl, if_false, Bool.false_eq_true]
      exact ⟨_, _, rfl, by decide, rfl, rfl, rfl, fun _ h => h⟩

end Setup

end HtDrivers.Vmebridge
