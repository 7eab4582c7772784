import HtDrivers.Vmebridge.VmeDmaStart

/-! # Error paths and resources of a transfer

A transfer that returns has given back what it took and left its channel free. The exception is a
request whose pages could not all be pinned: `sgl_map_user_pages` drops the error, and the transfer
goes on with a scatterlist nobody filled.
-/
namespace HtDrivers.Vmebridge
open HtDrivers.Lib HtDrivers.Lib.Ledger
set_option autoImplicit false

variable {w : ℕ}

/-! ## The contract -/

/-- An error is returned and no DMA register was programmed. -/
def FailsQuietly (ch : Chan w) (r : Option (Int × VmeDma × Chan w)) : Prop :=
  ∃ rc desc' ch', r = some (rc, desc', ch') ∧ rc < 0 ∧ ch'.writes = ch.writes

/-- Nothing is held, no descriptor is left on the list, and the channel is free. -/
structure Clean (ch : Chan w) : Prop where
  settled : Settled ch.ledger
  list : ch.hwDescList = []
  idle : ch.busy = false

def ReturnsClean (r : Option (Int × VmeDma × Chan w)) : Prop :=
  ∀ rc desc' ch', r = some (rc, desc', ch') → Clean ch'

/-- The error of the pinning is lost on a path where that matters. -/
def PinErrorLost (env : DmaEnv w) (desc : VmeDma) (toUser : Bool) : Prop :=
  Accepted desc ∧ Pins env desc ∧ ¬ PinComplete env desc toUser ∧
    (pagesOf env desc = 0 ∨ toUser = true ∨ AttrsOk desc)

instance (env : DmaEnv w) (desc : VmeDma) (toUser : Bool) : Decidable (PinErrorLost env desc toUser) :=
  inferInstanceAs (Decidable (_ ∧ _))

/-! ## Releasing pages -/

theorem sglRest_page (longBits : ℕ) (pages : List ℕ) (length : BitVec longBits) :
    (sglRest longBits pages length).map SgEntry.page = pages := by
  induction pages generalizing length with
  | nil => rfl
  | cons page pages ih => rw [sglRest, List.map_cons, ih]

theorem sglPopulate_page (longBits : ℕ) (pages : List ℕ) (uaddr length : U32) :
    (sglPopulate longBits pages uaddr length).map SgEntry.page = pages := by
  match pages with
  | [] => rfl
  | [page] => rfl
  | page :: page' :: rest =>
    simp only [sglPopulate, List.map_cons, sglRest_page]

/-- The pages that `sgl_unmap_user_pages` releases. -/
def unmapped (ch : Chan w) : List (Res w) := (ch.sgl.take ch.sgPages.toNat).map fun e => .page e.page

theorem unmap_ledger (ch : Chan w) : (sglUnmapUserPages ch true).ledger = ch.ledger ++ (unmapped ch).map .release := by
  unfold unmapped
  rw [List.map_map]
  rfl

section Balance
variable {env : DmaEnv w} {ch ch1 : Chan w} {desc : VmeDma} {toUser : Bool}

/-- The pages held after pinning. -/
def pinnedRes (env : DmaEnv w) (desc : VmeDma) (toUser : Bool) : Multiset (Res w) :=
  if PinComplete env desc toUser ∧ toUser = true then
    (((pin env desc toUser).2.map Res.page : List (Res w)) : Multiset (Res w)) else 0

theorem prepared_holds (hch : Settled ch.ledger) :
    Holds (prepared env (acquired ch desc) toUser).ledger (Res.sgl ::ₘ pinnedRes env desc toUser) := by
  have h : Holds (ch.ledger ++ [.acquire .sgl]) (Res.sgl ::ₘ 0) := Holds.acquire hch
  have hpin : Holds (prepared env (acquired ch desc) toUser).ledger
      (Res.sgl ::ₘ 0 + pinnedRes env desc toUser) := pinLog_holds h
  rwa [Multiset.cons_add, zero_add] at hpin

theorem unmapped_pinned (hc : PinComplete env desc toUser) (hsgl : ch1.sgl = sglOf env desc toUser)
    (hpages : ch1.sgPages = pagesOf env desc) : unmapped ch1 = (pin env desc toUser).2.map Res.page := by
  have hlen : (sglOf env desc toUser).length = pagesOf env desc := by
    have := congrArg List.length (sglPopulate_page env.longBits (pin env desc toUser).2 (hostAddr desc) desc.length)
    rw [List.length_map, pin_length hc] at this
    rw [sglOf, if_pos hc]
    exact this
  unfold unmapped
  rw [hsgl, hpages, Int.toNat_natCast, ← hlen, List.take_length, sglOf, if_pos hc,
    ← sglPopulate_page env.longBits (pin env desc toUser).2 (hostAddr desc) desc.length, List.map_map]
  rw [sglPopulate_page]
  rfl

theorem cleanup_settled (hpins : PinComplete env desc toUser ∨ toUser = false)
    (hsgl : ch1.sgl = sglOf env desc toUser) (hpages : ch1.sgPages = pagesOf env desc)
    (h : Holds ch1.ledger (Res.sgl ::ₘ pinnedRes env desc toUser)) :
    Settled (kfreeSgl (sglUnmapUserPages ch1 toUser)).ledger := by
  change Holds ((sglUnmapUserPages ch1 toUser).ledger ++ [.release .sgl]) 0
  refine Holds.release ?_
  cases toUser with
  | false =>
    have hnone : pinnedRes env desc false = 0 := if_neg fun h => Bool.false_ne_true h.2
    rw [hnone] at h
    exact h
  | true =>
    have hc := hpins.resolve_right (by simp)
    have hres : pinnedRes env desc true = ((unmapped ch1 : List (Res w)) : Multiset (Res w)) := by
      rw [unmapped_pinned hc hsgl hpages]
      exact if_pos ⟨hc, rfl⟩
    rw [hres, ← zero_add ((unmapped ch1 : List (Res w)) : Multiset (Res w)), ← Multiset.cons_add] at h
    rw [unmap_ledger]
    exact h.releases _

/-- Without pinned pages the cleanup releases pages that were never taken. -/
theorem cleanup_not_settled (hpins : ¬ PinComplete env desc true) (h0 : pagesOf env desc ≠ 0)
    (hsgl : ch1.sgl = sglOf env desc true) (hpages : ch1.sgPages = pagesOf env desc)
    (h : Holds ch1.ledger (Res.sgl ::ₘ pinnedRes env desc true)) :
    ¬ Settled (kfreeSgl (sglUnmapUserPages ch1 true)).ledger := by
  intro hset
  obtain ⟨n, hn⟩ := Nat.exists_eq_succ_of_ne_zero h0
  have hmem : Res.page (env.sglStale 0).page ∈ unmapped ch1 := by
    have hstale : sglOf env desc true = (List.range (pagesOf env desc)).map env.sglStale := if_neg hpins
    unfold unmapped
    rw [hsgl, hpages, hstale, hn, Int.toNat_natCast]
    refine List.mem_map.mpr ⟨env.sglStale 0, ?_, rfl⟩
    rw [List.take_of_length_le (by simp)]
    exact List.mem_map.mpr ⟨0, List.mem_range.mpr (Nat.succ_pos n), rfl⟩
  have hcount := List.count_pos_iff.mpr hmem
  have hzero : held (Res.page (env.sglStale 0).page) ch1.ledger = 0 := by
    have hnone : pinnedRes env desc true = 0 := if_neg fun h => hpins h.1
    rw [h.balance, hnone]
    rfl
  have hfinal := hset.balance (Res.page (env.sglStale 0).page)
  change held _ ((sglUnmapUserPages ch1 true).ledger ++ [.release .sgl]) = _ at hfinal
  rw [unmap_ledger, held_append, held_append, hzero, held_releases] at hfinal
  simp at hfinal
  omega

theorem vmeDmaRun_clean (hpins : PinComplete env desc toUser ∨ toUser = false) (hchained : ch1.chained = true)
    (hsgl : ch1.sgl = sglOf env desc toUser) (hpages : ch1.sgPages = pagesOf env desc)
    (h : Holds ch1.ledger (Res.sgl ::ₘ pinnedRes env desc toUser + (descRes ch1.hwDescList : Multiset (Res w)))) :
    Clean (vmeDmaChannelRelease (vmeDmaRun env ch1 toUser).2) := by
  obtain ⟨ch2, hrun, hc2, hs2, hp2, hl2, hled⟩ : ∃ ch2 : Chan w,
      (vmeDmaRun env ch1 toUser).2 = kfreeSgl (sglUnmapUserPages (tsi148DmaRelease ch2) toUser) ∧
      ch2.chained = ch1.chained ∧ ch2.sgl = ch1.sgl ∧ ch2.sgPages = ch1.sgPages ∧
      ch2.hwDescList = ch1.hwDescList ∧ ch2.ledger = ch1.ledger := by
    unfold vmeDmaRun
    cases env.interrupted
    · exact ⟨tsi148DmaStart ch1, rfl, rfl, rfl, rfl, rfl, rfl⟩
    · exact ⟨tsi148DmaAbort (tsi148DmaStart ch1), rfl, rfl, rfl, rfl, rfl, rfl⟩
  have hrel : tsi148DmaRelease ch2 = tsi148DmaFreeChain ch2 := if_pos (hc2.trans hchained)
  rw [hrun, hrel]
  have hfree : Holds (tsi148DmaFreeChain ch2).ledger (Res.sgl ::ₘ pinnedRes env desc toUser) := by
    refine freeChain_ledger ?_
    rw [hled, hl2]
    exact h
  refine ⟨cleanup_settled hpins (hs2.trans hsgl) (hp2.trans hpages) hfree, ?_, rfl⟩
  exact unmap_list (tsi148DmaFreeChain ch2) toUser

/-! ## The transfer -/

theorem vmeDoDma_rejected (ha : ¬ Accepted desc) : vmeDoDma env ch desc toUser = some (-EINVAL, desc, ch) := by
  unfold vmeDoDma
  by_cases hlen : desc.length = 0
  · rw [if_pos hlen]
  · by_cases hdir : desc.dir ≠ vmeDmaFromDevice ∧ desc.dir ≠ vmeDmaToDevice
    · rw [if_neg hlen, if_pos hdir]
    · by_cases haddr : desc.src.addru ≠ 0 ∨ desc.dst.addru ≠ 0
      · rw [if_neg hlen, if_neg hdir, if_pos haddr]
      · refine absurd ⟨hlen, ?_, ?_⟩ ha
        · unfold ValidDir
          by_contra hno
          exact hdir ⟨fun h => hno (.inr h), fun h => hno (.inl h)⟩
        · simpa using haddr

theorem early_clean (toUser : Bool) (hch : Clean ch) (h : ¬ Accepted desc ∨ ¬ Pins env desc) :
    ∃ rc ch', vmeDoDma env ch desc toUser = some (rc, desc, ch') ∧ rc < 0 ∧ ch'.writes = ch.writes ∧ Clean ch' := by
  by_cases ha : Accepted desc
  · by_cases hacq : env.acquire = .channel
    · have hpins : ¬ Pins env (acquired ch desc).desc := h.resolve_left (not_not.mpr ha)
      obtain ⟨rc, ch', hset, hneg, hun⟩ : ∃ rc ch', vmeDmaSetup env (acquired ch desc) toUser = some (rc, ch') ∧
        rc < 0 ∧ Untouched (acquired ch desc) ch' := vmeDmaSetup_early hpins hacq
      have hrc : rc ≠ 0 := by omega
      refine ⟨rc, vmeDmaChannelRelease ch', ?_, hneg, hun.writes, ?_⟩
      · rw [vmeDoDma_acquired ha hacq, hset]
        simp [hrc]
      · exact ⟨hun.ledger 0 hch.settled, hun.list.trans hch.list, rfl⟩
    · refine ⟨env.acquire.rc, ch, vmeDoDma_unavailable ha hacq, Acquire.rc_neg hacq, rfl, hch⟩
  · exact ⟨-EINVAL, ch, vmeDoDma_rejected ha, by decide, rfl, hch⟩

theorem vmeDmaRun_writes (env : DmaEnv w) (ch1 : Chan w) (toUser : Bool) :
    ch1.writes.length < (vmeDmaRun env ch1 toUser).2.writes.length := by
  have hrel : ∀ ch : Chan w, (tsi148DmaRelease ch).writes = ch.writes := by
    intro ch
    unfold tsi148DmaRelease
    split <;> rfl
  unfold vmeDmaRun
  cases env.interrupted
  · simp [hrel, tsi148DmaStart, Chan.iowrite]
  · simp [hrel, tsi148DmaStart, tsi148DmaAbort, Chan.iowrite]

theorem no_pages_not_quiet (ha : Accepted desc) (h : Pins env desc) (h0 : pagesOf env desc = 0)
    (hc : ¬ PinComplete env desc toUser) : ¬ FailsQuietly ch (vmeDoDma env ch desc toUser) := by
  rintro ⟨rc, desc', ch', hrun, -, hwrites⟩
  rw [vmeDoDma_acquired ha h.1, acquired_no_pages h h0, if_neg hc] at hrun
  simp only [Option.map_some, ne_eq, not_true_eq_false, if_false, Option.some.injEq, Prod.mk.injEq] at hrun
  obtain ⟨-, -, rfl⟩ := hrun
  have hlt := vmeDmaRun_writes env (emptied env (acquired ch desc) toUser) toUser
  exact absurd (congrArg List.length hwrites) (Nat.ne_of_gt hlt)

theorem vmeDoDma_pages (ha : Accepted desc) (h : Pins env desc) (h0 : pagesOf env desc ≠ 0) :
    vmeDoDma env ch desc toUser = (tsi148DmaSetup (prepared env (acquired ch desc) toUser) env.pool).map fun r =>
      if r.1 ≠ 0 then (r.1, desc, vmeDmaChannelRelease (kfreeSgl (sglUnmapUserPages r.2 toUser)))
      else ((vmeDmaRun env r.2 toUser).1, { desc with status := env.dsta },
        vmeDmaChannelRelease (vmeDmaRun env r.2 toUser).2) := by
  have hpages : vmeDmaSetup env (acquired ch desc) toUser = _ := vmeDmaSetup_pages h h0
  rw [vmeDoDma_acquired ha h.1, hpages, Option.map_map]
  congr 1
  funext r
  by_cases hrc : r.1 = 0
  · simp [hrc]
  · simp [hrc]

/-- With accepted attributes the control register is programmed, whatever comes then. -/
theorem attrs_not_quiet (hch : ch.hwDescList = []) (ha : Accepted desc) (h : Pins env desc)
    (h0 : pagesOf env desc ≠ 0) (hattr : AttrsOk desc) :
    ¬ FailsQuietly ch (vmeDoDma env ch desc toUser) := by
  rintro ⟨rc, desc', ch', hrun, -, hwrites⟩
  rw [vmeDoDma_pages ha h h0] at hrun
  obtain ⟨⟨rc1, ch1⟩, hset, hout⟩ := Option.map_eq_some_iff.mp hrun
  have hdir : ValidDir (prepared env (acquired ch desc) toUser).desc := ha.2.1
  have hlt : ch.writes.length < ch1.writes.length := by
    obtain ⟨hno, -, -⟩ | ⟨-, dctl, hf⟩ := tsi148DmaSetup_cases hdir hch hset
    · exact absurd hattr hno
    · have hle := hf.writes.length_le
      change (ch.writes ++ [_]).length ≤ _ at hle
      rw [List.length_append] at hle
      exact hle
  have hgrow : ch1.writes.length ≤ ch'.writes.length := by
    by_cases hrc : rc1 = 0
    · simp only [hrc, ne_eq, not_true_eq_false, if_false, Prod.mk.injEq] at hout
      obtain ⟨-, -, rfl⟩ := hout
      exact Nat.le_of_lt (vmeDmaRun_writes env ch1 toUser)
    · simp only [hrc, ne_eq, not_false_eq_true, if_true, Prod.mk.injEq] at hout
      obtain ⟨-, -, rfl⟩ := hout
      exact Nat.le_of_eq (congrArg List.length (unmap_writes ch1 toUser)).symm
  rw [hwrites] at hgrow
  omega

theorem pages_clean (hch : Clean ch) (ha : Accepted desc) (h : Pins env desc) (h0 : pagesOf env desc ≠ 0)
    (hpins : PinComplete env desc toUser ∨ toUser = false) : ReturnsClean (vmeDoDma env ch desc toUser) := by
  intro rc desc' ch' hrun
  rw [vmeDoDma_pages ha h h0] at hrun
  obtain ⟨⟨rc1, ch1⟩, hset, hout⟩ := Option.map_eq_some_iff.mp hrun
  have hdir : ValidDir (prepared env (acquired ch desc) toUser).desc := ha.2.1
  have hprep : Holds (prepared env (acquired ch desc) toUser).ledger (Res.sgl ::ₘ pinnedRes env desc toUser) :=
    prepared_holds hch.settled
  obtain ⟨-, rfl, rfl⟩ | ⟨-, dctl, hf⟩ := tsi148DmaSetup_cases hdir hch.list hset
  · have hrc : (-EINVAL : Int) ≠ 0 := by decide
    simp only [hrc, ne_eq, not_false_eq_true, if_true, Prod.mk.injEq] at hout
    obtain ⟨-, -, rfl⟩ := hout
    refine ⟨cleanup_settled hpins rfl rfl hprep, ?_, rfl⟩
    exact (unmap_list _ toUser).trans hch.list
  · have hled := hf.ledger _ hprep
    by_cases hrc : rc1 = 0
    · simp only [hrc, ne_eq, not_true_eq_false, if_false, Prod.mk.injEq] at hout
      obtain ⟨-, -, rfl⟩ := hout
      exact vmeDmaRun_clean hpins hf.chained hf.sgl hf.sgPages hled
    · simp only [hrc, ne_eq, not_false_eq_true, if_true, Prod.mk.injEq] at hout
      obtain ⟨-, -, rfl⟩ := hout
      have hlist := hf.failed hrc
      rw [hlist] at hled
      refine ⟨cleanup_settled hpins hf.sgl hf.sgPages ?_, ?_, rfl⟩
      · exact (add_zero (Res.sgl ::ₘ pinnedRes env desc toUser)) ▸ hled
      · exact (unmap_list ch1 toUser).trans hlist

/-- The contract is kept exactly when no pinning error is lost. -/
theorem vmeDoDma_balanced_iff (hch : Clean ch) :
    ((¬ (Pins env desc ∧ PinComplete env desc toUser) → FailsQuietly ch (vmeDoDma env ch desc toUser)) ∧
      ReturnsClean (vmeDoDma env ch desc toUser)) ↔ ¬ PinErrorLost env desc toUser := by
  by_cases hearly : ¬ Accepted desc ∨ ¬ Pins env desc
  · obtain ⟨rc, ch', hrun, hneg, hwrites, hclean⟩ := early_clean toUser hch hearly
    refine ⟨fun _ hlost => hearly.elim (fun h => h hlost.1) fun h => h hlost.2.1, fun _ => ⟨fun _ => ?_, ?_⟩⟩
    · exact ⟨rc, desc, ch', hrun, hneg, hwrites⟩
    · intro rc' desc' ch'' hrun'
      rw [hrun] at hrun'
      obtain ⟨-, -, rfl⟩ : rc = rc' ∧ desc = desc' ∧ ch' = ch'' := by simpa using hrun'
      exact hclean
  · obtain ⟨ha, h⟩ : Accepted desc ∧ Pins env desc := by simpa only [not_or, not_not] using hearly
    by_cases hc : PinComplete env desc toUser
    · refine ⟨fun _ hlost => hlost.2.2.1 hc, fun _ => ⟨fun hno => absurd ⟨h, hc⟩ hno, ?_⟩⟩
      by_cases h0 : pagesOf env desc = 0
      · intro rc desc' ch' hrun
        rw [vmeDoDma_acquired ha h.1, acquired_no_pages h h0, if_pos hc] at hrun
        cases hrun
      · exact pages_clean hch ha h h0 (.inl hc)
    · have hnot : ¬ (Pins env desc ∧ PinComplete env desc toUser) := fun hp => hc hp.2
      by_cases h0 : pagesOf env desc = 0
      · refine ⟨fun hk => absurd (hk.1 hnot) (no_pages_not_quiet ha h h0 hc), fun hk => ?_⟩
        exact absurd ⟨ha, h, hc, .inl h0⟩ hk
      · by_cases hattr : AttrsOk desc
        · refine ⟨fun hk => absurd (hk.1 hnot) (attrs_not_quiet hch.list ha h h0 hattr), fun hk => ?_⟩
          exact absurd ⟨ha, h, hc, .inr (.inr hattr)⟩ hk
        · have hattr' : ¬ AttrsOk (prepared env (acquired ch desc) toUser).desc := hattr
          have hrc : (-EINVAL : Int) ≠ 0 := by decide
          have hrun : vmeDoDma env ch desc toUser = some (-EINVAL, desc, vmeDmaChannelRelease
              (kfreeSgl (sglUnmapUserPages (prepared env (acquired ch desc) toUser) toUser))) := by
            rw [vmeDoDma_pages ha h h0, tsi148DmaSetup_rejected hattr']
            simp [hrc]
          cases toUser with
          | true =>
            refine ⟨fun hk => ?_, fun hk => absurd ⟨ha, h, hc, .inr (.inl rfl)⟩ hk⟩
            have hprep : Holds (prepared env (acquired ch desc) true).ledger (Res.sgl ::ₘ pinnedRes env desc true) :=
              prepared_holds hch.settled
            exact absurd (hk.2 _ _ _ hrun).settled (cleanup_not_settled hc h0 rfl rfl hprep)
          | false =>
            refine ⟨fun _ hlost => ?_, fun _ => ⟨fun _ => ⟨_, _, _, hrun, by decide, rfl⟩, ?_⟩⟩
            · obtain hp | hp | hp := hlost.2.2.2
              · exact h0 hp
              · cases hp
              · exact hattr hp
            · exact pages_clean hch ha h h0 (.inr rfl)

end Balance

theorem idleChan_clean : Clean idleChan := ⟨Holds.nil, rfl, rfl⟩

theorem vmeDoDma_balanced_one_page :
    ReturnsClean (vmeDoDma (willingEnv directMap) idleChan (writeRequest vmeA32UserBlt 0x1F80 0x80) true) ∧
      ¬ PinErrorLost (willingEnv directMap) (writeRequest vmeA32UserBlt 0x1F80 0x80) true := by
  have hkept : ¬ PinErrorLost (willingEnv directMap) (writeRequest vmeA32UserBlt 0x1F80 0x80) true := by
    decide +kernel
  exact ⟨((vmeDoDma_balanced_iff idleChan_clean).mpr hkept).2, hkept⟩

/-- `get_user_pages` fails with `-EFAULT`, and the memory of the scatterlist still holds an entry for
page 9: the transfer is started on page 9, reports success and releases a page it never took. -/
theorem vmeDoDma_pin_error_lost :
    let env := { willingEnv directMap with getUserPages := .error 14, sglStale := fun _ => ⟨9, 0x80, 0⟩ }
    let desc := writeRequest vmeA32UserBlt 0x1F80 0x80
    (Pins env desc ∧ ¬ PinComplete env desc true) ∧
    ((vmeDoDma env idleChan desc true).map fun r =>
      (r.1, r.2.2.launches.length, held (Res.page 9) r.2.2.ledger)) = some (0, 1, -1) ∧
    ¬ FailsQuietly idleChan (vmeDoDma env idleChan desc true) ∧
    ¬ ReturnsClean (vmeDoDma env idleChan desc true) := by
  intro env desc
  have hrun : ((vmeDoDma env idleChan desc true).map fun r =>
      (r.1, r.2.2.launches.length, held (Res.page 9) r.2.2.ledger)) = some (0, 1, -1) := by decide +kernel
  obtain ⟨⟨rc, desc', ch'⟩, hret, he⟩ := Option.map_eq_some_iff.mp hrun
  simp only [Prod.mk.injEq] at he
  refine ⟨by decide +kernel, hrun, ?_, fun hclean => ?_⟩
  · exact attrs_not_quiet rfl (by decide) (by decide) (by decide +kernel) (by decide +kernel)
  · have hzero := (hclean rc desc' ch' hret).settled.balance (Res.page 9)
    rw [he.2.2] at hzero
    exact absurd hzero (by decide)

end HtDrivers.Vmebridge
