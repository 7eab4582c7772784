import HtDrivers.Sis33.CardRuns

/-! # Acquisitions and the size of a segment (`sis33_acq_start_ioctl`)

The samples of all events of an acquisition against those of one segment. The product that the driver compares is one
of 32 bits.
-/
namespace HtDrivers.Sis33
open HtDrivers.Lib.Transition
set_option autoImplicit false

section Checks
variable {T K H P E : Type} [DecidableEq T] {l : CardLimits} {D : Driver K H P E} {s s' start : Sys T K H P} {t : T}
  {a : Act T E} {card : Card K} {desc : AcqDesc} {ok : Sys T K H P → Act T E → Prop}

/-- `conf_ev` is called for the request. -/
def reachesConfEv (l : CardLimits) (card : Card K) (desc : AcqDesc) : Prop :=
  acqArgs desc = none ∧ acqCheck l card desc = none

instance : Decidable (reachesConfEv l card desc) := inferInstanceAs (Decidable (_ ∧ _))

/-- The hardware of the card is set up for these requests and no others. -/
theorem acqStartIoctl_hw : (acqStartIoctl l D s t desc).dev.hw =
    if reachesConfEv l s.card desc then D.confEv desc s.dev.hw else s.dev.hw := by
  unfold acqStartIoctl
  split
  · rename_i e hargs
    rw [if_neg]
    · rfl
    · rintro ⟨hnone, -⟩
      rw [hargs] at hnone
      cases hnone
  · rename_i hargs
    split
    · rename_i e hcheck
      rw [if_neg]
      · rfl
      · rintro ⟨-, hnone⟩
        rw [hcheck] at hnone
        cases hnone
    · rename_i hcheck
      rw [if_pos ⟨hargs, hcheck⟩]
      rfl

/-- The samples of the events are no more than those of a segment. -/
def eventsFit (l : CardLimits) (card : Card K) (desc : AcqDesc) : Prop :=
  desc.nrEvents * desc.evLength ≤ segmentMaxNrSamples l card

instance : Decidable (eventsFit l card desc) := inferInstanceAs (Decidable (_ ≤ _))

/-- All that is checked but the product. -/
structure OtherwiseValid (l : CardLimits) (card : Card K) (desc : AcqDesc) : Prop where
  args : acqArgs desc = none
  nrEvents : desc.nrEvents ≤ l.maxNrEvents
  segment : desc.segment < card.nSegments
  evLength : desc.evLength ∈ l.evLengths
  idle : (card.segments desc.segment).transferring = false ∧ isAcquiring card = false

theorem reachesConfEv_iff : reachesConfEv l card desc ↔
    OtherwiseValid l card desc ∧ desc.nrEvents * desc.evLength % 2 ^ 32 ≤ segmentMaxNrSamples l card := by
  constructor
  · rintro ⟨hargs, hcheck⟩
    obtain ⟨hevents, hsegment, hlength, hproduct, hidle⟩ := acqCheck_none hcheck
    exact ⟨⟨hargs, hevents, hsegment, hlength, hidle⟩, hproduct⟩
  · rintro ⟨⟨hargs, hevents, hsegment, hlength, htransferring, hacquiring⟩, hproduct⟩
    refine ⟨hargs, ?_⟩
    unfold acqCheck
    rw [if_neg (not_lt.mpr hevents), if_neg (not_le.mpr hsegment), if_neg (not_not.mpr hlength),
      if_neg (not_lt.mpr hproduct), htransferring, hacquiring]
    rfl

/-- What is accepted fits but for a product that wraps around. -/
theorem fits_iff : (reachesConfEv l card desc → eventsFit l card desc) ↔
    ¬(OtherwiseValid l card desc ∧ desc.nrEvents * desc.evLength % 2 ^ 32 ≤ segmentMaxNrSamples l card ∧
      segmentMaxNrSamples l card < desc.nrEvents * desc.evLength) := by
  rw [reachesConfEv_iff, eventsFit]
  constructor
  · rintro h ⟨hvalid, hlow, hlarge⟩
    exact absurd (h ⟨hvalid, hlow⟩) (not_le.mpr hlarge)
  · rintro h ⟨hvalid, hlow⟩
    by_contra hlarge
    exact h ⟨hvalid, hlow, not_le.mp hlarge⟩

theorem fits_of_small (hsmall : ∀ n ∈ l.evLengths, l.maxNrEvents * n < 2 ^ 32) (h : reachesConfEv l card desc) :
    eventsFit l card desc := by
  obtain ⟨hvalid, hlow⟩ := reachesConfEv_iff.mp h
  have hlt : desc.nrEvents * desc.evLength < 2 ^ 32 :=
    (Nat.mul_le_mul_right _ hvalid.nrEvents).trans_lt (hsmall _ hvalid.evLength)
  rwa [Nat.mod_eq_of_lt hlt] at hlow

/-! ## The number of segments -/

theorem roundSegments_eq (hmax : l.nSegmentsMax = 2) (n : ℕ) : roundSegments l n = if n ≤ 1 then 1 else 2 := by
  have hpos : roundupPowOfTwo n ≠ 0 := (Nat.two_pow_pos _).ne'
  simp only [roundSegments]
  rw [if_neg hpos, hmax]
  by_cases hn : n ≤ 1
  · have hone : roundupPowOfTwo n = 1 := by
      rw [roundupPowOfTwo, Nat.sub_eq_zero_of_le hn]
      rfl
    rw [if_pos hn, hone]
    rfl
  · have htwo : 2 ≤ roundupPowOfTwo n := by
      have hfls : flsLong (n - 1) ≠ 0 := by
        unfold flsLong
        rw [if_neg (by omega)]
        exact Nat.succ_ne_zero _
      exact Nat.le_self_pow hfls 2
    rw [if_neg hn]
    split
    · rfl
    · omega

theorem nSegments_step (hD : D.Framed) (h : Stepped l D s a s') : s'.card.nSegments = s.card.nSegments ∨
    ∃ segments : ℤ, l.nSegmentsMin ≤ segments ∧ s'.card.nSegments = roundSegments l segments.toNat := by
  cases h with
  | stores hcheck => exact .inr ⟨_, (storeCheck_none hcheck).1, rfl⟩
  | operates => exact .inl (hD _ _).nSegments
  | works => exact .inl (hD _ _).nSegments
  | moves | claims | accepts | cancels | fetched | workStarts | hw => exact .inl rfl

/-- The numbers of segments of a card that its driver sets up with two. -/
theorem nSegments_run {cache : K} {hw : H} (hD : D.Framed) (hmax : l.nSegmentsMax = 2)
    (h : Reach (coreNext l D) ok (coreInit T cache hw 2) s) :
    s.card.nSegments = 2 ∨ s.card.nSegments = 1 ∧ l.nSegmentsMin ≤ 1 := by
  refine h.invariant (I := fun s => s.card.nSegments = 2 ∨ s.card.nSegments = 1 ∧ l.nSegmentsMin ≤ 1) (.inl rfl) ?_
  intro s a s' hi _ hnext
  obtain hkept | ⟨segments, hmin, hstored⟩ := nSegments_step hD (coreNext_stepped hnext)
  · rwa [hkept]
  · rw [hstored, roundSegments_eq hmax]
    split
    · exact .inr ⟨rfl, by omega⟩
    · exact .inl rfl

end Checks

/-! ## The two drivers -/

/-- The products of the sis3320 that wrap around to what a segment holds: 128 events of the longest length, or 256
of the next, and the same with a few more. -/
def wrapsToFit (nSegments : ℕ) (desc : AcqDesc) : Prop :=
  desc.evLength = 33554432 ∧ 128 ≤ desc.nrEvents ∧ desc.nrEvents % 128 * nSegments ≤ 1 ∨
    desc.evLength = 16777216 ∧ 256 ≤ desc.nrEvents ∧ desc.nrEvents % 256 * nSegments ≤ 2

section Wrap
variable {K : Type} {card : Card K} {desc : AcqDesc}

theorem segmentMaxNrSamples_3320 : segmentMaxNrSamples limits3320 card = 33554432 / card.nSegments := by
  change 33554432 / (card.nSegments / 1) = _
  rw [Nat.div_one]

/-- Up to 512 events of the shorter lengths stay below 2^32. -/
theorem wraps_iff (hn : card.nSegments = 2 ∨ card.nSegments = 1) (hlength : desc.evLength ∈ limits3320.evLengths)
    (hevents : desc.nrEvents ≤ limits3320.maxNrEvents) :
    (desc.nrEvents * desc.evLength % 2 ^ 32 ≤ segmentMaxNrSamples limits3320 card ∧
      segmentMaxNrSamples limits3320 card < desc.nrEvents * desc.evLength) ↔ wrapsToFit card.nSegments desc := by
  change desc.nrEvents ≤ 512 at hevents
  have hcases : desc.evLength = 33554432 ∨ desc.evLength = 16777216 ∨ desc.evLength ≤ 4194304 := by
    simp only [limits3320, sis3320EvLengths, List.mem_cons, List.not_mem_nil, or_false] at hlength
    omega
  rw [segmentMaxNrSamples_3320, wrapsToFit]
  obtain hlong | hnext | hshort := hcases
  · rw [hlong]
    obtain hn | hn := hn
    · rw [hn]
      omega
    · rw [hn]
      omega
  · rw [hnext]
    obtain hn | hn := hn
    · rw [hn]
      omega
    · rw [hn]
      omega
  · have hle : desc.nrEvents * desc.evLength ≤ 512 * 4194304 := Nat.mul_le_mul hevents hshort
    rw [Nat.mod_eq_of_lt (by omega)]
    omega

end Wrap

/-- A request that the sis3320 accepts fits its segment unless the wrapped product of 16M or 32M samples an event
does; the products of the sis3300 do not wrap. -/
theorem eventsFit_cards (T : Type) [DecidableEq T] (version rev : ℕ) :
    (∀ s, Reach (coreNext limits3320 (sis3320 version)) (fun _ _ => True) (coreInit T noCaches hw3320Init 2) s →
      ∀ desc, (reachesConfEv limits3320 s.card desc → eventsFit limits3320 s.card desc) ↔
        ¬(OtherwiseValid limits3320 s.card desc ∧ wrapsToFit s.card.nSegments desc)) ∧
    ∀ s, Reach (coreNext (limits3300 rev) sis3300) (fun _ _ => True) (coreInit T noCaches hw3300Init 2) s →
      ∀ desc, reachesConfEv (limits3300 rev) s.card desc → eventsFit (limits3300 rev) s.card desc := by
  constructor
  · intro s hreach desc
    have hn : s.card.nSegments = 2 ∨ s.card.nSegments = 1 :=
      (nSegments_run step3320_framed rfl hreach).imp_right And.left
    rw [fits_iff, not_iff_not]
    refine and_congr_right ?_
    intro hvalid
    exact wraps_iff hn hvalid.evLength hvalid.nrEvents
  · intro s _ desc
    refine fits_of_small ?_
    intro n hmem
    have hle : n ≤ 131072 := by
      simp only [limits3300] at hmem
      split at hmem
      · simp only [sis330008EvLengths, List.mem_cons, List.not_mem_nil, or_false] at hmem
        omega
      · simp only [sis3300EvLengths, List.mem_cons, List.not_mem_nil, or_false] at hmem
        omega
    change 1024 * n < 2 ^ 32
    omega

/-- 128 events of 32M samples are accepted as none. -/
theorem not_eventsFit_wrapped :
    ¬∀ s, Reach (coreNext limits3320 (sis3320 250)) (fun _ _ => True) (coreInit (Fin 1) noCaches hw3320Init 2) s →
      ∀ desc, reachesConfEv limits3320 s.card desc → eventsFit limits3320 s.card desc := by
  intro h
  have hfit := h _ .refl ⟨0, 128, 33554432, 0⟩ (by decide)
  revert hfit
  decide

end HtDrivers.Sis33
