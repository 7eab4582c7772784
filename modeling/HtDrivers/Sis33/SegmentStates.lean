import HtDrivers.Sis33.Tasks

/-! # The states of the segments

What the calls and the work item keep of the flags of the segments, for every driver that leaves the flags of the
core alone but for clearing `acquiring`.
-/
namespace HtDrivers.Sis33
open HtDrivers.Lib.Transition
set_option autoImplicit false

/-! ## What a driver may do to a card -/

structure DriverFrame {K : Type} (card card' : Card K) : Prop where
  nSegments : card'.nSegments = card.nSegments
  currSegment : card'.currSegment = card.currSegment
  acqNo : card'.acqNo = card.acqNo
  transferring : ∀ i, (card'.segments i).transferring = (card.segments i).transferring
  nrSampPerEv : ∀ i, (card'.segments i).nrSampPerEv = (card.segments i).nrSampPerEv
  acquiring : ∀ i, (card'.segments i).acquiring = true → (card.segments i).acquiring = true

def Driver.Framed {K H P E : Type} (D : Driver K H P E) : Prop :=
  ∀ p dev, DriverFrame dev.card (D.step p dev).2.card

section Frame
variable {K : Type} {card : Card K} {i : ℕ} {segment : Segment K}

theorem DriverFrame.refl (card : Card K) : DriverFrame card card :=
  ⟨rfl, rfl, rfl, fun _ => rfl, fun _ => rfl, fun _ h => h⟩

theorem DriverFrame.trans {card' card'' : Card K} (h : DriverFrame card card')
    (h' : DriverFrame card' card'') : DriverFrame card card'' where
  nSegments := h'.nSegments.trans h.nSegments
  currSegment := h'.currSegment.trans h.currSegment
  acqNo := h'.acqNo.trans h.acqNo
  transferring i := (h'.transferring i).trans (h.transferring i)
  nrSampPerEv i := (h'.nrSampPerEv i).trans (h.nrSampPerEv i)
  acquiring i hacq := h.acquiring i (h'.acquiring i hacq)

theorem DriverFrame.setSegment (htransferring : segment.transferring = (card.segments i).transferring)
    (hsamp : segment.nrSampPerEv = (card.segments i).nrSampPerEv)
    (hacquiring : segment.acquiring = true → (card.segments i).acquiring = true) :
    DriverFrame card (card.setSegment i segment) := by
  have hcases : ∀ j, (card.setSegment i segment).segments j = card.segments j ∨
      j = i ∧ (card.setSegment i segment).segments j = segment := by
    intro j
    by_cases hj : j = i
    · subst hj
      exact .inr ⟨rfl, setSegment_self⟩
    · exact .inl (setSegment_of_ne hj)
  refine ⟨rfl, rfl, rfl, ?_, ?_, ?_⟩
  · intro j
    obtain hj | ⟨rfl, hj⟩ := hcases j
    · rw [hj]
    · rw [hj, htransferring]
  · intro j
    obtain hj | ⟨rfl, hj⟩ := hcases j
    · rw [hj]
    · rw [hj, hsamp]
  · intro j h
    obtain hj | ⟨rfl, hj⟩ := hcases j
    · rwa [hj] at h
    · rw [hj] at h
      exact hacquiring h

end Frame

/-! ## The invariants -/

structure AcqInv {K : Type} (card : Card K) : Prop where
  inRange : ∀ i, (card.segments i).acquiring = true → i < card.nSegments
  one : ∀ i j, (card.segments i).acquiring = true → (card.segments j).acquiring = true → i = j
  notBoth : ∀ i, (card.segments i).acquiring = true → (card.segments i).transferring = false

def Busy {K : Type} (card : Card K) (i : ℕ) : Prop :=
  (card.segments i).acquiring = true ∨ (card.segments i).transferring = true

structure SegmentsOk {K : Type} (card : Card K) : Prop where
  one : ∀ i j, (card.segments i).acquiring = true → (card.segments j).acquiring = true → i = j
  notBoth : ∀ i, ¬((card.segments i).acquiring = true ∧ (card.segments i).transferring = true)
  inRange : ∀ i, Busy card i → i < card.nSegments

/-- The segments are in order in every state, and their number is fixed while one is busy. -/
structure SegmentStates {T K H P E : Type} (next : Sys T K H P → Act T E → Option (Sys T K H P))
    (ok : Sys T K H P → Act T E → Prop) (start : Sys T K H P) : Prop where
  states : ∀ s, Reach next ok start s → SegmentsOk s.card
  fixed : ∀ s a s', Reach next ok start s → ok s a → next s a = some s' → (∃ i, Busy s.card i) →
    s'.card.nSegments = s.card.nSegments

/-- A FETCH that has waited starts its transfer only if its segment is still one of the card. -/
def StaysConfigured {T K H P E : Type} (s : Sys T K H P) (a : Act T E) : Prop :=
  ∀ t list, a = .step t → s.pc t = .fetchRelock list → fetchCheck s.card list = none →
    list.segment < s.card.nSegments

section Steps
variable {T K H P E : Type} [DecidableEq T] {l : CardLimits} {D : Driver K H P E} {s s' start : Sys T K H P}
  {a : Act T E} {card card' : Card K} {i : ℕ} {desc : AcqDesc} {list : AcqList} {segments : ℤ}
  {ok : Sys T K H P → Act T E → Prop}

theorem AcqInv.free (hi : AcqInv card) (h : isAcquiring card = false) (i : ℕ) :
    (card.segments i).acquiring = false := by
  by_contra hacq
  rw [Bool.not_eq_false] at hacq
  have hfree := isAcquiring_eq_false.mp h i (hi.inRange i hacq)
  rw [hacq] at hfree
  cases hfree

theorem AcqInv.driver (hi : AcqInv card) (hf : DriverFrame card card') : AcqInv card' where
  inRange i h := by
    rw [hf.nSegments]
    exact hi.inRange i (hf.acquiring i h)
  one i j h h' := hi.one i j (hf.acquiring i h) (hf.acquiring j h')
  notBoth i h := by
    rw [hf.transferring]
    exact hi.notBoth i (hf.acquiring i h)

theorem AcqInv.claim (hi : AcqInv card) (h : fetchCheck card list = none) :
    AcqInv (setTransferring card list.segment true) where
  inRange i h := hi.inRange i (by rwa [setTransferring_acquiring] at h)
  one i j h h' := hi.one i j (by rwa [setTransferring_acquiring] at h) (by rwa [setTransferring_acquiring] at h')
  notBoth i hacq := by
    rw [setTransferring_acquiring] at hacq
    have hne : i ≠ list.segment := by
      rintro rfl
      rw [(fetchCheck_none h).1] at hacq
      cases hacq
    rw [setTransferring_transferring, if_neg hne]
    exact hi.notBoth i hacq

theorem AcqInv.done (hi : AcqInv card) : AcqInv (setTransferring card i false) where
  inRange j h := hi.inRange j (by rwa [setTransferring_acquiring] at h)
  one j k h h' := hi.one j k (by rwa [setTransferring_acquiring] at h) (by rwa [setTransferring_acquiring] at h')
  notBoth j h := by
    rw [setTransferring_acquiring] at h
    rw [setTransferring_transferring]
    split
    · rfl
    · exact hi.notBoth j h

/-- The scan finds nothing acquiring, so the new segment is the only one. -/
theorem AcqInv.accept (hi : AcqInv card) (h : acqCheck l card desc = none) : AcqInv (acqAccept card desc) := by
  obtain ⟨-, hseg, -, -, htrans, hscan⟩ := acqCheck_none h
  have honly : ∀ i, ((acqAccept card desc).segments i).acquiring = true → i = desc.segment := by
    intro i hacq
    rw [acqAccept_acquiring] at hacq
    split at hacq
    · assumption
    · rw [hi.free hscan] at hacq
      cases hacq
  refine ⟨?_, ?_, ?_⟩
  · intro i hacq
    rw [honly i hacq]
    exact hseg
  · intro i j hacq hacq'
    rw [honly i hacq, honly j hacq']
  · intro i hacq
    rw [acqAccept_transferring, honly i hacq]
    exact htrans

theorem AcqInv.store (hi : AcqInv card) (h : storeCheck l card segments = none) :
    AcqInv (setNSegments l card segments) where
  inRange i hacq := by
    change (card.segments i).acquiring = true at hacq
    rw [hi.free (storeCheck_none h).2.1] at hacq
    cases hacq
  one := hi.one
  notBoth := hi.notBoth

theorem AcqInv.step (hD : D.Framed) (hi : AcqInv s.card) (h : Stepped l D s a s') : AcqInv s'.card := by
  cases h with
  | moves => exact hi
  | claims hcheck => exact hi.claim hcheck
  | accepts _ hcheck => exact hi.accept hcheck
  | stores hcheck => exact hi.store hcheck
  | cancels => exact hi
  | operates hop => exact hi.driver (hD _ _)
  | fetched => exact hi.done
  | workStarts => exact hi
  | works => exact hi.driver (hD _ _)
  | hw => exact hi

theorem AcqInv.init (cache : K) (n : ℕ) : AcqInv (cardInit cache n) where
  inRange _ h := by cases h
  one _ _ h := by cases h
  notBoth _ h := by cases h

/-- Without any condition on the run. -/
theorem AcqInv.run {cache : K} {hw : H} {n : ℕ} (hD : D.Framed)
    (h : Reach (coreNext l D) ok (coreInit T cache hw n) s) : AcqInv s.card :=
  h.invariant (I := fun s => AcqInv s.card) (AcqInv.init cache n) fun _ _ _ hi _ hnext =>
    hi.step hD (coreNext_stepped hnext)

/-! ## The segments that are transferred -/

def TransferInv (card : Card K) : Prop := ∀ i, (card.segments i).transferring = true → i < card.nSegments

theorem TransferInv.free (ht : TransferInv card) (h : isTransferring card = false) (i : ℕ) :
    (card.segments i).transferring = false := by
  by_contra htrans
  rw [Bool.not_eq_false] at htrans
  have hfree := isTransferring_eq_false.mp h i (ht i htrans)
  rw [htrans] at hfree
  cases hfree

theorem TransferInv.driver (ht : TransferInv card) (hf : DriverFrame card card') : TransferInv card' := by
  intro i h
  rw [hf.nSegments]
  exact ht i (hf.transferring i ▸ h)

theorem TransferInv.step (hD : D.Framed) (ht : TransferInv s.card) (hok : StaysConfigured s a)
    (h : Stepped l D s a s') : TransferInv s'.card := by
  cases h with
  | moves => exact ht
  | claims hcheck hrange =>
    rename_i t list
    have hseg : list.segment < s.card.nSegments := by
      obtain hdirect | ⟨ha, hpc⟩ := hrange
      · exact hdirect
      · exact hok t list ha hpc hcheck
    intro i htrans
    change ((setTransferring s.card list.segment true).segments i).transferring = true at htrans
    rw [setTransferring_transferring] at htrans
    split at htrans
    · subst i
      exact hseg
    · exact ht i htrans
  | accepts =>
    intro i htrans
    exact ht i (acqAccept_transferring ▸ htrans)
  | stores hcheck =>
    intro i htrans
    change (s.card.segments i).transferring = true at htrans
    rw [ht.free (storeCheck_none hcheck).2.2] at htrans
    cases htrans
  | cancels => exact ht
  | operates hop => exact ht.driver (hD _ _)
  | fetched =>
    rename_i t list ret hpc
    intro i htrans
    change ((setTransferring s.card list.segment false).segments i).transferring = true at htrans
    rw [setTransferring_transferring] at htrans
    split at htrans
    · cases htrans
    · exact ht i htrans
  | workStarts => exact ht
  | works => exact ht.driver (hD _ _)
  | hw => exact ht

/-- A store changes the number of segments only when none of them is busy. -/
theorem fixed_step (hD : D.Framed) (hi : AcqInv s.card) (ht : TransferInv s.card) (h : Stepped l D s a s')
    (hbusy : Busy s.card i) : s'.card.nSegments = s.card.nSegments := by
  cases h with
  | moves => rfl
  | claims => rfl
  | accepts => rfl
  | stores hcheck =>
    obtain ⟨-, hacq, htrans⟩ := storeCheck_none hcheck
    obtain hbusy | hbusy := hbusy
    · rw [hi.free hacq] at hbusy
      cases hbusy
    · rw [ht.free htrans] at hbusy
      cases hbusy
  | cancels => rfl
  | operates => exact (hD _ _).nSegments
  | fetched => rfl
  | workStarts => rfl
  | works => exact (hD _ _).nSegments
  | hw => rfl

theorem segmentStates_run (hD : D.Framed) (l : CardLimits) (cache : K) (hw : H) (n : ℕ) :
    SegmentStates (coreNext l D) StaysConfigured (coreInit T cache hw n) := by
  have hinv : ∀ s, Reach (coreNext l D) StaysConfigured (coreInit T cache hw n) s → TransferInv s.card := by
    intro s h
    refine h.invariant (I := fun s => TransferInv s.card) ?_ ?_
    · intro i htrans
      cases htrans
    · intro s a s' ht hok hnext
      exact ht.step hD hok (coreNext_stepped hnext)
  refine ⟨?_, ?_⟩
  · intro s h
    have hi := AcqInv.run hD h
    refine ⟨hi.one, ?_, ?_⟩
    · rintro i ⟨hacq, htrans⟩
      rw [hi.notBoth i hacq] at htrans
      cases htrans
    · rintro i (hacq | htrans)
      · exact hi.inRange i hacq
      · exact hinv s h i htrans
  · rintro s a s' h - hnext ⟨i, hbusy⟩
    exact fixed_step hD (AcqInv.run hD h) (hinv s h) (coreNext_stepped hnext) hbusy

end Steps

end HtDrivers.Sis33
