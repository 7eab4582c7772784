import HtDrivers.Sis33.Sis3300

/-! # Runs of the two drivers

The segments of a card over all runs of its tasks, its work item and its hardware, for the sis3320 and the sis3300.
-/
namespace HtDrivers.Sis33
open HtDrivers.Lib.Transition
set_option autoImplicit false

/-! ## The states of the segments -/

/-- Whatever the tasks do, a transfer is started on a segment of the card as long as a FETCH that has waited finds its
segment still there. -/
theorem segmentStates_cards (T : Type) [DecidableEq T] (version rev : ℕ) :
    SegmentStates (coreNext limits3320 (sis3320 version)) StaysConfigured (coreInit T noCaches hw3320Init 2) ∧
      SegmentStates (coreNext (limits3300 rev) sis3300) StaysConfigured (coreInit T noCaches hw3300Init 2) :=
  ⟨segmentStates_run step3320_framed _ _ _ _, segmentStates_run step3300_framed _ _ _ _⟩

/-- An acquisition of one event on a segment, by task 0, without waiting for it. -/
def acquireOne (segmentNr : ℕ) : Act (Fin 3) Event3320 := .acquire 0 ⟨segmentNr, 1, 64, 1⟩

/-- It is started and ends by itself, and the work item handles the interrupt. -/
def acquiredOne (segmentNr : ℕ) : List (Act (Fin 3) Event3320) :=
  [acquireOne segmentNr, .step 0, .step 0, .hw (.counter 1), .hw .lastEvent] ++ List.replicate 13 .work

/-- The next acquisition is cancelled while a FETCH waits for it, and the card has one segment when the FETCH goes
on. -/
def reconfiguredRun : List (Act (Fin 3) Event3320) :=
  acquiredOne 1 ++ [acquireOne 1, .step 0, .step 0, .fetch 1 ⟨1, 0, [128], 0⟩, .cancel 0, .step 0, .step 0, .step 0,
    .step 0, .step 1, .store 0 1 2, .step 1]

theorem not_segmentStates_reconfigured :
    ¬SegmentStates (coreNext limits3320 (sis3320 250)) (fun _ _ => True) (coreInit (Fin 3) noCaches hw3320Init 2) := by
  intro h
  have hrun : (reconfiguredRun.foldlM (coreNext limits3320 (sis3320 250))
      (coreInit (Fin 3) noCaches hw3320Init 2)).map (fun s => (s.card.nSegments, (s.card.segments 1).transferring)) =
        some (1, true) := by
    decide
  obtain ⟨s, hs, hobs⟩ := Option.map_eq_some_iff.mp hrun
  obtain ⟨hn, htrans⟩ := Prod.mk.inj hobs
  have hlt := (h.states s (Reach.of_foldlM .refl (fun _ _ _ => trivial) hs)).inRange 1 (.inr htrans)
  omega

/-! ## Transfers and left-over interrupts -/

/-- The contents are kept in every run of either driver that meets its condition; the sis3320 never gives back the
events during a transfer. The transfers of the sis3300 that fail give back no more than their own events. -/
theorem frozenRuns_cards (T : Type) [DecidableEq T] (version rev : ℕ) :
    FrozenRuns (contract3320 version).handles (coreNext limits3320 (sis3320 version))
        (NoLeftOver limits3320 (contract3320 version)) (coreInit T noCaches hw3320Init 2) ∧
      FrozenRuns contract3300.handles (coreNext (limits3300 rev) sis3300)
        (Undisturbed (limits3300 rev) contract3300) (coreInit T noCaches hw3300Init 2) ∧
      ∀ s a s', Reach (coreNext (limits3300 rev) sis3300) (NoLeftOver (limits3300 rev) contract3300)
          (coreInit T noCaches hw3300Init 2) s →
        NoLeftOver (limits3300 rev) contract3300 s a → coreNext (limits3300 rev) sis3300 s a = some s' →
          FrozenButOwn contract3300 s a s' := by
  have hidle3320 : ∀ k, ¬(contract3320 version).inHw hw3320Init k := by
    rintro k (h | h) <;> cases h
  have hidle3300 : ∀ k, ¬contract3300.inHw hw3300Init k := by
    rintro k (h | h | h) <;> cases h
  refine ⟨?_, frozenRuns_of_contract _ _ hidle3300 2, ?_⟩
  · intro s a s' h hok hnext
    have hstep := frozenButOwn_of_contract (contract3320 version) limits3320 hidle3320 2 h hok hnext
    refine ⟨fun i htrans => ?_, hstep.finished⟩
    obtain hfrozen | ⟨⟨t, list, p, -, -, -, hdrops⟩, -⟩ := hstep.frozen i htrans
    · exact hfrozen
    · exact False.elim hdrops
  · exact fun s a s' h hok hnext => frozenButOwn_of_contract contract3300 (limits3300 rev) hidle3300 2 h hok hnext

section Runs
variable {T H P E : Type} {next : Sys T Caches H P → Act T E → Option (Sys T Caches H P)}
  {start : Sys T Caches H P} {handles : P → H → ℕ → Prop}

/-- Every run keeps the events of a segment that is transferred. -/
theorem FrozenRuns.events (h : FrozenRuns handles next (fun _ _ => True) start) (acts : List (Act T E)) (a : Act T E)
    (i : ℕ) {id : ℕ} {buf : Buf}
    (hrun : ((acts.foldlM next start).bind fun s => (next s a).map fun s' =>
      ((s.card.segments i).transferring, (s.card.segments i).cache.events, (s'.card.segments i).cache.events)) =
        some (true, .block id, buf)) : buf = .block id := by
  obtain ⟨s, hs, hobs⟩ := Option.bind_eq_some_iff.mp hrun
  obtain ⟨s', hstep, hobs⟩ := Option.map_eq_some_iff.mp hobs
  obtain ⟨htrans, hobs⟩ := Prod.mk.inj hobs
  obtain ⟨hevents, hbuf⟩ := Prod.mk.inj hobs
  have hreach : Reach next (fun _ _ => True) start s := Reach.of_foldlM .refl (fun _ _ _ => trivial) hs
  rw [← hbuf]
  exact ((h s a s' hreach trivial hstep).frozen i htrans).events id hevents

end Runs

/-- The acquisition ends and is cancelled before its interrupt is handled; the work item starts while a FETCH
transfers what the acquisition before it has left. -/
def cancelledRun : List (Act (Fin 3) Event3320) :=
  acquiredOne 0 ++ [acquireOne 0, .step 0, .step 0, .hw .lastEvent, .cancel 0, .step 0, .step 0, .step 0, .step 0,
    .fetch 1 ⟨0, 0, [128], 0⟩, .work, .work, .work, .work]

/-- A FETCH has filled the caches, and the next acquisition is cancelled before its `acq_start`, which starts while
another FETCH reads them. -/
def lateStartRun : List (Act (Fin 3) Event3300) :=
  [Act.acquire 0 ⟨0, 1, 128, 1⟩] ++ List.replicate 8 (Act.step 0) ++
    [Act.hw (.counter 0 1), .hw .event, .work, .work, .fetch 1 ⟨0, 0, [256], 0⟩] ++ List.replicate 6 (Act.step 1) ++
      [Act.acquire 0 ⟨0, 1, 128, 1⟩, .cancel 2, .step 2, .fetch 1 ⟨0, 0, [256], 0⟩]

theorem not_frozenRuns_cards :
    ¬FrozenRuns (contract3320 250).handles (coreNext limits3320 (sis3320 250)) (fun _ _ => True)
        (coreInit (Fin 3) noCaches hw3320Init 2) ∧
      ¬FrozenRuns contract3300.handles (coreNext (limits3300 0) sis3300) (fun _ _ => True)
        (coreInit (Fin 3) noCaches hw3300Init 2) := by
  refine ⟨fun h => ?_, fun h => ?_⟩
  · have hkept : Buf.null = .block 0 := h.events cancelledRun .work 0 (by decide +kernel)
    cases hkept
  · have hkept : Buf.null = .block 0 := h.events lateStartRun (.step 0) 0 (by decide +kernel)
    cases hkept

end HtDrivers.Sis33
