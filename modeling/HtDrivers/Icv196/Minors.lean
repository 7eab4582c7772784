import HtDrivers.Icv196.CumulEvents
import HtDrivers.Icv196.Lines
import HtDrivers.Lib.Transition

/-! Which handle a minor number of the ICV196 stands for in the calls of the driver, and so who reads an event. -/
namespace HtDrivers.Icv196
open HtDrivers.Lib.Transition
set_option autoImplicit false

def skelDrvrClientContexts : ℕ := 16
def icvvmeIcvChan01 : ℕ := 1

/-- The index into `ICVHdl` of `icv196_open`, `icv196_close` and `icv196_ioctl`, which do not check it. -/
def callHdl (minor : ℕ) : ℕ := minor

/-- The index that `icv196_read` takes; other minors get ENODEV. -/
def readHdl (minor : ℕ) : Option ℕ :=
  if icvvmeIcvChan01 ≤ minor ∧ minor ≤ skelDrvrClientContexts then some (minor - 1) else none

section Reads
variable (chan : ℕ)

/-- The loop of `icv196_read`, while the ring has events and the buffer room. -/
def readEvents : ℕ → Bookings → List IcvEvt × Bookings
  | 0, s => ([], s)
  | left + 1, s =>
    match pullFromRing s chan with
    | none => ([], s)
    | some (evt, s) =>
      let (evts, s) := readEvents left s
      (evt :: evts, s)

end Reads

def icv196Read (s : Bookings) (minor longs : ℕ) : Option (List IcvEvt × Bookings) :=
  (readHdl minor).map fun chan => readEvents chan longs s

inductive MinorStep
  | connect (minor module index : ℕ) (cumul : Bool)
  | disconnect (minor module index : ℕ)
  | interrupt (line : ℕ) (sw1 : BitVec 16)
  | read (minor longs : ℕ)

def minorStep (s : Bookings) : MinorStep → Option Bookings
  | .connect minor module index cumul => some (connectLine s (callHdl minor) (cnvrtUserLine module index) cumul)
  | .disconnect minor module index => some (disconnectLine s (callHdl minor) (cnvrtUserLine module index))
  | .interrupt line sw1 => some (deliverLine s line sw1)
  | .read minor longs => some (((icv196Read s minor longs).map Prod.snd).getD s)

/-! ## Rings and connections -/

/-- The last unread event of a ring. -/
def lastEvent (ring : RingBuffer ℤ) : IcvEvt := (ring.buffer (place ring (ring.evtsem.toNat - 1))).evt

/-- Also where the ring is purged. -/
theorem pushToRing_last {ring : RingBuffer ℤ} (h : RingOk ring) (atom : RingAtom) :
    RingOk (pushToRing counterCalls ring atom).1 ∧ 0 < (pushToRing counterCalls ring atom).1.evtsem ∧
      lastEvent (pushToRing counterCalls ring atom).1 = atom.evt := by
  by_cases hfull : evtNb ≤ ring.evtsem
  · rw [pushToRing_purged hfull]
    refine ⟨purged_ok _, by norm_num, ?_⟩
    have hplace : ∀ buffer, place ⟨2, 0, 2, buffer⟩ 1 = 1 := fun _ => rfl
    simp [lastEvent, hplace]
  · obtain ⟨hok, hpos, hlast, hstored, -⟩ := pushToRing_not_full h (not_le.mp hfull) atom
    refine ⟨hok, hpos, ?_⟩
    rw [lastEvent, ← hlast, hstored]

section Delivery
variable {s t : Bookings} {line : ℕ}

/-- The event of an entry goes to the ring of its client, and to no other. -/
theorem deliverEntry_ring (s : Bookings) (line : ℕ) (sw1 : BitVec 16) (j chan : ℕ) :
    (∀ i, ((deliverEntry s line sw1 j chan).1.subs i).ring = (s.subs i).ring) ∧
      (∀ i, i ≠ (line, j) → (deliverEntry s line sw1 j chan).1.subs i = s.subs i) ∧
      (deliverEntry s line sw1 j chan).1.cmap = s.cmap ∧ (deliverEntry s line sw1 j chan).1.curNb = s.curNb ∧
      ((Pushes (s.subs (line, j)) ∧ ∃ sub w, (deliverEntry s line sw1 j chan).1.ring =
          Function.update s.ring chan (pushToRing counterCalls (s.ring chan) ⟨sub, lineEvent line w⟩).1) ∨
        (¬ Pushes (s.subs (line, j)) ∧ (deliverEntry s line sw1 j chan).1.ring = s.ring)) := by
  have hrings : ∀ subs : Subscriber, subs.ring = (s.subs (line, j)).ring →
      ∀ i, (Function.update s.subs (line, j) subs i).ring = (s.subs i).ring := by
    intro subs hsubs i
    rw [Function.update_apply]
    split
    · rename_i hi
      rw [hsubs, hi]
    · rfl
  have hothers : ∀ (subs : Subscriber) i, i ≠ (line, j) → Function.update s.subs (line, j) subs i = s.subs i :=
    fun _ _ hi => Function.update_of_ne hi ..
  by_cases hmode : (s.subs (line, j)).mode = .queuleuleu
  · by_cases hcount : (s.subs (line, j)).evtCounter = -1
    · simp only [deliverEntry, if_pos hcount, if_pos hmode]
      exact ⟨fun _ => rfl, fun _ _ => rfl, rfl, rfl, .inl ⟨.inl hmode, none, sw1, rfl⟩⟩
    · simp only [deliverEntry, if_neg hcount, if_pos hmode]
      exact ⟨hrings _ rfl, hothers _, rfl, rfl, .inl ⟨.inl hmode, none, _, rfl⟩⟩
  · by_cases hmsb : (s.subs (line, j)).evtCounter.msb = true
    · by_cases hcount : (s.subs (line, j)).evtCounter = -1
      · simp only [deliverEntry, if_pos hcount, if_neg hmode, if_pos hmsb]
        exact ⟨hrings _ rfl, hothers _, rfl, rfl, .inl ⟨.inr hmsb, some (line, j), 1, rfl⟩⟩
      · simp only [deliverEntry, if_neg hcount, if_neg hmode, if_pos hmsb]
        simp only [pushEvent, setSubscriber, Function.update_self, Function.update_idem]
        exact ⟨hrings _ rfl, hothers _, trivial, trivial, .inl ⟨.inr hmsb, some (line, j), 1, rfl⟩⟩
    · have hcount : (s.subs (line, j)).evtCounter ≠ -1 := by
        intro hcount
        rw [hcount] at hmsb
        exact hmsb (by decide)
      simp only [deliverEntry, if_neg hcount, if_neg hmode, if_neg hmsb]
      exact ⟨hrings _ rfl, hothers _, rfl, rfl, .inr ⟨fun hpush => hpush.elim hmode hmsb, rfl⟩⟩

/-- What the loop over the entries of a line does to the ring of a client that is connected to it. -/
theorem deliverLoop_ring (js : List ℕ) (hnodup : js.Nodup) (cs : ℤ) (sw1 : BitVec 16) (hb : Booked s)
    (hrings : ∀ c, RingOk (s.ring c)) (hcs : cs = js.countP fun j => (s.subs (line, j)).ring.isSome) :
    Booked (deliverLoop line js cs sw1 s) ∧ (∀ c, RingOk ((deliverLoop line js cs sw1 s).ring c)) ∧
      ∀ j chan, (s.subs (line, j)).ring = some chan →
        (j ∉ js → (deliverLoop line js cs sw1 s).ring chan = s.ring chan) ∧
        (j ∈ js → Pushes (s.subs (line, j)) → ∃ sub w, (deliverLoop line js cs sw1 s).ring chan =
          (pushToRing counterCalls (s.ring chan) ⟨sub, lineEvent line w⟩).1) := by
  induction js generalizing cs sw1 s with
  | nil => exact ⟨hb, hrings, fun j chan _ => ⟨fun _ => rfl, fun hj => absurd hj List.not_mem_nil⟩⟩
  | cons k js ih =>
    rw [List.nodup_cons] at hnodup
    rw [deliverLoop]
    split
    · rename_i hzero
      refine ⟨hb, hrings, fun j chan hj => ⟨fun _ => rfl, fun hmem => ?_⟩⟩
      have hnone : (k :: js).countP (fun j => (s.subs (line, j)).ring.isSome) = 0 := by omega
      rw [List.countP_eq_zero] at hnone
      exact absurd (by rw [hj]; rfl) (hnone j hmem)
    · cases hring : (s.subs (line, k)).ring with
      | none =>
        dsimp only
        have hcount : cs = js.countP fun j => (s.subs (line, j)).ring.isSome := by
          rw [hcs, List.countP_cons_of_neg (by simp [hring])]
        obtain ⟨hbooked, hok, hall⟩ := ih hnodup.2 cs sw1 hb hrings hcount
        refine ⟨hbooked, hok, fun j chan hj => ?_⟩
        have hjk : j ≠ k := by
          rintro rfl
          rw [hring] at hj
          cases hj
        rw [List.mem_cons, or_iff_right hjk]
        exact hall j chan hj
      | some c =>
        dsimp only
        obtain ⟨hsame, hothers, hcmap, hcur, hpush⟩ := deliverEntry_ring s line sw1 k c
        generalize deliverEntry s line sw1 k c = told at hsame hothers hcmap hcur hpush
        have hcount : cs - 1 = js.countP fun j => (told.1.subs (line, j)).ring.isSome := by
          simp only [hsame]
          rw [hcs, List.countP_cons_of_pos (by simp [hring])]
          push_cast
          ring
        have hrings' : ∀ c, RingOk (told.1.ring c) := by
          intro d
          rcases hpush with ⟨-, sub, w, hnew⟩ | ⟨-, hold⟩
          · rw [hnew, Function.update_apply]
            split
            · exact (pushToRing_last (hrings c) _).1
            · exact hrings d
          · rw [hold]
            exact hrings d
        have hfar : ∀ d, d ≠ c → told.1.ring d = s.ring d := by
          intro d hd
          rcases hpush with ⟨-, sub, w, hnew⟩ | ⟨-, hold⟩
          · rw [hnew, Function.update_of_ne hd]
          · rw [hold]
        obtain ⟨hbooked, hok, hall⟩ := ih hnodup.2 (cs - 1) told.2 (hb.frame hsame hcmap hcur) hrings' hcount
        refine ⟨hbooked, hok, fun j chan hj => ?_⟩
        obtain ⟨hout, hin⟩ := hall j chan (by rw [hsame]; exact hj)
        by_cases hjk : j = k
        · subst hjk
          obtain rfl : c = chan := Option.some.inj (hring.symm.trans hj)
          refine ⟨fun hmem => absurd (List.mem_cons_self ..) hmem, fun _ hpushes => ?_⟩
          rcases hpush with ⟨-, sub, w, hnew⟩ | ⟨hnot, -⟩
          · refine ⟨sub, w, ?_⟩
            rw [hout hnodup.1, hnew, Function.update_self]
          · exact absurd hpushes hnot
        · have hchan : chan ≠ c := by
            rintro rfl
            exact hjk (hb.single line j k chan hj hring)
          rw [List.mem_cons, or_iff_right hjk, ← hfar chan hchan]
          have hne : (line, j) ≠ (line, k) := fun heq => hjk (Prod.mk.inj heq).2
          rw [hothers _ hne] at hin
          exact ⟨hout, hin⟩

/-- An interrupt queues the event of an entry last in the ring of its client. -/
theorem deliverLine_ring (hb : Booked s) (hrings : ∀ c, RingOk (s.ring c)) (line : ℕ) (sw1 : BitVec 16) :
    Booked (deliverLine s line sw1) ∧ (∀ c, RingOk ((deliverLine s line sw1).ring c)) ∧
      ∀ j chan, (s.subs (line, j)).ring = some chan → Pushes (s.subs (line, j)) →
        0 < ((deliverLine s line sw1).ring chan).evtsem ∧
          ∃ w, lastEvent ((deliverLine s line sw1).ring chan) = lineEvent line w := by
  have hsubs : ∀ i, ((countTrigger s line).subs i).ring = (s.subs i).ring ∧
      (Pushes ((countTrigger s line).subs i) ↔ Pushes (s.subs i)) := by
    intro i
    simp only [countTrigger]
    split
    · exact ⟨rfl, Iff.rfl⟩
    · exact ⟨rfl, Iff.rfl⟩
  have hb' : Booked (countTrigger s line) := hb.frame (fun i => (hsubs i).1) rfl rfl
  obtain ⟨hbooked, hok, hall⟩ := deliverLoop_ring _ List.nodup_range _ sw1 hb' hrings (hb'.curNb line)
  refine ⟨hbooked, hok, fun j chan hj hpushes => ?_⟩
  have hj' : ((countTrigger s line).subs (line, j)).ring = some chan := (hsubs (line, j)).1.trans hj
  obtain ⟨sub, w, hring⟩ := (hall j chan hj').2 (List.mem_range.mpr (hb.entry line j chan hj))
    ((hsubs (line, j)).2.mpr hpushes)
  obtain ⟨-, hpos, hlast⟩ := pushToRing_last (hrings chan) ⟨sub, lineEvent line w⟩
  rw [deliverLine]
  change (deliverLoop line _ (s.curNb line) sw1 (countTrigger s line)).ring chan = _ at hring
  rw [hring]
  exact ⟨hpos, w, hlast⟩

theorem connectLine_kept (hb : Booked s) (hrings : ∀ c, RingOk (s.ring c)) {chan : ℕ} {cumul : Bool} :
    Booked (connectLine s chan line cumul) ∧ ∀ c, RingOk ((connectLine s chan line cumul).ring c) := by
  unfold connectLine
  split
  · exact ⟨hb, hrings⟩
  · rename_i hnew
    cases hbook : lineBooking s chan line cumul with
    | none => exact ⟨hb, hrings⟩
    | some t =>
      refine ⟨lineBooking_booked hb (Bool.eq_false_iff.mpr hnew) hbook, ?_⟩
      obtain ⟨j, -, rfl⟩ := Option.map_eq_some_iff.mp hbook
      exact hrings

theorem unlinkEvent_ok (hrings : ∀ c, RingOk (s.ring c)) (subs : Subscriber) (c : ℕ) :
    RingOk (unlinkEvent s subs c) := by
  cases hevt : subs.cumulEvt with
  | none =>
    simp only [unlinkEvent, hevt]
    exact hrings c
  | some evt =>
    simp only [unlinkEvent, hevt]
    rw [Function.update_apply]
    split
    · exact ⟨(hrings evt.1).reader, (hrings evt.1).nonneg, (hrings evt.1).le, (hrings evt.1).writer⟩
    · exact hrings c

theorem disconnectLine_kept (hb : Booked s) (hrings : ∀ c, RingOk (s.ring c)) {chan : ℕ} :
    Booked (disconnectLine s chan line) ∧ ∀ c, RingOk ((disconnectLine s chan line).ring c) := by
  unfold disconnectLine
  split
  · cases hbook : lineUnBooking s chan line with
    | none => exact ⟨hb, hrings⟩
    | some t =>
      refine ⟨lineUnBooking_booked hb hbook, fun c => ?_⟩
      obtain ⟨j, -, rfl⟩ := Option.map_eq_some_iff.mp hbook
      exact unlinkEvent_ok hrings _ c
  · exact ⟨hb, hrings⟩

/-- A pull changes one ring. -/
theorem pullFromRing_kept (hb : Booked s) (hrings : ∀ c, RingOk (s.ring c)) {chan : ℕ} {evt : IcvEvt}
    (hpull : pullFromRing s chan = some (evt, t)) :
    (Booked t ∧ ∀ c, RingOk (t.ring c)) ∧ ∀ c, c ≠ chan → t.ring c = s.ring c := by
  have hnonneg := (hrings chan).nonneg
  by_cases hzero : (s.ring chan).evtsem = 0
  · rw [pullFromRing, counterPull_empty hzero] at hpull
    cases hpull
  have hpos : 0 < (s.ring chan).evtsem := by omega
  rw [pullFromRing, counterPull_atom (hrings chan) hpos] at hpull
  have htaken : ∀ c, RingOk (Function.update s.ring chan { s.ring chan with
      evtsem := (s.ring chan).evtsem - 1, reader := ((s.ring chan).reader + 1) % evtNb } c) := by
    intro c
    rw [Function.update_apply]
    split
    · exact takeAtom_ok (hrings chan) hpos
    · exact hrings c
  cases hsub : ((s.ring chan).buffer (place (s.ring chan) 0)).subscriber with
  | none =>
    simp only [hsub, Option.some.injEq, Prod.mk.injEq] at hpull
    obtain ⟨-, rfl⟩ := hpull
    exact ⟨⟨hb.frame (fun _ => rfl) rfl rfl, htaken⟩, fun c hc => Function.update_of_ne hc ..⟩
  | some l =>
    simp only [hsub, Option.some.injEq, Prod.mk.injEq] at hpull
    obtain ⟨-, rfl⟩ := hpull
    refine ⟨⟨hb.frame (fun i => ?_) rfl rfl, htaken⟩, fun c hc => Function.update_of_ne hc ..⟩
    dsimp only
    rw [Function.update_apply]
    split
    · rename_i hi
      rw [hi]
    · rfl

theorem readEvents_kept (longs : ℕ) (hb : Booked s) (hrings : ∀ c, RingOk (s.ring c)) (chan : ℕ) :
    (Booked (readEvents chan longs s).2 ∧ ∀ c, RingOk ((readEvents chan longs s).2.ring c)) ∧
      ∀ c, c ≠ chan → (readEvents chan longs s).2.ring c = s.ring c := by
  induction longs generalizing s with
  | zero => exact ⟨⟨hb, hrings⟩, fun _ _ => rfl⟩
  | succ longs ih =>
    rw [readEvents]
    cases hpull : pullFromRing s chan with
    | none => exact ⟨⟨hb, hrings⟩, fun _ _ => rfl⟩
    | some pulled =>
      obtain ⟨⟨hb', hrings'⟩, hfar⟩ := pullFromRing_kept hb hrings hpull
      obtain ⟨hkept, hfar'⟩ := ih hb' hrings'
      exact ⟨hkept, fun c hc => (hfar' c hc).trans (hfar c hc)⟩

end Delivery

/-! ## Reads on a minor -/

section Minors
variable {s t : Bookings} {act : MinorStep} {minor longs k m i : ℕ}

theorem readHdl_eq_some (h : readHdl minor = some k) : minor = k + 1 := by
  unfold readHdl icvvmeIcvChan01 at h
  obtain ⟨hrange, heq⟩ := Option.ite_none_right_eq_some.mp h
  have := Option.some.inj heq
  omega

theorem minorStep_kept (h : Booked s ∧ ∀ c, RingOk (s.ring c)) (hnext : minorStep s act = some t) :
    Booked t ∧ ∀ c, RingOk (t.ring c) := by
  obtain ⟨hb, hrings⟩ := h
  cases act with
  | connect minor module index cumul =>
    rw [← Option.some.inj hnext]
    exact connectLine_kept hb hrings
  | disconnect minor module index =>
    rw [← Option.some.inj hnext]
    exact disconnectLine_kept hb hrings
  | interrupt line sw1 =>
    rw [← Option.some.inj hnext]
    obtain ⟨hb', hrings', -⟩ := deliverLine_ring hb hrings line sw1
    exact ⟨hb', hrings'⟩
  | read minor longs =>
    rw [← Option.some.inj hnext]
    unfold icv196Read
    cases readHdl minor with
    | none => exact ⟨hb, hrings⟩
    | some chan => exact (readEvents_kept longs hb hrings chan).1

theorem minors_kept (h : Reach minorStep (fun _ _ => True) bookingsInit s) : Booked s ∧ ∀ c, RingOk (s.ring c) :=
  h.invariant (I := fun s => Booked s ∧ ∀ c, RingOk (s.ring c))
    ⟨bookingsInit_booked, bookingsInit_linked.rings⟩ fun _ _ _ hs _ hnext => minorStep_kept hs hnext

theorem icv196Read_ring (h : Booked s ∧ ∀ c, RingOk (s.ring c)) {evts : List IcvEvt}
    (hread : icv196Read s minor longs = some (evts, t)) (hne : minor ≠ k + 1) : t.ring k = s.ring k := by
  obtain ⟨chan, hchan, hevents⟩ := Option.map_eq_some_iff.mp hread
  have hother : k ≠ chan := by
    rintro rfl
    exact hne (readHdl_eq_some hchan)
  have hkept := (readEvents_kept longs h.1 h.2 chan).2 k hother
  rw [hevents] at hkept
  exact hkept

theorem lineEvent_bytes (hm : m < icvModuleNb) (hi : i < icvLineNb) (w : BitVec 16) :
    (lineEvent (cnvrtUserLine m i) w).group.toNat = m ∧
    ((lineEvent (cnvrtUserLine m i) w).index.toNat = i ↔ i < 12) := by
  unfold cnvrtUserLine lineEvent userLineAdd icvModuleNb icvLineNb at *
  have hdiv : (m * 16 + i) / 16 = m := by omega
  have hmod : (m * 16 + i) % 16 = i := by omega
  dsimp only
  rw [hdiv, hmod, BitVec.toNat_ofNat, BitVec.toNat_ofNat]
  refine ⟨by omega, ?_⟩
  split
  · omega
  · omega

/-- A read with enough room gets to the last event of its ring. -/
theorem readEvents_last (hrings : ∀ c, RingOk (s.ring c)) {chan : ℕ} (hpos : 0 < (s.ring chan).evtsem)
    (hroom : (s.ring chan).evtsem.toNat ≤ longs) :
    ∃ evt ∈ (readEvents chan longs s).1, evt.group = (lastEvent (s.ring chan)).group ∧
    evt.index = (lastEvent (s.ring chan)).index := by
  induction longs generalizing s with
  | zero => omega
  | succ longs ih =>
    have hpull : ∃ evt t, pullFromRing s chan = some (evt, t) ∧ t.ring = Function.update s.ring chan { s.ring chan with
        evtsem := (s.ring chan).evtsem - 1, reader := ((s.ring chan).reader + 1) % evtNb } ∧
        evt.group = ((s.ring chan).buffer (place (s.ring chan) 0)).evt.group ∧
        evt.index = ((s.ring chan).buffer (place (s.ring chan) 0)).evt.index := by
      rw [pullFromRing, counterPull_atom (hrings chan) hpos]
      cases hsub : ((s.ring chan).buffer (place (s.ring chan) 0)).subscriber with
      | none =>
        simp only [hsub]
        exact ⟨_, _, rfl, rfl, rfl, rfl⟩
      | some l =>
        simp only [hsub]
        exact ⟨_, _, rfl, rfl, rfl, rfl⟩
    obtain ⟨evt, t, hpull, hring, hgroup, hindex⟩ := hpull
    simp only [readEvents, hpull]
    by_cases hlast : (s.ring chan).evtsem = 1
    · refine ⟨evt, List.mem_cons_self .., ?_⟩
      rw [lastEvent, hlast]
      exact ⟨hgroup, hindex⟩
    · have hrings' : ∀ c, RingOk (t.ring c) := by
        intro c
        rw [hring, Function.update_apply]
        split
        · exact takeAtom_ok (hrings chan) hpos
        · exact hrings c
      have hchan : t.ring chan = { s.ring chan with
          evtsem := (s.ring chan).evtsem - 1, reader := ((s.ring chan).reader + 1) % evtNb } := by
        rw [hring, Function.update_self]
      have hsame : lastEvent (t.ring chan) = lastEvent (s.ring chan) := by
        have hk : ((s.ring chan).evtsem - 1).toNat - 1 + 1 = (s.ring chan).evtsem.toNat - 1 := by omega
        rw [hchan, lastEvent, place_takeAtom]
        dsimp only
        rw [hk]
        rfl
      obtain ⟨evt', hmem, hbytes⟩ := ih hrings' (by rw [hchan]; dsimp only; omega) (by rw [hchan]; dsimp only; omega)
      rw [hsame] at hbytes
      exact ⟨evt', List.mem_cons_of_mem evt hmem, hbytes⟩

/-- On no minor do the calls agree on the handle: an event for a client is read on the next minor, and on that one only.
-/
theorem minorEvents_elsewhere (h : Reach minorStep (fun _ _ => True) bookingsInit s) (hk : 1 ≤ k) :
    ¬ (readHdl k = some (callHdl k) ∧ callHdl k < skelDrvrClientContexts) ∧
    (k < skelDrvrClientContexts → ∀ m < icvModuleNb, ∀ i < icvLineNb, ∀ j sw1,
      (s.subs (cnvrtUserLine m i, j)).ring = some (callHdl k) → Pushes (s.subs (cnvrtUserLine m i, j)) →
      ∃ w, lastEvent ((deliverLine s (cnvrtUserLine m i) sw1).ring (callHdl k)) = lineEvent (cnvrtUserLine m i) w ∧
        (lineEvent (cnvrtUserLine m i) w).group.toNat = m ∧
        ((lineEvent (cnvrtUserLine m i) w).index.toNat = i ↔ i < 12) ∧
        ∃ evts t, icv196Read (deliverLine s (cnvrtUserLine m i) sw1) (k + 1) evtNb = some (evts, t) ∧
          ∃ evt ∈ evts, evt.group = (lineEvent (cnvrtUserLine m i) w).group ∧
          evt.index = (lineEvent (cnvrtUserLine m i) w).index) ∧
    ∀ minor longs evts t, minor ≠ k + 1 → icv196Read s minor longs = some (evts, t) →
      t.ring (callHdl k) = s.ring (callHdl k) := by
  have hs := minors_kept h
  refine ⟨?_, ?_, fun minor longs evts t hne hread => icv196Read_ring hs hread hne⟩
  · rintro ⟨hread, -⟩
    have hnext := readHdl_eq_some hread
    unfold callHdl at hnext
    omega
  · intro hlt m hm i hi j sw1 hring hpushes
    obtain ⟨-, hrings, hqueued⟩ := deliverLine_ring hs.1 hs.2 (cnvrtUserLine m i) sw1
    obtain ⟨hpos, w, hlast⟩ := hqueued j (callHdl k) hring hpushes
    obtain ⟨hgroup, hindex⟩ := lineEvent_bytes hm hi w
    refine ⟨w, hlast, hgroup, hindex, ?_⟩
    have hhdl : readHdl (k + 1) = some (callHdl k) := by
      unfold readHdl icvvmeIcvChan01 callHdl
      rw [if_pos ⟨by omega, hlt⟩, Nat.add_sub_cancel]
    have hroom : ((deliverLine s (cnvrtUserLine m i) sw1).ring (callHdl k)).evtsem.toNat ≤ evtNb := by
      have hle := (hrings (callHdl k)).le
      omega
    obtain ⟨evt, hmem, hbytes⟩ := readEvents_last hrings hpos hroom
    rw [hlast] at hbytes
    have hread : icv196Read (deliverLine s (cnvrtUserLine m i) sw1) (k + 1) evtNb =
        some (readEvents (callHdl k) evtNb (deliverLine s (cnvrtUserLine m i) sw1)) := by
      unfold icv196Read
      rw [hhdl]
      rfl
    exact ⟨_, _, hread, evt, hmem, hbytes⟩

end Minors

/-- A client connects to line 0 on minor 1, and the line triggers. -/
def queuedForOne : Option Bookings := [.connect 1 0 0 false, .interrupt 0 0].foldlM minorStep bookingsInit

theorem queuedForOne_isSome : queuedForOne.isSome = true := rfl

theorem queuedForOne_reached : Reach minorStep (fun _ _ => True) bookingsInit (queuedForOne.get queuedForOne_isSome) :=
  Reach.refl.of_foldlM (fun _ _ _ => trivial) (Option.some_get queuedForOne_isSome).symm

theorem minorEvents_elsewhere_one :
    ¬ (readHdl 1 = some (callHdl 1) ∧ callHdl 1 < skelDrvrClientContexts) ∧ ∃ w,
      lastEvent ((deliverLine (queuedForOne.get queuedForOne_isSome) (cnvrtUserLine 0 0) 0).ring (callHdl 1)) =
        lineEvent (cnvrtUserLine 0 0) w := by
  obtain ⟨hhdl, hevents, -⟩ := minorEvents_elsewhere queuedForOne_reached (le_refl 1)
  obtain ⟨w, hlast, -⟩ := hevents (by decide) 0 (by decide) 0 (by decide) 0 0 (by decide) (.inl (by decide))
  exact ⟨hhdl, w, hlast⟩

/-- The read on the minor of the client finds nothing, and the one on the next minor gets the event. -/
theorem minorEvents_swapped :
    (icv196Read (queuedForOne.get queuedForOne_isSome) 1 8).map Prod.fst = some [] ∧
      (icv196Read (queuedForOne.get queuedForOne_isSome) 2 8).map Prod.fst = some [lineEvent 0 1] := by
  constructor
  · decide
  · decide

end HtDrivers.Icv196
