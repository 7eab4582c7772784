import HtDrivers.Icv196.CumulEvents
import HtDrivers.Lib.Transition

/-! Cumulative events of the ICV196 over runs of connections, interrupts and reads. As long as no full ring drops an
event that a subscriber still counts in, every trigger is counted in an event that is read later. -/
namespace HtDrivers.Icv196
open HtDrivers.Lib.Transition
set_option autoImplicit false

/-! ## Connections and reads -/

section Clients
variable {s t : Bookings} {chan line j k : ℕ} {i : ℕ × ℕ} {evt : IcvEvt}

theorem lineBooking_linked (h : Linked 0 s) {cumul : Bool} (hbook : lineBooking s chan line cumul = some t) :
    Linked 0 t ∧ t.ring = s.ring ∧ ∀ i, (s.subs i).ring ≠ none → t.subs i = s.subs i := by
  obtain ⟨j, hfind, rfl⟩ := Option.map_eq_some_iff.mp hbook
  obtain ⟨-, hfree⟩ := findSubscriber_eq_some hfind
  have hnone := (h.entries (line, j)).unlinked fun c hc => by rw [hfree] at hc; cases hc
  refine ⟨⟨h.rings, fun i => ?_⟩, rfl, fun i hi => Function.update_of_ne ?_ ..⟩
  swap
  · rintro rfl
    exact hi hfree
  dsimp only
  by_cases hi : i = (line, j)
  · subst hi
    rw [Function.update_self]
    apply EntryOk.of_unlinked hnone rfl
    · intro hmode
      cases cumul with
      | false => cases hmode
      | true => exact ⟨rfl, rfl⟩
    · intro c _ hmode
      cases cumul with
      | false => exact ⟨rfl, BitVec.msb_zero⟩
      | true => exact absurd rfl hmode
  · rw [Function.update_of_ne hi]
    exact h.entries i

/-- The pointer of an entry hits the event that is linked to it. -/
theorem unlinkEvent_spec (h : Linked 0 s) (hring : (s.subs i).ring = some chan) :
    (∀ c, RingOk (unlinkEvent s (s.subs i) c)) ∧ (∀ c m, ¬ LinkedAt (unlinkEvent s (s.subs i) c) m i) ∧
      ∀ c m l, l ≠ i → (LinkedAt (unlinkEvent s (s.subs i) c) m l ↔ LinkedAt (s.ring c) m l) ∧
        (LinkedAt (s.ring c) m l → place (unlinkEvent s (s.subs i) c) m = place (s.ring c) m ∧
          (unlinkEvent s (s.subs i) c).buffer (place (s.ring c) m) = (s.ring c).buffer (place (s.ring c) m)) := by
  have hentry := h.entries i
  cases hevt : (s.subs i).cumulEvt with
  | none =>
    have hsame : unlinkEvent s (s.subs i) = s.ring := by
      simp only [unlinkEvent, hevt]
    rw [hsame]
    refine ⟨h.rings, ?_, fun c m l _ => ⟨Iff.rfl, fun _ => ⟨rfl, rfl⟩⟩⟩
    intro c m hlink
    have hsome := (hentry.links c m hlink).2.1
    rw [hevt] at hsome
    cases hsome
  | some evt =>
    obtain ⟨-, hmode, hcount⟩ := hentry.free (by rw [hevt]; exact Option.some_ne_none _)
    obtain ⟨k, hk⟩ := hentry.pending chan hring hmode hcount
    obtain rfl : evt = (chan, place (s.ring chan) k) := Option.some.inj (hevt.symm.trans (hentry.links chan k hk).2.1)
    simp only [unlinkEvent, hevt]
    refine ⟨fun c => ?_, fun c m => ?_, fun c m l hl => ?_⟩
    · rw [Function.update_apply]
      split
      · exact ⟨(h.rings chan).reader, (h.rings chan).nonneg, (h.rings chan).le, (h.rings chan).writer⟩
      · exact h.rings c
    · by_cases hc : c = chan
      · subst hc
        rw [Function.update_self]
        rintro ⟨hm, hsub⟩
        change (Function.update (s.ring c).buffer _ _ (place (s.ring c) m)).subscriber = _ at hsub
        rw [Function.update_apply] at hsub
        split at hsub
        · cases hsub
        · rename_i hne
          exact hne (by rw [hentry.unique (h.rings c) ⟨hm, hsub⟩ hk])
      · rw [Function.update_of_ne hc]
        intro hlink
        exact hc (Option.some.inj ((hentry.links c m hlink).1.1.symm.trans hring))
    · by_cases hc : c = chan
      · subst hc
        have hother : ∀ m, LinkedAt (s.ring c) m l → place (s.ring c) m ≠ place (s.ring c) k := by
          intro m hm heq
          have hsub := hm.2
          rw [heq, hk.2] at hsub
          exact hl (Option.some.inj hsub).symm
        rw [Function.update_self]
        refine ⟨⟨?_, ?_⟩, fun hm => ⟨rfl, Function.update_of_ne (hother m hm) ..⟩⟩
        · rintro ⟨hm, hsub⟩
          change (Function.update (s.ring c).buffer _ _ (place (s.ring c) m)).subscriber = _ at hsub
          rw [Function.update_apply] at hsub
          split at hsub
          · cases hsub
          · exact ⟨hm, hsub⟩
        · intro hm
          refine ⟨hm.1, ?_⟩
          change (Function.update (s.ring c).buffer _ _ (place (s.ring c) m)).subscriber = _
          rw [Function.update_of_ne (hother m hm)]
          exact hm.2
      · rw [Function.update_of_ne hc]
        exact ⟨Iff.rfl, fun _ => ⟨rfl, rfl⟩⟩

theorem lineUnBooking_linked (h : Linked 0 s) (hbook : lineUnBooking s chan line = some t) :
    Linked 0 t ∧ ∀ i, (s.subs i).ring ≠ some chan ∨ i.1 ≠ line →
      t.subs i = s.subs i ∧ ∀ c m, LinkedAt (s.ring c) m i → LinkedAt (t.ring c) m i := by
  obtain ⟨j, hfind, rfl⟩ := Option.map_eq_some_iff.mp hbook
  obtain ⟨-, hused⟩ := findSubscriber_eq_some hfind
  obtain ⟨hrings, hnone, hothers⟩ := unlinkEvent_spec h hused
  constructor
  · refine ⟨hrings, fun i => ?_⟩
    dsimp only
    by_cases hi : i = (line, j)
    · subst hi
      rw [Function.update_self]
      exact EntryOk.of_unlinked hnone rfl (fun hmode => by cases hmode) (fun _ hc => by cases hc)
    · rw [Function.update_of_ne hi]
      apply (h.entries i).rings_congr
      · intro c m hlink
        rw [(hothers c m i hi).1] at hlink
        exact ⟨m, hlink, (hothers c m i hi).2 hlink⟩
      · intro c m hlink
        exact ⟨m, (hothers c m i hi).1.mpr hlink⟩
  · intro i hi
    have hne : i ≠ (line, j) := by
      rintro rfl
      exact hi.elim (fun hne => hne hused) fun hne => hne rfl
    exact ⟨Function.update_of_ne hne .., fun c m hlink => (hothers c m i hne).1.mpr hlink⟩

theorem pullFromRing_some (h : RingOk (s.ring chan)) (hpos : 0 < (s.ring chan).evtsem) :
    ∃ pulled, pullFromRing s chan = some pulled := by
  rw [pullFromRing, counterPull_atom h hpos]
  cases hsub : ((s.ring chan).buffer (place (s.ring chan) 0)).subscriber with
  | none =>
    simp only [hsub]
    exact ⟨_, rfl⟩
  | some i =>
    simp only [hsub]
    exact ⟨_, rfl⟩

/-- The rings once the first unread event of a client is taken. -/
def takenRings (s : Bookings) (chan : ℕ) : ℕ → RingBuffer ℤ :=
  Function.update s.ring chan
    { s.ring chan with evtsem := (s.ring chan).evtsem - 1, reader := ((s.ring chan).reader + 1) % evtNb }

theorem takenRings_ok (h : Linked 0 s) (hpos : 0 < (s.ring chan).evtsem) (c : ℕ) : RingOk (takenRings s chan c) := by
  unfold takenRings
  rw [Function.update_apply]
  split
  · exact takeAtom_ok (h.rings chan) hpos
  · exact h.rings c

theorem takenRings_self (hpos : 0 < (s.ring chan).evtsem) :
    LinkedAt (takenRings s chan chan) k i ↔ LinkedAt (s.ring chan) (k + 1) i := by
  unfold takenRings
  rw [Function.update_self, linkedAt_takeAtom hpos]

theorem takenRings_other {c : ℕ} (hc : c ≠ chan) : takenRings s chan c = s.ring c := Function.update_of_ne hc ..

/-- An entry that the event is not linked to keeps its own. -/
theorem EntryOk.taken {subs : Subscriber} (h : EntryOk s.ring 0 i subs) (hpos : 0 < (s.ring chan).evtsem)
    (hi : ¬LinkedAt (s.ring chan) 0 i) : EntryOk (takenRings s chan) 0 i subs := by
  apply h.rings_congr
  · intro c k hlink
    by_cases hc : c = chan
    · subst hc
      refine ⟨k + 1, (takenRings_self hpos).mp hlink, ?_⟩
      unfold takenRings
      rw [Function.update_self]
      exact ⟨place_takeAtom k, rfl⟩
    · rw [takenRings_other hc] at hlink ⊢
      exact ⟨k, hlink, rfl, rfl⟩
  · intro c m hlink
    by_cases hc : c = chan
    · subst hc
      cases m with
      | zero => exact absurd hlink hi
      | succ m => exact ⟨m, (takenRings_self hpos).mpr hlink⟩
    · rw [takenRings_other hc]
      exact ⟨m, hlink⟩

/-- The entry that the event is linked to has no other event, in no ring. -/
theorem Linked.only_first (h : Linked 0 s) (hi : LinkedAt (s.ring chan) 0 i) {c : ℕ} (hk : LinkedAt (s.ring c) k i) :
    c = chan ∧ k = 0 := by
  obtain rfl := Option.some.inj (((h.entries i).links c k hk).1.1.symm.trans ((h.entries i).links chan 0 hi).1.1)
  exact ⟨rfl, (h.entries i).unique (h.rings c) hk hi⟩

/-- It starts anew when the event is taken. -/
theorem EntryOk.restarted (h : Linked 0 s) (hpos : 0 < (s.ring chan).evtsem) (hi : LinkedAt (s.ring chan) 0 i) :
    EntryOk (takenRings s chan) 0 i { s.subs i with cumulEvt := none, evtCounter := -1, triggers := 0 } := by
  have hcumul := ((h.entries i).links chan 0 hi).1.2.1
  refine EntryOk.of_unlinked ?_ rfl (fun _ => ⟨rfl, rfl⟩) fun _ _ hmode => absurd hcumul hmode
  intro c k hlink
  by_cases hc : c = chan
  · subst hc
    have := (h.only_first hi ((takenRings_self hpos).mp hlink)).2
    omega
  · rw [takenRings_other hc] at hlink
    exact hc (h.only_first hi hlink).1

/-- A pull takes the first unread event; the others move up by one. -/
theorem pullFromRing_linked (h : Linked 0 s) (hpull : pullFromRing s chan = some (evt, t)) :
    Linked 0 t ∧ (t.cmap = s.cmap ∧ t.curNb = s.curNb ∧ ∀ i, (t.subs i).ring = (s.subs i).ring) ∧
      (∀ k i, LinkedAt (s.ring chan) (k + 1) i → LinkedAt (t.ring chan) k i ∧ t.subs i = s.subs i) ∧
      (∀ c k i, c ≠ chan → LinkedAt (s.ring c) k i → LinkedAt (t.ring c) k i ∧ t.subs i = s.subs i) ∧
      ∀ i, LinkedAt (s.ring chan) 0 i → evt = lineEvent i.1 (s.subs i).evtCounter := by
  have hok := h.rings chan
  have hnonneg := hok.nonneg
  by_cases hzero : (s.ring chan).evtsem = 0
  · rw [pullFromRing, counterPull_empty hzero] at hpull
    cases hpull
  have hpos : 0 < (s.ring chan).evtsem := by omega
  have hrings := takenRings_ok h hpos
  have hother : ∀ c k i, c ≠ chan → LinkedAt (s.ring c) k i → LinkedAt (takenRings s chan c) k i := by
    intro c k i hc hlink
    rw [takenRings_other hc]
    exact hlink
  rw [pullFromRing, counterPull_atom hok hpos] at hpull
  cases hsub : ((s.ring chan).buffer (place (s.ring chan) 0)).subscriber with
  | none =>
    have hnot : ∀ i, ¬ LinkedAt (s.ring chan) 0 i := by
      intro i hi
      have hsome := hi.2
      rw [hsub] at hsome
      cases hsome
    simp only [hsub, Option.some.injEq, Prod.mk.injEq] at hpull
    obtain ⟨-, rfl⟩ := hpull
    exact ⟨⟨hrings, fun i => (h.entries i).taken hpos (hnot i)⟩, ⟨rfl, rfl, fun _ => rfl⟩,
      fun k i hk => ⟨(takenRings_self hpos).mpr hk, rfl⟩, fun c k i hc hk => ⟨hother c k i hc hk, rfl⟩,
      fun i hi => absurd hi (hnot i)⟩
  | some l =>
    have hl : LinkedAt (s.ring chan) 0 l := ⟨by omega, hsub⟩
    have honly : ∀ i, LinkedAt (s.ring chan) 0 i → i = l := by
      intro i hi
      exact Option.some.inj (hi.2.symm.trans hsub)
    simp only [hsub, Option.some.injEq, Prod.mk.injEq] at hpull
    obtain ⟨rfl, rfl⟩ := hpull
    refine ⟨⟨hrings, fun i => ?_⟩, ⟨rfl, rfl, fun i => ?_⟩, fun k i hk => ⟨(takenRings_self hpos).mpr hk, ?_⟩,
      fun c k i hc hk => ⟨hother c k i hc hk, ?_⟩, fun i hi => ?_⟩
    · dsimp only
      by_cases hi : i = l
      · subst hi
        rw [Function.update_self]
        exact EntryOk.restarted h hpos hl
      · rw [Function.update_of_ne hi]
        exact (h.entries i).taken hpos fun hi' => hi (honly i hi')
    · dsimp only
      rw [Function.update_apply]
      split
      · rename_i hi
        rw [hi]
      · rfl
    · refine Function.update_of_ne ?_ ..
      rintro rfl
      exact absurd (h.only_first hl hk).2 (Nat.succ_ne_zero k)
    · refine Function.update_of_ne ?_ ..
      rintro rfl
      exact hc (h.only_first hl hk).1
    · rw [honly i hi, ((h.entries l).links chan 0 hl).2.2]
      rfl

end Clients

/-! ## Runs -/

inductive BookingStep
  | connect (chan line : ℕ) (cumul : Bool)
  | disconnect (chan line : ℕ)
  | interrupt (line : ℕ) (sw1 : BitVec 16)
  | pull (chan : ℕ)
deriving DecidableEq

def BookingStep.isTrigger (line : ℕ) : BookingStep → Bool
  | .interrupt l _ => l = line
  | _ => false

def bookingStep (s : Bookings) : BookingStep → Option Bookings
  | .connect chan line cumul => some (connectLine s chan line cumul)
  | .disconnect chan line => some (disconnectLine s chan line)
  | .interrupt line sw1 => some (deliverLine s line sw1)
  | .pull chan => some (((pullFromRing s chan).map Prod.snd).getD s)

/-- An interrupt purges no ring in which an unread event is linked to a subscriber. -/
def NoPurge (s : Bookings) : BookingStep → Prop
  | .interrupt line _ => ∀ j, KeepsLinks s (line, j)
  | _ => True

def Cumulates (s : Bookings) (i : ℕ × ℕ) (chan : ℕ) : Prop := (s.subs i).ring = some chan ∧
    (s.subs i).mode = .cumulative

/-- The `k`th unread event of the client is linked to its entry. -/
def Awaits (s : Bookings) (i : ℕ × ℕ) (chan k : ℕ) : Prop := Cumulates s i chan ∧ LinkedAt (s.ring chan) k i

section Runs
variable {s t : Bookings} {act : BookingStep} {i : ℕ × ℕ} {chan k : ℕ}

theorem bookingStep_kept (h : Linked 0 s) (hb : Booked s) (hok : NoPurge s act) (hnext : bookingStep s act = some t) :
    Linked 0 t ∧ Booked t := by
  cases act with
  | connect chan line cumul =>
    rw [← Option.some.inj hnext, connectLine]
    split
    · exact ⟨h, hb⟩
    · rename_i hnew
      cases hbook : lineBooking s chan line cumul with
      | none => exact ⟨h, hb⟩
      | some u => exact ⟨(lineBooking_linked h hbook).1, lineBooking_booked hb (by simpa using hnew) hbook⟩
  | disconnect chan line =>
    rw [← Option.some.inj hnext, disconnectLine]
    split
    · cases hbook : lineUnBooking s chan line with
      | none => exact ⟨h, hb⟩
      | some u => exact ⟨(lineUnBooking_linked h hbook).1, lineUnBooking_booked hb hbook⟩
    · exact ⟨h, hb⟩
  | interrupt line sw1 =>
    rw [← Option.some.inj hnext]
    obtain ⟨hl, hbook, -⟩ := deliverLine_linked h hb hok sw1
    exact ⟨hl, hbook⟩
  | pull chan =>
    rw [← Option.some.inj hnext]
    cases hpull : pullFromRing s chan with
    | none => exact ⟨h, hb⟩
    | some pulled =>
      obtain ⟨hl, ⟨hcmap, hcur, hring⟩, -⟩ := pullFromRing_linked h hpull
      exact ⟨hl, hb.frame hring hcmap hcur⟩

/-- How an event that is not delivered yet fares in one step. -/
theorem bookingStep_awaits (h : Linked 0 s) (hb : Booked s) (hok : NoPurge s act) (hnext : bookingStep s act = some t)
    (hwait : Awaits s i chan k) (hcon : act ≠ .disconnect chan i.1) (hturn : act = .pull chan → k ≠ 0) :
    Awaits t i chan (k - if act = .pull chan then 1 else 0) ∧
      (t.subs i).triggers = (s.subs i).triggers + if act.isTrigger i.1 then 1 else 0 := by
  obtain ⟨hcumul, hlink⟩ := hwait
  cases act with
  | connect c line cumul =>
    have hsame : (t.ring = s.ring) ∧ t.subs i = s.subs i := by
      rw [← Option.some.inj hnext, connectLine]
      split
      · exact ⟨rfl, rfl⟩
      · cases hbook : lineBooking s c line cumul with
        | none => exact ⟨rfl, rfl⟩
        | some u =>
          obtain ⟨-, hring, hsubs⟩ := lineBooking_linked h hbook
          refine ⟨hring, hsubs i ?_⟩
          rw [hcumul.1]
          exact Option.some_ne_none chan
    simp only [Awaits, Cumulates, hsame.1, hsame.2, reduceCtorEq, if_false, Nat.sub_zero, BookingStep.isTrigger,
      Bool.false_eq_true, Nat.add_zero, and_true]
    exact ⟨hcumul, hlink⟩
  | disconnect c line =>
    have hsame : t.subs i = s.subs i ∧ LinkedAt (t.ring chan) k i := by
      rw [← Option.some.inj hnext, disconnectLine]
      split
      · cases hbook : lineUnBooking s c line with
        | none => exact ⟨rfl, hlink⟩
        | some u =>
          have hne : (s.subs i).ring ≠ some c ∨ i.1 ≠ line := by
            by_contra hboth
            simp only [not_or, not_not] at hboth
            obtain rfl : c = chan := Option.some.inj (hboth.1.symm.trans hcumul.1)
            exact hcon (by rw [hboth.2])
          obtain ⟨hsubs, hlinks⟩ := (lineUnBooking_linked h hbook).2 i hne
          exact ⟨hsubs, hlinks chan k hlink⟩
      · exact ⟨rfl, hlink⟩
    simp only [Awaits, Cumulates, hsame.1, reduceCtorEq, if_false, Nat.sub_zero, BookingStep.isTrigger,
      Bool.false_eq_true, Nat.add_zero, and_true]
    exact ⟨hcumul, hsame.2⟩
  | interrupt line sw1 =>
    rw [← Option.some.inj hnext]
    obtain ⟨-, -, htold⟩ := deliverLine_linked h hb hok sw1
    obtain ⟨hring, hmode⟩ := htold.fixed i
    refine ⟨⟨⟨hring.trans hcumul.1, hmode.trans hcumul.2⟩, ?_⟩, ?_⟩
    · exact htold.linked chan k i hlink
    · rw [htold.triggers i, hcumul.1]
      simp [BookingStep.isTrigger, eq_comm]
  | pull c =>
    have hpos : pullFromRing s c = none → c ≠ chan := by
      rintro hnone rfl
      have hlt := hlink.1
      obtain ⟨pulled, hpull⟩ := pullFromRing_some (h.rings c) (by omega)
      rw [hpull] at hnone
      cases hnone
    have hsame : t.subs i = s.subs i ∧ LinkedAt (t.ring chan) (k - if c = chan then 1 else 0) i := by
      rw [← Option.some.inj hnext]
      cases hpull : pullFromRing s c with
      | none =>
        rw [if_neg (hpos hpull)]
        exact ⟨rfl, hlink⟩
      | some pulled =>
        obtain ⟨-, -, hown, hother, -⟩ := pullFromRing_linked h hpull
        by_cases hc : c = chan
        · subst hc
          obtain ⟨m, rfl⟩ := Nat.exists_eq_succ_of_ne_zero (hturn rfl)
          obtain ⟨hl, hsubs⟩ := hown m i hlink
          rw [if_pos rfl]
          exact ⟨hsubs, hl⟩
        · obtain ⟨hl, hsubs⟩ := hother chan k i (fun heq => hc heq.symm) hlink
          rw [if_neg hc]
          exact ⟨hsubs, hl⟩
    simp only [Awaits, Cumulates, hsame.1, BookingStep.pull.injEq, BookingStep.isTrigger, Bool.false_eq_true, if_false,
      Nat.add_zero, and_true]
    exact ⟨hcumul, hsame.2⟩

/-- The event is the next of its client after so many pulls, with every trigger that came till then. -/
theorem awaits_delivered {acts : List BookingStep} (hpath : Path bookingStep NoPurge s acts t) (h : Linked 0 s)
    (hb : Booked s) (hwait : Awaits s i chan (acts.count (.pull chan))) (hcon : .disconnect chan i.1 ∉ acts) :
    (t.subs i).triggers = (s.subs i).triggers + acts.countP (·.isTrigger i.1) ∧
      ∃ u, pullFromRing t chan = some (lineEvent i.1 (countOf (t.subs i).triggers), u) := by
  induction hpath with
  | nil s =>
    refine ⟨rfl, ?_⟩
    obtain ⟨hcumul, hlink⟩ := hwait
    have hpos : 0 < (s.ring chan).evtsem.toNat := hlink.1
    obtain ⟨pulled, hpull⟩ := pullFromRing_some (h.rings chan) (by omega)
    obtain ⟨n, hn, htrig⟩ := (h.entries i).counted chan hcumul.1 hcumul.2
    have hevt := (pullFromRing_linked h hpull).2.2.2.2 i hlink
    rw [hn] at hevt
    rw [htrig, Pi.zero_apply, Nat.add_zero, hpull, ← hevt]
    exact ⟨pulled.2, rfl⟩
  | cons hok hnext hrest ih =>
    rename_i s s' t act acts
    obtain ⟨hs', hb'⟩ := bookingStep_kept h hb hok hnext
    rw [List.mem_cons, not_or] at hcon
    have hstep := bookingStep_awaits h hb hok hnext hwait (fun heq => hcon.1 heq.symm) (fun heq => by simp [heq])
    have hcount : (act :: acts).count (.pull chan) - (if act = .pull chan then 1 else 0) = acts.count (.pull chan) := by
      rw [List.count_cons]
      simp
    rw [hcount] at hstep
    obtain ⟨htrig, hpull⟩ := ih hs' hb' hstep.1 hcon.2
    refine ⟨?_, hpull⟩
    rw [htrig, hstep.2, List.countP_cons]
    ring

theorem bookings_linked (h : Reach bookingStep NoPurge bookingsInit s) : Linked 0 s ∧ Booked s :=
  h.invariant (I := fun s => Linked 0 s ∧ Booked s) ⟨bookingsInit_linked, bookingsInit_booked⟩
    fun _ _ _ hs hok hnext => bookingStep_kept hs.1 hs.2 hok hnext

/-- The entry's one event: no other unread event is linked to it, and its pointer is right. -/
def OneEvent (s : Bookings) (i : ℕ × ℕ) (chan : ℕ) : Prop :=
  ∃ k, (∀ m, LinkedAt (s.ring chan) m i ↔ m = k) ∧ (s.subs i).cumulEvt = some (chan, place (s.ring chan) k)

theorem Linked.oneEvent_iff (h : Linked 0 s) (hi : Cumulates s i chan) : (s.subs i).evtCounter ≠ -1 ↔
    OneEvent s i chan := by
  constructor
  · intro hcount
    obtain ⟨k, hk⟩ := (h.entries i).pending chan hi.1 hi.2 hcount
    refine ⟨k, fun m => ⟨fun hm => (h.entries i).unique (h.rings chan) hm hk, ?_⟩, ((h.entries i).links chan k hk).2.1⟩
    rintro rfl
    exact hk
  · rintro ⟨k, hk, -⟩
    exact ((h.entries i).links chan k ((hk k).mpr rfl)).1.2.2

/-- In runs that purge no linked event, a cumulative subscriber has its one event in the ring exactly when its counter
says so, and the pull that comes to the event delivers all triggers since the last one. -/
theorem cumulEvents_delivered (h : Reach bookingStep NoPurge bookingsInit s) :
    (∀ chan, RingOk (s.ring chan)) ∧ ∀ i chan, Cumulates s i chan →
      ((s.subs i).evtCounter ≠ -1 ↔ OneEvent s i chan) ∧ (s.subs i).evtCounter = countOf (s.subs i).triggers ∧
      (0 < (s.subs i).triggers → ∃ k < evtNb, ∀ acts t, Path bookingStep NoPurge s acts t →
        acts.count (.pull chan) = k → .disconnect chan i.1 ∉ acts →
        (t.subs i).triggers = (s.subs i).triggers + acts.countP (·.isTrigger i.1) ∧
          ∃ u, pullFromRing t chan = some (lineEvent i.1 (countOf (t.subs i).triggers), u)) := by
  obtain ⟨hs, hb⟩ := bookings_linked h
  refine ⟨hs.rings, fun i chan hi => ⟨hs.oneEvent_iff hi, ?_⟩⟩
  obtain ⟨n, hn, htrig⟩ := (hs.entries i).counted chan hi.1 hi.2
  rw [Pi.zero_apply, Nat.add_zero] at htrig
  refine ⟨by rw [hn, htrig], fun hpos => ?_⟩
  have hcount : (s.subs i).evtCounter ≠ -1 := by
    rw [hn, ne_eq, countOf_eq_none_iff]
    omega
  obtain ⟨k, hk⟩ := (hs.entries i).pending chan hi.1 hi.2 hcount
  have hle := (hs.rings chan).le
  have hlt := hk.1
  refine ⟨k, by omega, fun acts t hpath hpulls hcon => ?_⟩
  exact awaits_delivered hpath hs hb ⟨hi, by rw [hpulls]; exact hk⟩ hcon

end Runs

/-- Client 0 has a cumulative connection to line 0, which then was triggered. -/
def oneTrigger : Bookings := deliverLine (connectLine bookingsInit 0 0 true) 0 0

theorem oneTrigger_reached : Reach bookingStep NoPurge bookingsInit oneTrigger := by
  have hconnected : Reach bookingStep NoPurge bookingsInit (connectLine bookingsInit 0 0 true) :=
    Reach.refl.step (a := .connect 0 0 true) trivial rfl
  refine hconnected.step (a := .interrupt 0 0) ?_ rfl
  intro j chan _ _ hfull
  exact absurd hfull (by decide : ¬ ((evtNb : ℤ) ≤ 0))

theorem oneTrigger_delivered : (∀ chan, RingOk (oneTrigger.ring chan)) ∧ OneEvent oneTrigger (0, 0) 0 := by
  have hcumul : Cumulates oneTrigger (0, 0) 0 := ⟨by decide, by decide⟩
  have hcount : (oneTrigger.subs (0, 0)).evtCounter ≠ -1 := by decide
  obtain ⟨hrings, h⟩ := cumulEvents_delivered oneTrigger_reached
  exact ⟨hrings, (h (0, 0) 0 hcumul).1.mp hcount⟩

/-- Line 1 then floods the ring of the client, and the purge loses the event, whose subscriber keeps its counter. -/
def flooded : Option Bookings :=
  (.connect 0 0 true :: .connect 0 1 false :: .interrupt 0 0 :: List.replicate 8 (.interrupt 1 0)).foldlM bookingStep
    bookingsInit

theorem flooded_isSome : flooded.isSome = true := rfl

theorem cumulEvents_purged : ∃ s, Reach bookingStep (fun _ _ => True) bookingsInit s ∧ Cumulates s (0, 0) 0 ∧
    (s.subs (0, 0)).evtCounter ≠ -1 ∧ ¬ OneEvent s (0, 0) 0 := by
  refine ⟨flooded.get flooded_isSome, ?_, ⟨?_, ?_⟩, ?_, ?_⟩
  · exact Reach.refl.of_foldlM (fun _ _ _ => trivial) (Option.some_get flooded_isSome).symm
  · decide
  · decide
  · decide
  · rintro ⟨k, hk, -⟩
    have hnone : ∀ m < ((flooded.get flooded_isSome).ring 0).evtsem.toNat,
        (((flooded.get flooded_isSome).ring 0).buffer (place ((flooded.get flooded_isSome).ring 0) m)).subscriber ≠
          some (0, 0) := by
      decide
    obtain ⟨hlt, hsub⟩ := (hk k).mpr rfl
    exact hnone k hlt hsub

end HtDrivers.Icv196
