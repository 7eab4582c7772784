import HtDrivers.Icv196.Booking

/-! Cumulative events of the ICV196: which unread event of a ring is linked to which subscriber, and what an interrupt
does to them. -/
namespace HtDrivers.Icv196
set_option autoImplicit false

/-! ## Unread events of a ring -/

section Unread
variable {ring : RingBuffer ℤ} {atom : RingAtom}

structure RingOk (ring : RingBuffer ℤ) : Prop where
  reader : ring.reader < evtNb
  nonneg : 0 ≤ ring.evtsem
  le : ring.evtsem ≤ evtNb
  writer : ring.writer = (ring.reader + ring.evtsem.toNat) % evtNb

/-- Where the `k`th unread event is. -/
def place (ring : RingBuffer ℤ) (k : ℕ) : ℕ := (ring.reader + k) % evtNb

def LinkedAt (ring : RingBuffer ℤ) (k : ℕ) (i : ℕ × ℕ) : Prop :=
  k < ring.evtsem.toNat ∧ (ring.buffer (place ring k)).subscriber = some i

theorem and_evtMsk (n : ℕ) : n &&& evtMsk = n % evtNb := Nat.and_two_pow_sub_one_eq_mod n 3

theorem place_inj {k m : ℕ} (hk : k < evtNb) (hm : m < evtNb) (h : place ring k = place ring m) : k = m := by
  unfold place evtNb at *
  omega

/-- The facts about a ring behind a push, where no linked event was purged. -/
structure Pushed (ring : RingBuffer ℤ) (new : RingAtom) (ring' : RingBuffer ℤ) (p : ℕ) : Prop where
  ok : RingOk ring'
  pos : 0 < ring'.evtsem
  last : p = place ring' (ring'.evtsem.toNat - 1)
  stored : ring'.buffer p = new
  linked : ∀ k i, LinkedAt ring' k i ↔ LinkedAt ring k i ∨ (k + 1 = ring'.evtsem.toNat ∧ new.subscriber = some i)
  keeps : ∀ k i, LinkedAt ring k i → place ring' k = place ring k ∧
    ring'.buffer (place ring k) = ring.buffer (place ring k)

theorem pushToRing_not_full (h : RingOk ring) (hroom : ring.evtsem < evtNb) (atom : RingAtom) :
    Pushed ring atom (pushToRing counterCalls ring atom).1 (pushToRing counterCalls ring atom).2 := by
  obtain ⟨hreader, hnonneg, hle, hwriter⟩ := h
  have hnot : ¬ (evtNb : ℤ) ≤ counterCalls.value ring.evtsem := not_le.mpr hroom
  have hpush : pushToRing counterCalls ring atom = ({ ring with
      buffer := Function.update ring.buffer ring.writer atom
      evtsem := ring.evtsem + 1
      writer := (ring.writer + 1) &&& evtMsk }, ring.writer) := by
    simp only [pushToRing, if_neg hnot, storeAtom]
    rfl
  have hplace : ring.writer = place ring ring.evtsem.toNat := hwriter
  have hother : ∀ k < ring.evtsem.toNat, place ring k ≠ ring.writer := by
    intro k hk hkw
    rw [hplace] at hkw
    have := place_inj (by omega) (by omega) hkw
    omega
  rw [hpush]
  refine ⟨⟨hreader, by dsimp only; omega, by dsimp only; omega, ?_⟩,
    by dsimp only; omega, ?_, Function.update_self .., ?_, ?_⟩
  · rw [and_evtMsk]
    dsimp only
    unfold evtNb at *
    omega
  · dsimp only
    rw [hplace, show (ring.evtsem + 1).toNat - 1 = ring.evtsem.toNat by omega]
    rfl
  · intro k i
    unfold LinkedAt
    change k < (ring.evtsem + 1).toNat ∧
      (Function.update ring.buffer ring.writer atom (place ring k)).subscriber = some i ↔ _
    by_cases hk : k < ring.evtsem.toNat
    · rw [Function.update_of_ne (hother k hk)]
      have hlast : k + 1 ≠ (ring.evtsem + 1).toNat := by omega
      have hlt : k < (ring.evtsem + 1).toNat := by omega
      simp [hk, hlast, hlt]
    · by_cases hlast : k + 1 = (ring.evtsem + 1).toNat
      · have hkeq : k = ring.evtsem.toNat := by omega
        have hlt : k < (ring.evtsem + 1).toNat := by omega
        have hself : Function.update ring.buffer ring.writer atom (place ring k) = atom := by
          rw [hkeq, ← hplace, Function.update_self]
        simp [hself, hlt, hk, hlast]
      · have hlt : ¬ k < (ring.evtsem + 1).toNat := by omega
        simp [hk, hlast, hlt]
  · intro k i hlink
    exact ⟨rfl, Function.update_of_ne (hother k hlink.1) ..⟩

/-- A full ring is purged, and holds the new event behind the one that signals the purge. -/
theorem pushToRing_purged (hfull : evtNb ≤ ring.evtsem) : pushToRing counterCalls ring atom =
    (⟨2, 0, 2, Function.update (Function.update ring.buffer 0 purgeAtom) 1 atom⟩, 1) := by
  have hyes : (evtNb : ℤ) ≤ counterCalls.value ring.evtsem := hfull
  simp only [pushToRing, if_pos hyes, storeAtom, purgeRing]
  rfl

theorem purged_ok (buffer : ℕ → RingAtom) : RingOk ⟨2, 0, 2, buffer⟩ where
  reader := (by decide : 0 < evtNb)
  nonneg := (by decide : (0 : ℤ) ≤ 2)
  le := (by decide : (2 : ℤ) ≤ evtNb)
  writer := (by decide : 2 = (0 + 2) % evtNb)

theorem pushToRing_full (hfull : evtNb ≤ ring.evtsem) (hnone : ∀ k i, ¬ LinkedAt ring k i) :
    Pushed ring atom (pushToRing counterCalls ring atom).1 (pushToRing counterCalls ring atom).2 := by
  rw [pushToRing_purged hfull]
  refine ⟨purged_ok _, ?_, ?_, by simp only [Function.update_self], ?_, ?_⟩
  · exact (by decide : (0 : ℤ) < 2)
  · exact (by decide : 1 = (0 + 1) % evtNb)
  · intro k i
    have hold : ¬ LinkedAt ring k i := hnone k i
    rw [or_iff_right hold]
    unfold LinkedAt
    dsimp only
    constructor
    · rintro ⟨hk, hsub⟩
      have htwo : k = 0 ∨ k = 1 := by
        have hk' : k < 2 := hk
        omega
      rcases htwo with rfl | rfl
      · exact absurd hsub (by simp [place, purgeAtom])
      · exact ⟨rfl, by simpa [place, evtNb] using hsub⟩
    · rintro ⟨hk, hsub⟩
      have hone : k = 1 := by
        have hk' : k + 1 = 2 := hk
        omega
      subst hone
      exact ⟨by decide, by simpa [place, evtNb] using hsub⟩
  · intro k i hlink
    exact absurd hlink (hnone k i)

theorem pushToRing_pushed (h : RingOk ring) (hpurge : evtNb ≤ ring.evtsem → ∀ k i, ¬ LinkedAt ring k i) :
    Pushed ring atom (pushToRing counterCalls ring atom).1 (pushToRing counterCalls ring atom).2 := by
  by_cases hfull : evtNb ≤ ring.evtsem
  · exact pushToRing_full hfull (hpurge hfull)
  · exact pushToRing_not_full h (not_le.mp hfull) _

theorem counterPull_atom (h : RingOk ring) (hpos : 0 < ring.evtsem) :
    ringPull counterCalls ring = .atom (ring.buffer (place ring 0))
      { ring with evtsem := ring.evtsem - 1, reader := (ring.reader + 1) % evtNb } := by
  have hne : ring.evtsem ≠ 0 := hpos.ne'
  have hplace : place ring 0 = ring.reader := Nat.mod_eq_of_lt h.reader
  simp only [ringPull, counterCalls, id_eq, if_neg hne, if_pos hpos, takeAtom, and_evtMsk, hplace, if_true]

theorem counterPull_empty (hzero : ring.evtsem = 0) : ringPull counterCalls ring = .empty := by
  rw [ringPull]
  exact if_pos hzero

theorem takeAtom_ok (h : RingOk ring) (hpos : 0 < ring.evtsem) :
    RingOk { ring with evtsem := ring.evtsem - 1, reader := (ring.reader + 1) % evtNb } where
  reader := Nat.mod_lt _ (by decide)
  nonneg := by dsimp only; omega
  le := by dsimp only; have := h.le; omega
  writer := by
    have hwriter := h.writer
    dsimp only
    unfold evtNb at *
    omega

theorem place_takeAtom (k : ℕ) :
    place { ring with evtsem := ring.evtsem - 1, reader := (ring.reader + 1) % evtNb } k = place ring (k + 1) := by
  unfold place evtNb
  dsimp only
  omega

theorem linkedAt_takeAtom (hpos : 0 < ring.evtsem) (k : ℕ) (i : ℕ × ℕ) :
    LinkedAt { ring with evtsem := ring.evtsem - 1, reader := (ring.reader + 1) % evtNb } k i ↔
    LinkedAt ring (k + 1) i := by
  unfold LinkedAt
  rw [place_takeAtom]
  dsimp only
  refine and_congr_left fun _ => ?_
  omega

end Unread

/-! ## The counter of a subscriber -/

/-- `EvtCounter` after so many triggers since the last event was delivered. -/
def countOf : ℕ → BitVec 16
  | 0 => -1
  | n + 1 => .ofNat 16 (n % 32767 + 1)

theorem countOf_eq_none_iff (n : ℕ) : countOf n = -1 ↔ n = 0 := by
  cases n with
  | zero => simp [countOf]
  | succ n =>
    simp only [countOf, Nat.add_one_ne_zero, iff_false]
    intro h
    have hnat := congrArg BitVec.toNat h
    simp only [BitVec.toNat_ofNat, BitVec.reduceNeg] at hnat
    omega

theorem countOf_msb (n : ℕ) : (countOf (n + 1)).msb = false := by
  rw [countOf, BitVec.msb_eq_false_iff_two_mul_lt, BitVec.toNat_ofNat]
  omega

theorem nextCounter_countOf (n : ℕ) : nextCounter (countOf (n + 1)) = countOf (n + 2) := by
  have hsum : countOf (n + 1) + 1 = .ofNat 16 (n % 32767 + 2) := by
    apply BitVec.eq_of_toNat_eq
    rw [countOf, BitVec.toNat_add, BitVec.toNat_ofNat, BitVec.toNat_ofNat, show (1 : BitVec 16).toNat = 1 from rfl]
    omega
  have hmsb : (countOf (n + 1) + 1).msb = decide (n % 32767 = 32766) := by
    rw [hsum, BitVec.msb_eq_decide, BitVec.toNat_ofNat, decide_eq_decide]
    omega
  rw [nextCounter, hmsb, hsum]
  by_cases hlast : n % 32767 = 32766
  · rw [if_pos (decide_eq_true hlast), countOf, show (n + 1) % 32767 = 0 by omega]
    rfl
  · rw [if_neg (by simpa using hlast), countOf, show (n + 1) % 32767 = n % 32767 + 1 by omega]

theorem nextCounter_msb (count : BitVec 16) : (nextCounter count).msb = false := by
  unfold nextCounter
  split
  · rfl
  · rename_i h
    simpa using h

/-! ## Events and their subscribers -/

/-- What one entry of a line and the unread events say of each other. `late` counts the triggers that the entry has
still to be told of. -/
structure EntryOk (rings : ℕ → RingBuffer ℤ) (late : ℕ) (i : ℕ × ℕ) (subs : Subscriber) : Prop where
  links : ∀ c k, LinkedAt (rings c) k i → (subs.ring = some c ∧ subs.mode = .cumulative ∧ subs.evtCounter ≠ -1) ∧
    subs.cumulEvt = some (c, place (rings c) k) ∧ ((rings c).buffer (place (rings c) k)).evt = lineEvent i.1 1
  pending : ∀ c, subs.ring = some c → subs.mode = .cumulative → subs.evtCounter ≠ -1 → ∃ k, LinkedAt (rings c) k i
  free : subs.cumulEvt ≠ none → (∃ c, subs.ring = some c) ∧ subs.mode = .cumulative ∧ subs.evtCounter ≠ -1
  counted : ∀ c, subs.ring = some c → subs.mode = .cumulative → ∃ n, subs.evtCounter = countOf n ∧
    subs.triggers = n + late
  queued : ∀ c, subs.ring = some c → subs.mode ≠ .cumulative → subs.mode = .queuleuleu ∧ subs.evtCounter.msb = false

structure Linked (late : ℕ × ℕ → ℕ) (s : Bookings) : Prop where
  rings : ∀ c, RingOk (s.ring c)
  entries : ∀ i, EntryOk s.ring (late i) i (s.subs i)

theorem bookingsInit_linked : Linked 0 bookingsInit where
  rings _ := ⟨by simp [bookingsInit, evtNb], by simp [bookingsInit], by simp [bookingsInit], by simp [bookingsInit]⟩
  entries _ := {
    links := fun _ _ h => absurd h.1 (by simp [bookingsInit])
    pending := fun _ h => by cases h
    free := fun h => absurd rfl h
    counted := fun _ h => by cases h
    queued := fun _ h => by cases h }

section Entry
variable {rings rings' : ℕ → RingBuffer ℤ} {late : ℕ} {i : ℕ × ℕ} {subs : Subscriber} {chan k m : ℕ}

/-- The rings may change where the unread events of the entry stay. -/
theorem EntryOk.rings_congr (h : EntryOk rings late i subs)
    (hback : ∀ c k, LinkedAt (rings' c) k i → ∃ m, LinkedAt (rings c) m i ∧ place (rings' c) k = place (rings c) m ∧
      (rings' c).buffer (place (rings c) m) = (rings c).buffer (place (rings c) m))
    (hforth : ∀ c m, LinkedAt (rings c) m i → ∃ k, LinkedAt (rings' c) k i) : EntryOk rings' late i subs :=
  { h with
    links := by
      intro c k hk
      obtain ⟨m, hm, hplace, hbuffer⟩ := hback c k hk
      obtain ⟨hsubs, hevt, hatom⟩ := h.links c m hm
      rw [hplace, hbuffer]
      exact ⟨hsubs, hevt, hatom⟩
    pending := by
      intro c hc hmode hcount
      obtain ⟨m, hm⟩ := h.pending c hc hmode hcount
      exact hforth c m hm }

/-- Two unread events are never linked to one entry. -/
theorem EntryOk.unique (h : EntryOk rings late i subs) (hring : RingOk (rings chan)) (hk : LinkedAt (rings chan) k i)
    (hm : LinkedAt (rings chan) m i) : k = m := by
  have hplace := (h.links chan k hk).2.1.symm.trans (h.links chan m hm).2.1
  have hle := hring.le
  have hltk := hk.1
  have hltm := hm.1
  exact place_inj (by omega) (by omega) (Prod.mk.inj (Option.some.inj hplace)).2

/-- An entry without a client is linked to no unread event. -/
theorem EntryOk.unlinked (h : EntryOk rings late i subs) (hnot : ∀ c, subs.ring = some c → subs.mode ≠ .cumulative) :
    ∀ c k, ¬ LinkedAt (rings c) k i := by
  intro c k hlink
  obtain ⟨hring, hmode, -⟩ := (h.links c k hlink).1
  exact hnot c hring hmode

/-- One more trigger is counted. -/
theorem EntryOk.count (h : EntryOk rings 1 i subs) (hring : subs.ring = some chan) (hmode : subs.mode = .cumulative)
    (hcount : subs.evtCounter ≠ -1) : EntryOk rings 0 i { subs with evtCounter := nextCounter subs.evtCounter } := by
  obtain ⟨n, hn, htrig⟩ := h.counted chan hring hmode
  obtain ⟨n, rfl⟩ : ∃ n', n = n' + 1 := by
    apply Nat.exists_eq_succ_of_ne_zero
    rw [ne_eq, ← countOf_eq_none_iff, ← hn]
    exact hcount
  have hnext : nextCounter subs.evtCounter = countOf (n + 2) := by
    rw [hn, nextCounter_countOf]
  have hne : nextCounter subs.evtCounter ≠ -1 := by
    rw [hnext, ne_eq, countOf_eq_none_iff]
    omega
  constructor
  · intro c k hlink
    obtain ⟨⟨hc, hm, -⟩, hlinked⟩ := h.links c k hlink
    exact ⟨⟨hc, hm, hne⟩, hlinked⟩
  · intro c hc hm _
    exact h.pending c hc hm hcount
  · intro hevt
    exact ⟨⟨chan, hring⟩, hmode, hne⟩
  · intro c _ _
    exact ⟨n + 2, hnext, by dsimp only; omega⟩
  · intro c _ hm
    exact absurd hmode hm

/-- The first trigger behind a delivered event comes with the push of an event, which is then the one unread event of
the entry. -/
theorem EntryOk.link (h : EntryOk rings 1 i subs) (hring : subs.ring = some chan) (hmode : subs.mode = .cumulative)
    (hcount : subs.evtCounter = -1) {p : ℕ} (hp : ∃ k, LinkedAt (rings' chan) k i ∧ place (rings' chan) k = p)
    (honly : ∀ c k, LinkedAt (rings' c) k i → c = chan ∧ place (rings' c) k = p)
    (hatom : ((rings' chan).buffer p).evt = lineEvent i.1 1) :
    EntryOk rings' 0 i { subs with evtCounter := 1, cumulEvt := some (chan, p) } := by
  obtain ⟨n, hn, htrig⟩ := h.counted chan hring hmode
  obtain rfl : n = 0 := by
    rw [← countOf_eq_none_iff, ← hn, hcount]
  have hone : (1 : BitVec 16) ≠ -1 := by decide
  constructor
  · intro c k hlink
    obtain ⟨rfl, hk⟩ := honly c k hlink
    rw [hk]
    exact ⟨⟨hring, hmode, hone⟩, rfl, hatom⟩
  · intro c hc _ _
    obtain rfl : chan = c := Option.some.inj (hring.symm.trans hc)
    obtain ⟨k, hk, -⟩ := hp
    exact ⟨k, hk⟩
  · intro _
    exact ⟨⟨chan, hring⟩, hmode, hone⟩
  · intro c _ _
    exact ⟨1, rfl, by dsimp only; omega⟩
  · intro c _ hm
    exact absurd hmode hm

/-- An entry that has no unread event. -/
theorem EntryOk.of_unlinked (hnone : ∀ c k, ¬ LinkedAt (rings c) k i) (hevt : subs.cumulEvt = none)
    (hcount : subs.mode = .cumulative → subs.evtCounter = -1 ∧ subs.triggers = late)
    (hqueue : ∀ c, subs.ring = some c → subs.mode ≠ .cumulative → subs.mode = .queuleuleu ∧
      subs.evtCounter.msb = false) : EntryOk rings late i subs := by
  constructor
  · intro c k hlink
    exact absurd hlink (hnone c k)
  · intro c _ hmode hne
    exact absurd (hcount hmode).1 hne
  · intro hne
    exact absurd hevt hne
  · intro c _ hmode
    exact ⟨0, (hcount hmode).1, by rw [(hcount hmode).2, Nat.zero_add]⟩
  · exact hqueue

end Entry

/-! ## Interrupts -/

/-- The entry pushes an event at the next trigger. -/
def Pushes (subs : Subscriber) : Prop := subs.mode = .queuleuleu ∨ subs.evtCounter.msb = true

/-- A push for the entry purges no linked event. -/
def KeepsLinks (s : Bookings) (i : ℕ × ℕ) : Prop :=
  ∀ chan, (s.subs i).ring = some chan → Pushes (s.subs i) → evtNb ≤ (s.ring chan).evtsem →
    ∀ k l, ¬ LinkedAt (s.ring chan) k l

/-- What the delivery of events leaves as it is. -/
structure Delivers (s t : Bookings) : Prop where
  cmap : t.cmap = s.cmap
  curNb : t.curNb = s.curNb
  fixed : ∀ i, (t.subs i).ring = (s.subs i).ring ∧ (t.subs i).mode = (s.subs i).mode ∧
    (t.subs i).triggers = (s.subs i).triggers
  linked : ∀ c k i, LinkedAt (s.ring c) k i → LinkedAt (t.ring c) k i

theorem Delivers.refl (s : Bookings) : Delivers s s := ⟨rfl, rfl, fun _ => ⟨rfl, rfl, rfl⟩, fun _ _ _ h => h⟩

theorem Delivers.trans {s t u : Bookings} (h : Delivers s t) (h' : Delivers t u) : Delivers s u where
  cmap := h'.cmap.trans h.cmap
  curNb := h'.curNb.trans h.curNb
  fixed i := ⟨(h'.fixed i).1.trans (h.fixed i).1, (h'.fixed i).2.1.trans (h.fixed i).2.1,
    (h'.fixed i).2.2.trans (h.fixed i).2.2⟩
  linked c k i hlink := h'.linked c k i (h.linked c k i hlink)

section Interrupts
variable {late late' : ℕ × ℕ → ℕ} {s t : Bookings} {i : ℕ × ℕ} {chan line j p : ℕ} {ring : RingBuffer ℤ}
    {new : RingAtom}

theorem Delivers.booked (h : Delivers s t) (hs : Booked s) : Booked t :=
  hs.frame (fun i => (h.fixed i).1) h.cmap h.curNb

/-- The entries without the new event see no difference. -/
theorem EntryOk.pushed {late : ℕ} {subs : Subscriber} (h : EntryOk s.ring late i subs)
    (hpush : Pushed (s.ring chan) new ring p) (hnew : new.subscriber ≠ some i) :
    EntryOk (Function.update s.ring chan ring) late i subs := by
  apply h.rings_congr
  · intro c k hk
    by_cases hc : c = chan
    · subst hc
      rw [Function.update_self] at hk ⊢
      have hold := ((hpush.linked k i).mp hk).resolve_right fun hlast => hnew hlast.2
      exact ⟨k, hold, hpush.keeps k i hold⟩
    · rw [Function.update_of_ne hc] at hk ⊢
      exact ⟨k, hk, rfl, rfl⟩
  · intro c k hk
    by_cases hc : c = chan
    · subst hc
      rw [Function.update_self]
      exact ⟨k, (hpush.linked k i).mpr (.inl hk)⟩
    · rw [Function.update_of_ne hc]
      exact ⟨k, hk⟩

theorem pushed_rings (h : ∀ c, RingOk (s.ring c)) (hpush : Pushed (s.ring chan) new ring p) (c : ℕ) :
    RingOk (Function.update s.ring chan ring c) := by
  rw [Function.update_apply]
  split
  · exact hpush.ok
  · exact h c

theorem pushed_linked (hpush : Pushed (s.ring chan) new ring p) (c k : ℕ) (l : ℕ × ℕ)
    (hlink : LinkedAt (s.ring c) k l) : LinkedAt (Function.update s.ring chan ring c) k l := by
  rw [Function.update_apply]
  split
  · rename_i hc
    subst hc
    exact (hpush.linked k l).mpr (.inl hlink)
  · exact hlink

/-- An entry with a client was told of a trigger. -/
structure Told (late : ℕ × ℕ → ℕ) (s t : Bookings) (i : ℕ × ℕ) (chan : ℕ) : Prop where
  linked : Linked (Function.update late i 0) t
  delivers : Delivers s t
  others : ∀ l, l ≠ i → t.subs l = s.subs l
  rings : ∀ c, c ≠ chan → t.ring c = s.ring c

section Cases
variable {subs : Subscriber} (h : Linked late s)
  (hfixed : subs.ring = (s.subs i).ring ∧ subs.mode = (s.subs i).mode ∧ subs.triggers = (s.subs i).triggers)
include h hfixed

theorem told_of_push (hpush : Pushed (s.ring chan) new ring p) (hnew : ∀ l, l ≠ i → new.subscriber ≠ some l)
    (hentry : EntryOk (Function.update s.ring chan ring) 0 i subs) :
    Told late s { s with ring := Function.update s.ring chan ring, subs := Function.update s.subs i subs } i chan where
  linked := {
    rings := pushed_rings h.rings hpush
    entries := by
      intro l
      dsimp only
      by_cases hl : l = i
      · subst hl
        rw [Function.update_self, Function.update_self]
        exact hentry
      · rw [Function.update_of_ne hl, Function.update_of_ne hl]
        exact (h.entries l).pushed hpush (hnew l hl) }
  delivers := {
    cmap := rfl
    curNb := rfl
    fixed := by
      intro l
      dsimp only
      by_cases hl : l = i
      · subst hl
        rw [Function.update_self]
        exact hfixed
      · rw [Function.update_of_ne hl]
        exact ⟨rfl, rfl, rfl⟩
    linked := pushed_linked hpush }
  others l hl := Function.update_of_ne hl ..
  rings c hc := Function.update_of_ne hc ..

theorem told_of_count (hentry : EntryOk s.ring 0 i subs) :
    Told late s { s with subs := Function.update s.subs i subs } i chan where
  linked := {
    rings := h.rings
    entries := by
      intro l
      dsimp only
      by_cases hl : l = i
      · subst hl
        rw [Function.update_self, Function.update_self]
        exact hentry
      · rw [Function.update_of_ne hl, Function.update_of_ne hl]
        exact h.entries l }
  delivers := {
    cmap := rfl
    curNb := rfl
    fixed := by
      intro l
      dsimp only
      by_cases hl : l = i
      · subst hl
        rw [Function.update_self]
        exact hfixed
      · rw [Function.update_of_ne hl]
        exact ⟨rfl, rfl, rfl⟩
    linked := fun _ _ _ hlink => hlink }
  others l hl := Function.update_of_ne hl ..
  rings _ _ := rfl

end Cases

/-- What one subscriber is given, by cases on its mode and its counter. -/
theorem deliverEntry_told (h : Linked late s) (hring : (s.subs (line, j)).ring = some chan) (hlate : late (line, j) = 1)
    (hkeep : KeepsLinks s (line, j)) (sw1 : BitVec 16) :
    Told late s (deliverEntry s line sw1 j chan).1 (line, j) chan := by
  have hentry : EntryOk s.ring 1 (line, j) (s.subs (line, j)) := hlate ▸ h.entries (line, j)
  have hpushed : ∀ atom, Pushes (s.subs (line, j)) → Pushed (s.ring chan) atom
      (pushToRing counterCalls (s.ring chan) atom).1 (pushToRing counterCalls (s.ring chan) atom).2 :=
    fun atom hpushes => pushToRing_pushed (h.rings chan) (hkeep chan hring hpushes)
  by_cases hmode : (s.subs (line, j)).mode = .cumulative
  · have hnotqueue : (s.subs (line, j)).mode ≠ .queuleuleu := by
      rw [hmode]
      decide
    by_cases hcount : (s.subs (line, j)).evtCounter = -1
    · have hmsb : (s.subs (line, j)).evtCounter.msb = true := by
        rw [hcount]
        decide
      have hpush := hpushed ⟨some (line, j), lineEvent line 1⟩ (.inr hmsb)
      have hstep : (deliverEntry s line sw1 j chan).1 = { s with
          ring := Function.update s.ring chan
            (pushToRing counterCalls (s.ring chan) ⟨some (line, j), lineEvent line 1⟩).1
          subs := Function.update s.subs (line, j) { s.subs (line, j) with
            evtCounter := 1
            cumulEvt :=
              some (chan, (pushToRing counterCalls (s.ring chan) ⟨some (line, j), lineEvent line 1⟩).2) } } := by
        simp only [deliverEntry, if_pos hcount, if_neg hnotqueue, if_pos hmsb]
        rfl
      rw [hstep]
      refine told_of_push h ⟨rfl, rfl, rfl⟩ hpush (fun l hl heq => hl (Option.some.inj heq).symm) ?_
      have hnone := fun c k (hlink : LinkedAt (s.ring c) k (line, j)) => (hentry.links c k hlink).1.2.2 hcount
      generalize pushToRing counterCalls (s.ring chan) ⟨some (line, j), lineEvent line 1⟩ = pushed at hpush
      have hpos := hpush.pos
      -- the new event is the last of the ring
      apply hentry.link hring hmode hcount
      · rw [Function.update_self]
        exact ⟨pushed.1.evtsem.toNat - 1, (hpush.linked _ _).mpr (.inr ⟨by omega, rfl⟩), hpush.last.symm⟩
      · intro c k hlink
        by_cases hc : c = chan
        · subst hc
          rw [Function.update_self] at hlink ⊢
          have hlast := ((hpush.linked k (line, j)).mp hlink).resolve_left (hnone c k)
          rw [hpush.last, ← hlast.1]
          exact ⟨rfl, rfl⟩
        · rw [Function.update_of_ne hc] at hlink
          exact absurd hlink (hnone c k)
      · rw [Function.update_self, hpush.stored]
    · have hmsb : ¬ (s.subs (line, j)).evtCounter.msb = true := by
        obtain ⟨n, hn, -⟩ := hentry.counted chan hring hmode
        cases n with
        | zero => exact absurd hn hcount
        | succ n =>
          rw [hn, countOf_msb]
          decide
      have hstep : (deliverEntry s line sw1 j chan).1 = { s with
          subs := Function.update s.subs (line, j) { s.subs (line, j) with
            evtCounter := nextCounter (s.subs (line, j)).evtCounter } } := by
        simp only [deliverEntry, if_neg hcount, if_neg hnotqueue, if_neg hmsb]
        rfl
      rw [hstep]
      exact told_of_count h ⟨rfl, rfl, rfl⟩ (hentry.count hring hmode hcount)
  · obtain ⟨hqueue, hmsb⟩ := hentry.queued chan hring hmode
    have hcount : (s.subs (line, j)).evtCounter ≠ -1 := by
      intro hcount
      rw [hcount] at hmsb
      cases hmsb
    have hpush := hpushed ⟨none, lineEvent line (nextCounter (s.subs (line, j)).evtCounter)⟩ (.inl hqueue)
    have hstep : (deliverEntry s line sw1 j chan).1 = { s with
        ring := Function.update s.ring chan (pushToRing counterCalls (s.ring chan)
          ⟨none, lineEvent line (nextCounter (s.subs (line, j)).evtCounter)⟩).1
        subs := Function.update s.subs (line, j) { s.subs (line, j) with
          evtCounter := nextCounter (s.subs (line, j)).evtCounter } } := by
      simp only [deliverEntry, if_neg hcount, if_pos hqueue]
      rfl
    rw [hstep]
    refine told_of_push h ⟨rfl, rfl, rfl⟩ hpush (fun l _ hnew => by cases hnew) ?_
    have hnone := hentry.unlinked fun _ _ => hmode
    apply EntryOk.of_unlinked
    · intro c k hlink
      by_cases hc : c = chan
      · subst hc
        rw [Function.update_self] at hlink
        rcases (hpush.linked k (line, j)).mp hlink with hold | ⟨-, hnew⟩
        · exact hnone c k hold
        · cases hnew
      · rw [Function.update_of_ne hc] at hlink
        exact hnone c k hlink
    · by_contra hevt
      exact hmode (hentry.free hevt).2.1
    · intro hcumul
      exact absurd hcumul hmode
    · intro c _ _
      exact ⟨hqueue, nextCounter_msb _⟩

def lateIn (line : ℕ) (js : List ℕ) (i : ℕ × ℕ) : ℕ := if i.1 = line ∧ i.2 ∈ js then 1 else 0

/-- Only the entries with a client have to be told. -/
theorem Linked.late_congr (h : Linked late s) (hlate : ∀ i c, (s.subs i).ring = some c → late i = late' i) :
    Linked late' s where
  rings := h.rings
  entries i :=
    { h.entries i with
      counted := by
        intro c hc hmode
        rw [← hlate i c hc]
        exact (h.entries i).counted c hc hmode }

theorem lateIn_skip {js : List ℕ} (h : Linked (lateIn line (j :: js)) s) (hfree : (s.subs (line, j)).ring = none) :
    Linked (lateIn line js) s := by
  apply h.late_congr
  intro i c hc
  have hne : i.1 = line → i.2 ≠ j := by
    intro hline hj
    rw [← hline, ← hj, hc] at hfree
    cases hfree
  unfold lateIn
  congr 1
  rw [List.mem_cons]
  exact propext (and_congr_right fun hline => or_iff_right (hne hline))

/-- The loop reaches all subscribers of a line, since their number is kept. -/
theorem deliverLoop_linked (js : List ℕ) (hnodup : js.Nodup) (cs : ℤ) (sw1 : BitVec 16) (h : Linked (lateIn line js) s)
    (hbooked : Booked s) (hkeep : ∀ j ∈ js, KeepsLinks s (line, j))
    (hcs : cs = js.countP fun j => (s.subs (line, j)).ring.isSome) :
    Linked 0 (deliverLoop line js cs sw1 s) ∧ Delivers s (deliverLoop line js cs sw1 s) := by
  induction js generalizing cs sw1 s with
  | nil =>
    refine ⟨h.late_congr fun _ _ _ => ?_, .refl s⟩
    simp [lateIn]
  | cons j js ih =>
    rw [List.nodup_cons] at hnodup
    have hkeep' : ∀ k ∈ js, KeepsLinks s (line, k) := fun k hk => hkeep k (List.mem_cons_of_mem j hk)
    rw [deliverLoop]
    split
    · rename_i hzero
      refine ⟨h.late_congr fun i c hc => ?_, .refl s⟩
      have hnone : (j :: js).countP (fun j => (s.subs (line, j)).ring.isSome) = 0 := by omega
      rw [List.countP_eq_zero] at hnone
      refine if_neg ?_
      rintro ⟨hline, hi⟩
      subst hline
      exact hnone i.2 hi (by rw [hc]; rfl)
    · cases hring : (s.subs (line, j)).ring with
      | none =>
        dsimp only
        apply ih hnodup.2 cs sw1 (lateIn_skip h hring) hbooked hkeep'
        rw [hcs, List.countP_cons_of_neg (by simp [hring])]
      | some chan =>
        have htold := deliverEntry_told h hring (if_pos ⟨rfl, List.mem_cons_self ..⟩)
          (hkeep j (List.mem_cons_self ..)) sw1
        dsimp only
        generalize deliverEntry s line sw1 j chan = told at htold
        have hother : ∀ k ∈ js, (line, k) ≠ (line, j) := by
          intro k hk heq
          rw [← (Prod.mk.inj heq).2] at hnodup
          exact hnodup.1 hk
        have hlinked : Linked (lateIn line js) told.1 := by
          apply htold.linked.late_congr
          intro i c _
          rw [Function.update_apply]
          split
          · rename_i hi
            rw [hi]
            exact (if_neg fun hmem => hnodup.1 hmem.2).symm
          · rename_i hi
            unfold lateIn
            congr 1
            rw [List.mem_cons]
            refine propext (and_congr_right fun hline => or_iff_right fun hj => hi ?_)
            rw [← hline, ← hj]
        have hrest : ∀ k ∈ js, KeepsLinks told.1 (line, k) := by
          intro k hk c hc
          rw [htold.others _ (hother k hk)] at hc ⊢
          rw [htold.rings c]
          · exact hkeep' k hk c hc
          · rintro rfl
            exact hother k hk (by rw [hbooked.single line k j c hc hring])
        have hcount : cs - 1 = js.countP fun k => (told.1.subs (line, k)).ring.isSome := by
          have hsame : js.countP (fun k => (told.1.subs (line, k)).ring.isSome) =
              js.countP fun k => (s.subs (line, k)).ring.isSome := by
            congr 1
            funext k
            rw [(htold.delivers.fixed (line, k)).1]
          rw [hsame, hcs, List.countP_cons_of_pos (by simp [hring])]
          push_cast
          ring
        obtain ⟨hfinal, hdelivers⟩ := ih hnodup.2 (cs - 1) told.2 hlinked (htold.delivers.booked hbooked) hrest hcount
        exact ⟨hfinal, htold.delivers.trans hdelivers⟩

/-- What an interrupt keeps, and whose triggers it counts. -/
structure Triggered (line : ℕ) (s t : Bookings) : Prop where
  fixed : ∀ i, (t.subs i).ring = (s.subs i).ring ∧ (t.subs i).mode = (s.subs i).mode
  triggers : ∀ i, (t.subs i).triggers = (s.subs i).triggers + if i.1 = line ∧ (s.subs i).ring.isSome then 1 else 0
  linked : ∀ c k i, LinkedAt (s.ring c) k i → LinkedAt (t.ring c) k i

theorem deliverLine_linked (h : Linked 0 s) (hbooked : Booked s) (hkeep : ∀ j, KeepsLinks s (line, j))
    (sw1 : BitVec 16) :
    Linked 0 (deliverLine s line sw1) ∧ Booked (deliverLine s line sw1) ∧
    Triggered line s (deliverLine s line sw1) := by
  have hsubs : ∀ i, (countTrigger s line).subs i = { s.subs i with
      triggers := (s.subs i).triggers + if i.1 = line ∧ (s.subs i).ring.isSome then 1 else 0 } := by
    intro i
    simp only [countTrigger]
    split <;> rfl
  have hbooked' : Booked (countTrigger s line) := by
    refine hbooked.frame (fun i => ?_) rfl rfl
    rw [hsubs]
  have hlinked : Linked (lateIn line (List.range icvSubscriberNb)) (countTrigger s line) := by
    refine ⟨h.rings, fun i => ?_⟩
    obtain ⟨hlinks, hpending, hfree, hcounted, hqueued⟩ := h.entries i
    rw [hsubs]
    refine ⟨hlinks, hpending, hfree, ?_, hqueued⟩
    intro c hc hmode
    obtain ⟨n, hn, htrig⟩ := hcounted c hc hmode
    refine ⟨n, hn, ?_⟩
    have hi : i.2 ∈ List.range icvSubscriberNb := List.mem_range.mpr (hbooked.entry i.1 i.2 c hc)
    have hsome : (s.subs i).ring.isSome = true := by
      rw [show (s.subs i).ring = some c from hc]
      rfl
    dsimp only
    rw [htrig]
    simp only [lateIn, hi, hsome, and_true, Pi.zero_apply, Nat.add_zero]
  have hkeep' : ∀ j ∈ List.range icvSubscriberNb, KeepsLinks (countTrigger s line) (line, j) := by
    intro j _ c hc
    rw [hsubs] at hc ⊢
    exact hkeep j c hc
  have hcs : s.curNb line = (List.range icvSubscriberNb).countP fun j =>
    ((countTrigger s line).subs (line, j)).ring.isSome :=
    hbooked'.curNb line
  obtain ⟨hfinal, hdelivers⟩ := deliverLoop_linked _ List.nodup_range _ sw1 hlinked hbooked' hkeep' hcs
  refine ⟨hfinal, hdelivers.booked hbooked', ⟨?_, ?_, ?_⟩⟩
  · intro i
    obtain ⟨hring, hmode, -⟩ := hdelivers.fixed i
    rw [hsubs] at hring hmode
    exact ⟨hring, hmode⟩
  · intro i
    have htrig := (hdelivers.fixed i).2.2
    rw [hsubs] at htrig
    exact htrig
  · exact hdelivers.linked

end Interrupts

end HtDrivers.Icv196
