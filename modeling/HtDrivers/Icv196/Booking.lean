import HtDrivers.Icv196.Ring
import HtDrivers.Lib.Tables

/-! The connections of clients to the lines of the ICV196 modules, and the delivery of events (`icv196vmedrvr.c`). A
client is known by the index of its handle, a line by its logical index. The semaphores of the rings act as counters
here. -/
namespace HtDrivers.Icv196
open HtDrivers.Lib.Tables
set_option autoImplicit false

def icvLineNb : ℕ := 16
def icvModuleNb : ℕ := 8
def icvSubscriberNb : ℕ := 8

inductive SubsMode
  | unset | cumulative | queuleuleu
deriving DecidableEq

/-- `ring` is the client whose ring is linked, and `cumulEvt` the client and the index of an atom. `triggers` counts the
triggers of the line since the last event that was delivered. -/
structure Subscriber where
  ring : Option ℕ
  cumulEvt : Option (ℕ × ℕ)
  mode : SubsMode
  evtCounter : BitVec 16
  triggers : ℕ
deriving DecidableEq

/-- The rings of the clients, the bits of `Cmap` by client and line, `SubscriberCurNb`, and the subscribers by line and
entry. -/
structure Bookings where
  ring : ℕ → RingBuffer ℤ
  cmap : ℕ × ℕ → Bool
  curNb : ℕ → ℤ
  subs : ℕ × ℕ → Subscriber

def counterCalls : SemCalls ℤ :=
  ⟨id, (· + 1), fun _ => 0, fun value => if 0 < value then (value - 1, true) else (value, false)⟩

/-! ## Connections -/

section Connections
variable (s : Bookings)

def unusedSubscriber (mode : SubsMode) : Subscriber := ⟨none, none, mode, 0, 0⟩

/-- The subscriber that `LineBooking` sets up; all lines are normal ones. -/
def bookedSubscriber (chan : ℕ) (cumul : Bool) : Subscriber :=
  ⟨some chan, none, if cumul then .cumulative else .queuleuleu, if cumul then -1 else 0, 0⟩

/-- The loops of `LineBooking` and `LineUnBooking` up to the entry that they take. -/
def findSubscriber (line : ℕ) (ring : Option ℕ) : Option ℕ :=
  (List.range icvSubscriberNb).find? fun j => (s.subs (line, j)).ring = ring

def lineBooking (chan line : ℕ) (cumul : Bool) : Option Bookings :=
  (findSubscriber s line none).map fun j =>
    { s with
      cmap := Function.update s.cmap (chan, line) true
      curNb := Function.update s.curNb line (s.curNb line + 1)
      subs := Function.update s.subs (line, j) (bookedSubscriber chan cumul) }

/-- An event that is still in a ring is unlinked, with the count so far. -/
def unlinkEvent (subs : Subscriber) : ℕ → RingBuffer ℤ :=
  match subs.cumulEvt with
  | some (chan, p) =>
    let ring := s.ring chan
    let atom := ring.buffer p
    Function.update s.ring chan
      { ring with buffer := Function.update ring.buffer p ⟨none, { atom.evt with w1 := subs.evtCounter }⟩ }
  | none => s.ring

/-- With `Init_SubscriberHdl`. -/
def lineUnBooking (chan line : ℕ) : Option Bookings :=
  (findSubscriber s line (some chan)).map fun j =>
    { ring := unlinkEvent s (s.subs (line, j))
      cmap := Function.update s.cmap (chan, line) false
      curNb := Function.update s.curNb line (s.curNb line - 1)
      subs := Function.update s.subs (line, j) (unusedSubscriber .unset) }

/-- The part of `ICVVME_connect` about subscribers; nothing changes where the client is connected, or where all entries
are in use. -/
def connectLine (chan line : ℕ) (cumul : Bool) : Bookings :=
  if s.cmap (chan, line) then s else (lineBooking s chan line cumul).getD s

def disconnectLine (chan line : ℕ) : Bookings :=
  if s.cmap (chan, line) then (lineUnBooking s chan line).getD s else s

end Connections

/-! ## Events -/

/-- The table `UserLineAdd`, whose indices leave out `ICV_Index12`. -/
def userLineAdd (line : ℕ) : BitVec 8 × BitVec 8 :=
  let index := line % icvLineNb
  (BitVec.ofNat 8 (line / icvLineNb), BitVec.ofNat 8 (if index < 12 then index else index + 1))

/-- `Event_Pattern` with a counter. -/
def lineEvent (line : ℕ) (w1 : BitVec 16) : IcvEvt := ⟨w1, (userLineAdd line).1, (userLineAdd line).2⟩

/-- The counter stays positive. -/
def nextCounter (count : BitVec 16) : BitVec 16 := if (count + 1).msb then 1 else count + 1

section Events
variable (s : Bookings) (line : ℕ)

def setSubscriber (j : ℕ) (subs : Subscriber) : Bookings := { s with subs := Function.update s.subs (line, j) subs }

def pushEvent (chan : ℕ) (atom : RingAtom) : Bookings × ℕ :=
  let (ring, p) := pushToRing counterCalls (s.ring chan) atom
  ({ s with ring := Function.update s.ring chan ring }, p)

/-- One subscriber in the loop of `icv196_isr`, with the counter that the loop hands on. -/
def deliverEntry (sw1 : BitVec 16) (j : ℕ) (chan : ℕ) : Bookings × BitVec 16 :=
  let subs := s.subs (line, j)
  let count := subs.evtCounter
  let sw1 := if count = -1 then sw1 else nextCounter count
  let s := if count = -1 then s else setSubscriber s line j { subs with evtCounter := nextCounter count }
  if subs.mode = .queuleuleu then ((pushEvent s chan ⟨none, lineEvent line sw1⟩).1, sw1)
  else if count.msb then
    let (s, p) := pushEvent s chan ⟨some (line, j), lineEvent line 1⟩
    (setSubscriber s line j { s.subs (line, j) with evtCounter := 1, cumulEvt := some (chan, p) }, sw1)
  else (s, sw1)

/-- The loop over the subscribers of a line; `cs` of them are left to be found. -/
def deliverLoop : List ℕ → ℤ → BitVec 16 → Bookings → Bookings
  | [], _, _, s => s
  | j :: js, cs, sw1, s =>
    if cs ≤ 0 then s
    else
      match (s.subs (line, j)).ring with
      | none => deliverLoop js cs sw1 s
      | some chan =>
        let (s, sw1) := deliverEntry s line sw1 j chan
        deliverLoop js (cs - 1) sw1 s

/-- Every subscriber of the line should get to know of the trigger. -/
def countTrigger : Bookings :=
  { s with
    subs := fun i =>
      if i.1 = line ∧ (s.subs i).ring.isSome then { s.subs i with triggers := (s.subs i).triggers + 1 }
      else s.subs i }

/-- What `icv196_isr` does for an active line; `sw1` is what the lines before have left. -/
def deliverLine (sw1 : BitVec 16) : Bookings :=
  deliverLoop line (List.range icvSubscriberNb) (s.curNb line) sw1 (countTrigger s line)

/-- `PullFrom_Ring`. The counter of a cumulative event is that of its subscriber, who has no event in the ring from now
on. -/
def pullFromRing (chan : ℕ) : Option (IcvEvt × Bookings) :=
  match ringPull counterCalls (s.ring chan) with
  | .atom atom ring =>
    let s := { s with ring := Function.update s.ring chan ring }
    match atom.subscriber with
    | some i =>
      some ({ atom.evt with w1 := (s.subs i).evtCounter },
        { s with subs := Function.update s.subs i { s.subs i with cumulEvt := none, evtCounter := -1, triggers := 0 } })
    | none => some (atom.evt, s)
  | _ => none

end Events

/-- The drivers statics, before the first connection. -/
def bookingsInit : Bookings where
  ring _ := ⟨0, 0, 0, fun _ => ⟨none, ⟨0, 0, 0⟩⟩⟩
  cmap _ := false
  curNb _ := 0
  subs _ := unusedSubscriber .queuleuleu

/-! ## Entries in use -/

/-- The bits of a client tell the lines where it has its one entry, and the counter of a line how many entries are
taken. -/
structure Booked (s : Bookings) : Prop where
  entry : ∀ line j chan, (s.subs (line, j)).ring = some chan → j < icvSubscriberNb
  single : ∀ line j k chan, (s.subs (line, j)).ring = some chan → (s.subs (line, k)).ring = some chan → j = k
  cmap : ∀ line chan, s.cmap (chan, line) = true ↔ ∃ j, (s.subs (line, j)).ring = some chan
  curNb : ∀ line, s.curNb line = (List.range icvSubscriberNb).countP fun j => (s.subs (line, j)).ring.isSome

theorem bookingsInit_booked : Booked bookingsInit where
  entry _ _ _ h := by cases h
  single _ _ _ _ h := by cases h
  cmap _ _ := by simp [bookingsInit, unusedSubscriber]
  curNb _ := by simp [bookingsInit, unusedSubscriber]

section Entries
variable {s t : Bookings} {chan line j : ℕ}

theorem findSubscriber_eq_some {r : Option ℕ} (h : findSubscriber s line r = some j) :
    j < icvSubscriberNb ∧ (s.subs (line, j)).ring = r := by
  have hp := List.find?_some h
  exact ⟨List.mem_range.mp (List.mem_of_find?_eq_some h), of_decide_eq_true hp⟩

theorem findSubscriber_eq_none {r : Option ℕ} (h : findSubscriber s line r = none) (hj : j < icvSubscriberNb) :
    (s.subs (line, j)).ring ≠ r := by
  have hnot := List.find?_eq_none.mp h j (List.mem_range.mpr hj)
  simpa using hnot

/-- Only the rings of the entries matter. -/
theorem Booked.frame (h : Booked s) (hring : ∀ i, (t.subs i).ring = (s.subs i).ring) (hcmap : t.cmap = s.cmap)
    (hcur : t.curNb = s.curNb) : Booked t where
  entry line j chan := by
    rw [hring]
    exact h.entry line j chan
  single line j k chan := by
    rw [hring, hring]
    exact h.single line j k chan
  cmap line chan := by
    simp only [hring, hcmap]
    exact h.cmap line chan
  curNb line := by
    simp only [hring, hcur]
    exact h.curNb line

/-- One entry of a line is taken by a client that has none. -/
theorem Booked.take (h : Booked s) (hfree : (s.subs (line, j)).ring = none) (hj : j < icvSubscriberNb)
    (hnew : s.cmap (chan, line) = false) (hring : (t.subs (line, j)).ring = some chan)
    (hsame : ∀ i, i ≠ (line, j) → (t.subs i).ring = (s.subs i).ring)
    (hcmap : t.cmap = Function.update s.cmap (chan, line) true)
    (hcur : t.curNb = Function.update s.curNb line (s.curNb line + 1)) : Booked t := by
  have hnone : ∀ k, (s.subs (line, k)).ring ≠ some chan := by
    intro k hk
    rw [(h.cmap line chan).mpr ⟨k, hk⟩] at hnew
    cases hnew
  -- what the table says of any entry now
  have hentry : ∀ l k c, (t.subs (l, k)).ring = some c →
      (l = line ∧ k = j ∧ c = chan) ∨ ((l, k) ≠ (line, j) ∧ (s.subs (l, k)).ring = some c) := by
    intro l k c hc
    by_cases hi : (l, k) = (line, j)
    · obtain ⟨rfl, rfl⟩ := Prod.mk.inj hi
      rw [hring] at hc
      exact .inl ⟨rfl, rfl, (Option.some.inj hc).symm⟩
    · rw [hsame _ hi] at hc
      exact .inr ⟨hi, hc⟩
  refine ⟨?_, ?_, ?_, ?_⟩
  · intro l k c hc
    rcases hentry l k c hc with ⟨-, rfl, -⟩ | ⟨-, hold⟩
    · exact hj
    · exact h.entry l k c hold
  · intro l k m c hk hm
    rcases hentry l k c hk with ⟨rfl, rfl, rfl⟩ | ⟨-, hold⟩
    · rcases hentry l m c hm with ⟨-, rfl, -⟩ | ⟨-, hold⟩
      · rfl
      · exact absurd hold (hnone m)
    · rcases hentry l m c hm with ⟨rfl, rfl, rfl⟩ | ⟨-, hold'⟩
      · exact absurd hold (hnone k)
      · exact h.single l k m c hold hold'
  · intro l c
    rw [hcmap, Function.update_apply]
    split
    · rename_i heq
      obtain ⟨rfl, rfl⟩ := Prod.mk.inj heq
      exact ⟨fun _ => ⟨j, hring⟩, fun _ => rfl⟩
    · rename_i hne
      rw [h.cmap l c]
      constructor
      · rintro ⟨k, hk⟩
        refine ⟨k, ?_⟩
        rw [hsame, hk]
        intro heq
        obtain ⟨rfl, rfl⟩ := Prod.mk.inj heq
        rw [hfree] at hk
        cases hk
      · rintro ⟨k, hk⟩
        rcases hentry l k c hk with ⟨rfl, -, rfl⟩ | ⟨-, hold⟩
        · exact absurd rfl hne
        · exact ⟨k, hold⟩
  · intro l
    rw [hcur, Function.update_apply]
    split
    · rename_i heq
      subst heq
      have hcount : (List.range icvSubscriberNb).countP (fun k => (t.subs (l, k)).ring.isSome) =
          (List.range icvSubscriberNb).countP (fun k => (s.subs (l, k)).ring.isSome) + 1 := by
        apply countP_used List.nodup_range (List.mem_range.mpr hj)
        · simp [hfree]
        · simp [hring]
        · intro k hk
          rw [hsame (l, k) fun heq => hk (Prod.mk.inj heq).2]
      rw [h.curNb, hcount]
      push_cast
      rfl
    · rename_i hne
      rw [h.curNb]
      congr 2
      funext k
      rw [hsame (l, k) fun heq => hne (Prod.mk.inj heq).1]

/-- An entry is given back. -/
theorem Booked.giveBack (h : Booked s) (hused : (s.subs (line, j)).ring = some chan)
    (hring : (t.subs (line, j)).ring = none) (hsame : ∀ i, i ≠ (line, j) → (t.subs i).ring = (s.subs i).ring)
    (hcmap : t.cmap = Function.update s.cmap (chan, line) false)
    (hcur : t.curNb = Function.update s.curNb line (s.curNb line - 1)) : Booked t := by
  have hentry : ∀ l k c, (t.subs (l, k)).ring = some c → (l, k) ≠ (line, j) ∧ (s.subs (l, k)).ring = some c := by
    intro l k c hc
    by_cases hi : (l, k) = (line, j)
    · rw [hi, hring] at hc
      cases hc
    · rw [hsame _ hi] at hc
      exact ⟨hi, hc⟩
  refine ⟨?_, ?_, ?_, ?_⟩
  · intro l k c hc
    exact h.entry l k c (hentry l k c hc).2
  · intro l k m c hk hm
    exact h.single l k m c (hentry l k c hk).2 (hentry l m c hm).2
  · intro l c
    rw [hcmap, Function.update_apply]
    split
    · rename_i heq
      obtain ⟨rfl, rfl⟩ := Prod.mk.inj heq
      simp only [Bool.false_eq_true, false_iff, not_exists]
      intro k hk
      obtain ⟨hne, hold⟩ := hentry l k c hk
      exact absurd (congrArg (Prod.mk l) (h.single l k j c hold hused)) hne
    · rename_i hne
      rw [h.cmap l c]
      constructor
      · rintro ⟨k, hk⟩
        refine ⟨k, ?_⟩
        rw [hsame, hk]
        intro heq
        obtain ⟨rfl, rfl⟩ := Prod.mk.inj heq
        rw [hused] at hk
        exact hne (by rw [Option.some.inj hk])
      · rintro ⟨k, hk⟩
        exact ⟨k, (hentry l k c hk).2⟩
  · intro l
    rw [hcur, Function.update_apply]
    split
    · rename_i heq
      subst heq
      have hcount : (List.range icvSubscriberNb).countP (fun k => (s.subs (l, k)).ring.isSome) =
          (List.range icvSubscriberNb).countP (fun k => (t.subs (l, k)).ring.isSome) + 1 := by
        apply countP_used List.nodup_range (List.mem_range.mpr (h.entry l j chan hused))
        · simp [hring]
        · simp [hused]
        · intro k hk
          rw [hsame (l, k) fun heq => hk (Prod.mk.inj heq).2]
      rw [h.curNb, hcount]
      push_cast
      ring
    · rename_i hne
      rw [h.curNb]
      congr 2
      funext k
      rw [hsame (l, k) fun heq => hne (Prod.mk.inj heq).1]

theorem lineBooking_booked (h : Booked s) {cumul : Bool} (hnew : s.cmap (chan, line) = false)
    (hbook : lineBooking s chan line cumul = some t) : Booked t := by
  obtain ⟨j, hfind, rfl⟩ := Option.map_eq_some_iff.mp hbook
  obtain ⟨hj, hfree⟩ := findSubscriber_eq_some hfind
  refine h.take hfree hj hnew ?_ ?_ rfl rfl
  · simp only [Function.update_self, bookedSubscriber]
  · intro i hi
    simp only [Function.update_of_ne hi]

theorem lineUnBooking_booked (h : Booked s) (hbook : lineUnBooking s chan line = some t) : Booked t := by
  obtain ⟨j, hfind, rfl⟩ := Option.map_eq_some_iff.mp hbook
  obtain ⟨-, hused⟩ := findSubscriber_eq_some hfind
  refine h.giveBack hused ?_ ?_ rfl rfl
  · simp only [Function.update_self, unusedSubscriber]
  · intro i hi
    simp only [Function.update_of_ne hi]

theorem findSubscriber_connected (h : Booked s) (hcon : s.cmap (chan, line) = true) :
    ∃ j, findSubscriber s line (some chan) = some j := by
  obtain ⟨k, hk⟩ := (h.cmap line chan).mp hcon
  by_contra hnone
  rw [not_exists] at hnone
  exact findSubscriber_eq_none (Option.eq_none_iff_forall_ne_some.mpr hnone) (h.entry line k chan hk) hk

end Entries

end HtDrivers.Icv196
