import HtDrivers.Sis33.Caches

/-! # Transfers and left-over interrupts

What a driver has to keep to, and what follows from it for the segments that are transferred and for the acquisitions
that are marked finished. The acquisitions are told apart by the numbers in which they have been accepted: the number
of the one in progress is `acqNo`, since no other is accepted before it is finished.
-/
namespace HtDrivers.Sis33
open HtDrivers.Lib.Transition
set_option autoImplicit false

/-- The operations that a place belongs to. -/
inductive Role
  | acqStart
  | acqCancel
  | irqWork
  | fetch
  deriving DecidableEq, Repr

/-- `inHw` are the acquisitions that the hardware is armed for or has latched an interrupt of, `inPlace` the one that
a place is about, `writes` the segment that is written on the assumption that it acquires, and `handles` the
acquisitions whose interrupts a step of the work item handles. `fetches` is the segment that a place of a transfer is
about; at a place in `drops` the transfer gives back the events that it has published there, which it comes to when
what it needs next is in `fails`. -/
structure Contract {H P E : Type} (D : Driver Caches H P E) where
  role : P → Role
  inHw : H → ℕ → Prop
  inPlace : P → ℕ → Prop
  writes : P → Card Caches → Option ℕ
  handles : P → H → ℕ → Prop
  fetches : P → Option ℕ
  drops : P → Prop
  fails : P → H → Prop
  framed : D.Framed
  role_acqStart : ∀ no, role (D.acqStart no) = .acqStart
  role_acqCancel : role D.acqCancel = .acqCancel
  role_irqWork : role D.irqWork = .irqWork
  role_fetch : ∀ i j n, role (D.fetch i j n) = .fetch
  role_step : ∀ p dev q, (D.step p dev).1 = .goto q → role q = role p
  acqStart_no : ∀ no k, inPlace (D.acqStart no) k → k = no
  acqCancel_no : ∀ k, ¬inPlace D.acqCancel k
  irqWork_no : ∀ k, ¬inPlace D.irqWork k
  fetch_no : ∀ i j n k, ¬inPlace (D.fetch i j n) k
  fetch_fetches : ∀ i j n, fetches (D.fetch i j n) = some i
  fetch_drops : ∀ i j n, ¬drops (D.fetch i j n)
  drops_role : ∀ p, drops p → role p = .fetch
  step_fetches : ∀ p dev q i, (D.step p dev).1 = .goto q → fetches q = some i → fetches p = some i
  step_drops : ∀ p (dev : Dev Caches H) q, (D.step p dev).1 = .goto q → drops q → fails p dev.hw
  step_hw : ∀ p (dev : Dev Caches H) k, inHw (D.step p dev).2.hw k → inHw dev.hw k ∨ inPlace p k
  step_no : ∀ p (dev : Dev Caches H) q k, (D.step p dev).1 = .goto q → inPlace q k → inHw dev.hw k ∨ inPlace p k
  confEv_hw : ∀ desc h k, inHw (D.confEv desc h) k → inHw h k
  hw_hw : ∀ e h h' k, D.hw e h = some h' → inHw h' k → inHw h k
  contents : ∀ p (dev : Dev Caches H) i, Frozen (dev.segment i) ((D.step p dev).2.segment i) ∨
    writes p dev.card = some i ∨ (dev.segment i).acquiring = true ∨
      drops p ∧ fetches p = some i ∧ Frozen (dev.segment i).withoutEvents ((D.step p dev).2.segment i)
  finish : ∀ p (dev : Dev Caches H) i, (dev.segment i).acquiring = true →
    ((D.step p dev).2.segment i).acquiring = false →
    role p = .acqCancel ∨ role p = .irqWork ∧ (∃ k, handles p dev.hw k)
  handles_no : ∀ p (dev : Dev Caches H) k, handles p dev.hw k → inHw dev.hw k ∨ inPlace p k

/-! ## The property and the condition -/

section Steps
variable {T H P E : Type} [DecidableEq T] {l : CardLimits} {D : Driver Caches H P E} {C : Contract D}
  {s s' : Sys T Caches H P} {a : Act T E} {t : T} {p q : P} {i : ℕ}

/-- The operation of the driver that takes a step. -/
def Runs (s : Sys T Caches H P) (a : Act T E) (p : P) : Prop :=
  (∃ t, a = .step t ∧ (s.pc t).op = some p) ∨ a = .work ∧ s.work = some p

def Active (s : Sys T Caches H P) (p : P) : Prop := (∃ t, (s.pc t).op = some p) ∨ s.work = some p

/-- An acquisition is marked finished by a cancel, or by the work item for interrupts of that acquisition. -/
def FinishedRight (handles : P → H → ℕ → Prop) (s : Sys T Caches H P) (a : Act T E) (s' : Sys T Caches H P) : Prop :=
  ∀ i, (s.card.segments i).acquiring = true → (s'.card.segments i).acquiring = false →
    (∃ t p, a = .step t ∧ s.pc t = .cancelling p) ∨
      ∃ p, a = .work ∧ s.work = some p ∧ (∃ k, handles p s.dev.hw k) ∧
        ∀ k, handles p s.dev.hw k → k = s.card.acqNo

structure FrozenStep (handles : P → H → ℕ → Prop) (s : Sys T Caches H P) (a : Act T E) (s' : Sys T Caches H P) :
    Prop where
  frozen : ∀ i, (s.card.segments i).transferring = true → Frozen (s.card.segments i) (s'.card.segments i)
  finished : FinishedRight handles s a s'

/-- The step of the transfer of segment `i` that gives back the events it has published there. -/
def GivesBack (C : Contract D) (s : Sys T Caches H P) (a : Act T E) (i : ℕ) : Prop :=
  ∃ t list p, a = .step t ∧ s.pc t = .fetching list p ∧ list.segment = i ∧ C.drops p

/-- As `FrozenStep`, but that a transfer may give back its own events. -/
structure FrozenButOwn (C : Contract D) (s : Sys T Caches H P) (a : Act T E) (s' : Sys T Caches H P) : Prop where
  frozen : ∀ i, (s.card.segments i).transferring = true → Frozen (s.card.segments i) (s'.card.segments i) ∨
    GivesBack C s a i ∧ Frozen (s.card.segments i).withoutEvents (s'.card.segments i)
  finished : FinishedRight C.handles s a s'

/-- Every step of every run. -/
def FrozenRuns (handles : P → H → ℕ → Prop) (next : Sys T Caches H P → Act T E → Option (Sys T Caches H P))
    (ok : Sys T Caches H P → Act T E → Prop) (start : Sys T Caches H P) : Prop :=
  ∀ s a s', Reach next ok start s → ok s a → next s a = some s' → FrozenStep handles s a s'

/-- Something is left of the acquisition with number `k`: the hardware is armed for it, an interrupt of it is latched
or being handled, or its ACQUIRE is still on its way to arm the hardware. -/
def Held (C : Contract D) (s : Sys T Caches H P) (k : ℕ) : Prop :=
  C.inHw s.dev.hw k ∨ ∃ p, Active s p ∧ C.inPlace p k

/-- Acquisitions are accepted when nothing is left of the earlier ones, and what a driver does to a segment that it
assumes to be acquiring finds it so. -/
structure NoLeftOver (l : CardLimits) (C : Contract D) (s : Sys T Caches H P) (a : Act T E) : Prop where
  quiet : ∀ t desc, a = .acquire t desc → acqArgs desc = none → acqCheck l s.card desc = none → ∀ k, ¬Held C s k
  acquiring : ∀ p i, Runs s a p → C.writes p s.card = some i → (s.card.segments i).acquiring = true

/-- Nor does a transfer fail between publishing its events and having read them. -/
structure Undisturbed (l : CardLimits) (C : Contract D) (s : Sys T Caches H P) (a : Act T E) : Prop
    extends NoLeftOver l C s a where
  reads : ∀ p, Runs s a p → ¬C.fails p s.dev.hw

/-! ## The places -/

/-- What the place of a task says of the place in the driver. -/
def Pc.Fits (C : Contract D) : Pc P → Prop
  | .fetching list p => C.role p = .fetch ∧ ∀ i, C.fetches p = some i → list.segment = i
  | .starting _ p => C.role p = .acqStart
  | .cancelling p => C.role p = .acqCancel
  | _ => True

/-- Tasks and the work item are in operations of their own kind. -/
structure Fits (C : Contract D) (s : Sys T Caches H P) : Prop where
  pc : ∀ t, (s.pc t).Fits C
  work : ∀ p, s.work = some p → C.role p = .irqWork

theorem Pc.Fits.of_op {pc : Pc P} (h : pc.op = none) : pc.Fits C := by
  cases pc
  case fetching | starting | cancelling => cases h
  all_goals trivial

theorem Pc.Fits.after {pc : Pc P} {dev : Dev Caches H} (h : pc.Fits C) (hop : pc.op = some p) :
    (pc.after (D.step p dev).1).Fits C := by
  cases hm : (D.step p dev).1 with
  | ret r => exact .of_op (Pc.after_ret hop r)
  | goto q =>
    have hrole := C.role_step p dev q hm
    cases pc
    case fetching list p =>
      cases hop
      exact ⟨hrole.trans h.1, fun i hi => h.2 i (C.step_fetches p dev q i hm hi)⟩
    case starting | cancelling =>
      cases hop
      exact hrole.trans h
    all_goals cases hop

theorem Fits.goto {pc : Pc P} (hf : Fits C s) (hpc : s'.pc = Function.update s.pc t pc) (hwork : s'.work = s.work)
    (h : pc.Fits C) : Fits C s' where
  pc u := by
    rw [hpc]
    by_cases hu : u = t
    · subst hu
      rw [Function.update_self]
      exact h
    · rw [Function.update_of_ne hu]
      exact hf.pc u
  work p hp := hf.work p (hwork ▸ hp)

theorem Fits.step (hf : Fits C s) (h : Stepped l D s a s') : Fits C s' := by
  cases h with
  | moves hop => exact hf.goto rfl rfl (.of_op hop)
  | claims =>
    refine hf.goto rfl rfl ⟨C.role_fetch _ _ _, fun i hi => ?_⟩
    rw [C.fetch_fetches] at hi
    exact Option.some.inj hi
  | accepts => exact hf.goto rfl rfl (C.role_acqStart _)
  | stores => exact hf.goto rfl rfl trivial
  | cancels => exact hf.goto rfl rfl C.role_acqCancel
  | operates hop => exact hf.goto rfl rfl ((hf.pc _).after hop)
  | fetched => exact hf.goto rfl rfl trivial
  | workStarts =>
    refine ⟨hf.pc, ?_⟩
    rintro p hp
    cases hp
    exact C.role_irqWork
  | works hwork =>
    rename_i p
    refine ⟨hf.pc, ?_⟩
    intro q hq
    rw [C.role_step p s.dev q (Move.work_eq hq)]
    exact hf.work p hwork
  | hw => exact ⟨hf.pc, hf.work⟩

/-! ## What is left of the acquisitions -/

theorem Active.goto {pc : Pc P} (h : Active (s.goto t pc) p) : pc.op = some p ∨ Active s p := by
  obtain ⟨u, hu⟩ | hw := h
  · by_cases hut : u = t
    · subst hut
      exact .inl (by simpa [Sys.goto] using hu)
    · exact .inr (.inl ⟨u, by simpa [Sys.goto, hut] using hu⟩)
  · exact .inr (.inr hw)

theorem Held.goto {pc : Pc P} {k : ℕ} (h : Held C (s.goto t pc) k) :
    Held C s k ∨ ∃ p, pc.op = some p ∧ C.inPlace p k := by
  obtain hk | ⟨p, hp, hk⟩ := h
  · exact .inl (.inl hk)
  · obtain hp | hp := hp.goto
    · exact .inr ⟨p, hp, hk⟩
    · exact .inl (.inr ⟨p, hp, hk⟩)

theorem Held.moves {pc : Pc P} {k : ℕ} (hop : pc.op = none) (h : Held C (s.goto t pc) k) : Held C s k := by
  obtain hk | ⟨p, hp, -⟩ := h.goto
  · exact hk
  · rw [hop] at hp
    cases hp

omit [DecidableEq T] in
theorem Held.operate {k : ℕ} (hp : Active s p) (h : Held C { s with dev := (D.step p s.dev).2 } k) : Held C s k := by
  obtain hk | hk := h
  · obtain hk | hk := C.step_hw p s.dev k hk
    · exact .inl hk
    · exact .inr ⟨p, hp, hk⟩
  · exact .inr hk

omit [DecidableEq T] in
theorem Held.operate_goto {k : ℕ} (hp : Active s p) (hm : (D.step p s.dev).1 = .goto q) (h : C.inPlace q k) :
    Held C s k := by
  obtain hk | hk := C.step_no p s.dev q k hm h
  · exact .inl hk
  · exact .inr ⟨p, hp, hk⟩

/-- Only an accepted ACQUIRE brings a new number in. -/
theorem Held.step (h : Stepped l D s a s') :
    (s'.card.acqNo = s.card.acqNo ∧ ∀ k, Held C s' k → Held C s k) ∨
      s'.card.acqNo = s.card.acqNo + 1 ∧ (∀ k, Held C s' k → Held C s k ∨ k = s.card.acqNo + 1) ∧
        ∃ t desc, a = .acquire t desc ∧ acqArgs desc = none ∧ acqCheck l s.card desc = none := by
  cases h with
  | moves hop => exact .inl ⟨rfl, fun k hk => hk.moves hop⟩
  | claims =>
    refine .inl ⟨rfl, fun k hk => ?_⟩
    obtain hk | ⟨p, hp, hno⟩ := hk.goto
    · exact hk
    · cases hp
      exact absurd hno (C.fetch_no _ _ _ _)
  | accepts hargs hcheck =>
    refine .inr ⟨rfl, fun k hk => ?_, _, _, rfl, hargs, hcheck⟩
    obtain (hk | hk) | ⟨p, hp, hno⟩ := hk.goto
    · exact .inl (.inl (C.confEv_hw _ _ _ hk))
    · exact .inl (.inr hk)
    · cases hp
      exact .inr (C.acqStart_no _ _ hno)
  | stores => exact .inl ⟨rfl, fun k hk => hk.moves rfl⟩
  | cancels =>
    refine .inl ⟨rfl, fun k hk => ?_⟩
    obtain hk | ⟨p, hp, hno⟩ := hk.goto
    · exact hk
    · cases hp
      exact absurd hno (C.acqCancel_no _)
  | operates hop =>
    rename_i t p
    have hp : Active s p := .inl ⟨t, hop⟩
    refine .inl ⟨(C.framed _ _).acqNo, fun k hk => ?_⟩
    obtain hk | ⟨q, hq, hno⟩ := hk.goto
    · exact hk.operate hp
    · exact Held.operate_goto hp (Pc.after_op hop hq) hno
  | fetched => exact .inl ⟨rfl, fun k hk => hk.moves rfl⟩
  | workStarts =>
    refine .inl ⟨rfl, fun k hk => ?_⟩
    obtain hk | ⟨p, ⟨t, ht⟩ | hp, hno⟩ := hk
    · exact .inl hk
    · exact .inr ⟨p, .inl ⟨t, ht⟩, hno⟩
    · cases hp
      exact absurd hno (C.irqWork_no _)
  | works hwork =>
    rename_i p
    have hp : Active s p := .inr hwork
    refine .inl ⟨(C.framed _ _).acqNo, fun k hk => ?_⟩
    obtain hk | ⟨q, ⟨t, ht⟩ | hq, hno⟩ := hk
    · exact Held.operate hp (.inl hk)
    · exact .inr ⟨q, .inl ⟨t, ht⟩, hno⟩
    · exact Held.operate_goto hp (Move.work_eq hq) hno
  | hw hnext =>
    refine .inl ⟨rfl, fun k hk => ?_⟩
    obtain hk | ⟨p, hp, hno⟩ := hk
    · exact .inl (C.hw_hw _ _ _ _ hnext hk)
    · exact .inr ⟨p, hp, hno⟩

/-- Whatever is left belongs to the acquisition accepted last. -/
def Current (C : Contract D) (s : Sys T Caches H P) : Prop := ∀ k, Held C s k → k = s.card.acqNo

theorem Current.step (hc : Current C s) (hok : NoLeftOver l C s a) (h : Stepped l D s a s') : Current C s' := by
  intro k hk
  obtain ⟨hno, hheld⟩ | ⟨hno, hheld, t, desc, ha, hargs, hcheck⟩ := Held.step (C := C) h
  · rw [hno]
    exact hc k (hheld k hk)
  · rw [hno]
    obtain hk | hk := hheld k hk
    · exact absurd hk (hok.quiet t desc ha hargs hcheck k)
    · exact hk

/-! ## Every step of every run -/

omit [DecidableEq T] in
theorem Fits.givesBack (hf : Fits C s) (hruns : Runs s a p) (hdrops : C.drops p) (hfetches : C.fetches p = some i) :
    GivesBack C s a i := by
  have hrole := C.drops_role p hdrops
  obtain ⟨t, ha, hop⟩ | ⟨ha, hwork⟩ := hruns
  · have hfits := hf.pc t
    cases hpc : s.pc t with
    | fetching list q =>
      rw [hpc] at hop hfits
      cases hop
      exact ⟨t, list, p, ha, hpc, hfits.2 i hfetches, hdrops⟩
    | starting desc q =>
      rw [hpc] at hop hfits
      cases hop
      change C.role p = .acqStart at hfits
      rw [hrole] at hfits
      cases hfits
    | cancelling q =>
      rw [hpc] at hop hfits
      cases hop
      change C.role p = .acqCancel at hfits
      rw [hrole] at hfits
      cases hfits
    | _ =>
      rw [hpc] at hop
      cases hop
  · have hwork' := hf.work p hwork
    rw [hrole] at hwork'
    cases hwork'

omit [DecidableEq T] in
theorem FrozenButOwn.operate (hi : AcqInv s.card) (hf : Fits C s) (hc : Current C s) (hok : NoLeftOver l C s a)
    (hruns : Runs s a p) (hcard : s'.card = (D.step p s.dev).2.card) : FrozenButOwn C s a s' := by
  refine ⟨fun i htrans => ?_, fun i hacq hdone => ?_⟩
  · have hidle : (s.card.segments i).acquiring ≠ true := by
      intro hacq
      rw [hi.notBoth i hacq] at htrans
      cases htrans
    rw [hcard]
    obtain hfrozen | hwrites | hacq | ⟨hdrops, hfetches, hfrozen⟩ := C.contents p s.dev i
    · exact .inl hfrozen
    · exact absurd (hok.acquiring p i hruns hwrites) hidle
    · exact absurd hacq hidle
    · exact .inr ⟨hf.givesBack hruns hdrops hfetches, hfrozen⟩
  · rw [hcard] at hdone
    have hrole := C.finish p s.dev i hacq hdone
    obtain ⟨t, ha, hop⟩ | ⟨ha, hwork⟩ := hruns
    · have hfits := hf.pc t
      cases hpc : s.pc t with
      | cancelling q => exact .inl ⟨t, q, ha, hpc⟩
      | fetching list q =>
        rw [hpc] at hop hfits
        cases hop
        rw [hfits.1] at hrole
        obtain h | ⟨h, -⟩ := hrole <;> cases h
      | starting desc q =>
        rw [hpc] at hop hfits
        cases hop
        change C.role p = .acqStart at hfits
        rw [hfits] at hrole
        obtain h | ⟨h, -⟩ := hrole <;> cases h
      | _ =>
        rw [hpc] at hop
        cases hop
    · rw [hf.work p hwork] at hrole
      obtain h | ⟨-, hhandles⟩ := hrole
      · cases h
      · refine .inr ⟨p, ha, hwork, hhandles, fun k hk => hc k ?_⟩
        obtain hk | hk := C.handles_no p s.dev k hk
        · exact .inl hk
        · exact .inr ⟨p, .inr hwork, hk⟩

omit [DecidableEq T] in
/-- A step of the core leaves the contents of the segments alone, and finishes no acquisition. -/
theorem FrozenButOwn.core
    (hseg : ∀ i, (s.card.segments i).transferring = true → Frozen (s.card.segments i) (s'.card.segments i))
    (hacq : ∀ i, (s.card.segments i).acquiring = true → (s'.card.segments i).acquiring = true) :
    FrozenButOwn C s a s' := by
  refine ⟨fun i htrans => .inl (hseg i htrans), fun i h h' => ?_⟩
  rw [hacq i h] at h'
  cases h'

theorem setTransferring_frozen {card : Card Caches} (i j : ℕ) (b : Bool) :
    Frozen (card.segments i) ((setTransferring card j b).segments i) := by
  unfold setTransferring
  by_cases hij : i = j
  · subst hij
    rw [setSegment_self]
    exact Frozen.of_eq rfl rfl rfl
  · rw [setSegment_of_ne hij]
    exact Frozen.refl _

theorem FrozenButOwn.step (hi : AcqInv s.card) (hf : Fits C s) (hc : Current C s) (hok : NoLeftOver l C s a)
    (h : Stepped l D s a s') : FrozenButOwn C s a s' := by
  cases h with
  | moves => exact .core (fun i _ => Frozen.refl _) fun i h => h
  | claims =>
    refine .core (fun i _ => setTransferring_frozen i _ true) fun i h => ?_
    exact setTransferring_acquiring.trans h
  | accepts hargs hcheck =>
    rename_i t desc
    refine .core (fun i htrans => ?_) fun i hacq => ?_
    · have hne : i ≠ desc.segment := by
        rintro rfl
        rw [(acqCheck_none hcheck).2.2.2.2.1] at htrans
        cases htrans
      change Frozen _ ((s.card.setSegment _ _).segments i)
      rw [setSegment_of_ne hne]
      exact Frozen.refl _
    · change ((acqAccept s.card desc).segments i).acquiring = true
      rw [acqAccept_acquiring]
      split
      · rfl
      · exact hacq
  | stores => exact .core (fun i _ => Frozen.refl _) fun i h => h
  | cancels => exact .core (fun i _ => Frozen.refl _) fun i h => h
  | operates hop => exact .operate hi hf hc hok (.inl ⟨_, rfl, hop⟩) rfl
  | fetched =>
    refine .core (fun i _ => setTransferring_frozen i _ false) fun i h => ?_
    exact setTransferring_acquiring.trans h
  | workStarts => exact .core (fun i _ => Frozen.refl _) fun i h => h
  | works hwork => exact .operate hi hf hc hok (.inr ⟨rfl, hwork⟩) rfl
  | hw => exact .core (fun i _ => Frozen.refl _) fun i h => h

/-- No transfer has come to the place where it gives back its events. -/
def NoDrop (C : Contract D) (s : Sys T Caches H P) : Prop := ∀ t p, (s.pc t).op = some p → ¬C.drops p

theorem NoDrop.goto {pc : Pc P} (hn : NoDrop C s) (hpc : s'.pc = Function.update s.pc t pc)
    (h : ∀ p, pc.op = some p → ¬C.drops p) : NoDrop C s' := by
  intro u p hp
  rw [hpc] at hp
  by_cases hu : u = t
  · subst hu
    rw [Function.update_self] at hp
    exact h p hp
  · rw [Function.update_of_ne hu] at hp
    exact hn u p hp

theorem NoDrop.step (hn : NoDrop C s) (hok : Undisturbed l C s a) (h : Stepped l D s a s') : NoDrop C s' := by
  cases h with
  | moves hop =>
    refine hn.goto rfl fun p hp => ?_
    rw [hop] at hp
    cases hp
  | claims =>
    refine hn.goto rfl fun p hp => ?_
    cases hp
    exact C.fetch_drops _ _ _
  | accepts =>
    refine hn.goto rfl fun p hp hdrops => ?_
    cases hp
    have hrole := C.drops_role _ hdrops
    rw [C.role_acqStart] at hrole
    cases hrole
  | stores | fetched =>
    refine hn.goto rfl fun p hp => ?_
    cases hp
  | cancels =>
    refine hn.goto rfl fun p hp hdrops => ?_
    cases hp
    have hrole := C.drops_role _ hdrops
    rw [C.role_acqCancel] at hrole
    cases hrole
  | operates hop =>
    rename_i t p
    refine hn.goto rfl fun q hq hdrops => ?_
    exact hok.reads p (.inl ⟨t, rfl, hop⟩) (C.step_drops p s.dev q (Pc.after_op hop hq) hdrops)
  | workStarts | works | hw => exact hn

/-- What holds of a run that meets the condition. -/
theorem fits_run (C : Contract D) (l : CardLimits) {hw : H} (hhw : ∀ k, ¬C.inHw hw k) (n : ℕ)
    {ok : Sys T Caches H P → Act T E → Prop} (hok : ∀ s a, ok s a → NoLeftOver l C s a)
    (h : Reach (coreNext l D) ok (coreInit T noCaches hw n) s) : Fits C s ∧ Current C s := by
  refine h.invariant (I := fun s => Fits C s ∧ Current C s) ?_ ?_
  · refine ⟨⟨fun t => trivial, fun p hp => by cases hp⟩, ?_⟩
    rintro k (hk | ⟨p, ⟨t, ht⟩ | hp, -⟩)
    · exact absurd hk (hhw k)
    · cases ht
    · cases hp
  · rintro s a s' ⟨hf, hc⟩ ha hnext
    exact ⟨hf.step (coreNext_stepped hnext), hc.step (hok s a ha) (coreNext_stepped hnext)⟩

/-- With nothing left over, only a transfer that fails takes its own events back. -/
theorem frozenButOwn_of_contract (C : Contract D) (l : CardLimits) {hw : H} (hhw : ∀ k, ¬C.inHw hw k) (n : ℕ)
    (h : Reach (coreNext l D) (NoLeftOver l C) (coreInit T noCaches hw n) s) (hok : NoLeftOver l C s a)
    (hnext : coreNext l D s a = some s') : FrozenButOwn C s a s' := by
  obtain ⟨hf, hc⟩ := fits_run C l hhw n (fun _ _ h => h) h
  exact .step (AcqInv.run C.framed h) hf hc hok (coreNext_stepped hnext)

theorem frozenRuns_of_contract (C : Contract D) (l : CardLimits) {hw : H} (hhw : ∀ k, ¬C.inHw hw k) (n : ℕ) :
    FrozenRuns C.handles (coreNext l D) (Undisturbed l C) (coreInit T noCaches hw n) := by
  intro s a s' h hok hnext
  obtain ⟨hf, hc⟩ := fits_run C l hhw n (fun _ _ h => h.toNoLeftOver) h
  have hn : NoDrop C s := by
    refine h.invariant (I := fun s => NoDrop C s) ?_ ?_
    · intro t p hp
      cases hp
    · exact fun s a s' hn ha hnext => hn.step ha (coreNext_stepped hnext)
  have hstep : FrozenButOwn C s a s' :=
    .step (AcqInv.run C.framed h) hf hc hok.toNoLeftOver (coreNext_stepped hnext)
  refine ⟨fun i htrans => ?_, hstep.finished⟩
  obtain hfrozen | ⟨⟨t, list, p, -, hpc, -, hdrops⟩, -⟩ := hstep.frozen i htrans
  · exact hfrozen
  · refine absurd hdrops (hn t p ?_)
    rw [hpc]
    rfl

end Steps

end HtDrivers.Sis33
