import HtDrivers.Lib.Words
import HtDrivers.Vmebridge.Vmebus

/-! # VME bus errors (`vme_misc.c`, `vme_irq.c`)

The driver keeps the last error in one descriptor, which the next error overwrites and a matching check
clears, and calls the handlers whose range the error falls into. All accesses are made under one lock,
so that a run is a sequence of events.
-/
namespace HtDrivers.Vmebridge
open HtDrivers.Lib.Words
set_option autoImplicit false

structure VmeBusError where
  address : BitVec 64
  am : U32
  deriving DecidableEq, Repr

/-- `struct vme_bus_error_desc`. -/
structure VmeBusErrorDesc where
  error : VmeBusError
  valid : Bool
  deriving DecidableEq, Repr

/-- `struct vme_berr_handler`; `addr` is where it was allocated, `func` the function it names, and the
size is widened to the type it is added in. -/
structure VmeBerrHandler where
  addr : ℕ
  error : VmeBusError
  size : BitVec 64
  func : ℕ
  deriving DecidableEq, Repr

/-- `struct vme_verr`. -/
structure VmeVerr where
  desc : VmeBusErrorDesc
  hList : List VmeBerrHandler
  deriving DecidableEq, Repr

def vmeBusErrorInit : VmeVerr := ⟨⟨⟨0, 0⟩, false⟩, []⟩

/-- The exception registers of the chip. -/
structure ErrorRegs where
  veau : U32
  veal : U32
  veat : U32
  deriving DecidableEq, Repr

def tsi148LcsrVeatAm : U32 := 0x3f#32 <<< 8
def tsi148LcsrVeatAmShift : ℕ := 8

def tsi148HandleVmeError (regs : ErrorRegs) : VmeBusError :=
  ⟨pair regs.veau regs.veal, (regs.veat &&& tsi148LcsrVeatAm) >>> tsi148LcsrVeatAmShift⟩

def vmeBerrMatch (error : VmeBusError) (handler : VmeBerrHandler) : Bool :=
  error.am = handler.error.am ∧ error.address ≥ handler.error.address ∧
    error.address < handler.error.address + handler.size

/-- The handlers that `__vme_dispatch_berr` calls, in order. -/
def vmeDispatchBerr (verr : VmeVerr) (error : VmeBusError) : List VmeBerrHandler :=
  verr.hList.filter (vmeBerrMatch error)

/-- The handlers that are called, and the state. -/
def handleVmeError (verr : VmeVerr) (regs : ErrorRegs) : List VmeBerrHandler × VmeVerr :=
  let error := tsi148HandleVmeError regs
  let verr := { verr with desc := ⟨error, true⟩ }
  (vmeDispatchBerr verr error, verr)

def vmeBusErrorCheckClear (verr : VmeVerr) (err : VmeBusError) : Int × VmeVerr :=
  if verr.desc.valid ∧ verr.desc.error.am = err.am ∧ verr.desc.error.address = err.address then
    (1, { verr with desc := { verr.desc with valid := false } })
  else (0, verr)

/-- `kzalloc` is the address of the new object. The return value is the handler or an error. -/
def vmeRegisterBerrHandler (kzalloc : Option ℕ) (verr : VmeVerr) (error : VmeBusError) (size : BitVec 64) (func : ℕ) :
    Except Int ℕ × VmeVerr :=
  if size = 0 then (.error (-EINVAL), verr)
  else match kzalloc with
    | none => (.error (-ENOMEM), verr)
    | some addr => (.ok addr, { verr with hList := verr.hList ++ [⟨addr, error, size, func⟩] })

def vmeUnregisterBerrHandler (verr : VmeVerr) (handler : ℕ) : VmeVerr :=
  { verr with hList := verr.hList.eraseP fun entry => entry.addr = handler }

/-! ## Runs -/

inductive BerrEvent where
  | interrupt (regs : ErrorRegs)
  | register (kzalloc : Option ℕ) (error : VmeBusError) (size : BitVec 64) (func : ℕ)
  | unregister (handler : ℕ)
  | check (err : VmeBusError)
  deriving DecidableEq, Repr

def berrStep (verr : VmeVerr) : BerrEvent → VmeVerr
  | .interrupt regs => (handleVmeError verr regs).2
  | .register kzalloc error size func => (vmeRegisterBerrHandler kzalloc verr error size func).2
  | .unregister handler => vmeUnregisterBerrHandler verr handler
  | .check err => (vmeBusErrorCheckClear verr err).2

def berrRun (events : List BerrEvent) : VmeVerr := events.foldl berrStep vmeBusErrorInit

theorem berrRun_concat (events : List BerrEvent) (e : BerrEvent) :
    berrRun (events ++ [e]) = berrStep (berrRun events) e :=
  List.foldl_concat ..

/-- After `events`, a check for `err` returns 1. -/
def ChecksOne (events : List BerrEvent) (err : VmeBusError) : Prop := (vmeBusErrorCheckClear (berrRun events) err).1 = 1

instance (events : List BerrEvent) (err : VmeBusError) : Decidable (ChecksOne events err) :=
  inferInstanceAs (Decidable (_ = _))

/-- The error was reported after `pre`, and no check for it has returned 1 during the events `post` that
followed. -/
def Unchecked (pre post : List BerrEvent) (regs : ErrorRegs) : Prop :=
  ∀ p₁ p₂, post = p₁ ++ .check (tsi148HandleVmeError regs) :: p₂ →
    ¬ ChecksOne (pre ++ .interrupt regs :: p₁) (tsi148HandleVmeError regs)

/-- An error that matches `err` was reported and not checked since, whatever else happened. -/
def Reported (events : List BerrEvent) (err : VmeBusError) : Prop :=
  ∃ pre regs post, events = pre ++ .interrupt regs :: post ∧ tsi148HandleVmeError regs = err ∧ Unchecked pre post regs

/-- The last error that was reported matches `err` and was not checked since. -/
def ReportedLast (events : List BerrEvent) (err : VmeBusError) : Prop :=
  ∃ pre regs post, events = pre ++ .interrupt regs :: post ∧ tsi148HandleVmeError regs = err ∧
    (∀ r, .interrupt r ∉ post) ∧ Unchecked pre post regs

/-! ## Handlers -/

/-- The end of the range does not leave 64 bits. -/
def VmeBerrHandler.Fits (h : VmeBerrHandler) : Prop := h.error.address.toNat + h.size.toNat < 2^64

/-- The error concerns the handler: the modifier is the same and the range contains the address. -/
def VmeBerrHandler.Concerns (h : VmeBerrHandler) (e : VmeBusError) : Prop :=
  e.am = h.error.am ∧ h.error.address.toNat ≤ e.address.toNat ∧
    e.address.toNat < h.error.address.toNat + h.size.toNat

instance (h : VmeBerrHandler) : Decidable h.Fits := inferInstanceAs (Decidable (_ < _))

instance (h : VmeBerrHandler) (e : VmeBusError) : Decidable (h.Concerns e) := inferInstanceAs (Decidable (_ ∧ _))

theorem vmeBerrMatch_iff {h : VmeBerrHandler} (hfits : h.Fits) (e : VmeBusError) :
    vmeBerrMatch e h = true ↔ h.Concerns e := by
  have hsum : (h.error.address + h.size).toNat = h.error.address.toNat + h.size.toNat := by
    rw [BitVec.toNat_add, Nat.mod_eq_of_lt hfits]
  unfold vmeBerrMatch VmeBerrHandler.Concerns
  rw [decide_eq_true_iff, ge_iff_le, BitVec.le_def, BitVec.lt_def, hsum]

/-! ## Checks -/

section Checks
variable {events : List BerrEvent} {err : VmeBusError}

theorem checksOne_iff :
    ChecksOne events err ↔ (berrRun events).desc.valid = true ∧ (berrRun events).desc.error = err := by
  unfold ChecksOne vmeBusErrorCheckClear
  rcases (berrRun events).desc with ⟨⟨address, am⟩, valid⟩
  rcases err with ⟨address', am'⟩
  simp only [VmeBusError.mk.injEq]
  split
  · rename_i hmatch
    exact ⟨fun _ => ⟨hmatch.1, hmatch.2.2, hmatch.2.1⟩, fun _ => rfl⟩
  · rename_i hmatch
    constructor
    · intro h
      exact absurd h (by decide : ¬ (0 : Int) = 1)
    · rintro ⟨hvalid, haddress, ham⟩
      exact absurd ⟨hvalid, ham, haddress⟩ hmatch

theorem checksOne_interrupt (regs : ErrorRegs) :
    ChecksOne (events ++ [.interrupt regs]) err ↔ tsi148HandleVmeError regs = err := by
  rw [checksOne_iff, berrRun_concat]
  exact ⟨fun h => h.2, fun h => ⟨rfl, h⟩⟩

theorem checksOne_register (kzalloc : Option ℕ) (error : VmeBusError) (size : BitVec 64) (func : ℕ) :
    ChecksOne (events ++ [.register kzalloc error size func]) err ↔ ChecksOne events err := by
  have hdesc : (vmeRegisterBerrHandler kzalloc (berrRun events) error size func).2.desc = (berrRun events).desc := by
    unfold vmeRegisterBerrHandler
    split
    · rfl
    · split <;> rfl
  rw [checksOne_iff, checksOne_iff, berrRun_concat]
  change (vmeRegisterBerrHandler kzalloc (berrRun events) error size func).2.desc.valid = true ∧ _ ↔ _
  rw [hdesc]
  change _ ∧ (vmeRegisterBerrHandler kzalloc (berrRun events) error size func).2.desc.error = err ↔ _
  rw [hdesc]

theorem checksOne_unregister (handler : ℕ) :
    ChecksOne (events ++ [.unregister handler]) err ↔ ChecksOne events err := by
  rw [checksOne_iff, checksOne_iff, berrRun_concat]
  rfl

theorem checksOne_check (err' : VmeBusError) :
    ChecksOne (events ++ [.check err']) err ↔ ChecksOne events err ∧ (err' = err → ¬ ChecksOne events err) := by
  have hstep : (berrRun (events ++ [.check err'])).desc =
      if ChecksOne events err' then { (berrRun events).desc with valid := false } else (berrRun events).desc := by
    rw [berrRun_concat]
    change (vmeBusErrorCheckClear (berrRun events) err').2.desc = _
    unfold ChecksOne vmeBusErrorCheckClear
    split
    · rfl
    · rfl
  rw [checksOne_iff, hstep]
  by_cases hone : ChecksOne events err'
  · rw [if_pos hone]
    constructor
    · rintro ⟨hvalid, -⟩
      cases hvalid
    · rintro ⟨herr, hother⟩
      have hsame : err' = err := (checksOne_iff.mp hone).2.symm.trans (checksOne_iff.mp herr).2
      exact absurd herr (hother hsame)
  · rw [if_neg hone, ← checksOne_iff]
    refine ⟨fun h => ⟨h, ?_⟩, fun h => h.1⟩
    rintro rfl
    exact hone

end Checks

/-! ## The last error -/

section Last
variable {events : List BerrEvent} {err : VmeBusError} {e : BerrEvent}

theorem concat_eq_split {α : Type} {l pre post : List α} {a x : α} (h : l ++ [a] = pre ++ x :: post) :
    (post = [] ∧ x = a ∧ pre = l) ∨ ∃ post', post = post' ++ [a] ∧ l = pre ++ x :: post' := by
  obtain rfl | ⟨post', b, rfl⟩ := List.eq_nil_or_concat' post
  · obtain ⟨hpre, hx⟩ := List.append_inj' h rfl
    exact .inl ⟨rfl, (List.cons.inj hx).1.symm, hpre.symm⟩
  · rw [← List.cons_append, ← List.append_assoc] at h
    obtain ⟨hl, hb⟩ := List.append_inj' h rfl
    exact .inr ⟨post', by rw [(List.cons.inj hb).1], hl⟩

theorem unchecked_concat {pre post : List BerrEvent} {regs : ErrorRegs} :
    Unchecked pre (post ++ [e]) regs ↔ Unchecked pre post regs ∧
      (e = .check (tsi148HandleVmeError regs) →
        ¬ ChecksOne (pre ++ .interrupt regs :: post) (tsi148HandleVmeError regs)) := by
  constructor
  · intro h
    refine ⟨fun p₁ p₂ hpost => h p₁ (p₂ ++ [e]) (by rw [hpost]; simp), ?_⟩
    rintro rfl
    exact h post [] rfl
  · rintro ⟨hpost, he⟩ p₁ p₂ hsplit
    obtain ⟨-, hcheck, rfl⟩ | ⟨p₂', -, hsplit'⟩ := concat_eq_split hsplit
    · exact he hcheck.symm
    · exact hpost p₁ p₂' hsplit'

theorem reportedLast_interrupt (regs : ErrorRegs) :
    ReportedLast (events ++ [.interrupt regs]) err ↔ tsi148HandleVmeError regs = err := by
  constructor
  · rintro ⟨pre, regs', post, hsplit, herr, hlast, -⟩
    obtain ⟨-, hregs, -⟩ | ⟨post', rfl, -⟩ := concat_eq_split hsplit
    · rw [← herr, BerrEvent.interrupt.inj hregs]
    · exact absurd (List.mem_append.mpr (.inr (List.mem_singleton.mpr rfl))) (hlast regs)
  · intro herr
    refine ⟨events, regs, [], rfl, herr, fun r hr => (by cases hr), fun p₁ p₂ hnil => ?_⟩
    simp at hnil

theorem reportedLast_other (hquiet : ∀ regs, e ≠ .interrupt regs) :
    ReportedLast (events ++ [e]) err ↔ ReportedLast events err ∧ (e = .check err → ¬ ChecksOne events err) := by
  constructor
  · rintro ⟨pre, regs, post, hsplit, rfl, hlast, hunchecked⟩
    obtain ⟨-, he, -⟩ | ⟨post', rfl, rfl⟩ := concat_eq_split hsplit
    · exact absurd he.symm (hquiet regs)
    · obtain ⟨hun, he⟩ := unchecked_concat.mp hunchecked
      exact ⟨⟨pre, regs, post', rfl, rfl, fun r hr => hlast r (List.mem_append_left _ hr), hun⟩, he⟩
  · rintro ⟨⟨pre, regs, post, rfl, rfl, hlast, hun⟩, he⟩
    refine ⟨pre, regs, post ++ [e], by simp, rfl, fun r hr => ?_, unchecked_concat.mpr ⟨hun, he⟩⟩
    obtain hpost | hlast' := List.mem_append.mp hr
    · exact hlast r hpost
    · exact hquiet r (List.mem_singleton.mp hlast').symm

/-- A check returns 1 exactly when the last error that was reported is the one it asks for and no check
for it has returned 1 since. -/
theorem checksOne_iff_reportedLast (events : List BerrEvent) (err : VmeBusError) :
    ChecksOne events err ↔ ReportedLast events err := by
  induction events using List.reverseRecOn with
  | nil =>
    constructor
    · intro h
      cases (checksOne_iff.mp h).1
    · rintro ⟨pre, regs, post, hsplit, -⟩
      simp at hsplit
  | append_singleton events e ih =>
    cases e with
    | interrupt regs => rw [checksOne_interrupt, reportedLast_interrupt]
    | register kzalloc error size func =>
      rw [checksOne_register, reportedLast_other (by intro regs h; cases h), ih]
      exact ⟨fun h => ⟨h, fun he => by cases he⟩, fun h => h.1⟩
    | unregister handler =>
      rw [checksOne_unregister, reportedLast_other (by intro regs h; cases h), ih]
      exact ⟨fun h => ⟨h, fun he => by cases he⟩, fun h => h.1⟩
    | check err' =>
      rw [checksOne_check, reportedLast_other (by intro regs h; cases h), ih, BerrEvent.check.injEq]

end Last

/-! ## Registered handlers -/

section Registered

/-- The handler was registered and has not been unregistered since. -/
def Registered (events : List BerrEvent) (h : VmeBerrHandler) : Prop :=
  ∃ pre post, events = pre ++ .register (some h.addr) h.error h.size h.func :: post ∧ h.size ≠ 0 ∧
    .unregister h.addr ∉ post

/-- `kzalloc` does not return the address of an object that is in use. -/
def FreshAllocs (events : List BerrEvent) : Prop :=
  ∀ pre post addr error size func, events = pre ++ .register (some addr) error size func :: post →
    size ≠ 0 → ∀ h ∈ (berrRun pre).hList, h.addr ≠ addr

variable {events : List BerrEvent} {e : BerrEvent} {h : VmeBerrHandler}

theorem freshAllocs_nil : FreshAllocs [] := by
  intro pre post addr error size func hsplit
  simp at hsplit

theorem freshAllocs_concat : FreshAllocs (events ++ [e]) ↔ FreshAllocs events ∧
    ∀ addr error size func, e = .register (some addr) error size func → size ≠ 0 →
      ∀ h ∈ (berrRun events).hList, h.addr ≠ addr := by
  constructor
  · intro hfresh
    refine ⟨fun pre post addr error size func hsplit => ?_, ?_⟩
    · exact hfresh pre (post ++ [e]) addr error size func (by simp [hsplit])
    · rintro addr error size func rfl
      exact hfresh events [] addr error size func rfl
  · rintro ⟨hevents, he⟩ pre post addr error size func hsplit
    obtain ⟨-, hreg, rfl⟩ | ⟨post', -, hsplit'⟩ := concat_eq_split hsplit
    · exact he addr error size func hreg.symm
    · exact hevents pre post' addr error size func hsplit'

theorem registered_concat : Registered (events ++ [e]) h ↔
    (e = .register (some h.addr) h.error h.size h.func ∧ h.size ≠ 0) ∨
      (Registered events h ∧ e ≠ .unregister h.addr) := by
  constructor
  · rintro ⟨pre, post, hsplit, hsize, hlive⟩
    obtain ⟨-, he, -⟩ | ⟨post', rfl, rfl⟩ := concat_eq_split hsplit
    · exact .inl ⟨he.symm, hsize⟩
    · refine .inr ⟨⟨pre, post', rfl, hsize, fun hmem => hlive (List.mem_append_left _ hmem)⟩, ?_⟩
      rintro rfl
      exact hlive (List.mem_append.mpr (.inr (List.mem_singleton.mpr rfl)))
  · rintro (⟨rfl, hsize⟩ | ⟨⟨pre, post, rfl, hsize, hlive⟩, he⟩)
    · exact ⟨events, [], rfl, hsize, by simp⟩
    · refine ⟨pre, post ++ [e], by simp, hsize, fun hmem => ?_⟩
      obtain hpost | hlast := List.mem_append.mp hmem
      · exact hlive hpost
      · exact he (List.mem_singleton.mp hlast).symm

theorem mem_eraseP_of_nodup {l : List VmeBerrHandler} (hl : (l.map VmeBerrHandler.addr).Nodup) (addr : ℕ) :
    h ∈ l.eraseP (fun entry => entry.addr = addr) ↔ h ∈ l ∧ h.addr ≠ addr := by
  induction l with
  | nil => simp
  | cons x l ih =>
    obtain ⟨hx, hl'⟩ := List.nodup_cons.mp hl
    by_cases hxa : x.addr = addr
    · rw [List.eraseP_cons_of_pos (by simp [hxa])]
      constructor
      · intro hmem
        refine ⟨List.mem_cons_of_mem _ hmem, fun hha => hx ?_⟩
        rw [hxa, ← hha]
        exact List.mem_map_of_mem hmem
      · rintro ⟨hmem, hne⟩
        obtain rfl | hmem := List.mem_cons.mp hmem
        · exact absurd hxa hne
        · exact hmem
    · rw [List.eraseP_cons_of_neg (by simp [hxa]), List.mem_cons, ih hl', List.mem_cons]
      constructor
      · rintro (rfl | ⟨hmem, hne⟩)
        · exact ⟨.inl rfl, hxa⟩
        · exact ⟨.inr hmem, hne⟩
      · rintro ⟨rfl | hmem, hne⟩
        · exact .inl rfl
        · exact .inr ⟨hmem, hne⟩

theorem registered_quiet (hreg : ¬ (e = .register (some h.addr) h.error h.size h.func ∧ h.size ≠ 0))
    (hun : e ≠ .unregister h.addr) : Registered (events ++ [e]) h ↔ Registered events h := by
  rw [registered_concat]
  constructor
  · rintro (hnew | ⟨hold, -⟩)
    · exact absurd hnew hreg
    · exact hold
  · exact fun hold => .inr ⟨hold, hun⟩

/-- The list holds the registered handlers, each once. -/
theorem hList_registered (hfresh : FreshAllocs events) :
    ((berrRun events).hList.map VmeBerrHandler.addr).Nodup ∧ ∀ h, h ∈ (berrRun events).hList ↔ Registered events h := by
  induction events using List.reverseRecOn with
  | nil =>
    refine ⟨List.nodup_nil, fun h => ⟨fun hmem => (by cases hmem), ?_⟩⟩
    rintro ⟨pre, post, hsplit, -⟩
    simp at hsplit
  | append_singleton events e ih =>
    obtain ⟨hbefore, hnow⟩ := freshAllocs_concat.mp hfresh
    obtain ⟨hnodup, hmem⟩ := ih hbefore
    rw [berrRun_concat]
    cases e with
    | interrupt regs =>
      exact ⟨hnodup, fun h => (hmem h).trans (registered_quiet (fun he => by cases he.1) (fun he => by cases he)).symm⟩
    | check err =>
      have hsame : (berrStep (berrRun events) (.check err)).hList = (berrRun events).hList := by
        change (vmeBusErrorCheckClear (berrRun events) err).2.hList = _
        unfold vmeBusErrorCheckClear
        split <;> rfl
      rw [hsame]
      exact ⟨hnodup, fun h => (hmem h).trans (registered_quiet (fun he => by cases he.1) (fun he => by cases he)).symm⟩
    | unregister addr =>
      refine ⟨hnodup.sublist (List.eraseP_sublist.map _), fun h => ?_⟩
      change h ∈ (berrRun events).hList.eraseP _ ↔ _
      rw [mem_eraseP_of_nodup hnodup, hmem h, registered_concat]
      constructor
      · rintro ⟨hold, hne⟩
        exact .inr ⟨hold, fun he => hne (BerrEvent.unregister.inj he).symm⟩
      · rintro (⟨he, -⟩ | ⟨hold, hne⟩)
        · cases he
        · exact ⟨hold, fun haddr => hne (by rw [haddr])⟩
    | register kzalloc error size func =>
      change ((vmeRegisterBerrHandler kzalloc (berrRun events) error size func).2.hList.map _).Nodup ∧
        ∀ h, h ∈ (vmeRegisterBerrHandler kzalloc (berrRun events) error size func).2.hList ↔ _
      unfold vmeRegisterBerrHandler
      by_cases hsize : size = 0
      · rw [if_pos hsize]
        refine ⟨hnodup, fun h => (hmem h).trans (registered_quiet ?_ (fun he => by cases he)).symm⟩
        rintro ⟨he, hne⟩
        cases he
        exact hne hsize
      · rw [if_neg hsize]
        cases kzalloc with
        | none =>
          exact ⟨hnodup, fun h => (hmem h).trans
            (registered_quiet (fun he => by cases he.1) (fun he => by cases he)).symm⟩
        | some addr =>
          have hnew := hnow addr error size func rfl hsize
          refine ⟨?_, fun h => ?_⟩
          · rw [List.map_append, List.map_singleton, List.nodup_append]
            refine ⟨hnodup, List.nodup_singleton _, ?_⟩
            intro a ha b hb
            obtain ⟨x, hx, rfl⟩ := List.mem_map.mp ha
            rw [List.mem_singleton.mp hb]
            exact hnew x hx
          · rw [List.mem_append, List.mem_singleton, hmem h, registered_concat]
            constructor
            · rintro (hold | rfl)
              · exact .inr ⟨hold, fun he => (by cases he)⟩
              · exact .inl ⟨rfl, hsize⟩
            · rintro (⟨he, -⟩ | ⟨hold, -⟩)
              · simp only [BerrEvent.register.injEq, Option.some.injEq] at he
                obtain ⟨rfl, rfl, rfl, rfl⟩ := he
                exact .inr rfl
              · exact .inl hold

end Registered

/-- For every sequence of events: an error calls, of the handlers whose range fits in 64 bits, exactly
those that are registered and that it concerns, each once; and a check returns 1 exactly when the last
error is the one it asks for and no check has cleared it. -/
theorem busErrors_reach_clients (events : List BerrEvent) :
    (FreshAllocs events → ∀ regs,
      ((handleVmeError (berrRun events) regs).1.map VmeBerrHandler.addr).Nodup ∧
      ∀ h : VmeBerrHandler, h.Fits → (h ∈ (handleVmeError (berrRun events) regs).1 ↔
        Registered events h ∧ h.Concerns (tsi148HandleVmeError regs))) ∧
    ∀ err, ChecksOne events err ↔ ReportedLast events err := by
  refine ⟨fun hfresh regs => ?_, checksOne_iff_reportedLast events⟩
  obtain ⟨hnodup, hmem⟩ := hList_registered hfresh
  refine ⟨hnodup.sublist (List.filter_sublist.map _), fun h hfits => ?_⟩
  change h ∈ (berrRun events).hList.filter (vmeBerrMatch (tsi148HandleVmeError regs)) ↔ _
  rw [List.mem_filter, hmem h, vmeBerrMatch_iff hfits]

/-- Two handlers are registered and the second one is given up before the error. -/
theorem busErrors_reach_first :
    let first : VmeBerrHandler := ⟨1, ⟨0x1000, vmeA32UserDataSct⟩, 0x100, 7⟩
    let second : VmeBerrHandler := ⟨2, ⟨0x1000, vmeA32UserDataSct⟩, 0x800, 8⟩
    let events : List BerrEvent := [.register (some first.addr) first.error first.size first.func,
      .register (some second.addr) second.error second.size second.func, .unregister second.addr]
    FreshAllocs events ∧ first.Fits ∧ Registered events first ∧
      first.Concerns (tsi148HandleVmeError ⟨0, 0x1010, 0x900⟩) ∧
      second ∉ (handleVmeError (berrRun events) ⟨0, 0x1010, 0x900⟩).1 ∧
      ReportedLast (events ++ [.interrupt ⟨0, 0x1010, 0x900⟩]) ⟨0x1010, vmeA32UserDataSct⟩ := by
  intro first second events
  have hfresh : FreshAllocs events := by
    refine freshAllocs_concat.mpr ⟨freshAllocs_concat.mpr ⟨freshAllocs_concat.mpr ⟨freshAllocs_nil, ?_⟩, ?_⟩, ?_⟩
    · intro addr error size func _ _ h hmem
      cases hmem
    · intro addr error size func hsecond _ h hmem
      cases hsecond
      obtain rfl := List.mem_singleton.mp hmem
      decide
    · intro addr error size func hnone
      cases hnone
  have hfits : first.Fits := by
    show 0x1000 + 0x100 < 2 ^ 64
    norm_num
  obtain ⟨hregistered, hconcerns⟩ :=
    ((busErrors_reach_clients events).1 hfresh ⟨0, 0x1010, 0x900⟩).2 first hfits |>.mp (by decide)
  exact ⟨hfresh, hfits, hregistered, hconcerns, by decide,
    ((busErrors_reach_clients _).2 ⟨0x1010, vmeA32UserDataSct⟩).mp (by decide)⟩

/-- Two errors in a row: the first one is lost although nothing has checked for it. -/
theorem busError_overwritten :
    let first : ErrorRegs := ⟨0, 0x1000, 0x900⟩
    let events : List BerrEvent := [.interrupt first, .interrupt ⟨0, 0x2000, 0x900⟩]
    tsi148HandleVmeError first = ⟨0x1000, vmeA32UserDataSct⟩ ∧
      ¬ (ChecksOne events ⟨0x1000, vmeA32UserDataSct⟩ ↔ Reported events ⟨0x1000, vmeA32UserDataSct⟩) := by
  intro first events
  have hfirst : tsi148HandleVmeError first = ⟨0x1000, vmeA32UserDataSct⟩ := by decide
  refine ⟨hfirst, fun h => ?_⟩
  have hlost : ¬ ChecksOne events ⟨0x1000, vmeA32UserDataSct⟩ := by decide
  refine hlost (h.mpr ⟨[], first, [.interrupt ⟨0, 0x2000, 0x900⟩], rfl, hfirst, fun p₁ p₂ hsplit => ?_⟩)
  have hmem : BerrEvent.check (tsi148HandleVmeError first) ∈ [BerrEvent.interrupt ⟨0, 0x2000, 0x900⟩] := by
    rw [hsplit]
    simp
  simp at hmem

end HtDrivers.Vmebridge
