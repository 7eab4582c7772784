import HtDrivers.Lib.Transition
import HtDrivers.Vmebridge.Vmebus

/-! # The force flags (`libvmebus.c`, `vme_window_ioctl`)

`VME_IOCTL_FIND_MAPPING` takes its force argument from the global flag `vme_create_on_find_fail`, and
`VME_IOCTL_RELEASE_MAPPING` from `vme_destroy_on_remove`. The library saves a flag, sets it, makes its
request and restores the flag, with one ioctl for each.

The processes are interleaved ioctl by ioctl. Opening the device, `mmap`, `munmap` and `close` do not
touch the flags; the ioctls on the flags work on variables of the library and do not fail, and after a
failed request the library restores the flag as it does after a successful one.
-/
namespace HtDrivers.Vmebridge
open HtDrivers.Lib.Transition
set_option autoImplicit false

inductive FlagName where
  | createOnFindFail
  | destroyOnRemove
  deriving DecidableEq, Repr

/-- An ioctl of the library: read a flag into the caller's variable, write it, the request that is
evaluated with it on behalf of a caller who asked for `force`, and write the variable back. -/
inductive FlagIoctl where
  | get (flag : FlagName)
  | set (flag : FlagName) (value : U32)
  | request (flag : FlagName) (force : U32)
  | restore (flag : FlagName)
  deriving DecidableEq, Repr

def forcedRequest (flag : FlagName) (force : U32) : List FlagIoctl :=
  [.get flag, .set flag force, .request flag force, .restore flag]

/-- The ioctls of `vme_map`; `opened` says that the device could be opened. -/
def vmeMapIoctls (opened : Bool) (force : U32) : List FlagIoctl :=
  if opened then forcedRequest .createOnFindFail force else []

/-- The ioctls of `find_controller`, which knows two data widths. -/
def findControllerIoctls (opened : Bool) (size : U32) : List FlagIoctl :=
  if size = 2 ∨ size = 4 then if opened then forcedRequest .createOnFindFail 1 else [] else []

/-- The ioctls of `vme_unmap`; `desc` says that the descriptor is not null. Without force the flag is
neither saved nor set. -/
def vmeUnmapIoctls (desc : Bool) (force : U32) : List FlagIoctl :=
  if desc then if force ≠ 0 then forcedRequest .destroyOnRemove force else [.request .destroyOnRemove force] else []

def returnControllerIoctls (desc : Bool) : List FlagIoctl :=
  if desc then forcedRequest .destroyOnRemove 1 else []

inductive LibCall where
  | vmeMap (opened : Bool) (force : U32)
  | findController (opened : Bool) (size : U32)
  | vmeUnmap (desc : Bool) (force : U32)
  | returnController (desc : Bool)
  deriving DecidableEq, Repr

def LibCall.ioctls : LibCall → List FlagIoctl
  | .vmeMap opened force => vmeMapIoctls opened force
  | .findController opened size => findControllerIoctls opened size
  | .vmeUnmap desc force => vmeUnmapIoctls desc force
  | .returnController desc => returnControllerIoctls desc

/-- A process in the library: the variable that a flag is saved in, and the ioctls that are left of the
call. -/
structure Caller where
  org : U32
  todo : List FlagIoctl
  deriving DecidableEq, Repr

/-- The flags and the processes. `savers` is not part of the program: the processes that have saved a
flag and not restored it, the last one first. -/
structure FlagState (T : Type) where
  flag : FlagName → U32
  caller : T → Caller
  savers : FlagName → List T

inductive FlagAction (T : Type) where
  | begin (p : T) (call : LibCall)
  | ioctl (p : T)

section Model
variable {T : Type} [DecidableEq T]

def FlagState.setCaller (s : FlagState T) (p : T) (c : Caller) : FlagState T :=
  { s with caller := Function.update s.caller p c }

/-- One ioctl of process `p`. -/
def FlagState.ioctl (s : FlagState T) (p : T) (rest : List FlagIoctl) : FlagIoctl → FlagState T
  | .get f => { s.setCaller p ⟨s.flag f, rest⟩ with savers := Function.update s.savers f (p :: s.savers f) }
  | .set f value => { s.setCaller p ⟨(s.caller p).org, rest⟩ with flag := Function.update s.flag f value }
  | .request _ _ => s.setCaller p ⟨(s.caller p).org, rest⟩
  | .restore f => { s.setCaller p ⟨(s.caller p).org, rest⟩ with
      flag := Function.update s.flag f (s.caller p).org, savers := Function.update s.savers f ((s.savers f).erase p) }

def flagNext (s : FlagState T) : FlagAction T → Option (FlagState T)
  | .begin p call => if (s.caller p).todo = [] then some (s.setCaller p ⟨(s.caller p).org, call.ioctls⟩) else none
  | .ioctl p => match (s.caller p).todo with
    | [] => none
    | op :: rest => some (s.ioctl p rest op)

def flagStart (flag : FlagName → U32) : FlagState T := ⟨flag, fun _ => ⟨0, []⟩, fun _ => []⟩

/-! ## The property and the condition -/

/-- A request that is made in this state is evaluated with the value its caller asked for. -/
def OwnForce (s : FlagState T) : FlagAction T → Prop
  | .begin _ _ => True
  | .ioctl p => ∀ f force, (s.caller p).todo.head? = some (.request f force) → s.flag f = force

/-- All calls have returned. -/
def FlagState.Done (s : FlagState T) : Prop := ∀ p, (s.caller p).todo = []

/-- The forced calls on one flag are nested or disjoint: a process writes the flag, or makes its request,
only when no process that has saved the flag later has still to restore it. A request without force
is only made while the flag is clear. -/
def NestedIoctl (s : FlagState T) : FlagAction T → Prop
  | .begin _ _ => True
  | .ioctl p => match (s.caller p).todo with
    | .set f _ :: _ => (s.savers f).head? = some p
    | .restore f :: _ => (s.savers f).head? = some p
    | .request f _ :: rest => if rest = [] then s.flag f = 0 else (s.savers f).head? = some p
    | _ => True

end Model

/-! ## The invariant -/

section Invariant
variable {T : Type}

/-- A process that is not between the save and the restore of a flag. -/
def Outside (todo : List FlagIoctl) : Prop :=
  todo = [] ∨ (∃ f force, todo = forcedRequest f force) ∨ ∃ f, todo = [.request f 0]

/-- The processes that have saved `f`, the last one first, and the value of the flag: each has saved the
value that the ones before it had left. -/
inductive Nested (caller : T → Caller) (f : FlagName) (start : U32) : List T → U32 → Prop
  | none : Nested caller f start [] start
  | saved {p : T} {ps : List T} {v force : U32} : Nested caller f start ps v → p ∉ ps →
      caller p = ⟨v, [.set f force, .request f force, .restore f]⟩ → Nested caller f start (p :: ps) v
  | set {p : T} {ps : List T} {v force : U32} : Nested caller f start ps v → p ∉ ps →
      caller p = ⟨v, [.request f force, .restore f]⟩ → Nested caller f start (p :: ps) force
  | requested {p : T} {ps : List T} {v w : U32} : Nested caller f start ps v → p ∉ ps →
      caller p = ⟨v, [.restore f]⟩ → Nested caller f start (p :: ps) w

structure FlagInv (start : FlagName → U32) (s : FlagState T) : Prop where
  nested : ∀ f, Nested s.caller f (start f) (s.savers f) (s.flag f)
  outside : ∀ p, (∀ f, p ∉ s.savers f) → Outside (s.caller p).todo

variable {caller : T → Caller} {f g : FlagName} {start v : U32} {ps : List T} {p : T}

theorem Nested.frame [DecidableEq T] (h : Nested caller f start ps v) (hp : p ∉ ps) (c : Caller) :
    Nested (Function.update caller p c) f start ps v := by
  induction h with
  | none => exact .none
  | @saved q qs v force _ hq hcaller ih =>
    obtain ⟨hne, hqs⟩ := not_or.mp (mt List.mem_cons.mpr hp)
    exact .saved (ih hqs) hq (by rw [Function.update_of_ne (Ne.symm hne)]; exact hcaller)
  | @set q qs v force _ hq hcaller ih =>
    obtain ⟨hne, hqs⟩ := not_or.mp (mt List.mem_cons.mpr hp)
    exact .set (ih hqs) hq (by rw [Function.update_of_ne (Ne.symm hne)]; exact hcaller)
  | @requested q qs v w _ hq hcaller ih =>
    obtain ⟨hne, hqs⟩ := not_or.mp (mt List.mem_cons.mpr hp)
    exact .requested (ih hqs) hq (by rw [Function.update_of_ne (Ne.symm hne)]; exact hcaller)

/-- The last ioctl of a process on the stack restores this flag. -/
theorem Nested.todo_of_mem (h : Nested caller f start ps v) (hp : p ∈ ps) :
    (∃ force, (caller p).todo = [.set f force, .request f force, .restore f]) ∨
      (∃ force, (caller p).todo = [.request f force, .restore f]) ∨ (caller p).todo = [.restore f] := by
  induction h with
  | none => cases hp
  | @saved q qs v force _ _ hcaller ih =>
    obtain rfl | hqs := List.mem_cons.mp hp
    · exact .inl ⟨force, by rw [hcaller]⟩
    · exact ih hqs
  | @set q qs v force _ _ hcaller ih =>
    obtain rfl | hqs := List.mem_cons.mp hp
    · exact .inr (.inl ⟨force, by rw [hcaller]⟩)
    · exact ih hqs
  | @requested q qs v w _ _ hcaller ih =>
    obtain rfl | hqs := List.mem_cons.mp hp
    · exact .inr (.inr (by rw [hcaller]))
    · exact ih hqs

theorem Nested.getLast_of_mem (h : Nested caller f start ps v) (hp : p ∈ ps) :
    (caller p).todo.getLast? = some (.restore f) := by
  obtain ⟨force, htodo⟩ | ⟨force, htodo⟩ | htodo := h.todo_of_mem hp <;> rw [htodo] <;> rfl

/-- What the process on top has still to do tells how the stack was built. -/
theorem Nested.top (h : Nested caller f start (p :: ps) v) : p ∉ ps ∧ Nested caller f start ps (caller p).org ∧
    ((∃ force, (caller p).todo = [.set f force, .request f force, .restore f]) ∨
      (∃ force, (caller p).todo = [.request f force, .restore f] ∧ v = force) ∨ (caller p).todo = [.restore f]) := by
  cases h with
  | saved hrest hp hcaller => exact ⟨hp, by rwa [hcaller], .inl ⟨_, by rw [hcaller]⟩⟩
  | set hrest hp hcaller => exact ⟨hp, by rwa [hcaller], .inr (.inl ⟨_, by rw [hcaller], rfl⟩)⟩
  | requested hrest hp hcaller => exact ⟨hp, by rwa [hcaller], .inr (.inr (by rw [hcaller]))⟩

theorem outside_ioctls (call : LibCall) : Outside call.ioctls := by
  cases call with
  | vmeMap opened force =>
    cases opened with
    | false => exact .inl rfl
    | true => exact .inr (.inl ⟨_, force, rfl⟩)
  | findController opened size =>
    change Outside (findControllerIoctls opened size)
    unfold findControllerIoctls
    split
    · cases opened with
      | false => exact .inl rfl
      | true => exact .inr (.inl ⟨_, 1, rfl⟩)
    · exact .inl rfl
  | vmeUnmap desc force =>
    cases desc with
    | false => exact .inl rfl
    | true =>
      change Outside (vmeUnmapIoctls true force)
      unfold vmeUnmapIoctls
      rw [if_pos rfl]
      split
      · exact .inr (.inl ⟨_, force, rfl⟩)
      · rename_i hzero
        exact .inr (.inr ⟨_, by rw [not_not.mp hzero]⟩)
  | returnController desc =>
    cases desc with
    | false => exact .inl rfl
    | true => exact .inr (.inl ⟨_, 1, rfl⟩)

end Invariant

/-! ## Steps -/

section Steps
variable {T : Type} [DecidableEq T] {start : FlagName → U32} {s : FlagState T} {p : T} {f g : FlagName}

omit [DecidableEq T] in
theorem FlagInv.mem_unique (h : FlagInv start s) (hf : p ∈ s.savers f) (hg : p ∈ s.savers g) : f = g := by
  have hlast := ((h.nested f).getLast_of_mem hf).symm.trans ((h.nested g).getLast_of_mem hg)
  simpa using hlast

omit [DecidableEq T] in
/-- A process about to save, or about to make a request without restoring, is outside. -/
theorem FlagInv.outside_of (h : FlagInv start s)
    (hop : (∃ f rest, (s.caller p).todo = .get f :: rest) ∨ (∃ f force, (s.caller p).todo = [.request f force]) ∨
      (s.caller p).todo = []) : ∀ f, p ∉ s.savers f := by
  intro f hp
  obtain ⟨force, htodo⟩ | ⟨force, htodo⟩ | htodo := (h.nested f).todo_of_mem hp <;> rw [htodo] at hop <;> simp at hop

theorem FlagInv.outside_update (h : FlagInv start s) {c : Caller} (hc : Outside c.todo ∨ ∃ f, p ∈ s.savers f) {q : T}
    (hq : ∀ f, q ∉ s.savers f) : Outside (Function.update s.caller p c q).todo := by
  by_cases hqp : q = p
  · subst hqp
    obtain hc | ⟨f, hf⟩ := hc
    · rwa [Function.update_self]
    · exact absurd hf (hq f)
  · rw [Function.update_of_ne hqp]
    exact h.outside q hq

theorem FlagInv.begin (h : FlagInv start s) (call : LibCall) (hidle : (s.caller p).todo = []) :
    FlagInv start (s.setCaller p ⟨(s.caller p).org, call.ioctls⟩) := by
  have hout := h.outside_of (.inr (.inr hidle))
  exact ⟨fun f => (h.nested f).frame (hout f) _, fun q hq => h.outside_update (.inl (outside_ioctls call)) hq⟩

theorem FlagInv.get (h : FlagInv start s) {rest : List FlagIoctl} (htodo : (s.caller p).todo = .get f :: rest) :
    FlagInv start (s.ioctl p rest (.get f)) := by
  have hout := h.outside_of (.inl ⟨f, rest, htodo⟩)
  obtain hnil | ⟨g, force, hforced⟩ | ⟨g, hlone⟩ := h.outside p hout
  · rw [htodo] at hnil
    cases hnil
  · rw [htodo] at hforced
    obtain ⟨hget, rfl⟩ := List.cons.inj hforced
    obtain rfl : f = g := FlagIoctl.get.inj hget
    refine ⟨fun g => ?_, fun q hq => ?_⟩
    · by_cases hg : g = f
      · subst hg
        simp only [FlagState.ioctl, Function.update_self]
        exact .saved ((h.nested g).frame (hout g) _) (hout g) (Function.update_self ..)
      · simp only [FlagState.ioctl, Function.update_of_ne hg]
        exact (h.nested g).frame (hout g) _
    · have hqp : q ≠ p := by
        rintro rfl
        have hmem := hq f
        simp [FlagState.ioctl] at hmem
      have hold : ∀ g, q ∉ s.savers g := by
        intro g hmem
        apply hq g
        by_cases hg : g = f
        · subst hg
          simp [FlagState.ioctl, hmem]
        · simpa [FlagState.ioctl, Function.update_of_ne hg] using hmem
      change Outside (Function.update s.caller p _ q).todo
      rw [Function.update_of_ne hqp]
      exact h.outside q hold
  · rw [htodo] at hlone
    cases hlone

/-- The step of a process on top of the stack of `f` that stays there. -/
theorem FlagInv.move (h : FlagInv start s) {ps : List T} (hsavers : s.savers f = p :: ps) {value : U32} {c : Caller}
    (hnew : p ∉ ps → Nested (Function.update s.caller p c) f (start f) ps (s.caller p).org →
      Nested (Function.update s.caller p c) f (start f) (p :: ps) value) :
    FlagInv start { s.setCaller p c with flag := Function.update s.flag f value } := by
  have hmem : p ∈ s.savers f := by rw [hsavers]; exact List.mem_cons_self ..
  obtain ⟨hp, hrest, -⟩ := (hsavers ▸ h.nested f).top
  refine ⟨fun g => ?_, fun q hq => h.outside_update (.inr ⟨f, hmem⟩) hq⟩
  by_cases hg : g = f
  · subst hg
    change Nested (Function.update s.caller p c) g (start g) (s.savers g) _
    simp only [hsavers, Function.update_self]
    exact hnew hp (hrest.frame hp c)
  · simp only [Function.update_of_ne hg]
    exact (h.nested g).frame (fun hpg => hg (h.mem_unique hpg hmem)) c

omit [DecidableEq T] in
theorem head_eq_some {ps : List T} (h : ps.head? = some p) : ∃ qs, ps = p :: qs := by
  cases ps with
  | nil => cases h
  | cons q qs =>
    obtain rfl : q = p := by simpa using h
    exact ⟨qs, rfl⟩

theorem FlagInv.set (h : FlagInv start s) {rest : List FlagIoctl} {value : U32}
    (htodo : (s.caller p).todo = .set f value :: rest) (hok : (s.savers f).head? = some p) :
    FlagInv start (s.ioctl p rest (.set f value)) := by
  obtain ⟨ps, hsavers⟩ := head_eq_some hok
  obtain ⟨-, -, ⟨force, hop⟩ | ⟨force, hop, -⟩ | hop⟩ := (hsavers ▸ h.nested f).top <;> rw [htodo] at hop
  · simp only [List.cons.injEq, FlagIoctl.set.injEq, true_and] at hop
    obtain ⟨rfl, rfl⟩ := hop
    exact h.move hsavers fun hp hrest => .set hrest hp (Function.update_self ..)
  · simp at hop
  · simp at hop

theorem FlagInv.request (h : FlagInv start s) {rest : List FlagIoctl} {force : U32}
    (htodo : (s.caller p).todo = .request f force :: rest)
    (hok : if rest = [] then s.flag f = 0 else (s.savers f).head? = some p) :
    s.flag f = force ∧ FlagInv start (s.ioctl p rest (.request f force)) := by
  by_cases hlone : rest = []
  · subst hlone
    rw [if_pos rfl] at hok
    have hout := h.outside_of (.inr (.inl ⟨f, force, htodo⟩))
    obtain hnil | ⟨g, v, hforced⟩ | ⟨g, hreq⟩ := h.outside p hout
    · rw [htodo] at hnil
      cases hnil
    · rw [htodo] at hforced
      cases hforced
    · rw [htodo] at hreq
      simp only [List.cons.injEq, FlagIoctl.request.injEq, and_true] at hreq
      refine ⟨hok.trans hreq.2.symm, fun g => (h.nested g).frame (hout g) _, fun q hq => ?_⟩
      exact h.outside_update (.inl (.inl rfl)) hq
  · rw [if_neg hlone] at hok
    obtain ⟨ps, hsavers⟩ := head_eq_some hok
    obtain ⟨-, -, ⟨v, hop⟩ | ⟨v, hop, hflag⟩ | hop⟩ := (hsavers ▸ h.nested f).top <;> rw [htodo] at hop
    · simp at hop
    · simp only [List.cons.injEq, FlagIoctl.request.injEq, true_and] at hop
      obtain ⟨rfl, rfl⟩ := hop
      refine ⟨hflag, ?_⟩
      have hmove := h.move (c := ⟨(s.caller p).org, [.restore f]⟩) hsavers (fun hp hrest =>
        .requested (w := s.flag f) hrest hp (Function.update_self ..))
      rwa [Function.update_eq_self] at hmove
    · simp at hop

theorem FlagInv.restore (h : FlagInv start s) {rest : List FlagIoctl} (htodo : (s.caller p).todo = .restore f :: rest)
    (hok : (s.savers f).head? = some p) : FlagInv start (s.ioctl p rest (.restore f)) := by
  obtain ⟨ps, hsavers⟩ := head_eq_some hok
  have hmem : p ∈ s.savers f := by rw [hsavers]; exact List.mem_cons_self ..
  obtain ⟨hp, hrest, ⟨v, hop⟩ | ⟨v, hop, -⟩ | hop⟩ := (hsavers ▸ h.nested f).top <;> rw [htodo] at hop
  · simp at hop
  · simp at hop
  · obtain rfl : rest = [] := by simpa using hop
    have herase : (s.savers f).erase p = ps := by rw [hsavers, List.erase_cons_head]
    refine ⟨fun g => ?_, fun q hq => ?_⟩
    · by_cases hg : g = f
      · subst hg
        simp only [FlagState.ioctl, Function.update_self, herase]
        exact hrest.frame hp _
      · simp only [FlagState.ioctl, Function.update_of_ne hg]
        exact (h.nested g).frame (fun hpg => hg (h.mem_unique hpg hmem)) _
    · change Outside (Function.update s.caller p _ q).todo
      by_cases hqp : q = p
      · subst hqp
        rw [Function.update_self]
        exact .inl rfl
      · rw [Function.update_of_ne hqp]
        apply h.outside q
        intro g hqg
        apply hq g
        by_cases hg : g = f
        · subst hg
          simp only [FlagState.ioctl, Function.update_self]
          exact (List.mem_erase_of_ne hqp).mpr hqg
        · simpa only [FlagState.ioctl, Function.update_of_ne hg] using hqg

theorem FlagInv.next {s' : FlagState T} (h : FlagInv start s) (a : FlagAction T) (hok : NestedIoctl s a)
    (hnext : flagNext s a = some s') : OwnForce s a ∧ FlagInv start s' := by
  cases a with
  | begin p call =>
    rw [flagNext] at hnext
    split at hnext
    · rename_i hidle
      obtain rfl := Option.some.inj hnext
      exact ⟨trivial, h.begin call hidle⟩
    · cases hnext
  | ioctl p =>
    rw [flagNext] at hnext
    rw [NestedIoctl] at hok
    cases htodo : (s.caller p).todo with
    | nil =>
      rw [htodo] at hnext
      cases hnext
    | cons op rest =>
      rw [htodo] at hnext hok
      obtain rfl := Option.some.inj hnext
      have hforce : ∀ f force, op = .request f force → s.flag f = force := by
        rintro f force rfl
        exact (h.request htodo hok).1
      refine ⟨fun f force hhead => hforce f force ?_, ?_⟩
      · rw [htodo] at hhead
        exact Option.some.inj hhead
      · cases op with
        | get f => exact h.get htodo
        | set f value => exact h.set htodo hok
        | request f force => exact (h.request htodo hok).2
        | restore f => exact h.restore htodo hok

end Steps

/-! ## Runs -/

section Runs
variable {T : Type} [DecidableEq T] {start : FlagName → U32} {s : FlagState T}

omit [DecidableEq T] in
theorem flagInv_start (start : FlagName → U32) : FlagInv start (flagStart start : FlagState T) :=
  ⟨fun _ => .none, fun _ _ => .inl rfl⟩

omit [DecidableEq T] in
theorem FlagInv.done (h : FlagInv start s) (hdone : s.Done) : s.flag = start := by
  funext f
  have hnested := h.nested f
  cases hsavers : s.savers f with
  | nil =>
    rw [hsavers] at hnested
    generalize s.flag f = v at hnested
    cases hnested
    rfl
  | cons p ps =>
    have hlast := hnested.getLast_of_mem (p := p) (by rw [hsavers]; exact List.mem_cons_self ..)
    rw [hdone p] at hlast
    cases hlast

/-- In every run whose forced calls are nested or disjoint and whose requests without force find the flag
clear, each request is evaluated with the value its caller asked for, and once all calls have
returned the flags are what they were. -/
theorem forceFlags_of_nested (start : FlagName → U32)
    (h : Reach flagNext NestedIoctl (flagStart start) s) :
    (∀ a s', NestedIoctl s a → flagNext s a = some s' → OwnForce s a) ∧ (s.Done → s.flag = start) := by
  have hinv : FlagInv start s := h.invariant (flagInv_start start) fun s a s' hs hok hnext => (hs.next a hok hnext).2
  exact ⟨fun a s' hok hnext => (hinv.next a hok hnext).1, hinv.done⟩

end Runs

instance (s : FlagState Bool) : ∀ a, Decidable (NestedIoctl s a)
  | .begin _ _ => inferInstanceAs (Decidable True)
  | .ioctl p => by
    unfold NestedIoctl
    dsimp only
    split <;> infer_instance

/-- Two calls with force 1, up to the request of the one that is nested in the other. -/
def oneInsideOther : List (FlagAction Bool) :=
  [.begin false (.vmeMap true 1), .ioctl false, .begin true (.vmeMap true 1), .ioctl false, .ioctl true, .ioctl true]

/-- The request of the inner call finds its value, and after both calls the flags are clear again. -/
theorem forceFlags_of_nested_inside :
    (∃ s : FlagState Bool, Reach flagNext NestedIoctl (flagStart fun _ => 0) s ∧
      (s.caller true).todo.head? = some (.request .createOnFindFail 1) ∧ OwnForce s (.ioctl true)) ∧
    ∃ s : FlagState Bool, Reach flagNext NestedIoctl (flagStart fun _ => 0) s ∧ s.savers .createOnFindFail = [] ∧
      s.flag = fun _ => 0 := by
  constructor
  · have hrun : (replay flagNext NestedIoctl (flagStart fun _ => 0) oneInsideOther).map
        (fun s => (decide (NestedIoctl s (.ioctl true)), (s.caller true).todo)) =
          some (true, [.request .createOnFindFail 1, .restore .createOnFindFail]) := by decide
    obtain ⟨s, hs, hval⟩ := Option.map_eq_some_iff.mp hrun
    simp only [Prod.mk.injEq, decide_eq_true_eq] at hval
    have hreach := Reach.of_replay Reach.refl hs
    obtain ⟨s', hnext⟩ : ∃ s', flagNext s (.ioctl true) = some s' := by
      unfold flagNext
      dsimp only
      rw [hval.2]
      exact ⟨_, rfl⟩
    exact ⟨s, hreach, by rw [hval.2]; rfl, (forceFlags_of_nested _ hreach).1 (.ioctl true) s' hval.1 hnext⟩
  · have hrun : (replay flagNext NestedIoctl (flagStart fun _ => 0)
        (oneInsideOther ++ [.ioctl true, .ioctl true, .ioctl false, .ioctl false])).map
          (fun s => (s.caller false, s.caller true, s.savers .createOnFindFail)) = some (⟨0, []⟩, ⟨1, []⟩, []) := by
      decide
    obtain ⟨s, hs, hval⟩ := Option.map_eq_some_iff.mp hrun
    simp only [Prod.mk.injEq] at hval
    have hreach := Reach.of_replay Reach.refl hs
    have hdone : s.Done := by
      intro p
      cases p with
      | false => rw [hval.1]
      | true => rw [hval.2.1]
    exact ⟨s, hreach, hval.2.2, (forceFlags_of_nested _ hreach).2 hdone⟩

/-- Two calls with force 1: the second saves the value that the first has set. -/
def savedTooLate : List (FlagAction Bool) :=
  [.begin false (.vmeMap true 1), .begin true (.vmeMap true 1), .ioctl false, .ioctl false, .ioctl true,
    .ioctl false, .ioctl false, .ioctl true, .ioctl true, .ioctl true]

/-- A call without force clears the flag before the request of a call with force. -/
def clearedTooEarly : List (FlagAction Bool) :=
  [.begin false (.vmeMap true 1), .begin true (.vmeMap true 0), .ioctl false, .ioctl true, .ioctl false, .ioctl true]

def flagReplay (as : List (FlagAction Bool)) : FlagState Bool :=
  (replay flagNext (fun _ _ => True) (flagStart fun _ => 0) as).getD (flagStart fun _ => 0)

theorem reach_flagReplay (as : List (FlagAction Bool)) :
    Reach flagNext (fun _ _ => True) (flagStart fun _ => 0) (flagReplay as) := by
  unfold flagReplay
  cases hrun : replay flagNext (fun _ _ => True) (flagStart fun _ => 0) as with
  | none => exact .refl
  | some s => exact Reach.refl.of_replay hrun

theorem forceFlags_interleaved :
    (∃ s : FlagState Bool, Reach flagNext (fun _ _ => True) (flagStart fun _ => 0) s ∧ s.Done ∧
      s.flag .createOnFindFail = 1) ∧
    (∃ s : FlagState Bool, Reach flagNext (fun _ _ => True) (flagStart fun _ => 0) s ∧
      ¬ OwnForce s (.ioctl false)) := by
  refine ⟨⟨flagReplay savedTooLate, reach_flagReplay _, ?_, by decide⟩,
    flagReplay clearedTooEarly, reach_flagReplay _, fun h => ?_⟩
  · intro p
    cases p <;> decide
  · have hforce := h .createOnFindFail 1 (by decide)
    exact absurd hforce (by decide)

end HtDrivers.Vmebridge
