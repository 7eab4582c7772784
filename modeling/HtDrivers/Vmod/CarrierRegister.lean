import HtDrivers.Lib.Transition

/-! The register of the carrier drivers (`modulbus_register.c`) under concurrent calls. The test of the capacity comes
before the mutex, so that several calls may pass it, and the names are cut to the length of an entry. -/
namespace HtDrivers.Vmod
open Lib.Transition
set_option autoImplicit false

def driverNameMaxLength : ℕ := 128
def registerSize : ℕ := 32

/-- A name is the bytes before its end. -/
structure RegisterEntry (G R : Type) where
  name : List UInt8
  getAddressSpace : G
  registerIsr : R

structure CarrierRegister (G R : Type) where
  cregister : ℕ → RegisterEntry G R
  usedEntries : ℕ

section Register
variable {G R : Type} (r : CarrierRegister G R) (name : List UInt8)

def findCarrierIndex : Option ℕ := (List.range r.usedEntries).find? fun i => (r.cregister i).name = name

/-- The tests of `modulbus_carrier_register` before its mutex. -/
def carrierTests : Bool := ¬ registerSize ≤ r.usedEntries ∧ ¬ driverNameMaxLength < name.length

/-- Its section under the mutex. The copy of the name keeps one byte for its end. -/
def carrierRegister (gas : G) (risr : R) : Option (CarrierRegister G R) :=
  if (findCarrierIndex r name).isSome then none
  else some
    { cregister := Function.update r.cregister r.usedEntries ⟨name.take (driverNameMaxLength - 1), gas, risr⟩
      usedEntries := r.usedEntries + 1 }

/-- The loop of `modulbus_carrier_unregister` over the entries `is`. -/
def moveDown (cregister : ℕ → RegisterEntry G R) (is : List ℕ) : ℕ → RegisterEntry G R :=
  is.foldl (fun c i => Function.update c i (c (i + 1))) cregister

def carrierUnregister : Option (CarrierRegister G R) :=
  match findCarrierIndex r name with
  | none => none
  | some idx => some
    { cregister := moveDown r.cregister (List.range' idx (r.usedEntries - 1 - idx))
      usedEntries := r.usedEntries - 1 }

def usedPart : List (RegisterEntry G R) := (List.range r.usedEntries).map r.cregister

/-- The search of the two functions below. -/
def carrierEntry : Option (RegisterEntry G R) := (usedPart r).find? fun e => name = e.name

def carrierAsEntry : Option G := (carrierEntry r name).map RegisterEntry.getAddressSpace

def carrierIsrEntry : Option R := (carrierEntry r name).map RegisterEntry.registerIsr

end Register

/-! ## Any number of calls -/

/-- `calls` are those of `modulbus_carrier_register` past their tests, `registered` lists what was registered with
success and not unregistered since. -/
structure Carriers (T G R : Type) where
  register : CarrierRegister G R
  calls : T → Option (RegisterEntry G R)
  registered : List (RegisterEntry G R)

inductive CarrierStep (T G R : Type)
  | test (t : T) (e : RegisterEntry G R)
  | register (t : T)
  | unregister (name : List UInt8)

section Steps
variable {T G R : Type} [DecidableEq T]

def boot (cregister : ℕ → RegisterEntry G R) : Carriers T G R := ⟨⟨cregister, 0⟩, fun _ => none, []⟩

def next (s : Carriers T G R) : CarrierStep T G R → Option (Carriers T G R)
  | .test t e =>
    if (s.calls t).isSome then none
    else if carrierTests s.register e.name then some { s with calls := Function.update s.calls t (some e) }
    else some s
  | .register t =>
    match s.calls t with
    | none => none
    | some e =>
      match carrierRegister s.register e.name e.getAddressSpace e.registerIsr with
      | none => some { s with calls := Function.update s.calls t none }
      | some r => some { register := r, calls := Function.update s.calls t none, registered := s.registered ++ [e] }
  | .unregister name =>
    match carrierUnregister s.register name with
    | none => some s
    | some r => some { s with register := r, registered := s.registered.filter fun e => e.name ≠ name }

/-- A new name meets a register that is not full, and has room for its end. -/
def Fits (s : Carriers T G R) : CarrierStep T G R → Prop
  | .register t => ∀ e, s.calls t = some e → findCarrierIndex s.register e.name = none →
      s.register.usedEntries < registerSize ∧ e.name.length < driverNameMaxLength
  | _ => True

omit [DecidableEq T] in
/-- The register is a map from the names that are registered, of bounded size. -/
structure IsMap (s : Carriers T G R) : Prop where
  bounded : s.register.usedEntries ≤ registerSize
  distinct : ((usedPart s.register).map RegisterEntry.name).Nodup
  fresh : ∀ name gas risr, (carrierRegister s.register name gas risr).isSome → ∀ e ∈ s.registered, e.name ≠ name
  entries : ∀ e ∈ s.registered, carrierAsEntry s.register e.name = some e.getAddressSpace ∧
    carrierIsrEntry s.register e.name = some e.registerIsr
  others : ∀ name, (∀ e ∈ s.registered, e.name ≠ name) →
    carrierAsEntry s.register name = none ∧ carrierIsrEntry s.register name = none
  removable : ∀ e ∈ s.registered, (carrierUnregister s.register e.name).isSome
  removes : ∀ name r, carrierUnregister s.register name = some r →
    usedPart r = (usedPart s.register).filter fun e => e.name ≠ name

end Steps

/-! ## The used part -/

section UsedPart
variable {G R : Type} {r r' : CarrierRegister G R} {name : List UInt8}

theorem findCarrierIndex_eq_none : findCarrierIndex r name = none ↔ ∀ e ∈ usedPart r, e.name ≠ name := by
  unfold findCarrierIndex usedPart
  rw [List.find?_eq_none, List.forall_mem_map]
  simp

theorem findCarrierIndex_eq_some {idx : ℕ} (h : findCarrierIndex r name = some idx) :
    idx < r.usedEntries ∧ (r.cregister idx).name = name := by
  unfold findCarrierIndex at h
  have hname := List.find?_some h
  exact ⟨List.mem_range.mp (List.mem_of_find?_eq_some h), of_decide_eq_true hname⟩

theorem length_usedPart (r : CarrierRegister G R) : (usedPart r).length = r.usedEntries := by
  rw [usedPart, List.length_map, List.length_range]

theorem carrierRegister_eq_some {gas : G} {risr : R} (h : carrierRegister r name gas risr = some r') :
    findCarrierIndex r name = none ∧ usedPart r' = usedPart r ++
    [⟨name.take (driverNameMaxLength - 1), gas, risr⟩] := by
  unfold carrierRegister at h
  obtain ⟨hnone, h⟩ := Option.ite_none_left_eq_some.mp h
  refine ⟨by simpa using hnone, ?_⟩
  rw [← Option.some.inj h]
  unfold usedPart
  dsimp only
  rw [List.range_succ, List.map_append, List.map_singleton, Function.update_self]
  congr 1
  apply List.map_congr_left
  intro i hi
  exact Function.update_of_ne (Nat.ne_of_lt (List.mem_range.mp hi)) ..

theorem moveDown_apply (c : ℕ → RegisterEntry G R) (idx n j : ℕ) :
    moveDown c (List.range' idx n) j = if idx ≤ j ∧ j < idx + n then c (j + 1) else c j := by
  unfold moveDown
  induction n generalizing j with
  | zero => rw [if_neg (by omega)]; rfl
  | succ n ih =>
    rw [List.range'_1_concat, List.foldl_append, List.foldl_cons, List.foldl_nil]
    by_cases hj : j = idx + n
    · subst hj
      rw [Function.update_self, ih, if_neg (by omega), if_pos (by omega)]
    · rw [Function.update_of_ne hj, ih]
      by_cases hmoved : idx ≤ j ∧ j < idx + n
      · rw [if_pos hmoved, if_pos (by omega)]
      · rw [if_neg hmoved, if_neg (by omega)]

theorem carrierUnregister_eq_some (h : carrierUnregister r name = some r') :
    ∃ idx, findCarrierIndex r name = some idx ∧ usedPart r' = (usedPart r).eraseIdx idx := by
  unfold carrierUnregister at h
  split at h
  · cases h
  · rename_i idx hidx
    refine ⟨idx, hidx, ?_⟩
    have hlt := (findCarrierIndex_eq_some hidx).1
    rw [← Option.some.inj h]
    apply List.ext_getElem?
    intro j
    rw [List.getElem?_eraseIdx]
    simp only [usedPart, List.getElem?_map]
    by_cases hj : j < r.usedEntries - 1
    · rw [List.getElem?_range hj, List.getElem?_range (by omega), List.getElem?_range (by omega)]
      simp only [Option.map_some, moveDown_apply]
      split
      · rename_i hbefore
        rw [if_neg (by omega)]
      · rename_i hafter
        rw [if_pos (by omega)]
    · have hout : ∀ n m : ℕ, m ≤ n → (List.range m)[n]? = none := by
        intro n m hle
        exact List.getElem?_eq_none (by rw [List.length_range]; exact hle)
      rw [hout j _ (by omega), hout (j + 1) _ (by omega)]
      split
      · omega
      · rfl

/-- Where keys are distinct, the entry at the place of a key is the only one with it. -/
theorem eraseIdx_eq_filter {A K : Type} [DecidableEq K] {key : A → K} {l : List A} (hnodup : (l.map key).Nodup)
    {idx : ℕ} {a : A} (ha : l[idx]? = some a) : l.eraseIdx idx = l.filter fun b => key b ≠ key a := by
  induction l generalizing idx with
  | nil => rfl
  | cons b l ih =>
    rw [List.map_cons, List.nodup_cons] at hnodup
    cases idx with
    | zero =>
      obtain rfl : b = a := Option.some.inj ha
      rw [List.eraseIdx_cons_zero, List.filter_cons_of_neg (by simp), List.filter_eq_self.mpr]
      intro c hc
      have hne : key c ≠ key b := by
        intro heq
        rw [← heq] at hnodup
        exact hnodup.1 (List.mem_map_of_mem hc)
      simpa using hne
    | succ idx =>
      rw [List.getElem?_cons_succ] at ha
      have hne : key b ≠ key a := by
        intro heq
        rw [heq] at hnodup
        exact hnodup.1 (List.mem_map_of_mem (List.mem_of_getElem? ha))
      rw [List.eraseIdx_cons_succ, List.filter_cons_of_pos (by simpa using hne), ih hnodup.2 ha]

theorem carrierUnregister_filter (hnodup : ((usedPart r).map RegisterEntry.name).Nodup)
    (h : carrierUnregister r name = some r') : usedPart r' = (usedPart r).filter fun e => e.name ≠ name := by
  obtain ⟨idx, hidx, herase⟩ := carrierUnregister_eq_some h
  obtain ⟨hlt, hname⟩ := findCarrierIndex_eq_some hidx
  have hget : (usedPart r)[idx]? = some (r.cregister idx) := by
    rw [usedPart, List.getElem?_map, List.getElem?_range hlt]
    rfl
  rw [herase, eraseIdx_eq_filter hnodup hget, hname]

theorem carrierUnregister_isSome : (carrierUnregister r name).isSome ↔ ∃ e ∈ usedPart r, e.name = name := by
  unfold carrierUnregister
  split
  · rename_i hnone
    rw [findCarrierIndex_eq_none] at hnone
    refine iff_of_false (fun hfalse => by cases hfalse) ?_
    rintro ⟨e, he, hname⟩
    exact hnone e he hname
  · rename_i idx hidx
    obtain ⟨hlt, hname⟩ := findCarrierIndex_eq_some hidx
    exact iff_of_true rfl ⟨_, List.mem_map_of_mem (List.mem_range.mpr hlt), hname⟩

theorem carrierEntry_mem (hnodup : ((usedPart r).map RegisterEntry.name).Nodup) {e : RegisterEntry G R}
    (he : e ∈ usedPart r) : carrierEntry r e.name = some e := by
  unfold carrierEntry
  cases hfound : (usedPart r).find? fun c => e.name = c.name with
  | none => exact absurd (decide_eq_true rfl) (List.find?_eq_none.mp hfound e he)
  | some c =>
    have hname := List.find?_some hfound
    rw [decide_eq_true_iff] at hname
    rw [List.inj_on_of_nodup_map hnodup (List.mem_of_find?_eq_some hfound) he hname.symm]

theorem carrierEntry_eq_none : carrierEntry r name = none ↔ ∀ e ∈ usedPart r, e.name ≠ name := by
  unfold carrierEntry
  rw [List.find?_eq_none]
  simp only [decide_eq_true_iff]
  exact forall₂_congr fun e _ => not_congr eq_comm

end UsedPart

/-! ## Runs -/

section Runs
variable {T G R : Type} [DecidableEq T] {cregister : ℕ → RegisterEntry G R} {s s' : Carriers T G R}

omit [DecidableEq T] in
/-- The used part is what is registered. -/
structure Holds (s : Carriers T G R) : Prop where
  bounded : s.register.usedEntries ≤ registerSize
  same : usedPart s.register = s.registered
  distinct : (s.registered.map RegisterEntry.name).Nodup

omit [DecidableEq T] in
theorem Holds.isMap (h : Holds s) : IsMap s := by
  obtain ⟨hbounded, hsame, hdistinct⟩ := h
  rw [← hsame] at hdistinct
  refine ⟨hbounded, hdistinct, fun name gas risr hsome e he => ?_, fun e he => ?_, fun name hnone => ?_, fun e he => ?_,
    fun name r hr => carrierUnregister_filter hdistinct hr⟩
  · obtain ⟨r, hr⟩ := Option.isSome_iff_exists.mp hsome
    rw [← hsame] at he
    exact findCarrierIndex_eq_none.mp (carrierRegister_eq_some hr).1 e he
  · rw [← hsame] at he
    unfold carrierAsEntry carrierIsrEntry
    rw [carrierEntry_mem hdistinct he]
    exact ⟨rfl, rfl⟩
  · rw [← hsame] at hnone
    unfold carrierAsEntry carrierIsrEntry
    rw [carrierEntry_eq_none.mpr hnone]
    exact ⟨rfl, rfl⟩
  · rw [← hsame] at he
    exact carrierUnregister_isSome.mpr ⟨e, he, rfl⟩

theorem Holds.step {a : CarrierStep T G R} (h : Holds s) (hfits : Fits s a) (hnext : next s a = some s') :
    Holds s' := by
  obtain ⟨hbounded, hsame, hdistinct⟩ := h
  cases a with
  | test t e =>
    unfold next at hnext
    obtain ⟨-, hnext⟩ := Option.ite_none_left_eq_some.mp hnext
    split at hnext
    · rw [← Option.some.inj hnext]
      exact ⟨hbounded, hsame, hdistinct⟩
    · rw [← Option.some.inj hnext]
      exact ⟨hbounded, hsame, hdistinct⟩
  | register t =>
    unfold next at hnext
    dsimp only at hnext
    split at hnext
    · cases hnext
    rename_i e hcall
    split at hnext
    · rw [← Option.some.inj hnext]
      exact ⟨hbounded, hsame, hdistinct⟩
    · rename_i r hr
      obtain ⟨hnew, hpart⟩ := carrierRegister_eq_some hr
      obtain ⟨hroom, hlength⟩ := hfits e hcall hnew
      have hlen := congrArg List.length hpart
      rw [length_usedPart, List.length_append, length_usedPart, List.length_singleton] at hlen
      -- a name with room for its end is stored whole
      rw [List.take_of_length_le (by omega), hsame] at hpart
      rw [← Option.some.inj hnext]
      refine ⟨?_, hpart, ?_⟩
      · dsimp only
        omega
      · rw [List.map_append, List.map_singleton, List.nodup_append]
        refine ⟨hdistinct, List.nodup_singleton _, fun x hx y hy heq => ?_⟩
        obtain ⟨c, hc, rfl⟩ := List.mem_map.mp hx
        rw [List.mem_singleton] at hy
        rw [← hsame] at hc
        exact findCarrierIndex_eq_none.mp hnew c hc (heq.trans hy)
  | unregister name =>
    unfold next at hnext
    dsimp only at hnext
    split at hnext
    · rw [← Option.some.inj hnext]
      exact ⟨hbounded, hsame, hdistinct⟩
    · rename_i r hr
      have hpart := carrierUnregister_filter (hsame ▸ hdistinct) hr
      have hle := List.length_filter_le (fun e : RegisterEntry G R => decide (e.name ≠ name)) (usedPart s.register)
      rw [← hpart, length_usedPart, length_usedPart] at hle
      rw [hsame] at hpart
      rw [← Option.some.inj hnext]
      exact ⟨hle.trans hbounded, hpart, (List.Sublist.map _ List.filter_sublist).nodup hdistinct⟩

/-- A step under the mutex that does not fit ends the map. -/
theorem not_isMap_of_not_fits {a : CarrierStep T G R} (hfits : ¬ Fits s a) (hnext : next s a = some s') :
    ¬ IsMap s' := by
  intro hmap
  apply hfits
  cases a with
  | test t e => exact trivial
  | unregister name => exact trivial
  | register t =>
    intro e hcall hnew
    unfold next at hnext
    dsimp only at hnext
    rw [hcall] at hnext
    dsimp only at hnext
    split at hnext
    · rename_i hfail
      unfold carrierRegister at hfail
      rw [hnew] at hfail
      cases hfail
    · rename_i r hr
      obtain ⟨-, hpart⟩ := carrierRegister_eq_some hr
      have hlen := congrArg List.length hpart
      rw [length_usedPart, List.length_append, length_usedPart, List.length_singleton] at hlen
      rw [← Option.some.inj hnext] at hmap
      have hbounded : r.usedEntries ≤ registerSize := hmap.bounded
      refine ⟨by omega, ?_⟩
      by_contra hlong
      have hentry : carrierAsEntry r e.name = some e.getAddressSpace :=
        (hmap.entries e (List.mem_append_right _ List.mem_cons_self)).1
      have hnone : carrierEntry r e.name = none := by
        rw [carrierEntry_eq_none, hpart, List.forall_mem_append]
        refine ⟨findCarrierIndex_eq_none.mp hnew, fun c hc heq => ?_⟩
        rw [List.mem_singleton] at hc
        have hshort := congrArg List.length heq
        rw [hc, List.length_take] at hshort
        unfold driverNameMaxLength at hshort hlong
        omega
      unfold carrierAsEntry at hentry
      rw [hnone] at hentry
      cases hentry

/-- In every run whose new names fit, the register stays a map. -/
theorem carrierRegister_isMap (h : Reach next Fits (boot cregister) s) : IsMap s := by
  have hholds : Holds s := by
    apply h.invariant
    · exact ⟨Nat.zero_le _, rfl, List.nodup_nil⟩
    · intro s a s' hs hfits hnext
      exact hs.step hfits hnext
  exact hholds.isMap

end Runs

/-! ## One carrier -/

/-- A carrier whose name is the letter a, `n` times. -/
def carrierNamed (n : ℕ) : RegisterEntry ℕ ℕ := ⟨List.replicate n 97, 1, 2⟩

/-- After the tests of its registration. -/
def tested (n : ℕ) : Carriers Unit ℕ ℕ :=
  ⟨⟨fun _ => carrierNamed 0, 0⟩, Function.update (fun _ => none) () (some (carrierNamed n)), []⟩

theorem next_test {n : ℕ} (h : n ≤ driverNameMaxLength) :
    next (boot fun _ => carrierNamed 0) (.test () (carrierNamed n)) = some (tested n) := by
  have htests : carrierTests (⟨fun _ => carrierNamed 0, 0⟩ : CarrierRegister ℕ ℕ) (carrierNamed n).name = true := by
    unfold carrierTests carrierNamed
    rw [List.length_replicate, decide_eq_true_iff]
    exact ⟨by decide, not_lt.mpr h⟩
  unfold next
  exact (if_neg Bool.false_ne_true).trans (if_pos htests)

instance (s : Carriers Bool ℕ ℕ) : ∀ a, Decidable (Fits s a)
  | .register t => inferInstanceAs (Decidable (∀ e ∈ s.calls t, findCarrierIndex s.register e.name = none →
      s.register.usedEntries < registerSize ∧ e.name.length < driverNameMaxLength))
  | .test _ _ | .unregister _ => inferInstanceAs (Decidable True)

/-- Two threads are past their tests before either registers; then one carrier is registered twice, and the other one
unregistered. -/
def twoThreads : List (CarrierStep Bool ℕ ℕ) :=
  [.test false (carrierNamed 127), .test true (carrierNamed 126), .register true, .test true (carrierNamed 127),
    .register false, .register true, .unregister (carrierNamed 126).name]

theorem twoThreads_isMap : ∃ s : Carriers Bool ℕ ℕ, Reach next Fits (boot fun _ => carrierNamed 0) s ∧
    s.registered.map (fun e => e.name.length) = [127] ∧ IsMap s := by
  have hrun : (replay next Fits (boot fun _ => carrierNamed 0) twoThreads).map
      (fun s => s.registered.map fun e => e.name.length) = some [127] := by
    decide +kernel
  obtain ⟨s, hs, hval⟩ := Option.map_eq_some_iff.mp hrun
  have hreach := Reach.of_replay Reach.refl hs
  exact ⟨s, hreach, hval, carrierRegister_isMap hreach⟩

/-- A name of 128 bytes is accepted, and not found under its name. -/
theorem longName_lost : ∃ s : Carriers Unit ℕ ℕ, Reach next (fun _ _ => True) (boot fun _ => carrierNamed 0) s ∧
    s.registered = [carrierNamed 128] ∧ carrierAsEntry s.register (carrierNamed 128).name = none ∧ ¬ IsMap s := by
  have hlost :
    carrierAsEntry (⟨Function.update (fun _ => carrierNamed 0) 0 ⟨(carrierNamed 128).name.take 127, 1, 2⟩, 1⟩ :
      CarrierRegister ℕ ℕ) (carrierNamed 128).name = none := by
    decide
  refine ⟨_, (Reach.refl.step trivial (next_test (n := 128) (by decide))).step (a := .register ()) trivial rfl, rfl,
    hlost, fun h => ?_⟩
  have hentry := (h.entries (carrierNamed 128) List.mem_cons_self).1
  have hnone := hentry.symm.trans hlost
  cases hnone

end HtDrivers.Vmod
