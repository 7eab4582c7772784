import HtDrivers.InsLib.Attributes
import Mathlib.Data.List.Perm.Basic

/-! When the order of the attributes of an element does not matter. The laws a handler keeps are stated once; from
them it follows exactly which elements are parsed alike in every order. -/
namespace HtDrivers.InsLib
open HtDrivers.Lib.Numerals
set_option autoImplicit false

variable {D : Type}

/-! ## Outcomes -/

/-- The descriptor, and whether the element was accepted: it has one and no error was reported. -/
def Outcome.verdict : Outcome D → Option (Option D × Bool)
  | .returned desc errors => some (desc, desc.isSome && errors == 0)
  | .undefined => none

/-- The attribute with its own value: an empty value is the empty text. -/
def XmlAttr.own (a : XmlAttr) : XmlAttr := { a with children := some (a.children.getD []) }

/-- In every order the element gets one verdict, and each attribute is read with its own value. -/
def OrderFree (h : Handler D) (properties : List XmlAttr) : Prop :=
  ∀ l, l.Perm properties →
    (h.parse l).verdict = (h.parse properties).verdict ∧ h.parse l = h.parse (l.map XmlAttr.own)

/-! ## Handlers that keep the laws -/

/-- What a handler does with a key word: it knows it, it reads the value, the value changes nothing in a new
descriptor. -/
structure Rules where
  knows : KeyWord → Bool
  uses : KeyWord → Bool
  inert : KeyWord → Text → Bool

/-- What a value writes into the descriptor. -/
def Handler.write (h : Handler D) (k : KeyWord) (v : Text) (d : D) : D :=
  match h.put k (some v) d with
  | .stored d' _ => d'
  | _ => d

structure Lawful (h : Handler D) (r : Rules) : Prop where
  knows_empty : r.knows .empty = false
  put_unknown : ∀ k p d, r.knows k = false → h.put k p d = .unknown
  put_known : ∀ k v, r.knows k = true →
    (∃ e, ∀ d, h.put k (some v) d = .stored (h.write k v d) e) ∨ ∀ d, h.put k (some v) d = .giveUp
  put_nowhere : ∀ k d, r.uses k = true → h.put k none d = .undefined
  put_unused : ∀ k p v d, r.uses k = false → h.put k p d = h.put k (some v) d
  write_comm : ∀ k v k' v' d, r.knows k = true → r.knows k' = true → k ≠ k' →
    h.write k' v' (h.write k v d) = h.write k v (h.write k' v' d)
  finish_defined : ∀ d e, h.finish d e ≠ .undefined
  stop_verdict : ∃ accepts : D → Bool, ∀ d e, (h.stop d e).verdict = some (some d, accepts d && e == 0)
  inert_iff : ∀ k v, r.knows k = true → (r.inert k v = true ↔
    ∃ e, h.put k (some v) h.init = .stored h.init e ∧ (h.stop h.init e).verdict = (h.stop h.init 0).verdict)

/-- Every attribute whose value is read has one, and next to a name that is not known there are only attributes
that change nothing. -/
def OrderCondition (r : Rules) (properties : List XmlAttr) : Prop :=
  (∀ a ∈ properties, a.children = none → r.uses (lookUp a.name) = false) ∧
    ((∃ a ∈ properties, r.knows (lookUp a.name) = false) →
      ∀ a ∈ properties, r.knows (lookUp a.name) = true → r.inert (lookUp a.name) (a.children.getD []) = true)

/-! ## Names and key words -/

theorem keywords_nodup : (keywords.map Prod.snd).Nodup := by decide

/-- Only one name stands for a key word that is not `EMPTY`. -/
theorem lookUp_inj {a b : String} (h : lookUp a = lookUp b) (ha : lookUp a ≠ .empty) : a = b := by
  have hmem : ∀ s, lookUp s ≠ .empty → (s, lookUp s) ∈ keywords := by
    intro s hs
    unfold lookUp at hs ⊢
    cases hk : keywords.lookup s with
    | none => rw [hk] at hs; exact absurd rfl hs
    | some k =>
      obtain ⟨l₁, l₂, hl, -⟩ := List.lookup_eq_some_iff.mp hk
      rw [hl]
      simp
  have hb : lookUp b ≠ .empty := h ▸ ha
  have := List.inj_on_of_nodup_map keywords_nodup (hmem a ha) (hmem b hb) h
  exact congrArg Prod.fst this

/-! ## Values -/

section Laws
variable {h : Handler D} {r : Rules}

theorem own_name (a : XmlAttr) : a.own.name = a.name := rfl

theorem own_children (a : XmlAttr) : a.own.children = some (a.children.getD []) := rfl

/-- What the attributes before it left in `pvalu` does not matter when every value that is read is there. -/
theorem attributes_own (hlaw : Lawful h r) {l : List XmlAttr}
    (hl : ∀ a ∈ l, a.children = none → r.uses (lookUp a.name) = false) (p q : Option Text) (d : D) (e : ℕ) :
    attributes h p l d e = attributes h q (l.map XmlAttr.own) d e := by
  induction l generalizing p q d e with
  | nil => rfl
  | cons a l ih =>
    have hput : h.put (lookUp a.name) (getNextProp a p) d = h.put (lookUp a.name) (getNextProp a.own q) d := by
      cases ha : a.children with
      | none =>
        have huses := hl a (List.mem_cons_self ..) ha
        rw [hlaw.put_unused _ (getNextProp a p) [] d huses, hlaw.put_unused _ (getNextProp a.own q) [] d huses]
      | some v => simp [getNextProp, ha, XmlAttr.own]
    have hrest := fun d e => ih (fun b hb => hl b (List.mem_cons_of_mem a hb)) (getNextProp a p)
      (getNextProp a.own q) d e
    simp only [List.map_cons, attributes, own_name, hput, hrest]

theorem stop_defined (hlaw : Lawful h r) (d : D) (e : ℕ) : h.stop d e ≠ .undefined := by
  obtain ⟨accepts, hstop⟩ := hlaw.stop_verdict
  intro hu
  have := hstop d e
  rw [hu] at this
  cases this

/-- With their own values no attribute reads a pointer to nowhere. -/
theorem attributes_own_defined (hlaw : Lawful h r) (l : List XmlAttr) (p : Option Text) (d : D) (e : ℕ) :
    attributes h p (l.map XmlAttr.own) d e ≠ .undefined := by
  induction l generalizing p d e with
  | nil => exact hlaw.finish_defined d e
  | cons a l ih =>
    simp only [List.map_cons, attributes, own_name]
    have hvalue : getNextProp a.own p = some (a.children.getD []) := rfl
    rw [hvalue]
    cases hk : r.knows (lookUp a.name) with
    | false =>
      rw [hlaw.put_unknown _ _ _ hk]
      exact stop_defined hlaw d e
    | true =>
      obtain ⟨e', hput⟩ | hput := hlaw.put_known _ (a.children.getD []) hk
      · rw [hput]
        exact ih _ _ _
      · rw [hput]
        exact nofun

/-! ## Known names only -/

/-- One attribute, as a step on the descriptor and the errors so far; an element that is given up stays so. -/
def putStep (h : Handler D) (s : Option (D × ℕ)) (a : XmlAttr) : Option (D × ℕ) :=
  s.bind fun s => match h.put (lookUp a.name) a.children s.1 with
    | .stored d e => some (d, s.2 + e)
    | _ => none

def finishStep (h : Handler D) : Option (D × ℕ) → Option (Option D × Bool)
  | some s => (h.finish s.1 s.2).verdict
  | none => some (none, false)

theorem foldl_putStep_none (l : List XmlAttr) : l.foldl (putStep h) none = none := by
  induction l with
  | nil => rfl
  | cons a l ih => exact ih

theorem verdict_eq_foldl (hlaw : Lawful h r) {l : List XmlAttr} (hk : ∀ a ∈ l, r.knows (lookUp a.name) = true)
    (p : Option Text) (d : D) (e : ℕ) :
    (attributes h p (l.map XmlAttr.own) d e).verdict =
      finishStep h ((l.map XmlAttr.own).foldl (putStep h) (some (d, e))) := by
  induction l generalizing p d e with
  | nil => rfl
  | cons a l ih =>
    have hrest := fun p d e => ih (fun b hb => hk b (List.mem_cons_of_mem a hb)) p d e
    have hvalue : getNextProp a.own p = some (a.children.getD []) := rfl
    simp only [List.map_cons, attributes, List.foldl_cons, own_name, hvalue, putStep, own_children,
      Option.bind_some]
    obtain ⟨e', hput⟩ | hput := hlaw.put_known _ (a.children.getD []) (hk a (List.mem_cons_self ..))
    · simp only [hput, hrest]
    · simp only [hput, foldl_putStep_none]
      rfl

/-- Two attributes of different key words can be put in either order. -/
theorem putStep_comm (hlaw : Lawful h r) {a b : XmlAttr} (ha : r.knows (lookUp a.name) = true)
    (hb : r.knows (lookUp b.name) = true) (hne : lookUp a.name ≠ lookUp b.name) (s : Option (D × ℕ)) :
    putStep h (putStep h s a.own) b.own = putStep h (putStep h s b.own) a.own := by
  cases s with
  | none => rfl
  | some s =>
    obtain ⟨e, hput⟩ | hput := hlaw.put_known _ (a.children.getD []) ha
    · obtain ⟨e', hput'⟩ | hput' := hlaw.put_known _ (b.children.getD []) hb
      · simp only [putStep, own_name, own_children, Option.bind_some, hput, hput',
          hlaw.write_comm _ _ _ _ s.1 ha hb hne, Nat.add_right_comm]
      · simp only [putStep, own_name, own_children, Option.bind_some, hput, hput', Option.bind_none]
    · obtain ⟨e', hput'⟩ | hput' := hlaw.put_known _ (b.children.getD []) hb
      · simp only [putStep, own_name, own_children, Option.bind_some, hput, hput', Option.bind_none]
      · simp only [putStep, own_name, own_children, Option.bind_some, hput, hput', Option.bind_none]

theorem verdict_perm (hlaw : Lawful h r) {l m : List XmlAttr} (hperm : l.Perm m)
    (hname : (m.map XmlAttr.name).Nodup) (hk : ∀ a ∈ m, r.knows (lookUp a.name) = true) (p : Option Text) (d : D)
    (e : ℕ) : (attributes h p (l.map XmlAttr.own) d e).verdict = (attributes h p (m.map XmlAttr.own) d e).verdict := by
  rw [verdict_eq_foldl hlaw hk, verdict_eq_foldl hlaw (fun a ha => hk a (hperm.subset ha))]
  congr 1
  refine (hperm.map XmlAttr.own).foldl_eq' ?_ _
  intro x hx y hy s
  obtain ⟨a, ha, rfl⟩ := List.mem_map.mp hx
  obtain ⟨b, hb, rfl⟩ := List.mem_map.mp hy
  have ham := hperm.subset ha
  have hbm := hperm.subset hb
  by_cases hab : a = b
  · rw [hab]
  · refine putStep_comm hlaw (hk a ham) (hk b hbm) (fun heq => hab ?_) s
    have hne : lookUp a.name ≠ .empty := by
      intro h0
      have := hk a ham
      rw [h0, hlaw.knows_empty] at this
      cases this
    exact List.inj_on_of_nodup_map hname ham hbm (lookUp_inj heq hne)

/-! ## A name that is not known -/

theorem stop_quiet_add (hlaw : Lawful h r) {e e' : ℕ} (he : (h.stop h.init e).verdict = (h.stop h.init 0).verdict)
    (he' : (h.stop h.init e').verdict = (h.stop h.init 0).verdict) :
    (h.stop h.init (e + e')).verdict = (h.stop h.init 0).verdict := by
  obtain ⟨accepts, hstop⟩ := hlaw.stop_verdict
  rw [hstop, hstop] at he he' ⊢
  cases hacc : accepts h.init with
  | false => simp
  | true =>
    simp only [hacc, Bool.true_and, Option.some.injEq, Prod.mk.injEq, true_and, BEq.rfl, beq_iff_eq] at he he' ⊢
    omega

/-- Attributes that change nothing leave a new descriptor to the name that is not known. -/
theorem verdict_inert (hlaw : Lawful h r) {l : List XmlAttr} (hu : ∃ a ∈ l, r.knows (lookUp a.name) = false)
    (hi : ∀ a ∈ l, r.knows (lookUp a.name) = true → r.inert (lookUp a.name) (a.children.getD []) = true)
    (p : Option Text) {e : ℕ} (he : (h.stop h.init e).verdict = (h.stop h.init 0).verdict) :
    (attributes h p (l.map XmlAttr.own) h.init e).verdict = (h.stop h.init 0).verdict := by
  induction l generalizing p e with
  | nil => simp at hu
  | cons a l ih =>
    have hvalue : getNextProp a.own p = some (a.children.getD []) := rfl
    simp only [List.map_cons, attributes, own_name, hvalue]
    cases hk : r.knows (lookUp a.name) with
    | false =>
      rw [hlaw.put_unknown _ _ _ hk]
      exact he
    | true =>
      obtain ⟨e', hput, he'⟩ := (hlaw.inert_iff _ _ hk).mp (hi a (List.mem_cons_self ..) hk)
      rw [hput]
      refine ih ?_ (fun b hb => hi b (List.mem_cons_of_mem a hb)) _ (stop_quiet_add hlaw he he')
      obtain ⟨b, hb, hbk⟩ := hu
      obtain rfl | hb := List.mem_cons.mp hb
      · rw [hk] at hbk
        cases hbk
      · exact ⟨b, hb, hbk⟩

/-- An attribute before a name that is not known shows in the verdict unless it changes nothing. -/
theorem inert_of_verdict (hlaw : Lawful h r) {a u : XmlAttr} (ha : r.knows (lookUp a.name) = true)
    (hu : r.knows (lookUp u.name) = false) {rest : List XmlAttr}
    (heq : (attributes h none ((a :: u :: rest).map XmlAttr.own) h.init 0).verdict =
      (attributes h none ((u :: a :: rest).map XmlAttr.own) h.init 0).verdict) :
    r.inert (lookUp a.name) (a.children.getD []) = true := by
  have hvalue : ∀ (x : XmlAttr) (p : Option Text), getNextProp x.own p = some (x.children.getD []) := fun _ _ => rfl
  simp only [List.map_cons, attributes, own_name, hvalue, hlaw.put_unknown _ _ _ hu] at heq
  refine (hlaw.inert_iff _ _ ha).mpr ?_
  obtain ⟨accepts, hstop⟩ := hlaw.stop_verdict
  obtain ⟨e', hput⟩ | hput := hlaw.put_known _ (a.children.getD []) ha
  · simp only [hput, Nat.zero_add] at heq
    have hd : h.write (lookUp a.name) (a.children.getD []) h.init = h.init := by
      rw [hstop, hstop] at heq
      simpa using congrArg (fun v => v.bind Prod.fst) heq
    rw [hd] at heq
    exact ⟨e', (hput h.init).trans (by rw [hd]), heq⟩
  · simp only [hput, hstop] at heq
    simp [Outcome.verdict] at heq

/-! ## The condition is exact -/

theorem uses_of_orderFree (hlaw : Lawful h r) {properties : List XmlAttr} (hfree : OrderFree h properties) :
    ∀ a ∈ properties, a.children = none → r.uses (lookUp a.name) = false := by
  intro a ha hnone
  by_contra huses
  rw [Bool.not_eq_false] at huses
  -- the attribute comes first, so nothing was read before it
  have hperm : (a :: properties.erase a).Perm properties := (List.perm_cons_erase ha).symm
  have hown := (hfree _ hperm).2
  have hbad : h.parse (a :: properties.erase a) = .undefined := by
    have hp : getNextProp a none = none := by simp [getNextProp, hnone]
    simp only [Handler.parse, attributes, hp, hlaw.put_nowhere _ _ huses]
  rw [hbad] at hown
  exact attributes_own_defined hlaw _ _ _ _ hown.symm

theorem orderFree_iff (hlaw : Lawful h r) {properties : List XmlAttr}
    (hname : (properties.map XmlAttr.name).Nodup) : OrderFree h properties ↔ OrderCondition r properties := by
  constructor
  · intro hfree
    have huses := uses_of_orderFree hlaw hfree
    refine ⟨huses, ?_⟩
    rintro ⟨u, hu, huk⟩ a ha hak
    have hne : a ≠ u := by
      rintro rfl
      rw [huk] at hak
      cases hak
    have hau : a ∈ properties.erase u := (List.mem_erase_of_ne hne).mpr ha
    have hperm₁ : (u :: a :: (properties.erase u).erase a).Perm properties :=
      ((List.perm_cons_erase hau).symm.cons u).trans (List.perm_cons_erase hu).symm
    have hperm₂ : (a :: u :: (properties.erase u).erase a).Perm properties := (List.Perm.swap u a _).trans hperm₁
    have hverdict : ∀ l : List XmlAttr, l.Perm properties →
        (attributes h none (l.map XmlAttr.own) h.init 0).verdict = (h.parse properties).verdict := by
      intro l hl
      rw [← (hfree l hl).1, (hfree l hl).2]
      rfl
    exact inert_of_verdict hlaw hak huk ((hverdict _ hperm₂).trans (hverdict _ hperm₁).symm)
  · rintro ⟨huses, hinert⟩ l hl
    have hown : ∀ m : List XmlAttr, m.Perm properties → h.parse m = h.parse (m.map XmlAttr.own) := fun m hm =>
      attributes_own hlaw (fun a ha => huses a (hm.subset ha)) _ _ _ _
    refine ⟨?_, hown l hl⟩
    rw [hown l hl, hown properties (List.Perm.refl _)]
    by_cases hu : ∃ a ∈ properties, r.knows (lookUp a.name) = false
    · have hquiet : ∀ m : List XmlAttr, m.Perm properties →
          (h.parse (m.map XmlAttr.own)).verdict = (h.stop h.init 0).verdict := by
        intro m hm
        refine verdict_inert hlaw ?_ (fun a ha => hinert hu a (hm.subset ha)) none rfl
        obtain ⟨a, ha, hak⟩ := hu
        exact ⟨a, hm.symm.subset ha, hak⟩
      rw [hquiet l hl, hquiet properties (List.Perm.refl _)]
    · push Not at hu
      refine verdict_perm hlaw hl hname (fun a ha => ?_) none h.init 0
      simpa using hu a ha

end Laws

/-! ## The four elements -/

variable (w : ℕ)

def driverRules : Rules where
  knows
    | .name | .comment | .installDebugLevel | .emulationFlag | .drivergen => true
    | _ => false
  uses
    | .name | .comment | .installDebugLevel | .emulationFlag | .drivergen => true
    | _ => false
  inert
    | .name, v | .comment, v => v = []
    | .installDebugLevel, v | .emulationFlag, v => (getNumber w v).1 = 0
    | _, _ => false

/-- The value of `ignore_install_errors` is not read, and a bus type that does not exist is not stored. -/
def moduleRules : Rules where
  knows
    | .busType | .logicalModuleNumber | .extra | .comment | .ignoreInstallErrors | .name => true
    | _ => false
  uses
    | .busType | .logicalModuleNumber | .extra | .comment | .name => true
    | _ => false
  inert
    | .busType, v => busTypeOf v = none
    | .logicalModuleNumber, v => v ≠ [] ∧ (getNumber w v).1 = 0
    | .comment, v | .name, v => v = []
    | _, _ => false

def vmeSpaceRules : Rules where
  knows
    | .modifier | .dataWidth | .windowSize | .address | .freeFlag | .comment => true
    | _ => false
  uses
    | .modifier | .dataWidth | .windowSize | .address | .freeFlag | .comment => true
    | _ => false
  inert
    | .modifier, v | .dataWidth, v | .windowSize, v | .address, v | .freeFlag, v => (getNumber w v).1 = 0
    | .comment, v => v = []
    | _, _ => false

/-- Nothing is checked at a name that is not known, so a missing value counts. -/
def pciRules : Rules where
  knows
    | .busNumber | .slotNumber | .vendorId | .deviceId | .subvendorId | .subdeviceId | .comment => true
    | _ => false
  uses
    | .busNumber | .slotNumber | .vendorId | .deviceId | .subvendorId | .subdeviceId | .comment => true
    | _ => false
  inert
    | .busNumber, v | .slotNumber, v | .vendorId, v | .deviceId, v | .subvendorId, v | .subdeviceId, v =>
      getNumber w v = (0, 0)
    | .comment, v => v = []
    | _, _ => false

/-- The update of a field for which the text is cut to the array. -/
theorem strncpy_eq_nil {v : Text} {n : ℕ} (hn : 0 < n) : strncpy v n = [] ↔ v = [] := by
  simp [strncpy, List.take_eq_nil_iff, hn.ne']

theorem driver_lawful : Lawful (handleDriverNode w) (driverRules w) where
  knows_empty := rfl
  put_unknown := fun k p d hk => by cases k <;> first | rfl | contradiction
  put_known := fun k v hk => by cases k <;> first | exact .inl ⟨_, fun d => rfl⟩ | contradiction
  put_nowhere := fun k d hk => by cases k <;> first | rfl | contradiction
  put_unused := fun k p v d hk => by cases k <;> first | rfl | contradiction
  write_comm := fun k v k' v' d hk hk' hne => by
    cases k <;> try contradiction
    all_goals cases k' <;> first | rfl | contradiction
  finish_defined := fun d e => nofun
  stop_verdict := by
    refine ⟨fun d => !decide (d.drvrName.length < 1), fun d e => ?_⟩
    by_cases hn : d.drvrName.length < 1 <;> simp [handleDriverNode, driverFinish, Outcome.verdict, report, hn]
  inert_iff := fun k v hk => by
    have hsize : ∀ n, 0 < n → (strncpy v n = [] ↔ v = []) := fun n hn => strncpy_eq_nil hn
    have hflag : (if v.head? = some 'y' then (1 : ℤ) else 0) ≠ -1 := by split <;> decide
    cases k <;> try contradiction
    all_goals simp [handleDriverNode, driverPut, withValue, driverRules, driverFinish, Outcome.verdict, report,
      insLibNameSize, insLibCommentSize, hsize, hflag]

theorem write_busType (v : Text) (m : ModuleParse) : (handleModuleNode w).write .busType v m =
    match busTypeOf v with
    | some bus => { m with modld := { m.modld with busType := bus } }
    | none => m := by
  unfold Handler.write
  cases hv : busTypeOf v <;> simp [handleModuleNode, modulePut, withValue, hv]

theorem write_logicalModuleNumber (v : Text) (m : ModuleParse) :
    (handleModuleNode w).write .logicalModuleNumber v m =
      if v.length = 0 then m else { m with modld := { m.modld with moduleNumber := (getNumber w v).1 } } := by
  unfold Handler.write
  by_cases hv : v.length = 0 <;> simp [handleModuleNode, modulePut, withValue, hv]

theorem busTypeOf_ne_notSet (v : Text) : busTypeOf v ≠ some .notSet := by
  unfold busTypeOf
  repeat' split
  all_goals exact nofun

theorem module_lawful : Lawful (handleModuleNode w) (moduleRules w) where
  knows_empty := rfl
  put_unknown := fun k p d hk => by cases k <;> first | rfl | contradiction
  put_known := fun k v hk => by
    cases k <;> try contradiction
    case busType =>
      refine .inl ⟨if busTypeOf v = none then 1 else 0, fun d => ?_⟩
      rw [write_busType]
      cases hb : busTypeOf v <;> simp [handleModuleNode, modulePut, withValue, hb]
    case logicalModuleNumber =>
      by_cases hv : v.length = 0
      · exact .inr fun d => by simp [handleModuleNode, modulePut, withValue, hv]
      · refine .inl ⟨(getNumber w v).2 + report ((getNumber w v).1 > insLibMaxModules), fun d => ?_⟩
        rw [write_logicalModuleNumber]
        simp [handleModuleNode, modulePut, withValue, hv]
    all_goals exact .inl ⟨_, fun d => rfl⟩
  put_nowhere := fun k d hk => by cases k <;> first | rfl | contradiction
  put_unused := fun k p v d hk => by cases k <;> first | rfl | contradiction
  write_comm := fun k v k' v' d hk hk' hne => by
    cases k <;> try contradiction
    all_goals cases k' <;> try contradiction
    all_goals first | rfl | simp only [write_busType, write_logicalModuleNumber]
    all_goals repeat' split
    all_goals rfl
  finish_defined := fun d e => nofun
  stop_verdict := by
    refine ⟨fun m => !decide (m.modld.busType = .notSet), fun m e => ?_⟩
    by_cases hn : m.modld.busType = .notSet <;> simp [handleModuleNode, moduleFinish, Outcome.verdict, report, hn]
  inert_iff := fun k v hk => by
    have hsize : ∀ n, 0 < n → (strncpy v n = [] ↔ v = []) := fun n hn => strncpy_eq_nil hn
    cases k <;> try contradiction
    case busType =>
      have hbus := busTypeOf_ne_notSet v
      cases hb : busTypeOf v with
      | none => simp [handleModuleNode, modulePut, withValue, moduleRules, moduleFinish, Outcome.verdict, report, hb]
      | some bus =>
        rw [hb] at hbus
        simp only [ne_eq, Option.some.injEq] at hbus
        simp [handleModuleNode, modulePut, withValue, moduleRules, hb, hbus]
    case logicalModuleNumber =>
      by_cases hv : v = [] <;>
        simp [handleModuleNode, modulePut, withValue, moduleRules, moduleFinish, Outcome.verdict, report, hv]
    all_goals simp [handleModuleNode, modulePut, withValue, moduleRules, moduleFinish, Outcome.verdict, report,
      insLibNameSize, insLibCommentSize, hsize]

theorem vmeSpace_lawful : Lawful (handleVmeSpaceNode w) (vmeSpaceRules w) where
  knows_empty := rfl
  put_unknown := fun k p d hk => by cases k <;> first | rfl | contradiction
  put_known := fun k v hk => by cases k <;> first | exact .inl ⟨_, fun d => rfl⟩ | contradiction
  put_nowhere := fun k d hk => by cases k <;> first | rfl | contradiction
  put_unused := fun k p v d hk => by cases k <;> first | rfl | contradiction
  write_comm := fun k v k' v' d hk hk' hne => by
    cases k <;> try contradiction
    all_goals cases k' <;> first | rfl | contradiction
  finish_defined := fun d e => nofun
  stop_verdict := by
    refine ⟨fun s => decide (s.addressModifier ≠ 0 ∧ s.dataWidth ≠ 0 ∧ s.windowSize ≠ 0 ∧ s.baseAddress ≠ 0),
      fun s e => ?_⟩
    by_cases ha : s.addressModifier = 0
    · simp [handleVmeSpaceNode, vmeSpaceFinish, Outcome.verdict, report, ha]
    · by_cases hd : s.dataWidth = 0
      · simp [handleVmeSpaceNode, vmeSpaceFinish, Outcome.verdict, report, hd]
      · by_cases hw : s.windowSize = 0 <;> by_cases hb : s.baseAddress = 0 <;>
          simp [handleVmeSpaceNode, vmeSpaceFinish, Outcome.verdict, report, ha, hd, hw, hb]
  inert_iff := fun k v hk => by
    have hsize : ∀ n, 0 < n → (strncpy v n = [] ↔ v = []) := fun n hn => strncpy_eq_nil hn
    cases k <;> try contradiction
    all_goals simp [handleVmeSpaceNode, vmeSpacePut, withValue, vmeSpaceRules, vmeSpaceFinish, Outcome.verdict, report,
      insLibCommentSize, hsize]

theorem write_busNumber (v : Text) (d : InsLibPciModuleAddress) : (parsePciAddressTag w).write .busNumber v d =
    if (getNumber w v).1 > 16 then d else { d with busNumber := (getNumber w v).1 } := by
  unfold Handler.write
  by_cases hv : (getNumber w v).1 > 16 <;> simp [parsePciAddressTag, pciPut, withValue, hv]

theorem write_slotNumber (v : Text) (d : InsLibPciModuleAddress) : (parsePciAddressTag w).write .slotNumber v d =
    if (getNumber w v).1 > 16 then d else { d with slotNumber := (getNumber w v).1 } := by
  unfold Handler.write
  by_cases hv : (getNumber w v).1 > 16 <;> simp [parsePciAddressTag, pciPut, withValue, hv]

theorem pci_lawful : Lawful (parsePciAddressTag w) (pciRules w) where
  knows_empty := rfl
  put_unknown := fun k p d hk => by cases k <;> first | rfl | contradiction
  put_known := fun k v hk => by
    cases k <;> try contradiction
    case busNumber =>
      by_cases hv : (getNumber w v).1 > 16
      · exact .inr fun d => by simp [parsePciAddressTag, pciPut, withValue, hv]
      · refine .inl ⟨(getNumber w v).2, fun d => ?_⟩
        rw [write_busNumber]
        simp [parsePciAddressTag, pciPut, withValue, hv]
    case slotNumber =>
      by_cases hv : (getNumber w v).1 > 16
      · exact .inr fun d => by simp [parsePciAddressTag, pciPut, withValue, hv]
      · refine .inl ⟨(getNumber w v).2, fun d => ?_⟩
        rw [write_slotNumber]
        simp [parsePciAddressTag, pciPut, withValue, hv]
    all_goals exact .inl ⟨_, fun d => rfl⟩
  put_nowhere := fun k d hk => by cases k <;> first | rfl | contradiction
  put_unused := fun k p v d hk => by cases k <;> first | rfl | contradiction
  write_comm := fun k v k' v' d hk hk' hne => by
    cases k <;> try contradiction
    all_goals cases k' <;> try contradiction
    all_goals first | rfl | simp only [write_busNumber, write_slotNumber]
    all_goals repeat' split
    all_goals rfl
  finish_defined := fun d e => by
    simp only [parsePciAddressTag, pciFinish]
    split <;> exact nofun
  stop_verdict := ⟨fun _ => true, fun d e => by simp [parsePciAddressTag, pciStop, Outcome.verdict]⟩
  inert_iff := fun k v hk => by
    have hsize : ∀ n, 0 < n → (strncpy v n = [] ↔ v = []) := fun n hn => strncpy_eq_nil hn
    cases k <;> try contradiction
    case busNumber | slotNumber =>
      obtain ⟨n, e, hn⟩ : ∃ n e, getNumber w v = (n, e) := ⟨_, _, rfl⟩
      by_cases hbig : n > 16
      · have hne : n ≠ 0 := by omega
        simp [parsePciAddressTag, pciPut, withValue, pciRules, hn, hbig, hne]
      · simp [parsePciAddressTag, pciPut, withValue, pciRules, pciStop, Outcome.verdict, hn, hbig]
    all_goals simp [parsePciAddressTag, pciPut, withValue, pciRules, pciStop, Outcome.verdict, insLibCommentSize, hsize,
      Prod.ext_iff]

/-- The elements whose attributes a handler walks. -/
inductive InsLibElement where
  | driver | module | vmeSpace | pci
  deriving DecidableEq, Repr

def InsLibElement.Desc : InsLibElement → Type
  | .driver => InsLibDrvrDesc
  | .module => ModuleParse
  | .vmeSpace => InsLibVmeAddressSpace
  | .pci => InsLibPciModuleAddress

def InsLibElement.handler : (element : InsLibElement) → Handler element.Desc
  | .driver => handleDriverNode w
  | .module => handleModuleNode w
  | .vmeSpace => handleVmeSpaceNode w
  | .pci => parsePciAddressTag w

def InsLibElement.rules : InsLibElement → Rules
  | .driver => driverRules w
  | .module => moduleRules w
  | .vmeSpace => vmeSpaceRules w
  | .pci => pciRules w

theorem InsLibElement.lawful (element : InsLibElement) : Lawful (element.handler w) (element.rules w) := by
  cases element with
  | driver => exact driver_lawful w
  | module => exact module_lawful w
  | vmeSpace => exact vmeSpace_lawful w
  | pci => exact pci_lawful w

/-- The order of the attributes of an element does not matter exactly when the condition holds. -/
theorem element_orderFree_iff (element : InsLibElement) (properties : List XmlAttr)
    (hname : (properties.map XmlAttr.name).Nodup) :
    OrderFree (element.handler w) properties ↔ OrderCondition (element.rules w) properties :=
  orderFree_iff (element.lawful w) hname

/-- A module with a bus type and a number, and with a name the parser does not know. -/
def moduleWithStray : List XmlAttr :=
  [⟨"bus_type", some "VME".toList⟩, ⟨"logical_module_number", some "1".toList⟩, ⟨"colour", some "red".toList⟩]

theorem element_orderFree_iff_stray :
    (moduleWithStray.map XmlAttr.name).Nodup ∧
      (OrderFree (InsLibElement.handler 32 .module) moduleWithStray ↔
        OrderCondition (InsLibElement.rules 32 .module) moduleWithStray) :=
  ⟨by decide, element_orderFree_iff 32 .module moduleWithStray (by decide)⟩

/-- With the stray name in front the module loses its bus type and is rejected. -/
theorem not_orderFree_stray : ¬ OrderFree (InsLibElement.handler 32 .module) moduleWithStray := by
  intro h
  have hverdict := (h moduleWithStray.reverse (List.reverse_perm _)).1
  have hfirst : ((handleModuleNode 32).parse moduleWithStray.reverse).verdict.map Prod.snd = some false := by decide
  have hlast : ((handleModuleNode 32).parse moduleWithStray).verdict.map Prod.snd = some true := by decide
  have hsame : ((handleModuleNode 32).parse moduleWithStray.reverse).verdict.map Prod.snd =
      ((handleModuleNode 32).parse moduleWithStray).verdict.map Prod.snd := congrArg (Option.map Prod.snd) hverdict
  rw [hfirst, hlast] at hsame
  cases hsame

end HtDrivers.InsLib
