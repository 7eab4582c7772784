import Mathlib.Data.List.Dedup
import Mathlib.Data.Finset.Card
import Mathlib.Tactic

/-! Collecting a list: some entries are always taken, others only where no entry with their key is there yet; and the
same with room for `n` entries, where the first entry past the room ends the collection. -/
namespace HtDrivers.Lib.Collect
set_option autoImplicit false

inductive Entry (α : Type)
  | always (a : α)
  | fresh (a : α)

section Entries
variable {α : Type}

def Entry.value : Entry α → α
  | always a => a
  | fresh a => a

def Entry.always? : Entry α → Option α
  | always a => some a
  | fresh _ => none

def Entry.fresh? : Entry α → Option α
  | always _ => none
  | fresh a => some a

/-- The entries that are always taken. -/
def always (es : List (Entry α)) : List α := es.filterMap Entry.always?

def fresh (es : List (Entry α)) : List α := es.filterMap Entry.fresh?

theorem mem_always {es : List (Entry α)} {a : α} : a ∈ always es ↔ .always a ∈ es := by
  rw [always, List.mem_filterMap]
  constructor
  · rintro ⟨e, he, ha⟩
    cases e with
    | always b =>
      obtain rfl := Option.some.inj ha
      exact he
    | fresh b => cases ha
  · exact fun he => ⟨_, he, rfl⟩

theorem mem_fresh {es : List (Entry α)} {a : α} : a ∈ fresh es ↔ .fresh a ∈ es := by
  rw [fresh, List.mem_filterMap]
  constructor
  · rintro ⟨e, he, ha⟩
    cases e with
    | always b => cases ha
    | fresh b =>
      obtain rfl := Option.some.inj ha
      exact he
  · exact fun he => ⟨_, he, rfl⟩

theorem mem_values {es : List (Entry α)} {a : α} : (∃ e ∈ es, e.value = a) ↔ a ∈ always es ∨ a ∈ fresh es := by
  rw [mem_always, mem_fresh]
  constructor
  · rintro ⟨e, he, rfl⟩
    cases e with
    | always a => exact .inl he
    | fresh a => exact .inr he
  · rintro (h | h)
    · exact ⟨_, h, rfl⟩
    · exact ⟨_, h, rfl⟩

theorem always_concat (es : List (Entry α)) (e : Entry α) : always (es ++ [e]) = always es ++ e.always?.toList := by
  rw [always, List.filterMap_append]
  cases e <;> rfl

theorem always_flatMap {β : Type} (f : β → List (Entry α)) (bs : List β) :
    always (bs.flatMap f) = bs.flatMap fun b => always (f b) := List.filterMap_flatMap

theorem fresh_concat (es : List (Entry α)) (e : Entry α) : fresh (es ++ [e]) = fresh es ++ e.fresh?.toList := by
  rw [fresh, List.filterMap_append]
  cases e <;> rfl

end Entries

/-! ## One entry for each key -/

section Keys
variable {α κ : Type} (key : α → κ)

/-- No entry that is always taken has the key of one that is not. -/
def Unmixed (es : List (Entry α)) : Prop := ∀ a ∈ fresh es, ∀ b ∈ always es, key a ≠ key b

/-- One entry of the list for each key. -/
structure Picks (picks l : List α) : Prop where
  nodup : (picks.map key).Nodup
  subset : ∀ a ∈ picks, a ∈ l
  covers : ∀ a ∈ l, key a ∈ picks.map key

variable {key} {es : List (Entry α)} {l picks : List α} {e : Entry α} {a : α}

theorem Unmixed.of_concat (h : Unmixed key (es ++ [e])) : Unmixed key es := by
  intro a ha b hb
  refine h a ?_ b ?_
  · rw [fresh_concat]
    exact List.mem_append_left _ ha
  · rw [always_concat]
    exact List.mem_append_left _ hb

theorem Picks.skip (h : Picks key picks l) (hkey : key a ∈ picks.map key) : Picks key picks (l ++ [a]) := by
  refine ⟨h.nodup, fun b hb => List.mem_append_left _ (h.subset b hb), ?_⟩
  intro b hb
  rw [List.mem_append, List.mem_singleton] at hb
  obtain hb | rfl := hb
  · exact h.covers b hb
  · exact hkey

theorem Picks.push (h : Picks key picks l) (hkey : key a ∉ picks.map key) : Picks key (picks ++ [a]) (l ++ [a]) := by
  refine ⟨?_, ?_, ?_⟩
  · rw [List.map_append, List.map_singleton, List.nodup_append_comm, List.singleton_append, List.nodup_cons]
    exact ⟨hkey, h.nodup⟩
  · intro b hb
    rw [List.mem_append] at hb ⊢
    exact hb.imp_left (h.subset b)
  · intro b hb
    rw [List.map_append, List.mem_append]
    rw [List.mem_append, List.mem_singleton] at hb
    obtain hb | rfl := hb
    · exact .inl (h.covers b hb)
    · exact .inr (List.mem_singleton_self _)

theorem Picks.length [DecidableEq κ] (h : Picks key picks l) : picks.length = (l.map key).toFinset.card := by
  have hkeys : (picks.map key).toFinset = (l.map key).toFinset := by
    ext k
    rw [List.mem_toFinset, List.mem_toFinset]
    constructor
    · intro hk
      obtain ⟨a, ha, rfl⟩ := List.mem_map.mp hk
      exact List.mem_map_of_mem (h.subset a ha)
    · intro hk
      obtain ⟨a, ha, rfl⟩ := List.mem_map.mp hk
      exact h.covers a ha
  rw [← hkeys, List.toFinset_card_of_nodup h.nodup, List.length_map]

end Keys

/-! ## The collection -/

section Collections
variable {α κ : Type} [DecidableEq κ] (key : α → κ)

def Entry.Taken (l : List α) : Entry α → Prop
  | always _ => True
  | fresh a => key a ∉ l.map key

instance (l : List α) (e : Entry α) : Decidable (e.Taken key l) :=
  match e with
  | .always _ => inferInstanceAs (Decidable True)
  | .fresh a => inferInstanceAs (Decidable (key a ∉ l.map key))

def add (l : List α) (e : Entry α) : List α := if e.Taken key l then l ++ [e.value] else l

def collect (es : List (Entry α)) : List α := es.foldl (add key) []

variable {key} {es : List (Entry α)} {l picks : List α} {e : Entry α} {a : α} {n : ℕ}

theorem add_always : add key l (.always a) = l ++ [a] := if_pos trivial

theorem add_taken (h : key a ∉ l.map key) : add key l (.fresh a) = l ++ [a] := if_pos h

theorem add_skipped (h : key a ∈ l.map key) : add key l (.fresh a) = l := if_neg fun htaken => htaken h

theorem collect_concat : collect key (es ++ [e]) = add key (collect key es) e := by
  rw [collect, List.foldl_append]
  rfl

/-- What is collected are the entries that are always taken and one other for each key. -/
theorem collect_perm (h : Unmixed key es) :
    ∃ picks, (collect key es).Perm (always es ++ picks) ∧ Picks key picks (fresh es) := by
  induction es using List.reverseRecOn with
  | nil => exact ⟨[], .nil, List.nodup_nil, fun a ha => ha, fun a ha => absurd ha List.not_mem_nil⟩
  | append_singleton es e ih =>
    obtain ⟨picks, hperm, hpicks⟩ := ih h.of_concat
    rw [collect_concat, always_concat, fresh_concat]
    cases e with
    | always a =>
      refine ⟨picks, ?_, by rwa [Entry.fresh?, Option.toList_none, List.append_nil]⟩
      rw [add_always, List.append_assoc]
      refine (hperm.append_right [a]).trans ?_
      rw [List.append_assoc]
      exact List.perm_append_comm.append_left _
    | fresh a =>
      have hfree : key a ∈ (collect key es).map key ↔ key a ∈ picks.map key := by
        rw [(hperm.map key).mem_iff, List.map_append, List.mem_append, or_iff_right]
        intro hmem
        obtain ⟨b, hb, hkey⟩ := List.mem_map.mp hmem
        exact h a (mem_fresh.mpr (by simp)) b (mem_always.mpr (List.mem_append_left _ (mem_always.mp hb))) hkey.symm
      rw [Entry.always?, Option.toList_none, List.append_nil]
      by_cases hkey : key a ∈ picks.map key
      · refine ⟨picks, ?_, hpicks.skip hkey⟩
        rw [add_skipped (hfree.mpr hkey)]
        exact hperm
      · refine ⟨picks ++ [a], ?_, hpicks.push hkey⟩
        rw [add_taken fun hmem => hkey (hfree.mp hmem), ← List.append_assoc]
        exact hperm.append_right [a]

theorem collect_length (h : Unmixed key es) :
    (collect key es).length = (always es).length + ((fresh es).map key).toFinset.card := by
  obtain ⟨picks, hperm, hpicks⟩ := collect_perm h
  rw [hperm.length_eq, List.length_append, hpicks.length]

/-- Every value is collected once, and nothing else is, exactly where the entries that are always taken differ and the
others are determined by their key. -/
theorem collect_exact_iff (h : Unmixed key es) :
    ((collect key es).Nodup ∧ ∀ a, a ∈ collect key es ↔ ∃ e ∈ es, e.value = a) ↔
      (always es).Nodup ∧ ∀ a ∈ fresh es, ∀ b ∈ fresh es, key a = key b → a = b := by
  obtain ⟨picks, hperm, hpicks⟩ := collect_perm h
  have hapart : ∀ a ∈ fresh es, a ∉ always es := fun a ha ha' => h a ha a ha' rfl
  simp only [hperm.nodup_iff, hperm.mem_iff, mem_values, List.mem_append]
  constructor
  · rintro ⟨hnodup, hmem⟩
    refine ⟨(List.nodup_append.mp hnodup).1, ?_⟩
    have hpicked : ∀ a ∈ fresh es, a ∈ picks := fun a ha => ((hmem a).mpr (.inr ha)).resolve_left (hapart a ha)
    intro a ha b hb hkey
    exact List.inj_on_of_nodup_map hpicks.nodup (hpicked a ha) (hpicked b hb) hkey
  · rintro ⟨halways, hdetermined⟩
    have hpicked : ∀ a, a ∈ picks ↔ a ∈ fresh es := by
      refine fun a => ⟨hpicks.subset a, fun ha => ?_⟩
      obtain ⟨b, hb, hkey⟩ := List.mem_map.mp (hpicks.covers a ha)
      rwa [← hdetermined b (hpicks.subset b hb) a ha hkey]
    refine ⟨List.nodup_append.mpr ⟨halways, .of_map key hpicks.nodup, ?_⟩, fun a => by rw [hpicked]⟩
    rintro a ha _ hb rfl
    exact hapart a (hpicks.subset a hb) ha

/-! ## Room for `n` entries -/

variable (key) in
/-- The entry is stored before the room is looked at. -/
def addUpTo (n : ℕ) (l : List α) (e : Entry α) : Except (List α) (List α) :=
  if e.Taken key l then if n ≤ l.length then .error (l ++ [e.value]) else .ok (l ++ [e.value]) else .ok l

theorem foldlM_flatMap {β γ : Type} {m : Type → Type} [Monad m] [LawfulMonad m] (f : α → List β) (g : γ → β → m γ)
    (as : List α) (c : γ) : (as.flatMap f).foldlM g c = as.foldlM (fun c a => (f a).foldlM g c) c := by
  induction as generalizing c with
  | nil => rfl
  | cons a as ih =>
    rw [List.flatMap_cons, List.foldlM_append, List.foldlM_cons]
    simp only [ih]

/-- The list at the end, be it reached early. -/
def outcome : Except (List α) (List α) → List α
  | .ok l => l
  | .error l => l

theorem length_le_foldl : l.length ≤ (es.foldl (add key) l).length := by
  induction es generalizing l with
  | nil => exact Nat.le_refl _
  | cons e es ih =>
    refine Nat.le_trans ?_ ih
    rw [add]
    split
    · simp
    · exact Nat.le_refl _

theorem foldlM_addUpTo (key : α → κ) (es : List (Entry α)) (hl : l.length ≤ n) :
    ((es.foldl (add key) l).length ≤ n ∧ es.foldlM (addUpTo key n) l = .ok (es.foldl (add key) l)) ∨
      (n < (es.foldl (add key) l).length ∧ ∃ r, es.foldlM (addUpTo key n) l = .error r ∧ r.length = n + 1) := by
  induction es generalizing l with
  | nil => exact .inl ⟨hl, rfl⟩
  | cons e es ih =>
    rw [List.foldl_cons, List.foldlM_cons]
    by_cases htaken : e.Taken key l
    · have hadd : add key l e = l ++ [e.value] := if_pos htaken
      have hlength : (l ++ [e.value]).length = l.length + 1 := List.length_append
      by_cases hroom : n ≤ l.length
      · right
        have hfull : addUpTo key n l e = .error (l ++ [e.value]) := by rw [addUpTo, if_pos htaken, if_pos hroom]
        have hle : (l ++ [e.value]).length ≤ (es.foldl (add key) (l ++ [e.value])).length := length_le_foldl
        rw [hadd, hfull]
        exact ⟨by omega, _, rfl, by omega⟩
      · have hstored : addUpTo key n l e = .ok (l ++ [e.value]) := by rw [addUpTo, if_pos htaken, if_neg hroom]
        rw [hadd, hstored]
        exact ih (by omega)
    · have hadd : add key l e = l := if_neg htaken
      have hkept : addUpTo key n l e = .ok l := if_neg htaken
      rw [hadd, hkept]
      exact ih hl

/-- The collection with room is the one without where that fits, and else is one entry too long. -/
theorem outcome_length_le_iff (n : ℕ) (es : List (Entry α)) :
    (outcome (es.foldlM (addUpTo key n) [])).length ≤ n ↔ (collect key es).length ≤ n := by
  obtain ⟨hfits, hrun⟩ | ⟨hover, r, hrun, hr⟩ := foldlM_addUpTo key es (l := []) (Nat.zero_le n)
  · rw [hrun]
    rfl
  · rw [hrun]
    refine iff_of_false ?_ (Nat.not_le.mpr hover)
    change ¬r.length ≤ n
    omega

theorem outcome_eq (h : (collect key es).length ≤ n) : outcome (es.foldlM (addUpTo key n) []) = collect key es := by
  obtain ⟨-, hrun⟩ | ⟨hover, -⟩ := foldlM_addUpTo key es (l := []) (Nat.zero_le n)
  · rw [hrun]
    rfl
  · exact absurd h (Nat.not_le.mpr hover)

end Collections

end HtDrivers.Lib.Collect
