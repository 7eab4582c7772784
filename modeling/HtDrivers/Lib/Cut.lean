import Mathlib.Data.Nat.ModEq
import Mathlib.Data.List.Basic
import Mathlib.Tactic

/-! # Cutting a transfer at block boundaries

A transfer copies `n` bytes between a source address `h` and a target address `v`. It is cut
into pieces none of which crosses a multiple of the block size `B` on the target side (`B = 0`
stands for no boundary at all). The target address advances with the bytes (`inc = true`) or
stays where it is (`inc = false`, a fifo).

`cut` is the specification of the cut, `cutAll` that of a list of source ranges. Their lemmas
say that the pieces tile the source ranges, where each piece lands, and that no piece crosses a
boundary. `blockEnd` is where the last piece would end on the source side were it not shortened
to the bytes that are left.
-/
namespace HtDrivers.Lib.Cut
set_option autoImplicit false

/-- One piece of a transfer. -/
structure Piece where
  target : ℕ
  source : ℕ
  len : ℕ
  deriving DecidableEq, Repr

/-- The distance from `v` to the next multiple of `B`. -/
def room (B v : ℕ) : ℕ := B - v % B

theorem room_pos {B : ℕ} (hB : 0 < B) (v : ℕ) : 0 < room B v := by
  have := Nat.mod_lt v hB
  unfold room
  omega

theorem room_le (B v : ℕ) : room B v ≤ B := Nat.sub_le _ _

/-- The length of the first piece of `n` bytes at target `v`. -/
def pieceLen (B v n : ℕ) : ℕ := if B = 0 then n else min n (room B v)

theorem pieceLen_le (B v n : ℕ) : pieceLen B v n ≤ n := by
  unfold pieceLen
  split
  · exact Nat.le_refl n
  · exact Nat.min_le_left _ _

theorem pieceLen_pos (B v n : ℕ) (hn : 0 < n) : 0 < pieceLen B v n := by
  unfold pieceLen
  split
  · exact hn
  · exact Nat.lt_min.mpr ⟨hn, room_pos (by omega) v⟩

/-- The target address after `k` bytes. -/
def advance (inc : Bool) (v k : ℕ) : ℕ := if inc then v + k else v

/-- The pieces of `n` bytes from source `h` to target `v`. -/
def cut (B : ℕ) (inc : Bool) (v h n : ℕ) : List Piece :=
  if n = 0 then []
  else
    ⟨v, h, pieceLen B v n⟩ ::
      cut B inc (advance inc v (pieceLen B v n)) (h + pieceLen B v n) (n - pieceLen B v n)
termination_by n
decreasing_by
  have := pieceLen_pos B v n (by omega)
  omega

theorem cut_zero (B : ℕ) (inc : Bool) (v h : ℕ) : cut B inc v h 0 = [] := by
  rw [cut]
  rfl

theorem cut_step (B : ℕ) (inc : Bool) (v h n : ℕ) (hn : 0 < n) :
    cut B inc v h n = ⟨v, h, pieceLen B v n⟩ ::
      cut B inc (advance inc v (pieceLen B v n)) (h + pieceLen B v n) (n - pieceLen B v n) := by
  rw [cut]
  simp [Nat.pos_iff_ne_zero.mp hn]

theorem cut_one {B : ℕ} (inc : Bool) {v : ℕ} (h : ℕ) {n : ℕ} (hn : 0 < n) (hp : pieceLen B v n = n) :
    cut B inc v h n = [⟨v, h, n⟩] := by
  rw [cut_step B inc v h n hn, hp, Nat.sub_self, cut_zero]

/-- The pieces of several source ranges, one after the other. -/
def cutAll (B : ℕ) (inc : Bool) : ℕ → List (ℕ × ℕ) → List Piece
  | _, [] => []
  | v, (h, n) :: rest => cut B inc v h n ++ cutAll B inc (advance inc v n) rest

/-! ## The pieces tile the source -/

/-- The source addresses of a piece, in order. -/
def Piece.bytes (p : Piece) : List ℕ := List.range' p.source p.len

theorem cut_bytes (B : ℕ) (inc : Bool) (v h n : ℕ) :
    (cut B inc v h n).flatMap Piece.bytes = List.range' h n := by
  induction n using Nat.strong_induction_on generalizing v h with
  | _ n ih =>
    by_cases hn : n = 0
    · subst hn
      rw [cut_zero]
      rfl
    · have hpos := pieceLen_pos B v n (by omega)
      have hle := pieceLen_le B v n
      rw [cut_step B inc v h n (by omega), List.flatMap_cons, ih _ (by omega)]
      change List.range' h (pieceLen B v n) ++ _ = _
      rw [List.range'_append_1, Nat.add_sub_cancel' hle]

theorem cutAll_bytes (B : ℕ) (inc : Bool) (v : ℕ) (rs : List (ℕ × ℕ)) :
    (cutAll B inc v rs).flatMap Piece.bytes = rs.flatMap fun r => List.range' r.1 r.2 := by
  induction rs generalizing v with
  | nil => rfl
  | cons r rs ih => rw [cutAll, List.flatMap_append, cut_bytes, ih, List.flatMap_cons]

theorem cut_total (B : ℕ) (inc : Bool) (v h n : ℕ) : ((cut B inc v h n).map Piece.len).sum = n := by
  have hlen := congrArg List.length (cut_bytes B inc v h n)
  simpa [List.length_flatMap, Piece.bytes] using hlen

theorem cutAll_total (B : ℕ) (inc : Bool) (v : ℕ) (rs : List (ℕ × ℕ)) :
    ((cutAll B inc v rs).map Piece.len).sum = (rs.map Prod.snd).sum := by
  induction rs generalizing v with
  | nil => rfl
  | cons r rs ih => rw [cutAll, List.map_append, List.sum_append, cut_total, ih, List.map_cons, List.sum_cons]

theorem cut_pos {B : ℕ} {inc : Bool} {v h n : ℕ} {p : Piece} (hp : p ∈ cut B inc v h n) : 0 < p.len := by
  induction n using Nat.strong_induction_on generalizing v h with
  | _ n ih =>
    by_cases hn : n = 0
    · subst hn
      rw [cut_zero] at hp
      cases hp
    · have hpos := pieceLen_pos B v n (by omega)
      rw [cut_step B inc v h n (by omega), List.mem_cons] at hp
      obtain rfl | hp := hp
      · exact hpos
      · exact ih _ (by omega) hp

theorem cutAll_pos {B : ℕ} {inc : Bool} {v : ℕ} {rs : List (ℕ × ℕ)} {p : Piece}
    (hp : p ∈ cutAll B inc v rs) : 0 < p.len := by
  induction rs generalizing v with
  | nil => cases hp
  | cons r rs ih =>
    obtain h | h := List.mem_append.mp hp
    · exact cut_pos h
    · exact ih h

theorem cut_ne_nil (B : ℕ) (inc : Bool) (v h n : ℕ) (hn : 0 < n) : cut B inc v h n ≠ [] := by
  rw [cut_step B inc v h n hn]
  exact List.cons_ne_nil _ _

/-! ## Where the pieces land -/

/-- Each piece starts at the target address left by the pieces before it. -/
def Lands (inc : Bool) : ℕ → List Piece → Prop
  | _, [] => True
  | v, p :: ps => p.target = v ∧ Lands inc (advance inc v p.len) ps

theorem Lands.append {inc : Bool} {v : ℕ} {ps qs : List Piece} (hp : Lands inc v ps)
    (hq : Lands inc (advance inc v (ps.map Piece.len).sum) qs) : Lands inc v (ps ++ qs) := by
  induction ps generalizing v with
  | nil =>
    cases inc <;> simpa [advance] using hq
  | cons p ps ih =>
    refine ⟨hp.1, ih hp.2 ?_⟩
    cases inc
    · simpa [advance] using hq
    · simpa [advance, Nat.add_assoc] using hq

theorem cut_lands (B : ℕ) (inc : Bool) (v h n : ℕ) : Lands inc v (cut B inc v h n) := by
  induction n using Nat.strong_induction_on generalizing v h with
  | _ n ih =>
    by_cases hn : n = 0
    · subst hn
      rw [cut_zero]
      trivial
    · have hpos := pieceLen_pos B v n (by omega)
      rw [cut_step B inc v h n (by omega)]
      exact ⟨rfl, ih _ (by omega) _ _⟩

theorem cutAll_lands (B : ℕ) (inc : Bool) (v : ℕ) (rs : List (ℕ × ℕ)) :
    Lands inc v (cutAll B inc v rs) := by
  induction rs generalizing v with
  | nil => trivial
  | cons r rs ih =>
    refine Lands.append (cut_lands B inc v r.1 r.2) ?_
    rw [cut_total]
    exact ih _

theorem Lands.get {inc : Bool} {v : ℕ} {ps : List Piece} (hl : Lands inc v ps) (k : ℕ)
    (hk : k < ps.length) : ps[k].target = advance inc v ((ps.take k).map Piece.len).sum := by
  induction ps generalizing v k with
  | nil => exact absurd hk (Nat.not_lt_zero k)
  | cons p ps ih =>
    cases k with
    | zero => cases inc <;> simpa [advance] using hl.1
    | succ k =>
      have h := ih hl.2 k (by simpa using hk)
      cases inc
      · simpa [advance] using h
      · simpa [advance, Nat.add_assoc] using h

/-! ## No piece crosses a boundary -/

/-- Some multiple of `B` lies strictly inside `[v, v + n)`. -/
def Crosses (B v n : ℕ) : Prop := ∃ m, v < m * B ∧ m * B < v + n

theorem not_crosses_of_le_room {B v n : ℕ} (hB : 0 < B) (hn : n ≤ room B v) : ¬ Crosses B v n := by
  rintro ⟨m, hlo, hhi⟩
  unfold room at hn
  have hdm := Nat.div_add_mod v B
  have hmod := Nat.mod_lt v hB
  have h1 : v / B < m := by
    by_contra hle
    have : m * B ≤ v / B * B := Nat.mul_le_mul_right B (by omega)
    rw [Nat.mul_comm (v / B)] at this
    omega
  have h2 : (v / B + 1) * B ≤ m * B := Nat.mul_le_mul_right B h1
  rw [Nat.add_mul, Nat.mul_comm (v / B), Nat.one_mul] at h2
  omega

/-! ## The unshortened end of the last piece -/

/-- The source address at which the last block of the transfer ends, before it is shortened to the
bytes that are left. -/
def blockEnd (B : ℕ) (inc : Bool) (v h n : ℕ) : ℕ :=
  if B = 0 then h + n
  else if inc then h + n + (B - (v + n) % B) % B
  else h + (n + room B v - 1) / room B v * room B v

theorem blockEnd_last {B : ℕ} (inc : Bool) {v h n : ℕ} (hB : 0 < B) (hn : 0 < n) (hr : n ≤ room B v) :
    blockEnd B inc v h n = h + room B v := by
  have hB' : B ≠ 0 := by omega
  cases inc with
  | true =>
    have hdm := Nat.div_add_mod v B
    have hmod := Nat.mod_lt v hB
    have hsum : (v + n) % B = (v % B + n) % B := (Nat.mod_add_mod v B n).symm
    simp only [blockEnd, hB', if_false, if_true]
    unfold room at hr ⊢
    by_cases hfull : v % B + n = B
    · rw [hsum, hfull, Nat.mod_self, Nat.sub_zero, Nat.mod_self]
      omega
    · rw [hsum, Nat.mod_eq_of_lt (by omega : v % B + n < B), Nat.mod_eq_of_lt (by omega)]
      omega
  | false =>
    have hp := room_pos hB v
    have hq : (n + room B v - 1) / room B v = 1 := by
      rw [Nat.div_eq_iff hp]
      omega
    simp only [blockEnd, hB', if_false, Bool.false_eq_true, hq, Nat.one_mul]

theorem blockEnd_next {B : ℕ} (inc : Bool) {v h n : ℕ} (hB : 0 < B) (hr : room B v < n) :
    blockEnd B inc v h n =
      blockEnd B inc (advance inc v (room B v)) (h + room B v) (n - room B v) := by
  have hB' : B ≠ 0 := by omega
  have hp := room_pos hB v
  cases inc with
  | true =>
    have hv : v + room B v + (n - room B v) = v + n := by omega
    simp only [blockEnd, hB', if_false, if_true, advance, hv]
    omega
  | false =>
    have hq : (n + room B v - 1) / room B v = (n - room B v + room B v - 1) / room B v + 1 := by
      rw [← Nat.add_div_right _ hp]
      congr 1
      omega
    simp only [blockEnd, hB', if_false, Bool.false_eq_true, advance, hq, Nat.add_mul, Nat.one_mul]
    omega

theorem le_blockEnd (B : ℕ) (inc : Bool) (v h n : ℕ) : h + n ≤ blockEnd B inc v h n := by
  unfold blockEnd
  split
  · exact Nat.le_refl _
  · rename_i hB
    cases inc with
    | true => exact Nat.le_add_right _ _
    | false =>
      have hp := room_pos (by omega : 0 < B) v
      have hdm := Nat.div_add_mod (n + room B v - 1) (room B v)
      have hmod := Nat.mod_lt (n + room B v - 1) hp
      rw [Nat.mul_comm] at hdm
      simp only [Bool.false_eq_true, if_false]
      omega

theorem blockEnd_le (B : ℕ) (inc : Bool) (v h n : ℕ) : blockEnd B inc v h n ≤ h + n + B := by
  unfold blockEnd
  split
  · omega
  · rename_i hB
    cases inc with
    | true =>
      have := Nat.mod_lt (B - (v + n) % B) (by omega : 0 < B)
      simp only [if_true]
      omega
    | false =>
      have hle := Nat.div_mul_le_self (n + room B v - 1) (room B v)
      have := room_le B v
      simp only [Bool.false_eq_true, if_false]
      omega

end HtDrivers.Lib.Cut
