import HtDrivers.Mttn.AsmAtoms
import Mathlib.Logic.Relation

/-! `GetAtoms` on the memory it works on: the source buffer with its padding, the table `atomhash` with an index
of type `char`, and the buffer for the text of one atom. Every access is checked, and the first one that
leaves its object is a `Fault`. What the atoms hold does not steer the loop, and is in `AsmAtoms`, which reads every
source that is safe here. -/
namespace HtDrivers.Mttn
open HtDrivers.Lib.Numerals
set_option autoImplicit false

/-! ## The loop -/

abbrev SourceByte := BitVec 8

/-- The class of a byte; `atomhash` has no entry for a byte that is negative as a `char`. -/
def byteType (b : SourceByte) : AtomType := atomhash (Char.ofNat b.toNat)

def newLine : SourceByte := 10

inductive Fault
  | hashIndex | textOverflow | readPast
deriving DecidableEq

/-- Copy a run of characters into the text, which must keep a place for its terminator: the count and the
place behind the run. -/
def textLoop (inText : SourceByte → Bool) : ℕ → List SourceByte → Except Fault (ℕ × List SourceByte)
  | _, [] => .error .readPast
  | nb, b :: s =>
    if b.toInt < 0 then .error .hashIndex
    else if inText b ∧ nb < textSize then
      if nb + 1 < textSize then textLoop inText (nb + 1) s else .error .textOverflow
    else .ok (nb, b :: s)

def seperatorLoop : ℕ → List SourceByte → Except Fault (ℕ × List SourceByte)
  | _, [] => .error .readPast
  | pos, b :: s =>
    if b.toInt < 0 then .error .hashIndex
    else if byteType b = .seperator then if b = newLine then .ok (0, s) else seperatorLoop (pos + 1) s
    else .ok (pos, b :: s)

/-- The text of a comment has no bound of its own. -/
def commentLoop : ℕ → List SourceByte → Except Fault (ℕ × List SourceByte)
  | _, [] => .error .readPast
  | nb, b :: s =>
    if b.toInt < 0 then .error .hashIndex
    else if byteType b = .comment then .ok (nb, b :: s)
    else if b = newLine ∨ b = 0 then .ok (nb, s)
    else if nb + 1 < textSize then commentLoop (nb + 1) s
    else .error .textOverflow

/-- How far `strtoul` reads into the string at this place; the string must have an end. -/
def numberEnd (cp : List SourceByte) : Except Fault (ℕ × List SourceByte) :=
  if 0 ∈ cp then
    let str := cp.takeWhile fun b => b ≠ 0
    let nb := str.length - (strtoul 32 (str.map fun b => Char.ofNat b.toNat)).2.length
    .ok (nb, cp.drop nb)
  else .error .readPast

def inName (b : SourceByte) : Bool := byteType b = .alpha ∨ byteType b = .numeric

def inOperator (b : SourceByte) : Bool := byteType b = .operator

/-- One turn of the loop: the new position and place, or nothing at the end of the source. -/
def checkedTurn (pos : ℕ) : List SourceByte → Except Fault (Option (ℕ × List SourceByte))
  | [] => .error .readPast
  | b :: s =>
    if b.toInt < 0 then .error .hashIndex
    else match byteType b with
      | .numeric => (numberEnd (b :: s)).map fun r => some (pos + r.1, r.2)
      | .alpha => (textLoop inName 0 (b :: s)).map fun r => some (pos + r.1, r.2)
      | .seperator => (seperatorLoop pos (b :: s)).map some
      | .comment => (commentLoop 0 s).map fun r => some (pos + r.1, r.2)
      | .operator => (textLoop inOperator 0 (b :: s)).map fun r => some (pos + r.1, r.2)
      | .open | .close | .openIndex | .closeIndex | .bit => .ok (some (pos + 1, s))
      | .illegalChar | .terminator | .opCode | .register | .expression | .notSet => .ok none

/-- `fuel` turns of the loop; nothing while it has not ended. -/
def checkedLoop (size : ℕ) : ℕ → ℕ → List SourceByte → Option (Except Fault Unit)
  | 0, _, _ => none
  | fuel + 1, pos, cp =>
    if pos ≤ size then
      match checkedTurn pos cp with
      | .error fault => some (.error fault)
      | .ok none => some (.ok ())
      | .ok (some next) => checkedLoop size fuel next.1 next.2
    else some (.ok ())

def checkedGetAtoms (size fuel : ℕ) : List SourceByte → Option (Except Fault Unit)
  | [] => some (.error .readPast)
  | b :: s => if b = 46 then some (.ok ()) else checkedLoop size fuel 1 (b :: s)

/-- The buffer of `main` for a file of `size` bytes, whose text has no terminator. -/
def sourceBuffer (size : ℕ) (text : List SourceByte) : List SourceByte :=
  text ++ List.replicate (size + 16 - text.length) 0

/-- `GetAtoms` ends without leaving the buffers or the table. -/
def GetAtomsSafe (size : ℕ) (text : List SourceByte) : Prop :=
  ∃ fuel, checkedGetAtoms size fuel (sourceBuffer size text) = some (.ok ())

/-! ## Where atoms start -/

def Plain (b : SourceByte) : Prop := 0 ≤ b.toInt

instance (b : SourceByte) : Decidable (Plain b) := inferInstanceAs (Decidable (_ ≤ _))

def inComment (b : SourceByte) : Bool := byteType b ≠ .comment ∧ b ≠ newLine

/-- What is left of a text behind a run of separators, up to and with the first new line. -/
def behindSeperators : List SourceByte → List SourceByte
  | [] => []
  | b :: s => if byteType b = .seperator then if b = newLine then s else behindSeperators s else b :: s

/-- What is left behind the text of a comment: its closing mark stays, a new line goes. -/
def behindComment (t : List SourceByte) : List SourceByte :=
  match t.dropWhile inComment with
  | [] => []
  | b :: s => if byteType b = .comment then b :: s else s

/-- The place behind the atom at the head of a text, or nothing where the loop ends. -/
def behindAtom : List SourceByte → Option (List SourceByte)
  | [] => none
  | b :: s => match byteType b with
    | .numeric => some ((b :: s).drop ((b :: s).length -
        (strtoul 32 ((b :: s).map fun b => Char.ofNat b.toNat)).2.length))
    | .alpha => some ((b :: s).dropWhile inName)
    | .seperator => some (behindSeperators (b :: s))
    | .comment => some (behindComment s)
    | .operator => some ((b :: s).dropWhile inOperator)
    | .open | .close | .openIndex | .closeIndex | .bit => some s
    | .illegalChar | .terminator | .opCode | .register | .expression | .notSet => none

/-- `t` is a place in the text at which the loop looks for an atom. -/
def AtomStarts (text t : List SourceByte) : Prop := Relation.ReflTransGen (fun u v => behindAtom u = some v) text t

/-- The atom at the head of a text starts with a byte below `0x80`, and has room in the buffer with its
terminator; a comment has only such bytes. -/
def AtomFits : List SourceByte → Prop
  | [] => True
  | b :: s => Plain b ∧
    (byteType b = .alpha → ((b :: s).takeWhile inName).length < textSize) ∧
    (byteType b = .operator → ((b :: s).takeWhile inOperator).length < textSize) ∧
    (byteType b = .comment → (s.takeWhile inComment).length < textSize ∧ ∀ c ∈ s.takeWhile inComment, Plain c)

/-! ## The inner loops on a padded text -/

theorem plain_of_type {b : SourceByte} (h : byteType b ≠ .illegalChar) : Plain b := by
  have hall : ∀ n : Fin 256, byteType (BitVec.ofFin n) ≠ .illegalChar → Plain (BitVec.ofFin n) := by decide +kernel
  exact hall b.toFin h

theorem byteType_zero : byteType 0 = .terminator := by decide

theorem byteType_newLine : byteType newLine = .seperator := by decide

section Loops
variable {t : List SourceByte} {n : ℕ}

theorem replicate_zero_succ (n : ℕ) : List.replicate (n + 1) (0 : SourceByte) = 0 :: List.replicate n 0 :=
  List.replicate_succ

/-- A run is copied when it fits, and the byte behind it is looked up in the table. -/
theorem textLoop_ok_iff {inText : SourceByte → Bool} (hterminator : inText 0 = false)
    (hlegal : ∀ b, inText b = true → Plain b) {nb : ℕ} (hnb : nb < textSize) {r : ℕ × List SourceByte} :
    textLoop inText nb (t ++ List.replicate (n + 1) 0) = .ok r ↔
      (nb + (t.takeWhile inText).length < textSize ∧
        ∀ d ∈ (t.dropWhile inText).head?, Plain d) ∧
      r = (nb + (t.takeWhile inText).length,
        t.dropWhile inText ++ List.replicate (n + 1) 0) := by
  induction t generalizing nb with
  | nil =>
    have hstop : ¬ (inText 0 = true ∧ nb < textSize) := by
      rw [hterminator]
      exact nofun
    rw [List.nil_append, replicate_zero_succ, textLoop, if_neg (by decide), if_neg hstop]
    simp only [List.takeWhile_nil, List.dropWhile_nil, List.length_nil, Nat.add_zero, List.nil_append, hnb, true_and,
      List.head?_nil, Except.ok.injEq]
    exact ⟨fun h => ⟨nofun, h.symm⟩, fun h => h.2.symm⟩
  | cons b t ih =>
    rw [List.cons_append, textLoop]
    by_cases hin : inText b = true
    · rw [if_neg (not_lt.mpr (hlegal b hin)), if_pos ⟨hin, hnb⟩, List.takeWhile_cons_of_pos hin,
        List.dropWhile_cons_of_pos hin, List.length_cons]
      by_cases hroom : nb + 1 < textSize
      · rw [if_pos hroom, ih hroom, Nat.add_assoc, Nat.add_comm 1]
      · rw [if_neg hroom]
        constructor
        · intro h
          cases h
        · rintro ⟨⟨hlt, -⟩, -⟩
          omega
    · rw [List.takeWhile_cons_of_neg hin, List.dropWhile_cons_of_neg hin]
      have hstop : ¬ (inText b = true ∧ nb < textSize) := fun hand => hin hand.1
      by_cases hplain : b.toInt < 0
      · rw [if_pos hplain]
        constructor
        · intro h
          cases h
        · rintro ⟨⟨-, hhead⟩, -⟩
          exact absurd (hhead b rfl) (not_le.mpr hplain)
      · rw [if_neg hplain, if_neg hstop]
        simp only [List.length_nil, Nat.add_zero, hnb, true_and, Except.ok.injEq, List.cons_append]
        constructor
        · rintro rfl
          refine ⟨?_, rfl⟩
          intro d hd
          rw [← Option.some.inj hd]
          exact not_lt.mp hplain
        · rintro ⟨-, rfl⟩
          rfl

/-- The zeros behind a comment: the loop takes the terminator of the text for the end of an open comment. -/
def zerosBehind (t : List SourceByte) (n : ℕ) : ℕ := if t.dropWhile inComment = [] then n else n + 1

theorem commentLoop_ok_iff (h0 : 0 ∉ t) {nb : ℕ} (hnb : nb < textSize) {r : ℕ × List SourceByte} :
    commentLoop nb (t ++ List.replicate (n + 1) 0) = .ok r ↔
      (nb + (t.takeWhile inComment).length < textSize ∧ ∀ c ∈ t.takeWhile inComment, Plain c) ∧
      r = (nb + (t.takeWhile inComment).length, behindComment t ++ List.replicate (zerosBehind t n) 0) := by
  induction t generalizing nb with
  | nil =>
    have hmark : byteType 0 ≠ .comment := by
      rw [byteType_zero]
      decide
    rw [List.nil_append, replicate_zero_succ, commentLoop, if_neg (by decide), if_neg hmark, if_pos (.inr rfl)]
    simp only [List.takeWhile_nil, List.length_nil, Nat.add_zero, hnb, true_and, Except.ok.injEq]
    exact ⟨fun h => ⟨nofun, h.symm⟩, fun h => h.2.symm⟩
  | cons b t ih =>
    obtain ⟨hb0, ht0⟩ : 0 ≠ b ∧ 0 ∉ t := by simpa using h0
    rw [List.cons_append, commentLoop]
    by_cases hin : inComment b = true
    · obtain ⟨hmark, hline⟩ : byteType b ≠ .comment ∧ b ≠ newLine := of_decide_eq_true hin
      have hbehind : behindComment (b :: t) = behindComment t := by
        unfold behindComment
        rw [List.dropWhile_cons_of_pos hin]
      have hzeros : zerosBehind (b :: t) n = zerosBehind t n := by
        unfold zerosBehind
        rw [List.dropWhile_cons_of_pos hin]
      rw [List.takeWhile_cons_of_pos hin, hbehind, hzeros, List.length_cons]
      by_cases hplain : b.toInt < 0
      · rw [if_pos hplain]
        constructor
        · intro h
          cases h
        · rintro ⟨⟨-, hall⟩, -⟩
          exact absurd (hall b (List.mem_cons_self ..)) (not_le.mpr hplain)
      · rw [if_neg hplain, if_neg hmark, if_neg (not_or.mpr ⟨hline, hb0.symm⟩)]
        by_cases hroom : nb + 1 < textSize
        · rw [if_pos hroom, ih ht0 hroom, Nat.add_assoc, Nat.add_comm 1, List.forall_mem_cons]
          exact ⟨fun h => ⟨⟨h.1.1, not_lt.mp hplain, h.1.2⟩, h.2⟩, fun h => ⟨⟨h.1.1, h.1.2.2⟩, h.2⟩⟩
        · rw [if_neg hroom]
          constructor
          · intro h
            cases h
          · rintro ⟨⟨hlt, -⟩, -⟩
            omega
    · have hends : byteType b = .comment ∨ b = newLine := by
        by_contra hneither
        exact hin (decide_eq_true (not_or.mp hneither))
      have hplain : ¬ b.toInt < 0 := by
        apply not_lt.mpr
        apply plain_of_type
        obtain hmark | hline := hends
        · simp [hmark]
        · simp [hline, byteType_newLine]
      have hzeros : zerosBehind (b :: t) n = n + 1 := by
        unfold zerosBehind
        rw [List.dropWhile_cons_of_neg hin, if_neg (List.cons_ne_nil b t)]
      have hend : (if byteType b = .comment then .ok (nb, b :: (t ++ List.replicate (n + 1) 0))
          else if b = newLine ∨ b = 0 then .ok (nb, t ++ List.replicate (n + 1) 0)
          else if nb + 1 < textSize then commentLoop (nb + 1) (t ++ List.replicate (n + 1) 0)
          else .error .textOverflow : Except Fault (ℕ × List SourceByte)) =
          .ok (nb, behindComment (b :: t) ++ List.replicate (n + 1) 0) := by
        unfold behindComment
        rw [List.dropWhile_cons_of_neg hin]
        by_cases hmark : byteType b = .comment
        · simp only [hmark, if_true]
          rfl
        · rw [if_neg hmark, if_pos (.inl (hends.resolve_left hmark))]
          simp only [if_neg hmark]
      rw [if_neg hplain, hend, List.takeWhile_cons_of_neg hin, hzeros]
      simp only [List.length_nil, Nat.add_zero, hnb, true_and, Except.ok.injEq]
      exact ⟨fun h => ⟨nofun, h.symm⟩, fun h => h.2.symm⟩

theorem behindSeperators_suffix (t : List SourceByte) : behindSeperators t <:+ t := by
  induction t with
  | nil => exact List.suffix_refl _
  | cons b t ih =>
    rw [behindSeperators]
    split
    · split
      · exact List.suffix_cons b t
      · exact ih.trans (List.suffix_cons b t)
    · exact List.suffix_refl _

/-- The position moves with the text, or starts again on a new line. -/
theorem seperatorLoop_shape {pos : ℕ} {r : ℕ × List SourceByte}
    (h : seperatorLoop pos (t ++ List.replicate (n + 1) 0) = .ok r) :
    r.2 = behindSeperators t ++ List.replicate (n + 1) 0 ∧ r.1 + (behindSeperators t).length ≤ pos + t.length := by
  induction t generalizing pos with
  | nil =>
    have hstop : byteType 0 ≠ .seperator := by
      rw [byteType_zero]
      decide
    rw [List.nil_append, replicate_zero_succ, seperatorLoop, if_neg (by decide), if_neg hstop] at h
    rw [← Except.ok.inj h]
    exact ⟨rfl, Nat.le_refl _⟩
  | cons b t ih =>
    rw [List.cons_append, seperatorLoop] at h
    rw [behindSeperators]
    split at h
    · cases h
    · by_cases hsep : byteType b = .seperator
      · rw [if_pos hsep] at h ⊢
        by_cases hline : b = newLine
        · rw [if_pos hline] at h ⊢
          rw [← Except.ok.inj h]
          simp only [List.length_cons, true_and]
          omega
        · rw [if_neg hline] at h ⊢
          obtain ⟨hrest, hpos⟩ := ih h
          refine ⟨hrest, ?_⟩
          rw [List.length_cons]
          omega
      · rw [if_neg hsep] at h ⊢
        rw [← Except.ok.inj h]
        exact ⟨rfl, Nat.le_refl _⟩

theorem seperatorLoop_ok (pos : ℕ) (h : ∀ d ∈ (behindSeperators t).head?, Plain d) :
    ∃ r, seperatorLoop pos (t ++ List.replicate (n + 1) 0) = .ok r := by
  induction t generalizing pos with
  | nil =>
    have hstop : byteType 0 ≠ .seperator := by
      rw [byteType_zero]
      decide
    rw [List.nil_append, replicate_zero_succ, seperatorLoop, if_neg (by decide), if_neg hstop]
    exact ⟨_, rfl⟩
  | cons b t ih =>
    rw [behindSeperators] at h
    rw [List.cons_append, seperatorLoop]
    by_cases hsep : byteType b = .seperator
    · have hplain : Plain b := plain_of_type (by simp [hsep])
      rw [if_neg (not_lt.mpr hplain), if_pos hsep]
      rw [if_pos hsep] at h
      by_cases hline : b = newLine
      · rw [if_pos hline]
        exact ⟨_, rfl⟩
      · rw [if_neg hline] at h ⊢
        exact ih _ h
    · rw [if_neg hsep] at h
      have hplain : Plain b := h b rfl
      rw [if_neg (not_lt.mpr hplain), if_neg hsep]
      exact ⟨_, rfl⟩

/-- A number ends inside the text. -/
theorem numberEnd_eq (h0 : 0 ∉ t) :
    ∃ nb ≤ t.length, t.drop nb = t.drop (t.length - (strtoul 32 (t.map fun b => Char.ofNat b.toNat)).2.length) ∧
      numberEnd (t ++ List.replicate (n + 1) 0) = .ok (nb, t.drop nb ++ List.replicate (n + 1) 0) := by
  have hstr : (t ++ List.replicate (n + 1) 0).takeWhile (fun b : SourceByte => b ≠ 0) = t := by
    rw [List.takeWhile_append_of_pos, replicate_zero_succ, List.takeWhile_cons_of_neg (by simp), List.append_nil]
    intro b hb
    have hne : b ≠ 0 := fun hzero => h0 (hzero ▸ hb)
    simpa using hne
  have hmem : (0 : SourceByte) ∈ t ++ List.replicate (n + 1) 0 := by simp
  refine ⟨t.length - (strtoul 32 (t.map fun b => Char.ofNat b.toNat)).2.length, Nat.sub_le _ _, rfl, ?_⟩
  unfold numberEnd
  rw [if_pos hmem]
  simp only [hstr]
  rw [List.drop_append_of_le_length (Nat.sub_le _ _)]

end Loops

/-! ## One turn -/

section Turn
variable {t t' : List SourceByte} {n pos : ℕ}

theorem behindComment_suffix_run (t : List SourceByte) : behindComment t <:+ t.dropWhile inComment := by
  unfold behindComment
  cases t.dropWhile inComment with
  | nil => exact List.nil_suffix
  | cons b s =>
    simp only
    split
    · exact List.suffix_refl _
    · exact List.suffix_cons b s

theorem behindComment_suffix (t : List SourceByte) : behindComment t <:+ t :=
  (behindComment_suffix_run t).trans (List.dropWhile_suffix _)

theorem zerosBehind_eq (t : List SourceByte) (hn : 1 ≤ n) :
    ∃ n', zerosBehind t n = n' + 1 ∧ (behindComment t ≠ [] → 1 ≤ n') := by
  unfold zerosBehind
  by_cases hnil : t.dropWhile inComment = []
  · refine ⟨n - 1, by rw [if_pos hnil]; omega, fun hne => absurd ?_ hne⟩
    unfold behindComment
    rw [hnil]
  · exact ⟨n, if_neg hnil, fun _ => hn⟩

theorem behindAtom_suffix (h : behindAtom t = some t') : t' <:+ t := by
  cases t with
  | nil => cases h
  | cons b s =>
    rw [behindAtom] at h
    cases htype : byteType b with
    | numeric =>
      simp only [htype, Option.some.injEq] at h
      rw [← h]
      exact List.drop_suffix _ _
    | alpha | operator =>
      simp only [htype, Option.some.injEq] at h
      rw [← h]
      exact List.dropWhile_suffix _
    | seperator =>
      simp only [htype, Option.some.injEq] at h
      rw [← h]
      exact behindSeperators_suffix _
    | comment =>
      simp only [htype, Option.some.injEq] at h
      rw [← h]
      exact (behindComment_suffix s).trans (List.suffix_cons b s)
    | «open» | close | openIndex | closeIndex | bit =>
      simp only [htype, Option.some.injEq] at h
      rw [← h]
      exact List.suffix_cons b s
    | illegalChar | terminator | opCode | register | expression | notSet =>
      simp only [htype] at h
      cases h

theorem behindAtom_ne_zero (h0 : 0 ∉ t) (h : behindAtom t = some t') : 0 ∉ t' :=
  fun hmem => h0 ((behindAtom_suffix h).subset hmem)

theorem behindAtom_lt (h : behindAtom t = some t') : t'.length < t.length := by
  cases t with
  | nil => cases h
  | cons b s =>
    rw [behindAtom] at h
    cases htype : byteType b with
    | numeric =>
      simp only [htype, Option.some.injEq] at h
      have hlt := length_strtoul_lt 32 (numeric_digit htype) (s.map fun b => Char.ofNat b.toNat)
      rw [List.length_cons, List.length_map] at hlt
      rw [← h, List.length_drop, List.length_cons]
      simp only [List.map_cons]
      omega
    | alpha | operator =>
      simp only [htype, Option.some.injEq] at h
      rw [← h, List.dropWhile_cons_of_pos (by simp [inName, inOperator, htype])]
      exact Nat.lt_succ_of_le (List.dropWhile_sublist _).length_le
    | seperator =>
      simp only [htype, Option.some.injEq] at h
      rw [← h, behindSeperators, if_pos htype]
      split
      · exact Nat.lt_succ_self _
      · exact Nat.lt_succ_of_le (behindSeperators_suffix s).length_le
    | comment =>
      simp only [htype, Option.some.injEq] at h
      rw [← h]
      exact Nat.lt_succ_of_le (behindComment_suffix s).length_le
    | «open» | close | openIndex | closeIndex | bit =>
      simp only [htype, Option.some.injEq] at h
      rw [← h]
      exact Nat.lt_succ_self _
    | illegalChar | terminator | opCode | register | expression | notSet =>
      simp only [htype] at h
      cases h

theorem plain_of_inName (b : SourceByte) (h : inName b = true) : Plain b := by
  apply plain_of_type
  obtain h | h := of_decide_eq_true h <;> simp [h]

theorem plain_of_inOperator (b : SourceByte) (h : inOperator b = true) : Plain b := by
  apply plain_of_type
  simp [of_decide_eq_true h]

theorem atomFits_plain {b : SourceByte} {s : List SourceByte} (h : Plain b)
    (htype : byteType b ∉ [AtomType.alpha, .operator, .comment]) : AtomFits (b :: s) := by
  simp only [List.mem_cons, List.not_mem_nil, or_false, not_or] at htype
  exact ⟨h, fun hb => absurd hb htype.1, fun hb => absurd hb htype.2.1, fun hb => absurd hb htype.2.2⟩

/-- What a turn leaves when it stays inside the buffers. -/
def TurnLeaves (pos : ℕ) (t : List SourceByte) (r : Option (ℕ × List SourceByte)) : Prop :=
  match behindAtom t with
  | none => r = none
  | some t' => ∃ pos' n', r = some (pos', t' ++ List.replicate (n' + 1) 0) ∧ pos' + t'.length ≤ pos + t.length ∧
      (t' ≠ [] → 1 ≤ n')

theorem turnLeaves_next {pos' n' : ℕ} (h : behindAtom t = some t') (hpos : pos' + t'.length ≤ pos + t.length)
    (hn : t' ≠ [] → 1 ≤ n') : TurnLeaves pos t (some (pos', t' ++ List.replicate (n' + 1) 0)) := by
  unfold TurnLeaves
  rw [h]
  exact ⟨pos', n', rfl, hpos, hn⟩

theorem length_run_add (p : SourceByte → Bool) (t : List SourceByte) :
    (t.takeWhile p).length + (t.dropWhile p).length = t.length := by
  rw [← List.length_append, List.takeWhile_append_dropWhile]

theorem map_eq_ok {α β : Type} {f : α → β} {x : Except Fault α} {y : β} : x.map f = .ok y ↔ ∃ a, x = .ok a ∧
    f a = y := by
  cases x with
  | error fault =>
    constructor
    · intro h
      cases h
    · rintro ⟨a, ha, -⟩
      cases ha
  | ok a =>
    constructor
    · intro h
      exact ⟨a, rfl, Except.ok.inj h⟩
    · rintro ⟨a', ha, hf⟩
      rw [← hf, ← Except.ok.inj ha]
      rfl

theorem checkedTurn_shape {r : Option (ℕ × List SourceByte)} (h0 : 0 ∉ t) (hn : t ≠ [] → 1 ≤ n)
    (h : checkedTurn pos (t ++ List.replicate (n + 1) 0) = .ok r) : AtomFits t ∧ TurnLeaves pos t r := by
  cases t with
  | nil =>
    rw [List.nil_append, replicate_zero_succ, checkedTurn, if_neg (by decide)] at h
    simp only [byteType_zero] at h
    exact ⟨trivial, (Except.ok.inj h).symm⟩
  | cons b s =>
    have hpad : 1 ≤ n := hn (List.cons_ne_nil b s)
    have hs0 : 0 ∉ s := fun hmem => h0 (List.mem_cons_of_mem b hmem)
    rw [List.cons_append, checkedTurn] at h
    by_cases hplain : b.toInt < 0
    · rw [if_pos hplain] at h
      cases h
    rw [if_neg hplain] at h
    have hplain : Plain b := not_lt.mp hplain
    cases htype : byteType b with
    | numeric =>
      simp only [htype] at h
      obtain ⟨nb, hle, hdrop, hend⟩ := numberEnd_eq (n := n) h0
      obtain ⟨a, ha, rfl⟩ := map_eq_ok.mp h
      obtain rfl : (nb, (b :: s).drop nb ++ List.replicate (n + 1) 0) = a := Except.ok.inj (hend.symm.trans ha)
      refine ⟨atomFits_plain hplain (by simp [htype]), turnLeaves_next ?_ ?_ fun _ => hpad⟩
      · rw [behindAtom]
        simp only [htype]
        rw [hdrop]
      · rw [List.length_drop]
        omega
    | alpha =>
      simp only [htype] at h
      obtain ⟨a, ha, rfl⟩ := map_eq_ok.mp h
      obtain ⟨⟨hroom, -⟩, rfl⟩ := (textLoop_ok_iff (t := b :: s) (by decide) plain_of_inName (by decide)).mp ha
      refine ⟨⟨hplain, fun _ => by omega, by simp [htype], by simp [htype]⟩, turnLeaves_next ?_ ?_ fun _ => hpad⟩
      · rw [behindAtom]
        simp only [htype]
      · have := length_run_add inName (b :: s)
        omega
    | operator =>
      simp only [htype] at h
      obtain ⟨a, ha, rfl⟩ := map_eq_ok.mp h
      obtain ⟨⟨hroom, -⟩, rfl⟩ :=
        (textLoop_ok_iff (t := b :: s) (by decide) plain_of_inOperator (by decide)).mp ha
      refine ⟨⟨hplain, by simp [htype], fun _ => by omega, by simp [htype]⟩, turnLeaves_next ?_ ?_ fun _ => hpad⟩
      · rw [behindAtom]
        simp only [htype]
      · have := length_run_add inOperator (b :: s)
        omega
    | seperator =>
      simp only [htype] at h
      obtain ⟨a, ha, rfl⟩ := map_eq_ok.mp h
      obtain ⟨hrest, hpos⟩ := seperatorLoop_shape (t := b :: s) ha
      refine ⟨atomFits_plain hplain (by simp [htype]), ?_⟩
      have hnext := turnLeaves_next (show behindAtom (b :: s) = some (behindSeperators (b :: s)) by
        rw [behindAtom]; simp only [htype]) hpos fun _ => hpad
      rw [← hrest] at hnext
      exact hnext
    | comment =>
      simp only [htype] at h
      obtain ⟨a, ha, rfl⟩ := map_eq_ok.mp h
      obtain ⟨⟨hroom, hall⟩, rfl⟩ := (commentLoop_ok_iff hs0 (by decide)).mp ha
      refine ⟨⟨hplain, by simp [htype], by simp [htype], fun _ => ⟨by omega, hall⟩⟩, ?_⟩
      obtain ⟨n', hn', hopen⟩ := zerosBehind_eq s hpad
      rw [hn']
      refine turnLeaves_next ?_ ?_ hopen
      · rw [behindAtom]
        simp only [htype]
      · have hrun := length_run_add inComment s
        have hle := (behindComment_suffix_run s).length_le
        rw [List.length_cons]
        omega
    | «open» | close | openIndex | closeIndex | bit =>
      simp only [htype] at h
      rw [← Except.ok.inj h]
      refine ⟨atomFits_plain hplain (by simp [htype]), turnLeaves_next ?_ ?_ fun _ => hpad⟩
      · rw [behindAtom]
        simp only [htype]
      · rw [List.length_cons]
        omega
    | illegalChar | terminator | opCode | register | expression | notSet =>
      simp only [htype] at h
      refine ⟨atomFits_plain hplain (by simp [htype]), ?_⟩
      unfold TurnLeaves
      rw [behindAtom]
      simp only [htype]
      exact (Except.ok.inj h).symm

theorem checkedTurn_ok (pos : ℕ) (h0 : 0 ∉ t) (hfits : AtomFits t)
    (hnext : ∀ u, behindAtom t = some u → ∀ d ∈ u.head?, Plain d) :
    ∃ r, checkedTurn pos (t ++ List.replicate (n + 1) 0) = .ok r := by
  cases t with
  | nil =>
    rw [List.nil_append, replicate_zero_succ, checkedTurn, if_neg (by decide)]
    simp only [byteType_zero]
    exact ⟨_, rfl⟩
  | cons b s =>
    have hs0 : 0 ∉ s := fun hmem => h0 (List.mem_cons_of_mem b hmem)
    obtain ⟨hplain, hname, hoperator, hcomment⟩ := hfits
    rw [behindAtom] at hnext
    rw [List.cons_append, checkedTurn, if_neg (not_lt.mpr hplain)]
    cases htype : byteType b with
    | numeric =>
      obtain ⟨nb, hle, hdrop, hend⟩ := numberEnd_eq (n := n) h0
      exact ⟨_, map_eq_ok.mpr ⟨_, hend, rfl⟩⟩
    | alpha =>
      have hroom := hname htype
      simp only [htype] at hnext
      exact ⟨_, map_eq_ok.mpr ⟨_, (textLoop_ok_iff (t := b :: s) (by decide) plain_of_inName (by decide)).mpr
        ⟨⟨by omega, hnext _ rfl⟩, rfl⟩, rfl⟩⟩
    | operator =>
      have hroom := hoperator htype
      simp only [htype] at hnext
      exact ⟨_, map_eq_ok.mpr ⟨_, (textLoop_ok_iff (t := b :: s) (by decide) plain_of_inOperator (by decide)).mpr
        ⟨⟨by omega, hnext _ rfl⟩, rfl⟩, rfl⟩⟩
    | seperator =>
      simp only [htype] at hnext
      obtain ⟨r, hr⟩ := seperatorLoop_ok (n := n) pos (hnext _ rfl)
      exact ⟨_, map_eq_ok.mpr ⟨r, hr, rfl⟩⟩
    | comment =>
      have hroom := hcomment htype
      exact ⟨_, map_eq_ok.mpr ⟨_, (commentLoop_ok_iff hs0 (by decide)).mpr ⟨⟨by omega, hroom.2⟩, rfl⟩, rfl⟩⟩
    | «open» | close | openIndex | closeIndex | bit | illegalChar | terminator | opCode | register | expression
    | notSet =>
      exact ⟨_, rfl⟩

end Turn

/-! ## The whole loop -/

section Loop
variable {size fuel pos n : ℕ} {text t : List SourceByte}

theorem atomFits_head (h : AtomFits t) : ∀ d ∈ t.head?, Plain d := by
  cases t with
  | nil => exact nofun
  | cons b s =>
    intro d hd
    rw [← Option.some.inj hd]
    exact h.1

theorem atomStarts_cons {u v : List SourceByte} (h : behindAtom u = some t) (ht : AtomStarts t v) : AtomStarts u v :=
  Relation.ReflTransGen.head h ht

theorem checkedLoop_safe (h0 : 0 ∉ t) (hn : t ≠ [] → 1 ≤ n) (hfits : ∀ u, AtomStarts t u → AtomFits u) :
    ∃ fuel, checkedLoop size fuel pos (t ++ List.replicate (n + 1) 0) = some (.ok ()) := by
  induction hlen : t.length using Nat.strong_induction_on generalizing t pos n with
  | _ len ih =>
    by_cases hpos : pos ≤ size
    · have hhead : ∀ u, behindAtom t = some u → ∀ d ∈ u.head?, Plain d := fun u hu =>
        atomFits_head (hfits u (atomStarts_cons hu .refl))
      obtain ⟨r, hr⟩ := checkedTurn_ok (n := n) pos h0 (hfits t .refl) hhead
      have hleaves := (checkedTurn_shape h0 hn hr).2
      unfold TurnLeaves at hleaves
      cases hbehind : behindAtom t with
      | none =>
        rw [hbehind] at hleaves
        refine ⟨1, ?_⟩
        rw [checkedLoop, if_pos hpos, hr, hleaves]
      | some u =>
        rw [hbehind] at hleaves
        obtain ⟨pos', n', rfl, -, hn'⟩ := hleaves
        obtain ⟨fuel, hfuel⟩ := ih u.length (hlen ▸ behindAtom_lt hbehind)
          (behindAtom_ne_zero h0 hbehind) hn'
          (fun v hv => hfits v (atomStarts_cons hbehind hv)) rfl
        refine ⟨fuel + 1, ?_⟩
        rw [checkedLoop, if_pos hpos, hr]
        exact hfuel
    · exact ⟨1, by rw [checkedLoop, if_neg hpos]⟩

theorem atomFits_of_checkedLoop (h0 : 0 ∉ t) (hn : t ≠ [] → 1 ≤ n) (hpos : pos + t.length ≤ size + 1)
    (h : checkedLoop size fuel pos (t ++ List.replicate (n + 1) 0) = some (.ok ())) : ∀ u, AtomStarts t u →
    AtomFits u := by
  induction fuel generalizing t pos n with
  | zero => cases h
  | succ fuel ih =>
    rw [checkedLoop] at h
    by_cases hle : pos ≤ size
    · rw [if_pos hle] at h
      cases hr : checkedTurn pos (t ++ List.replicate (n + 1) 0) with
      | error fault =>
        rw [hr] at h
        cases Option.some.inj h
      | ok r =>
        obtain ⟨hfits, hleaves⟩ := checkedTurn_shape h0 hn hr
        intro u hu
        obtain rfl | ⟨v, hbehind, hv⟩ := Relation.ReflTransGen.cases_head hu
        · exact hfits
        · unfold TurnLeaves at hleaves
          rw [hbehind] at hleaves
          obtain ⟨pos', n', rfl, hpos', hn'⟩ := hleaves
          rw [hr] at h
          exact ih (behindAtom_ne_zero h0 hbehind) hn' (by omega) h u hv
    · -- nothing of the text is left
      obtain rfl : t = [] := List.eq_nil_of_length_eq_zero (by omega)
      intro u hu
      obtain rfl | ⟨v, hbehind, -⟩ := Relation.ReflTransGen.cases_head hu
      · trivial
      · cases hbehind

/-- Whatever the text, `GetAtoms` comes to its end or leaves a buffer. -/
theorem checkedLoop_ends (h0 : 0 ∉ t) (hn : t ≠ [] → 1 ≤ n) :
    ∃ fuel, checkedLoop size fuel pos (t ++ List.replicate (n + 1) 0) ≠ none := by
  induction hlen : t.length using Nat.strong_induction_on generalizing t pos n with
  | _ len ih =>
    by_cases hpos : pos ≤ size
    · cases hr : checkedTurn pos (t ++ List.replicate (n + 1) 0) with
      | error fault =>
        refine ⟨1, ?_⟩
        rw [checkedLoop, if_pos hpos, hr]
        exact Option.some_ne_none _
      | ok r =>
        have hleaves := (checkedTurn_shape h0 hn hr).2
        unfold TurnLeaves at hleaves
        cases hbehind : behindAtom t with
        | none =>
          rw [hbehind] at hleaves
          refine ⟨1, ?_⟩
          rw [checkedLoop, if_pos hpos, hr, hleaves]
          exact Option.some_ne_none _
        | some u =>
          rw [hbehind] at hleaves
          obtain ⟨pos', n', rfl, -, hn'⟩ := hleaves
          obtain ⟨fuel, hfuel⟩ := ih u.length (hlen ▸ behindAtom_lt hbehind)
            (behindAtom_ne_zero h0 hbehind) hn' rfl
          refine ⟨fuel + 1, ?_⟩
          rw [checkedLoop, if_pos hpos, hr]
          exact hfuel
    · refine ⟨1, ?_⟩
      rw [checkedLoop, if_neg hpos]
      exact Option.some_ne_none _

theorem checkedGetAtoms_eq (fuel n : ℕ) (h : text.head? ≠ some 46) :
    checkedGetAtoms size fuel (text ++ List.replicate (n + 1) 0) =
      checkedLoop size fuel 1 (text ++ List.replicate (n + 1) 0) := by
  cases text with
  | nil => rfl
  | cons b s =>
    have hb : b ≠ 46 := fun hb => h (congrArg some hb)
    rw [List.cons_append, checkedGetAtoms, if_neg hb]

theorem sourceBuffer_eq (hsize : text.length ≤ size) :
    ∃ n, sourceBuffer size text = text ++ List.replicate (n + 1) 0 ∧ 1 ≤ n := by
  refine ⟨size + 15 - text.length, ?_, by omega⟩
  rw [sourceBuffer, show size + 16 - text.length = size + 15 - text.length + 1 by omega]

theorem atomFits_of_safe (h0 : 0 ∉ text) (hsize : text.length ≤ size) (h : GetAtomsSafe size text) :
    text.head? = some 46 ∨ ∀ t, AtomStarts text t → AtomFits t := by
  obtain ⟨n, hbuffer, hn⟩ := sourceBuffer_eq hsize
  obtain ⟨fuel, hfuel⟩ := h
  by_cases hdot : text.head? = some 46
  · exact .inl hdot
  · rw [hbuffer, checkedGetAtoms_eq fuel n hdot] at hfuel
    exact .inr (atomFits_of_checkedLoop h0 (fun _ => hn) (by omega) hfuel)

/-- `GetAtoms` is safe exactly for the texts in which every atom that it comes to fits, and for those that start
with a dot. -/
theorem getAtomsSafe_iff (h0 : 0 ∉ text) (hsize : text.length ≤ size) :
    GetAtomsSafe size text ↔ text.head? = some 46 ∨ ∀ t, AtomStarts text t → AtomFits t := by
  refine ⟨atomFits_of_safe h0 hsize, fun h => ?_⟩
  obtain ⟨n, hbuffer, hn⟩ := sourceBuffer_eq hsize
  unfold GetAtomsSafe
  rw [hbuffer]
  by_cases hdot : text.head? = some 46
  · obtain ⟨s, rfl⟩ : ∃ s, text = 46 :: s := by
      cases text with
      | nil => cases hdot
      | cons b s => exact ⟨s, by rw [Option.some.inj hdot]⟩
    refine ⟨0, ?_⟩
    rw [List.cons_append, checkedGetAtoms, if_pos rfl]
  · obtain ⟨fuel, hfuel⟩ := checkedLoop_safe h0 (fun _ => hn) (h.resolve_left hdot)
    exact ⟨fuel, (checkedGetAtoms_eq fuel n hdot).trans hfuel⟩

/-- The text of `A` and a new line. -/
theorem getAtomsSafe_line : GetAtomsSafe 2 [65, 10] := by
  refine (getAtomsSafe_iff (by decide) (by decide)).mpr (.inr ?_)
  have hname : behindAtom [65, 10] = some [10] := by decide
  have hline : behindAtom [10] = some [] := by decide
  intro t ht
  obtain rfl | ⟨u, hu, ht⟩ := Relation.ReflTransGen.cases_head ht
  · exact ⟨by decide, by decide, by decide, by decide⟩
  obtain rfl : [10] = u := Option.some.inj (hname.symm.trans hu)
  obtain rfl | ⟨u, hu, ht⟩ := Relation.ReflTransGen.cases_head ht
  · exact ⟨by decide, by decide, by decide, by decide⟩
  obtain rfl : [] = u := Option.some.inj (hline.symm.trans hu)
  obtain rfl | ⟨u, hu, ht⟩ := Relation.ReflTransGen.cases_head ht
  · trivial
  · cases hu

/-- A byte above `0x7F` is looked up in front of the table. -/
theorem getAtoms_high_byte :
    ¬ ∀ (size : ℕ) (text : List SourceByte), 0 ∉ text → text.length ≤ size → GetAtomsSafe size text := by
  intro h
  obtain ⟨fuel, hfuel⟩ := h 2 [0xE9, 10] (by decide) (by decide)
  have hloop : checkedLoop 2 fuel 1 ([0xE9, 10] ++ List.replicate (15 + 1) 0) = some (.ok ()) := hfuel
  have hfits := atomFits_of_checkedLoop (by decide) (fun _ => by decide) (by decide) hloop _ .refl
  exact absurd hfits.1 (by decide)

end Loop

/-! ## The atoms -/

/-- The bytes of a source as the characters that `getAtoms` reads. -/
def sourceChars (t : List SourceByte) : List Char := t.map fun b => Char.ofNat b.toNat

section Atoms
variable {t : List SourceByte}

theorem sourceChar_injective : Function.Injective fun b : SourceByte => Char.ofNat b.toNat := by
  have hall : ∀ n : Fin 256, (Char.ofNat n.val).toNat = n.val := by decide +kernel
  intro b c h
  apply BitVec.eq_of_toNat_eq
  calc b.toNat = (Char.ofNat b.toNat).toNat := (hall b.toFin).symm
    _ = (Char.ofNat c.toNat).toNat := congrArg Char.toNat h
    _ = c.toNat := hall c.toFin

theorem drop_sourceChars_run (p : SourceByte → Bool) (t : List SourceByte) :
    (sourceChars t).drop (sourceChars (t.takeWhile p)).length = sourceChars (t.dropWhile p) := by
  have hdrop : (t.takeWhile p ++ t.dropWhile p).drop (t.takeWhile p).length = t.dropWhile p := List.drop_left
  rw [List.takeWhile_append_dropWhile] at hdrop
  rw [sourceChars, sourceChars, List.length_map, ← List.map_drop, hdrop]
  rfl

theorem sourceChars_numeral (t : List SourceByte) : (strtoul 32 (sourceChars t)).2 =
    sourceChars (t.drop (t.length - (strtoul 32 (sourceChars t)).2.length)) := by
  have hdrop := List.suffix_iff_eq_drop.mp (strtoul_suffix 32 (sourceChars t))
  have hlength : (sourceChars t).length = t.length := List.length_map _
  rw [hlength, sourceChars, ← List.map_drop] at hdrop
  exact hdrop

theorem sourceChars_seperators (pos : ℕ) (t : List SourceByte) :
    (skipSeperators pos (sourceChars t)).2.2 = sourceChars (behindSeperators t) := by
  induction t generalizing pos with
  | nil => rfl
  | cons b s ih =>
    have hline : Char.ofNat b.toNat = '\n' ↔ b = newLine := sourceChar_injective.eq_iff' rfl
    have hsep : atomhash (Char.ofNat b.toNat) = .seperator ↔ byteType b = .seperator := Iff.rfl
    have hcons : sourceChars (b :: s) = Char.ofNat b.toNat :: sourceChars s := rfl
    rw [hcons, skipSeperators, behindSeperators]
    simp only [hline, hsep]
    by_cases htype : byteType b = .seperator
    · rw [if_pos htype, if_pos htype]
      by_cases hb : b = newLine
      · rw [if_pos hb, if_pos hb]
      · rw [if_neg hb, if_neg hb]
        exact ih (pos + 1)
    · rw [if_neg htype, if_neg htype]
      rfl

theorem sourceChars_comment (h0 : 0 ∉ t) :
    (sourceChars t).takeWhile (fun c => atomhash c ≠ .comment ∧ c ≠ '\n' ∧ c ≠ '\x00') =
      sourceChars (t.takeWhile inComment) := by
  induction t with
  | nil => rfl
  | cons b s ih =>
    rw [List.mem_cons, not_or] at h0
    have hline : Char.ofNat b.toNat = '\n' ↔ b = newLine := sourceChar_injective.eq_iff' rfl
    have hzero : Char.ofNat b.toNat = '\x00' ↔ b = 0 := sourceChar_injective.eq_iff' rfl
    have hin : decide (atomhash (Char.ofNat b.toNat) ≠ .comment ∧ Char.ofNat b.toNat ≠ '\n' ∧
        Char.ofNat b.toNat ≠ '\x00') = inComment b := by
      rw [inComment]
      apply decide_eq_decide.mpr
      rw [ne_eq, ne_eq, ne_eq, hline, hzero]
      exact ⟨fun h => ⟨h.1, h.2.1⟩, fun h => ⟨h.1, h.2, Ne.symm h0.1⟩⟩
    have hcons : sourceChars (b :: s) = Char.ofNat b.toNat :: sourceChars s := rfl
    rw [hcons, List.takeWhile_cons, hin, List.takeWhile_cons]
    cases inComment b with
    | true => rw [if_pos rfl, if_pos rfl, ih h0.2]; rfl
    | false => rfl

theorem textAtom_sourceChars {u v : List SourceByte} (h : u.length < textSize) (atom : Atom) (pos : ℕ) :
    textAtom (sourceChars u) atom pos (sourceChars v) =
      .ok (.atom (some atom) (pos + (sourceChars u).length) (sourceChars v)) := by
  have hlength : (sourceChars u).length = u.length := List.length_map _
  exact if_pos (by rwa [hlength])

/-- An atom that fits is read, and the place behind it is the same as in memory. -/
theorem nextAtom_sourceChars (pos : ℕ) (h0 : 0 ∉ t) (hfits : AtomFits t) :
    (∃ errors, nextAtom pos (sourceChars t) = .ok (.stop errors)) ∨
      ∃ t', behindAtom t = some t' ∧ ∃ a pos', nextAtom pos (sourceChars t) = .ok (.atom a pos' (sourceChars t')) := by
  cases t with
  | nil => exact .inl ⟨[], rfl⟩
  | cons b s =>
    obtain ⟨-, hname, hoperator, hcomment⟩ := hfits
    rw [List.mem_cons, not_or] at h0
    have hcons : sourceChars (b :: s) = Char.ofNat b.toNat :: sourceChars s := rfl
    have hhash : atomhash (Char.ofNat b.toNat) = byteType b := rfl
    cases htype : byteType b with
    | numeric =>
      have hrest := sourceChars_numeral (b :: s)
      have hbehind : behindAtom (b :: s) =
          some ((b :: s).drop ((b :: s).length - (strtoul 32 (sourceChars (b :: s))).2.length)) := by
        rw [behindAtom, htype]
        rfl
      refine .inr ⟨_, hbehind, ?_⟩
      rw [← hrest, hcons, nextAtom, hhash, htype]
      exact ⟨_, _, rfl⟩
    | alpha =>
      have hrun : (sourceChars (b :: s)).takeWhile (fun c => atomhash c = .alpha ∨ atomhash c = .numeric) =
          sourceChars ((b :: s).takeWhile inName) := List.takeWhile_map
      refine .inr ⟨(b :: s).dropWhile inName, by simp only [behindAtom, htype], ?_⟩
      rw [hcons, nextAtom, hhash, htype]
      dsimp only
      rw [← hcons, hrun, drop_sourceChars_run]
      exact ⟨_, _, textAtom_sourceChars (hname htype) _ pos⟩
    | operator =>
      have hrun : (sourceChars (b :: s)).takeWhile (fun c => atomhash c = .operator) =
          sourceChars ((b :: s).takeWhile inOperator) := List.takeWhile_map
      refine .inr ⟨(b :: s).dropWhile inOperator, by simp only [behindAtom, htype], ?_⟩
      rw [hcons, nextAtom, hhash, htype]
      dsimp only
      rw [← hcons, hrun, drop_sourceChars_run]
      exact ⟨_, _, textAtom_sourceChars (hoperator htype) _ pos⟩
    | seperator =>
      refine .inr ⟨behindSeperators (b :: s), by simp only [behindAtom, htype], ?_⟩
      rw [← sourceChars_seperators pos, hcons, nextAtom, hhash, htype]
      exact ⟨_, _, rfl⟩
    | comment =>
      obtain ⟨hlength, -⟩ := hcomment htype
      refine .inr ⟨behindComment s, by simp only [behindAtom, htype], ?_⟩
      rw [hcons, nextAtom, hhash, htype]
      dsimp only
      rw [sourceChars_comment h0.2, drop_sourceChars_run, behindComment]
      have hread : ∀ atom v, ∃ a pos', textAtom (sourceChars (s.takeWhile inComment)) atom pos (sourceChars v) =
          .ok (.atom a pos' (sourceChars v)) := fun atom v => ⟨_, _, textAtom_sourceChars hlength atom pos⟩
      cases s.dropWhile inComment with
      | nil => exact hread (.seperator _) []
      | cons d rest =>
        have hrest : sourceChars (d :: rest) = Char.ofNat d.toNat :: sourceChars rest := rfl
        have hmark : atomhash (Char.ofNat d.toNat) = .comment ↔ byteType d = .comment := Iff.rfl
        rw [hrest]
        simp only [hmark]
        by_cases hd : byteType d = .comment
        · rw [if_pos hd, if_pos hd]
          exact hread (.comment _) (d :: rest)
        · rw [if_neg hd, if_neg hd]
          exact hread (.seperator _) rest
    | «open» | close | openIndex | closeIndex | bit =>
      refine .inr ⟨s, by simp only [behindAtom, htype], ?_⟩
      rw [hcons, nextAtom, hhash, htype]
      exact ⟨_, _, rfl⟩
    | illegalChar | terminator | opCode | register | expression | notSet =>
      rw [hcons, nextAtom, hhash, htype]
      exact .inl ⟨_, rfl⟩

theorem getAtomsLoop_sourceChars (size pos : ℕ) {fuel : ℕ} (hfuel : t.length < fuel) (h0 : 0 ∉ t)
    (hfits : ∀ u, AtomStarts t u → AtomFits u) : ∃ r, getAtomsLoop size fuel pos (sourceChars t) = .ok r := by
  induction fuel generalizing t pos with
  | zero => exact absurd hfuel (Nat.not_lt_zero _)
  | succ fuel ih =>
    rw [getAtomsLoop]
    by_cases hpos : pos ≤ size
    · rw [if_pos hpos]
      obtain ⟨errors, hstop⟩ | ⟨t', hbehind, a, pos', hatom⟩ := nextAtom_sourceChars pos h0 (hfits t .refl)
      · rw [hstop]
        exact ⟨_, rfl⟩
      · have hlt := behindAtom_lt hbehind
        have hnext : ∃ r, getAtomsLoop size fuel pos' (sourceChars t') = .ok r :=
          ih pos' (by omega) (behindAtom_ne_zero h0 hbehind) fun u hu => hfits u (atomStarts_cons hbehind hu)
        obtain ⟨r, hr⟩ := hnext
        rw [hatom]
        dsimp only
        rw [hr]
        exact ⟨_, rfl⟩
    · rw [if_neg hpos]
      exact ⟨_, rfl⟩

/-- A source that is safe in memory has its list of atoms. -/
theorem getAtoms_of_safe (h0 : 0 ∉ t) (h : GetAtomsSafe t.length t) : ∃ r, getAtoms (sourceChars t) = .ok r := by
  unfold getAtoms
  split
  · exact ⟨none, rfl⟩
  · rename_i hdot
    have hlength : (sourceChars t).length = t.length := List.length_map _
    have hstart : t.head? ≠ some 46 := by
      intro hhead
      apply hdot
      rw [sourceChars, List.head?_map, hhead]
      rfl
    obtain ⟨r, hr⟩ := getAtomsLoop_sourceChars t.length 1 (Nat.lt_succ_self _) h0
      ((atomFits_of_safe h0 le_rfl h).resolve_left hstart)
    rw [hlength, hr]
    exact ⟨some r, rfl⟩

end Atoms

end HtDrivers.Mttn
