import HtDrivers.Mttn.DisAssemble

/-! How the assembler reads the lines that the disassembler prints: the atoms of a line one after the other, and which
words run together when no blank is left between them. -/
namespace HtDrivers.Mttn
open HtDrivers.Lib.Numerals
set_option autoImplicit false

/-! ## Words and operands -/

section Operands
variable {spare : Bool} {opcd : OpCode} {inst : Instruction} {type : ArgType} {value : BitVec 32} {t w s : List Char}

/-- Words with the number of spaces in front of each. -/
def spaced : List (ℕ × List Char) → List Char
  | [] => []
  | (n, t) :: ps => List.replicate n ' ' ++ (t ++ spaced ps)

/-- A word that no op-code begins with, or nothing. -/
def NoCommand (t : List Char) : Prop := t = [] ∨ Word t ∧ NoOpCode t

theorem NoCommand.append (hw : NoCommand w) (ht : NoCommand t) : NoCommand (w ++ t) := by
  obtain rfl | ⟨hword, hno⟩ := hw
  · exact ht
  · obtain rfl | ⟨hword', -⟩ := ht
    · rw [List.append_nil]
      exact .inr ⟨hword, hno⟩
    · exact .inr ⟨hword.append hword'.chars, hno.append t⟩

theorem isOpCode_wordAtom (h : NoOpCode w) : isOpCode (wordAtom w) = false := by
  have hnone := h []
  rw [List.append_nil] at hnone
  unfold wordAtom
  rw [hnone]
  cases hreg : lookUpRegister w with
  | none => rfl
  | some atom =>
    unfold lookUpRegister at hreg
    split at hreg
    · split at hreg
      · cases hreg
        rfl
      · obtain ⟨reg, -, hrange⟩ := List.exists_of_findSome?_eq_some hreg
        unfold registerInRange at hrange
        split at hrange
        · split at hrange
          · dsimp only at hrange
            split at hrange
            · cases hrange
              rfl
            · cases hrange
          · cases hrange
            rfl
        · cases hrange
    · cases hreg

/-- However words are run together, no op-code comes out of them. -/
theorem lexes_spaced (ps : List (ℕ × List Char)) (hw : NoCommand w) (hps : ∀ p ∈ ps, NoCommand p.2)
    (hlength : (w ++ spaced ps).length < textSize) (hs : Ends s) :
    ∃ atoms, Lexes (w ++ (spaced ps ++ s)) atoms s ∧ ∀ atom ∈ atoms, isOpCode atom = false := by
  have hread : ∀ w s, NoCommand w → w.length < textSize → Ends s →
      ∃ atoms, Lexes (w ++ s) atoms s ∧ ∀ atom ∈ atoms, isOpCode atom = false := by
    intro w s hw hlength hs
    obtain rfl | ⟨hword, hno⟩ := hw
    · exact ⟨[], Lexes.refl s, fun atom h => absurd h List.not_mem_nil⟩
    · refine ⟨[wordAtom w], lexes_word hword hlength hs, ?_⟩
      intro atom hatom
      rw [List.mem_singleton.mp hatom]
      exact isOpCode_wordAtom hno
  induction ps generalizing w with
  | nil => exact hread w s hw (by simpa [spaced] using hlength) hs
  | cons p ps ih =>
    obtain ⟨n, t⟩ := p
    have ht : NoCommand t := hps (n, t) (List.mem_cons_self ..)
    have hrest := fun p hp => hps p (List.mem_cons_of_mem _ hp)
    cases n with
    | zero =>
      have hglue : w ++ (spaced ((0, t) :: ps) ++ s) = (w ++ t) ++ (spaced ps ++ s) := by simp [spaced]
      rw [hglue]
      refine ih (hw.append ht) hrest ?_
      simpa [spaced, Nat.add_assoc] using hlength
    | succ n =>
      have hsplit : w ++ (spaced ((n + 1, t) :: ps) ++ s) =
          w ++ (List.replicate (n + 1) ' ' ++ (t ++ (spaced ps ++ s))) := by simp [spaced]
      have hsum : w.length + (n + 1 + (t.length + (spaced ps).length)) < textSize := by
        simpa [spaced] using hlength
      obtain ⟨atoms, hlex, hfree⟩ :=
        hread w (List.replicate (n + 1) ' ' ++ (t ++ (spaced ps ++ s))) hw (by omega) (.inl rfl)
      obtain ⟨atoms', hlex', hfree'⟩ := ih ht hrest (by rw [List.length_append]; omega)
      rw [hsplit]
      refine ⟨atoms ++ atoms', hlex.trans ((lexes_spaces (n + 1) _).trans hlex'), ?_⟩
      intro atom hatom
      obtain hold | hnew := List.mem_append.mp hatom
      · exact hfree atom hold
      · exact hfree' atom hnew

/-- A value that the field of an instruction may hold. -/
def FieldOk (type : ArgType) (value : ℕ) : Prop :=
  (type = .nothing → value = 0) ∧ (type = .register → Nameable value)

/-- The fields of an instruction with this op-code are as the op-code declares them. -/
structure WellFormed (opcd : OpCode) (inst : Instruction) : Prop where
  number : inst.number = opcd.number
  src1 : FieldOk opcd.src1 inst.src1.toNat
  src2 : FieldOk opcd.src2 inst.src2.toNat
  dest : FieldOk opcd.dest inst.dest.toNat
  crc : inst.crc = 0

/-- A field that the op-code does not use is 0, as it is where nothing is written. -/
theorem FieldOk.unused {w : ℕ} {v : BitVec w} (h : FieldOk type v.toNat) : (if type = .nothing then 0 else v) = v := by
  split
  · rename_i hnone
    exact (BitVec.eq_of_toNat_eq (h.1 hnone)).symm
  · rfl

theorem toNat_field (b : BitVec 8) : (b.setWidth 32).toNat = b.toNat := BitVec.toNat_setWidth_of_le (by decide)

theorem WellFormed.src2_wide (h : WellFormed opcd inst) : FieldOk opcd.src2 (inst.src2.setWidth 32).toNat := by
  rw [toNat_field]
  exact h.src2

theorem WellFormed.dest_wide (h : WellFormed opcd inst) : FieldOk opcd.dest (inst.dest.setWidth 32).toNat := by
  rw [toNat_field]
  exact h.dest

def operandAtoms (type : ArgType) (value : BitVec 32) : List Atom :=
  match type with
  | .nothing => []
  | .literal | .address => [.numeric value]
  | .register => [.register value]

theorem hexField_chars (v : BitVec 32) : ∀ c ∈ hexField v, atomhash c = .alpha ∨ atomhash c = .numeric := by
  have hdigit : ∀ d : Fin 16, atomhash (Nat.digitChar d.val).toUpper = .alpha ∨
      atomhash (Nat.digitChar d.val).toUpper = .numeric := by decide
  intro c hc
  obtain rfl | rfl | ⟨e, he, rfl⟩ : c = '0' ∨ c = 'x' ∨ ∃ d ∈ Nat.toDigits 16 v.toNat, d.toUpper = c := by
    simpa [hexField, hexUpper] using hc
  · decide
  · decide
  · obtain ⟨d, hd, rfl⟩ := exists_digit (show 1 < 16 by decide) he
    exact hdigit ⟨d, hd⟩

theorem length_hexField (v : BitVec 32) : 3 ≤ (hexField v).length ∧ (hexField v).length ≤ 10 := by
  have hmax : (hexUpper v.toNat).length ≤ 8 := length_hexUpper_le (by decide) v.isLt
  obtain ⟨c, s, hdigits, -⟩ := hexUpper_cons v.toNat
  unfold hexField
  rw [hdigits] at hmax ⊢
  simp only [List.length_cons] at hmax ⊢
  omega

/-- What is printed for an operand. -/
structure Operand.Text (type : ArgType) (value : BitVec 32) (t : List Char) : Prop where
  none : type = .nothing ↔ t = []
  length : t = [] ∨ 3 ≤ t.length ∧ t.length ≤ 10
  chars : ∀ c ∈ t, atomhash c = .alpha ∨ atomhash c = .numeric
  register : type = .register → RegisterName value.toNat t
  lexes : ∀ s, Ends s → Lexes (t ++ s) (operandAtoms type value) s

theorem operandText_spec (hfield : FieldOk type value.toNat) (h : operandText spare type value = some t) :
    Operand.Text type value t := by
  have hnumber : t = hexField value → operandAtoms type value = [.numeric value] → type ≠ .nothing → type ≠ .register →
      Operand.Text type value t := by
    intro ht hatoms hsome hreg
    have hlength := length_hexField value
    subst ht
    refine ⟨iff_of_false hsome ?_, .inr hlength, hexField_chars value, fun heq => absurd heq hreg, ?_⟩
    · intro hnil
      rw [hnil] at hlength
      exact absurd hlength.1 (by decide)
    · intro s hs
      rw [hatoms]
      exact lexes_number value hs
  cases type with
  | nothing =>
    cases h
    refine ⟨iff_of_true rfl rfl, .inl rfl, fun c hc => absurd hc List.not_mem_nil, ?_, fun s _ => Lexes.refl s⟩
    intro hreg
    cases hreg
  | literal => exact hnumber (Option.some.inj h).symm rfl (by decide) (by decide)
  | address => exact hnumber (Option.some.inj h).symm rfl (by decide) (by decide)
  | register =>
    have hname := registerName (hfield.2 rfl) h
    have hlength := hname.length
    refine ⟨iff_of_false (by decide) ?_, .inr ⟨hlength.1, by omega⟩, hname.word.chars, fun _ => hname, ?_⟩
    · intro hnil
      rw [hnil] at hlength
      exact absurd hlength.1 (by decide)
    · intro s hs
      have hatom := hname.atom
      rw [BitVec.ofNat_toNat, BitVec.setWidth_eq] at hatom
      have hfits : t.length < textSize := lt_of_le_of_lt hlength.2 (by decide)
      have hlex := lexes_word hname.word hfits hs
      rw [hatom] at hlex
      exact hlex

end Operands

/-! ## One line -/

section Line
variable {spare : Bool} {adr pc : BitVec 32} {opcd : OpCode} {comment : String} {inst : Instruction} {oln : DisLine}
  {type : ArgType} {value : BitVec 32} {n : ℕ} {t s : List Char}

def lineAtoms (opcd : OpCode) (comment : String) (inst : Instruction) : List Atom :=
  .opCode opcd :: (operandAtoms opcd.src1 inst.src1 ++ (operandAtoms opcd.src2 (inst.src2.setWidth 32) ++
    (operandAtoms opcd.dest (inst.dest.setWidth 32) ++ [.seperator (' ' :: comment.toList)])))

/-- The name of the op-code ends behind the column of the first operand. -/
def Crowded (adr pc : BitVec 32) (opcd : OpCode) : Prop :=
  opcd.src1 ≠ .nothing ∧ 16 ≤ (addressColumn adr pc).length + opcd.name.toList.length

/-- The second operand is `EVOUTCNT`, which fills its column, and a third one follows. -/
def Glued (opcd : OpCode) (inst : Instruction) : Prop :=
  opcd.src2 = .register ∧ opcd.dest = .register ∧ inst.src2.toNat = 215

/-- What the atoms of a line are. -/
inductive LineRead (adr pc : BitVec 32) (opcd : OpCode) (comment : String) (inst : Instruction) : List Atom → Prop
  | crowded {atoms : List Atom} (h : Crowded adr pc opcd) (hfree : ∀ atom ∈ atoms, isOpCode atom = false) :
    LineRead adr pc opcd comment inst atoms
  | glued {name : Name} (h : Glued opcd inst) :
    LineRead adr pc opcd comment inst (.opCode opcd ::
      (operandAtoms opcd.src1 inst.src1 ++ [.alpha name, .seperator (' ' :: comment.toList)]))
  | whole (hcrowded : ¬ Crowded adr pc opcd) (hglued : ¬ Glued opcd inst) :
    LineRead adr pc opcd comment inst (lineAtoms opcd comment inst)

theorem instLine_eq_some : instLine spare adr pc opcd comment inst = some oln ↔ ∃ src1 src2 dest,
    operandText spare opcd.src1 inst.src1 = some src1 ∧
    operandText spare opcd.src2 (inst.src2.setWidth 32) = some src2 ∧
    operandText spare opcd.dest (inst.dest.setWidth 32) = some dest ∧
    oln = operandLine adr pc opcd comment src1 src2 dest := by
  unfold instLine
  constructor
  · intro h
    obtain ⟨src1, h₁, hrest⟩ := Option.bind_eq_some_iff.mp h
    obtain ⟨src2, h₂, hrest⟩ := Option.bind_eq_some_iff.mp hrest
    obtain ⟨dest, h₃, hline⟩ := Option.map_eq_some_iff.mp hrest
    exact ⟨src1, src2, dest, h₁, h₂, h₃, hline.symm⟩
  · rintro ⟨src1, src2, dest, h₁, h₂, h₃, rfl⟩
    rw [h₁, h₂, h₃]
    rfl

theorem operandLine_text (adr pc : BitVec 32) (opcd : OpCode) (comment : String) (src1 src2 dest : List Char) :
    ∃ a b c d, (operandLine adr pc opcd comment src1 src2 dest).text = opcd.name.toList ++
      (spaced [(a, src1), (b, src2), (c, dest), (d, [])] ++ '%' :: ' ' :: comment.toList) ∧
    a = 16 - ((addressColumn adr pc).length + opcd.name.toList.length) ∧
    b = 28 - ((addressColumn adr pc).length + opcd.name.toList.length + a + src1.length) ∧
    c = 36 - ((addressColumn adr pc).length + opcd.name.toList.length + a + src1.length + b + src2.length) ∧
    d = 44 - ((addressColumn adr pc).length + opcd.name.toList.length + a + src1.length + b + src2.length + c +
      dest.length) := by
  refine ⟨_, _, _, _, ?_, rfl, rfl, rfl, rfl⟩
  simp [operandLine, DisLine.tab, DisLine.add, tabTo, spaced, Nat.add_assoc]

theorem ends_spaces (n : ℕ) (hs : Ends s) : Ends (List.replicate n ' ' ++ s) := by
  cases n with
  | zero => exact hs
  | succ n => exact .inl rfl

theorem ends_column (h : t = [] ∨ 0 < n) (hs : Ends s) : Ends (List.replicate n ' ' ++ (t ++ s)) := by
  cases n with
  | zero =>
    obtain rfl | hpos := h
    · exact hs
    · exact absurd hpos (lt_irrefl 0)
  | succ n => exact .inl rfl

theorem Operand.Text.column (h : Operand.Text type value t) (n : ℕ) (hs : Ends s) :
    Lexes (List.replicate n ' ' ++ (t ++ s)) (operandAtoms type value) s :=
  (lexes_spaces n _).trans (h.lexes s hs)

theorem Operand.Text.noCommand (h : Operand.Text type value t) (htype : type = .nothing ∨ type = .register) :
    NoCommand t := by
  obtain hnone | hreg := htype
  · exact .inl (h.none.mp hnone)
  · exact .inr ⟨(h.register hreg).word, (h.register hreg).noOpCode⟩

theorem Operand.Text.length_le (h : Operand.Text type value t) : t.length ≤ 10 := by
  obtain rfl | hlength := h.length
  · exact Nat.zero_le _
  · exact hlength.2

theorem wordAtom_long (h : maxNameLength < t.length) : wordAtom t = .alpha t := by
  unfold wordAtom lookUpOpCode lookUpRegister
  rw [if_neg (by omega), if_neg (by omega)]
  rfl

theorem lexes_tail (h : Listed opcd comment) (s : List Char) :
    Lexes ('%' :: ' ' :: (comment.toList ++ '\n' :: s)) [.seperator (' ' :: comment.toList)] s := by
  refine lexes_comment (?_ : ∀ c ∈ ' ' :: comment.toList, _) ?_ s
  · intro c hc
    obtain rfl | hc := List.mem_cons.mp hc
    · decide
    · exact h.text c hc
  · have hlength := h.textLength
    rw [List.length_cons]
    exact lt_of_le_of_lt (Nat.succ_le_succ hlength) (by decide)

section Columns
variable {src1 src2 dest : List Char} {a b c d : ℕ}

theorem lexes_opCode (hlisted : Listed opcd comment) (hs : Ends s) : Lexes (opcd.name.toList ++ s)
    [.opCode opcd] s := by
  have hlex := lexes_word hlisted.word (lt_of_le_of_lt hlisted.length.2 (by decide)) hs
  rw [hlisted.atom] at hlex
  exact hlex

theorem lexes_whole (hlisted : Listed opcd comment) (ht₁ : Operand.Text opcd.src1 inst.src1 src1)
    (ht₂ : Operand.Text opcd.src2 (inst.src2.setWidth 32) src2)
    (ht₃ : Operand.Text opcd.dest (inst.dest.setWidth 32) dest) (h₁ : src1 = [] ∨ 0 < a) (h₂ : src2 = [] ∨ 0 < b)
    (h₃ : dest = [] ∨ 0 < c) (s : List Char) :
    Lexes (opcd.name.toList ++ (spaced [(a, src1), (b, src2), (c, dest), (d, [])] ++
      '%' :: ' ' :: (comment.toList ++ '\n' :: s))) (lineAtoms opcd comment inst) s := by
  have e₄ : Ends (List.replicate d ' ' ++ '%' :: ' ' :: (comment.toList ++ '\n' :: s)) := ends_spaces d (.inr rfl)
  have e₃ := ends_column h₃ e₄
  have e₂ := ends_column h₂ e₃
  have e₁ := ends_column h₁ e₂
  have hlex := (lexes_opCode hlisted e₁).trans ((ht₁.column a e₂).trans ((ht₂.column b e₃).trans
    ((ht₃.column c e₄).trans ((lexes_spaces d _).trans (lexes_tail hlisted s)))))
  simpa [spaced, lineAtoms] using hlex

theorem lexes_glued (hlisted : Listed opcd comment) (ht₁ : Operand.Text opcd.src1 inst.src1 src1) (hw₂ : Word src2)
    (hw₃ : Word dest) (hlong : maxNameLength < (src2 ++ dest).length) (hfits : (src2 ++ dest).length < textSize)
    (h₁ : 0 < a) (h₂ : 0 < b) (s : List Char) :
    Lexes (opcd.name.toList ++ (spaced [(a, src1), (b, src2), (0, dest), (d, [])] ++
      '%' :: ' ' :: (comment.toList ++ '\n' :: s)))
      (.opCode opcd :: (operandAtoms opcd.src1 inst.src1 ++
        [.alpha (src2 ++ dest), .seperator (' ' :: comment.toList)])) s := by
  have e₄ : Ends (List.replicate d ' ' ++ '%' :: ' ' :: (comment.toList ++ '\n' :: s)) := ends_spaces d (.inr rfl)
  have e₂ := ends_column (t := src2 ++ dest) (.inr h₂) e₄
  have e₁ := ends_column (t := src1) (.inr h₁) e₂
  have hword := lexes_word (hw₂.append hw₃.chars) hfits e₄
  rw [wordAtom_long hlong] at hword
  have hlex := (lexes_opCode hlisted e₁).trans ((ht₁.column a e₂).trans ((lexes_spaces b _).trans
    (hword.trans ((lexes_spaces d _).trans (lexes_tail hlisted s)))))
  simpa [spaced] using hlex

theorem lexes_crowded (hlisted : Listed opcd comment) (ht₁ : Operand.Text opcd.src1 inst.src1 src1)
    (hsome : opcd.src1 ≠ .nothing) (hw₂ : NoCommand src2) (hw₃ : NoCommand dest)
    (hfits : (opcd.name.toList ++ src1 ++ spaced [(b, src2), (c, dest), (d, [])]).length < textSize) (s : List Char) :
    ∃ atoms, Lexes (opcd.name.toList ++ (spaced [(0, src1), (b, src2), (c, dest), (d, [])] ++
      '%' :: ' ' :: (comment.toList ++ '\n' :: s))) atoms s ∧ ∀ atom ∈ atoms, isOpCode atom = false := by
  have hlength : 5 < (opcd.name.toList ++ src1).length := by
    have hname := hlisted.length.1
    obtain hnil | hsrc1 := ht₁.length
    · exact absurd (ht₁.none.mpr hnil) hsome
    · rw [List.length_append]
      omega
  have hfirst : NoCommand (opcd.name.toList ++ src1) := .inr ⟨hlisted.word.append ht₁.chars, noOpCode_long hlength⟩
  have hwords : ∀ p ∈ [(b, src2), (c, dest), (d, ([] : List Char))], NoCommand p.2 := by
    intro p hp
    obtain rfl | rfl | rfl : p = (b, src2) ∨ p = (c, dest) ∨ p = (d, []) := by simpa using hp
    · exact hw₂
    · exact hw₃
    · exact .inl rfl
  have hmark : Ends ('%' :: ' ' :: (comment.toList ++ '\n' :: s)) := .inr rfl
  obtain ⟨atoms, hlex, hfree⟩ := lexes_spaced _ hfirst hwords hfits hmark
  refine ⟨atoms ++ [.seperator (' ' :: comment.toList)], ?_, ?_⟩
  · have hline := hlex.trans (lexes_tail hlisted s)
    simpa [spaced] using hline
  · intro atom hatom
    obtain hold | hnew := List.mem_append.mp hatom
    · exact hfree atom hold
    · rw [List.mem_singleton.mp hnew]
      rfl

end Columns

theorem lexes_line (hlisted : Listed opcd comment) (hwf : WellFormed opcd inst)
    (h : instLine spare adr pc opcd comment inst = some oln) (s : List Char) :
    ∃ atoms, Lexes (oln.text ++ '\n' :: s) atoms s ∧ LineRead adr pc opcd comment inst atoms := by
  obtain ⟨src1, src2, dest, h₁, h₂, h₃, rfl⟩ := instLine_eq_some.mp h
  have ht₁ := operandText_spec hwf.src1 h₁
  have ht₂ := operandText_spec hwf.src2_wide h₂
  have ht₃ := operandText_spec hwf.dest_wide h₃
  obtain ⟨a, b, c, d, htext, ha, hb, hc, hd⟩ := operandLine_text adr pc opcd comment src1 src2 dest
  have hline : (operandLine adr pc opcd comment src1 src2 dest).text ++ '\n' :: s = opcd.name.toList ++
      (spaced [(a, src1), (b, src2), (c, dest), (d, [])] ++ '%' :: ' ' :: (comment.toList ++ '\n' :: s)) := by
    rw [htext]
    simp
  rw [hline]
  have hlength₁ := ht₁.length_le
  have hlength₂ := ht₂.length_le
  have hlength₃ := ht₃.length_le
  by_cases hcrowded : Crowded adr pc opcd
  · have hname := hlisted.length.2
    obtain rfl : a = 0 := by
      have hcolumn := hcrowded.2
      omega
    have hfits : (opcd.name.toList ++ src1 ++ spaced [(b, src2), (c, dest), (d, [])]).length < textSize := by
      have hsize : textSize = 128 := rfl
      simp only [spaced, List.length_append, List.length_replicate, List.length_nil]
      omega
    obtain ⟨atoms, hlex, hfree⟩ :=
      lexes_crowded hlisted ht₁ hcrowded.1 (ht₂.noCommand hlisted.src2) (ht₃.noCommand hlisted.dest) hfits s
    exact ⟨atoms, hlex, .crowded hcrowded hfree⟩
  · have hcolumn : opcd.src1 = .nothing ∨ (addressColumn adr pc).length + opcd.name.toList.length < 16 := by
      by_contra hno
      push Not at hno
      exact hcrowded hno
    by_cases hglued : Glued opcd inst
    · obtain ⟨hsrc2, hdest, hnumber⟩ := id hglued
      have hsome : opcd.src1 ≠ .nothing := by
        intro hnone
        have hno := (hlisted.noSource hnone).1
        rw [hsrc2] at hno
        cases hno
      have hroom := hcolumn.resolve_left hsome
      have hname₂ := ht₂.register hsrc2
      have hname₃ := ht₃.register hdest
      have hfull : src2.length = 8 := hname₂.full.mpr (by rw [toNat_field]; exact hnumber)
      have hthree := hname₃.length
      obtain rfl : c = 0 := by omega
      have hlong : maxNameLength < (src2 ++ dest).length := by
        have hmax : maxNameLength = 8 := rfl
        rw [List.length_append]
        omega
      have hfits : (src2 ++ dest).length < textSize := by
        have hsize : textSize = 128 := rfl
        rw [List.length_append]
        omega
      exact ⟨_, lexes_glued hlisted ht₁ hname₂.word hname₃.word hlong hfits (by omega) (by omega) s, .glued hglued⟩
    · refine ⟨_, lexes_whole hlisted ht₁ ht₂ ht₃ ?_ ?_ ?_ s, .whole hcrowded hglued⟩
      · obtain hnone | hroom := hcolumn
        · exact .inl (ht₁.none.mp hnone)
        · exact .inr (by omega)
      · obtain hnone | hroom := hcolumn
        · exact .inl (ht₂.none.mp (hlisted.noSource hnone).1)
        · exact .inr (by omega)
      · obtain hnone | hroom := hcolumn
        · exact .inl (ht₃.none.mp (hlisted.noSource hnone).2)
        · obtain hno | hdest := hlisted.dest
          · exact .inl (ht₃.none.mp hno)
          · obtain hno | hsrc2 := hlisted.src2
            · have hnil := ht₂.none.mp hno
              rw [hnil, List.length_nil] at hc
              exact .inr (by omega)
            · have hname₂ := ht₂.register hsrc2
              have hnumber : src2.length ≠ 8 := fun hfull =>
                hglued ⟨hsrc2, hdest, (toNat_field inst.src2).symm.trans (hname₂.full.mp hfull)⟩
              have hmax := hname₂.length.2
              exact .inr (by omega)

end Line

end HtDrivers.Mttn
