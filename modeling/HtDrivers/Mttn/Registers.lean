import HtDrivers.Mttn.AsmAtoms

/-! Names of registers: the look-ups of the assembler (`asm.c`), the emulator (`emu.c`) and the library
(`libmtt.c`), which go through one table, and the functions from numbers to names. -/
namespace HtDrivers.Mttn
open HtDrivers.Lib.Numerals
set_option autoImplicit false

deriving instance DecidableEq for RegisterDsc

inductive MttLibRegType
  | none | global | local
deriving DecidableEq

def globals : ℕ := 224

/-- The last column of the table. -/
def RegisterDsc.lOrG (reg : RegisterDsc) : MttLibRegType := if globals ≤ reg.start then .local else .global

/-! ## From names to numbers -/

/-- What the loop of `StringToReg` makes of one entry of the table; `upr` is the name in upper case. -/
def regInRange (upr name : List Char) (reg : RegisterDsc) : Option ℕ :=
  if reg.name.toList.isPrefixOf upr then
    if reg.start < reg.stop then
      let cp := name.drop reg.name.length
      let (rn, ep) := strtoul 32 cp
      if reg.name.length < name.length ∧ cp ≠ ep ∧ reg.offset ≤ rn.toNat ∧
          rn.toNat ≤ reg.stop - reg.start + reg.offset then
        some (reg.start + rn.toNat - reg.offset)
      else none
    else some reg.start
  else none

/-- `StringToReg` of the emulator. -/
def stringToReg (name : List Char) : ℕ :=
  if name.length ≤ maxNameLength then (regs.findSome? (regInRange (strToUpper name) name)).getD 0 else 0

/-- One character of `StrToUpper` of the library. -/
def upperChar (c : Char) : Char := if 'a' ≤ c ∧ c ≤ 'z' then Char.ofNat (c.toNat - 32) else c

/-- `StrToUpper` of the library: the copy in upper case up to a space, and the name, which it changes too. Where
the copy does not fit in its buffer, there is no result; the caller checks the length behind it. -/
def libStrToUpper (inp : List Char) : Option (List Char × List Char) :=
  let out := (inp.takeWhile (· ≠ ' ')).map upperChar
  if out.length ≤ maxNameLength then some (out, out ++ inp.dropWhile (· ≠ ' ')) else none

/-- What one entry of the table gives in the library. A single register leaves `lorg` as it was. -/
def libResult (reg : RegisterDsc) (rs : ℕ) : ℕ × Option MttLibRegType :=
  if reg.start < reg.stop then (if reg.lOrG = .local then rs - globals else rs, some reg.lOrG) else (rs, none)

/-- `MttLibStringToReg`; `lorg` is what the caller has there before. The name is changed on the way. -/
def mttLibStringToReg (lorg : MttLibRegType) (name : List Char) : Option (ℕ × MttLibRegType × List Char) :=
  (libStrToUpper name).map fun (upr, name) =>
    match regs.findSome? fun reg => (regInRange upr name reg).map (libResult reg) with
    | some (rs, lg) => (rs, lg.getD lorg, name)
    | none => (0, lorg, name)

/-! ## From numbers to names -/

/-- `sprintf` into `name[MAX_REGISTER_STRING_LENGTH]`; `spare` is whether the byte behind the array is free. -/
def sprintfName (spare : Bool) (text : List Char) : Option (List Char) :=
  if text.length < maxNameLength ∨ (spare = true ∧ text.length = maxNameLength) then some text else none

def getRegisterName (spare : Bool) (regnum : ℕ) : Option (List Char) :=
  match regs.find? fun reg => reg.start ≤ regnum ∧ regnum ≤ reg.stop with
  | some reg =>
    sprintfName spare
      (if reg.start < reg.stop then reg.name.toList ++ Nat.toDigits 10 (regnum - reg.start + reg.offset)
      else reg.name.toList)
  | none => some "???".toList

/-- `RegToString` of the emulator. -/
def regToString (spare : Bool) (regnum : ℕ) : Option (List Char) := getRegisterName spare regnum

def mttLibRegToString (spare : Bool) (regnum : ℕ) (lorg : MttLibRegType) : Option (List Char) :=
  getRegisterName spare (if lorg = .local then regnum + globals else regnum)

/-! ## What a name stands for -/

def Atom.registerValue : Atom → Option ℕ
  | .register value => some value.toNat
  | _ => none

/-- The register of the assembler; no match is a failure. -/
def asmRegister (name : List Char) : Option ℕ := (lookUpRegister name).bind Atom.registerValue

/-- The register of the emulator; 0 is a failure. -/
def emuRegister (name : List Char) : Option ℕ := if stringToReg name = 0 then none else some (stringToReg name)

/-- The register of the library, with the locals behind the globals; 0 is a failure. There is no result where the
library overruns its buffer. -/
def libRegister (lorg : MttLibRegType) (name : List Char) : Option (Option ℕ) :=
  (mttLibStringToReg lorg name).map fun (rs, lorg, _) =>
    if rs = 0 then none else some (if lorg = .local then rs + globals else rs)

/-! ## Letter case -/

theorem upperChar_eq (c : Char) :
    (if atomhash c = .alpha ∧ 'a' ≤ c then Char.ofNat (c.toNat - 32) else c) = upperChar c := by
  have hall : ∀ n : Fin 128, (AtomType.ofCode ((atomhashTable[n.val]?).getD 9) = .alpha ∧ 97 ≤ n.val) ↔
      97 ≤ n.val ∧ n.val ≤ 122 := by decide
  have hlower : (atomhash c = .alpha ∧ 'a' ≤ c) ↔ 'a' ≤ c ∧ c ≤ 'z' := by
    by_cases hc : c.toNat < 128
    · exact hall ⟨c.toNat, hc⟩
    · have hz : ¬ c ≤ 'z' := fun h => hc (lt_of_le_of_lt (show c.toNat ≤ 122 from h) (by decide))
      have hnone : atomhashTable[c.toNat]? = none := List.getElem?_eq_none (by
        have hlen : atomhashTable.length = 128 := by decide +kernel
        omega)
      unfold atomhash
      rw [hnone]
      exact ⟨fun h => absurd h.1 (by decide), fun h => absurd h.2 hz⟩
  exact if_congr hlower rfl rfl

theorem strToUpper_eq (name : List Char) : strToUpper name = name.map upperChar :=
  List.map_congr_left fun c _ => upperChar_eq c

theorem upperChar_alike (c : Char) : SameNumeral (upperChar c) c := by
  have hall : ∀ n : Fin 128, 97 ≤ n.val → n.val ≤ 122 →
      digitValue (Char.ofNat (n.val - 32)) = digitValue (Char.ofNat n.val) ∧
      isSpace (Char.ofNat (n.val - 32)) = isSpace (Char.ofNat n.val) ∧
      (Char.ofNat (n.val - 32) = '-' ↔ Char.ofNat n.val = '-') ∧
      (Char.ofNat (n.val - 32) = '+' ↔ Char.ofNat n.val = '+') ∧
      (Char.ofNat (n.val - 32) = '0' ↔ Char.ofNat n.val = '0') ∧
      ((Char.ofNat (n.val - 32) = 'x' ∨ Char.ofNat (n.val - 32) = 'X') ↔
        (Char.ofNat n.val = 'x' ∨ Char.ofNat n.val = 'X')) := by decide
  unfold upperChar
  split
  · rename_i hlower
    have hlow : 97 ≤ c.toNat := hlower.1
    have hhigh : c.toNat ≤ 122 := hlower.2
    obtain ⟨hdigit, hspace, hminus, hplus, hzero, hmark⟩ := hall ⟨c.toNat, by omega⟩ hlow hhigh
    simp only [Char.ofNat_toNat] at hdigit hspace hminus hplus hzero hmark
    exact ⟨hdigit, hspace, hminus, hplus, hzero, hmark⟩
  · exact SameNumeral.refl c

theorem upperChar_space (c : Char) : upperChar c ≠ ' ' ↔ c ≠ ' ' := by
  have hall : ∀ n : Fin 128, 97 ≤ n.val → n.val ≤ 122 → Char.ofNat (n.val - 32) ≠ ' ' ∧ Char.ofNat n.val ≠ ' ' := by
    decide
  unfold upperChar
  split
  · rename_i hlower
    have hlow : 97 ≤ c.toNat := hlower.1
    have hhigh : c.toNat ≤ 122 := hlower.2
    obtain ⟨hupper, hc⟩ := hall ⟨c.toNat, by omega⟩ hlow hhigh
    rw [Char.ofNat_toNat] at hc
    exact ⟨fun _ => hc, fun _ => hupper⟩
  · exact Iff.rfl

theorem map_upperChar_alike (name : List Char) : List.Forall₂ SameNumeral (name.map upperChar) name := by
  induction name with
  | nil => exact .nil
  | cons c name ih => exact .cons (upperChar_alike c) ih

theorem forall₂_refl (name : List Char) : List.Forall₂ SameNumeral name name :=
  List.forall₂_same.mpr fun c _ => SameNumeral.refl c

/-- The name as the library leaves it reads like the one it was given. -/
theorem libStrToUpper_alike (name : List Char) :
    List.Forall₂ SameNumeral
      ((name.takeWhile (· ≠ ' ')).map upperChar ++ name.dropWhile (· ≠ ' ')) name := by
  have happend : List.Forall₂ SameNumeral
      ((name.takeWhile (· ≠ ' ')).map upperChar ++ name.dropWhile (· ≠ ' '))
      (name.takeWhile (· ≠ ' ') ++ name.dropWhile (· ≠ ' ')) :=
    List.rel_append (map_upperChar_alike _) (forall₂_refl _)
  rwa [List.takeWhile_append_dropWhile] at happend

/-- A prefix without spaces can be looked for in front of the first space. -/
theorem isPrefixOf_takeWhile {pre text : List Char} (hpre : ' ' ∉ pre) :
    pre.isPrefixOf (text.takeWhile (· ≠ ' ')) = pre.isPrefixOf text := by
  induction pre generalizing text with
  | nil => rfl
  | cons c pre ih =>
    obtain ⟨hc, hpre⟩ : ' ' ≠ c ∧ ' ' ∉ pre := by simpa using hpre
    cases text with
    | nil => rfl
    | cons d text =>
      rw [List.takeWhile_cons]
      by_cases hd : d = ' '
      · have hne : (c == d) = false := by
          rw [hd]
          exact beq_false_of_ne hc.symm
        rw [List.isPrefixOf_cons_cons, hne]
        simp [hd]
      · simp only [ne_eq, hd, not_false_eq_true, decide_true, if_true, List.isPrefixOf_cons_cons, ih hpre]

theorem takeWhile_upper (name : List Char) :
    (name.takeWhile (· ≠ ' ')).map upperChar = (strToUpper name).takeWhile (· ≠ ' ') := by
  rw [strToUpper_eq, List.takeWhile_map]
  congr 2
  funext c
  exact decide_eq_decide.mpr (upperChar_space c).symm

/-! ## Entries of the table -/

/-- What a search in a table finds, where one entry fits. -/
theorem find?_only {α : Type} {p : α → Bool} {table : List α} {x : α} (hx : x ∈ table) (hp : p x = true)
    (honly : ∀ y ∈ table, p y = true → y = x) : table.find? p = some x := by
  cases hfound : table.find? p with
  | none => exact absurd hp (List.find?_eq_none.mp hfound x hx)
  | some y => rw [honly y (List.mem_of_find?_eq_some hfound) (List.find?_some hfound)]

section Entries
variable {upr name : List Char} {reg reg' : RegisterDsc}

/-- The number behind the name of an entry. -/
def numeral (name : List Char) (reg : RegisterDsc) : ℕ := (strtoul 32 (name.drop reg.name.length)).1.toNat

/-- A name hits an entry: it begins with its name, and for a range the number is one of the range. -/
def Hits (upr name : List Char) (reg : RegisterDsc) : Prop :=
  reg.name.toList.isPrefixOf upr = true ∧
  (reg.start < reg.stop → reg.offset ≤ numeral name reg ∧ numeral name reg ≤ reg.stop - reg.start + reg.offset)

instance instDecidableHits : Decidable (Hits upr name reg) := inferInstanceAs (Decidable (_ ∧ (_ → _ ∧ _)))

def numberOf (name : List Char) (reg : RegisterDsc) : ℕ :=
  if reg.start < reg.stop then reg.start + numeral name reg - reg.offset else reg.start

/-- What the proofs use of the table. -/
structure Entry (reg : RegisterDsc) : Prop where
  offset : reg.start < reg.stop → reg.offset = 1
  stop : reg.start ≤ reg.stop ∧ reg.stop ≤ 255
  single : ¬ reg.start < reg.stop → 0 < reg.start
  locals : reg.start < reg.stop → reg.lOrG = .local → globals < reg.start
  noSpace : ' ' ∉ reg.name.toList
  first : reg.start = 0 → reg = ⟨"GR", 0, 211, 1⟩

theorem entry (h : reg ∈ regs) : Entry reg := by
  have hall : ∀ reg ∈ regs, (reg.start < reg.stop → reg.offset = 1) ∧ (reg.start ≤ reg.stop ∧ reg.stop ≤ 255) ∧
      (¬ reg.start < reg.stop → 0 < reg.start) ∧
      (reg.start < reg.stop → reg.lOrG = .local → globals < reg.start) ∧ ' ' ∉ reg.name.toList ∧
      (reg.start = 0 → reg = ⟨"GR", 0, 211, 1⟩) := by decide
  obtain ⟨hoffset, hstop, hsingle, hlocals, hspace, hfirst⟩ := hall reg h
  exact ⟨hoffset, hstop, hsingle, hlocals, hspace, hfirst⟩

/-- Entries whose names begin with each other are single registers. -/
theorem hits_unique (h : reg ∈ regs) (h' : reg' ∈ regs) (hpre : reg.name.toList.isPrefixOf upr = true)
    (hpre' : reg'.name.toList.isPrefixOf upr = true) : reg = reg' ∨ ¬ reg.start < reg.stop ∧
    ¬ reg'.start < reg'.stop := by
  have hall : ∀ reg ∈ regs, ∀ reg' ∈ regs, reg.name.toList.isPrefixOf reg'.name.toList = true →
      reg = reg' ∨ ¬ reg.start < reg.stop ∧ ¬ reg'.start < reg'.stop := by decide
  rw [List.isPrefixOf_iff_prefix] at hpre hpre'
  obtain hle | hle := List.prefix_or_prefix_of_prefix hpre hpre'
  · exact hall reg h reg' h' (List.isPrefixOf_iff_prefix.mpr hle)
  · obtain heq | hsingle := hall reg' h' reg h (List.isPrefixOf_iff_prefix.mpr hle)
    · exact .inl heq.symm
    · exact .inr hsingle.symm

theorem numeral_pos (h : 0 < numeral name reg) :
    reg.name.length < name.length ∧ (strtoul 32 (name.drop reg.name.length)).2 ≠ name.drop reg.name.length := by
  have hvalue : (strtoul 32 (name.drop reg.name.length)).1 ≠ 0 := by
    intro hzero
    rw [numeral, hzero] at h
    exact absurd h (by decide)
  have hcons := strtoul_consumes hvalue
  refine ⟨?_, hcons⟩
  by_contra hle
  rw [List.drop_eq_nil_of_le (by omega)] at hvalue
  exact hvalue (by decide)

theorem regInRange_eq (h : reg ∈ regs) :
    regInRange upr name reg = if Hits upr name reg then some (numberOf name reg) else none := by
  by_cases hpre : reg.name.toList.isPrefixOf upr = true
  · by_cases hrange : reg.start < reg.stop
    · have hoffset := (entry h).offset hrange
      simp only [regInRange, Hits, numberOf, hpre, hrange, if_true, true_and, forall_const]
      refine if_congr ?_ rfl rfl
      constructor
      · exact fun hcond => hcond.2.2
      · intro hcond
        obtain ⟨hlength, hend⟩ := numeral_pos (show 0 < numeral name reg by omega)
        exact ⟨hlength, hend.symm, hcond⟩
    · simp only [regInRange, Hits, numberOf, hpre, hrange, if_true, if_false, true_and, false_implies]
  · have hnot : ¬ Hits upr name reg := fun hhits => hpre hhits.1
    rw [regInRange, if_neg hpre, if_neg hnot]

/-- The first entry that is hit decides, in each of the three look-ups. -/
theorem findSome?_hits {α : Type} {f : RegisterDsc → Option α} {g : RegisterDsc → α} {table : List RegisterDsc}
    (h : ∀ reg ∈ table, f reg = if Hits upr name reg then some (g reg) else none) :
    table.findSome? f = (table.find? fun reg => Hits upr name reg).map g := by
  induction table with
  | nil => rfl
  | cons reg rest ih =>
    have hrest := ih fun reg hreg => h reg (List.mem_cons_of_mem _ hreg)
    rw [List.findSome?_cons, List.find?_cons, h reg (List.mem_cons_self ..)]
    by_cases hhits : Hits upr name reg
    · simp [hhits]
    · simp [hhits, hrest]

end Entries

/-! ## The three look-ups -/

section LookUps
variable {name : List Char} {reg : RegisterDsc} {lorg : MttLibRegType}

/-- The entry that a name is looked up in. -/
def entryOf (name : List Char) : Option RegisterDsc := regs.find? fun reg => Hits (strToUpper name) name reg

theorem entryOf_some (h : entryOf name = some reg) : reg ∈ regs ∧ Hits (strToUpper name) name reg :=
  ⟨List.mem_of_find?_eq_some h, by simpa using List.find?_some h⟩

theorem entryOf_none (h : entryOf name = none) (hreg : reg ∈ regs) : ¬ Hits (strToUpper name) name reg := by
  simpa using List.find?_eq_none.mp h reg hreg

theorem numberOf_le (hreg : reg ∈ regs) (hhits : Hits (strToUpper name) name reg) : numberOf name reg ≤ 255 := by
  have hstop := (entry hreg).stop
  unfold numberOf
  split
  · rename_i hrange
    have hnumeral := hhits.2 hrange
    omega
  · omega

theorem emuRegister_eq (hlength : name.length ≤ maxNameLength) :
    emuRegister name =
      (entryOf name).bind fun reg => if numberOf name reg = 0 then none else some (numberOf name reg) := by
  have hreg : stringToReg name = ((entryOf name).map (numberOf name)).getD 0 := by
    rw [stringToReg, if_pos hlength, findSome?_hits fun reg hreg => regInRange_eq hreg]
    rfl
  unfold emuRegister
  rw [hreg]
  cases entryOf name with
  | none => rfl
  | some reg => rfl

theorem emuRegister_long (hlength : ¬ name.length ≤ maxNameLength) : emuRegister name = none := by
  rw [emuRegister, stringToReg, if_neg hlength]
  rfl

theorem registerInRange_eq (hreg : reg ∈ regs) :
    registerInRange name reg = if Hits (strToUpper name) name reg then
      some (.register (BitVec.ofNat 32 (numberOf name reg))) else none := by
  have hmap : registerInRange name reg =
      (regInRange (strToUpper name) name reg).map fun n => .register (BitVec.ofNat 32 n) := by
    unfold registerInRange regInRange
    split
    · split
      · dsimp only
        split
        · rfl
        · rfl
      · rfl
    · rfl
  rw [hmap, regInRange_eq hreg]
  split
  · rfl
  · rfl

theorem value_register {n : ℕ} (h : n ≤ 255) : (BitVec.ofNat 32 n).toNat = n := by
  rw [BitVec.toNat_ofNat]
  omega

theorem asmRegister_eq (hlength : name.length ≤ maxNameLength) :
    asmRegister name =
      ((regs.find? fun reg => strToUpper name = reg.name.toList).map RegisterDsc.start).or
        ((entryOf name).map (numberOf name)) := by
  unfold asmRegister lookUpRegister
  rw [if_pos hlength]
  cases hperfect : regs.find? fun reg => strToUpper name = reg.name.toList with
  | some reg =>
    have hstop := (entry (List.mem_of_find?_eq_some hperfect)).stop
    exact congrArg some (value_register (show reg.start ≤ 255 by omega))
  | none =>
    simp only [findSome?_hits fun reg hreg => registerInRange_eq hreg]
    change ((entryOf name).map _).bind Atom.registerValue = (entryOf name).map (numberOf name)
    cases hentry : entryOf name with
    | none => rfl
    | some reg =>
      obtain ⟨hreg, hhits⟩ := entryOf_some hentry
      exact congrArg some (value_register (numberOf_le hreg hhits))

theorem asmRegister_long (hlength : ¬ name.length ≤ maxNameLength) : asmRegister name = none := by
  rw [asmRegister, lookUpRegister, if_neg hlength]
  rfl

/-- What the library finds is what the emulator finds, if `lorg` says how a single register is meant. -/
def libValue (lorg : MttLibRegType) (reg : RegisterDsc) (rs : ℕ) : Option ℕ :=
  if rs = 0 then none
  else some (if ¬ reg.start < reg.stop ∧ lorg = .local then rs + globals else rs)

theorem hits_lib (hreg : reg ∈ regs) (upr : List Char) (hupr : upr = (name.takeWhile (· ≠ ' ')).map upperChar) :
    Hits upr (upr ++ name.dropWhile (· ≠ ' ')) reg ↔ Hits (strToUpper name) name reg := by
  have hpre : reg.name.toList.isPrefixOf upr = reg.name.toList.isPrefixOf (strToUpper name) := by
    rw [hupr, takeWhile_upper, isPrefixOf_takeWhile (entry hreg).noSpace]
  have hnumeral : numeral (upr ++ name.dropWhile (· ≠ ' ')) reg = numeral name reg := by
    unfold numeral
    rw [hupr, strtoul_alike 32 (List.forall₂_drop _ (libStrToUpper_alike name))]
  unfold Hits
  rw [hpre, hnumeral]

theorem numberOf_lib (reg : RegisterDsc) :
    numberOf ((name.takeWhile (· ≠ ' ')).map upperChar ++ name.dropWhile (· ≠ ' ')) reg = numberOf name reg := by
  unfold numberOf numeral
  rw [strtoul_alike 32 (List.forall₂_drop _ (libStrToUpper_alike name))]

theorem libRegister_fault (h : ¬ (name.takeWhile (· ≠ ' ')).length ≤ maxNameLength) : libRegister lorg name = none := by
  have hout : ¬ ((name.takeWhile (· ≠ ' ')).map upperChar).length ≤ maxNameLength := by rwa [List.length_map]
  rw [libRegister, mttLibStringToReg, libStrToUpper]
  simp only [if_neg hout]
  rfl

theorem libRegister_eq (h : (name.takeWhile (· ≠ ' ')).length ≤ maxNameLength) :
    libRegister lorg name = some ((entryOf name).bind fun reg => libValue lorg reg (numberOf name reg)) := by
  have hout : ((name.takeWhile (· ≠ ' ')).map upperChar).length ≤ maxNameLength := by rwa [List.length_map]
  have hfind : (regs.findSome? fun reg =>
      (regInRange ((name.takeWhile (· ≠ ' ')).map upperChar)
        ((name.takeWhile (· ≠ ' ')).map upperChar ++ name.dropWhile (· ≠ ' ')) reg).map (libResult reg)) =
      (entryOf name).map fun reg => libResult reg (numberOf name reg) := by
    refine findSome?_hits fun reg hreg => ?_
    rw [regInRange_eq hreg, numberOf_lib]
    simp only [hits_lib hreg _ rfl]
    split
    · rfl
    · rfl
  unfold libRegister mttLibStringToReg libStrToUpper
  simp only [if_pos hout, Option.map_some, hfind]
  cases hentry : entryOf name with
  | none => rfl
  | some reg =>
    obtain ⟨hreg, hhits⟩ := entryOf_some hentry
    have hentry := entry hreg
    simp only [Option.map_some, Option.bind_some, libResult, libValue]
    by_cases hrange : reg.start < reg.stop
    · have hoffset := hentry.offset hrange
      have hnumeral := (hhits.2 hrange).1
      have hnumber : numberOf name reg = reg.start + numeral name reg - reg.offset := if_pos hrange
      by_cases hlocal : reg.lOrG = .local
      · have hstart := hentry.locals hrange hlocal
        simp only [hrange, hlocal, if_true, not_true_eq_false, false_and, if_false, Option.getD_some]
        rw [if_neg (by omega), if_neg (by omega)]
        congr 2
        omega
      · simp only [hrange, hlocal, if_true, if_false, not_true_eq_false, false_and, Option.getD_some]
    · simp only [hrange, if_false, not_false_eq_true, true_and, Option.getD_none]

/-! ## Where they agree -/

/-- All three take a name for the same register, or none of them knows it. -/
def SameRegister (lorg : MttLibRegType) (name : List Char) : Prop :=
  asmRegister name = emuRegister name ∧ libRegister lorg name = some (emuRegister name)

/-- A name for register 0, which is `GR` with a numeral of value 1. -/
def NamesFirst (name : List Char) : Prop :=
  "GR".toList.isPrefixOf (strToUpper name) = true ∧ (strtoul 32 (name.drop 2)).1.toNat = 1

/-- The names that are read alike. A short one is no prefix that the assembler takes for a whole name, does not stand
for register 0, and does not begin with the name of a single register if `lorg` says local. Of a long one the
library reads what is in front of a space, and must not find a register there. -/
def ReadAlike (lorg : MttLibRegType) (name : List Char) : Prop :=
  if name.length ≤ maxNameLength then
    strToUpper name ∉ ["GR".toList, "LR".toList, "EVINCNT".toList] ∧ ¬ NamesFirst name ∧
    (lorg = .local → ∀ reg ∈ regs, reg.name.toList.isPrefixOf (strToUpper name) = true → reg.start < reg.stop)
  else
    (name.takeWhile (· ≠ ' ')).length ≤ maxNameLength ∧
    ∀ reg ∈ regs, Hits (strToUpper name) name reg → NamesFirst name

theorem hits_first : Hits (strToUpper name) name ⟨"GR", 0, 211, 1⟩ ∧ numberOf name ⟨"GR", 0, 211, 1⟩ = 0 ↔
    NamesFirst name := by
  have hnumeral : numeral name ⟨"GR", 0, 211, 1⟩ = (strtoul 32 (name.drop 2)).1.toNat := rfl
  unfold Hits numberOf NamesFirst
  rw [hnumeral]
  simp only [show (0 : ℕ) < 211 by decide, if_true, forall_const]
  constructor
  · rintro ⟨⟨hpre, hrange⟩, hzero⟩
    exact ⟨hpre, by omega⟩
  · rintro ⟨hpre, hone⟩
    exact ⟨⟨hpre, by omega⟩, by omega⟩

theorem entryOf_hit (hreg : reg ∈ regs) (hhits : Hits (strToUpper name) name reg) :
    ∃ reg', entryOf name = some reg' ∧ (reg = reg' ∨ ¬ reg.start < reg.stop ∧ ¬ reg'.start < reg'.stop) := by
  cases hentry : entryOf name with
  | none => exact absurd hhits (entryOf_none hentry hreg)
  | some reg' =>
    obtain ⟨hreg', hhits'⟩ := entryOf_some hentry
    exact ⟨reg', rfl, hits_unique hreg hreg' hhits.1 hhits'.1⟩

theorem numberOf_eq_zero (hentry : entryOf name = some reg) : numberOf name reg = 0 ↔ NamesFirst name := by
  obtain ⟨hreg, hhits⟩ := entryOf_some hentry
  have hfacts := entry hreg
  constructor
  · intro hzero
    have hstart : reg.start = 0 := by
      unfold numberOf at hzero
      split at hzero
      · rename_i hrange
        have hoffset := hfacts.offset hrange
        have hnumeral := (hhits.2 hrange).1
        omega
      · exact hzero
    have hgr := hfacts.first hstart
    subst hgr
    exact hits_first.mp ⟨hhits, hzero⟩
  · intro hfirst
    obtain ⟨hgr, hzero⟩ := hits_first.mpr hfirst
    obtain ⟨reg', hentry', hsame⟩ := entryOf_hit (by decide) hgr
    obtain rfl := Option.some.inj (hentry.symm.trans hentry')
    obtain heq | hsingle := hsame
    · rw [← heq]
      exact hzero
    · exact absurd hsingle.1 (by decide)

/-- Except for three names, what the assembler matches whole is what the table finds first. -/
theorem asmRegister_entry (hlength : name.length ≤ maxNameLength)
    (hname : strToUpper name ∉ ["GR".toList, "LR".toList, "EVINCNT".toList]) :
    asmRegister name = (entryOf name).map (numberOf name) := by
  have hall : ∀ reg ∈ regs, reg.name.toList ∉ ["GR".toList, "LR".toList, "EVINCNT".toList] →
      ¬ reg.start < reg.stop ∧ ∀ reg' ∈ regs, reg'.name.toList.isPrefixOf reg.name.toList = true → reg' = reg := by
    decide
  rw [asmRegister_eq hlength]
  cases hperfect : regs.find? fun reg => strToUpper name = reg.name.toList with
  | none => rfl
  | some reg =>
    have hreg := List.mem_of_find?_eq_some hperfect
    have hwhole : strToUpper name = reg.name.toList := by simpa using List.find?_some hperfect
    rw [hwhole] at hname
    obtain ⟨hsingle, honly⟩ := hall reg hreg hname
    have hhits : Hits (strToUpper name) name reg := by
      refine ⟨?_, fun hrange => absurd hrange hsingle⟩
      rw [hwhole, List.isPrefixOf_iff_prefix]
    obtain ⟨reg', hentry, -⟩ := entryOf_hit hreg hhits
    obtain ⟨hreg', hhits'⟩ := entryOf_some hentry
    rw [hwhole] at hhits'
    rw [hentry, honly reg' hreg' hhits'.1]
    exact congrArg some (if_neg hsingle).symm

theorem emuRegister_ne_zero (name : List Char) : emuRegister name ≠ some 0 := by
  unfold emuRegister
  split
  · intro h
    cases h
  · rename_i hzero
    exact fun h => hzero (Option.some.inj h)

/-- The three names that only the assembler knows, or knows better. -/
theorem asmRegister_whole (hlength : name.length ≤ maxNameLength)
    (hname : strToUpper name ∈ ["GR".toList, "LR".toList, "EVINCNT".toList]) :
    asmRegister name ≠ emuRegister name := by
  rw [asmRegister_eq hlength]
  obtain hgr | hlr | hevincnt : strToUpper name = "GR".toList ∨ strToUpper name = "LR".toList ∨
      strToUpper name = "EVINCNT".toList := by simpa using hname
  · have hperfect : (regs.find? fun reg => "GR".toList = reg.name.toList) = some ⟨"GR", 0, 211, 1⟩ := by decide
    simp only [hgr, hperfect, Option.map_some, Option.some_or]
    exact (emuRegister_ne_zero name).symm
  · have hperfect : (regs.find? fun reg => "LR".toList = reg.name.toList) = some ⟨"LR", 225, 255, 1⟩ := by decide
    have honly : ∀ reg ∈ regs, reg.name.toList.isPrefixOf "LR".toList = true →
        reg.name.length = 2 ∧ reg.start < reg.stop ∧ reg.offset = 1 := by decide
    have hnone : entryOf name = none := by
      cases hentry : entryOf name with
      | none => rfl
      | some reg =>
        obtain ⟨hreg, hpre, hrange⟩ := entryOf_some hentry
        rw [hlr] at hpre
        obtain ⟨htwo, hlt, hoffset⟩ := honly reg hreg hpre
        have hshort : name.length = 2 := by
          have hcount := congrArg List.length hlr
          rwa [strToUpper_eq, List.length_map] at hcount
        have hnumeral := (hrange hlt).1
        obtain ⟨hlong, -⟩ := numeral_pos (show 0 < numeral name reg by omega)
        omega
    simp only [hlr, hperfect, Option.map_some, Option.some_or]
    rw [emuRegister_eq hlength, hnone]
    intro h
    cases h
  · have hperfect : (regs.find? fun reg => "EVINCNT".toList = reg.name.toList) = some ⟨"EVINCNT", 214, 214, 0⟩ := by
      decide
    have hout : ∀ reg, reg.name.toList.isPrefixOf "EVINCNT".toList = false → ¬ Hits (strToUpper name) name reg := by
      intro reg hpre hhits
      rw [hevincnt] at hhits
      rw [hhits.1] at hpre
      cases hpre
    have hgr := hout ⟨"GR", 0, 211, 1⟩ (by decide)
    have houtputs := hout ⟨"OUTPUTS", 212, 212, 0⟩ (by decide)
    have hevin : Hits (strToUpper name) name ⟨"EVIN", 213, 213, 0⟩ := by
      rw [hevincnt]
      exact ⟨by decide, fun hrange => absurd hrange (by decide)⟩
    have hentry : entryOf name = some ⟨"EVIN", 213, 213, 0⟩ := by
      rw [entryOf, regs, List.find?_cons, List.find?_cons, List.find?_cons]
      simp only [hgr, houtputs, hevin, decide_false, decide_true]
    have hnumber : numberOf name ⟨"EVIN", 213, 213, 0⟩ = 213 := rfl
    simp only [hevincnt, hperfect, Option.map_some, Option.some_or]
    rw [emuRegister_eq hlength, hentry]
    simp [hnumber]

theorem libValue_eq (hreg : reg ∈ regs) :
    libValue lorg reg (numberOf name reg) =
      (if numberOf name reg = 0 then none else some (numberOf name reg)) ↔
    (lorg = .local → reg.start < reg.stop) := by
  unfold libValue
  by_cases hzero : numberOf name reg = 0
  · have hrange : reg.start < reg.stop := by
      by_contra hsingle
      have hpos := (entry hreg).single hsingle
      have hnumber : numberOf name reg = reg.start := if_neg hsingle
      omega
    simp [hzero, hrange]
  · rw [if_neg hzero, if_neg hzero]
    by_cases hcond : ¬ reg.start < reg.stop ∧ lorg = .local
    · rw [if_pos hcond]
      constructor
      · intro heq
        have hshift := Option.some.inj heq
        have hglobals : globals = 224 := rfl
        omega
      · exact fun hlocal => absurd (hlocal hcond.2) hcond.1
    · rw [if_neg hcond]
      refine ⟨fun _ hlocal => ?_, fun _ => rfl⟩
      by_contra hsingle
      exact hcond ⟨hsingle, hlocal⟩

/-- In a short name the library and the emulator agree unless `lorg` spoils a single register. -/
theorem libRegister_short (hlength : name.length ≤ maxNameLength) :
    libRegister lorg name = some (emuRegister name) ↔
      (lorg = .local → ∀ reg ∈ regs, reg.name.toList.isPrefixOf (strToUpper name) = true → reg.start < reg.stop) := by
  have hfirst : (name.takeWhile (· ≠ ' ')).length ≤ maxNameLength :=
    le_trans (List.takeWhile_sublist _).length_le hlength
  rw [libRegister_eq hfirst, emuRegister_eq hlength]
  cases hentry : entryOf name with
  | none =>
    refine ⟨fun _ _ reg hreg hpre => ?_, fun _ => rfl⟩
    by_contra hsingle
    exact entryOf_none hentry hreg ⟨hpre, fun hrange => absurd hrange hsingle⟩
  | some reg =>
    obtain ⟨hreg, hhits⟩ := entryOf_some hentry
    simp only [Option.bind_some, Option.some.injEq]
    rw [libValue_eq hreg]
    constructor
    · intro hrange hlocal reg' hreg' hpre'
      obtain heq | hsingle := hits_unique hreg hreg' hhits.1 hpre'
      · rw [← heq]
        exact hrange hlocal
      · exact absurd (hrange hlocal) hsingle.1
    · exact fun hall hlocal => hall hlocal reg hreg hhits.1

theorem asmRegister_short (hlength : name.length ≤ maxNameLength)
    (hname : strToUpper name ∉ ["GR".toList, "LR".toList, "EVINCNT".toList]) :
    asmRegister name = emuRegister name ↔ ¬ NamesFirst name := by
  rw [asmRegister_entry hlength hname, emuRegister_eq hlength]
  cases hentry : entryOf name with
  | none =>
    refine ⟨fun _ hnamed => ?_, fun _ => rfl⟩
    exact entryOf_none hentry (by decide) (hits_first.mpr hnamed).1
  | some reg =>
    rw [← numberOf_eq_zero hentry]
    simp only [Option.map_some, Option.bind_some]
    split
    · rename_i hzero
      simp [hzero]
    · rename_i hzero
      simp [hzero]

theorem libRegister_unknown :
    libRegister lorg name = some none ↔
      (name.takeWhile (· ≠ ' ')).length ≤ maxNameLength ∧
      ∀ reg ∈ regs, Hits (strToUpper name) name reg → NamesFirst name := by
  by_cases hfirst : (name.takeWhile (· ≠ ' ')).length ≤ maxNameLength
  · rw [libRegister_eq hfirst]
    simp only [hfirst, true_and, Option.some.injEq]
    cases hentry : entryOf name with
    | none => exact ⟨fun _ reg hreg hhits => absurd hhits (entryOf_none hentry hreg), fun _ => rfl⟩
    | some reg =>
      obtain ⟨hreg, hhits⟩ := entryOf_some hentry
      simp only [Option.bind_some, libValue]
      by_cases hzero : numberOf name reg = 0
      · rw [if_pos hzero]
        exact ⟨fun _ _ _ _ => (numberOf_eq_zero hentry).mp hzero, fun _ => rfl⟩
      · rw [if_neg hzero]
        constructor
        · intro h
          cases h
        · exact fun hall => absurd ((numberOf_eq_zero hentry).mpr (hall reg hreg hhits)) hzero
  · rw [libRegister_fault hfirst]
    refine ⟨fun h => ?_, fun h => absurd h.1 hfirst⟩
    cases h

theorem sameRegister_iff (lorg : MttLibRegType) (name : List Char) :
    SameRegister lorg name ↔ ReadAlike lorg name := by
  unfold SameRegister ReadAlike
  by_cases hlength : name.length ≤ maxNameLength
  · rw [if_pos hlength, libRegister_short hlength]
    by_cases hname : strToUpper name ∈ ["GR".toList, "LR".toList, "EVINCNT".toList]
    · exact ⟨fun h => absurd h.1 (asmRegister_whole hlength hname), fun h => absurd hname h.1⟩
    · rw [asmRegister_short hlength hname]
      exact ⟨fun h => ⟨hname, h⟩, fun h => h.2⟩
  · rw [if_neg hlength, asmRegister_long hlength, emuRegister_long hlength, libRegister_unknown]
    simp only [true_and]

end LookUps

/-! ## Reading back a name -/

section ReadBack
variable {spare : Bool} {lorg : MttLibRegType} {n : ℕ}

def Nameable (n : ℕ) : Prop := ∃ reg ∈ regs, reg.start ≤ n ∧ n ≤ reg.stop

/-- The names that the three functions give register `n` are looked up as this register. The library is asked with
each pair of a number and a type that means the register. -/
def ReadsBack (spare : Bool) (lorg : MttLibRegType) (n : ℕ) : Prop :=
  (getRegisterName spare n).bind asmRegister = some n ∧
  (regToString spare n).bind emuRegister = some n ∧
  ∀ regnum type, (if type = .local then regnum + globals else regnum) = n →
    ((mttLibRegToString spare regnum type).bind fun name => (libRegister lorg name).join) = some n

/-- Register 0 is taken for a failure, EVINCNT for EVIN, and the name of EVOUTCNT needs a byte more than its buffer
has. For single registers the library leaves `lorg` as it was. -/
def NameSafe (spare : Bool) (lorg : MttLibRegType) (n : ℕ) : Prop :=
  n ≠ 0 ∧ n ≠ 214 ∧ (n = 215 → spare = true) ∧ (lorg = .local → n < 212 ∨ 224 < n)

theorem sprintfName_spare (text : List Char) :
    sprintfName spare text = (sprintfName true text).filter fun name =>
    spare || decide (name.length < maxNameLength) := by
  unfold sprintfName
  by_cases hshort : text.length < maxNameLength
  · rw [if_pos (.inl hshort), if_pos (.inl hshort), Option.filter_some, decide_eq_true hshort, Bool.or_true, if_pos rfl]
  · by_cases hfull : text.length = maxNameLength
    · cases spare with
      | true => simp [hfull, Option.filter_some]
      | false => simp [hfull, Option.filter_some]
    · simp [hshort, hfull]

theorem getRegisterName_spare :
    getRegisterName spare n = (getRegisterName true n).filter fun name =>
    spare || decide (name.length < maxNameLength) := by
  unfold getRegisterName
  split
  · exact sprintfName_spare _
  · cases spare <;> decide

/-- The name of register `n` in the entry it belongs to. -/
def nameText (reg : RegisterDsc) (n : ℕ) : List Char :=
  if reg.start < reg.stop then reg.name.toList ++ Nat.toDigits 10 (n - reg.start + reg.offset) else reg.name.toList

theorem getRegisterName_eq {reg : RegisterDsc} (hreg : reg ∈ regs) (hstart : reg.start ≤ n) (hstop : n ≤ reg.stop) :
    getRegisterName spare n = sprintfName spare (nameText reg n) := by
  have hall : ∀ reg ∈ regs, ∀ reg' ∈ regs, reg.start ≤ reg'.stop → reg'.start ≤ reg.stop → reg = reg' := by
    decide
  have hfind : (regs.find? fun reg => reg.start ≤ n ∧ n ≤ reg.stop) = some reg := by
    refine find?_only hreg (decide_eq_true ⟨hstart, hstop⟩) fun reg' hreg' hcover => ?_
    obtain ⟨hstart', hstop'⟩ := of_decide_eq_true hcover
    exact hall reg' hreg' reg hreg (by omega) (by omega)
  rw [getRegisterName, hfind]
  rfl

/-- What the look-ups make of the name of register `n`. -/
structure NameOf (n : ℕ) (name : List Char) : Prop where
  length : 3 ≤ name.length ∧ name.length ≤ maxNameLength
  full : name.length = maxNameLength ↔ n = 215
  asm : asmRegister name = some n
  emu : emuRegister name = some n ↔ n ≠ 0 ∧ n ≠ 214
  range : (∀ reg ∈ regs, reg.name.toList.isPrefixOf (strToUpper name) = true → reg.start < reg.stop) ↔
    n < 212 ∨ 224 < n

theorem nameOf_single {reg : RegisterDsc} (hreg : reg ∈ regs) (hsingle : ¬ reg.start < reg.stop) :
    NameOf reg.start reg.name.toList := by
  have hall : ∀ reg ∈ regs, ¬ reg.start < reg.stop →
      (3 ≤ reg.name.toList.length ∧ reg.name.toList.length ≤ maxNameLength) ∧
      (reg.name.toList.length = maxNameLength ↔ reg.start = 215) ∧ asmRegister reg.name.toList = some reg.start ∧
      (emuRegister reg.name.toList = some reg.start ↔ reg.start ≠ 0 ∧ reg.start ≠ 214) ∧
      ((∀ reg' ∈ regs, reg'.name.toList.isPrefixOf (strToUpper reg.name.toList) = true → reg'.start < reg'.stop) ↔
        reg.start < 212 ∨ 224 < reg.start) := by decide
  obtain ⟨hlength, hfull, hasm, hemu, hrange⟩ := hall reg hreg hsingle
  exact ⟨hlength, hfull, hasm, hemu, hrange⟩

theorem strToUpper_decimal (k : ℕ) : strToUpper (Nat.toDigits 10 k) = Nat.toDigits 10 k := by
  have hall : ∀ d : Fin 10, upperChar (Nat.digitChar d.val) = Nat.digitChar d.val := by decide
  rw [strToUpper_eq]
  refine (List.map_congr_left fun c hc => ?_).trans (List.map_id _)
  obtain ⟨d, hd, rfl⟩ := exists_digit (by decide) hc
  exact hall ⟨d, hd⟩

/-- The name of a range and a number of it are looked up in the entry of the range. -/
theorem nameOf_range {reg : RegisterDsc} (hreg : reg ∈ regs) (hrange : reg.start < reg.stop) (hstart : reg.start ≤ n)
    (hstop : n ≤ reg.stop) : NameOf n (reg.name.toList ++ Nat.toDigits 10 (n - reg.start + reg.offset)) := by
  have hall : ∀ reg ∈ regs, reg.start < reg.stop → reg.name.toList.length = 2 ∧
      strToUpper reg.name.toList = reg.name.toList ∧ (reg.stop < 212 ∨ 224 < reg.start) := by decide
  obtain ⟨htwo, hname, hplace⟩ := hall reg hreg hrange
  have hoffset := (entry hreg).offset hrange
  have hlast := (entry hreg).stop
  generalize hk : n - reg.start + reg.offset = k
  have hmax : maxNameLength = 8 := rfl
  have hpos : 0 < (Nat.toDigits 10 k).length := Nat.length_toDigits_pos
  have hdigits : (Nat.toDigits 10 k).length ≤ 3 := (Nat.length_toDigits_le_iff (by decide) (by decide)).mpr (by omega)
  have hlength : (reg.name.toList ++ Nat.toDigits 10 k).length = 2 + (Nat.toDigits 10 k).length := by
    rw [List.length_append, htwo]
  have hupper : strToUpper (reg.name.toList ++ Nat.toDigits 10 k) = reg.name.toList ++ Nat.toDigits 10 k := by
    rw [strToUpper, List.map_append, ← strToUpper, ← strToUpper, hname, strToUpper_decimal]
  have hnumeral : numeral (reg.name.toList ++ Nat.toDigits 10 k) reg = k := by
    unfold numeral
    rw [← String.length_toList, List.drop_left, strtoul_decimal (by omega), BitVec.toNat_ofNat]
    omega
  have hpre : reg.name.toList.isPrefixOf (strToUpper (reg.name.toList ++ Nat.toDigits 10 k)) = true := by
    rw [hupper, List.isPrefixOf_iff_prefix]
    exact List.prefix_append _ _
  have honly : ∀ reg' ∈ regs,
      reg'.name.toList.isPrefixOf (strToUpper (reg.name.toList ++ Nat.toDigits 10 k)) = true → reg = reg' := by
    intro reg' hreg' hpre'
    obtain heq | hsingle := hits_unique hreg hreg' hpre hpre'
    · exact heq
    · exact absurd hrange hsingle.1
  have hentry : entryOf (reg.name.toList ++ Nat.toDigits 10 k) = some reg := by
    refine find?_only hreg (decide_eq_true ⟨hpre, fun _ => ?_⟩) fun reg' hreg' hhits' => ?_
    · rw [hnumeral]
      omega
    · exact (honly reg' hreg' (of_decide_eq_true hhits').1).symm
  have hnumber : numberOf (reg.name.toList ++ Nat.toDigits 10 k) reg = n := by
    rw [numberOf, if_pos hrange, hnumeral]
    omega
  have hwhole : strToUpper (reg.name.toList ++ Nat.toDigits 10 k) ∉ ["GR".toList, "LR".toList, "EVINCNT".toList] := by
    have hshort : 3 ≤ (strToUpper (reg.name.toList ++ Nat.toDigits 10 k)).length ∧
        (strToUpper (reg.name.toList ++ Nat.toDigits 10 k)).length ≤ 5 := by
      rw [hupper, hlength]
      omega
    intro hmem
    obtain heq | heq | heq : _ = "GR".toList ∨ _ = "LR".toList ∨ _ = "EVINCNT".toList := by simpa using hmem
    all_goals
      rw [heq] at hshort
      exact absurd hshort (by decide)
  refine ⟨by omega, by omega, ?_, ?_, ?_⟩
  · rw [asmRegister_entry (by omega) hwhole, hentry, Option.map_some, hnumber]
  · rw [emuRegister_eq (by omega), hentry, Option.bind_some, hnumber]
    by_cases hzero : n = 0
    · simp [hzero]
    · have h214 : n ≠ 214 := by omega
      simp [hzero, h214]
  · refine iff_of_true (fun reg' hreg' hpre' => ?_) (by omega)
    rw [← honly reg' hreg' hpre']
    exact hrange

theorem nameOf (h : Nameable n) : ∃ name, getRegisterName true n = some name ∧ NameOf n name := by
  obtain ⟨reg, hreg, hstart, hstop⟩ := h
  have hname : NameOf n (nameText reg n) := by
    unfold nameText
    split
    · rename_i hrange
      exact nameOf_range hreg hrange hstart hstop
    · rename_i hsingle
      obtain rfl : reg.start = n := by omega
      exact nameOf_single hreg hsingle
  refine ⟨nameText reg n, ?_, hname⟩
  rw [getRegisterName_eq hreg hstart hstop, sprintfName]
  obtain hlt | heq := lt_or_eq_of_le hname.length.2
  · exact if_pos (.inl hlt)
  · exact if_pos (.inr ⟨rfl, heq⟩)

theorem libName (regnum : ℕ) (type : MttLibRegType) :
    mttLibRegToString spare regnum type =
      getRegisterName spare (if type = .local then regnum + globals else regnum) := rfl

theorem readsBack_iff (h : Nameable n) : ReadsBack spare lorg n ↔ NameSafe spare lorg n := by
  obtain ⟨name, hname, ⟨-, hlength⟩, hfull, hasm, hemu, hsingle⟩ := nameOf h
  have hlib : ReadsBack spare lorg n ↔ (getRegisterName spare n).bind asmRegister = some n ∧
      (getRegisterName spare n).bind emuRegister = some n ∧
      ((getRegisterName spare n).bind fun name => (libRegister lorg name).join) = some n := by
    refine and_congr_right fun _ => and_congr_right fun _ => ?_
    constructor
    · intro hall
      exact hall n .global rfl
    · intro hback regnum type hregnum
      rw [libName, hregnum]
      exact hback
  rw [hlib, getRegisterName_spare, hname, Option.filter_some]
  unfold NameSafe
  by_cases hbuffer : (spare || decide (name.length < maxNameLength)) = true
  · have hspare : n = 215 → spare = true := by
      intro h215
      have hlong : ¬ name.length < maxNameLength := not_lt_of_ge (hfull.mpr h215).ge
      simpa [hlong] using hbuffer
    rw [if_pos hbuffer]
    simp only [Option.bind_some, hasm, hemu, true_and]
    constructor
    · rintro ⟨⟨hzero, hevincnt⟩, hback⟩
      have hsame : libRegister lorg name = some (emuRegister name) := by
        rw [hemu.mpr ⟨hzero, hevincnt⟩]
        exact Option.join_eq_some_iff.mp hback
      exact ⟨hzero, hevincnt, hspare, fun hlocal => hsingle.mp ((libRegister_short hlength).mp hsame hlocal)⟩
    · rintro ⟨hzero, hevincnt, -, hlocal⟩
      refine ⟨⟨hzero, hevincnt⟩, ?_⟩
      rw [(libRegister_short hlength).mpr fun hl => hsingle.mpr (hlocal hl), hemu.mpr ⟨hzero, hevincnt⟩]
      rfl
  · rw [if_neg hbuffer]
    refine ⟨fun h => ?_, fun hsafe => ?_⟩
    · cases h.1
    · obtain ⟨hno, hlong⟩ : spare = false ∧ ¬ name.length < maxNameLength := by simpa using hbuffer
      have h215 : n = 215 := hfull.mp (by omega)
      have hyes := hsafe.2.2.1 h215
      rw [hno] at hyes
      cases hyes

/-- The names that the three look-ups take for the same register, and the registers whose names they read back. -/
theorem register_names (lorg : MttLibRegType) :
    (∀ name, SameRegister lorg name ↔ ReadAlike lorg name) ∧
    ∀ spare n, Nameable n → (ReadsBack spare lorg n ↔ NameSafe spare lorg n) :=
  ⟨sameRegister_iff lorg, fun _ _ h => readsBack_iff h⟩

/-- `EVINCNT`, the name of register 214, is read as register 213 by the emulator and the library. -/
theorem register_names_differ :
    (¬ ∀ lorg name, SameRegister lorg name) ∧ getRegisterName false 214 = some "EVINCNT".toList ∧
    asmRegister "EVINCNT".toList = some 214 ∧ emuRegister "EVINCNT".toList = some 213 ∧
    libRegister .none "EVINCNT".toList = some (some 213) := by
  have hasm : asmRegister "EVINCNT".toList = some 214 := by decide
  have hemu : emuRegister "EVINCNT".toList = some 213 := by decide
  refine ⟨?_, by decide, hasm, hemu, by decide⟩
  intro hall
  have hsame := (hall .none "EVINCNT".toList).1
  rw [hasm, hemu] at hsame
  exact absurd hsame (by decide)

end ReadBack

end HtDrivers.Mttn
