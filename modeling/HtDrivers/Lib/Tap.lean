import Mathlib.Data.List.Basic
import Mathlib.Tactic

/-! The test access port of IEEE 1149.1: its sixteen states, the words that are shifted through it, and the words
that its Update states take over. -/
namespace HtDrivers.Lib.Tap
set_option autoImplicit false

/-- The register that a scan goes through. -/
inductive Scan
  | instruction
  | data
deriving DecidableEq, Repr

inductive TapState
  | testLogicReset
  | runTestIdle
  | select (r : Scan)
  | capture (r : Scan)
  | shift (r : Scan)
  | exit1 (r : Scan)
  | pause (r : Scan)
  | exit2 (r : Scan)
  | update (r : Scan)
deriving DecidableEq, Repr

/-- One clock with TMS as given. -/
def TapState.next (tms : Bool) : TapState → TapState
  | testLogicReset => if tms then testLogicReset else runTestIdle
  | runTestIdle => if tms then select .data else runTestIdle
  | select .data => if tms then select .instruction else capture .data
  | select .instruction => if tms then testLogicReset else capture .instruction
  | capture r => if tms then exit1 r else shift r
  | shift r => if tms then exit1 r else shift r
  | exit1 r => if tms then update r else pause r
  | pause r => if tms then exit2 r else pause r
  | exit2 r => if tms then update r else shift r
  | update _ => if tms then select .data else runTestIdle

/-- TMS and what goes in and out on one clock. -/
structure Clock (β : Type) where
  tms : Bool
  bit : β

/-- The port with the word that was shifted since the last Capture, and the words at each Update. -/
structure Port (β : Type) where
  state : TapState
  words : Scan → List β
  updates : Scan → List (List β)

section Runs
variable {β : Type} {t : Port β} {r : Scan} {s : TapState} {b x y : β} {bits : List β} {cs ds : List (Clock β)}

def Port.shifted (t : Port β) (b : β) : Scan → List β :=
  match t.state with
  | .capture r => Function.update t.words r []
  | .shift r => Function.update t.words r (t.words r ++ [b])
  | _ => t.words

def Port.updated (state : TapState) (words : Scan → List β) (updates : Scan → List (List β)) : Scan → List (List β) :=
  match state with
  | .update r => Function.update updates r (updates r ++ [words r])
  | _ => updates

def Port.clock (t : Port β) (c : Clock β) : Port β :=
  let state := t.state.next c.tms
  ⟨state, t.shifted c.bit, Port.updated state (t.shifted c.bit) t.updates⟩

/-- TRST. -/
def Port.reset (t : Port β) : Port β := { t with state := .testLogicReset }

def Port.run (t : Port β) (cs : List (Clock β)) : Port β := cs.foldl Port.clock t

def hold (b : β) : Clock β := ⟨false, b⟩

def leave (b : β) : Clock β := ⟨true, b⟩

@[simp] theorem run_nil : t.run [] = t := rfl

@[simp] theorem run_cons (c : Clock β) : t.run (c :: cs) = (t.clock c).run cs := rfl

theorem run_append : t.run (cs ++ ds) = (t.run cs).run ds := List.foldl_append

/-! ## One scan -/

theorem run_shift (words : Scan → List β) (updates : Scan → List (List β)) (bits : List β) :
    (⟨.shift r, words, updates⟩ : Port β).run (bits.map hold) =
      ⟨.shift r, Function.update words r (words r ++ bits), updates⟩ := by
  induction bits generalizing words with
  | nil => rw [List.append_nil, Function.update_eq_self]; rfl
  | cons b bits ih =>
    have hclock : (⟨.shift r, words, updates⟩ : Port β).clock (hold b) =
        ⟨.shift r, Function.update words r (words r ++ [b]), updates⟩ := rfl
    rw [List.map_cons, run_cons, hclock, ih, Function.update_self, Function.update_idem, List.append_assoc]
    rfl

/-- The clocks that shift a word and leave the register with its last bit. -/
def shiftIn (bits : List β) (last : β) : List (Clock β) := bits.map hold ++ [leave last]

theorem run_shiftIn (words : Scan → List β) (updates : Scan → List (List β)) :
    (⟨.shift r, words, updates⟩ : Port β).run (shiftIn bits b) =
      ⟨.exit1 r, Function.update words r (words r ++ (bits ++ [b])), updates⟩ := by
  rw [shiftIn, run_append, run_shift]
  have hclock : ∀ words : Scan → List β, (⟨.shift r, words, updates⟩ : Port β).run [leave b] =
      ⟨.exit1 r, Function.update words r (words r ++ [b]), updates⟩ := fun _ => rfl
  rw [hclock, Function.update_self, Function.update_idem, List.append_assoc]

/-- A scan from Select to Shift. -/
theorem run_capture (words : Scan → List β) (updates : Scan → List (List β)) :
    (⟨.select r, words, updates⟩ : Port β).run [hold x, hold y] = ⟨.shift r, Function.update words r [], updates⟩ := by
  cases r <;> rfl

/-- A scan from Select to Update takes over exactly what was shifted. -/
theorem run_scan (words : Scan → List β) (updates : Scan → List (List β)) (z : β) :
    (⟨.select r, words, updates⟩ : Port β).run ([hold x, hold y] ++ shiftIn bits b ++ [leave z]) =
      ⟨.update r, Function.update words r (bits ++ [b]), Function.update updates r (updates r ++ [bits ++ [b]])⟩ := by
  rw [run_append, run_append, run_capture, run_shiftIn, Function.update_self, Function.update_idem, List.nil_append]
  have hclock : ∀ words : Scan → List β, (⟨.exit1 r, words, updates⟩ : Port β).run [leave z] =
      ⟨.update r, words, Function.update updates r (updates r ++ [words r])⟩ := fun _ => rfl
  rw [hclock, Function.update_self]

/-! ## How much can have been shifted -/

def stateAfter (s : TapState) (cs : List (Clock β)) : TapState := cs.foldl (fun s c => s.next c.tms) s

/-- The clocks taken in Shift. -/
def shifts (r : Scan) : TapState → List (Clock β) → ℕ
  | _, [] => 0
  | s, c :: cs => (if s = .shift r then 1 else 0) + shifts r (s.next c.tms) cs

theorem shifts_cons_of_ne {c : Clock β} (h : s ≠ .shift r) : shifts r s (c :: cs) = shifts r (s.next c.tms) cs := by
  rw [shifts, if_neg h, Nat.zero_add]

theorem shifts_append : shifts r s (cs ++ ds) = shifts r s cs + shifts r (stateAfter s cs) ds := by
  induction cs generalizing s with
  | nil => exact (Nat.zero_add _).symm
  | cons c cs ih =>
    rw [List.cons_append, shifts, shifts, ih, Nat.add_assoc]
    rfl

theorem shifts_le_length : shifts r s cs ≤ cs.length := by
  induction cs generalizing s with
  | nil => exact Nat.le_refl 0
  | cons c cs ih =>
    have hrest := ih (s := s.next c.tms)
    rw [shifts, List.length_cons]
    split <;> omega

/-- TMS leads to no Shift. -/
theorem next_true_ne_shift : s.next true ≠ .shift r := by
  cases s with
  | select r' => cases r' <;> simp [TapState.next]
  | _ => simp [TapState.next]

theorem stateAfter_leave : stateAfter s (cs ++ [leave b]) ≠ .shift r := by
  rw [stateAfter, List.foldl_append]
  exact next_true_ne_shift

/-- From outside of Shift a word whose last bit comes with TMS is shifted but for one bit at most. -/
theorem shifts_leaving (hs : s ≠ .shift r) : shifts r s (cs ++ [leave b] ++ [leave x, hold y]) ≤ cs.length := by
  have htail : ∀ s : TapState, s ≠ .shift r → shifts r s [leave x, hold y] = 0 := by
    intro s hs
    have hnext : s.next (leave x).tms ≠ .shift r := next_true_ne_shift
    rw [shifts_cons_of_ne hs, shifts_cons_of_ne hnext]
    rfl
  rw [shifts_append, htail _ stateAfter_leave, Nat.add_zero]
  cases cs with
  | nil =>
    rw [List.nil_append, shifts_cons_of_ne hs]
    exact Nat.le_refl 0
  | cons c cs =>
    rw [List.cons_append, shifts_cons_of_ne hs]
    exact shifts_le_length.trans (by simp)

theorem shifted_length (t : Port β) (b : β) :
    (t.shifted b r).length ≤ (t.words r).length + if t.state = .shift r then 1 else 0 := by
  obtain ⟨s, words, updates⟩ := t
  cases s with
  | capture r' => by_cases h : r = r' <;> simp [Port.shifted, h]
  | shift r' =>
    by_cases h : r = r'
    · simp [Port.shifted, h]
    · have hne : ¬r' = r := fun h' => h h'.symm
      simp [Port.shifted, h, hne]
  | _ => simp [Port.shifted]

theorem updated_eq (words : Scan → List β) (updates : Scan → List (List β)) :
    Port.updated s words updates r = updates r ∨ Port.updated s words updates r = updates r ++ [words r] := by
  cases s with
  | update r' =>
    by_cases h : r = r'
    · subst h
      right
      simp [Port.updated]
    · left
      simp [Port.updated, h]
  | _ => exact .inl rfl

/-- No word of an Update is longer than what was in the register and the clocks in Shift together. -/
theorem run_updates_length (t : Port β) (cs : List (Clock β)) : ∃ added, (t.run cs).updates r = t.updates r ++ added ∧
    ∀ word ∈ added, word.length ≤ (t.words r).length + shifts r t.state cs := by
  induction cs generalizing t with
  | nil => exact ⟨[], by simp⟩
  | cons c cs ih =>
    obtain ⟨added, hrun, hadded⟩ := ih (t.clock c)
    have hword := shifted_length (r := r) t c.bit
    have hbound : ∀ word ∈ added, word.length ≤ (t.words r).length + shifts r t.state (c :: cs) := by
      intro word hmem
      have hrest : word.length ≤ (t.shifted c.bit r).length + shifts r (t.state.next c.tms) cs := hadded word hmem
      rw [shifts]
      omega
    rw [run_cons, hrun]
    obtain hkept | hnew := updated_eq (s := t.state.next c.tms) (r := r) (t.shifted c.bit) t.updates
    · exact ⟨added, congrArg (· ++ added) hkept, hbound⟩
    · refine ⟨t.shifted c.bit r :: added, ?_, ?_⟩
      · rw [show (t.clock c).updates r = t.updates r ++ [t.shifted c.bit r] from hnew, List.append_assoc]
        rfl
      · intro word hmem
        rw [List.mem_cons] at hmem
        obtain rfl | hmem := hmem
        · rw [shifts]
          omega
        · exact hbound word hmem

end Runs

end HtDrivers.Lib.Tap
