import Mathlib.Data.List.Basic
import Mathlib.Tactic

/-! Allocated blocks whose accesses are checked: `none` where an access leaves the block. -/
namespace HtDrivers.Lib.Block
set_option autoImplicit false

variable {α : Type}

def put (block : List α) (i : ℕ) (part : List α) : Option (List α) :=
  if i + part.length ≤ block.length then some (block.take i ++ (part ++ block.drop (i + part.length))) else none

def get (block : List α) (i n : ℕ) : Option (List α) :=
  if i + n ≤ block.length then some ((block.drop i).take n) else none

variable {block before part part' behind : List α} {i n : ℕ}

theorem put_outside (h : block.length < i + part.length) : put block i part = none := if_neg (by omega)

theorem get_outside (h : block.length < i + n) : get block i n = none := if_neg (by omega)

/-- An access inside is one to a part of the block. -/
theorem put_part (hi : i = before.length) (hlength : part'.length = part.length) :
    put (before ++ (part ++ behind)) i part' = some (before ++ (part' ++ behind)) := by
  have hinside : i + part'.length ≤ (before ++ (part ++ behind)).length := by
    simp only [List.length_append]
    omega
  have htake : (before ++ (part ++ behind)).take i = before := List.take_left' hi.symm
  have hdrop : (before ++ (part ++ behind)).drop (i + part'.length) = behind := by
    rw [← List.append_assoc]
    apply List.drop_left'
    rw [List.length_append]
    omega
  rw [put, if_pos hinside, htake, hdrop]

theorem get_part (hi : i = before.length) (hn : n = part.length) :
    get (before ++ (part ++ behind)) i n = some part := by
  have hinside : i + n ≤ (before ++ (part ++ behind)).length := by
    simp only [List.length_append]
    omega
  rw [get, if_pos hinside, List.drop_left' hi.symm, List.take_left' hn.symm]

/-- A whole block. -/
theorem put_all (hlength : part'.length = part.length) : put part 0 part' = some part' := by
  have hput : put ([] ++ (part ++ [])) 0 part' = some ([] ++ (part' ++ [])) := put_part rfl hlength
  simpa using hput

theorem get_front (hn : n = part.length) : get (part ++ behind) 0 n = some part := by
  have hget : get ([] ++ (part ++ behind)) 0 n = some part := get_part rfl hn
  simpa using hget

theorem get_all (hn : n = part.length) : get part 0 n = some part := by
  have hget : get (part ++ []) 0 n = some part := get_front hn
  rwa [List.append_nil] at hget

end HtDrivers.Lib.Block
