import Mathlib.Data.List.GetD
import Mathlib.Tactic

/-! Memories of bytes, and numbers as their bytes, the lowest one first. What is stored is loaded again, and other
places keep what they hold. -/
namespace HtDrivers.Lib.ByteMemory
set_option autoImplicit false

abbrev Byte := BitVec 8

abbrev Memory := ℕ → Byte

def store (m : Memory) (a : ℕ) (bs : List Byte) : Memory :=
  fun i => if a ≤ i ∧ i < a + bs.length then bs.getD (i - a) 0 else m i

def load (m : Memory) (a n : ℕ) : List Byte := (List.range n).map fun k => m (a + k)

/-- The `n` lowest bytes of a number. -/
def bytesOf : ℕ → ℕ → List Byte
  | 0, _ => []
  | n + 1, v => BitVec.ofNat 8 v :: bytesOf n (v / 256)

def valueOf : List Byte → ℕ
  | [] => 0
  | b :: bs => b.toNat + 256 * valueOf bs

section Memories
variable {m m' : Memory} {a a' n i : ℕ} {bs : List Byte}

@[simp] theorem load_length : (load m a n).length = n := by
  rw [load, List.length_map, List.length_range]

theorem store_outside (h : i < a ∨ a + bs.length ≤ i) : store m a bs i = m i := if_neg (by omega)

theorem load_congr (h : ∀ k < n, m (a + k) = m' (a + k)) : load m a n = load m' a n :=
  List.map_congr_left fun k hk => h k (List.mem_range.mp hk)

/-- What is stored is read back. -/
theorem load_store : load (store m a bs) a bs.length = bs := by
  refine List.ext_getElem load_length fun k hk hk' => ?_
  have hin : a ≤ a + k ∧ a + k < a + bs.length := ⟨Nat.le_add_right a k, Nat.add_lt_add_left hk' a⟩
  simp only [load, List.getElem_map, List.getElem_range]
  rw [store, if_pos hin, Nat.add_sub_cancel_left, List.getD_eq_getElem _ _ hk']

/-- Other places keep what they hold. -/
theorem load_store_apart (h : a' + n ≤ a ∨ a + bs.length ≤ a') : load (store m a bs) a' n = load m a' n :=
  load_congr fun k hk => store_outside (by omega)

/-- Nothing changes when a place is stored what it holds. -/
theorem store_load : store m a (load m a n) = m := by
  funext i
  rw [store, load_length]
  split
  · rename_i hin
    obtain ⟨k, rfl⟩ := Nat.exists_eq_add_of_le hin.1
    have hk : k < n := by omega
    rw [Nat.add_sub_cancel_left, List.getD_eq_getElem _ _ (by rwa [load_length])]
    simp only [load, List.getElem_map, List.getElem_range]
  · rfl

theorem store_eq_self : store m a bs = m ↔ load m a bs.length = bs := by
  constructor
  · intro heq
    have hback : load (store m a bs) a bs.length = bs := load_store
    rwa [heq] at hback
  · intro heq
    have hsame : store m a (load m a bs.length) = m := store_load
    rwa [heq] at hsame

/-- A part of what is copied from one memory to another. -/
theorem load_store_load {k : ℕ} (h : i + k ≤ n) : load (store m a (load m' a' n)) (a + i) k = load m' (a' + i) k := by
  refine List.map_congr_left fun j hj => ?_
  have hj := List.mem_range.mp hj
  have hin : a ≤ a + i + j ∧ a + i + j < a + (load m' a' n).length := by rw [load_length]; omega
  have hplace : a + i + j - a = i + j := by omega
  rw [store, if_pos hin, hplace, List.getD_eq_getElem _ _ (by rw [load_length]; omega)]
  simp only [load, List.getElem_map, List.getElem_range, Nat.add_assoc]

theorem load_add {k : ℕ} : load m a (n + k) = load m a n ++ load m (a + n) k := by
  rw [load, List.range_add, List.map_append, List.map_map]
  exact congrArg (load m a n ++ ·) (List.map_congr_left fun j _ => congrArg m (Nat.add_assoc a n j).symm)

theorem store_append {cs : List Byte} : store m a (bs ++ cs) = store (store m a bs) (a + bs.length) cs := by
  funext i
  simp only [store, List.length_append]
  by_cases hlow : i < a + bs.length
  · have hcs : ¬(a + bs.length ≤ i ∧ i < a + bs.length + cs.length) := by omega
    rw [if_neg hcs]
    by_cases hin : a ≤ i
    · rw [if_pos ⟨hin, by omega⟩, if_pos ⟨hin, hlow⟩, List.getD_append _ _ _ _ (by omega)]
    · rw [if_neg (by omega), if_neg (by omega)]
  · by_cases hin : i < a + bs.length + cs.length
    · have hplace : i - a - bs.length = i - (a + bs.length) := by omega
      rw [if_pos ⟨by omega, by omega⟩, if_pos ⟨by omega, hin⟩, List.getD_append_right _ _ _ _ (by omega), hplace]
    · rw [if_neg (by omega), if_neg (by omega), if_neg (by omega)]

theorem load_part {k l : ℕ} (h : k + l ≤ n) : ((load m a n).drop k).take l = load m (a + k) l := by
  have hsplit : load m a n = load m a k ++ (load m (a + k) l ++ load m (a + k + l) (n - k - l)) := by
    rw [← load_add, ← load_add]
    exact congrArg (load m a) (by omega)
  rw [hsplit, List.drop_left' load_length, List.take_left' load_length]

/-- Storing back what is there with some bytes replaced stores these bytes. -/
theorem store_splice {k : ℕ} (h : k + bs.length ≤ n) :
    store m a ((load m a n).take k ++ bs ++ (load m a n).drop (k + bs.length)) = store m (a + k) bs := by
  have hsplit : load m a n = load m a k ++
    (load m (a + k) bs.length ++ load m (a + (k + bs.length)) (n - (k + bs.length))) := by
    rw [← Nat.add_assoc, ← load_add, ← load_add]
    exact congrArg (load m a) (by omega)
  have htake : (load m a n).take k = load m a k := by
    rw [hsplit, List.take_left' load_length]
  have hdrop : (load m a n).drop (k + bs.length) = load m (a + (k + bs.length)) (n - (k + bs.length)) := by
    rw [hsplit, ← List.append_assoc, List.drop_left' (by simp)]
  have hplace : a + (load m a k ++ bs).length = a + (k + bs.length) := by simp
  have hafter : load m (a + (k + bs.length)) (n - (k + bs.length))
      = load (store m (a + k) bs) (a + (k + bs.length)) (n - (k + bs.length)) :=
    (load_store_apart (.inr (by omega))).symm
  rw [htake, hdrop, store_append, hplace, store_append, store_load, load_length, hafter, store_load]

/-- Where only the first `n` bytes are stored, the others have to be there already. -/
theorem load_store_take (hn : n ≤ bs.length) :
    load (store m a (bs.take n)) a bs.length = bs ↔ load m (a + n) (bs.length - n) = bs.drop n := by
  have hlength : (bs.take n).length = n := by rw [List.length_take, Nat.min_eq_left hn]
  have hfirst : load (store m a (bs.take n)) a n = bs.take n := by
    have hstored : load (store m a (bs.take n)) a (bs.take n).length = bs.take n := load_store
    rwa [hlength] at hstored
  have hrest : load (store m a (bs.take n)) (a + n) (bs.length - n) = load m (a + n) (bs.length - n) :=
    load_store_apart (.inr (by omega))
  have hsplit : load (store m a (bs.take n)) a bs.length = bs.take n ++ load m (a + n) (bs.length - n) := by
    rw [← hfirst, ← hrest, ← load_add, Nat.add_sub_cancel' hn]
    rw [hfirst]
  rw [hsplit]
  constructor
  · intro heq
    have hboth : bs.take n ++ load m (a + n) (bs.length - n) = bs.take n ++ bs.drop n := by
      rw [heq, List.take_append_drop]
    exact List.append_cancel_left hboth
  · intro heq
    rw [heq, List.take_append_drop]

end Memories

section Numbers
variable {n v : ℕ} {bs : List Byte}

@[simp] theorem bytesOf_length : (bytesOf n v).length = n := by
  induction n generalizing v with
  | zero => rfl
  | succ n ih => rw [bytesOf, List.length_cons, ih]

theorem valueOf_bytesOf : valueOf (bytesOf n v) = v % 256 ^ n := by
  induction n generalizing v with
  | zero => rw [pow_zero, Nat.mod_one]; rfl
  | succ n ih =>
    have hbyte : (BitVec.ofNat 8 v).toNat = v % 256 := BitVec.toNat_ofNat _ _
    rw [bytesOf, valueOf, ih, hbyte, pow_succ', Nat.mod_mul]

theorem valueOf_lt : valueOf bs < 256 ^ bs.length := by
  induction bs with
  | nil => exact Nat.one_pos
  | cons b bs ih =>
    have hb := b.isLt
    rw [valueOf, List.length_cons, pow_succ']
    omega

theorem bytesOf_valueOf : bytesOf bs.length (valueOf bs) = bs := by
  induction bs with
  | nil => rfl
  | cons b bs ih =>
    have hb : b.toNat < 256 := b.isLt
    have hdiv : (b.toNat + 256 * valueOf bs) / 256 = valueOf bs := by omega
    have hbyte : BitVec.ofNat 8 (b.toNat + 256 * valueOf bs) = b := by
      apply BitVec.eq_of_toNat_eq
      rw [BitVec.toNat_ofNat]
      omega
    rw [valueOf, List.length_cons, bytesOf, hdiv, hbyte, ih]

end Numbers
end HtDrivers.Lib.ByteMemory
