import HtDrivers.Sis33.Descriptors

/-! # The time stamps of the sis3302 (`sis3320.c`)

The cache of time stamps as `sis3302_pt_cache_fill` and `sis3302_pt_cache_normalize` leave it, for any raw directory.
-/
namespace HtDrivers.Sis33
set_option autoImplicit false

/-- The words of a raw directory of `n` time stamps, two for each, the upper word first. -/
def stampWords (raw : List (BitVec 32)) (n : ℕ) : List (BitVec 32 × BitVec 32) :=
  (List.range n).map fun i => (raw.getD (i * 2) 0, raw.getD (i * 2 + 1) 0)

/-- The 48 bits of time stamp `i`. -/
def timeStamp (raw : List (BitVec 32)) (i : ℕ) : ℕ :=
  (raw.getD (i * 2) 0).toNat % 2 ^ 16 * 2 ^ 32 + (raw.getD (i * 2 + 1) 0).toNat

/-- Every entry is the time stamp relative to the first one, in words of 64 bits. -/
structure RelativeStamps (raw : List (BitVec 32)) (n : ℕ) (ptCache : List ℕ) : Prop where
  length : ptCache.length = n
  entry : ∀ i < n, (ptCache.getD i 0 : ℤ) ≡ timeStamp raw i - timeStamp raw 0 [ZMOD 2 ^ 64]
  first : ptCache.getD 0 0 = 0
  pair : ∀ i, i + 1 < n → (ptCache.getD (i + 1) 0 - ptCache.getD i 0 : ℤ) ≡
    timeStamp raw (i + 1) - timeStamp raw i [ZMOD 2 ^ 64]

variable {raw : List (BitVec 32)} {n i stamp : ℕ} {rest : List ℕ}

theorem timeStamp_lt (raw : List (BitVec 32)) (i : ℕ) : timeStamp raw i < 2 ^ 48 := by
  have hupper : (raw.getD (i * 2) 0).toNat % 2 ^ 16 < 2 ^ 16 := Nat.mod_lt _ (Nat.two_pow_pos 16)
  have hlower : (raw.getD (i * 2 + 1) 0).toNat < 2 ^ 32 := BitVec.isLt _
  unfold timeStamp
  omega

theorem ptCacheFill_eq : ptCacheFill (stampWords raw n) n = (List.range n).map (timeStamp raw) := by
  have hlength : (stampWords raw n).length = n := by simp [stampWords]
  have hmask : ∀ w : BitVec 32, (w &&& 0xffff).toNat = w.toNat % 2 ^ 16 := by
    intro w
    rw [BitVec.toNat_and]
    exact Nat.and_two_pow_sub_one_eq_mod _ 16
  unfold ptCacheFill
  rw [List.take_of_length_le hlength.le, stampWords, List.map_map]
  refine List.map_congr_left ?_
  intro i _
  simp only [Function.comp_apply, hmask, timeStamp]

theorem ptCacheNormalize_cons (hrest : ∀ x ∈ rest, x < 2 ^ 64) : ptCacheNormalize (stamp :: rest) = 0 :: rest := by
  have hfirst : (stamp + 2 ^ 64 - stamp) % 2 ^ 64 = 0 := by
    rw [Nat.add_sub_cancel_left, Nat.mod_self]
  unfold ptCacheNormalize
  rw [List.length_cons, List.range_succ_eq_map, List.foldl_cons, List.foldl_map]
  simp only [List.getD_cons_zero, List.set_cons_zero, hfirst]
  apply List.foldl_fixed'
  intro i
  simp only [List.getD_cons_succ, List.getD_cons_zero, List.set_cons_succ, Nat.sub_zero, Nat.add_mod_right]
  congr 1
  by_cases hi : i < rest.length
  · rw [List.getD_eq_getElem _ _ hi, Nat.mod_eq_of_lt (hrest _ (List.getElem_mem hi)), List.set_getElem_self]
  · exact List.set_eq_of_length_le (not_lt.mp hi)

theorem ptCache_eq (raw : List (BitVec 32)) (n : ℕ) : ptCacheNormalize (ptCacheFill (stampWords raw (n + 1)) (n + 1)) =
    0 :: (List.range n).map fun i => timeStamp raw (i + 1) := by
  rw [ptCacheFill_eq, List.range_succ_eq_map, List.map_cons, List.map_map]
  apply ptCacheNormalize_cons
  intro x hx
  obtain ⟨i, -, rfl⟩ := List.mem_map.mp hx
  exact (timeStamp_lt raw _).trans (by decide)

/-- The entries are relative to the first time stamp where there is one entry, or where that time stamp is zero. -/
theorem ptCache_relative_iff (raw : List (BitVec 32)) (n : ℕ) (hn : 1 ≤ n) :
    RelativeStamps raw n (ptCacheNormalize (ptCacheFill (stampWords raw n) n)) ↔ n = 1 ∨ timeStamp raw 0 = 0 := by
  obtain ⟨n, rfl⟩ := Nat.exists_eq_add_of_le' hn
  rw [ptCache_eq]
  have hlater : ∀ i < n, (0 :: (List.range n).map fun i => timeStamp raw (i + 1)).getD (i + 1) 0 =
      timeStamp raw (i + 1) := by
    intro i hi
    rw [List.getD_cons_succ, List.getD_eq_getElem _ _ (by simpa using hi), List.getElem_map, List.getElem_range]
  constructor
  · intro h
    by_cases hone : n = 0
    · exact .inl (by rw [hone])
    · right
      have hmod := h.entry (0 + 1) (by omega)
      rw [hlater 0 (by omega)] at hmod
      have hdvd := hmod.dvd
      have hlt := timeStamp_lt raw 0
      omega
  · intro h
    refine ⟨by simp, ?_, rfl, ?_⟩
    · intro i hi
      cases i with
      | zero => simp
      | succ i =>
        have hzero : timeStamp raw 0 = 0 := by omega
        rw [hlater i (by omega), hzero, Nat.cast_zero, sub_zero]
    · intro i hi
      have hzero : timeStamp raw 0 = 0 := by omega
      rw [hlater i (by omega)]
      cases i with
      | zero => simp [hzero]
      | succ i => rw [hlater i (by omega)]

/-- Two events, the first at 0 ticks and the second at 8. -/
theorem ptCache_relative_two :
    RelativeStamps [0, 0, 0, 8] 2 (ptCacheNormalize (ptCacheFill (stampWords [0, 0, 0, 8] 2) 2)) :=
  (ptCache_relative_iff [0, 0, 0, 8] 2 (by decide)).mpr (.inr rfl)

theorem not_ptCache_relative : ¬∀ (raw : List (BitVec 32)) (n : ℕ), 1 ≤ n → raw.length = 2 * n →
    RelativeStamps raw n (ptCacheNormalize (ptCacheFill (stampWords raw n) n)) := by
  intro h
  have hmod := (h [0, 5, 0, 8] 2 (by decide) rfl).entry 1 (by decide)
  revert hmod
  decide

end HtDrivers.Sis33
