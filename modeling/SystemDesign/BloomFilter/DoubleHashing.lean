/-
  BloomFilter/DoubleHashing.lean --- when two positions of one item coincide.

  `_get_hash_values` derives position `i` as `(h1 + i * h2) % size`.  As `i`
  runs on, the positions repeat with the period `size / gcd(h2 % size, size)`:
  positions `i` and `j` coincide exactly when the period divides `i - j`.  An
  item therefore marks `min(hash_count, period)` distinct bits, all
  `hash_count` of them only when the period is at least `hash_count`, and a
  single bit when `h2` is a multiple of `size` or `size = 1`.

  Nothing here depends on the digests: `h1` and `h2` are arbitrary naturals.
-/
import SystemDesign.BloomFilter.Filter

set_option autoImplicit false

namespace SystemDesign.BloomFilter

/-- Position `i` of an item with digests `h1`, `h2` in a filter of `m` bits. -/
def slot (h1 h2 m i : Nat) : Nat := (h1 + i * h2) % m

/-- The period of the positions: `m / gcd(h2 % m, m)`. -/
def period (h2 m : Nat) : Nat := m / Nat.gcd (h2 % m) m

variable {h1 h2 m k : Nat}

theorem hashValues_eq_slots (h1 h2 m k : Nat) :
    hashValues h1 h2 m k = (List.range k).map fun i => (slot h1 h2 m i : Int) :=
  hashValues_natCast h1 h2 m k

theorem getElem?_hashValues {i : Nat} (hi : i < k) :
    (hashValues h1 h2 m k)[i]? = some (slot h1 h2 m i : Int) := by
  simp [hashValues_eq_slots, List.getElem?_range hi]

/-- Only the digests modulo `size` matter: the positions are the same with
`h1 % size` and `h2 % size` in place of the 128- and 256-bit digests. -/
theorem hashValues_mod_digests (h1 h2 m k : Nat) :
    hashValues h1 h2 m k = hashValues (h1 % m) (h2 % m) m k := by
  rw [hashValues_eq_slots, hashValues_eq_slots]
  exact List.map_congr_left fun i _ =>
    congrArg Nat.cast ((Nat.mod_modEq h1 m).add ((Nat.mod_modEq h2 m).mul_left i)).symm

theorem period_eq (h2 m : Nat) : period h2 m = m / Nat.gcd m h2 := by
  rw [period, ← Nat.gcd_rec]

theorem period_pos (hm : 0 < m) : 0 < period h2 m := by
  rw [period_eq]
  exact Nat.div_pos (Nat.gcd_le_left _ hm) (Nat.gcd_pos_of_pos_left _ hm)

/-- Positions `i` and `j` coincide exactly when `i ≡ j` modulo the period. -/
theorem slot_eq_iff (hm : 0 < m) (i j : Nat) :
    slot h1 h2 m i = slot h1 h2 m j ↔ i ≡ j [MOD period h2 m] := by
  rw [period_eq]
  constructor
  · intro h
    exact (Nat.ModEq.add_left_cancel' h1 h).cancel_right_div_gcd hm
  · intro h
    have hdvd : m ∣ m / Nat.gcd m h2 * h2 := by
      have := Nat.mul_dvd_mul_left (m / Nat.gcd m h2) (Nat.gcd_dvd_right m h2)
      rwa [Nat.div_mul_cancel (Nat.gcd_dvd_left m h2)] at this
    exact ((h.mul_right' h2).of_dvd hdvd).add_left h1

/-- Two indices below the period give different positions. -/
theorem slot_injOn (hm : 0 < m) {i j : Nat} (hi : i < period h2 m) (hj : j < period h2 m)
    (h : slot h1 h2 m i = slot h1 h2 m j) : i = j :=
  ((slot_eq_iff hm i j).1 h).eq_of_lt_of_lt hi hj

/-- The positions are those of the first `min k period` indices. -/
theorem toFinset_hashValues (hm : 0 < m) :
    (hashValues h1 h2 m k).toFinset =
      (Finset.range (min k (period h2 m))).image fun i => (slot h1 h2 m i : Int) := by
  have hT : 0 < period h2 m := period_pos hm
  ext p
  simp only [hashValues_eq_slots, List.mem_toFinset, List.mem_map, List.mem_range,
    Finset.mem_image, Finset.mem_range, lt_min_iff]
  constructor
  · rintro ⟨i, hi, rfl⟩
    refine ⟨i % period h2 m,
      ⟨by have := Nat.mod_le i (period h2 m); omega, Nat.mod_lt _ hT⟩, ?_⟩
    rw [(slot_eq_iff hm _ _).2 (Nat.mod_modEq i _)]
  · rintro ⟨i, ⟨hi, -⟩, rfl⟩
    exact ⟨i, hi, rfl⟩

theorem period_eq_one (hm : 0 < m) (h : m = 1 ∨ h2 % m = 0) : period h2 m = 1 := by
  rcases h with rfl | h
  · simp [period]
  · simp [period, h, Nat.div_self hm]

/-- Positions `i` and `j` (`i, j < hash_count`) coincide iff the period divides
`i - j`; the item marks `min(hash_count, period)` distinct bits; they are all
distinct iff `hash_count ≤ period`; and with `size = 1` or `h2 ≡ 0 (mod size)`
every position is `h1 % size`. -/
theorem hashValues_coincide_iff_period_dvd (h1 h2 m k : Nat) (hm : 0 < m) :
    (∀ i j, i < k → j < k →
      ((hashValues h1 h2 m k)[i]? = (hashValues h1 h2 m k)[j]? ↔
        (period h2 m : Int) ∣ (i : Int) - j)) ∧
    (hashValues h1 h2 m k).toFinset.card = min k (period h2 m) ∧
    ((hashValues h1 h2 m k).Nodup ↔ k ≤ period h2 m) ∧
    (m = 1 ∨ h2 % m = 0 → ∀ p ∈ hashValues h1 h2 m k, p = ((h1 % m : Nat) : Int)) := by
  have hT : 0 < period h2 m := period_pos hm
  refine ⟨fun i j hi hj => ?_, ?_, ?_, fun hdeg p hp => ?_⟩
  · rw [getElem?_hashValues hi, getElem?_hashValues hj, Option.some_inj, Int.ofNat_inj,
      slot_eq_iff hm, Nat.ModEq.comm, Nat.modEq_iff_dvd]
  · rw [toFinset_hashValues hm, Finset.card_image_of_injOn, Finset.card_range]
    intro i hi j hj h
    simp only [Finset.coe_range, Set.mem_Iio, lt_min_iff] at hi hj
    exact slot_injOn hm hi.2 hj.2 (Int.ofNat_inj.1 h)
  · rw [hashValues_eq_slots, List.nodup_map_iff_inj_on (List.nodup_range k)]
    simp only [List.mem_range, Int.ofNat_inj, slot_eq_iff hm]
    exact ⟨fun h => not_lt.1 fun hk => hT.ne (h 0 (by omega) _ hk (by simp [Nat.ModEq])),
      fun hk i hi j hj hij => hij.eq_of_lt_of_lt (by omega) (by omega)⟩
  · rw [hashValues_eq_slots, List.mem_map] at hp
    obtain ⟨i, -, rfl⟩ := hp
    rw [(slot_eq_iff hm i 0).2 (by rw [period_eq_one hm hdeg]; exact Nat.modEq_one)]
    simp [slot]

/-- Double hashing with `h2 = 4` in ten bits repeats every five positions. -/
theorem hashValues_period_five :
    (∀ i j : Nat, i < 7 → j < 7 →
      ((hashValues 3 4 (10 : Nat) (7 : Nat))[i]? = (hashValues 3 4 (10 : Nat) (7 : Nat))[j]? ↔
        (period 4 10 : Int) ∣ (i : Int) - j)) ∧
    (hashValues 3 4 (10 : Nat) (7 : Nat)).toFinset.card = min 7 (period 4 10) ∧
    ((hashValues 3 4 (10 : Nat) (7 : Nat)).Nodup ↔ 7 ≤ period 4 10) ∧
    ((10 : Nat) = 1 ∨ 4 % 10 = 0 →
      ∀ p ∈ hashValues 3 4 (10 : Nat) (7 : Nat), p = ((3 % 10 : Nat) : Int)) :=
  hashValues_coincide_iff_period_dvd 3 4 10 7 (by decide)

example : hashValues 3 4 10 7 = [3, 7, 1, 5, 9, 3, 7] ∧ period 4 10 = 5 := by decide

end SystemDesign.BloomFilter
