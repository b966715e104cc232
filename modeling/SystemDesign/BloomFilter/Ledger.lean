/-
  BloomFilter/Ledger.lean --- what a filter is for.

  A Bloom filter stands for a set, the items added so far, and answers a
  membership query with "possibly present" or "definitely absent".  The ledger
  is that set, kept as the bytes of the added items in order of addition, with
  the bit array and the membership answer it determines written out from it:
  bit `j` is set iff `j` is a slot of some added item, and an item may be
  present iff all of its slots are set.

  The ledger is the abstract side of the development.  Its guarantees are
  proved here once: an added item is always reported (no false negatives), the
  bits depend only on the set of keys, and the number of set bits is bounded by
  the number of keys.  `BloomFilter.Refinement` shows that the faithful
  `add` and `contains` compute exactly these bits and answers.
-/
import SystemDesign.BloomFilter.DoubleHashing

set_option autoImplicit false

namespace SystemDesign.BloomFilter

open SystemDesign.Python

/-- The parameters of a filter and the bytes of the items added to it, oldest
first, repeats kept.  Both parameters are positive, as the constructor
ensures. -/
structure Ledger where
  size : Nat
  hashCount : Nat
  keys : List Bytes
  size_pos : 0 < size
  hashCount_pos : 0 < hashCount

namespace Ledger

variable {α : Type} (H : Hashing α) (L : Ledger)

/-- The bits an item with bytes `b` marks. -/
def slots (b : Bytes) : List Nat :=
  (List.range L.hashCount).map (slot (H.h1 b) (H.h2 b) L.size)

/-- Bit `j` is marked by some added item. -/
def Covered (j : Nat) : Prop := ∃ b ∈ L.keys, j ∈ L.slots H b

instance (j : Nat) : Decidable (L.Covered H j) :=
  inferInstanceAs (Decidable (∃ b ∈ L.keys, j ∈ L.slots H b))

/-- The bit array the ledger determines. -/
def bits : List Bool := (List.range L.size).map fun j => decide (L.Covered H j)

/-- The answer to a query for the item with bytes `b`: all its bits are set. -/
def mayContain (b : Bytes) : Bool := (L.slots H b).all fun j => decide (L.Covered H j)

/-- The ledger after adding the items with bytes `bs`. -/
def insertAll (bs : List Bytes) : Ledger := { L with keys := L.keys ++ bs }

/-- The ledger of a new filter. -/
def empty (size hashCount : Nat) (hs : 0 < size) (hk : 0 < hashCount) : Ledger :=
  ⟨size, hashCount, [], hs, hk⟩

variable {H L}

@[simp] theorem insertAll_keys (bs : List Bytes) : (L.insertAll bs).keys = L.keys ++ bs := rfl
@[simp] theorem insertAll_size (bs : List Bytes) : (L.insertAll bs).size = L.size := rfl
@[simp] theorem insertAll_hashCount (bs : List Bytes) :
    (L.insertAll bs).hashCount = L.hashCount := rfl

@[simp] theorem insertAll_nil : L.insertAll [] = L := by simp [insertAll]

theorem insertAll_append (bs cs : List Bytes) :
    L.insertAll (bs ++ cs) = (L.insertAll bs).insertAll cs := by
  simp [insertAll, List.append_assoc]

@[simp] theorem length_slots (b : Bytes) : (L.slots H b).length = L.hashCount := by
  simp [slots]

theorem lt_size_of_mem_slots {b : Bytes} {j : Nat} (h : j ∈ L.slots H b) : j < L.size := by
  simp only [slots, List.mem_map] at h
  obtain ⟨i, -, rfl⟩ := h
  exact Nat.mod_lt _ L.size_pos

/-- Slot `0` of an item, which every item has. -/
theorem slot_zero_mem_slots (b : Bytes) : H.h1 b % L.size ∈ L.slots H b :=
  List.mem_map.2 ⟨0, List.mem_range.2 L.hashCount_pos, by simp [slot]⟩

theorem lt_size_of_covered {j : Nat} (h : L.Covered H j) : j < L.size := by
  obtain ⟨b, -, hj⟩ := h
  exact lt_size_of_mem_slots hj

@[simp] theorem covered_insertAll {bs : List Bytes} {j : Nat} :
    (L.insertAll bs).Covered H j ↔ L.Covered H j ∨ ∃ b ∈ bs, j ∈ L.slots H b := by
  simp only [Covered, insertAll_keys, List.mem_append, slots, insertAll_size,
    insertAll_hashCount]
  constructor
  · rintro ⟨b, hb | hb, hj⟩
    · exact .inl ⟨b, hb, hj⟩
    · exact .inr ⟨b, hb, hj⟩
  · rintro (⟨b, hb, hj⟩ | ⟨b, hb, hj⟩)
    · exact ⟨b, .inl hb, hj⟩
    · exact ⟨b, .inr hb, hj⟩

@[simp] theorem length_bits : (L.bits H).length = L.size := by simp [bits]

theorem getElem?_bits (j : Nat) :
    (L.bits H)[j]? = if j < L.size then some (decide (L.Covered H j)) else none := by
  by_cases hj : j < L.size
  · simp [bits, hj, List.getElem?_range]
  · simp [bits, hj, Nat.le_of_not_lt hj]

/-- A set bit is exactly a covered one. -/
theorem getElem?_bits_eq_some_true (j : Nat) :
    (L.bits H)[j]? = some true ↔ L.Covered H j := by
  rw [getElem?_bits]
  by_cases hj : j < L.size
  · simp [hj]
  · simp only [hj, if_false, reduceCtorEq, false_iff]
    exact fun h => hj (lt_size_of_covered h)

theorem getElem?_getD_bits (j : Nat) : ((L.bits H)[j]?).getD false = decide (L.Covered H j) := by
  rw [getElem?_bits]
  by_cases hj : j < L.size
  · simp [hj]
  · simp only [hj, if_false, Option.getD_none]
    exact (decide_eq_false fun h => hj (lt_size_of_covered h)).symm

theorem mayContain_iff (b : Bytes) :
    L.mayContain H b = true ↔ ∀ j ∈ L.slots H b, L.Covered H j := by
  simp [mayContain]

/-- No false negatives: every added item is reported. -/
theorem mayContain_of_mem {b : Bytes} (hb : b ∈ L.keys) : L.mayContain H b = true :=
  (mayContain_iff b).2 fun _ hj => ⟨b, hb, hj⟩

@[simp] theorem slots_insertAll (bs : List Bytes) (b : Bytes) :
    (L.insertAll bs).slots H b = L.slots H b := rfl

/-- Adding keys never withdraws the answer "possibly present". -/
theorem mayContain_insertAll {b : Bytes} (h : L.mayContain H b = true) (bs : List Bytes) :
    (L.insertAll bs).mayContain H b = true := by
  rw [mayContain_iff, slots_insertAll]
  exact fun j hj => covered_insertAll.2 (.inl ((mayContain_iff b).1 h j hj))

/-- Adding a key whose slots are all covered leaves the bits as they were. -/
theorem bits_insertAll_of_mayContain {b : Bytes} (h : L.mayContain H b = true) :
    (L.insertAll [b]).bits H = L.bits H := by
  have hcov : ∀ j, (L.insertAll [b]).Covered H j ↔ L.Covered H j := fun j => by
    rw [covered_insertAll, or_iff_left_of_imp]
    rintro ⟨b', hb', hj⟩
    exact (mayContain_iff b).1 h j (List.mem_singleton.1 hb' ▸ hj)
  simp only [bits, insertAll_size, hcov]

/-- A filter with nothing added reports every item absent. -/
theorem mayContain_of_keys_eq_nil (h : L.keys = []) (b : Bytes) : L.mayContain H b = false := by
  rw [← Bool.not_eq_true, mayContain_iff]
  intro hall
  obtain ⟨_, hb, -⟩ := hall _ (slot_zero_mem_slots b)
  simp [h] at hb

/-- The bits depend only on the parameters and the set of keys: neither the
order of the adds nor their repeats matter. -/
theorem bits_eq_of_keys_equiv {L' : Ledger} (hs : L.size = L'.size)
    (hk : L.hashCount = L'.hashCount) (hkeys : ∀ b, b ∈ L.keys ↔ b ∈ L'.keys) :
    L.bits H = L'.bits H := by
  have hcov : ∀ j, L.Covered H j ↔ L'.Covered H j := by
    intro j
    simp only [Covered, slots, hkeys, hs, hk]
  simp only [bits, hs, hcov]

/-! ## Counting set bits -/

theorem count_bits :
    (L.bits H).count true = (List.range L.size).countP fun j => decide (L.Covered H j) := by
  simp [bits, List.count_eq_countP, List.countP_map, Function.comp_def]

theorem count_bits_le_size : (L.bits H).count true ≤ L.size :=
  (List.count_le_length _ _).trans_eq length_bits

/-- Every added item marks at most `hash_count` bits. -/
theorem count_bits_le_mul : (L.bits H).count true ≤ L.hashCount * L.keys.length := by
  rw [count_bits, List.countP_eq_length_filter]
  have hsub : (List.range L.size).filter (fun j => decide (L.Covered H j)) ⊆
      L.keys.flatMap (L.slots H) := by
    intro j hj
    obtain ⟨b, hb, hjb⟩ := of_decide_eq_true (List.mem_filter.1 hj).2
    exact List.mem_flatMap.2 ⟨b, hb, hjb⟩
  calc _ ≤ (L.keys.flatMap (L.slots H)).length :=
        (((List.nodup_range _).filter _).subperm hsub).length_le
    _ = L.hashCount * L.keys.length := by
        simp [List.flatMap, Function.comp_def, Nat.mul_comm]

/-- A filter with an added item has a set bit. -/
theorem one_le_count_bits (h : L.keys ≠ []) : 1 ≤ (L.bits H).count true := by
  obtain ⟨b, hb⟩ := List.exists_mem_of_ne_nil _ h
  rw [count_bits, Nat.one_le_iff_ne_zero, ← Nat.pos_iff_ne_zero, List.countP_pos_iff]
  exact ⟨_, List.mem_range.2 (lt_size_of_mem_slots (slot_zero_mem_slots b)),
    decide_eq_true ⟨b, hb, slot_zero_mem_slots b⟩⟩

theorem count_bits_eq_zero_iff : (L.bits H).count true = 0 ↔ L.keys = [] := by
  constructor
  · intro h
    by_contra hne
    have : 1 ≤ (L.bits H).count true := one_le_count_bits hne
    omega
  · intro h
    rw [count_bits, List.countP_eq_zero]
    simp [Covered, h]

/-- At least one bit is set once an item is added, and at most one per bit and
one per slot of an added item. -/
theorem count_bits_bounds :
    min 1 L.keys.length ≤ (L.bits H).count true ∧
      (L.bits H).count true ≤ min L.size (L.hashCount * L.keys.length) := by
  refine ⟨?_, le_min count_bits_le_size count_bits_le_mul⟩
  by_cases h : L.keys = []
  · simp [h]
  · exact (Nat.min_le_left _ _).trans (one_le_count_bits h)

/-- Adding items never clears a bit, so never lowers the count. -/
theorem count_bits_le_insertAll (bs : List Bytes) :
    (L.bits H).count true ≤ ((L.insertAll bs).bits H).count true := by
  rw [count_bits, count_bits, insertAll_size]
  exact List.countP_mono_left fun j _ h => by simp_all

end Ledger

end SystemDesign.BloomFilter
