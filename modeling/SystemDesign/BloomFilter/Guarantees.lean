/-
  BloomFilter/Guarantees.lean --- what every run of the class guarantees.

  Each theorem is about the faithful methods of `BloomFilter.Filter`, over
  every run from the constructor (or every reachable instance), any item type,
  any `str()` and any pair of digests.  Each is read off the simulation of
  `BloomFilter.Refinement`:

      run_bitArray_iff_added_position   the bits are exactly the positions of
                                        the added items; no false negatives
      reachable_positions_in_range      the parameters never change, and no
                                        subscript ever leaves the bit array
      add_raises_only_in_item_bytes     a raising `add` changes nothing
      run_fill_ratio_bounds             the set-bit count and fill ratio
-/
import SystemDesign.BloomFilter.Refinement

set_option autoImplicit false

namespace SystemDesign.BloomFilter

open SystemDesign.Python

variable {α : Type} (H : Hashing α) {size hashCount : Int} {s₀ : BloomFilter}

/-- Two runs that added the same set of keys, in any order and with any
repeats, leave the same bits. -/
theorem run_bitArray_eq_of_keys_equiv (h₀ : init size hashCount = .ok s₀)
    (calls calls' : List (Call α))
    (hkeys : ∀ b, b ∈ addedKeys H calls ↔ b ∈ addedKeys H calls') :
    (run H s₀ calls).bitArray = (run H s₀ calls').bitArray := by
  obtain ⟨L, hL, hk, hs, hh⟩ := run_abstracts_init H h₀ calls
  obtain ⟨L', hL', hk', hs', hh'⟩ := run_abstracts_init H h₀ calls'
  rw [hL.bitArray_eq, hL'.bitArray_eq]
  exact Ledger.bits_eq_of_keys_equiv (by omega) (by omega) (by rw [hk, hk']; exact hkeys)

/-- Two adds after a run, in either order, leave the same bits; so does one
add repeated. -/
theorem run_add_add_bitArray (h₀ : init size hashCount = .ok s₀) (calls : List (Call α))
    (x y : α) :
    (add H (add H (run H s₀ calls) x).self y).self.bitArray =
      (add H (add H (run H s₀ calls) y).self x).self.bitArray ∧
    (add H (add H (run H s₀ calls) x).self x).self.bitArray =
      (add H (run H s₀ calls) x).self.bitArray := by
  have hrun : ∀ u v : α, (add H (add H (run H s₀ calls) u).self v).self =
      run H s₀ (calls ++ [.add u] ++ [.add v]) := by
    intro u v
    rw [run_add, run_add]
  constructor
  · rw [hrun, hrun]
    exact run_bitArray_eq_of_keys_equiv H h₀ _ _ fun b => by
      simp only [addedKeys_add, List.mem_append]; tauto
  · rw [hrun, ← run_add]
    exact run_bitArray_eq_of_keys_equiv H h₀ _ _ fun b => by
      simp only [addedKeys_add, List.mem_append]; tauto

/-- At every point of every run, bit `j` is set exactly when `j` is a position
of an item added so far, and `contains(x)` returns `True` exactly when every
position of `x` is such a bit (raising only when `x` has no bytes).  So an added
item is reported present at every later point, a new filter reports every item
absent, and the bits depend only on the set of added keys: `add` commutes and
is idempotent on them. -/
theorem run_bitArray_iff_added_position (h₀ : init size hashCount = .ok s₀)
    (calls : List (Call α)) :
    let s := run H s₀ calls
    (∀ j : Nat, s.bitArray[j]? = some true ↔
      ∃ b ∈ addedKeys H calls, (j : Int) ∈ positions H s b) ∧
    (∀ x, contains H s x =
      (fun b => (positions H s b).all fun p =>
        decide (∃ b' ∈ addedKeys H calls, p ∈ positions H s b')) <$> itemBytes H x) ∧
    (∀ y b, Call.add y ∈ calls → itemBytes H y = .ok b → contains H s y = .ok true) ∧
    (∀ x b, itemBytes H x = .ok b → contains H s₀ x = .ok false) ∧
    (∀ calls' : List (Call α), (∀ b, b ∈ addedKeys H calls ↔ b ∈ addedKeys H calls') →
      (run H s₀ calls').bitArray = s.bitArray) ∧
    (∀ x y,
      (add H (add H s x).self y).self.bitArray = (add H (add H s y).self x).self.bitArray) ∧
    (∀ x, (add H (add H s x).self x).self.bitArray = (add H s x).self.bitArray) := by
  dsimp only
  obtain ⟨L, hL, hkeys, -, -⟩ := run_abstracts_init H h₀ calls
  refine ⟨fun j => ?_, fun x => ?_, fun y b hy hb => ?_, fun x b hb => ?_,
    fun calls' h' => (run_bitArray_eq_of_keys_equiv H h₀ calls calls' h').symm,
    fun x y => (run_add_add_bitArray H h₀ calls x y).1,
    fun x => (run_add_add_bitArray H h₀ calls x x).2⟩
  · rw [hL.bitArray_eq, Ledger.getElem?_bits_eq_some_true, hL.covered_iff, hkeys]
  · rw [contains_abstracts hL]
    cases itemBytes H x <;> simp [Functor.map, Except.map, hL.mayContain_eq, hkeys]
  · rw [contains_abstracts hL, hb]
    exact congrArg Except.ok
      (Ledger.mayContain_of_mem (hkeys ▸ (mem_addedKeys H).2 ⟨y, hy, hb⟩))
  · obtain ⟨L₀, hL₀, hnil, -, -⟩ := init_abstracts H h₀
    rw [contains_abstracts hL₀, hb]
    exact congrArg Except.ok (Ledger.mayContain_of_keys_eq_nil hnil b)

/-- The guarantees after `BloomFilter(10, 3)` and `add(1)`. -/
theorem run_bitArray_iff_added_position_add_one :
    init 10 3 = .ok ⟨10, 3, List.replicate 10 false, 0⟩ ∧
    let s := run pyHashing ⟨10, 3, List.replicate 10 false, 0⟩ [.add (.int 1)]
    (∀ j : Nat, s.bitArray[j]? = some true ↔
      ∃ b ∈ addedKeys pyHashing [.add (.int 1)], (j : Int) ∈ positions pyHashing s b) ∧
    (∀ x, contains pyHashing s x =
      (fun b => (positions pyHashing s b).all fun p =>
        decide (∃ b' ∈ addedKeys pyHashing [.add (.int 1)], p ∈ positions pyHashing s b')) <$>
          itemBytes pyHashing x) ∧
    (∀ y b, Call.add y ∈ [Call.add (PyValue.int 1)] → itemBytes pyHashing y = .ok b →
      contains pyHashing s y = .ok true) ∧
    (∀ x b, itemBytes pyHashing x = .ok b →
      contains pyHashing ⟨10, 3, List.replicate 10 false, 0⟩ x = .ok false) ∧
    (∀ calls' : List (Call PyValue),
      (∀ b, b ∈ addedKeys pyHashing [.add (.int 1)] ↔ b ∈ addedKeys pyHashing calls') →
      (run pyHashing ⟨10, 3, List.replicate 10 false, 0⟩ calls').bitArray = s.bitArray) ∧
    (∀ x y, (add pyHashing (add pyHashing s x).self y).self.bitArray =
      (add pyHashing (add pyHashing s y).self x).self.bitArray) ∧
    (∀ x, (add pyHashing (add pyHashing s x).self x).self.bitArray =
      (add pyHashing s x).self.bitArray) :=
  ⟨rfl, run_bitArray_iff_added_position pyHashing
    (show init 10 3 = .ok ⟨10, 3, List.replicate 10 false, 0⟩ from rfl) [.add (.int 1)]⟩

/-- In every reachable instance the parameters are the constructor's, the bit
array has `size` cells, `_get_hash_values` returns `hash_count` positions in
`[0, size)` for every item it can key, and neither `add` nor `contains` raises
anything but what `str(item).encode('utf-8')` raises: no subscript is ever out
of range, and no `add` resizes the bit array. -/
theorem reachable_positions_in_range {s : BloomFilter} (hr : Reachable H size hashCount s) :
    s.size = size ∧ s.hashCount = hashCount ∧ s.bitArray.length = size.toNat ∧
    (∀ item, getHashValues H s item = positions H s <$> itemBytes H item) ∧
    (∀ b, (positions H s b).length = hashCount.toNat ∧
      ∀ p ∈ positions H s b, 0 ≤ p ∧ p < size) ∧
    (∀ item e, (add H s item).result = .error e → itemBytes H item = .error e) ∧
    (∀ item e, contains H s item = .error e → itemBytes H item = .error e) ∧
    (∀ item, (add H s item).self.bitArray.length = s.bitArray.length) := by
  obtain ⟨L, hL, hs, hk⟩ := hr.abstracts
  have hsize : s.size = size := hL.size_eq.trans hs
  have hpos : 0 < size := by have := L.size_pos; omega
  refine ⟨hsize, hL.hashCount_eq.trans hk, by rw [hL.bitArray_eq, Ledger.length_bits]; omega,
    getHashValues_eq H s, fun b => ⟨by simp [positions, hL.hashCount_eq, hk], fun p hp => ?_⟩,
    fun item e he => ?_, fun item e he => ?_, fun item => ?_⟩
  · exact mem_hashValues_bounds (hsize ▸ hpos) hp |>.imp id (hsize ▸ ·)
  · rw [add_result hL] at he
    cases h : itemBytes H item <;> simp_all [Functor.map, Except.map]
  · rw [contains_abstracts hL] at he
    cases h : itemBytes H item <;> simp_all [Functor.map, Except.map]
  · rw [(add_abstracts hL item).bitArray_eq, hL.bitArray_eq]
    simp

/-- `BloomFilter(10, 3)` followed by any one `add` call is reachable. -/
theorem reachable_init_ten_three_add (v : PyValue) :
    Reachable pyHashing 10 3
      ((Call.add v).apply pyHashing ⟨10, 3, List.replicate 10 false, 0⟩) :=
  Reachable.snoc pyHashing (⟨⟨10, 3, List.replicate 10 false, 0⟩, [], rfl, rfl⟩ :
    Reachable pyHashing 10 3 ⟨10, 3, List.replicate 10 false, 0⟩) (.add v)

/-- The guarantees after `BloomFilter(10, 3)` and `add(1)`. -/
theorem reachable_positions_in_range_add_one :
    let s := (Call.add (PyValue.int 1)).apply pyHashing ⟨10, 3, List.replicate 10 false, 0⟩
    Reachable pyHashing 10 3 s ∧
    s.size = 10 ∧ s.hashCount = 3 ∧ s.bitArray.length = (10 : Int).toNat ∧
    (∀ item,
      getHashValues pyHashing s item = positions pyHashing s <$> itemBytes pyHashing item) ∧
    (∀ b, (positions pyHashing s b).length = (3 : Int).toNat ∧
      ∀ p ∈ positions pyHashing s b, 0 ≤ p ∧ p < 10) ∧
    (∀ item e,
      (add pyHashing s item).result = .error e → itemBytes pyHashing item = .error e) ∧
    (∀ item e, contains pyHashing s item = .error e → itemBytes pyHashing item = .error e) ∧
    (∀ item, (add pyHashing s item).self.bitArray.length = s.bitArray.length) := by
  intro s
  have hr : Reachable pyHashing 10 3 s := reachable_init_ten_three_add (.int 1)
  exact ⟨hr, reachable_positions_in_range pyHashing hr⟩

/-- From every reachable instance, `add(item)` raises exactly when `str(item)`
or its UTF-8 encoding does, and then leaves the instance exactly as it was;
otherwise it sets each of the item's `hash_count` positions, leaves every other
bit alone, and counts the call once. -/
theorem add_raises_only_in_item_bytes {s : BloomFilter} (hr : Reachable H size hashCount s)
    (item : α) :
    (∀ e, (add H s item).result = .error e ↔
      H.str item = .error e ∨ ∃ str, H.str item = .ok str ∧ encodeUtf8 str = .error e) ∧
    (∀ e, (add H s item).result = .error e → (add H s item).self = s) ∧
    (∀ b, itemBytes H item = .ok b →
      (add H s item).result = .ok () ∧
      (add H s item).self =
        { s with
          bitArray := markAll s.bitArray (positions H s b)
          itemsAdded := s.itemsAdded + 1 } ∧
      (positions H s b).length = hashCount.toNat ∧
      ∀ p ∈ positions H s b, (add H s item).self.bitArray[p.toNat]? = some true) := by
  obtain ⟨L, hL, -, hk⟩ := hr.abstracts
  have herr : ∀ e, (add H s item).result = .error e ↔ itemBytes H item = .error e := by
    intro e
    rw [add_result hL]
    cases itemBytes H item <;> simp [Functor.map, Except.map]
  refine ⟨fun e => (herr e).trans (itemBytes_eq_error_iff H item e),
    fun e he => by rw [add_of_itemBytes_error H s ((herr e).1 he)], fun b hb => ?_⟩
  have hadd := add_of_inRange H s hb (hL.inRange b)
  refine ⟨by rw [hadd], by rw [hadd], by simp [positions, hL.hashCount_eq, hk], fun p hp => ?_⟩
  obtain ⟨h0, hlt⟩ := hL.inRange b p hp
  rw [hadd, getElem?_markAll fun q hq => (hL.inRange b q hq).1, List.getElem?_eq_getElem hlt]
  simp [Int.toNat_of_nonneg h0, hp]

/-- The guarantees of `add(True)` after `BloomFilter(10, 3)` and `add(1)`. -/
theorem add_raises_only_in_item_bytes_after_add :
    let s := (Call.add (PyValue.int 1)).apply pyHashing ⟨10, 3, List.replicate 10 false, 0⟩
    Reachable pyHashing 10 3 s ∧
    (∀ e, (add pyHashing s (.bool true)).result = .error e ↔
      pyHashing.str (.bool true) = .error e ∨
        ∃ str, pyHashing.str (.bool true) = .ok str ∧ encodeUtf8 str = .error e) ∧
    (∀ e, (add pyHashing s (.bool true)).result = .error e →
      (add pyHashing s (.bool true)).self = s) ∧
    (∀ b, itemBytes pyHashing (.bool true) = .ok b →
      (add pyHashing s (.bool true)).result = .ok () ∧
      (add pyHashing s (.bool true)).self =
        { s with
          bitArray := markAll s.bitArray (positions pyHashing s b)
          itemsAdded := s.itemsAdded + 1 } ∧
      (positions pyHashing s b).length = (3 : Int).toNat ∧
      ∀ p ∈ positions pyHashing s b,
        (add pyHashing s (.bool true)).self.bitArray[p.toNat]? = some true) := by
  intro s
  have hr : Reachable pyHashing 10 3 s := reachable_init_ten_three_add (.int 1)
  exact ⟨hr, add_raises_only_in_item_bytes pyHashing hr (.bool true)⟩

/-- Along every run, `items_added` counts the `add` calls that returned (an
`add` whose item has no bytes raises and is not counted); the number `c` of set
bits never drops across an `add` and stays within
`min(1, n) ≤ c ≤ min(size, hash_count * n)`; the fill ratio `c / size` lies in
`[0, 1]`, never drops along the run, and is `0` exactly while nothing has been
added, a phase no later point of the run returns to. -/
theorem run_fill_ratio_bounds (h₀ : init size hashCount = .ok s₀)
    (calls more : List (Call α)) :
    let s := run H s₀ calls
    let s' := run H s₀ (calls ++ more)
    let c := s.bitArray.count true
    s.itemsAdded = (addedKeys H calls).length ∧
    (∀ x, c ≤ (add H s x).self.bitArray.count true) ∧
    min 1 s.itemsAdded ≤ c ∧ c ≤ min size.toNat (hashCount.toNat * s.itemsAdded) ∧
    getFillRatio s = .ok ((c : ℚ) / size) ∧
    0 ≤ (c : ℚ) / size ∧ (c : ℚ) / size ≤ 1 ∧
    (c : ℚ) / size ≤ (s'.bitArray.count true : ℚ) / size ∧
    ((c : ℚ) / size = 0 ↔ s.itemsAdded = 0) ∧
    (s.itemsAdded = 0 ↔ ∀ bit ∈ s.bitArray, bit = false) ∧
    (0 < s.itemsAdded → 0 < s'.itemsAdded) := by
  dsimp only
  obtain ⟨L, hL, hkeys, hs, hk⟩ := run_abstracts_init H h₀ calls
  have hL' := run_abstracts hL more
  rw [← run_append] at hL'
  have hsize : (0 : ℚ) < size := by have := L.size_pos; exact_mod_cast (show 0 < size by omega)
  have hcast : (size : ℚ) = (L.size : ℚ) := by rw [← hs]; rfl
  have hzero :
      (run H s₀ calls).bitArray.count true = 0 ↔ (run H s₀ calls).itemsAdded = 0 := by
    rw [hL.bitArray_eq, hL.itemsAdded_eq, Ledger.count_bits_eq_zero_iff, List.length_eq_zero]
  have hle : (L.bits H).count true ≤ ((L.insertAll (addedKeys H more)).bits H).count true :=
    Ledger.count_bits_le_insertAll _
  rw [← hL.bitArray_eq, ← hL'.bitArray_eq] at hle
  refine ⟨hL.itemsAdded_eq.trans (by rw [hkeys]), fun x => ?_, ?_, ?_,
    getFillRatio_of_pos (by rw [hL.size_eq]; exact_mod_cast L.size_pos) |>.trans
      (by rw [hL.size_eq, ← hs]),
    div_nonneg (Nat.cast_nonneg _) hsize.le, ?_,
    div_le_div_of_nonneg_right (by exact_mod_cast hle) hsize.le,
    ?_, ?_, ?_⟩
  · rw [(add_abstracts hL x).bitArray_eq, hL.bitArray_eq]
    exact Ledger.count_bits_le_insertAll _
  · rw [hL.bitArray_eq, hL.itemsAdded_eq]
    exact Ledger.count_bits_bounds.1
  · rw [hL.bitArray_eq, hL.itemsAdded_eq, show size.toNat = L.size by omega,
      show hashCount.toNat = L.hashCount by omega]
    exact Ledger.count_bits_bounds.2
  · rw [div_le_one hsize, hcast, hL.bitArray_eq]
    exact_mod_cast Ledger.count_bits_le_size
  · rw [div_eq_zero_iff, ← hzero]
    simp [hsize.ne']
  · rw [← hzero, List.count_eq_zero]
    simp
  · rw [hL'.itemsAdded_eq, Ledger.insertAll_keys, List.length_append, ← hL.itemsAdded_eq]
    omega

/-- The bounds along `add(1)`, then `add(True)`, on `BloomFilter(10, 3)`. -/
theorem run_fill_ratio_bounds_add_one :
    init 10 3 = .ok ⟨10, 3, List.replicate 10 false, 0⟩ ∧
    let s := run pyHashing ⟨10, 3, List.replicate 10 false, 0⟩ [.add (.int 1)]
    let s' := run pyHashing ⟨10, 3, List.replicate 10 false, 0⟩
      ([.add (.int 1)] ++ [.add (.bool true)])
    let c := s.bitArray.count true
    s.itemsAdded = (addedKeys pyHashing [.add (.int 1)]).length ∧
    (∀ x, c ≤ (add pyHashing s x).self.bitArray.count true) ∧
    min 1 s.itemsAdded ≤ c ∧ c ≤ min (10 : Int).toNat ((3 : Int).toNat * s.itemsAdded) ∧
    getFillRatio s = .ok ((c : ℚ) / (10 : Int)) ∧
    0 ≤ (c : ℚ) / (10 : Int) ∧ (c : ℚ) / (10 : Int) ≤ 1 ∧
    (c : ℚ) / (10 : Int) ≤ (s'.bitArray.count true : ℚ) / (10 : Int) ∧
    ((c : ℚ) / (10 : Int) = 0 ↔ s.itemsAdded = 0) ∧
    (s.itemsAdded = 0 ↔ ∀ bit ∈ s.bitArray, bit = false) ∧
    (0 < s.itemsAdded → 0 < s'.itemsAdded) :=
  ⟨rfl, run_fill_ratio_bounds pyHashing
    (show init 10 3 = .ok ⟨10, 3, List.replicate 10 false, 0⟩ from rfl) [.add (.int 1)]
    [.add (.bool true)]⟩

end SystemDesign.BloomFilter
