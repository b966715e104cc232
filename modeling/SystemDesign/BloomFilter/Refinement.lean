/-
  BloomFilter/Refinement.lean --- the class computes its ledger.

  `Abstracts H self L` says that the instance `self` holds exactly the state the
  ledger `L` determines: the same parameters, the ledger's bit array, and one
  count per key.  The constructor establishes it with the empty ledger, and
  every call keeps it:

      add(item)       the ledger gains the item's bytes, or nothing when
                      `str(item).encode('utf-8')` raises
      contains(item)  answers the ledger's `mayContain` for the item's bytes

  so that along a whole run the instance holds the ledger of `addedKeys`.  Every
  guarantee of `BloomFilter.Guarantees` is read off this simulation.
-/
import SystemDesign.BloomFilter.Ledger
import SystemDesign.BloomFilter.Run

set_option autoImplicit false

namespace SystemDesign.BloomFilter

open SystemDesign.Python

variable {α : Type} (H : Hashing α)

/-- The instance holds the state the ledger describes. -/
structure Abstracts (s : BloomFilter) (L : Ledger) : Prop where
  size_eq : s.size = L.size
  hashCount_eq : s.hashCount = L.hashCount
  bitArray_eq : s.bitArray = L.bits H
  itemsAdded_eq : s.itemsAdded = L.keys.length

variable {H} {self : BloomFilter} {L : Ledger}

namespace Abstracts

/-- The instance computes the ledger's slots as its positions. -/
theorem positions_eq (h : Abstracts H self L) (b : Bytes) :
    positions H self b = (L.slots H b).map (↑) := by
  rw [positions, h.size_eq, h.hashCount_eq, hashValues_eq_slots]
  simp [Ledger.slots, Function.comp_def]

/-- Every position is a valid index of the bit array. -/
theorem inRange (h : Abstracts H self L) (b : Bytes) :
    ∀ p ∈ positions H self b, 0 ≤ p ∧ p.toNat < self.bitArray.length := by
  rw [h.positions_eq]
  intro p hp
  obtain ⟨j, hj, rfl⟩ := List.mem_map.1 hp
  refine ⟨by omega, ?_⟩
  simpa [h.bitArray_eq] using Ledger.lt_size_of_mem_slots hj

/-- A natural number is a position of `b` iff it is one of the ledger's slots. -/
theorem natCast_mem_positions (h : Abstracts H self L) (b : Bytes) (j : Nat) :
    (j : Int) ∈ positions H self b ↔ j ∈ L.slots H b := by
  simp [h.positions_eq, Int.ofNat_inj]

/-- A bit is covered iff it is a position of some key, as the instance computes
positions. -/
theorem covered_iff (h : Abstracts H self L) (j : Nat) :
    L.Covered H j ↔ ∃ b ∈ L.keys, (j : Int) ∈ positions H self b := by
  simp only [Ledger.Covered, h.natCast_mem_positions]

/-- The ledger's answer, with the slots read as the instance's positions. -/
theorem mayContain_eq (h : Abstracts H self L) (b : Bytes) :
    L.mayContain H b =
      (positions H self b).all fun p => decide (∃ b' ∈ L.keys, p ∈ positions H self b') := by
  rw [Ledger.mayContain, h.positions_eq b]
  induction L.slots H b with
  | nil => rfl
  | cons j js ih =>
    rw [List.all_cons, List.map_cons, List.all_cons, ← ih, decide_eq_decide.2 (h.covered_iff j)]

/-- An instance is fixed by its ledger's parameters, set of keys and number of
keys. -/
theorem eq_of_keys_equiv {s' : BloomFilter} {L' : Ledger} (h : Abstracts H self L)
    (h' : Abstracts H s' L') (hs : L.size = L'.size) (hk : L.hashCount = L'.hashCount)
    (hkeys : ∀ b, b ∈ L.keys ↔ b ∈ L'.keys) (hlen : L.keys.length = L'.keys.length) :
    self = s' := by
  obtain ⟨⟩ := self
  obtain ⟨⟩ := s'
  congr 1
  · exact h.size_eq.trans (hs ▸ h'.size_eq.symm)
  · exact h.hashCount_eq.trans (hk ▸ h'.hashCount_eq.symm)
  · exact h.bitArray_eq.trans (Ledger.bits_eq_of_keys_equiv hs hk hkeys ▸ h'.bitArray_eq.symm)
  · exact h.itemsAdded_eq.trans (hlen ▸ h'.itemsAdded_eq.symm)

end Abstracts

/-- Setting the slots of `b` in the ledger's bits gives the bits with `b` added. -/
theorem markAll_bits (b : Bytes) :
    markAll (L.bits H) ((L.slots H b).map (↑)) = (L.insertAll [b]).bits H := by
  ext j
  rw [getElem?_markAll (fun p hp => by obtain ⟨j, -, rfl⟩ := List.mem_map.1 hp; omega),
    Ledger.getElem?_bits, Ledger.getElem?_bits]
  by_cases hj : j < L.size
  · simp [hj, List.mem_map, Ledger.covered_insertAll, Int.ofNat_inj]
  · simp [hj]

variable (H) in
/-- The constructor starts the simulation with the empty ledger. -/
theorem init_abstracts {size hashCount : Int} {s₀ : BloomFilter}
    (h : init size hashCount = .ok s₀) :
    ∃ L : Ledger, Abstracts H s₀ L ∧ L.keys = [] ∧
      (L.size : Int) = size ∧ (L.hashCount : Int) = hashCount := by
  obtain ⟨hs, hk, rfl⟩ := init_eq_ok_iff.1 h
  refine ⟨Ledger.empty size.toNat hashCount.toNat (by omega) (by omega), ⟨?_, ?_, ?_, rfl⟩,
    rfl, ?_, ?_⟩
  · show size = ((size.toNat : Nat) : Int); omega
  · show hashCount = ((hashCount.toNat : Nat) : Int); omega
  · ext j
    simp [Ledger.getElem?_bits, Ledger.empty, Ledger.Covered, List.getElem?_replicate]
  · show ((size.toNat : Nat) : Int) = size; omega
  · show ((hashCount.toNat : Nat) : Int) = hashCount; omega

/-- `add` adds the item's bytes to the ledger, or nothing when they cannot be
computed. -/
theorem add_abstracts (h : Abstracts H self L) (item : α) :
    Abstracts H (add H self item).self (L.insertAll (itemBytes H item).toOption.toList) := by
  cases hb : itemBytes H item with
  | error e => simpa [add_of_itemBytes_error H self hb, Except.toOption] using h
  | ok b =>
    rw [add_of_inRange H self hb (h.inRange b)]
    refine ⟨h.size_eq, h.hashCount_eq, ?_, ?_⟩
    · simp only [Except.toOption, Option.toList]
      rw [h.bitArray_eq, h.positions_eq, markAll_bits]
    · simp [Except.toOption, h.itemsAdded_eq]

/-- `add` raises exactly what `str(item).encode('utf-8')` raises. -/
theorem add_result (h : Abstracts H self L) (item : α) :
    (add H self item).result = (fun _ => ()) <$> itemBytes H item := by
  cases hb : itemBytes H item with
  | error e => simp [add_of_itemBytes_error H self hb, Functor.map, Except.map]
  | ok b => simp [add_of_inRange H self hb (h.inRange b), Functor.map, Except.map]

/-- `contains` answers the ledger's query. -/
theorem contains_abstracts (h : Abstracts H self L) (item : α) :
    contains H self item = L.mayContain H <$> itemBytes H item := by
  rw [contains_eq]
  cases hb : itemBytes H item with
  | error e => rfl
  | ok b =>
    simp only [Except.bind]
    rw [containsLoop_of_inRange (h.inRange b)]
    simp [h.positions_eq, Ledger.mayContain, h.bitArray_eq, Function.comp_def,
      Ledger.getElem?_getD_bits, Functor.map, Except.map]
    induction Ledger.slots H L b <;> simp_all

/-- One call keeps the simulation, with the ledger gaining what the call adds. -/
theorem apply_abstracts (h : Abstracts H self L) (c : Call α) :
    Abstracts H (c.apply H self) (L.insertAll (addedKeys H [c])) := by
  cases c with
  | add item =>
    simpa [Call.apply, addedKeys, Except.toOption] using add_abstracts h item
  | contains item => simpa [Call.apply, addedKeys] using h

/-- Along a whole run the instance holds the ledger of the keys the run added. -/
theorem run_abstracts (h : Abstracts H self L) (calls : List (Call α)) :
    Abstracts H (run H self calls) (L.insertAll (addedKeys H calls)) := by
  induction calls generalizing self L with
  | nil => simpa [addedKeys] using h
  | cons c cs ih =>
    have hc : addedKeys H (c :: cs) = addedKeys H [c] ++ addedKeys H cs :=
      List.filterMap_append [c] cs _
    rw [hc, Ledger.insertAll_append]
    exact ih (apply_abstracts h c)

variable (H) in
/-- A run from the constructor holds the ledger of its keys, with the
constructor's parameters. -/
theorem run_abstracts_init {size hashCount : Int} {s₀ : BloomFilter}
    (h₀ : init size hashCount = .ok s₀) (calls : List (Call α)) :
    ∃ L : Ledger, Abstracts H (run H s₀ calls) L ∧ L.keys = addedKeys H calls ∧
      (L.size : Int) = size ∧ (L.hashCount : Int) = hashCount := by
  obtain ⟨L, hL, hkeys, hs, hk⟩ := init_abstracts H h₀
  exact ⟨_, run_abstracts hL calls, by simp [hkeys], hs, hk⟩

/-- Every reachable instance holds some ledger with the constructor's
parameters. -/
theorem Reachable.abstracts {size hashCount : Int} (h : Reachable H size hashCount self) :
    ∃ L : Ledger, Abstracts H self L ∧
      (L.size : Int) = size ∧ (L.hashCount : Int) = hashCount := by
  obtain ⟨s₀, calls, h₀, rfl⟩ := h
  obtain ⟨L, hL, -, hs, hk⟩ := run_abstracts_init H h₀ calls
  exact ⟨L, hL, hs, hk⟩

end SystemDesign.BloomFilter
