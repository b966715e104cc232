/-
  BloomFilter/History.lean --- what an instance remembers of the calls made on it.

  After any run from the constructor the instance is fixed by two things only:
  the set of keys its `add` calls stored, and how many `add` calls returned.
  The order of the calls, the `contains` calls between them, and which repeated
  key came first leave no trace:

      run_eq_of_keys_equiv   two runs with the same keys and count end in
                             the same instance
      run_contains_mono      a set bit stays set, and an item reported
                             possibly present stays so
      add_of_contains_true   adding an item the filter already reports
                             present (a false positive included) sets no
                             bit and only counts the call

  Each is read off the simulation of `BloomFilter.Refinement`.
-/
import SystemDesign.BloomFilter.Refinement

set_option autoImplicit false

namespace SystemDesign.BloomFilter

open SystemDesign.Python

variable {α : Type} (H : Hashing α) {size hashCount : Int} {s₀ : BloomFilter}

/-- The instance a run leaves is fixed by the set of keys it added and their
number: runs that differ in the order of their calls, in their `contains`
calls, or in which of two repeated keys came first end in the same instance. -/
theorem run_eq_of_keys_equiv (h₀ : init size hashCount = .ok s₀) {calls calls' : List (Call α)}
    (hkeys : ∀ b, b ∈ addedKeys H calls ↔ b ∈ addedKeys H calls')
    (hlen : (addedKeys H calls).length = (addedKeys H calls').length) :
    run H s₀ calls = run H s₀ calls' := by
  obtain ⟨L, hL, hk, hs, hh⟩ := run_abstracts_init H h₀ calls
  obtain ⟨L', hL', hk', hs', hh'⟩ := run_abstracts_init H h₀ calls'
  exact hL.eq_of_keys_equiv hL' (by omega) (by omega) (by rw [hk, hk']; exact hkeys)
    (by rw [hk, hk', hlen])

/-- `add(1)`, `add(2)` and `add(2)`, `add(1)` leave the same instance. -/
theorem run_eq_of_keys_equiv_swap :
    init 10 3 = .ok ⟨10, 3, List.replicate 10 false, 0⟩ ∧
    (∀ b, b ∈ addedKeys pyHashing [.add (.int 1), .add (.int 2)] ↔
      b ∈ addedKeys pyHashing [.add (.int 2), .add (.int 1)]) ∧
    (addedKeys pyHashing [.add (.int 1), .add (.int 2)]).length =
      (addedKeys pyHashing [.add (.int 2), .add (.int 1)]).length ∧
    run pyHashing ⟨10, 3, List.replicate 10 false, 0⟩ [.add (.int 1), .add (.int 2)] =
      run pyHashing ⟨10, 3, List.replicate 10 false, 0⟩ [.add (.int 2), .add (.int 1)] :=
  ⟨rfl, fun _ => ((List.Perm.swap _ _ []).filterMap _).mem_iff, rfl,
    run_eq_of_keys_equiv pyHashing
      (show init 10 3 = .ok ⟨10, 3, List.replicate 10 false, 0⟩ from rfl)
      (fun _ => ((List.Perm.swap _ _ []).filterMap _).mem_iff) rfl⟩

/-- Along a run a set bit stays set, and an item for which `contains` returned
`True` keeps that answer at every later point, whether it was added or is a
false positive. -/
theorem run_contains_mono (h₀ : init size hashCount = .ok s₀) (calls more : List (Call α)) :
    (∀ j : Nat, (run H s₀ calls).bitArray[j]? = some true →
      (run H s₀ (calls ++ more)).bitArray[j]? = some true) ∧
    ∀ x, contains H (run H s₀ calls) x = .ok true →
      contains H (run H s₀ (calls ++ more)) x = .ok true := by
  obtain ⟨L, hL, -, -, -⟩ := run_abstracts_init H h₀ calls
  have hL' := run_abstracts hL more
  rw [← run_append] at hL'
  refine ⟨fun j hj => ?_, fun x hx => ?_⟩
  · rw [hL.bitArray_eq, Ledger.getElem?_bits_eq_some_true] at hj
    rw [hL'.bitArray_eq, Ledger.getElem?_bits_eq_some_true]
    exact Ledger.covered_insertAll.2 (.inl hj)
  · rw [contains_abstracts hL] at hx
    rw [contains_abstracts hL']
    cases hb : itemBytes H x with
    | error e => rw [hb] at hx; cases hx
    | ok b =>
      rw [hb] at hx
      exact congrArg Except.ok (Ledger.mayContain_insertAll (Except.ok.inj hx) _)

/-- The answers after `add(1)` persist through `add(True)`. -/
theorem run_contains_mono_add_one :
    init 10 3 = .ok ⟨10, 3, List.replicate 10 false, 0⟩ ∧
    (∀ j : Nat,
      (run pyHashing ⟨10, 3, List.replicate 10 false, 0⟩ [.add (.int 1)]).bitArray[j]? =
        some true →
      (run pyHashing ⟨10, 3, List.replicate 10 false, 0⟩
        ([.add (.int 1)] ++ [.add (.bool true)])).bitArray[j]? = some true) ∧
    ∀ x,
      contains pyHashing (run pyHashing ⟨10, 3, List.replicate 10 false, 0⟩ [.add (.int 1)]) x =
        .ok true →
      contains pyHashing (run pyHashing ⟨10, 3, List.replicate 10 false, 0⟩
        ([.add (.int 1)] ++ [.add (.bool true)])) x = .ok true :=
  ⟨rfl, run_contains_mono pyHashing
    (show init 10 3 = .ok ⟨10, 3, List.replicate 10 false, 0⟩ from rfl) [.add (.int 1)]
    [.add (.bool true)]⟩

/-- In a reachable instance, adding an item that `contains` reports present
leaves every bit as it was and only counts the call.  This holds for a false
positive too: `items_added` then grows while the bit array does not. -/
theorem add_of_contains_true {s : BloomFilter} (hr : Reachable H size hashCount s) {item : α}
    (h : contains H s item = .ok true) :
    add H s item = ⟨{ s with itemsAdded := s.itemsAdded + 1 }, .ok ()⟩ := by
  obtain ⟨L, hL, -, -⟩ := hr.abstracts
  rw [contains_abstracts hL] at h
  cases hb : itemBytes H item with
  | error e => rw [hb] at h; cases h
  | ok b =>
    rw [hb] at h
    rw [add_of_inRange H s hb (hL.inRange b), hL.positions_eq, hL.bitArray_eq, markAll_bits,
      Ledger.bits_insertAll_of_mayContain (Except.ok.inj h)]

/-- With digests that see only the length of the bytes, `'2'` is a false
positive after `add(1)`, and adding it only counts the call. -/
theorem add_of_contains_true_false_positive :
    let H : Hashing PyValue := ⟨fun v => .ok v.toStr, List.length, List.length⟩
    let s := run H ⟨10, 3, List.replicate 10 false, 0⟩ [.add (.int 1)]
    Reachable H 10 3 s ∧ contains H s (.int 2) = .ok true ∧
      add H s (.int 2) = ⟨{ s with itemsAdded := s.itemsAdded + 1 }, .ok ()⟩ := by
  intro H s
  have hr : Reachable H 10 3 s :=
    ⟨⟨10, 3, List.replicate 10 false, 0⟩, [.add (.int 1)],
      show init 10 3 = .ok ⟨10, 3, List.replicate 10 false, 0⟩ from rfl, rfl⟩
  have hc : contains H s (.int 2) = .ok true := by rfl
  exact ⟨hr, hc, add_of_contains_true H hr hc⟩

end SystemDesign.BloomFilter
