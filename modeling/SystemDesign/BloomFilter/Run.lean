/-
  BloomFilter/Run.lean --- a program's use of one instance.

  After construction a program calls `add` and `contains` in any order.  A call
  that raises hands the exception to the caller, who may catch it and go on
  with the instance as the call left it; a run therefore continues past a
  raise, which covers the programs that stop there as its prefixes.  The
  read-only methods (`contains`, `get_fill_ratio`, `len`) leave the instance
  as it is, so a run records `contains` calls only to be faithful to the
  order of calls.
-/
import SystemDesign.BloomFilter.Filter

set_option autoImplicit false

namespace SystemDesign.BloomFilter

open SystemDesign.Python

/-- A method call a program makes on the instance. -/
inductive Call (α : Type) where
  | add (item : α)
  | contains (item : α)

variable {α : Type} (H : Hashing α)

/-- The instance after one call. -/
def Call.apply (self : BloomFilter) : Call α → BloomFilter
  | .add item => (BloomFilter.add H self item).self
  | .contains _ => self

/-- The instance after a sequence of calls. -/
def run (self : BloomFilter) (calls : List (Call α)) : BloomFilter :=
  calls.foldl (Call.apply H) self

/-- The bytes of the items that `calls` added, in order and with repeats: one
entry for each `add(y)` whose `str(y).encode('utf-8')` succeeds. -/
def addedKeys (calls : List (Call α)) : List Bytes :=
  calls.filterMap fun
    | .add item => (itemBytes H item).toOption
    | .contains _ => none

/-- An instance some program reaches: `BloomFilter(size, hash_count)`, then any
sequence of calls. -/
def Reachable (size hashCount : Int) (self : BloomFilter) : Prop :=
  ∃ s₀ calls, init size hashCount = .ok s₀ ∧ run H s₀ calls = self

@[simp] theorem run_nil (self : BloomFilter) : run H self [] = self := rfl

@[simp] theorem run_append (self : BloomFilter) (calls more : List (Call α)) :
    run H self (calls ++ more) = run H (run H self calls) more := by
  simp [run, List.foldl_append]

@[simp] theorem run_add (self : BloomFilter) (calls : List (Call α)) (item : α) :
    run H self (calls ++ [.add item]) = (add H (run H self calls) item).self := by
  simp [run, Call.apply]

@[simp] theorem run_contains (self : BloomFilter) (calls : List (Call α)) (item : α) :
    run H self (calls ++ [.contains item]) = run H self calls := by
  simp [run, Call.apply]

@[simp] theorem addedKeys_add (calls : List (Call α)) (item : α) :
    addedKeys H (calls ++ [.add item]) =
      addedKeys H calls ++ (itemBytes H item).toOption.toList := by
  simp only [addedKeys, List.filterMap_append, List.filterMap_cons, List.filterMap_nil]
  cases (itemBytes H item).toOption <;> rfl

@[simp] theorem addedKeys_contains (calls : List (Call α)) (item : α) :
    addedKeys H (calls ++ [.contains item]) = addedKeys H calls := by
  simp [addedKeys]

/-- The added keys are the bytes of the items some `add` was called on. -/
theorem mem_addedKeys {calls : List (Call α)} {b : Bytes} :
    b ∈ addedKeys H calls ↔ ∃ item, Call.add item ∈ calls ∧ itemBytes H item = .ok b := by
  simp only [addedKeys, List.mem_filterMap]
  constructor
  · rintro ⟨(item | item), hc, hb⟩
    · exact ⟨item, hc, by cases h : itemBytes H item <;> simp_all [Except.toOption]⟩
    · cases hb
  · rintro ⟨item, hc, hb⟩
    exact ⟨.add item, hc, by simp [hb, Except.toOption]⟩

/-- One more call keeps an instance reachable. -/
theorem Reachable.snoc {size hashCount : Int} {self : BloomFilter}
    (h : Reachable H size hashCount self) (c : Call α) :
    Reachable H size hashCount (c.apply H self) := by
  obtain ⟨s₀, calls, h₀, rfl⟩ := h
  exact ⟨s₀, calls ++ [c], h₀, by simp [run, List.foldl_append]⟩

end SystemDesign.BloomFilter
