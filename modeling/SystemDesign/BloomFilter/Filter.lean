/-
  BloomFilter/Filter.lean --- `class BloomFilter` of
  `algorithms/bloom_filter/bloom_filter.py`, one definition per method.

  An instance is its four attributes, `size`, `hash_count`, `bit_array` and
  `items_added`.  A method that mutates the instance returns an `Outcome`: the
  attributes after the call together with the returned value or the raised
  exception.  Python mutates in place, so a raise keeps every write made before
  it; `Outcome` records that state rather than rolling it back, which is what
  makes "a failed `add` changes nothing" a theorem and not a modelling choice.

  `_get_hash_values` keys an item on `str(item).encode('utf-8')` and reads two
  digests of those bytes.  Both conversions are parameters (`Hashing`): every
  result about the filter holds for any `str()` and any pair of digests, and
  `pyHashing` is the instance the program runs, on builtin values with the
  digests of `Python.Hashlib`.

  The float-valued methods (`estimate_false_positive_rate`, `create_optimal`)
  live in `BloomFilter.Optimal`; `get_fill_ratio` divides two `int`s and is kept
  here, exactly, in `ℚ`.
-/
import SystemDesign.Python.Hashlib

set_option autoImplicit false

namespace SystemDesign

open SystemDesign.Python

/-- What `_get_hash_values` asks of the outside world: `str(item)`, which may
raise, and the two digests read back as integers,
`h1 = int(hashlib.md5(b).hexdigest(), 16)` and `h2` the same with `sha256`. -/
structure Hashing (α : Type) where
  str : α → Except PyError PyStr
  h1 : Bytes → Nat
  h2 : Bytes → Nat

/-- `_get_hash_values` as the program runs it on builtin values: `str()` is
CPython's, which raises on an `int` past its digit limit, and the digests are
the whole MD5 and SHA-256 digests read as integers. -/
def pyHashing : Hashing PyValue where
  str := PyValue.builtinStr
  h1 b := Hashlib.digestInt (Hashlib.md5 b)
  h2 b := Hashlib.digestInt (Hashlib.sha256 b)

/-- The attributes of an instance.  `items_added` starts at `0` and is only ever
incremented, so it is a `Nat`; `size` and `hash_count` keep the `int`s the
constructor was given. -/
structure BloomFilter where
  size : Int
  hashCount : Int
  bitArray : List Bool
  itemsAdded : Nat
  deriving DecidableEq, Repr

/-- What a mutating method call leaves: the instance after the call, and the
value returned or the exception raised. -/
structure Outcome (α : Type) where
  self : BloomFilter
  result : Except PyError α

namespace BloomFilter

variable {α : Type} (H : Hashing α)

/-! ## Construction -/

/-- `BloomFilter(size, hash_count)`, i.e. `__init__`. -/
def init (size hashCount : Int) : Except PyError BloomFilter :=
  if size ≤ 0 then .error (.valueError "Size must be positive")
  else if hashCount ≤ 0 then .error (.valueError "Hash count must be positive")
  else .ok { size, hashCount, bitArray := List.replicate size.toNat false, itemsAdded := 0 }

/-- The constructor succeeds exactly on positive arguments, with every bit
`False` and nothing added. -/
theorem init_eq_ok_iff {size hashCount : Int} {self : BloomFilter} :
    init size hashCount = .ok self ↔
      0 < size ∧ 0 < hashCount ∧
        self = ⟨size, hashCount, List.replicate size.toNat false, 0⟩ := by
  unfold init
  split_ifs with h₁ h₂ <;> simp only [reduceCtorEq, Except.ok.injEq, false_iff, not_and]
  · exact fun h => absurd h (by omega)
  · exact fun _ h => absurd h (by omega)
  · exact ⟨fun h => ⟨by omega, by omega, h.symm⟩, fun h => h.2.2.symm⟩

/-- The constructor's two errors, each naming the argument it checks, the size
first. -/
theorem init_eq_error_iff {size hashCount : Int} {e : PyError} :
    init size hashCount = .error e ↔
      (size ≤ 0 ∧ e = .valueError "Size must be positive") ∨
      (0 < size ∧ hashCount ≤ 0 ∧ e = .valueError "Hash count must be positive") := by
  unfold init
  split_ifs with h₁ h₂ <;> simp only [reduceCtorEq, Except.error.injEq, false_iff, eq_comm]
  · exact ⟨fun h => .inl ⟨h₁, h⟩, fun h => h.elim (·.2) fun h => absurd h.1 (by omega)⟩
  · exact ⟨fun h => .inr ⟨by omega, h₂, h⟩, fun h => h.elim (absurd ·.1 h₁) (·.2.2)⟩
  · exact fun h => h.elim (absurd ·.1 h₁) (absurd ·.2.1 h₂)

/-! ## Positions -/

/-- The loop of `_get_hash_values`: `(h1 + i * h2) % self.size` for each `i` in
`range(self.hash_count)`. -/
def hashValues (h1 h2 : Nat) (size hashCount : Int) : List Int :=
  (List.range hashCount.toNat).map fun (i : Nat) => ((h1 : Int) + i * h2) % size

/-- `str(item).encode('utf-8')`. -/
def itemBytes (item : α) : Except PyError Bytes := do
  let s ← H.str item
  encodeUtf8 s

/-- `_get_hash_values(item)`. -/
def getHashValues (self : BloomFilter) (item : α) : Except PyError (List Int) := do
  let itemBytes ← itemBytes H item
  let h1 := H.h1 itemBytes
  let h2 := H.h2 itemBytes
  pure (hashValues h1 h2 self.size self.hashCount)

/-- The positions of the item whose bytes are `b`. -/
def positions (self : BloomFilter) (b : Bytes) : List Int :=
  hashValues (H.h1 b) (H.h2 b) self.size self.hashCount

theorem getHashValues_eq (self : BloomFilter) (item : α) :
    getHashValues H self item = positions H self <$> itemBytes H item := by
  unfold getHashValues
  cases itemBytes H item <;> rfl

/-- `str(item).encode('utf-8')` raises exactly when `str(item)` does or when its
encoding does. -/
theorem itemBytes_eq_error_iff (item : α) (e : PyError) :
    itemBytes H item = .error e ↔
      H.str item = .error e ∨ ∃ s, H.str item = .ok s ∧ encodeUtf8 s = .error e := by
  unfold itemBytes
  cases H.str item <;> simp [bind, Except.bind]

@[simp] theorem length_hashValues (h1 h2 : Nat) (size hashCount : Int) :
    (hashValues h1 h2 size hashCount).length = hashCount.toNat := by
  simp [hashValues]

/-- Every position lies in `[0, size)`. -/
theorem mem_hashValues_bounds {h1 h2 : Nat} {size hashCount p : Int} (hsize : 0 < size)
    (hp : p ∈ hashValues h1 h2 size hashCount) : 0 ≤ p ∧ p < size := by
  simp only [hashValues, List.mem_map] at hp
  obtain ⟨i, -, rfl⟩ := hp
  exact ⟨Int.emod_nonneg _ (by omega), Int.emod_lt_of_pos _ hsize⟩

/-- With a natural size the positions are natural numbers, computed in `ℕ`. -/
theorem hashValues_natCast (h1 h2 size hashCount : Nat) :
    hashValues h1 h2 size hashCount =
      (List.range hashCount).map fun i => (((h1 + i * h2) % size : Nat) : Int) := by
  simp [hashValues]

/-! ## `add` -/

/-- The loop of `add`: `for position in hash_values: self.bit_array[position] = True`. -/
def addLoop (self : BloomFilter) : List Int → Outcome Unit
  | [] => ⟨self, .ok ()⟩
  | position :: rest =>
    match setItem self.bitArray position true with
    | .ok bitArray => addLoop { self with bitArray } rest
    | .error e => ⟨self, .error e⟩

/-- `add(item)`. -/
def add (self : BloomFilter) (item : α) : Outcome Unit :=
  match getHashValues H self item with
  | .error e => ⟨self, .error e⟩
  | .ok hashValues =>
    let r := addLoop self hashValues
    match r.result with
    | .ok () => ⟨{ r.self with itemsAdded := r.self.itemsAdded + 1 }, .ok ()⟩
    | .error e => ⟨r.self, .error e⟩

/-- The bit array after `bit_array[p] = True` for each `p` of `ps` in turn. -/
def markAll (xs : List Bool) (ps : List Int) : List Bool :=
  ps.foldl (fun xs p => xs.set p.toNat true) xs

@[simp] theorem length_markAll (xs : List Bool) (ps : List Int) :
    (markAll xs ps).length = xs.length := by
  induction ps generalizing xs with
  | nil => rfl
  | cons p ps ih => simp only [markAll, List.foldl_cons] at ih ⊢; rw [ih, List.length_set]

/-- After marking, a cell is set iff it was set or it is one of the positions. -/
theorem getElem?_markAll {xs : List Bool} {ps : List Int} (hps : ∀ p ∈ ps, 0 ≤ p)
    (j : Nat) : (markAll xs ps)[j]? = xs[j]?.map (· || decide ((j : Int) ∈ ps)) := by
  induction ps generalizing xs with
  | nil => simp [markAll]
  | cons p ps ih =>
    have hp : p.toNat = j ↔ p = j := by have := hps p (.head _); omega
    simp only [markAll, List.foldl_cons] at ih ⊢
    rw [ih (fun q hq => hps q (.tail _ hq)), List.getElem?_set]
    by_cases hpj : p = j
    · subst hpj
      by_cases hl : j < xs.length
      · simp [hl, List.getElem?_eq_getElem hl]
      · simp [hl, List.getElem?_eq_none (Nat.le_of_not_lt hl)]
    · cases xs[j]? <;> simp [hp, hpj, Ne.symm hpj]

/-- With every position in range the loop writes them all and raises nothing. -/
theorem addLoop_of_inRange (self : BloomFilter) {ps : List Int}
    (hps : ∀ p ∈ ps, 0 ≤ p ∧ p.toNat < self.bitArray.length) :
    addLoop self ps = ⟨{ self with bitArray := markAll self.bitArray ps }, .ok ()⟩ := by
  induction ps generalizing self with
  | nil => rfl
  | cons p ps ih =>
    obtain ⟨h0, hlt⟩ := hps p (.head _)
    simp only [addLoop, setItem_of_lt true h0 hlt]
    rw [ih]
    · rfl
    · intro q hq; simpa using hps q (.tail _ hq)

/-- An item whose bytes cannot be computed raises before any write. -/
theorem add_of_itemBytes_error (self : BloomFilter) {item : α} {e : PyError}
    (h : itemBytes H item = .error e) : add H self item = ⟨self, .error e⟩ := by
  simp [add, getHashValues_eq, h, Functor.map, Except.map]

/-- With every position of the item in range, `add` marks them all and counts
the call. -/
theorem add_of_inRange (self : BloomFilter) {item : α} {b : Bytes}
    (h : itemBytes H item = .ok b)
    (hps : ∀ p ∈ positions H self b, 0 ≤ p ∧ p.toNat < self.bitArray.length) :
    add H self item =
      ⟨{ self with
          bitArray := markAll self.bitArray (positions H self b)
          itemsAdded := self.itemsAdded + 1 }, .ok ()⟩ := by
  simp [add, getHashValues_eq, h, Functor.map, Except.map, addLoop_of_inRange _ hps]

/-! ## `contains` -/

/-- The loop of `contains`: the first position whose bit is `False` returns
`False`; past the last position it returns `True`. -/
def containsLoop (bitArray : List Bool) : List Int → Except PyError Bool
  | [] => .ok true
  | position :: rest =>
    match getItem bitArray position with
    | .ok bit => if !bit then .ok false else containsLoop bitArray rest
    | .error e => .error e

/-- `contains(item)`, also `item in bf`. -/
def contains (self : BloomFilter) (item : α) : Except PyError Bool := do
  let hashValues ← getHashValues H self item
  containsLoop self.bitArray hashValues

/-- With every position in range the loop answers whether all of them are set. -/
theorem containsLoop_of_inRange {xs : List Bool} {ps : List Int}
    (hps : ∀ p ∈ ps, 0 ≤ p ∧ p.toNat < xs.length) :
    containsLoop xs ps = .ok (ps.all fun p => xs.getD p.toNat false) := by
  induction ps with
  | nil => rfl
  | cons p ps ih =>
    obtain ⟨h0, hlt⟩ := hps p (.head _)
    simp only [containsLoop, getItem_of_lt h0 hlt, List.all_cons]
    rw [ih fun q hq => hps q (.tail _ hq)]
    simp only [List.getD_eq_getElem?_getD, List.getElem?_eq_getElem hlt, Option.getD_some,
      List.get_eq_getElem]
    cases xs[p.toNat] <;> rfl

theorem contains_eq (self : BloomFilter) (item : α) :
    contains H self item =
      (itemBytes H item).bind fun b => containsLoop self.bitArray (positions H self b) := by
  simp only [contains, getHashValues_eq]
  cases itemBytes H item <;> rfl

/-! ## Statistics -/

/-- `get_fill_ratio()`: `sum(self.bit_array) / self.size`, a true division of
two `int`s. -/
def getFillRatio (self : BloomFilter) : Except PyError ℚ :=
  let setBits := (self.bitArray.map Bool.toNat).sum
  if self.size = 0 then .error .zeroDivisionError else .ok ((setBits : ℚ) / self.size)

/-- `len(bf)`, i.e. `__len__`. -/
def len (self : BloomFilter) : Nat := self.itemsAdded

/-- `sum` over a list of `bool`s counts the `True`s. -/
theorem sum_map_toNat (xs : List Bool) : (xs.map Bool.toNat).sum = xs.count true := by
  induction xs with
  | nil => rfl
  | cons x xs ih => cases x <;> simp [ih, List.count_cons, Nat.add_comm]

theorem getFillRatio_of_pos {self : BloomFilter} (h : 0 < self.size) :
    getFillRatio self = .ok ((self.bitArray.count true : ℚ) / self.size) := by
  simp [getFillRatio, show self.size ≠ 0 by omega, sum_map_toNat]

end BloomFilter

end SystemDesign
