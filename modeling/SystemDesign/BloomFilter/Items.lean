/-
  BloomFilter/Items.lean --- the filter on Python's builtin values, with the
  digests the program uses.

  `add` accepts "any hashable type", and Python's `set` treats two values as
  one item when they compare equal (`1 == True`).  The filter does not: it keys
  an item on `str(item)`, so `1` and `True` are different items to it, while
  any two values with the same `str()` are the same.  A builtin value has no
  key in two cases: a `str` holding a lone surrogate, which UTF-8 cannot
  encode, and an `int` past CPython's digit limit, which `str()` refuses.
  `add` raises on it before touching the instance, and the call is not counted.
-/
import SystemDesign.BloomFilter.Guarantees

set_option autoImplicit false

namespace SystemDesign.BloomFilter

open SystemDesign.Python

/-! ## Which values have bytes -/

/-- A Lean character is never a surrogate. -/
theorem isSurrogate_ofChar (c : Char) : (CodePoint.ofChar c).isSurrogate = false := by
  have := c.valid
  simp only [CodePoint.isSurrogate, CodePoint.ofChar, Char.toNat, Bool.and_eq_false_iff,
    decide_eq_false_iff_not, Nat.not_le, Nat.not_lt]
  simp only [Nat.isValidChar, UInt32.isValidChar] at this
  omega

theorem not_surrogate_ofString (s : String) : ∀ c ∈ ofString s, c.isSurrogate = false := by
  simp only [ofString, List.mem_map]
  rintro _ ⟨c, -, rfl⟩
  exact isSurrogate_ofChar c

/-- A builtin value has a key unless it is a `str` holding a surrogate or an
`int` whose `str()` exceeds CPython's digit limit. -/
theorem itemBytes_pyHashing_error_iff (v : PyValue) :
    (∃ e, itemBytes pyHashing v = .error e) ↔
      (∃ s, v = .str s ∧ ∃ c ∈ s, c.isSurrogate) ∨
        ∃ n, v = .int n ∧ PyValue.maxStrDigits < (Nat.repr n.natAbs).length := by
  have henc : ∀ t : String, ¬∃ e, encodeUtf8 (ofString t) = .error e := fun t h => by
    obtain ⟨c, hc, hs⟩ := (encodeUtf8_error_iff _).1 h
    simp [not_surrogate_ofString t c hc] at hs
  cases v with
  | str s => exact (encodeUtf8_error_iff s).trans (by simp)
  | none => exact iff_of_false (henc _) (by simp)
  | bool b => cases b <;> exact iff_of_false (henc _) (by simp)
  | int n =>
    show (∃ e, (PyValue.builtinStr (.int n)).bind encodeUtf8 = .error e) ↔ _
    rw [PyValue.builtinStr]
    split_ifs with hlim
    · exact iff_of_true ⟨_, rfl⟩ (.inr ⟨n, rfl, hlim⟩)
    · exact iff_of_false (henc _) (by simp [hlim])

/-- The string `'\ud800'`, a lone surrogate. -/
def loneSurrogate : PyStr := [⟨0xD800, by decide⟩]

/-- In a reachable instance, `add` on a builtin value raises exactly when the
value is a `str` holding a surrogate or an `int` whose `str()` exceeds CPython's
digit limit: on every other value it succeeds. -/
theorem add_pyValue_error_iff {size hashCount : Int} {s : BloomFilter}
    (hr : Reachable pyHashing size hashCount s) (v : PyValue) :
    (∃ e, (add pyHashing s v).result = .error e) ↔
      (∃ t, v = .str t ∧ ∃ c ∈ t, c.isSurrogate) ∨
        ∃ n, v = .int n ∧ PyValue.maxStrDigits < (Nat.repr n.natAbs).length := by
  obtain ⟨L, hL, -, -⟩ := hr.abstracts
  rw [← itemBytes_pyHashing_error_iff, add_result hL]
  cases itemBytes pyHashing v with
  | error e => exact iff_of_true ⟨e, rfl⟩ ⟨e, rfl⟩
  | ok b => exact iff_of_false (fun ⟨_, h⟩ => nomatch h) (fun ⟨_, h⟩ => nomatch h)

/-- `add('\ud800')` raises after `BloomFilter(10, 3)` and `add(1)`. -/
theorem add_pyValue_error_iff_after_add :
    let s := (Call.add (PyValue.int 1)).apply pyHashing ⟨10, 3, List.replicate 10 false, 0⟩
    Reachable pyHashing 10 3 s ∧
    ((∃ e, (add pyHashing s (.str loneSurrogate)).result = .error e) ↔
      (∃ t, PyValue.str loneSurrogate = .str t ∧ ∃ c ∈ t, c.isSurrogate) ∨
        ∃ n, PyValue.str loneSurrogate = .int n ∧
          PyValue.maxStrDigits < (Nat.repr n.natAbs).length) := by
  intro s
  have hr : Reachable pyHashing 10 3 s := reachable_init_ten_three_add (.int 1)
  exact ⟨hr, add_pyValue_error_iff hr _⟩

/-- `add('\ud800')` raises and is not counted: after one `add` call,
`items_added` is still `0`. -/
theorem add_lone_surrogate_not_counted :
    init 10 3 = .ok ⟨10, 3, List.replicate 10 false, 0⟩ ∧
    (run pyHashing ⟨10, 3, List.replicate 10 false, 0⟩
      [.add (.str loneSurrogate)]).itemsAdded = 0 :=
  ⟨rfl, rfl⟩

/-! ## Equal values, different items -/

variable {α : Type} (H : Hashing α) {size hashCount : Int} {s₀ : BloomFilter}

/-- An item is reported present after any item with the same `str()` was
added: `contains(y)` returns `True`, or raises exactly when
`str(y).encode('utf-8')` does, and then `add(x)` raised the same error and left
the instance as it was, whatever its state. -/
theorem contains_of_added_same_str (h₀ : init size hashCount = .ok s₀)
    (calls : List (Call α)) {x y : α} (hx : Call.add x ∈ calls) (hxy : H.str x = H.str y) :
    contains H (run H s₀ calls) y = (fun _ => true) <$> itemBytes H y ∧
    ∀ e, contains H (run H s₀ calls) y = .error e → ∀ s, add H s x = ⟨s, .error e⟩ := by
  obtain ⟨L, hL, hkeys, -, -⟩ := run_abstracts_init H h₀ calls
  have hbytes : itemBytes H x = itemBytes H y := by simp only [itemBytes, hxy]
  have hcontains : contains H (run H s₀ calls) y = (fun _ => true) <$> itemBytes H y := by
    rw [contains_abstracts hL]
    cases hy : itemBytes H y with
    | error e => rfl
    | ok b =>
      have hmem : b ∈ L.keys := hkeys ▸ (mem_addedKeys H).2 ⟨x, hx, hbytes.trans hy⟩
      exact congrArg Except.ok (Ledger.mayContain_of_mem hmem)
  refine ⟨hcontains, fun e he s => add_of_itemBytes_error H s ?_⟩
  rw [hcontains, ← hbytes] at he
  revert he
  cases itemBytes H x with
  | error e' => intro he; cases he; rfl
  | ok b => intro he; cases he

/-- After `add(1)`, `contains('1')` returns `True`: the two share `str()`. -/
theorem contains_of_added_same_str_one :
    init 10 3 = .ok ⟨10, 3, List.replicate 10 false, 0⟩ ∧
    Call.add (PyValue.int 1) ∈ [Call.add (PyValue.int 1)] ∧
    pyHashing.str (.int 1) = pyHashing.str (.str (ofString "1")) ∧
    contains pyHashing (run pyHashing ⟨10, 3, List.replicate 10 false, 0⟩ [.add (.int 1)])
      (.str (ofString "1")) = (fun _ => true) <$> itemBytes pyHashing (.str (ofString "1")) ∧
    ∀ e,
      contains pyHashing (run pyHashing ⟨10, 3, List.replicate 10 false, 0⟩ [.add (.int 1)])
        (.str (ofString "1")) = .error e →
      ∀ s, add pyHashing s (.int 1) = ⟨s, .error e⟩ :=
  ⟨rfl, List.mem_singleton_self _, rfl,
    contains_of_added_same_str pyHashing
      (show init 10 3 = .ok ⟨10, 3, List.replicate 10 false, 0⟩ from rfl) [.add (.int 1)]
      (List.mem_singleton_self _) rfl⟩

set_option maxRecDepth 100000 in
/-- `1 == True` in Python, yet after `bf = BloomFilter(1000, 5)` and
`bf.add(1)` the query `bf.contains(True)` returns `False`: the positions of
`'1'` and of `'True'` differ. -/
theorem contains_true_after_add_one :
    init 1000 5 = .ok ⟨1000, 5, List.replicate 1000 false, 0⟩ ∧
    PyValue.eq (.int 1) (.bool true) = true ∧
    contains pyHashing
      (run pyHashing ⟨1000, 5, List.replicate 1000 false, 0⟩ [.add (.int 1)]) (.bool true) =
      .ok false :=
  ⟨rfl, rfl, by rfl⟩

end SystemDesign.BloomFilter
