/-
  Python/Runtime.lean --- the slice of the Python runtime that
  `algorithms/bloom_filter/bloom_filter.py` touches.

  The filter stores its bits in a plain `list`, subscripts it with `int`s, and
  keys every item on `str(item).encode('utf-8')`.  This file fixes what those
  three operations do, as CPython does them:

      xs[i], xs[i] = v     a negative index counts from the end; anything else
                           out of range raises `IndexError`
      s.encode('utf-8')    a `str` is a sequence of code points and may hold a
                           lone surrogate, which the strict codec refuses
      str(v), v == w       for the builtin values the test suite adds: `None`,
                           `bool`, `int` and `str`

  Floats, tuples and user classes are not modelled here; the filter itself is
  generic in the item type and only asks for `str()` (see `Hashing`).
-/
import Mathlib.Data.List.Basic

set_option autoImplicit false

namespace SystemDesign.Python

/-! ## Exceptions -/

/-- The exceptions raised on the paths of the filter's code. -/
inductive PyError where
  /-- `ValueError(msg)`, raised by the filter's own argument checks -/
  | valueError (msg : String)
  /-- `IndexError(msg)`, raised by a list subscript out of range -/
  | indexError (msg : String)
  /-- `UnicodeEncodeError` of the strict `'utf-8'` codec; `start` is the index of
  the first code point it cannot encode (a surrogate) -/
  | unicodeEncodeError (start : Nat)
  /-- `ZeroDivisionError("division by zero")` -/
  | zeroDivisionError
  /-- any other exception, raised by code outside the model (a `__str__`) -/
  | other (type msg : String)
  deriving DecidableEq, Repr

/-- The exception is an `IndexError`. -/
def PyError.isIndexError : PyError → Bool
  | .indexError _ => true
  | _ => false

/-! ## List subscripts -/

/-- The position a subscript `i` denotes in a list of length `n`: Python adds
`n` to a negative index. -/
def normIndex (n : Nat) (i : Int) : Int := if i < 0 then i + n else i

/-- `xs[i]`. -/
def getItem {α : Type} (xs : List α) (i : Int) : Except PyError α :=
  let j := normIndex xs.length i
  if h : 0 ≤ j ∧ j.toNat < xs.length then .ok (xs.get ⟨j.toNat, h.2⟩)
  else .error (.indexError "list index out of range")

/-- `xs[i] = v`, returning the updated list. -/
def setItem {α : Type} (xs : List α) (i : Int) (v : α) : Except PyError (List α) :=
  let j := normIndex xs.length i
  if 0 ≤ j ∧ j.toNat < xs.length then .ok (xs.set j.toNat v)
  else .error (.indexError "list assignment index out of range")

section Subscript

variable {α : Type} {xs : List α} {i : Int}

theorem normIndex_of_nonneg {n : Nat} (hi : 0 ≤ i) : normIndex n i = i := by
  simp [normIndex, Int.not_lt.mpr hi]

/-- An index in `[0, len xs)` reads the cell it names. -/
theorem getItem_of_lt (hi : 0 ≤ i) (hlt : i.toNat < xs.length) :
    getItem xs i = .ok (xs.get ⟨i.toNat, hlt⟩) := by
  simp [getItem, normIndex_of_nonneg hi, hi, hlt]

/-- An index in `[0, len xs)` writes the cell it names. -/
theorem setItem_of_lt (v : α) (hi : 0 ≤ i) (hlt : i.toNat < xs.length) :
    setItem xs i v = .ok (xs.set i.toNat v) := by
  simp [setItem, normIndex_of_nonneg hi, hi, hlt]

/-- A subscript fails only with `IndexError`. -/
theorem getItem_error {e : PyError} (h : getItem xs i = .error e) : e.isIndexError := by
  dsimp only [getItem] at h
  split at h <;> cases h
  rfl

theorem setItem_error {v : α} {e : PyError} (h : setItem xs i v = .error e) :
    e.isIndexError := by
  dsimp only [setItem] at h
  split at h <;> cases h
  rfl

end Subscript

/-! ## Text and its UTF-8 encoding -/

/-- A Unicode code point.  A Python `str` may hold any of them, the surrogates
`U+D800`..`U+DFFF` included; Lean's `Char` excludes those, hence a type of our
own. -/
structure CodePoint where
  val : Nat
  lt : val < 0x110000
  deriving DecidableEq, Repr

/-- A Python `str`: its code points, in order. -/
abbrev PyStr := List CodePoint

/-- A Python `bytes` object. -/
abbrev Bytes := List UInt8

/-- The code point of a Lean character. -/
def CodePoint.ofChar (c : Char) : CodePoint :=
  ⟨c.toNat, by rcases c.valid with h | h <;> simp only [Char.toNat] <;> omega⟩

/-- The Python `str` with the characters of a Lean string. -/
def ofString (s : String) : PyStr := s.toList.map CodePoint.ofChar

/-- A lone surrogate, which no UTF-8 byte sequence encodes. -/
def CodePoint.isSurrogate (c : CodePoint) : Bool := 0xD800 ≤ c.val && c.val < 0xE000

/-- The UTF-8 bytes of one code point. -/
def encodeCodePoint (c : Nat) : Bytes :=
  if c < 0x80 then [.ofNat c]
  else if c < 0x800 then [.ofNat (0xC0 + c / 64), .ofNat (0x80 + c % 64)]
  else if c < 0x10000 then
    [.ofNat (0xE0 + c / 4096), .ofNat (0x80 + c / 64 % 64), .ofNat (0x80 + c % 64)]
  else
    [.ofNat (0xF0 + c / 262144), .ofNat (0x80 + c / 4096 % 64),
      .ofNat (0x80 + c / 64 % 64), .ofNat (0x80 + c % 64)]

/-- The strict codec from position `start` on: it stops at the first surrogate. -/
def encodeFrom (start : Nat) : PyStr → Except PyError Bytes
  | [] => .ok []
  | c :: cs =>
    if c.isSurrogate then .error (.unicodeEncodeError start)
    else (encodeCodePoint c.val ++ ·) <$> encodeFrom (start + 1) cs

/-- `s.encode('utf-8')`. -/
def encodeUtf8 (s : PyStr) : Except PyError Bytes := encodeFrom 0 s

/-- The codec fails exactly on a string holding a surrogate. -/
theorem encodeFrom_error_iff (start : Nat) (s : PyStr) :
    (∃ e, encodeFrom start s = .error e) ↔ ∃ c ∈ s, c.isSurrogate := by
  induction s generalizing start with
  | nil => simp [encodeFrom]
  | cons c cs ih =>
    by_cases hc : c.isSurrogate
    · simp [encodeFrom, hc]
    · have ih := ih (start + 1)
      cases h : encodeFrom (start + 1) cs <;>
        simp_all [encodeFrom, Functor.map, Except.map]

theorem encodeUtf8_error_iff (s : PyStr) :
    (∃ e, encodeUtf8 s = .error e) ↔ ∃ c ∈ s, c.isSurrogate :=
  encodeFrom_error_iff 0 s

/-! ## Builtin values -/

/-- The builtin values the filter's tests add. -/
inductive PyValue where
  | none
  | bool (b : Bool)
  | int (n : Int)
  | str (s : PyStr)
  deriving DecidableEq, Repr

namespace PyValue

/-- `str(v)`; for an `int` it is the decimal numeral, a minus sign first. -/
def toStr : PyValue → PyStr
  | .none => ofString "None"
  | .bool true => ofString "True"
  | .bool false => ofString "False"
  | .int n => ofString (toString n)
  | .str s => s

/-- CPython's default limit on the decimal digits `str()` writes for an `int`,
`sys.get_int_max_str_digits()`. -/
def maxStrDigits : Nat := 4300

/-- `str(v)` as CPython runs it: an `int` of more than `maxStrDigits` decimal
digits, the sign aside, raises `ValueError` instead of being written. -/
def builtinStr (v : PyValue) : Except PyError PyStr :=
  match v with
  | .int n =>
    if maxStrDigits < (Nat.repr n.natAbs).length then
      .error (.valueError ("Exceeds the limit (4300 digits) for integer string conversion; " ++
        "use sys.set_int_max_str_digits() to increase the limit"))
    else .ok v.toStr
  | _ => .ok v.toStr

/-- The integer a value stands for: `bool` is a subclass of `int`. -/
def asInt? : PyValue → Option Int
  | .bool b => some (if b then 1 else 0)
  | .int n => some n
  | _ => Option.none

/-- `v == w`.  Numbers compare by value across `bool` and `int`, so
`True == 1`. -/
def eq (v w : PyValue) : Bool :=
  match v, w with
  | .none, .none => true
  | .str s, .str t => s == t
  | _, _ =>
    match v.asInt?, w.asInt? with
    | some a, some b => a == b
    | _, _ => false

end PyValue

end SystemDesign.Python
