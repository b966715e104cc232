/-
  Python/Hashlib.lean --- the two digests `_get_hash_values` reads:
  `int(hashlib.md5(b).hexdigest(), 16)` and the same with `sha256`.

  The filter's results hold for any pair of digests (see `Hashing`); these
  concrete ones let a run of the filter be evaluated on the very positions the
  program computes.  Both work on 32-bit words held as `Nat` below `2 ^ 32`,
  one 64-byte block at a time, as the two algorithms are specified.
-/
import Mathlib
import SystemDesign.Python.Runtime

set_option autoImplicit false

namespace SystemDesign.Python.Hashlib

/-! ## Words and blocks -/

/-- Reduction to a 32-bit word. -/
def w32 (x : Nat) : Nat := x % 0x100000000

/-- Bitwise complement of a 32-bit word. -/
def bnot (x : Nat) : Nat := 0xFFFFFFFF - x

/-- Rotation of a 32-bit word, left and right. -/
def rotl (x s : Nat) : Nat := w32 (x <<< s ||| x >>> (32 - s))
def rotr (x s : Nat) : Nat := w32 (x >>> s ||| x <<< (32 - s))

/-- Word `j` of a block, its bytes read little-endian (MD5) or big-endian. -/
def wordLE (blk : List Nat) (j : Nat) : Nat :=
  (List.range 4).foldr (fun i acc => acc * 256 + blk.getD (4 * j + i) 0) 0
def wordBE (blk : List Nat) (j : Nat) : Nat :=
  (List.range 4).foldl (fun acc i => acc * 256 + blk.getD (4 * j + i) 0) 0

/-- The bytes of a word, least significant first. -/
def bytesLE (width x : Nat) : List Nat := (List.range width).map fun i => x >>> (8 * i) % 256

/-- The message padded to whole 64-byte blocks: a `0x80` byte, zeros, and the
bit length in eight bytes, little-endian for MD5 and big-endian for SHA-256. -/
def pad (littleEndian : Bool) (m : Bytes) : List Nat :=
  let len := bytesLE 8 (8 * m.length)
  m.map UInt8.toNat ++ [0x80] ++ List.replicate ((55 + 64 - m.length % 64) % 64) 0 ++
    if littleEndian then len else len.reverse

/-- The 64-byte blocks of a padded message; `n` is their number. -/
def blocks : Nat → List Nat → List (List Nat)
  | 0, _ => []
  | n + 1, l => l.take 64 :: blocks n (l.drop 64)

/-- A padded message cut into its blocks. -/
def padBlocks (littleEndian : Bool) (m : Bytes) : List (List Nat) :=
  let p := pad littleEndian m
  blocks (p.length / 64) p

/-- `int(d.hexdigest(), 16)`: the digest bytes read as one big-endian number. -/
def digestInt (d : Bytes) : Nat := d.foldl (fun acc b => acc * 256 + b.toNat) 0

/-! ## MD5 -/

def md5K : List Nat := [
    0xd76aa478, 0xe8c7b756, 0x242070db, 0xc1bdceee, 0xf57c0faf, 0x4787c62a,
    0xa8304613, 0xfd469501, 0x698098d8, 0x8b44f7af, 0xffff5bb1, 0x895cd7be,
    0x6b901122, 0xfd987193, 0xa679438e, 0x49b40821, 0xf61e2562, 0xc040b340,
    0x265e5a51, 0xe9b6c7aa, 0xd62f105d, 0x02441453, 0xd8a1e681, 0xe7d3fbc8,
    0x21e1cde6, 0xc33707d6, 0xf4d50d87, 0x455a14ed, 0xa9e3e905, 0xfcefa3f8,
    0x676f02d9, 0x8d2a4c8a, 0xfffa3942, 0x8771f681, 0x6d9d6122, 0xfde5380c,
    0xa4beea44, 0x4bdecfa9, 0xf6bb4b60, 0xbebfbc70, 0x289b7ec6, 0xeaa127fa,
    0xd4ef3085, 0x04881d05, 0xd9d4d039, 0xe6db99e5, 0x1fa27cf8, 0xc4ac5665,
    0xf4292244, 0x432aff97, 0xab9423a7, 0xfc93a039, 0x655b59c3, 0x8f0ccc92,
    0xffeff47d, 0x85845dd1, 0x6fa87e4f, 0xfe2ce6e0, 0xa3014314, 0x4e0811a1,
    0xf7537e82, 0xbd3af235, 0x2ad7d2bb, 0xeb86d391]

def md5S : List Nat := [
    7, 12, 17, 22, 7, 12, 17, 22, 7, 12, 17, 22, 7, 12, 17, 22,
    5, 9, 14, 20, 5, 9, 14, 20, 5, 9, 14, 20, 5, 9, 14, 20,
    4, 11, 16, 23, 4, 11, 16, 23, 4, 11, 16, 23, 4, 11, 16, 23,
    6, 10, 15, 21, 6, 10, 15, 21, 6, 10, 15, 21, 6, 10, 15, 21]

/-- Round `i` of the MD5 compression of one block. -/
def md5Round (blk : List Nat) (st : Nat × Nat × Nat × Nat) (i : Nat) :
    Nat × Nat × Nat × Nat :=
  let (a, b, c, d) := st
  let (f, g) :=
    if i < 16 then ((b &&& c) ||| (bnot b &&& d), i)
    else if i < 32 then ((d &&& b) ||| (bnot d &&& c), (5 * i + 1) % 16)
    else if i < 48 then (b ^^^ c ^^^ d, (3 * i + 5) % 16)
    else (c ^^^ (b ||| bnot d), 7 * i % 16)
  let f := w32 (f + a + md5K.getD i 0 + wordLE blk g)
  (d, w32 (b + rotl f (md5S.getD i 0)), b, c)

def md5Block (st : Nat × Nat × Nat × Nat) (blk : List Nat) : Nat × Nat × Nat × Nat :=
  let (a, b, c, d) := (List.range 64).foldl (md5Round blk) st
  let (a₀, b₀, c₀, d₀) := st
  (w32 (a₀ + a), w32 (b₀ + b), w32 (c₀ + c), w32 (d₀ + d))

/-- `hashlib.md5(m).digest()`. -/
def md5 (m : Bytes) : Bytes :=
  let (a, b, c, d) := (padBlocks true m).foldl md5Block
    (0x67452301, 0xefcdab89, 0x98badcfe, 0x10325476)
  ([a, b, c, d].flatMap (bytesLE 4)).map UInt8.ofNat

/-! ## SHA-256 -/

def sha256K : List Nat := [
    0x428a2f98, 0x71374491, 0xb5c0fbcf, 0xe9b5dba5, 0x3956c25b, 0x59f111f1,
    0x923f82a4, 0xab1c5ed5, 0xd807aa98, 0x12835b01, 0x243185be, 0x550c7dc3,
    0x72be5d74, 0x80deb1fe, 0x9bdc06a7, 0xc19bf174, 0xe49b69c1, 0xefbe4786,
    0x0fc19dc6, 0x240ca1cc, 0x2de92c6f, 0x4a7484aa, 0x5cb0a9dc, 0x76f988da,
    0x983e5152, 0xa831c66d, 0xb00327c8, 0xbf597fc7, 0xc6e00bf3, 0xd5a79147,
    0x06ca6351, 0x14292967, 0x27b70a85, 0x2e1b2138, 0x4d2c6dfc, 0x53380d13,
    0x650a7354, 0x766a0abb, 0x81c2c92e, 0x92722c85, 0xa2bfe8a1, 0xa81a664b,
    0xc24b8b70, 0xc76c51a3, 0xd192e819, 0xd6990624, 0xf40e3585, 0x106aa070,
    0x19a4c116, 0x1e376c08, 0x2748774c, 0x34b0bcb5, 0x391c0cb3, 0x4ed8aa4a,
    0x5b9cca4f, 0x682e6ff3, 0x748f82ee, 0x78a5636f, 0x84c87814, 0x8cc70208,
    0x90befffa, 0xa4506ceb, 0xbef9a3f7, 0xc67178f2]

def sha256H : List Nat := [
    0x6a09e667, 0xbb67ae85, 0x3c6ef372, 0xa54ff53a, 0x510e527f, 0x9b05688c,
    0x1f83d9ab, 0x5be0cd19]

/-- The 64-word message schedule of one block. -/
def sha256Schedule (blk : List Nat) : List Nat :=
  (List.range 48).foldl
    (fun w t =>
      let x := w.getD (t + 1) 0
      let y := w.getD (t + 14) 0
      w ++ [w32 ((rotr y 17 ^^^ rotr y 19 ^^^ y >>> 10) + w.getD (t + 9) 0 +
        (rotr x 7 ^^^ rotr x 18 ^^^ x >>> 3) + w.getD t 0)])
    ((List.range 16).map (wordBE blk))

/-- Round `t` of the SHA-256 compression, on the state `[a, b, c, d, e, f, g, h]`. -/
def sha256Round (w : List Nat) (st : List Nat) (t : Nat) : List Nat :=
  match st with
  | [a, b, c, d, e, f, g, h] =>
    let t₁ := h + (rotr e 6 ^^^ rotr e 11 ^^^ rotr e 25) + ((e &&& f) ^^^ (bnot e &&& g)) +
      sha256K.getD t 0 + w.getD t 0
    let t₂ := (rotr a 2 ^^^ rotr a 13 ^^^ rotr a 22) + ((a &&& b) ^^^ (a &&& c) ^^^ (b &&& c))
    [w32 (t₁ + t₂), a, b, c, w32 (d + t₁), e, f, g]
  | st => st

def sha256Block (st : List Nat) (blk : List Nat) : List Nat :=
  let w := sha256Schedule blk
  List.zipWith (fun x y => w32 (x + y)) st ((List.range 64).foldl (sha256Round w) st)

/-- `hashlib.sha256(m).digest()`. -/
def sha256 (m : Bytes) : Bytes :=
  (((padBlocks false m).foldl sha256Block sha256H).flatMap
    fun x => (bytesLE 4 x).reverse).map UInt8.ofNat

end SystemDesign.Python.Hashlib
