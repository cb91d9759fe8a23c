import CodeAtlas.Text.Quoted

/-!
# Hashes of byte streams

A hash function takes its input in blocks of 64 bytes and pads the last one with a mark and the
input's length. Bytes wait until a block is full, so the input may come in pieces of any size.
-/

namespace CodeAtlas.Hash

/-! ### Hashes of byte streams -/

/-- The order in which the bytes of a word are written. -/
inductive Endian where
  | big
  | little
deriving DecidableEq, Repr

/-- The bytes of a number, from the lowest. -/
def lowBytes : Nat → Nat → List UInt8
  | 0, _ => []
  | k + 1, n => (n % 256).toUInt8 :: lowBytes k (n / 256)

def Endian.bytes (e : Endian) (k n : Nat) : List UInt8 :=
  match e with
  | .little => lowBytes k n
  | .big => (lowBytes k n).reverse

/-- The word that four bytes are. -/
def Endian.word (e : Endian) (a b c d : UInt8) : UInt32 :=
  match e with
  | .big => (a.toUInt32 <<< 24) ||| (b.toUInt32 <<< 16) ||| (c.toUInt32 <<< 8) ||| d.toUInt32
  | .little => (d.toUInt32 <<< 24) ||| (c.toUInt32 <<< 16) ||| (b.toUInt32 <<< 8) ||| a.toUInt32

def Endian.words (e : Endian) : List UInt8 → List UInt32
  | a :: b :: c :: d :: rest => e.word a b c d :: e.words rest
  | _ => []

def rotl (x : UInt32) (n : UInt32) : UInt32 := (x <<< n) ||| (x >>> (32 - n))

def rotr (x : UInt32) (n : UInt32) : UInt32 := (x >>> n) ||| (x <<< (32 - n))

/-- A hash function of the block kind, over states of type `σ`. -/
structure Method (σ : Type) where
  endian : Endian
  start : σ
  /-- Takes in one block, given as sixteen words. -/
  compress : σ → List UInt32 → σ
  words : σ → List UInt32

/-- A hash under way: the state after all full blocks, the bytes that wait, the last one first, and
how many bytes came in all. -/
structure Stream (σ : Type) where
  state : σ
  waiting : List UInt8 := []
  count : Nat := 0

variable {σ : Type}

namespace Method

def fresh (m : Method σ) : Stream σ := { state := m.start }

def push (m : Method σ) (s : Stream σ) (b : UInt8) : Stream σ :=
  if s.count % 64 = 63 then
    { state := m.compress s.state (m.endian.words (b :: s.waiting).reverse)
      waiting := []
      count := s.count + 1 }
  else { s with waiting := b :: s.waiting, count := s.count + 1 }

def update (m : Method σ) (s : Stream σ) (bytes : List UInt8) : Stream σ := bytes.foldl m.push s

/-- What is appended to an input of `count` bytes: a mark, zeros up to eight bytes before the end of
a block, and the length in bits. -/
def padding (m : Method σ) (count : Nat) : List UInt8 :=
  0x80 :: (List.replicate ((119 - count % 64) % 64) 0 ++
    m.endian.bytes 8 (count * 8 % Nat.pow 2 64))

/-- The result of a stream: pads it and writes out the state. -/
def close (m : Method σ) (s : Stream σ) : List UInt8 :=
  (m.words (m.update s (m.padding s.count)).state).flatMap fun w => m.endian.bytes 4 w.toNat

def hash (m : Method σ) (bytes : List UInt8) : List UInt8 := m.close (m.update m.fresh bytes)

/-- The hash of an input that comes in pieces. -/
def hashPieces (m : Method σ) (pieces : List (List UInt8)) : List UInt8 :=
  m.close (pieces.foldl m.update m.fresh)

theorem update_append (m : Method σ) (s : Stream σ) (xs ys : List UInt8) :
    m.update s (xs ++ ys) = m.update (m.update s xs) ys := List.foldl_append

theorem update_flatten (m : Method σ) (pieces : List (List UInt8)) (s : Stream σ) :
    pieces.foldl m.update s = m.update s pieces.flatten := by
  induction pieces generalizing s with
  | nil => rfl
  | cons p ps ih => rw [List.foldl_cons, ih, List.flatten_cons, update_append]

end Method

def hexText (bytes : List UInt8) : String :=
  String.ofList (bytes.flatMap fun b => Text.hexDigits 2 b.toNat)


/-! ### MD5 -/

/-- The state of MD5: four words. -/
structure Md5 where
  a : UInt32
  b : UInt32
  c : UInt32
  d : UInt32
deriving DecidableEq, Repr

namespace Md5

/-- The words added in the rounds: the sines of the round numbers. -/
def constants : List UInt32 := [
  0xd76aa478, 0xe8c7b756, 0x242070db, 0xc1bdceee, 0xf57c0faf, 0x4787c62a, 0xa8304613, 0xfd469501,
  0x698098d8, 0x8b44f7af, 0xffff5bb1, 0x895cd7be, 0x6b901122, 0xfd987193, 0xa679438e, 0x49b40821,
  0xf61e2562, 0xc040b340, 0x265e5a51, 0xe9b6c7aa, 0xd62f105d, 0x02441453, 0xd8a1e681, 0xe7d3fbc8,
  0x21e1cde6, 0xc33707d6, 0xf4d50d87, 0x455a14ed, 0xa9e3e905, 0xfcefa3f8, 0x676f02d9, 0x8d2a4c8a,
  0xfffa3942, 0x8771f681, 0x6d9d6122, 0xfde5380c, 0xa4beea44, 0x4bdecfa9, 0xf6bb4b60, 0xbebfbc70,
  0x289b7ec6, 0xeaa127fa, 0xd4ef3085, 0x04881d05, 0xd9d4d039, 0xe6db99e5, 0x1fa27cf8, 0xc4ac5665,
  0xf4292244, 0x432aff97, 0xab9423a7, 0xfc93a039, 0x655b59c3, 0x8f0ccc92, 0xffeff47d, 0x85845dd1,
  0x6fa87e4f, 0xfe2ce6e0, 0xa3014314, 0x4e0811a1, 0xf7537e82, 0xbd3af235, 0x2ad7d2bb, 0xeb86d391]

/-- How far each round turns its word. -/
def turn (i : Nat) : UInt32 :=
  let turns : List UInt32 :=
    if i < 16 then [7, 12, 17, 22] else if i < 32 then [5, 9, 14, 20]
    else if i < 48 then [4, 11, 16, 23] else [6, 10, 15, 21]
  turns.getD (i % 4) 0

/-- The mixing function of a round. -/
def mix (i : Nat) (b c d : UInt32) : UInt32 :=
  if i < 16 then (b &&& c) ||| (~~~b &&& d)
  else if i < 32 then (d &&& b) ||| (~~~d &&& c)
  else if i < 48 then b ^^^ c ^^^ d
  else c ^^^ (b ||| ~~~d)

/-- The word of the block that a round takes. -/
def wordOf (i : Nat) : Nat :=
  if i < 16 then i else if i < 32 then (5 * i + 1) % 16
  else if i < 48 then (3 * i + 5) % 16 else 7 * i % 16

def rounds (block : List UInt32) (s : Md5) (i : Nat) : List UInt32 → Md5
  | [] => s
  | k :: ks =>
    let x := s.a + mix i s.b s.c s.d + k + block.getD (wordOf i) 0
    rounds block ⟨s.d, s.b + rotl x (turn i), s.b, s.c⟩ (i + 1) ks

def compress (s : Md5) (block : List UInt32) : Md5 :=
  let t := rounds block s 0 constants
  ⟨s.a + t.a, s.b + t.b, s.c + t.c, s.d + t.d⟩

end Md5

def md5 : Method Md5 where
  endian := .little
  start := ⟨0x67452301, 0xefcdab89, 0x98badcfe, 0x10325476⟩
  compress := Md5.compress
  words s := [s.a, s.b, s.c, s.d]


/-! ### SHA-1 -/

/-- The state of SHA-1: five words. -/
structure Sha1 where
  a : UInt32
  b : UInt32
  c : UInt32
  d : UInt32
  e : UInt32
deriving DecidableEq, Repr

namespace Sha1

/-- The words of all rounds, from the sixteen words of a block, the last one first. -/
def schedule : Nat → List UInt32 → List UInt32
  | 0, w => w
  | k + 1, w =>
    schedule k (rotl (w.getD 2 0 ^^^ w.getD 7 0 ^^^ w.getD 13 0 ^^^ w.getD 15 0) 1 :: w)

/-- The mixing function and the constant of a round. -/
def mix (i : Nat) (b c d : UInt32) : UInt32 :=
  if i < 20 then ((b &&& c) ||| (~~~b &&& d)) + 0x5a827999
  else if i < 40 then (b ^^^ c ^^^ d) + 0x6ed9eba1
  else if i < 60 then ((b &&& c) ||| (b &&& d) ||| (c &&& d)) + 0x8f1bbcdc
  else (b ^^^ c ^^^ d) + 0xca62c1d6

def rounds (s : Sha1) (i : Nat) : List UInt32 → Sha1
  | [] => s
  | w :: ws =>
    rounds ⟨rotl s.a 5 + mix i s.b s.c s.d + s.e + w, s.a, rotl s.b 30, s.c, s.d⟩ (i + 1) ws

def compress (s : Sha1) (block : List UInt32) : Sha1 :=
  let t := s.rounds 0 (schedule 64 block.reverse).reverse
  ⟨s.a + t.a, s.b + t.b, s.c + t.c, s.d + t.d, s.e + t.e⟩

end Sha1

def sha1 : Method Sha1 where
  endian := .big
  start := ⟨0x67452301, 0xefcdab89, 0x98badcfe, 0x10325476, 0xc3d2e1f0⟩
  compress := Sha1.compress
  words s := [s.a, s.b, s.c, s.d, s.e]


/-! ### SHA-256 -/

/-- The state of SHA-256: eight words. -/
structure Sha256 where
  a : UInt32
  b : UInt32
  c : UInt32
  d : UInt32
  e : UInt32
  f : UInt32
  g : UInt32
  h : UInt32
deriving DecidableEq, Repr

namespace Sha256

/-- The words added in the rounds: the fractional parts of the cube roots of the first primes. -/
def constants : List UInt32 := [
  0x428a2f98, 0x71374491, 0xb5c0fbcf, 0xe9b5dba5, 0x3956c25b, 0x59f111f1, 0x923f82a4, 0xab1c5ed5,
  0xd807aa98, 0x12835b01, 0x243185be, 0x550c7dc3, 0x72be5d74, 0x80deb1fe, 0x9bdc06a7, 0xc19bf174,
  0xe49b69c1, 0xefbe4786, 0x0fc19dc6, 0x240ca1cc, 0x2de92c6f, 0x4a7484aa, 0x5cb0a9dc, 0x76f988da,
  0x983e5152, 0xa831c66d, 0xb00327c8, 0xbf597fc7, 0xc6e00bf3, 0xd5a79147, 0x06ca6351, 0x14292967,
  0x27b70a85, 0x2e1b2138, 0x4d2c6dfc, 0x53380d13, 0x650a7354, 0x766a0abb, 0x81c2c92e, 0x92722c85,
  0xa2bfe8a1, 0xa81a664b, 0xc24b8b70, 0xc76c51a3, 0xd192e819, 0xd6990624, 0xf40e3585, 0x106aa070,
  0x19a4c116, 0x1e376c08, 0x2748774c, 0x34b0bcb5, 0x391c0cb3, 0x4ed8aa4a, 0x5b9cca4f, 0x682e6ff3,
  0x748f82ee, 0x78a5636f, 0x84c87814, 0x8cc70208, 0x90befffa, 0xa4506ceb, 0xbef9a3f7, 0xc67178f2]

/-- The word after a list of words, the last one first. -/
def nextWord (w : List UInt32) : UInt32 :=
  let x := w.getD 1 0
  let y := w.getD 14 0
  (rotr x 17 ^^^ rotr x 19 ^^^ (x >>> 10)) + w.getD 6 0 +
    (rotr y 7 ^^^ rotr y 18 ^^^ (y >>> 3)) + w.getD 15 0

/-- The words of all rounds, from the sixteen words of a block, the last one first. -/
def schedule : Nat → List UInt32 → List UInt32
  | 0, w => w
  | k + 1, w => schedule k (nextWord w :: w)

def round (s : Sha256) (k w : UInt32) : Sha256 :=
  let t1 := s.h + (rotr s.e 6 ^^^ rotr s.e 11 ^^^ rotr s.e 25) +
    ((s.e &&& s.f) ^^^ (~~~s.e &&& s.g)) + k + w
  let t2 := (rotr s.a 2 ^^^ rotr s.a 13 ^^^ rotr s.a 22) +
    ((s.a &&& s.b) ^^^ (s.a &&& s.c) ^^^ (s.b &&& s.c))
  ⟨t1 + t2, s.a, s.b, s.c, s.d + t1, s.e, s.f, s.g⟩

def rounds (s : Sha256) : List UInt32 → List UInt32 → Sha256
  | k :: ks, w :: ws => rounds (s.round k w) ks ws
  | _, _ => s

def compress (s : Sha256) (block : List UInt32) : Sha256 :=
  let t := s.rounds constants (schedule 48 block.reverse).reverse
  ⟨s.a + t.a, s.b + t.b, s.c + t.c, s.d + t.d, s.e + t.e, s.f + t.f, s.g + t.g, s.h + t.h⟩

end Sha256

def sha256 : Method Sha256 where
  endian := .big
  start := ⟨0x6a09e667, 0xbb67ae85, 0x3c6ef372, 0xa54ff53a, 0x510e527f, 0x9b05688c, 0x1f83d9ab,
    0x5be0cd19⟩
  compress := Sha256.compress
  words s := [s.a, s.b, s.c, s.d, s.e, s.f, s.g, s.h]

end CodeAtlas.Hash
