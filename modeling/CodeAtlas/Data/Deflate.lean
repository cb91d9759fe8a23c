/-!
# Deflated data

Blocks are stored as they are, or coded with fixed or with their own prefix codes. All of it can be
read; what is written is stored.
-/

namespace CodeAtlas.Hash

/-! ### Checksums -/

/-- One step of the cyclic checksum: a bit goes out at the low end. -/
def crcBit (c : UInt32) : UInt32 := if c &&& 1 = 1 then (c >>> 1) ^^^ 0xEDB88320 else c >>> 1

def crcByte (c : UInt32) (b : UInt8) : UInt32 :=
  crcBit (crcBit (crcBit (crcBit (crcBit (crcBit (crcBit (crcBit (c ^^^ b.toUInt32))))))))

/-- The cyclic checksum of 32 bits. -/
def crc32 (bytes : List UInt8) : UInt32 := bytes.foldl crcByte 0xFFFFFFFF ^^^ 0xFFFFFFFF

/-- The two sums of bytes, modulo 65521, in one number. -/
def adler32 (bytes : List UInt8) : Nat :=
  let (a, b) := bytes.foldl (fun (a, b) x => let a := (a + x.toNat) % 65521; (a, (b + a) % 65521))
    (1, 0)
  b * 65536 + a

end CodeAtlas.Hash

namespace CodeAtlas.Deflate

/-! ### Deflated data -/

/-- Why a stream cannot be read. -/
inductive Fault where
  | ended
  | blockType
  | storedLengths
  | tooManySymbols
  | codeLengths
  | lengthRepeat
  | noEndOfBlock
  | literalSet
  | distanceSet
  | literalCode
  | distanceCode
  | tooFarBack
deriving DecidableEq, Repr

def Fault.text : Fault → String
  | .ended => "incomplete or truncated stream"
  | .blockType => "invalid block type"
  | .storedLengths => "invalid stored block lengths"
  | .tooManySymbols => "too many length or distance symbols"
  | .codeLengths => "invalid code lengths set"
  | .lengthRepeat => "invalid bit length repeat"
  | .noEndOfBlock => "invalid code -- missing end-of-block"
  | .literalSet => "invalid literal/lengths set"
  | .distanceSet => "invalid distances set"
  | .literalCode => "invalid literal/length code"
  | .distanceCode => "invalid distance code"
  | .tooFarBack => "invalid distance too far back"

/-! ### Bits -/

/-- A stream of bits, each byte from its lowest bit on: bits of a byte that are left, and the bytes
after it. -/
structure Bits where
  held : List Bool := []
  rest : List UInt8
deriving Repr

/-- The bits of a byte, from the lowest. -/
def bitsOf : Nat → Nat → List Bool
  | 0, _ => []
  | k + 1, n => (n % 2 = 1) :: bitsOf k (n / 2)

def Bits.next : Bits → Except Fault (Bool × Bits)
  | ⟨b :: held, rest⟩ => .ok (b, ⟨held, rest⟩)
  | ⟨[], byte :: rest⟩ => .ok (byte.toNat % 2 = 1, ⟨bitsOf 7 (byte.toNat / 2), rest⟩)
  | ⟨[], []⟩ => .error .ended

/-- A number of `n` bits, the lowest first. -/
def Bits.number : Nat → Bits → Except Fault (Nat × Bits)
  | 0, s => .ok (0, s)
  | n + 1, s => do
    let (b, s) ← s.next
    let (k, s) ← s.number n
    return (2 * k + b.toNat, s)

/-! ### Prefix codes -/

/-- A prefix code: for each length from one on, the symbols with codes of that length, in order. -/
abbrev Code := List (List Nat)

def maxLength : Nat := 15

/-- The code in which symbol `i` has the `i`-th length; length zero means that it has no code. -/
def Code.ofLengths (lengths : List Nat) : Code :=
  (List.range maxLength).map fun l =>
    (lengths.zipIdx.filter fun (n, _) => n = l + 1).map (·.2)

/-- How many codes of the longest length are free: negative if there are too many symbols. -/
def Code.free (c : Code) : Int :=
  c.foldl (fun left symbols => 2 * left - symbols.length) 1

/-- Whether a code is fit for reading: complete, empty, or with a single symbol of length one. Codes
for lengths (`strict`) have to be complete or empty. -/
def Code.isFit (strict : Bool) (c : Code) : Bool :=
  let used := c.flatten.length
  let free := c.free
  used = 0 || 0 ≤ free && fitsPartway c 1 &&
    (free = 0 || (!strict && used = 1 && (c.headD []).length = 1))
where
  /-- No length has more symbols than codes are left. -/
  fitsPartway : Code → Int → Bool
    | [], _ => true
    | symbols :: rest, left =>
      let left := 2 * left - symbols.length
      0 ≤ left && fitsPartway rest left

/-- Reads a symbol: the bits so far are `code`, and the codes of the present length start at
`first`. -/
def Code.symbol (s : Bits) (code first : Nat) : Code → Except Fault (Option Nat × Bits)
  | [] => .ok (none, s)
  | symbols :: longer => do
    let (b, s) ← s.next
    let code := code + b.toNat
    match symbols[code - first]? with
    | some symbol => return (some symbol, s)
    | none =>
      if longer.all (·.isEmpty) then return (none, s)
      else Code.symbol s (2 * code) (2 * (first + symbols.length)) longer

/-- Reads a symbol; codes that mean nothing are an error. -/
def Code.read (c : Code) (fault : Fault) (s : Bits) : Except Fault (Nat × Bits) := do
  if c.all (·.isEmpty) then
    let (_, _) ← s.next
    throw fault
  else
    match ← Code.symbol s 0 0 c with
    | (some symbol, s) => return (symbol, s)
    | (none, _) => throw fault

/-! ### Blocks -/

/-- Base and number of extra bits of a length symbol, counted from 257. -/
def lengthBase : List (Nat × Nat) := [
  (3, 0), (4, 0), (5, 0), (6, 0), (7, 0), (8, 0), (9, 0), (10, 0), (11, 1), (13, 1), (15, 1),
  (17, 1),
  (19, 2), (23, 2), (27, 2), (31, 2), (35, 3), (43, 3), (51, 3), (59, 3), (67, 4), (83, 4), (99, 4),
  (115, 4), (131, 5), (163, 5), (195, 5), (227, 5), (258, 0)]

/-- Base and number of extra bits of a distance symbol. -/
def distanceBase : List (Nat × Nat) := [
  (1, 0), (2, 0), (3, 0), (4, 0), (5, 1), (7, 1), (9, 2), (13, 2), (17, 3), (25, 3), (33, 4),
  (49, 4),
  (65, 5), (97, 5), (129, 6), (193, 6), (257, 7), (385, 7), (513, 8), (769, 8), (1025, 9),
  (1537, 9),
  (2049, 10), (3073, 10), (4097, 11), (6145, 11), (8193, 12), (12289, 12), (16385, 13), (24577, 13)]

/-- Repeats `n` bytes from `distance` bytes back. -/
def copyBack (distance : Nat) : Nat → Array UInt8 → Array UInt8
  | 0, out => out
  | n + 1, out => copyBack distance n (out.push (out.getD (out.size - distance) 0))

/-- Reads the symbols of a block up to its end; the first argument bounds their number. -/
def symbols (literals distances : Code) :
    Nat → Bits → Array UInt8 → Except Fault (Bits × Array UInt8)
  | 0, _, _ => .error .ended
  | fuel + 1, s, out => do
    let (symbol, s) ← literals.read .literalCode s
    if symbol < 256 then symbols literals distances fuel s (out.push symbol.toUInt8)
    else if symbol = 256 then return (s, out)
    else
      match lengthBase[symbol - 257]? with
      | none => throw .literalCode
      | some (base, extra) =>
        let (more, s) ← s.number extra
        let (d, s) ← distances.read .distanceCode s
        match distanceBase[d]? with
        | none => throw .distanceCode
        | some (dbase, dextra) =>
          let (dmore, s) ← s.number dextra
          if out.size < dbase + dmore then throw .tooFarBack
          else symbols literals distances fuel s (copyBack (dbase + dmore) (base + more) out)

def fixedLiterals : Code := .ofLengths
  (List.replicate 144 8 ++ List.replicate 112 9 ++ List.replicate 24 7 ++ List.replicate 8 8)

def fixedDistances : Code := .ofLengths (List.replicate 32 5)

/-- The order in which the lengths of the code for lengths are given. -/
def lengthOrder : List Nat := [16, 17, 18, 0, 8, 7, 9, 6, 10, 5, 11, 4, 12, 3, 13, 2, 14, 1, 15]

/-- Reads `n` numbers of three bits. -/
def triples : Nat → Bits → Except Fault (List Nat × Bits)
  | 0, s => .ok ([], s)
  | n + 1, s => do
    let (k, s) ← s.number 3
    let (ks, s) ← triples n s
    return (k :: ks, s)

/-- Reads code lengths until there are `want`; `known` are there, the last one first. -/
def codeLengths (code : Code) (want : Nat) : Nat → List Nat → Bits → Except Fault (List Nat × Bits)
  | 0, _, _ => .error .ended
  | fuel + 1, known, s => do
    if want ≤ known.length then return (known.reverse, s)
    else
      let (symbol, s) ← if code.all (·.isEmpty) then do
          let (_, s) ← s.next
          pure (0, s)
        else code.read .codeLengths s
      if symbol < 16 then codeLengths code want fuel (symbol :: known) s
      else
        let again (value count : Nat) (s : Bits) : Except Fault (List Nat × Bits) :=
          if want < known.length + count then throw .lengthRepeat
          else codeLengths code want fuel (List.replicate count value ++ known) s
        if symbol = 16 then
          match known with
          | [] => throw .lengthRepeat
          | last :: _ =>
            let (n, s) ← s.number 2
            again last (3 + n) s
        else if symbol = 17 then
          let (n, s) ← s.number 3
          again 0 (3 + n) s
        else
          let (n, s) ← s.number 7
          again 0 (11 + n) s

/-- Reads the codes of a block that brings its own. -/
def ownCodes (s : Bits) : Except Fault (Code × Code × Bits) := do
  let (nlit, s) ← s.number 5
  let (ndist, s) ← s.number 5
  let (nlen, s) ← s.number 4
  let nlit := nlit + 257
  let ndist := ndist + 1
  if 286 < nlit || 30 < ndist then throw .tooManySymbols
  let (given, s) ← triples (nlen + 4) s
  let lengths := (List.range 19).map fun symbol =>
    ((lengthOrder.zip given).lookup symbol).getD 0
  let lengthCode := Code.ofLengths lengths
  if !lengthCode.isFit true then throw .codeLengths
  let (all, s) ← codeLengths lengthCode (nlit + ndist) (nlit + ndist + 1) [] s
  if all.getD 256 0 = 0 then throw .noEndOfBlock
  let literals := Code.ofLengths (all.take nlit)
  if !literals.isFit false then throw .literalSet
  let distances := Code.ofLengths (all.drop nlit)
  if !distances.isFit false then throw .distanceSet
  return (literals, distances, s)

/-- A number of two bytes, the lower one first. -/
def pair (low high : UInt8) : Nat := low.toNat + 256 * high.toNat

/-- Reads a stored block, which starts at the next full byte. -/
def stored (s : Bits) (out : Array UInt8) : Except Fault (Bits × Array UInt8) :=
  match s.rest with
  | a :: b :: c :: d :: rest =>
    let n := pair a b
    if n + pair c d ≠ 65535 then .error .storedLengths
    else if rest.length < n then .error .ended
    else .ok (⟨[], rest.drop n⟩, out ++ rest.take n)
  | _ => .error .ended

/-- Reads blocks up to the last one. -/
def blocks : Nat → Bits → Array UInt8 → Except Fault (Bits × Array UInt8)
  | 0, _, _ => .error .ended
  | fuel + 1, s, out => do
    let (isLast, s) ← s.next
    let (kind, s) ← s.number 2
    let (s, out) ← match kind with
      | 0 => stored s out
      | 1 => symbols fixedLiterals fixedDistances (8 * s.rest.length + 8) s out
      | 2 => do
        let (literals, distances, s) ← ownCodes s
        symbols literals distances (8 * s.rest.length + 8) s out
      | _ => throw .blockType
    if isLast then return (s, out) else blocks fuel s out

/-- Reads a stream and gives what it holds and the bytes after it. -/
def inflate (bytes : List UInt8) : Except Fault (List UInt8 × List UInt8) := do
  let (s, out) ← blocks (8 * bytes.length + 1) { rest := bytes } #[]
  return (out.toList, s.rest)

/-! ### Writing -/

/-- The most bytes that a stored block holds. -/
def storedMax : Nat := 65535

/-- The two bytes of a number, the lower one first. -/
def pairBytes (n : Nat) : List UInt8 := [(n % 256).toUInt8, (n / 256 % 256).toUInt8]

def storedBlock (isLast : Bool) (bytes : List UInt8) : List UInt8 :=
  (if isLast then 1 else 0) :: pairBytes bytes.length ++ pairBytes (65535 - bytes.length) ++ bytes

/-- Writes stored blocks; the first argument bounds their number. -/
def deflateFrom : Nat → List UInt8 → List UInt8
  | 0, bytes => storedBlock true bytes
  | n + 1, bytes =>
    if bytes.length ≤ storedMax then storedBlock true bytes
    else storedBlock false (bytes.take storedMax) ++ deflateFrom n (bytes.drop storedMax)

/-- A stream that holds the bytes. -/
def deflate (bytes : List UInt8) : List UInt8 := deflateFrom (bytes.length / storedMax) bytes

end CodeAtlas.Deflate

namespace CodeAtlas.Zlib

/-! ### Compressed data with a checksum -/

/-- The header for the strongest compression. -/
def header : List UInt8 := [0x78, 0xDA]

/-- The bytes of a checksum, the highest first. -/
def checksum (bytes : List UInt8) : List UInt8 :=
  let n := Hash.adler32 bytes
  [(n / 16777216 % 256).toUInt8, (n / 65536 % 256).toUInt8, (n / 256 % 256).toUInt8,
    (n % 256).toUInt8]

def compress (bytes : List UInt8) : List UInt8 := header ++ Deflate.deflate bytes ++ checksum bytes

/-- What compressed data stand for, if they are whole. -/
def decompress? (data : List UInt8) : Option (List UInt8) :=
  match data with
  | a :: b :: rest =>
    if (a.toNat * 256 + b.toNat) % 31 ≠ 0 || a.toNat % 16 ≠ 8 then none
    else
      match Deflate.inflate rest with
      | .ok (bytes, tail) => if tail.take 4 = checksum bytes then some bytes else none
      | .error _ => none
  | _ => none

end CodeAtlas.Zlib
