import CodeAtlas.Text.Quoted

/-!
# Compressed files

A compressed file is a sequence of members, each a header, a deflated stream, a checksum and a
length. Zeros may stand between members.
-/

namespace CodeAtlas.Gzip

/-- Why a compressed file cannot be read. -/
inductive Fault where
  /-- It does not start with the mark of compressed files. -/
  | mark (bytes : List UInt8)
  | method
  | ended
  | checksum (stated found : Nat)
  | length
  | stream (fault : Deflate.Fault)
deriving DecidableEq, Repr

/-- A number in hexadecimal digits, as few as possible. -/
def hexNumber (n : Nat) : String := "0x" ++ String.ofList (Nat.toDigits 16 n)

def Fault.message : Fault → String
  | .mark bytes => s!"Not a gzipped file ({Text.quotedBytes bytes})"
  | .method => "Unknown compression method"
  | .ended => "Compressed file ended before the end-of-stream marker was reached"
  | .checksum stated found => s!"CRC check failed {hexNumber stated} != {hexNumber found}"
  | .length => "Incorrect length of data produced"
  | .stream f => s!"Error -3 while decompressing data: {f.text}"

/-- The two bytes that every compressed file starts with. -/
def magic : List UInt8 := [0x1f, 0x8b]

/-! ### Headers -/

/-- Drops `n` bytes that have to be there. -/
def skip (n : Nat) (bytes : List UInt8) : Except Fault (List UInt8) :=
  if bytes.length < n then .error .ended else .ok (bytes.drop n)

/-- Drops a text that ends in a zero, or with the bytes. -/
def skipText (bytes : List UInt8) : List UInt8 := (bytes.dropWhile (· ≠ 0)).drop 1

/-- Reads a header and gives what follows it; nothing if there is no further member. -/
def header (bytes : List UInt8) : Except Fault (Option (List UInt8)) := do
  if bytes.isEmpty then return none
  if bytes.take 2 ≠ magic then throw (.mark (bytes.take 2))
  match bytes.drop 2 with
  | method :: flags :: rest =>
    let rest ← skip 6 rest
    if method ≠ 8 then throw .method
    let rest ← if flags &&& 4 ≠ 0 then
        match rest with
        | low :: high :: rest => skip (Deflate.pair low high) rest
        | _ => throw .ended
      else pure rest
    let rest := if flags &&& 8 ≠ 0 then skipText rest else rest
    let rest := if flags &&& 16 ≠ 0 then skipText rest else rest
    let rest ← if flags &&& 2 ≠ 0 then skip 2 rest else pure rest
    return some rest
  | _ => throw .ended

/-- A number of four bytes, the lowest first. -/
def word (a b c d : UInt8) : Nat := Deflate.pair a b + 65536 * Deflate.pair c d

/-- Checks what follows a stream and gives what follows it, zeros dropped. -/
def trailer (content : List UInt8) : List UInt8 → Except Fault (List UInt8)
  | a :: b :: c :: d :: e :: f :: g :: h :: rest =>
    let found := (Hash.crc32 content).toNat
    if word a b c d ≠ found then .error (.checksum (word a b c d) found)
    else if word e f g h ≠ content.length % Nat.pow 2 32 then .error .length
    else .ok (rest.dropWhile (· = 0))
  | _ => .error .ended

/-- Reads members one after the other. -/
def members : Nat → List UInt8 → Except Fault (List UInt8)
  | 0, _ => .ok []
  | fuel + 1, bytes => do
    match ← header bytes with
    | none => return []
    | some rest =>
      match Deflate.inflate rest with
      | .error .ended => throw .ended
      | .error f => throw (.stream f)
      | .ok (content, rest) =>
        let rest ← trailer content rest
        return content ++ (← members fuel rest)

def decompress (bytes : List UInt8) : Except Fault (List UInt8) := members (bytes.length + 1) bytes

/-! ### Writing -/

/-- The four bytes of a number, the lowest first. -/
def wordBytes (n : Nat) : List UInt8 := Deflate.pairBytes n ++ Deflate.pairBytes (n / 65536)

/-- A compressed file of one member. -/
def compress (content : List UInt8) : List UInt8 :=
  magic ++ [8, 0, 0, 0, 0, 0, 2, 255] ++ Deflate.deflate content
    ++ wordBytes (Hash.crc32 content).toNat ++ wordBytes (content.length % Nat.pow 2 32)

end CodeAtlas.Gzip
