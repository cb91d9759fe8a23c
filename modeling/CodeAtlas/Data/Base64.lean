import CodeAtlas.Data.Deflate

/-!
# Base 64

Three bytes are written as four characters; the last group is filled up with equals signs.
-/

namespace CodeAtlas.Base64

/-! ### Base 64 -/

/-- The characters for the numbers below 64. -/
def alphabet : List Char :=
  "ABCDEFGHIJKLMNOPQRSTUVWXYZabcdefghijklmnopqrstuvwxyz0123456789+/".toList

/-- The character for a number below 64. -/
def digit (n : Nat) : Char := alphabet.getD (n % 64) 'A'

def encode : List UInt8 → List Char
  | [] => []
  | [a] =>
    let n := a.toNat * 65536
    [digit (n / 262144), digit (n / 4096), '=', '=']
  | [a, b] =>
    let n := a.toNat * 65536 + b.toNat * 256
    [digit (n / 262144), digit (n / 4096), digit (n / 64), '=']
  | a :: b :: c :: rest =>
    let n := a.toNat * 65536 + b.toNat * 256 + c.toNat
    digit (n / 262144) :: digit (n / 4096) :: digit (n / 64) :: digit n :: encode rest

/-- The number of a character. -/
def value? (c : Char) : Option Nat := alphabet.idxOf? c

/-- Reads what was written from bytes. -/
def decode? : List Char → Option (List UInt8)
  | [] => some []
  | [a, b, '=', '='] => do
    let n := (← value? a) * 262144 + (← value? b) * 4096
    return [(n / 65536).toUInt8]
  | [a, b, c, '='] => do
    let n := (← value? a) * 262144 + (← value? b) * 4096 + (← value? c) * 64
    return [(n / 65536).toUInt8, (n / 256 % 256).toUInt8]
  | a :: b :: c :: d :: rest => do
    let n := (← value? a) * 262144 + (← value? b) * 4096 + (← value? c) * 64 + (← value? d)
    let bytes ← decode? rest
    return (n / 65536).toUInt8 :: (n / 256 % 256).toUInt8 :: (n % 256).toUInt8 :: bytes
  | _ => none

end CodeAtlas.Base64

namespace CodeAtlas.Text

/-! ### Packed texts -/

/-- The lines of a packed text; no lines where the data are not whole. -/
def unpack (packed : List String) : List String :=
  let text? := do
    let data ← Base64.decode? (packed.flatMap String.toList)
    let bytes ← Zlib.decompress? data
    String.fromUTF8? ⟨bytes.toArray⟩
  (text?.map (·.splitOn "\n")).getD []

end CodeAtlas.Text
