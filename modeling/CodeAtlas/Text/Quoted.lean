import CodeAtlas.Text.Tables

/-!
# Quoted texts

A quoted text stands between single quotes, or between double quotes when it holds a single quote
and no double one. Backslashes, the quote and characters that cannot be shown are escaped.
-/

namespace CodeAtlas.Text

/-! ### Lone surrogates -/

/-- Whether a character stands for half of a surrogate pair. -/
def isLone (c : Char) : Bool := 0x10d800 ≤ c.toNat && c.toNat < 0x10e000

/-- The code point that a character stands for. -/
def codeOf (c : Char) : Nat := if isLone c then c.toNat - 0x100000 else c.toNat

/-- The character that stands for a code point. -/
def codeChar (n : Nat) : Char :=
  if 0xd800 ≤ n && n < 0xe000 then Char.ofNat (n + 0x100000) else Char.ofNat n

/-- Whether a text can be encoded. -/
def isEncodable (s : String) : Bool := s.toList.all (!isLone ·)

/-- Why a text cannot be encoded: there are halves of pairs from `first` to `last`. -/
structure EncodeFault where
  first : Nat
  last : Nat
  char : Char
deriving DecidableEq

/-- The first fault in a text that cannot be encoded. -/
def encodeFault? (s : String) : Option EncodeFault :=
  match s.toList.dropWhile (!isLone ·) with
  | [] => none
  | c :: cs =>
    let first := (s.toList.takeWhile (!isLone ·)).length
    some ⟨first, first + (cs.takeWhile isLone).length, c⟩


/-! ### Quoted texts -/

def hexDigit (n : Nat) : Char :=
  if n < 10 then Char.ofNat (48 + n) else Char.ofNat (87 + n)

/-- The lower `width` hexadecimal digits of a number. -/
def hexDigits : Nat → Nat → List Char
  | 0, _ => []
  | width + 1, n => hexDigits width (n / 16) ++ [hexDigit (n % 16)]

/-- The escape of a character by its code point. -/
def codeEscape (n : Nat) : List Char :=
  if n < 0x100 then '\\' :: 'x' :: hexDigits 2 n
  else if n < 0x10000 then '\\' :: 'u' :: hexDigits 4 n
  else '\\' :: 'U' :: hexDigits 8 n

def escapeChar (c : Char) : List Char :=
  if c = '\\' then ['\\', '\\']
  else if c = '\t' then ['\\', 't']
  else if c = '\n' then ['\\', 'n']
  else if c = '\r' then ['\\', 'r']
  else codeEscape (codeOf c)

/-- A character as it stands in a text quoted by `quote`. -/
def quotedChar (quote c : Char) : List Char :=
  if c = quote then ['\\', c]
  else if c = '\\' || isLone c || !isPrintable c then escapeChar c
  else [c]

/-- The quote that a text takes. -/
def quoteFor (cs : List Char) : Char :=
  if cs.contains '\'' && !cs.contains '"' then '"' else '\''

def quotedChars (cs : List Char) : List Char :=
  let q := quoteFor cs
  q :: (cs.flatMap (quotedChar q) ++ [q])

def quoted (s : String) : String := String.ofList (quotedChars s.toList)

/-- What is reported of a text that cannot be encoded. -/
def EncodeFault.message (f : EncodeFault) : String :=
  let what :=
    if f.first = f.last then
      s!"character '{String.ofList (codeEscape (codeOf f.char))}' in position {f.first}"
    else s!"characters in position {f.first}-{f.last}"
  s!"'utf-8' codec can't encode {what}: surrogates not allowed"

/-- A byte as it stands between quotes. -/
def quotedByte (quote : Char) (b : UInt8) : List Char :=
  let c := Char.ofNat b.toNat
  if c = quote then ['\\', c]
  else if c = '\\' then ['\\', '\\']
  else if b.toNat < 0x20 || 0x7f ≤ b.toNat then
    if c = '\t' || c = '\n' || c = '\r' then escapeChar c else codeEscape b.toNat
  else [c]

/-- A byte string in quotes, marked with a `b`. -/
def quotedBytes (bs : List UInt8) : String :=
  let q := quoteFor (bs.map fun b => Char.ofNat b.toNat)
  String.ofList ('b' :: q :: (bs.flatMap (quotedByte q) ++ [q]))

end CodeAtlas.Text
