import CodeAtlas.Data.Value
import CodeAtlas.Number.Digits

/-!
# Reading JSON

The reader works on the characters that are left. Numbers that are not finite are read by name,
integers are exact up to the digit limit, and of several entries with one key the last value stands.
-/

namespace CodeAtlas.Json

/-- What is wrong with a document. -/
inductive Fault where
  | expectingValue
  | expectingKey
  | expectingColon
  | expectingComma
  | unterminatedString
  | controlCharacter
  | badEscape
  | badUnicodeEscape
  | extraData
  | byteOrderMark
  | tooManyDigits (count : Nat)
deriving DecidableEq, Repr

/-- A fault and the characters left where it was noticed. -/
structure ReadError where
  fault : Fault
  rest : List Char
deriving Repr

def Fault.text : Fault → String
  | expectingValue => "Expecting value"
  | expectingKey => "Expecting property name enclosed in double quotes"
  | expectingColon => "Expecting ':' delimiter"
  | expectingComma => "Expecting ',' delimiter"
  | unterminatedString => "Unterminated string starting at"
  | controlCharacter => "Invalid control character at"
  | badEscape => "Invalid \\escape"
  | badUnicodeEscape => "Invalid \\uXXXX escape"
  | extraData => "Extra data"
  | byteOrderMark => "Unexpected UTF-8 BOM (decode using utf-8-sig)"
  | tooManyDigits count =>
    "Exceeds the limit (4300 digits) for integer string conversion: value has " ++ toString count
      ++ " digits; use sys.set_int_max_str_digits() to increase the limit"

/-- Whether a document is refused for its size only: it is well formed, but a number has too many
digits. -/
def ReadError.isLimit (e : ReadError) : Bool :=
  match e.fault with
  | .tooManyDigits _ => true
  | _ => false

/-- The fault with its line, column and offset in the whole document. -/
def ReadError.message (e : ReadError) (whole : List Char) : String :=
  match e.fault with
  | .tooManyDigits _ => e.fault.text
  | _ =>
    let pos := whole.length - e.rest.length
    let before := whole.take pos
    let line := before.count '\n' + 1
    let column := (before.reverse.takeWhile (· != '\n')).length + 1
    e.fault.text ++ ": line " ++ toString line ++ " column " ++ toString column ++ " (char "
      ++ toString pos ++ ")"

def failAt {α : Type} (fault : Fault) (rest : List Char) : Except ReadError α :=
  .error ⟨fault, rest⟩

def skipBlanks (cs : List Char) : List Char :=
  cs.dropWhile fun c => c = ' ' || c = '\t' || c = '\n' || c = '\r'

/-! ### Strings -/

/-- The 16-bit unit of four hexadecimal digits, which must not be the last characters. -/
def hexUnit? : List Char → Option (Nat × List Char)
  | a :: b :: c :: d :: e :: rest => do
    let a ← Text.hexValue? a
    let b ← Text.hexValue? b
    let c ← Text.hexValue? c
    let d ← Text.hexValue? d
    some (((a * 16 + b) * 16 + c) * 16 + d, e :: rest)
  | _ => none

def isHighSurrogate (n : Nat) : Bool := 0xd800 ≤ n && n < 0xdc00

def isLowSurrogate (n : Nat) : Bool := 0xdc00 ≤ n && n < 0xe000

def simpleEscape? : Char → Option Char
  | '"' => some '"'
  | '\\' => some '\\'
  | '/' => some '/'
  | 'b' => some (Char.ofNat 8)
  | 'f' => some (Char.ofNat 12)
  | 'n' => some '\n'
  | 'r' => some '\r'
  | 't' => some '\t'
  | _ => none

/-- The character of a unit escape, `rest` following its first unit `n`; two halves are joined. -/
def joinUnits (n : Nat) (rest : List Char) : Except ReadError (Char × List Char) :=
  if isHighSurrogate n then
    match rest with
    | '\\' :: 'u' :: more =>
      match hexUnit? more with
      | some (m, rest') =>
        if isLowSurrogate m then
          .ok (Char.ofNat (0x10000 + (n - 0xd800) * 0x400 + (m - 0xdc00)), rest')
        else .ok (Char.ofNat 0xfffd, rest)
      | none => failAt .badUnicodeEscape ('u' :: more)
    | _ => .ok (Char.ofNat 0xfffd, rest)
  else if isLowSurrogate n then .ok (Char.ofNat 0xfffd, rest)
  else .ok (Char.ofNat n, rest)

/-- Reads a string after its opening quote, which stood at the head of `start`. -/
def readString (start : List Char) : Nat → List Char → Except ReadError (List Char × List Char)
  | 0, _ => failAt .unterminatedString start
  | _ + 1, [] => failAt .unterminatedString start
  | _ + 1, '"' :: rest => .ok ([], rest)
  | _ + 1, ['\\'] => failAt .unterminatedString start
  | fuel + 1, '\\' :: 'u' :: rest =>
    match hexUnit? rest with
    | none => failAt .badUnicodeEscape ('u' :: rest)
    | some (n, rest') => do
      let (c, rest') ← joinUnits n rest'
      let (cs, rest') ← readString start fuel rest'
      .ok (c :: cs, rest')
  | fuel + 1, '\\' :: e :: rest =>
    match simpleEscape? e with
    | none => failAt .badEscape ('\\' :: e :: rest)
    | some c => do
      let (cs, rest') ← readString start fuel rest
      .ok (c :: cs, rest')
  | fuel + 1, c :: rest =>
    if c.toNat < 0x20 then failAt .controlCharacter (c :: rest)
    else do
      let (cs, rest') ← readString start fuel rest
      .ok (c :: cs, rest')

/-! ### Numbers -/

/-- The digits at the head, and what follows them. -/
def spanDigits (cs : List Char) : List Char × List Char :=
  (cs.takeWhile Char.isDigit, cs.dropWhile Char.isDigit)

/-- The fraction at the head: a point and at least one digit. -/
def spanFraction : List Char → List Char × List Char
  | '.' :: rest =>
    match spanDigits rest with
    | ([], _) => ([], '.' :: rest)
    | (ds, rest') => (ds, rest')
  | cs => ([], cs)

def exponentDigits : List Char → Option (Int × List Char)
  | '-' :: rest =>
    match spanDigits rest with
    | ([], _) => none
    | (ds, rest') => some (-(Digits.ofChars 10 ds : Int), rest')
  | '+' :: rest =>
    match spanDigits rest with
    | ([], _) => none
    | (ds, rest') => some ((Digits.ofChars 10 ds : Int), rest')
  | cs =>
    match spanDigits cs with
    | ([], _) => none
    | (ds, rest') => some ((Digits.ofChars 10 ds : Int), rest')

/-- The exponent at the head, if there is a whole one. -/
def spanExponent (cs : List Char) : Option (Int × List Char) :=
  match cs with
  | 'e' :: rest => exponentDigits rest
  | 'E' :: rest => exponentDigits rest
  | _ => none

/-- The whole part of a number: a zero, or digits that do not start with zero. -/
def spanWhole : List Char → Option (List Char × List Char)
  | '0' :: rest => some (['0'], rest)
  | cs =>
    match spanDigits cs with
    | ([], _) => none
    | (ds, rest) => some (ds, rest)

/-- Reads a number after its sign; `start` is where it began. -/
def readNumber (neg : Bool) (start cs : List Char) : Except ReadError (Value × List Char) :=
  match spanWhole cs with
  | none => failAt .expectingValue start
  | some (whole, rest) =>
    let (frac, rest1) := spanFraction rest
    match frac, spanExponent rest1 with
    | [], none =>
      if Digits.limit < whole.length then failAt (.tooManyDigits whole.length) start
      else
        let n : Int := Digits.ofChars 10 whole
        .ok (.int (if neg then -n else n), rest1)
    | frac, none =>
      .ok (.float (.ofDecimal neg (Digits.ofChars 10 (whole ++ frac)) (-(frac.length : Int))),
        rest1)
    | frac, some (e, rest2) =>
      .ok (.float (.ofDecimal neg (Digits.ofChars 10 (whole ++ frac)) (e - (frac.length : Int))),
        rest2)

/-! ### Values -/

/-- What is left after a keyword at the head. -/
def keyword? (word : String) (cs : List Char) : Option (List Char) :=
  if word.toList.isPrefixOf cs then some (cs.drop word.length) else none

/-- Reads the values with a name, and numbers. -/
def readScalar (cs : List Char) : Except ReadError (Value × List Char) :=
  match keyword? "null" cs, keyword? "true" cs, keyword? "false" cs with
  | some rest, _, _ => .ok (.null, rest)
  | _, some rest, _ => .ok (.bool true, rest)
  | _, _, some rest => .ok (.bool false, rest)
  | none, none, none =>
    match keyword? "NaN" cs, keyword? "Infinity" cs, keyword? "-Infinity" cs with
    | some rest, _, _ => .ok (.float .nan, rest)
    | _, some rest, _ => .ok (.float (.infinite false), rest)
    | _, _, some rest => .ok (.float (.infinite true), rest)
    | none, none, none =>
      match cs with
      | '-' :: rest => readNumber true cs rest
      | _ => readNumber false cs cs

mutual

/-- Reads a value; the first argument bounds the number of steps. -/
def readValue : Nat → List Char → Except ReadError (Value × List Char)
  | 0, cs => failAt .expectingValue cs
  | fuel + 1, cs =>
    match cs with
    | '"' :: rest => do
      let (s, rest') ← readString cs fuel rest
      .ok (.str (String.ofList s), rest')
    | '[' :: rest =>
      match skipBlanks rest with
      | ']' :: rest' => .ok (.list [], rest')
      | rest' => do
        let (vs, rest'') ← readItems fuel rest'
        .ok (.list vs, rest'')
    | '\x7b' :: rest =>
      match skipBlanks rest with
      | '\x7d' :: rest' => .ok (.table [], rest')
      | rest' => do
        let (es, rest'') ← readEntries fuel rest'
        .ok (.table (Value.entriesOf es), rest'')
    | _ => readScalar cs

/-- Reads the items of a list and its closing bracket. -/
def readItems : Nat → List Char → Except ReadError (List Value × List Char)
  | 0, cs => failAt .expectingValue cs
  | fuel + 1, cs => do
    let (v, rest) ← readValue fuel cs
    match skipBlanks rest with
    | ']' :: rest' => .ok ([v], rest')
    | ',' :: rest' => do
      let (vs, rest'') ← readItems fuel (skipBlanks rest')
      .ok (v :: vs, rest'')
    | rest' => failAt .expectingComma rest'

/-- Reads the entries of a table and its closing brace. -/
def readEntries : Nat → List Char → Except ReadError (List (String × Value) × List Char)
  | 0, cs => failAt .expectingKey cs
  | fuel + 1, cs =>
    match cs with
    | '"' :: rest => do
      let (k, rest1) ← readString cs fuel rest
      match skipBlanks rest1 with
      | ':' :: rest2 => do
        let (v, rest3) ← readValue fuel (skipBlanks rest2)
        match skipBlanks rest3 with
        | '\x7d' :: rest4 => .ok ([(String.ofList k, v)], rest4)
        | ',' :: rest4 => do
          let (es, rest5) ← readEntries fuel (skipBlanks rest4)
          .ok ((String.ofList k, v) :: es, rest5)
        | rest4 => failAt .expectingComma rest4
      | rest2 => failAt .expectingColon rest2
    | _ => failAt .expectingKey cs

end

/-- Reads a whole document. Every character takes two steps at most: an opening bracket is passed by
the value and by its items. -/
def readChars (cs : List Char) : Except ReadError Value := do
  if cs.head?.any (·.toNat = 0xfeff) then failAt .byteOrderMark cs
  let (v, rest) ← readValue (2 * cs.length + 2) (skipBlanks cs)
  match skipBlanks rest with
  | [] => .ok v
  | rest' => failAt .extraData rest'

def read (s : String) : Except ReadError Value := readChars s.toList

end CodeAtlas.Json
