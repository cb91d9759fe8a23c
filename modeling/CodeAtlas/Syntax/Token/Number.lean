import CodeAtlas.Number.Digits
import CodeAtlas.Syntax.Expr

/-!
# Number literals

Whole numbers in four bases, decimal fractions with an exponent, and imaginary numbers. A literal
must not run into a word, unless that word can follow a number, as in `1if x else y`.
-/

namespace CodeAtlas.Syntax

def isWordChar (c : Char) : Bool := c.isAlphanum || c = '_' || 128 ≤ c.toNat

/-- Whether a number literal may end in front of these characters. -/
def endsNumber : List Char → Bool
  | 'a' :: 'n' :: 'd' :: _ => true
  | 'e' :: 'l' :: 's' :: 'e' :: _ => true
  | 'f' :: 'o' :: 'r' :: _ => true
  | 'i' :: 'f' :: _ => true
  | 'i' :: 'n' :: _ => true
  | 'i' :: 's' :: _ => true
  | 'o' :: 'r' :: _ => true
  | 'n' :: 'o' :: 't' :: _ => true
  | c :: _ => !isWordChar c
  | [] => true

/-- The digits that continue a run, underscores removed, and what follows them. Fails on an
underscore that no digit follows. -/
def digitTail (isDigit : Char → Bool) : List Char → Option (List Char × List Char)
  | [] => some ([], [])
  | '_' :: cs =>
    match cs with
    | [] => none
    | d :: rest =>
      if isDigit d then (digitTail isDigit rest).map fun (ds, r) => (d :: ds, r) else none
  | c :: cs =>
    if isDigit c then (digitTail isDigit cs).map fun (ds, r) => (c :: ds, r)
    else some ([], c :: cs)

/-- The digits of a whole number in another base. -/
def basedDigits (base : Nat) (isDigit : Char → Bool) (cs : List Char) :
    Option (Constant × List Char) :=
  if cs.head?.any isDigit then do
    let (ds, rest) ← digitTail isDigit cs
    if rest.head?.any Char.isDigit || !endsNumber rest then none
    else some (.int (Digits.ofChars base ds), rest)
  else none

/-- A whole number in another base, after its two marking characters. -/
def basedNumber (base : Nat) (isDigit : Char → Bool) : List Char → Option (Constant × List Char)
  | '_' :: cs => basedDigits base isDigit cs
  | cs => basedDigits base isDigit cs

/-- A decimal literal as it is read: its digits, how many of them follow the point, its exponent,
and whether it has a point or an exponent. -/
structure DecimalLiteral where
  digits : List Char
  places : Nat := 0
  exponent : Int := 0
  whole : Bool := true

/-- The nearest floating-point number. -/
def DecimalLiteral.toBinary (d : DecimalLiteral) : Binary64 :=
  .ofDecimal false (Digits.ofChars 10 d.digits) (d.exponent - (d.places : Int))

/-- The number that a literal without a mark of its own stands for. Whole numbers have no leading
zeros, unless they are zero. -/
def DecimalLiteral.constant? (d : DecimalLiteral) : Option Constant :=
  if d.whole then
    let zeroLed := d.digits.head?.any (· = '0') && d.digits.any (· != '0')
    if zeroLed || Digits.limit < d.digits.length then none
      else some (.int (Digits.ofChars 10 d.digits))
  else some (.float d.toBinary)

/-- The digits in front of the point, if there are any. -/
def wholePart (cs : List Char) : Option (List Char × List Char) :=
  if cs.head?.any (· = '.') then some ([], cs) else digitTail Char.isDigit cs

/-- The fraction after the whole digits, if there is a point. -/
def fractionPart (whole : List Char) (cs : List Char) : Option (DecimalLiteral × List Char) :=
  match cs with
  | '.' :: rest =>
    match rest with
    | d :: _ =>
      if d.isDigit then do
        let (ds, rest') ← digitTail Char.isDigit rest
        some (⟨whole ++ ds, ds.length, 0, false⟩, rest')
      else some (⟨whole, 0, 0, false⟩, rest)
    | [] => some (⟨whole, 0, 0, false⟩, rest)
  | _ => some (⟨whole, 0, 0, true⟩, cs)

/-- The digits of an exponent after its sign. -/
def exponentTail (d : DecimalLiteral) (neg : Bool) (cs : List Char) :
    Option (DecimalLiteral × List Char) :=
  if cs.head?.any Char.isDigit then do
    let (ds, rest) ← digitTail Char.isDigit cs
    let e : Int := Digits.ofChars 10 ds
    some (⟨d.digits, d.places, if neg then -e else e, false⟩, rest)
  else none

/-- The exponent, if there is one. An `e` that no digit follows can only begin a word. -/
def exponentPart (d : DecimalLiteral) (cs : List Char) : Option (DecimalLiteral × List Char) :=
  match cs with
  | c :: rest =>
    if c = 'e' || c = 'E' then
      match rest with
      | '+' :: more => exponentTail d false more
      | '-' :: more => exponentTail d true more
      | more =>
        if more.head?.any Char.isDigit then exponentTail d false more
        else if endsNumber cs then some (d, cs) else none
    else some (d, cs)
  | [] => some (d, cs)

/-- The value of a decimal literal, whose end may mark it as imaginary, and what follows it. -/
def decimalEnd (d : DecimalLiteral) (cs : List Char) : Option (Constant × List Char) :=
  if cs.head?.any (fun c => c = 'j' || c = 'J') then
    if endsNumber cs.tail then some (.imaginary d.toBinary, cs.tail) else none
  else if endsNumber cs then d.constant?.map (·, cs)
  else none

def decimalNumber (cs : List Char) : Option (Constant × List Char) := do
  let (whole, rest) ← wholePart cs
  let (d, rest) ← fractionPart whole rest
  let (d, rest) ← exponentPart d rest
  decimalEnd d rest

def isHexDigit (c : Char) : Bool :=
  c.isDigit || ('a' ≤ c && c ≤ 'f') || ('A' ≤ c && c ≤ 'F')

def readNumber (cs : List Char) : Option (Constant × List Char) :=
  match cs with
  | '0' :: c :: rest =>
    if c = 'x' || c = 'X' then basedNumber 16 isHexDigit rest
    else if c = 'o' || c = 'O' then basedNumber 8 (fun d => '0' ≤ d && d ≤ '7') rest
    else if c = 'b' || c = 'B' then basedNumber 2 (fun d => d = '0' || d = '1') rest
    else decimalNumber cs
  | _ => decimalNumber cs

end CodeAtlas.Syntax
