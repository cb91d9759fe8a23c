/-!
# Integers as digits

The decimal text of an integer is refused beyond 4300 digits; so is reading one.
-/

namespace CodeAtlas.Digits

/-! ### Integers as digits -/

/-- The number of decimal digits beyond which integers are not converted. -/
def limit : Nat := 4300

/-- Whether a number has more decimal digits than the limit. The bit length settles nearly all. -/
def exceeds (n : Nat) : Bool := 14280 ≤ n.log2 && Nat.pow 10 limit ≤ n

/-- The decimal text of an integer within the limit. -/
def text? (n : Int) : Option String := if exceeds n.natAbs then none else some (toString n)

/-- The value of a digit, in any base up to sixteen. -/
def value (c : Char) : Nat :=
  if c.isDigit then c.toNat - 48
  else if 'a' ≤ c ∧ c ≤ 'f' then c.toNat - 87
  else if 'A' ≤ c ∧ c ≤ 'F' then c.toNat - 55
  else 0

/-- The number that digits stand for in a base. -/
def ofChars (base : Nat) (cs : List Char) : Nat := cs.foldl (fun n c => n * base + value c) 0

end CodeAtlas.Digits

namespace CodeAtlas.Fixed

/-! ### Decimals with a fixed number of places -/

/-- The nearest natural number to `num / den`, the even one of two. -/
def roundDiv (num den : Nat) : Nat :=
  let q := num / den
  let twice := 2 * (num % den)
  if twice < den then q
  else if den < twice then q + 1
  else if q % 2 = 0 then q else q + 1

/-- The quotient `num / den` with a number of decimal places. -/
def text (places num den : Nat) : String :=
  let scaled := roundDiv (num * Nat.pow 10 places) den
  let ds := toString (scaled % Nat.pow 10 places)
  s!"{scaled / Nat.pow 10 places}." ++ "".pushn '0' (places - ds.length) ++ ds

/-- Puts a comma before every third digit from the end; digits come last to first. -/
def groupBack : List Char → List Char
  | a :: b :: c :: d :: rest => a :: b :: c :: ',' :: groupBack (d :: rest)
  | ds => ds

/-- A number with its digits in groups of three. -/
def grouped (n : Nat) : String := String.ofList (groupBack (toString n).toList.reverse).reverse

/-- A number of bytes in mebibytes, with two places. -/
def mebibytes (bytes : Nat) : String := text 2 bytes 1048576

end CodeAtlas.Fixed
