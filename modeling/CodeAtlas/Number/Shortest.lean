import CodeAtlas.Number.Binary64

/-!
# Shortest decimal text

The text of a floating-point number is the shortest decimal that reads back as the same number.
Numbers from 10^-4 up to 10^16 are written positionally, the others with an exponent.
-/

namespace CodeAtlas

namespace Binary64

/-- A decimal `digits · 10^exp` with `digits` of the stated count. -/
structure Decimal where
  digits : Nat
  exp : Int
deriving DecidableEq, Repr

/-- The interval of reals that round to `m · 2^e`, in units of 2^(e-2): its ends, and whether the
ends belong to it. -/
def roundingInterval (m : Nat) (e : Int) : Nat × Nat × Bool :=
  let low := if m = Nat.pow 2 52 ∧ minExp < e then 4 * m - 1 else 4 * m - 2
  (low, 4 * m + 2, m % 2 = 0)

/-- The greatest `k` with `10^k ≤ num / den`, for a positive quotient. -/
def floorLog10 (num den : Nat) : Int :=
  let guess : Int := ((Nat.log2 num : Int) - (Nat.log2 den : Int) - 1) * 30103 / 100000
  let reaches (k : Int) : Bool :=
    if k < 0 then decide (den ≤ num * Nat.pow 10 k.natAbs)
      else decide (den * Nat.pow 10 k.toNat ≤ num)
  if reaches (guess + 2) then guess + 2
  else if reaches (guess + 1) then guess + 1
  else if reaches guess then guess
  else guess - 1

/-- The decimal with `count` digits nearest to `m · 2^e`, if it rounds back to that number. -/
def decimalOfCount (m : Nat) (e : Int) (k : Int) (count : Nat) : Option Decimal :=
  let unit : Int := k - (count : Int) + 1
  -- all quantities in quarters of 2^e, over a common denominator
  let (num, den) := ratio 1 (e - 2)
  let scale := fun q : Nat => if unit < 0 then q * num * Nat.pow 10 unit.natAbs else q * num
  let step := if unit < 0 then den else den * Nat.pow 10 unit.toNat
  let value := scale (4 * m)
  let (low, high, closed) := roundingInterval m e
  let fits := fun d : Nat =>
    let x := d * step
    if closed then decide (scale low ≤ x ∧ x ≤ scale high)
    else decide (scale low < x ∧ x < scale high)
  let below := value / step
  let nearest := roundDiv value step
  if fits nearest then some ⟨nearest, unit⟩
  else if fits below then some ⟨below, unit⟩
  else if fits (below + 1) then some ⟨below + 1, unit⟩
  else none

/-- Tries ever more digits. -/
def shortestFrom (m : Nat) (e : Int) (k : Int) : Nat → Nat → Decimal
  | 0, _ => ⟨0, 0⟩
  | fuel + 1, count =>
    match decimalOfCount m e k count with
    | some d => d
    | none => shortestFrom m e k fuel (count + 1)

/-- The shortest decimal that rounds to `m · 2^e`; seventeen digits always suffice. -/
def shortest (m : Nat) (e : Int) : Decimal :=
  let (num, den) := ratio m e
  shortestFrom m e (floorLog10 num den) 20 1

def trimZeros (digits : List Char) : List Char :=
  (digits.reverse.dropWhile (· = '0')).reverse

/-- How a number is laid out: least and greatest positional decimal point, and whether a whole
number keeps a fraction. -/
structure Layout where
  least : Int
  greatest : Int
  wholeFraction : Bool

/-- Positional from 10^-4 up to 10^16; a whole number keeps `.0`. -/
def standardLayout : Layout := ⟨-4, 16, true⟩

/-- As the standard layout, with no fraction on a whole number. -/
def bareLayout : Layout := ⟨-4, 16, false⟩

/-- Lays out the digits `ds` with the decimal point after position `point`. -/
def Layout.place (l : Layout) (ds : List Char) (point : Int) : List Char :=
  if point ≤ l.least ∨ l.greatest < point then
    let mantissa := match ds with
      | [] => ['0']
      | [d] => [d]
      | d :: rest => d :: '.' :: rest
    let x := point - 1
    let body := (toString x.natAbs).toList
    let body := if body.length < 2 then '0' :: body else body
    mantissa ++ 'e' :: (if x < 0 then '-' else '+') :: body
  else if point ≤ 0 then
    '0' :: '.' :: (List.replicate point.natAbs '0' ++ ds)
  else
    let p := point.toNat
    if ds.length ≤ p then
      ds ++ List.replicate (p - ds.length) '0' ++ (if l.wholeFraction then ['.', '0'] else [])
    else
      ds.take p ++ '.' :: ds.drop p

/-- The magnitude's text. -/
def Layout.magnitude (l : Layout) (m : Nat) (e : Int) : List Char :=
  if m = 0 then (if l.wholeFraction then ['0', '.', '0'] else ['0'])
  else
    let d := shortest m e
    let ds := (toString d.digits).toList
    l.place (trimZeros ds) (d.exp + ds.length)

def Layout.text (l : Layout) : Binary64 → String
  | nan => "nan"
  | infinite neg => if neg then "-inf" else "inf"
  | finite neg m e => String.ofList ((if neg then ['-'] else []) ++ l.magnitude m e)

def text (x : Binary64) : String := standardLayout.text x

end Binary64

end CodeAtlas
