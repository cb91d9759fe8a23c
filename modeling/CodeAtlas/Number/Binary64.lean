/-!
# Binary floating-point numbers of 64 bits

A number is kept as sign, integer mantissa and power of two. A finite one is in lowest-exponent
form: its mantissa has 53 bits, or its exponent is the least one, -1074.
-/

namespace CodeAtlas

/-- A 64-bit floating-point number: `finite neg m e` is m · 2^e with its sign. -/
inductive Binary64 where
  | finite (neg : Bool) (mant : Nat) (exp : Int)
  | infinite (neg : Bool)
  | nan
deriving DecidableEq, Repr, Inhabited

namespace Binary64

/-- The least exponent, that of zero and of the subnormal numbers. -/
def minExp : Int := -1074

/-- The greatest exponent of a 53-bit mantissa. -/
def maxExp : Int := 971

def zero (neg : Bool) : Binary64 := finite neg 0 minExp

/-- The quotient of `num` by `den` rounded to a whole number, ties to even. -/
def roundDiv (num den : Nat) : Nat :=
  let q := num / den
  let r := num % den
  if 2 * r < den then q
  else if den < 2 * r then q + 1
  else if q % 2 = 0 then q else q + 1

/-- The value `num / den · 2^(-e)` as a fraction. -/
def scaled (num den : Nat) (e : Int) : Nat × Nat :=
  if e < 0 then (num * Nat.pow 2 e.natAbs, den) else (num, den * Nat.pow 2 e.toNat)

/-- The exponent at which `num / den` has a mantissa of 53 bits, or the least exponent. -/
def targetExp (num den : Nat) : Int :=
  let guess : Int := (Nat.log2 num : Int) - (Nat.log2 den : Int) - 52
  let (n, d) := scaled num den guess
  let e := if n < d * Nat.pow 2 52 then guess - 1 else guess
  if e < minExp then minExp else e

/-- The number nearest to `num / den`, ties to the even mantissa. -/
def ofRatio (neg : Bool) (num den : Nat) : Binary64 :=
  if num = 0 then zero neg
  else
    let e := targetExp num den
    let (n, d) := scaled num den e
    let m := roundDiv n d
    let (m, e) := if m = Nat.pow 2 53 then (Nat.pow 2 52, e + 1) else (m, e)
    if maxExp < e then infinite neg else finite neg m e

/-- The number nearest to `digits · 10^exp10`. Exponents far outside the range are not expanded. -/
def ofDecimal (neg : Bool) (digits : Nat) (exp10 : Int) : Binary64 :=
  if digits = 0 then zero neg
  else
    let magnitude : Int := (Nat.log2 digits : Int) * 30103 / 100000 + exp10
    if 330 < magnitude then infinite neg
    else if magnitude < -400 then zero neg
    else if exp10 < 0 then ofRatio neg digits (Nat.pow 10 exp10.natAbs)
    else ofRatio neg (digits * Nat.pow 10 exp10.toNat) 1

def ofNat (n : Nat) : Binary64 := ofRatio false n 1

/-- The magnitude of `m · 2^e` as a fraction. -/
def ratio (m : Nat) (e : Int) : Nat × Nat :=
  if e < 0 then (m, Nat.pow 2 e.natAbs) else (m * Nat.pow 2 e.toNat, 1)

/-- How a number stands to an integer; `none` for a number that is not ordered. -/
def compareInt (x : Binary64) (n : Int) : Option Ordering :=
  match x with
  | nan => none
  | infinite true => some .lt
  | infinite false => some .gt
  | finite neg m e =>
    let (p, q) := ratio m e
    let signed : Int := if neg then -(p : Int) else p
    some (compare signed (n * q))

/-- How two numbers stand to each other; `none` when one of them is not ordered. -/
def compareNumber (x y : Binary64) : Option Ordering :=
  match x, y with
  | nan, _ => none
  | _, nan => none
  | infinite s, infinite t => some (compare (if s then (-1 : Int) else 1) (if t then -1 else 1))
  | infinite s, finite .. => some (if s then .lt else .gt)
  | finite .., infinite t => some (if t then .gt else .lt)
  | finite s m e, finite t n f =>
    let (p, q) := ratio m e
    let (p', q') := ratio n f
    let a : Int := if s then -(p : Int) else p
    let b : Int := if t then -(p' : Int) else p'
    some (compare (a * q') (b * q))

def isZero : Binary64 → Bool
  | finite _ 0 _ => true
  | _ => false

/-- The number that an exponent field and a fraction field of `width` bits stand for. The exponent
field `top` is kept for infinities and for what is no number. -/
def ofFields (neg : Bool) (field frac width top : Nat) (least : Int) : Binary64 :=
  if field = top then (if frac = 0 then infinite neg else nan)
  else
    let mant := if field = 0 then frac else frac + Nat.pow 2 width
    let (n, d) := ratio mant (least + (field - 1 : Nat))
    ofRatio neg n d

/-- Reads the 64-bit interchange format. -/
def ofBits (bits : Nat) : Binary64 :=
  ofFields (bits / Nat.pow 2 63 % 2 = 1) (bits / Nat.pow 2 52 % 2048) (bits % Nat.pow 2 52) 52 2047
    (-1074)

/-- Reads the 32-bit interchange format; every such number is one of 64 bits. -/
def ofBits32 (bits : Nat) : Binary64 :=
  ofFields (bits / Nat.pow 2 31 % 2 = 1) (bits / Nat.pow 2 23 % 256) (bits % Nat.pow 2 23) 23 255
    (-149)

/-- Writes the 64-bit interchange format. -/
def toBits : Binary64 → Nat
  | nan => 2047 * Nat.pow 2 52 + Nat.pow 2 51
  | infinite neg => (if neg then Nat.pow 2 63 else 0) + 2047 * Nat.pow 2 52
  | finite neg m e =>
    let sign := if neg then Nat.pow 2 63 else 0
    if m < Nat.pow 2 52 then sign + m
    else sign + (e - minExp + 1).toNat * Nat.pow 2 52 + (m - Nat.pow 2 52)

end Binary64

end CodeAtlas
