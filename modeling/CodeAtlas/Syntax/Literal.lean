import CodeAtlas.Syntax.Expr
import CodeAtlas.Text.Named
import CodeAtlas.Text.Quoted

/-!
# String literals

What the characters between the quotes stand for. In texts an escape may name a character by its
code point or by its name; in byte strings only by a value below 256. An escape that means nothing
keeps its backslash.
-/

namespace CodeAtlas.Syntax

/-- The value of a hexadecimal escape of `width` digits, and what follows it. -/
def hexEscape? (width : Nat) (cs : List Char) : Option (Nat × List Char) :=
  let ds := cs.take width
  if ds.length = width && ds.all (fun c => (Text.hexValue? c).isSome) then
    some (Text.hexNat ds, cs.drop width)
  else none

/-- The value of an octal escape of up to three digits, and what follows it. -/
def octalEscape (cs : List Char) : Nat × List Char :=
  let ds := (cs.take 3).takeWhile fun c => '0' ≤ c && c ≤ '7'
  (ds.foldl (fun n c => n * 8 + (c.toNat - 48)) 0, cs.drop ds.length)

/-- The code point of a one-letter escape. -/
def letterEscape? : Char → Option Nat
  | '\\' => some 0x5c
  | '\'' => some 0x27
  | '"' => some 0x22
  | 'a' => some 7
  | 'b' => some 8
  | 'f' => some 12
  | 'n' => some 10
  | 'r' => some 13
  | 't' => some 9
  | 'v' => some 11
  | _ => none

/-- A named character after `\N`, and what follows it. -/
def nameEscape? : List Char → Option (Nat × List Char)
  | '\x7b' :: rest =>
    let name := rest.takeWhile (· != '\x7d')
    match rest.dropWhile (· != '\x7d') with
    | _ :: after => (Text.named? (String.ofList name)).map fun c => (c.toNat, after)
    | [] => none
  | _ => none

/-- The values that an escape after its backslash stands for, and what follows it. A backslash at
the end stands for itself. -/
def escape? (unicode : Bool) (cs : List Char) : Option (List Nat × List Char) :=
  match cs with
  | [] => some ([0x5c], [])
  | '\n' :: rest => some ([], rest)
  | c :: rest =>
    if '0' ≤ c && c ≤ '7' then
      let (n, rest') := octalEscape cs
      some ([if unicode then n else n % 256], rest')
    else if c = 'x' then (hexEscape? 2 rest).map fun (n, r) => ([n], r)
    else if unicode && c = 'u' then (hexEscape? 4 rest).map fun (n, r) => ([n], r)
    else if unicode && c = 'U' then
      match hexEscape? 8 rest with
      | some (n, r) =>
        if n < 0x110000 && !Text.isLone (Char.ofNat n) then some ([n], r) else none
      | none => none
    else if unicode && c = 'N' then (nameEscape? rest).map fun (n, r) => ([n], r)
    else match letterEscape? c with
      | some n => some ([n], rest)
      | none => some ([0x5c, c.toNat], rest)

/-- The values that the characters of a literal stand for; the first argument bounds the steps. -/
def unescapeFrom (unicode : Bool) : Nat → List Char → Option (List Nat)
  | 0, _ => some []
  | _ + 1, [] => some []
  | fuel + 1, '\\' :: cs => do
    let (ns, rest) ← escape? unicode cs
    let more ← unescapeFrom unicode fuel rest
    some (ns ++ more)
  | fuel + 1, c :: cs => do
    let more ← unescapeFrom unicode fuel cs
    some (c.toNat :: more)

def unescape (unicode : Bool) (cs : List Char) : Option (List Nat) :=
  unescapeFrom unicode cs.length cs

def textOf? (raw : Bool) (body : List Char) : Option (List Char) :=
  if body.any Text.isLone then none
  else if raw then some body
  else (unescape true body).map (·.map Text.codeChar)

/-- The bytes of a literal, which must be written in ASCII. -/
def bytesOf? (raw : Bool) (body : List Char) : Option (List UInt8) :=
  if body.any (128 ≤ ·.toNat) then none
  else if raw then some (body.map fun c => UInt8.ofNat c.toNat)
  else (unescape false body).map (·.map UInt8.ofNat)

/-- Whether the letters before the quotes hold a given one. -/
def hasMark (mark : List Char) (c : Char) : Bool := mark.any (·.toLower = c)

end CodeAtlas.Syntax
