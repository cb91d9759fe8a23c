import CodeAtlas.Data.Value
import CodeAtlas.Number.Digits

/-!
# Writing JSON

Three layouts: compact, with blanks after the separators, and indented by two columns a level.
Characters outside ASCII are kept or escaped. Numbers that are not finite are written by name.
-/

namespace CodeAtlas.Json

/-- How a document is laid out. -/
inductive Layout where
  | compact
  | spaced
  | indented
deriving DecidableEq, Repr

/-- How a document is written. -/
structure Style where
  layout : Layout := .spaced
  /-- Escape every character outside ASCII. -/
  ascii : Bool := false
  /-- Write the entries of every table in the order of their keys. -/
  sorted : Bool := false

inductive WriteError where
  | unsupported (type : String)
  | hugeInteger
deriving DecidableEq, Repr

def WriteError.message : WriteError → String
  | unsupported type => "Object of type " ++ type ++ " is not JSON serializable"
  | hugeInteger => "Exceeds the limit (4300 digits) for integer string conversion"

def unitEscape (n : Nat) : List Char := '\\' :: 'u' :: Text.hexDigits 4 n

/-- The escape of a code point by one or two 16-bit units. -/
def codeUnits (n : Nat) : List Char :=
  if n < 0x10000 then unitEscape n
  else unitEscape (0xd800 + (n - 0x10000) / 0x400) ++ unitEscape (0xdc00 + (n - 0x10000) % 0x400)

/-- A character inside a quoted JSON string. -/
def escapedChar (ascii : Bool) (c : Char) : List Char :=
  if c = '"' then ['\\', '"']
  else if c = '\\' then ['\\', '\\']
  else if c = '\n' then ['\\', 'n']
  else if c = '\r' then ['\\', 'r']
  else if c = '\t' then ['\\', 't']
  else if c.toNat = 8 then ['\\', 'b']
  else if c.toNat = 12 then ['\\', 'f']
  else if c.toNat < 0x20 then unitEscape c.toNat
  else if ascii && 0x7f ≤ c.toNat then codeUnits (Text.codeOf c)
  else [c]

def quote (ascii : Bool) (s : String) : List Char :=
  '"' :: (s.toList.flatMap (escapedChar ascii) ++ ['"'])

def floatText (x : Binary64) : String :=
  match x with
  | .nan => "NaN"
  | .infinite false => "Infinity"
  | .infinite true => "-Infinity"
  | _ => x.text

def newlineIndent (depth : Nat) : List Char := '\n' :: List.replicate (2 * depth) ' '

/-- What stands after an opening bracket or before a closing one. -/
def Layout.edge (l : Layout) (depth : Nat) : List Char :=
  match l with
  | .indented => newlineIndent depth
  | _ => []

/-- What stands between two items. -/
def Layout.between (l : Layout) (depth : Nat) : List Char :=
  match l with
  | .compact => [',']
  | .spaced => [',', ' ']
  | .indented => ',' :: newlineIndent depth

/-- What stands between a key and its value. -/
def Layout.colon (l : Layout) : List Char :=
  match l with
  | .compact => [':']
  | _ => [':', ' ']

/-- Puts brackets around items, separated as the layout says. -/
def Layout.enclose (l : Layout) (opening closing : Char) (depth : Nat) (items : List (List Char)) :
    List Char :=
  match items with
  | [] => [opening, closing]
  | _ => opening :: (l.edge (depth + 1) ++ (l.between (depth + 1)).intercalate items
      ++ l.edge depth ++ [closing])

def sortEntries {α : Type} (es : List (String × α)) : List (String × α) :=
  es.mergeSort fun a b => decide (a.1 ≤ b.1)

mutual

/-- The text of a value at a depth of nesting. -/
def writeChars (st : Style) (depth : Nat) : Value → Except WriteError (List Char)
  | .null => .ok "null".toList
  | .bool b => .ok (if b then "true" else "false").toList
  | .int n =>
    match Digits.text? n with
    | none => .error .hugeInteger
    | some t => .ok t.toList
  | .float x => .ok (floatText x).toList
  | .str s => .ok (quote st.ascii s)
  | .bytes _ => .error (.unsupported "bytes")
  | .ext .. => .error (.unsupported "ExtType")
  | .stamp .. => .error (.unsupported "Timestamp")
  | .moment .. => .error (.unsupported "datetime")
  | .list items => do
    let parts ← writeItems st (depth + 1) items
    .ok (st.layout.enclose '[' ']' depth parts)
  | .table entries => do
    let parts ← writeEntries st (depth + 1) entries
    let parts := if st.sorted then sortEntries parts else parts
    .ok (st.layout.enclose '\x7b' '\x7d' depth
      (parts.map fun p => quote st.ascii p.1 ++ st.layout.colon ++ p.2))

def writeItems (st : Style) (depth : Nat) : List Value → Except WriteError (List (List Char))
  | [] => .ok []
  | v :: vs => do
    let t ← writeChars st depth v
    let ts ← writeItems st depth vs
    .ok (t :: ts)

/-- The texts of the entries of a table, each under its key. -/
def writeEntries (st : Style) (depth : Nat) :
    List (String × Value) → Except WriteError (List (String × List Char))
  | [] => .ok []
  | (k, v) :: es => do
    let t ← writeChars st depth v
    let ts ← writeEntries st depth es
    .ok ((k, t) :: ts)

end

def write (st : Style) (v : Value) : Except WriteError String :=
  (writeChars st 0 v).map String.ofList

end CodeAtlas.Json
