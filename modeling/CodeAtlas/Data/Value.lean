import CodeAtlas.Number.Shortest
import CodeAtlas.Text.Quoted

/-!
# Data values

The values that documents hold, whatever format they are written in. A table keeps its entries in
the order in which their keys first came.
-/

namespace CodeAtlas

inductive Value where
  | null
  | bool (b : Bool)
  | int (n : Int)
  | float (x : Binary64)
  | str (s : String)
  | bytes (bs : List UInt8)
  | list (items : List Value)
  | table (entries : List (String × Value))
  /-- A tagged byte string of a binary format. -/
  | ext (code : Int) (bs : List UInt8)
  /-- A point in time of a binary format. -/
  | stamp (seconds : Int) (nanos : Nat)
  /-- A date or a time of a configuration file, under its written form and its detailed form. -/
  | moment (text detail : String)
deriving Inhabited, Repr

namespace Value

/-- Puts an entry: a key that is there keeps its place and takes the new value. -/
def putEntry {α : Type} (key : String) (v : α) : List (String × α) → List (String × α)
  | [] => [(key, v)]
  | (k, w) :: rest => if k = key then (k, v) :: rest else (k, w) :: putEntry key v rest

/-- The entries of a table in which later values replace earlier ones of the same key. -/
def entriesOf {α : Type} (pairs : List (String × α)) : List (String × α) :=
  pairs.foldl (fun es p => putEntry p.1 p.2 es) []

def lookup {α : Type} (key : String) : List (String × α) → Option α
  | [] => none
  | (k, v) :: rest => if k = key then some v else lookup key rest

def nat (n : Nat) : Value := int n

def strings (xs : List String) : Value := list (xs.map str)

def ofOption : Option String → Value
  | none => null
  | some s => str s

def kind : Value → String
  | null => "NoneType"
  | bool _ => "bool"
  | int _ => "int"
  | float _ => "float"
  | str _ => "str"
  | bytes _ => "bytes"
  | list _ => "list"
  | table _ => "dict"
  | ext _ _ => "ExtType"
  | stamp _ _ => "Timestamp"
  | moment _ _ => "datetime"

end Value

end CodeAtlas
