import CodeAtlas.Number.Binary64

/-!
# Expressions

The expressions of the indexed language as trees. Positions are not kept here: where an index needs
the line of an expression, the statement that holds it says so.
-/

namespace CodeAtlas.Syntax

inductive Constant where
  | none
  | true
  | false
  | ellipsis
  | int (n : Nat)
  | float (x : Binary64)
  | imaginary (x : Binary64)
  /-- A text, and whether it was marked as Unicode. -/
  | str (s : String) (marked : Bool)
  | bytes (bs : List UInt8)
deriving DecidableEq, Repr, Inhabited

inductive UnaryOp where
  | invert | not | plus | minus
deriving DecidableEq, Repr

inductive BinaryOp where
  | add | sub | mul | matMul | div | mod | shiftLeft | shiftRight | bitOr | bitXor | bitAnd
  | floorDiv | pow
deriving DecidableEq, Repr

inductive BoolOp where
  | and | or
deriving DecidableEq, Repr

inductive CompareOp where
  | eq | ne | lt | le | gt | ge | is | isNot | isIn | notIn
deriving DecidableEq, Repr

mutual

inductive Expr where
  | name (id : String)
  | constant (value : Constant)
  | attribute (value : Expr) (attr : String)
  | subscript (value index : Expr)
  | call (func : Expr) (args : List Expr) (keywords : List Keyword)
  | unary (op : UnaryOp) (operand : Expr)
  | binary (left : Expr) (op : BinaryOp) (right : Expr)
  | boolean (op : BoolOp) (operands : List Expr)
  | compare (left : Expr) (rest : List Comparison)
  | conditional (test body orelse : Expr)
  /-- An anonymous function: names before `/`, names after it with the defaults of the last of both,
  the rest of the positions, names that must be given by keyword with a default slot each, the rest
  of the keywords. -/
  | lambda (posOnly regular : List String) (defaults : List Expr) (varArg : Option String)
      (kwOnly : List String) (kwDefaults : List (Option Expr)) (kwArg : Option String) (body : Expr)
  | listComp (element : Expr) (clauses : List Clause)
  | setComp (element : Expr) (clauses : List Clause)
  | dictComp (key value : Expr) (clauses : List Clause)
  | generator (element : Expr) (clauses : List Clause)
  | await (value : Expr)
  | yield (value : Option Expr)
  | yieldFrom (value : Expr)
  | starred (value : Expr)
  | tuple (items : List Expr)
  | list (items : List Expr)
  | set (items : List Expr)
  | dict (entries : List DictEntry)
  | slice (lower upper step : Option Expr)
  | named (target value : Expr)
  | formatted (parts : List FormatPart)

/-- An argument given by keyword, or, with no name, an unpacked table of them. -/
inductive Keyword where
  | mk (name : Option String) (value : Expr)

/-- One further operand of a chain of comparisons. -/
inductive Comparison where
  | mk (op : CompareOp) (right : Expr)

/-- A `for` clause of a comprehension with its conditions. -/
inductive Clause where
  | mk (isAsync : Bool) (target source : Expr) (conditions : List Expr)

/-- An entry of a table display, or, with no key, an unpacked table. -/
inductive DictEntry where
  | mk (key : Option Expr) (value : Expr)

/-- A part of a formatted text: text, or a value with its conversion and its format. -/
inductive FormatPart where
  | text (s : String)
  | value (e : Expr) (conversion : Option Char) (format : Option (List FormatPart))

end

instance : Inhabited Expr := ⟨.name ""⟩

end CodeAtlas.Syntax
