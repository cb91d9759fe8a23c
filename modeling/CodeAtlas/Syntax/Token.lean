import CodeAtlas.Syntax.Expr
import CodeAtlas.Text.Tables

/-!
# Tokens

A source text is read as a list of tokens. Indentation appears as tokens of its own; blank lines and
comments do not appear. A token knows the lines on which it starts and ends.
-/

namespace CodeAtlas.Syntax

/-- A name, in normal form. -/
structure Identifier where
  text : String
  valid : Text.isIdentifier text.toList = true
deriving DecidableEq, Repr

inductive TokenKind where
  | keyword (word : String)
  /-- An identifier; `plain` if it was written in its normal form. -/
  | ident (name : Identifier) (plain : Bool)
  | number (value : Constant)
  /-- A string literal: the letters before the quotes and the characters between them. -/
  | string (mark body : List Char)
  | op (symbol : String)
  | newline
  | indent
  | dedent
  | stop
deriving DecidableEq, Repr, Inhabited

structure Token where
  kind : TokenKind
  line : Nat
  endLine : Nat
deriving DecidableEq, Repr, Inhabited

namespace Token

/-- Whether a token is layout: it has no characters of its own on its line. -/
def isLayout (t : Token) : Bool :=
  match t.kind with
  | .newline | .indent | .dedent | .stop => true
  | _ => false

end Token

def keywords : List String :=
  ["False", "None", "True", "and", "as", "assert", "async", "await", "break", "class", "continue",
   "def", "del", "elif", "else", "except", "finally", "for", "from", "global", "if", "import", "in",
   "is", "lambda", "nonlocal", "not", "or", "pass", "raise", "return", "try", "while", "with",
   "yield"]

end CodeAtlas.Syntax
