import CodeAtlas.Syntax.Expr
import CodeAtlas.Text.Tables

/-!
# Statements

A module as an index sees it. Definitions, imports, assignments and expression statements are kept
with their parts; of every other statement only its place and the statements inside it are kept.
-/

namespace CodeAtlas.Syntax

/-- The first and the last line of a statement. -/
structure Span where
  first : Nat
  last : Nat
deriving DecidableEq, Repr, Inhabited

/-- An imported name and the name it is bound to. -/
structure Alias where
  name : String
  asName : Option String
deriving DecidableEq, Repr, Inhabited

/-- A parameter and its type hint. -/
structure Param where
  name : String
  hint : Option Expr
  isNamed : Text.isIdentifier name.toList = true := by decide

/-- The parameters of a function. `defaults` belong to the last of `posOnly ++ regular`; every
parameter of `kwOnly` has a slot in `kwDefaults`. -/
structure Signature where
  posOnly : List Param := []
  regular : List Param := []
  defaults : List Expr := []
  varArg : Option Param := none
  kwOnly : List Param := []
  kwDefaults : List (Option Expr) := []
  kwArg : Option Param := none

/-- A decorator and the line on which its expression starts, enclosing brackets not counted. -/
structure Decorator where
  line : Nat
  expr : Expr

structure FunctionHead where
  name : String
  isAsync : Bool
  signature : Signature
  decorators : List Decorator
  returns : Option Expr
  isNamed : Text.isIdentifier name.toList = true := by decide

structure ClassHead where
  name : String
  bases : List Expr
  decorators : List Decorator
  isNamed : Text.isIdentifier name.toList = true := by decide

mutual

inductive Stmt where
  | function (span : Span) (head : FunctionHead) (body : List Stmt)
  | classDef (span : Span) (head : ClassHead) (body : List Stmt)
  | importNames (span : Span) (names : List Alias)
  | importFrom (span : Span) (module : Option String) (names : List Alias) (level : Nat)
  | assign (span : Span) (targets : List Expr) (value : Expr)
  | annotated (span : Span) (target hint : Expr) (value : Option Expr)
  | expr (span : Span) (value : Expr)
  /-- Any other statement without statements inside it. -/
  | other (span : Span)
  /-- Any other statement with statements inside it. -/
  | compound (span : Span) (children : List Node)

/-- A node of the tree that can hold statements: a statement, or a clause of one, such as an
exception handler or a case. -/
inductive Node where
  | stmt (s : Stmt)
  | clause (body : List Stmt)

end

namespace Stmt

def span : Stmt → Span
  | function s .. | classDef s .. | importNames s .. | importFrom s .. | assign s ..
  | annotated s .. | expr s .. | other s | compound s .. => s

end Stmt

structure Module where
  body : List Stmt

end CodeAtlas.Syntax
