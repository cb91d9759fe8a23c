import CodeAtlas.Syntax.Source
import CodeAtlas.Syntax.Statement

/-!
# Descriptions in a catalog

Annotations, default values and decorators are described by short texts, which do not say all: a
tuple of types reads as a union. What would show an integer with too many digits is not described.
-/

namespace CodeAtlas.Catalog

open Syntax

/-- What is made of the members of a list, in order, up to the first fault. -/
def gather {α β : Type} (f : α → Except SourceFault (List β)) (as : List α) :
    Except SourceFault (List β) := return (← as.mapM f).flatten

/-- The plain text of a literal: strings stand for themselves. -/
def constantText : Constant → Except SourceFault String
  | .none => .ok "None"
  | .true => .ok "True"
  | .false => .ok "False"
  | .ellipsis => .ok "Ellipsis"
  | .int n => intText n
  | .float x => .ok x.text
  | .imaginary x => .ok (Binary64.bareLayout.text x ++ "j")
  | .str s _ => .ok s
  | .bytes bs => .ok (Text.quotedBytes bs)

def firstNonempty (a b : String) : String := if a.isEmpty then b else a

mutual

/-- The text of an annotation. -/
def typeText : Expr → Except SourceFault String
  | .name id => .ok id
  | .constant c => constantText c
  | .subscript value index => do
    let base ← typeText value
    let inner ← typeText index
    .ok (if !base.isEmpty && !inner.isEmpty then base ++ "[" ++ inner ++ "]"
      else firstNonempty base "Any")
  | .attribute value attr => do
    let base ← typeText value
    .ok (if base.isEmpty then attr else base ++ "." ++ attr)
  | .tuple items => do
    let parts ← typeTexts items
    .ok (if parts.isEmpty then "Any" else "Union[" ++ ", ".intercalate parts ++ "]")
  | .binary left .bitOr right => do
    let l ← typeText left
    let r ← typeText right
    .ok (if !l.isEmpty && !r.isEmpty then l ++ " | " ++ r
      else firstNonempty l (firstNonempty r "Any"))
  | _ => .ok "Any"

/-- The texts of annotations, empty ones left out. -/
def typeTexts : List Expr → Except SourceFault (List String)
  | [] => .ok []
  | e :: es => do
    let t ← typeText e
    let ts ← typeTexts es
    .ok (if t.isEmpty then ts else t :: ts)

end

/-- The text of a default value; nothing for an expression that is not described. -/
def defaultText? : Expr → Except SourceFault (Option String)
  | .constant (.str s _) => .ok (some ("\"" ++ s ++ "\""))
  | .constant c => some <$> constantText c
  | .name id => .ok (some id)
  | .list _ => .ok (some "[]")
  | .dict _ => .ok (some "\x7b\x7d")
  | .tuple _ => .ok (some "()")
  | .set _ => .ok (some "set()")
  | .unary .. => .ok (some "...")
  | .binary .. => .ok (some "...")
  | _ => .ok none

/-! ### Decorators -/

/-- What a function is. -/
inductive FunctionKind where
  | plain
  | coroutine
  | classMethod
  | staticMethod
  | property
deriving DecidableEq, Repr

def FunctionKind.code : FunctionKind → Nat
  | plain => 0
  | coroutine => 1
  | classMethod => 2
  | staticMethod => 3
  | property => 4

/-- The text of a decorator that is recorded: a name, a name with one dot, or a call of either. At
most three arguments are described, and none after a dot. -/
def decoratorText? : Expr → Except SourceFault (Option String)
  | .name id => .ok (some id)
  | .call (.name id) args _ => do
    let ts ← (args.take 3).mapM fun a => return (← defaultText? a).getD "..."
    .ok (some (id ++ "(" ++ ", ".intercalate ts ++ ")"))
  | .call (.attribute (.name base) attr) _ _ => .ok (some (base ++ "." ++ attr))
  | .attribute (.name base) attr => .ok (some (base ++ "." ++ attr))
  | _ => .ok none

/-- The texts of the decorators that are recorded, in order. -/
def decoratorTexts (ds : List Decorator) : Except SourceFault (List String) :=
  gather (fun d => return (← decoratorText? d.expr).toList) ds

/-- The kind that a decorator gives to its function. -/
def decoratorKind? : Expr → Option FunctionKind
  | .name "classmethod" => some .classMethod
  | .name "staticmethod" => some .staticMethod
  | .name "property" => some .property
  | .attribute (.name _) "setter" => some .property
  | _ => none

/-- The kind that the last deciding decorator gives. -/
def kindOf? (ds : List Decorator) : Option FunctionKind :=
  ds.foldl (fun k d => (decoratorKind? d.expr).or k) none

end CodeAtlas.Catalog
