import CodeAtlas.Syntax.Statement
import CodeAtlas.Text.Lines

/-!
# Docstrings

A block whose first statement is a plain string has that string as its documentation. It is cleaned
of tabs, shared indentation and empty lines at both ends.
-/

namespace CodeAtlas.Syntax

/-- The width of the blanks that all non-blank lines start with, if there is such a line. -/
def commonMargin (lines : List (List Char)) : Option Nat :=
  lines.foldl (fun m l =>
    let content := (Text.stripLeft l).length
    if content = 0 then m
    else
      let indent := l.length - content
      some (match m with
        | some k => min k indent
        | none => indent)) none

/-- Without the empty lines at both ends. -/
def trimEmptyLines (lines : List (List Char)) : List (List Char) :=
  ((lines.reverse.dropWhile (·.isEmpty)).reverse).dropWhile (·.isEmpty)

def cleanDocstring (doc : String) : String :=
  match Text.splitOnChar '\n' (Text.expandTabs 0 doc.toList) with
  | [] => ""
  | first :: rest =>
    let rest := match commonMargin rest with
      | some m => rest.map (·.drop m)
      | none => rest
    String.ofList (List.intercalate ['\n'] (trimEmptyLines (Text.stripLeft first :: rest)))

/-- The documentation string at the head of a block, as written, with its lines. -/
def rawDocstring? : List Stmt → Option (Span × String)
  | .expr span (.constant (.str s _)) :: _ => some (span, s)
  | _ => none

/-- The cleaned documentation of a block. -/
def docstring? (body : List Stmt) : Option String :=
  (rawDocstring? body).map fun d => cleanDocstring d.2

end CodeAtlas.Syntax
