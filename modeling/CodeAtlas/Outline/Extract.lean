import CodeAtlas.Outline.Basic
import CodeAtlas.Path
import CodeAtlas.Syntax.Docstring
import CodeAtlas.Syntax.Grammar.Statement
import CodeAtlas.Syntax.Source
import CodeAtlas.Syntax.Walk

/-!
# The outline of a source text

Classes and functions are those at the top of the module, imports are those at any depth in
breadth-first order, and comments are the lines that start with a hash.
-/

namespace CodeAtlas.Outline

/-! ### Names of expressions -/

open Syntax

/-- The parts of a dotted name. What an attribute is taken of counts only if it is a name. -/
def dottedParts : Expr → List String
  | .name id => [id]
  | .attribute value attr => dottedParts value ++ [attr]
  | _ => []

/-- The dotted name of an expression, empty if it has none. -/
def dottedName (e : Expr) : String := ".".intercalate (dottedParts e)

/-- The dotted name that a decorator goes by, if it is a name, or a call of one. -/
def decoratorName? : Expr → Option String
  | .name id => some id
  | .attribute value attr => some (dottedName (.attribute value attr))
  | .call (.name id) _ _ => some id
  | .call (.attribute value attr) _ _ => some (dottedName (.attribute value attr))
  | _ => none

/-- The name of a decorator: its dotted name or else its source text. -/
def decoratorText (e : Expr) : Except SourceFault String :=
  match decoratorName? e with
  | some n => .ok n
  | none => e.source


/-! ### The outline of a source text -/

open Syntax

/-! ### Comments -/

/-- The comment that a line is: it starts with a hash, blanks apart, and has some text. -/
def commentOfLine? (line : List Char) : Option String :=
  match Text.stripChars line with
  | '#' :: rest =>
    let text := Text.stripChars (rest.dropWhile (· = '#'))
    if text.isEmpty then none else some (String.ofList text)
  | _ => none

/-- The comments among lines that are numbered from `n` on. -/
def commentsFrom (n : Nat) : List (List Char) → List Comment
  | [] => []
  | l :: ls =>
    match commentOfLine? l with
    | some t => ⟨t, n⟩ :: commentsFrom (n + 1) ls
    | none => commentsFrom (n + 1) ls

def comments (source : List Char) : List Comment := commentsFrom 1 (Text.newlineParts source)

def commentsWithin (cs : List Comment) (first last : Int) : List Comment :=
  cs.filter fun c => first ≤ c.line && c.line ≤ last

/-! ### Definitions -/

/-- The text of an annotation, empty if it has none. -/
def hintText (e : Expr) : String := e.source.toOption.getD ""

/-- The text of a type hint that may be missing. -/
def hintOrBlank (e : Option Expr) : String := (e.map hintText).getD ""

/-- The name of a decorator, empty if it has none. -/
def decoratorName (e : Expr) : String := (decoratorText e).toOption.getD ""

/-- The name of a base class: only names and dotted names count. -/
def baseName? : Expr → Option String
  | .name id => some id
  | .attribute value attr => some (dottedName (.attribute value attr))
  | _ => none

/-- The outline of a function: its parameters are those that can be given by position or by name. -/
def functionOutline (cs : List Comment) (span : Span) (head : FunctionHead) (body : List Stmt) :
    Function where
  name := head.name
  firstLine := span.first
  lastLine := span.last
  docstring := docstring? body
  decorators := head.decorators.map fun d => decoratorName d.expr
  parameters := head.signature.regular.map fun p => { name := p.name, hint := p.hint.map hintText }
  returns := head.returns.map hintText
  isAsync := head.isAsync
  comments := commentsWithin cs span.first span.last

/-- The outlines of the functions that stand directly in a block. -/
def functionsIn (cs : List Comment) (body : List Stmt) : List Function :=
  body.filterMap fun s =>
    match s with
    | .function span head body => some (functionOutline cs span head body)
    | _ => none

def classOutline (cs : List Comment) (span : Span) (head : ClassHead) (body : List Stmt) :
    Class where
  name := head.name
  firstLine := span.first
  lastLine := span.last
  bases := head.bases.filterMap baseName?
  docstring := docstring? body
  decorators := head.decorators.map fun d => decoratorName d.expr
  methods := functionsIn cs body
  comments := commentsWithin cs span.first span.last

/-! ### Modules -/

def importsOf : Stmt → List Import
  | .importNames span names =>
    names.map fun a => { module := a.name, line := span.first, names := [a.name] }
  | .importFrom span (some module) names _ =>
    if module.isEmpty then []
    else [{ module := module, line := span.first, names := names.map (·.name), isFrom := true }]
  | _ => []

def imports (m : Module) : List Import :=
  m.walk.flatMap fun v =>
    match v.node with
    | .stmt s => importsOf s
    | .clause _ => []

/-- The statements met on the walk that stand at the top of the module. -/
def topLevel (m : Module) : List Stmt :=
  m.walk.filterMap fun v =>
    match v.node with
    | .stmt s => if v.depth = 1 then some s else none
    | .clause _ => none

def classes (cs : List Comment) (m : Module) : List Class :=
  (topLevel m).filterMap fun s =>
    match s with
    | .classDef span head body => some (classOutline cs span head body)
    | _ => none

def functions (cs : List Comment) (m : Module) : List Function := functionsIn cs (topLevel m)

/-! ### What cannot be written out -/

/-- What is said of an annotation that cannot be written out. -/
def hintNotes (e : Expr) : List String :=
  match e.source with
  | .ok _ => []
  | .error f => [s!"Error unparsing annotation: {f.message}"]

/-- What is said of a decorator that cannot be written out. -/
def decoratorNotes (d : Decorator) : List String :=
  match decoratorText d.expr with
  | .ok _ => []
  | .error f => [s!"Error getting decorator name: {f.message}"]

def functionNotes (head : FunctionHead) : List String :=
  head.decorators.flatMap decoratorNotes
    ++ head.signature.regular.flatMap (fun p => p.hint.toList.flatMap hintNotes)
    ++ head.returns.toList.flatMap hintNotes

/-- What is said of the parts of a definition that cannot be written out. -/
def stmtNotes : Stmt → List String
  | .function _ head _ => functionNotes head
  | .classDef _ head body =>
    head.decorators.flatMap decoratorNotes ++ body.flatMap fun s =>
      match s with
      | .function _ head _ => functionNotes head
      | _ => []
  | _ => []

/-- What is said of the parts of a module that cannot be written out. -/
def notes (m : Module) : List String := (topLevel m).flatMap stmtNotes

/-! ### Files -/

/-- The outline of a module, given the text it was read from. -/
def ofModule (path : Path) (source : List Char) (m : Module) : File where
  path := path.text
  moduleName := path.stem
  docstring := docstring? m.body
  lineCount := source.count '\n' + 1
  classes := classes (comments source) m
  functions := functions (comments source) m
  imports := imports m
  comments := comments source

/-- The outline of a source text, if it is well formed. -/
def ofSource? (path : Path) (source : List Char) : Option File :=
  (parseModule? source).map (ofModule path source)

end CodeAtlas.Outline
