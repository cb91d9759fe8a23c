import CodeAtlas.Locate.Basic
import CodeAtlas.Session
import CodeAtlas.Syntax.Docstring

/-!
# Placing the definitions of a file

The definitions of a file are matched by name with the rows of a catalog, which comes from a file
and may have any shape. A row is placed once. What was placed before a fault stays placed.
-/

namespace CodeAtlas.Locate

open Syntax

abbrev Placing := Step Locations

def read {α : Type} (r : Except AccessFault α) : Placing α :=
  match r with
  | .ok x => pure x
  | .error f => throw f

/-- The width of the blanks at the beginning of a line. -/
def indentation (lines : List (List Char)) (line : Int) : Nat :=
  if line < 1 then 0
  else
    match lines[(line - 1).toNat]? with
    | some l => l.length - (Text.stripLeft l).length
    | none => 0

/-- The mark of a decorator that is placed: a name, a name with one dot, or a call of either. It
does not show arguments. -/
def decoratorMark? : Expr → Option String
  | .name id => some ("@" ++ id)
  | .call (.name id) _ _ => some ("@" ++ id ++ "(...)")
  | .call (.attribute (.name base) attr) _ _ => some ("@" ++ base ++ "." ++ attr)
  | .attribute (.name base) attr => some ("@" ++ base ++ "." ++ attr)
  | _ => none

/-- Numbers the marks of decorators and gives them with their lines. -/
def addDecorators (l : Locations) : List Decorator → Locations × List (Nat × Nat)
  | [] => (l, [])
  | d :: ds =>
    match decoratorMark? d.expr with
    | none => addDecorators l ds
    | some mark =>
      let (decorators, i) := l.decorators.add mark
      let (l, rest) := addDecorators { l with decorators } ds
      (l, (d.line, i) :: rest)

/-- The line where a body starts, behind its documentation. -/
def bodyStart (line : Nat) (body : List Stmt) (docstring : Option Span) : Nat :=
  match docstring, body with
  | some d, _ => d.last + 1
  | none, s :: _ => s.span.first
  | none, [] => line + 1

/-- The lines of the documentation of a block. -/
def docstringSpan? (body : List Stmt) : Option Span := (rawDocstring? body).map (·.1)

/-- What is known while a file is placed. -/
structure Context where
  catalog : Value
  file : Int
  lines : List (List Char)

/-- The rows of a section with their numbers. -/
def Context.rows (c : Context) (key : String) : Placing (List (Value × Nat)) := do
  return (← read (do (← c.catalog.field key).members)).zipIdx

/-- The name whose number stands at a position of a row. -/
def Context.nameAt (c : Context) (row : Value) (position : Nat) : Placing Value :=
  read (do
    let i ← row.item position
    (← c.catalog.field "names").part i)

def Context.location (c : Context) (key : String) (number position : Nat) : Placing Value :=
  read (do (← (← c.catalog.field key).item number).item position)

/-- Where a definition stands. -/
def Context.place (c : Context) (number : Nat) (location : Value) (span : Span)
    (decorators : List Decorator) (body : List Stmt) : Placing DefinitionRow := do
  let (l, marks) := addDecorators (← get) decorators
  set l
  let docstring := docstringSpan? body
  return {
    number, location
    file := c.file
    first := (marks.head?.map (·.1)).getD span.first
    last := span.last
    line := span.first
    body := bodyStart span.first body docstring
    indentation := indentation c.lines span.first
    decorators := marks
    docstring }

def Context.placeClass (c : Context) (number : Nat) (span : Span) (head : ClassHead)
    (body : List Stmt) : Placing Unit := do
  let location ← c.location "classes" number 5
  let row ← c.place number location span head.decorators body
  modify fun l => { l with classes := l.classes ++ [row] }

def Context.placeFunction (c : Context) (number : Nat) (span : Span) (head : FunctionHead)
    (body : List Stmt) : Placing Unit := do
  let location ← c.location "functions" number 7
  let row ← c.place number location span head.decorators body
  modify fun l => { l with functions := l.functions ++ [row] }

/-- Whether a row of a section is taken. -/
def isPlaced (placed : Locations → List DefinitionRow) (number : Nat) : Placing Bool := do
  return (placed (← get)).any (·.number = number)

def Context.isClass (c : Context) (row : Value) (name : String) : Placing Bool := do
  return (← c.nameAt row 1).same (.str name)

def Context.isFunction (c : Context) (row owner : Value) (name : String) : Placing Bool := do
  let parent ← read (row.item 1)
  let found ← c.nameAt row 2
  return parent.same owner && found.same (.str name)

/-- Places a method at every row that is its own and not taken. -/
def Context.placeMethod (c : Context) (owner : Nat) (span : Span) (head : FunctionHead)
    (body : List Stmt) : List (Value × Nat) → Placing Unit
  | [] => pure ()
  | (row, number) :: rows => do
    if ← c.isFunction row (.nat owner) head.name then
      if !(← isPlaced (·.functions) number) then c.placeFunction number span head body
    c.placeMethod owner span head body rows

def Context.placeMethods (c : Context) (owner : Nat) : List Stmt → Placing Unit
  | [] => pure ()
  | .function span head body :: rest => do
    c.placeMethod owner span head body (← c.rows "functions")
    c.placeMethods owner rest
  | _ :: rest => c.placeMethods owner rest

/-- Places a definition at the first row that is its own, unless that is taken. -/
def placeFirst (isOwn : Value → Placing Bool) (placed : Locations → List DefinitionRow)
    (place : Nat → Placing Unit) : List (Value × Nat) → Placing Unit
  | [] => pure ()
  | (row, number) :: rows => do
    if ← isOwn row then
      if !(← isPlaced placed number) then place number
    else placeFirst isOwn placed place rows

/-- A class goes to a row with its name, and its methods follow. -/
def Context.placeFirstClass (c : Context) (span : Span) (head : ClassHead) (body : List Stmt) :
    List (Value × Nat) → Placing Unit :=
  placeFirst (c.isClass · head.name) (·.classes) fun number => do
    c.placeClass number span head body
    c.placeMethods number body

/-- A function goes to a row with its name and no class. -/
def Context.placeFirstFunction (c : Context) (span : Span) (head : FunctionHead)
    (body : List Stmt) : List (Value × Nat) → Placing Unit :=
  placeFirst (c.isFunction · (.int (-1)) head.name) (·.functions) (c.placeFunction · span head body)

def Context.placeDefinitions (c : Context) : List Stmt → Placing Unit
  | [] => pure ()
  | .classDef span head body :: rest => do
    c.placeFirstClass span head body (← c.rows "classes")
    c.placeDefinitions rest
  | .function span head body :: rest => do
    c.placeFirstFunction span head body (← c.rows "functions")
    c.placeDefinitions rest
  | _ :: rest => c.placeDefinitions rest

def Context.placeModule (c : Context) (number : Nat) (m : Module) : Placing Unit := do
  let location ← c.location "modules" number 2
  match Value.atIndex? (← get).files c.file with
  | none => throw .listRange
  | some file =>
    let row : ModuleRow := ⟨number, location, c.file, file.lines, docstringSpan? m.body⟩
    modify fun l => { l with modules := l.modules ++ [row] }

/-- Places a module at every row that belongs to its file. -/
def Context.placeModules (c : Context) (m : Module) : List (Value × Nat) → Placing Unit
  | [] => pure ()
  | (row, number) :: rows => do
    if (← read (row.item 1)).same (.int c.file) then c.placeModule number m
    c.placeModules m rows

/-- Places everything in a file. -/
def Context.placeAll (c : Context) (m : Module) : Placing Unit := do
  modify fun l => l.addComments c.file 1 c.lines
  modify fun l => m.body.foldl (Locations.addModuleImports c.file) l
  c.placeModules m (← c.rows "modules")
  c.placeDefinitions m.body

end CodeAtlas.Locate
