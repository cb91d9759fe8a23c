import CodeAtlas.Index.Places
import CodeAtlas.Path
import CodeAtlas.Text.Search

/-!
# The skeleton of a project

The skeleton records what there is, without line numbers and texts. Names and files are numbered in
tables, and every entity gets a location, 0, 1, 2, ..., by which the other documents refer to it.
-/

namespace CodeAtlas.Index

structure ModuleEntry where
  name : Nat
  file : Nat
  /-- The module that holds it, -1 for none. -/
  parent : Int
  location : Nat
deriving DecidableEq, Repr

structure ClassEntry where
  name : Nat
  bases : List Nat
  file : Nat
  location : Nat
deriving DecidableEq, Repr

structure FunctionEntry where
  name : Nat
  /-- The class that holds it, -1 for none. -/
  parent : Int
  file : Nat
  location : Nat
deriving DecidableEq, Repr

structure ImportEntry where
  name : Nat
  file : Nat
  location : Nat
deriving DecidableEq, Repr

structure AttributeEntry where
  name : Nat
  parent : Int
  hint : Option Nat
deriving DecidableEq, Repr

/-- The type hints of a function: parameters with their types, and the result type. -/
structure Hints where
  params : List (Nat × Nat)
  returns : Option Nat
deriving DecidableEq, Repr

structure Skeleton where
  names : Table := {}
  files : Table := {}
  nextLocation : Nat := 0
  modules : List ModuleEntry := []
  classes : List ClassEntry := []
  functions : List FunctionEntry := []
  imports : List ImportEntry := []
  attributes : List AttributeEntry := []
  hints : Keyed Int Hints := []
  decorators : Keyed Int (List Nat) := []
deriving DecidableEq, Repr, Inhabited

namespace Skeleton

/-- The spelling under which a path is numbered: normalised, with forward slashes. -/
def fileName (path : String) : String := Text.replaceAll (Path.ofString path).text "\\" "/"

def addName (s : Skeleton) (name : String) : Skeleton × Nat :=
  let (names, i) := s.names.add name
  ({ s with names }, i)

def addNames (s : Skeleton) (names : List String) : Skeleton × List Nat :=
  let (names, is) := s.names.addAll names
  ({ s with names }, is)

def addFile (s : Skeleton) (path : String) : Skeleton × Nat :=
  let (files, i) := s.files.add (fileName path)
  ({ s with files }, i)

def takeLocation (s : Skeleton) : Skeleton × Nat :=
  ({ s with nextLocation := s.nextLocation + 1 }, s.nextLocation)

def addModule (s : Skeleton) (name path : String) (parent : Int := -1) : Skeleton × Nat :=
  let (s, n) := s.addName name
  let (s, f) := s.addFile path
  let (s, l) := s.takeLocation
  ({ s with modules := s.modules ++ [⟨n, f, parent, l⟩] }, l)

def addClass (s : Skeleton) (name : String) (bases : List String) (path : String) :
    Skeleton × Nat :=
  let (s, n) := s.addName name
  let (s, bs) := s.addNames bases
  let (s, f) := s.addFile path
  let (s, l) := s.takeLocation
  ({ s with classes := s.classes ++ [⟨n, bs, f, l⟩] }, l)

def addFunction (s : Skeleton) (name : String) (parent : Int) (path : String) : Skeleton × Nat :=
  let (s, n) := s.addName name
  let (s, f) := s.addFile path
  let (s, l) := s.takeLocation
  ({ s with functions := s.functions ++ [⟨n, parent, f, l⟩] }, l)

def addImport (s : Skeleton) (name path : String) : Skeleton × Nat :=
  let (s, n) := s.addName name
  let (s, f) := s.addFile path
  let (s, l) := s.takeLocation
  ({ s with imports := s.imports ++ [⟨n, f, l⟩] }, l)

/-- Numbers the names of parameters and their types, each parameter before its type. -/
def addPairs (s : Skeleton) : List (String × String) → Skeleton × List (Nat × Nat)
  | [] => (s, [])
  | (p, t) :: rest =>
    let (s, i) := s.addName p
    let (s, j) := s.addName t
    let (s, ps) := s.addPairs rest
    (s, (i, j) :: ps)

/-- Numbers a name that may be missing; an empty one counts as missing. -/
def addName? (s : Skeleton) (name : Option String) : Skeleton × Option Nat :=
  match name.filter (!·.isEmpty) with
  | none => (s, none)
  | some n => let (s, i) := s.addName n; (s, some i)

/-- Records the type hints of the function at a location; what was recorded there is replaced. -/
def addHints (s : Skeleton) (location : Int) (params : List (String × String))
    (returns : Option String) : Skeleton :=
  let (s, ps) := s.addPairs params
  let (s, r) := s.addName? returns
  { s with hints := s.hints.put location ⟨ps, r⟩ }

/-- Records the decorators of what is at a location, if there are any. -/
def addDecorators (s : Skeleton) (location : Int) (decorators : List String) : Skeleton :=
  if decorators.isEmpty then s
  else
    let (s, ds) := s.addNames decorators
    { s with decorators := s.decorators.put location ds }

def addAttribute (s : Skeleton) (name : String) (parent : Int) (hint : Option String := none) :
    Skeleton :=
  let (s, n) := s.addName name
  let (s, t) := s.addName? hint
  { s with attributes := s.attributes ++ [⟨n, parent, t⟩] }

/-! ### The document -/

def Hints.toValue (h : Hints) : Value :=
  let params := ("params", Value.list (h.params.map fun (p, t) => row [p, t]))
  match h.returns with
  | none => .table [params]
  | some r => .table [params, ("return", Value.nat r)]

def document (s : Skeleton) (header : Header) : Value :=
  .table [
    ("meta", header.toValue),
    ("names", Value.strings s.names.items),
    ("files", Value.strings s.files.items),
    ("modules", .list (s.modules.map fun m => row [m.name, m.file, m.parent, m.location])),
    ("classes", .list (s.classes.map fun c =>
      .list [Value.nat c.name, row (c.bases.map Int.ofNat), Value.nat c.file,
        Value.nat c.location])),
    ("functions", .list (s.functions.map fun f => row [f.name, f.parent, f.file, f.location])),
    ("imports", .list (s.imports.map fun i => row [i.name, i.file, i.location])),
    ("attributes", .list (s.attributes.map fun a =>
      row [a.name, a.parent, (a.hint.map Int.ofNat).getD (-1)])),
    ("typehints", .table (s.hints.map fun (l, h) => (toString l, Hints.toValue h))),
    ("decorators", .table (s.decorators.map fun (l, ds) => (toString l, row (ds.map Int.ofNat))))]

/-- What is reported when the document is made. -/
def summary (s : Skeleton) : String :=
  s!"Built TECH-INDEX: {s.names.size} names, {s.classes.length} classes, {s.functions.length} functions"

def statistics (s : Skeleton) : Value :=
  .table [
    count "names" s.names.items,
    count "files" s.files.items,
    count "modules" s.modules,
    count "classes" s.classes,
    count "functions" s.functions,
    count "imports" s.imports,
    count "attributes" s.attributes,
    count "typehints" s.hints,
    count "decorators" s.decorators,
    ("location_ids", Value.nat s.nextLocation)]

end Skeleton

end CodeAtlas.Index
