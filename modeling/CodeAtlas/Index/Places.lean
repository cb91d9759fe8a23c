import CodeAtlas.Data.Value
import CodeAtlas.Table

/-!
# The places of a project

Where each entity stands: its file and its lines, under the location that the skeleton gave it.
Paths are numbered as they are written.
-/

namespace CodeAtlas.Index

/-! ### Document headers -/

/-- What a document says about its own making. -/
structure Header where
  generated : String
  project : String
deriving DecidableEq, Repr, Inhabited

def formatVersion : String := "3.1"

def Header.toValue (h : Header) : Value :=
  .table [("version", .str formatVersion), ("generated", .str h.generated),
    ("project", .str h.project)]

def row (ns : List Int) : Value := .list (ns.map .int)

def count (name : String) {α : Type} (items : List α) : String × Value :=
  (name, Value.nat items.length)


/-! ### The places of a project -/

/-- The kinds of entities with a first and a last line. -/
inductive Ranged where
  | module
  | «class»
  | function
deriving DecidableEq, Repr

structure RangePlace where
  location : Int
  file : Nat
  first : Int
  last : Int
deriving DecidableEq, Repr

structure LinePlace where
  location : Int
  file : Nat
  line : Int
deriving DecidableEq, Repr

structure Places where
  files : Table := {}
  modules : List RangePlace := []
  classes : List RangePlace := []
  functions : List RangePlace := []
  imports : List LinePlace := []
deriving DecidableEq, Repr, Inhabited

namespace Places

def addFile (p : Places) (path : String) : Places × Nat :=
  let (files, i) := p.files.add path
  ({ p with files }, i)

def addRange (p : Places) (kind : Ranged) (location : Int) (path : String) (first last : Int) :
    Places :=
  let (p, f) := p.addFile path
  let place := ⟨location, f, first, last⟩
  match kind with
  | .module => { p with modules := p.modules ++ [place] }
  | .class => { p with classes := p.classes ++ [place] }
  | .function => { p with functions := p.functions ++ [place] }

def addImport (p : Places) (location : Int) (path : String) (line : Int) : Places :=
  let (p, f) := p.addFile path
  { p with imports := p.imports ++ [⟨location, f, line⟩] }

/-! ### The document -/

def ranges (ps : List RangePlace) : Value :=
  .list (ps.map fun p => row [p.location, p.file, p.first, p.last])

def document (p : Places) (header : Header) : Value :=
  .table [
    ("meta", header.toValue),
    ("files", Value.strings p.files.items),
    ("modules", ranges p.modules),
    ("classes", ranges p.classes),
    ("functions", ranges p.functions),
    ("imports", .list (p.imports.map fun i => row [i.location, i.file, i.line]))]

/-- What is reported when the document is made. -/
def summary (p : Places) : String :=
  s!"Built TECH-LOCATION: {p.classes.length} classes, {p.functions.length} functions with coordinates"

def statistics (p : Places) : Value :=
  .table [
    count "files" p.files.items,
    count "modules" p.modules,
    count "classes" p.classes,
    count "functions" p.functions,
    count "imports" p.imports]

end Places

end CodeAtlas.Index
