import CodeAtlas.Catalog.Sketch
import CodeAtlas.Path
import CodeAtlas.Table

/-!
# Catalogs

A catalog numbers all texts of a project in one table and records its definitions in rows of
numbers. Every module, class, function and attribute has a location of its own: 1, 2, 3, ...
-/

namespace CodeAtlas

namespace Catalog

structure ModuleRow where
  name : Nat
  file : Nat
  location : Nat
deriving DecidableEq, Repr

structure ClassRow where
  module : Nat
  name : Nat
  bases : List Nat
  methods : List Nat
  location : Nat
  attributes : List Nat
deriving DecidableEq, Repr

structure FunctionRow where
  module : Nat
  /-- The class of a method. -/
  parent : Option Nat
  name : Nat
  kind : FunctionKind
  returns : Option Nat
  /-- The positions of the parameters. -/
  parameters : List Nat
  decorators : List Nat
  location : Nat
deriving DecidableEq, Repr

structure ParameterRow where
  position : Nat
  name : Nat
  hint : Option Nat
  default : Option Nat
  kind : ParameterKind
  required : Bool
deriving DecidableEq, Repr

structure AttributeRow where
  parent : Nat
  name : Nat
  hint : Option Nat
  default : Option Nat
  location : Nat
deriving DecidableEq, Repr

/-- What a documentation text belongs to. -/
inductive Documented where
  | module
  | «class»
  | function
deriving DecidableEq, Repr

def Documented.code : Documented → Nat
  | module => 0
  | «class» => 1
  | function => 2

structure DocstringRow where
  kind : Documented
  owner : Nat
  text : Nat
  style : Nat
deriving DecidableEq, Repr

structure ImportRow where
  module : Nat
  target : Option Nat
  names : List Nat
  isFrom : Bool
  level : Nat
deriving DecidableEq, Repr

end Catalog

structure Catalog where
  names : Table := {}
  files : Table := {}
  nextLocation : Nat := 1
  modules : List Catalog.ModuleRow := []
  classes : List Catalog.ClassRow := []
  functions : List Catalog.FunctionRow := []
  /-- The parameters of functions that have any. -/
  parameters : Keyed Nat (List Catalog.ParameterRow) := []
  attributes : List Catalog.AttributeRow := []
  docstrings : List Catalog.DocstringRow := []
  imports : List Catalog.ImportRow := []
  fileHashes : Keyed Nat String := []
  /-- The digests of classes and functions. -/
  objectHashes : Keyed String String := []
  /-- The name of the hash function, once it is recorded. -/
  algorithm : Option Nat := none
  /-- The digest of the whole catalog, once it is taken. -/
  dataHash : Option String := none
deriving DecidableEq, Repr, Inhabited

namespace Catalog

def addName (c : Catalog) (name : String) : Catalog × Nat :=
  let (names, i) := c.names.add name
  ({ c with names }, i)

def addNames (c : Catalog) (names : List String) : Catalog × List Nat :=
  let (names, is) := c.names.addAll names
  ({ c with names }, is)

/-- Numbers a text that may be missing. -/
def addName? (c : Catalog) (name : Option String) : Catalog × Option Nat :=
  match name with
  | none => (c, none)
  | some s =>
    let (c, i) := c.addName s
    (c, some i)

def addFile (c : Catalog) (path : String) : Catalog × Nat :=
  let (files, i) := c.files.add path
  ({ c with files }, i)

def takeLocation (c : Catalog) : Catalog × Nat :=
  ({ c with nextLocation := c.nextLocation + 1 }, c.nextLocation)

/-- Records documentation and its style. -/
def addDocstring (c : Catalog) (kind : Documented) (owner : Nat) (text : Option String) : Catalog :=
  match text with
  | none => c
  | some t =>
    let (c, i) := c.addName t
    let (c, s) := c.addName (docStyle t).name
    { c with docstrings := c.docstrings ++ [⟨kind, owner, i, s⟩] }

/-- Numbers the texts of parameters; positions count from `i`. -/
def addParameterRows (c : Catalog) (i : Nat) : List ParameterSketch → Catalog × List ParameterRow
  | [] => (c, [])
  | p :: ps =>
    let (c, name) := c.addName p.name
    let (c, hint) := c.addName? p.hint
    let (c, default) := c.addName? p.default
    let (c, rows) := c.addParameterRows (i + 1) ps
    (c, ⟨i, name, hint, default, p.kind, p.required⟩ :: rows)

/-- Records the parameters of a function and gives their positions. -/
def addParameters (c : Catalog) (function : Nat) (ps : List ParameterSketch) : Catalog × List Nat :=
  let (c, rows) := c.addParameterRows 0 ps
  let c := if rows.isEmpty then c else { c with parameters := c.parameters.put function rows }
  (c, rows.map (·.position))

/-- Records a function of a module, or a method of a class, and gives its number. -/
def addFunction (c : Catalog) (module : Nat) (parent : Option Nat) (f : FunctionSketch) :
    Catalog × Nat :=
  let number := c.functions.length
  let (c, name) := c.addName f.name
  let (c, decorators) := c.addNames f.decorators
  let (c, returns) := c.addName? f.returns
  let (c, parameters) := c.addParameters number f.parameters
  let (c, location) := c.takeLocation
  let row : FunctionRow := ⟨module, parent, name, f.kind, returns, parameters, decorators, location⟩
  let c := { c with functions := c.functions ++ [row] }
  (c.addDocstring .function number f.docstring, number)

/-- Records the methods of a class and gives their numbers. -/
def addMethods (c : Catalog) (module parent : Nat) : List FunctionSketch → Catalog × List Nat
  | [] => (c, [])
  | f :: fs =>
    let (c, i) := c.addFunction module (some parent) f
    let (c, is) := c.addMethods module parent fs
    (c, i :: is)

/-- Records the attributes of a class and gives their numbers. -/
def addAttributes (c : Catalog) (parent : Nat) : List AttributeSketch → Catalog × List Nat
  | [] => (c, [])
  | a :: as =>
    let (c, name) := c.addName a.name
    let (c, hint) := c.addName? a.hint
    let (c, default) := c.addName? a.default
    let (c, location) := c.takeLocation
    let number := c.attributes.length
    let row : AttributeRow := ⟨parent, name, hint, default, location⟩
    let c := { c with attributes := c.attributes ++ [row] }
    let (c, is) := c.addAttributes parent as
    (c, number :: is)

def addClass (c : Catalog) (module : Nat) (k : ClassSketch) : Catalog :=
  let number := c.classes.length
  let (c, name) := c.addName k.name
  let (c, bases) := c.addNames k.bases
  let (c, methods) := c.addMethods module number k.methods
  let (c, attributes) := c.addAttributes number k.attributes
  let (c, location) := c.takeLocation
  let row : ClassRow := ⟨module, name, bases, methods, location, attributes⟩
  let c := { c with classes := c.classes ++ [row] }
  c.addDocstring .class number k.docstring

def addImport (module : Nat) (c : Catalog) (i : ImportSketch) : Catalog :=
  let (c, target) := c.addName? i.target
  let (c, names) := c.addNames i.names
  { c with imports := c.imports ++ [⟨module, target, names, i.isFrom, i.level⟩] }

def addImports (c : Catalog) (module : Nat) (is : List ImportSketch) : Catalog :=
  is.foldl (addImport module) c

def addDefinition (module : Nat) (c : Catalog) : Definition → Catalog
  | .function f => (c.addFunction module none f).1
  | .class k => c.addClass module k

/-- Records a module under its name and path, with the digest of its file; gives its number. -/
def addModule (c : Catalog) (name path hash : String) (m : ModuleSketch) : Catalog × Nat :=
  let number := c.modules.length
  let (c, n) := c.addName name
  let (c, file) := c.addFile path
  let (c, location) := c.takeLocation
  let row : ModuleRow := ⟨n, file, location⟩
  let c := { c with modules := c.modules ++ [row], fileHashes := c.fileHashes.put file hash }
  let c := c.addImports number m.imports
  let c := m.definitions.foldl (addDefinition number) c
  (c.addDocstring .module number m.docstring, number)

/-- The name of a module: its path without its ending, with dots between the names. -/
def moduleName (path : Path) : String := Text.replaceAll path.dropSuffix.text "/" "."

end Catalog

end CodeAtlas
