import CodeAtlas.Catalog.Describe
import CodeAtlas.Syntax.Docstring

/-!
# Sketches of definitions

A sketch says what a catalog records of a definition, in words and in source order. Numbering the
texts is left to the catalog.
-/

namespace CodeAtlas.Catalog

open Syntax

def filled? (s : Option String) : Option String := s.filter (!·.isEmpty)

/-- The text of a hint, if there is one. -/
def hintText? : Option Expr → Except SourceFault (Option String)
  | none => .ok none
  | some e => return filled? (some (← typeText e))

/-- The text of a default, if there is one that is described. -/
def defaultOf? : Option Expr → Except SourceFault (Option String)
  | none => .ok none
  | some e => return filled? (← defaultText? e)

/-! ### Parameters -/

/-- How arguments reach a parameter. -/
inductive ParameterKind where
  | regular
  | keywordOnly
  | rest
  | keywordRest
  | positionalOnly
deriving DecidableEq, Repr

def ParameterKind.code : ParameterKind → Nat
  | regular => 0
  | keywordOnly => 1
  | rest => 2
  | keywordRest => 3
  | positionalOnly => 4

structure ParameterSketch where
  name : String
  hint : Option String
  default : Option String
  kind : ParameterKind
  required : Bool
  isNamed : Text.isIdentifier name.toList = true
deriving Repr

instance : DecidableEq ParameterSketch := fun p q =>
  decidable_of_iff ((p.name, p.hint, p.default, p.kind, p.required) =
      (q.name, q.hint, q.default, q.kind, q.required))
    ⟨fun h => by cases p; cases q; simp_all, fun h => h ▸ rfl⟩

/-- The default of the regular parameter at a position: defaults belong to the last parameters. -/
def regularDefault? (s : Signature) (i : Nat) : Option Expr :=
  let k : Int := i - (s.regular.length - s.defaults.length : Int)
  if 0 ≤ k then s.defaults[k.toNat]? else none

/-- A parameter without a default. -/
def bareParameter (kind : ParameterKind) (required : Bool) (p : Param) :
    Except SourceFault ParameterSketch := do
  let hint ← hintText? p.hint
  return ⟨p.name, hint, none, kind, required, p.isNamed⟩

/-- A parameter that may have a default. It is required if no default is described. -/
def defaultParameter (kind : ParameterKind) (p : Param) (value : Option Expr) :
    Except SourceFault ParameterSketch := do
  let hint ← hintText? p.hint
  let default ← defaultOf? value
  return ⟨p.name, hint, default, kind, default.isNone, p.isNamed⟩

/-- The parameters of a signature in the order in which they are recorded. -/
def parameterSketches (s : Signature) : Except SourceFault (List ParameterSketch) := do
  let posOnly ← s.posOnly.mapM (bareParameter .positionalOnly true)
  let regular ← s.regular.zipIdx.mapM fun (p, i) =>
    defaultParameter .regular p (regularDefault? s i)
  let rest ← s.varArg.toList.mapM (bareParameter .rest false)
  let kwOnly ← s.kwOnly.zipIdx.mapM fun (p, i) =>
    defaultParameter .keywordOnly p (s.kwDefaults[i]?.join)
  let kwRest ← s.kwArg.toList.mapM (bareParameter .keywordRest false)
  return posOnly ++ regular ++ rest ++ kwOnly ++ kwRest

/-! ### Functions -/

structure FunctionSketch where
  name : String
  kind : FunctionKind
  decorators : List String
  returns : Option String
  parameters : List ParameterSketch
  docstring : Option String
deriving DecidableEq, Repr

/-- The kind of a function: what its decorators say, or else whether it is a coroutine. -/
def functionKind (head : FunctionHead) : FunctionKind :=
  (kindOf? head.decorators).getD (if head.isAsync then .coroutine else .plain)

/-- The documentation of a block, if it is wanted and not empty. -/
def documentation? (wanted : Bool) (body : List Stmt) : Option String :=
  if wanted then filled? (docstring? body) else none

def functionSketch (docs : Bool) (head : FunctionHead) (body : List Stmt) :
    Except SourceFault FunctionSketch := do
  let decorators ← decoratorTexts head.decorators
  let returns ← hintText? head.returns
  let parameters ← parameterSketches head.signature
  return ⟨head.name, functionKind head, decorators, returns, parameters, documentation? docs body⟩

/-! ### Classes -/

structure AttributeSketch where
  name : String
  hint : Option String
  default : Option String
deriving DecidableEq, Repr

/-- The attributes that a statement of a class sets. -/
def attributeSketches : Stmt → Except SourceFault (List AttributeSketch)
  | .annotated _ (.name id) hint value => return [⟨id, ← hintText? (some hint), ← defaultOf? value⟩]
  | .assign _ targets value =>
    targets |> gather fun t =>
      match t with
      | .name id => return [⟨id, none, ← defaultOf? (some value)⟩]
      | _ => return []
  | _ => return []

/-- The name of a base class: a name, or an attribute after at most one name. -/
def baseName? : Expr → Option String
  | .name id => some id
  | .attribute (.name base) attr => some (base ++ "." ++ attr)
  | .attribute _ attr => some attr
  | _ => none

structure ClassSketch where
  name : String
  bases : List String
  methods : List FunctionSketch
  attributes : List AttributeSketch
  docstring : Option String
deriving DecidableEq, Repr

/-- The functions of a block. -/
def functionsIn (docs : Bool) (body : List Stmt) : Except SourceFault (List FunctionSketch) :=
  body |> gather fun s =>
    match s with
    | .function _ head inner => return [← functionSketch docs head inner]
    | _ => return []

def classSketch (docs : Bool) (head : ClassHead) (body : List Stmt) :
    Except SourceFault ClassSketch := do
  let methods ← functionsIn docs body
  let attributes ← gather attributeSketches body
  return ⟨head.name, head.bases.filterMap baseName?, methods, attributes, documentation? docs body⟩

/-! ### Modules -/

/-- An import: of a module, or of names from a module. -/
structure ImportSketch where
  target : Option String
  names : List String
  isFrom : Bool
  level : Nat
deriving DecidableEq, Repr

def importSketches : Stmt → List ImportSketch
  | .importNames _ names => names.map fun a => ⟨some a.name, [], false, 0⟩
  | .importFrom _ module names level => [⟨filled? module, names.map (·.name), true, level⟩]
  | _ => []

inductive Definition where
  | function (f : FunctionSketch)
  | «class» (c : ClassSketch)
deriving DecidableEq, Repr

structure ModuleSketch where
  imports : List ImportSketch
  definitions : List Definition
  docstring : Option String
deriving DecidableEq, Repr

/-- The definition that a statement is, if it is one. -/
def definitionSketch (docs : Bool) : Stmt → Except SourceFault (List Definition)
  | .function _ head body => return [.function (← functionSketch docs head body)]
  | .classDef _ head body => return [.class (← classSketch docs head body)]
  | _ => return []

def moduleSketch (docs : Bool) (m : Module) : Except SourceFault ModuleSketch := do
  let definitions ← gather (definitionSketch docs) m.body
  return ⟨m.body.flatMap importSketches, definitions, documentation? docs m.body⟩

/-! ### Documentation -/

/-- The style in which documentation is written. -/
inductive DocStyle where
  | plain
  | sections
  | underlined
  | fields
deriving DecidableEq, Repr

def DocStyle.name : DocStyle → String
  | plain => "plain"
  | sections => "google"
  | underlined => "numpy"
  | fields => "rst"

/-- The style of a documentation text: the marks of a style decide, the first style that has one. -/
def docStyle (text : String) : DocStyle :=
  if Text.contains text "Args:" || Text.contains text "Returns:" then .sections
  else if Text.contains text "Parameters\n" || Text.contains text "Returns\n" then .underlined
  else if Text.contains text ":param" || Text.contains text ":return:" then .fields
  else .plain

end CodeAtlas.Catalog
