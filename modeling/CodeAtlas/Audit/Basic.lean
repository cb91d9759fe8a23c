import CodeAtlas.Audit.Rule
import CodeAtlas.Session

/-!
# Audits

An audit gathers the names, files and defaults of outlines in tables, and findings on the way.
-/

namespace CodeAtlas

/-! ### Audits -/

structure Audit where
  names : Table := {}
  files : Table := {}
  defaults : Table := {}
  mutableDefaults : List Audit.MutableDefault := []
  queries : List Audit.Query := []
  secrets : List Audit.Secret := []
  globals : List Audit.Global := []
  loggingUses : List Audit.LoggingUse := []
  missingHints : List Audit.MissingHint := []
  missingDocstrings : List Audit.MissingDocstring := []
  dependencies : List Audit.Dependency := []

namespace Audit

open Outline

def addName (a : Audit) (name : String) : Audit := { a with names := (a.names.add name).1 }

def addNames (a : Audit) (names : List String) : Audit :=
  { a with names := (a.names.addAll names).1 }

/-- Adds a name that may be missing or empty. -/
def addName? (a : Audit) (name : Option String) : Audit :=
  match present? name with
  | some n => a.addName n
  | none => a

def addDefault (a : Audit) (default : String) : Audit :=
  { a with defaults := (a.defaults.add default).1 }

def addFile (a : Audit) (path : String) : Audit × Nat :=
  let (files, i) := a.files.add path
  ({ a with files }, i)

/-- Adds a parameter of a function: its name, its type and its default, which may be a finding. -/
def addParameter (file : Nat) (f : Function) (a : Audit) (p : Parameter) : Audit :=
  let a := (a.addName p.name).addName? p.hint
  match present? p.default with
  | none => a
  | some d =>
    let a := a.addDefault d
    if isMutable d then
      let found : MutableDefault := ⟨f.name, file, f.firstLine, p.name, d, mutableKind d⟩
      { a with mutableDefaults := a.mutableDefaults ++ [found] }
    else a

def addSignature (a : Audit) (file : Nat) (f : Function) : Audit :=
  let a := (a.addName f.name).addNames f.decorators
  let a := f.parameters.foldl (addParameter file f) a
  a.addName? f.returns

/-- Notes that documentation is missing, if it is. -/
def noteDocstring (a : Audit) (kind : Documentable) (file : Nat) (name : String) (line : Int)
    (docstring : Option String) : Audit :=
  if !present docstring && isPublic name then
    { a with missingDocstrings := a.missingDocstrings ++ [⟨name, kind, file, line⟩] }
  else a

def noteHints (a : Audit) (file : Nat) (f : Function) (complete : Bool) : Audit :=
  if complete then a else { a with missingHints := a.missingHints ++ [⟨f.name, file, f.firstLine⟩] }

/-- Notes whether a class is given its parts. -/
def noteDependency (a : Audit) (file : Nat) (c : Outline.Class) : Audit :=
  match isInjected? c with
  | none => a
  | some isInjected =>
      { a with dependencies := a.dependencies ++ [⟨c.name, file, c.firstLine, isInjected⟩] }

def addAttribute (a : Audit) (x : Attribute) : Audit :=
  let a := (a.addName x.name).addName? x.hint
  match present? x.default with
  | some d => a.addDefault d
  | none => a

def addImport (a : Audit) (i : Import) : Audit := (a.addName i.module).addNames i.names

/-! ### Steps that may fail -/

abbrev Auditing := Step Audit

/-- Audits a function. Public functions are checked for type hints. -/
def auditFunction (file : Nat) (f : Function) : Auditing Unit := do
  modify fun a => a.addSignature file f
  if isPublic f.name then
    match hasHints f with
    | .ok complete => modify fun a => a.noteHints file f complete
    | .error e => throw e
  modify fun a => a.noteDocstring .function file f.name f.firstLine f.docstring

def auditFunctions (file : Nat) : List Function → Auditing Unit
  | [] => pure ()
  | f :: fs => do
    auditFunction file f
    auditFunctions file fs

def auditClass (file : Nat) (c : Outline.Class) : Auditing Unit := do
  modify fun a => c.attributes.foldl addAttribute
    (((a.addName c.name).addNames c.bases).addNames c.decorators)
  auditFunctions file c.methods
  modify fun a => (a.noteDocstring .class file c.name c.firstLine c.docstring).noteDependency file c

def auditClasses (file : Nat) : List Outline.Class → Auditing Unit
  | [] => pure ()
  | c :: cs => do
    auditClass file c
    auditClasses file cs

/-- Audits the outline of a file, and gives the file's number. -/
def auditOutline (f : File) : Auditing Nat := do
  let (a, file) := (← get).addFile f.path
  set (f.imports.foldl addImport a)
  auditClasses file f.classes
  auditFunctions file f.functions
  return file

/-! ### Statistics -/

def statistics (a : Audit) : List (String × Nat) := [
  ("total_names", a.names.size),
  ("total_files", a.files.size),
  ("total_defaults", a.defaults.size),
  ("mutable_defaults_count", a.mutableDefaults.length),
  ("sql_injections_count", a.queries.length),
  ("hardcoded_secrets_count", a.secrets.length),
  ("global_variables_count", a.globals.length),
  ("missing_type_hints_count", a.missingHints.length),
  ("missing_docstrings_count", a.missingDocstrings.length),
  ("classes_with_di", a.dependencies.countP (·.isInjected)),
  ("classes_without_di", a.dependencies.countP (!·.isInjected))]

end Audit

end CodeAtlas

namespace CodeAtlas.Audit

/-! ### The document of an audit -/

/-- Where a finding is. -/
def placeEntries (file : Nat) (line : Int) : List (String × Value) :=
  [("file_index", Value.nat file), ("line", .int line)]

def findingList {α : Type} (findings : List α) (entries : α → List (String × Value)) : Value :=
  .list (findings.map fun x => .table (entries x))

def isGiven : Value → Bool
  | .null => false
  | _ => true

def document (a : Audit) : Value :=
  .table [
    ("names", Value.strings a.names.items),
    ("files", Value.strings a.files.items),
    ("default_values", Value.strings a.defaults.items),
    ("mutable_defaults", findingList a.mutableDefaults fun m => placeEntries m.file m.line ++ [
      ("function_name", .str m.function), ("parameter_name", .str m.parameter),
      ("default_value", .str m.value), ("default_type", .str m.kind.name)]),
    ("sql_injections", findingList a.queries fun q => [
      ("file_index", Value.nat q.file), ("line", q.line), ("query", q.text),
      ("is_safe", q.isSafe)]),
    ("hardcoded_secrets", findingList a.secrets fun x => [
      ("variable_name", .str x.name), ("file_index", Value.nat x.file), ("line", x.line),
      ("secret_type", .str x.kind.name)]),
    ("global_variables", findingList a.globals fun g => placeEntries g.file 0 ++ [
      ("name", g.name), ("type_hint", g.hint), ("has_type_hint", .bool (isGiven g.hint))]),
    ("logging_usage", findingList a.loggingUses fun u => placeEntries u.file u.line ++ [
      ("function_name", .str u.function), ("has_logging", .bool u.hasLogging)]),
    ("missing_type_hints", findingList a.missingHints fun m => placeEntries m.file m.line ++ [
      ("function_name", .str m.function), ("is_public", .bool (isPublic m.function))]),
    ("missing_docstrings", findingList a.missingDocstrings fun m => placeEntries m.file m.line ++ [
      ("name", .str m.name), ("type", .str m.kind.name), ("is_public", .bool (isPublic m.name))]),
    ("class_dependencies", findingList a.dependencies fun d => placeEntries d.file d.line ++ [
      ("class_name", .str d.className), ("dependencies", .list []),
      ("uses_di", .bool d.isInjected)])]

end CodeAtlas.Audit
