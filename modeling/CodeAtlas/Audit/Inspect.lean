import CodeAtlas.Audit.Basic
import CodeAtlas.Syntax.Grammar.Statement
import CodeAtlas.Workspace

/-!
# Inspecting files

An audit also looks at the files themselves, with detectors that are plugged in. Whatever fails here
is logged, and the audit goes on.
-/

namespace CodeAtlas.Audit

open CodeAtlas.Action Outline

/-- What a detector reports of a text, or how it fails. -/
abbrev Detector := List Char → Except Failure (List (List Value))

/-- The detectors that are plugged in. -/
structure Detectors where
  queries : Option Detector := none
  secrets : Option Detector := none
  globals : Option Detector := none

abbrev Inspecting := Work Audit

/-- The reports of a detector, which has to be there. -/
def reportsOf (name : String) (detector : Option Detector) (source : List Char) :
    Inspecting (List (List Value)) :=
  match detector with
  | some reports => liftExcept (reports source)
  | none => throw (.access (.noAttribute "ASTParser" name))

def threeParts (report : List Value) : Inspecting (Value × Value × Value) :=
  match report with
  | [a, b, c] => pure (a, b, c)
  | _ => if report.length < 3 then throw (.tooFewParts 3 report.length) else throw (.tooManyParts 3)

def queryLength : Nat := 100

/-- The beginning of a query. -/
def shortened (v : Value) : Inspecting Value :=
  match v with
  | .str s => pure (.str (String.ofList (s.toList.take queryLength)))
  | v => do return .list (← access (v.first queryLength))

def addQueries (file : Nat) : List (List Value) → Inspecting Unit
  | [] => pure ()
  | r :: rs => do
    let (query, line, isSafe) ← threeParts r
    let text ← shortened query
    modifyThe Audit fun a => { a with queries := a.queries ++ [⟨file, line, text, isSafe⟩] }
    addQueries file rs

def addSecrets (file : Nat) : List (List Value) → Inspecting Unit
  | [] => pure ()
  | r :: rs => do
    let (name, _, line) ← threeParts r
    match name with
    | .str s => modifyThe Audit fun a =>
        { a with secrets := a.secrets ++ [⟨s, file, line, secretKind s⟩] }
    | v => throw (.access (.noAttribute v.kind "upper"))
    addSecrets file rs

def addGlobals (file : Nat) : List (List Value) → Inspecting Unit
  | [] => pure ()
  | r :: rs => do
    let (name, hint, _) ← threeParts r
    modifyThe Audit fun a => { a with globals := a.globals ++ [⟨name, file, hint⟩] }
    addGlobals file rs

/-- The functions of a file and then the methods of its classes, under their full names. -/
def loggingCandidates (f : File) : List (String × Function) :=
  f.functions.map (fun g => (g.name, g))
    ++ f.classes.flatMap fun c => c.methods.map fun m => (c.name ++ "." ++ m.name, m)

def noteLogging (a : Audit) (file : Nat) (f : File) (source : List Char) : Audit :=
  { a with loggingUses := a.loggingUses ++ (loggingCandidates f).map fun (name, g) =>
    ⟨name, file, g.firstLine, hasLogging g source⟩ }

/-- Looks at the text of a file. -/
def inspectSource (detectors : Detectors) (f : File) (file : Nat) (source : List Char) :
    Inspecting Unit := do
  if (Syntax.parseModule? source).isNone then throw .ungrammatical
  addQueries file (← reportsOf "detect_sql_in_strings" detectors.queries source)
  addSecrets file (← reportsOf "detect_hardcoded_secrets" detectors.secrets source)
  addGlobals file (← reportsOf "extract_global_variables" detectors.globals source)
  modifyThe Audit fun a => a.noteLogging file f source

/-- Reads a file and looks at its text. -/
def inspectFile (detectors : Detectors) (f : File) (file : Nat) : Inspecting Unit := do
  inspectSource detectors f file (← Workspace.readSource (Path.ofString f.path))

/-- Inspects a file; failures are logged. -/
def inspect (detectors : Detectors) (f : File) (file : Nat) : Inspecting Unit := do
  match ← Work.attempt (inspectFile detectors f file) with
  | .ok () => return
  | .error e => report s!"Error analyzing file {f.path}" e

/-- Audits files one after the other; outlines that are missing are passed over. -/
def auditFiles (detectors : Detectors) : List (Option File) → Inspecting Unit
  | [] => pure ()
  | none :: fs => auditFiles detectors fs
  | some f :: fs => do
    let file ← (auditOutline f : Auditing Nat)
    inspect detectors f file
    auditFiles detectors fs

def run (detectors : Detectors) (files : List (Option File)) : Inspecting Unit := do
  info s!"Indexing {files.length} parsed files"
  auditFiles detectors files
  let a ← getThe Audit
  info s!"Indexing complete: {a.names.size} names, {a.files.size} files, {a.defaults.size} default values"

end CodeAtlas.Audit
