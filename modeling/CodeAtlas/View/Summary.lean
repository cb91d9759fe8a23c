import CodeAtlas.Document

/-!
# A summary of an index

The summary of an index on file: what it says about itself, the first entries of its sections, and
how many there are. The file may hold any value; a summary ends where the value has the wrong shape.
-/

namespace CodeAtlas.Summary

open CodeAtlas.Action

/-- The number of entries of a section that are shown. -/
def shownEntries : Nat := 10

def wideRule : String := "".pushn '=' 80

def title (text : String) : Action Unit := do
  print text
  print ("".pushn '-' 40)

/-- The part of an index under a key, empty if it is missing. -/
def entriesOf (index : Value) (key : String) : Action Value := access (index.getOr key (.list []))

/-- What a number stands for in a list of names or files. -/
def resolveName (table number : Value) : Action Value := do
  let size ← access table.size
  if ← access (number.isBelow size) then access (table.part number)
  else return .str s!"idx:{number.display}"

def lastPart (path : Value) : Action String :=
  match path with
  | .str s => pure (Path.ofString s).name
  | v => access (.error (.notPath v.kind))

/-- Prints the entries of a section that have at least three parts, given its first three parts and
all of them; then how many more there are. -/
def showEntries (index : Value) (key heading plural : String)
    (showEntry : Nat → Value → Value → Value → List Value → Action Unit) : Action Unit := do
  let entries ← entriesOf index key
  if !entries.truth then return
  title heading
  let shown ← access (entries.first shownEntries)
  for (entry, i) in shown.zipIdx do
    match entry with
    | .list (a :: b :: c :: rest) => showEntry i a b c rest
    | _ => pure ()
  let size ← access entries.size
  if shownEntries < size then print s!"  ... and {size - shownEntries} more {plural}"
  print ""

def showMetadata (index : Value) : Action Unit := do
  let about ← access (index.getOr "meta" (.table []))
  title "METADATA"
  for (label, key) in [("Version", "version"), ("Project", "project"),
    ("Generated", "generated")] do
    let v ← access (about.getOr key (.str "unknown"))
    print s!"  {label}: {v.display}"
  print ""

def showModules (index : Value) : Action Unit :=
  showEntries index "modules" "MODULES" "modules" fun i name line _ _ => do
    let name ← resolveName (← entriesOf index "names") name
    print s!"  [{i}] {name.display} (line {line.display})"

def showClasses (index : Value) : Action Unit :=
  showEntries index "classes" "CLASSES" "classes" fun i name line file rest => do
    let names ← entriesOf index "names"
    let name ← resolveName names name
    let file ← resolveName (← entriesOf index "files") file
    let bases ←
      match rest with
      | .list bases :: _ => bases.mapM (resolveName names)
      | _ => pure []
    let bases ←
      if bases.isEmpty then pure ""
      else do
        let joined ← access (Value.joined ", " bases)
        pure s!"({joined})"
    print s!"  [{i}] {name.display}{bases}"
    let file ← lastPart file
    print s!"      File: {file} (line {line.display})"

def showFunctions (index : Value) : Action Unit :=
  showEntries index "functions" "FUNCTIONS" "functions" fun i name line file _ => do
    let name ← resolveName (← entriesOf index "names") name
    let file ← resolveName (← entriesOf index "files") file
    print s!"  [{i}] {name.display}()"
    let file ← lastPart file
    print s!"      File: {file} (line {line.display})"

/-- Counts a value among others. -/
def tally (v : Value) : List (Value × Nat) → List (Value × Nat)
  | [] => [(v, 1)]
  | (w, n) :: rest => if v.same w then (w, n + 1) :: rest else (w, n) :: tally v rest

/-- Lists and tables cannot be counted. -/
def requireKey (v : Value) : Action Unit :=
  match v with
  | .list _ | .table _ => access (.error (.noKey v.kind))
  | _ => pure ()

def showImports (index : Value) : Action Unit := do
  let imports ← entriesOf index "imports"
  if !imports.truth then return
  title "IMPORTS"
  let names ← entriesOf index "names"
  let counts ← (← access imports.members).foldlM (fun counts entry => do
    match entry with
    | .list (first :: _) =>
      let name ← resolveName names first
      requireKey name
      return tally name counts
    | _ => return counts) []
  let sorted := counts.mergeSort fun a b => b.2 ≤ a.2
  for (name, count) in sorted.take shownEntries do print s!"  {name.display} (used {count}x)"
  if shownEntries < sorted.length then
    print s!"  ... and {sorted.length - shownEntries} more imports"
  print ""

def sectionSize (index : Value) (key : String) : Action Nat := do
  access (← entriesOf index key).size

def showStatistics (index : Value) : Action Unit := do
  title "STATISTICS"
  let counted ← [("Names", "names"), ("Files", "files"), ("Modules", "modules"),
    ("Classes", "classes"),
    ("Functions", "functions"), ("Imports", "imports")].mapM fun (label, key) => do
      return (label, ← sectionSize index key)
  for (label, size) in counted do print s!"  {label}: {size}"
  let issues ← [("Mutable defaults", "defaultissues"), ("SQL queries", "sqlqueries"),
    ("Hardcoded secrets", "hardcodedsecrets")].mapM fun (label, key) => do
      return (label, ← sectionSize index key)
  let issues := issues.filter fun (_, size) => 0 < size
  if !issues.isEmpty then
    print ""
    title "CODE QUALITY ISSUES"
    for (label, size) in issues do print s!"  {label}: {size}"

/-- The sections that can be asked for alone. -/
def filters : List (String × (Value → Action Unit)) := [
  ("functions", showFunctions),
  ("classes", showClasses),
  ("modules", showModules),
  ("imports", showImports)]

def showSections (index : Value) : Option String → Action Unit
  | none => do
    showModules index
    showClasses index
    showFunctions index
    showImports index
  | some wanted =>
    match filters.find? (·.1 = wanted) with
    | some (_, showSection) => showSection index
    | none => do
      print s!"Unknown filter type: {wanted}"
      print ("Valid filters: " ++ Text.join ", " (filters.map (·.1)))

def showIndex (name : String) (index : Value) (wanted : Option String) (statistics : Bool) :
    Action Unit := do
  print s!"\n{wideRule}"
  print s!"Index Viewer - {name}"
  print s!"{wideRule}\n"
  showMetadata index
  showSections index wanted
  if statistics then showStatistics index
  print s!"\n{wideRule}\n"

def view (path : String) (wanted : Option String := none) (statistics : Bool := true) :
    Action Unit := do
  let file := Path.ofString path
  match ← attempt (do showIndex file.name (← Document.loadJson file) wanted statistics) with
  | .ok () => return
  | .error f =>
    report "Error viewing index" f
    print s!"ERROR: Cannot view index - {f.message}"

end CodeAtlas.Summary
