import CodeAtlas.Audit.Inspect
import CodeAtlas.Check
import CodeAtlas.Command.Basic
import CodeAtlas.Document
import CodeAtlas.Outline.Read

/-!
# The command for audits

It audits a project and prints what was found. The document that it announces then is never made:
the audit is not something that a document can be made of, and the command fails.
-/

namespace CodeAtlas.Command

/-! ### The command for audits -/

open CodeAtlas.Action CommandLine

def auditSpec : Spec where
  program := "cli_index.py"
  description := "Generate TECH-INDEX from Python project"
  operands := [
    { name := "project_path", help := "Path to Python project directory" },
    { name := "output_path", help := "Path to output directory" }]
  flags := [
    helpFlag,
    formatFlag formatNames "Output format (default: json)",
    ⟨["--minify"], .switch, "Minify JSON output (no whitespace)"⟩,
    ⟨["--compress-names"], .switch, "Compress names array with GZIP+Base64"⟩,
    lengthFlag "Hash length in characters (default: 16)"]
  epilog := Text.join "\n" [
  "Examples:",
  "  # Generate JSON index",
  "  python main.py index ./my_project ./output",
  "",
  "  # Generate compressed JSON",
  "  python main.py index ./my_project ./output --format=json.gz --minify",
  "",
  "  # Generate MessagePack index",
  "  python main.py index ./my_project ./output --format=msgpack",
  "",
  "  # Compress names array",
  "  python main.py index ./my_project ./output --compress-names",
  "",
  "  # Custom hash length",
  "  python main.py index ./my_project ./output --hash-len=32",
  "            "]

/-- The format with a name; all names but two stand for plain JSON. -/
def formatNamed (name : String) (minify : Bool) : Document.Format :=
  match name with
  | "json.gz" => .json minify true
  | "msgpack" => .packed
  | _ => .json minify false

/-- The file in a directory that a document goes to. -/
def outputFile (dir : Path) (stem : String) (format : Document.Format) : Path :=
  dir.child (stem ++ format.suffix)

/-- Reads the outlines of files and shows the progress; `i` of `total` are behind. -/
def readOutlines (total i : Nat) : List Path → Outline.Reading (List Outline.File)
  | [] => return []
  | file :: files => do
    put s!"  [{i + 1}/{total}] {file.name}\r"
    let outline ← Outline.Reader.read file
    let rest ← readOutlines total (i + 1) files
    return outline.toList ++ rest

/-- The counts that are printed, with their labels. -/
def auditLabels : List (String × String) := [
  ("Names", "total_names"),
  ("Files", "total_files"),
  ("Defaults", "total_defaults"),
  ("Mutable defaults found", "mutable_defaults_count"),
  ("SQL queries found", "sql_injections_count"),
  ("Hardcoded secrets found", "hardcoded_secrets_count")]

def auditProject (path : String) : Action Nat := do
  print s!"\nScanning project: {path}"
  let files ← Workspace.findSources (Path.ofString path)
  print s!"Found {files.length} Python files"
  if files.isEmpty then return ← refuse "ERROR: No Python files found"
  print "\nParsing files..."
  let (outlines, _) ← perform (readOutlines files.length 0 files) {}
  print s!"\nSuccessfully parsed {outlines.length} files"
  print "\nIndexing..."
  let ((), a) ← perform (Audit.run {} (outlines.map some)) {}
  print "\nIndexing complete:"
  for (label, key) in auditLabels do
    let count := (a.statistics.lookup key).getD 0
    print s!"  - {label}: {count}"
  print "\nBuilding TECH-INDEX..."
  throw .indexArguments

/-- Reports a failure on the log and in print. -/
def announce (text : String) (f : Failure) : Action Unit := do
  print s!"\nERROR: {f.message}"
  report text f

def audit : List String → Action Ending :=
  run auditSpec fun a => do
    info "Starting TECH-INDEX generation"
    guarded (do
      let path := (a.one? "project_path").getD ""
      let format := a.textOr "--format" "json"
      let length := a.numberOr "--hash-len" 16
      if !(← Check.projectPath path) then
        return ← refuse ("ERROR: Invalid project path: " ++ shown a "project_path")
      if !(← Check.outputPath ((a.one? "output_path").getD "")) then
        return ← refuse ("ERROR: Invalid output path: " ++ shown a "output_path")
      if !(← Check.format format) then return ← refuse s!"ERROR: Invalid format: {format}"
      if !(← Check.hashLength (.int length)) then
        return ← refuse s!"ERROR: Invalid hash length: {length}"
      auditProject path) (announce "TECH-INDEX generation failed")


/-! ### The command for places

It loads an index and prints what the index says about itself. The document that it announces then
is never made: the index as a whole is taken for the name of a project, and the command fails.
-/

open CodeAtlas.Action CommandLine

def placesSpec : Spec where
  program := "cli_location.py"
  description := "Generate TECH-LOCATION from TECH-INDEX"
  operands := [
    { name := "output_path", help := "Path to output directory" },
    { name := "tech_index_path", help := "Path to TECH-INDEX file (JSON or JSON.gz)" }]
  flags := [helpFlag]
  epilog := Text.join "\n" [
  "Examples:",
  "  # Generate TECH-LOCATION from TECH-INDEX",
  "  python main.py location ./output ./output/tech-index.json",
  "",
  "  # From GZIP compressed TECH-INDEX",
  "  python main.py location ./output ./output/tech-index.json.gz",
  "            "]

/-- The version and the project that an index names. -/
def aboutOf (index : Value) : Except AccessFault (Value × Value) := do
  let about ← index.getOr "meta" (.table [])
  let version ← about.getOr "version" (.str "unknown")
  let project ← about.getOr "project" (.str "unknown")
  return (version, project)

def showIndex (path : String) : Action Nat := do
  print s!"\nLoading TECH-INDEX: {path}"
  let index ← Document.loadJson (Path.ofString path)
  if !(← access (index.has "meta")) then
    return ← refuse "ERROR: Invalid TECH-INDEX - missing metadata"
  let (version, project) ← access (aboutOf index)
  print s!"  Version: {version.display}"
  print s!"  Project: {project.display}"
  print "\nBuilding TECH-LOCATION..."
  throw .placeArguments

def places : List String → Action Ending :=
  run placesSpec fun a => do
    info "Starting TECH-LOCATION generation"
    guarded (do
      let path := (a.one? "tech_index_path").getD ""
      if !(← Check.catalogPath path) then
        return ← refuse ("ERROR: Invalid TECH-INDEX path: " ++ shown a "tech_index_path")
      if !(← Check.outputPath ((a.one? "output_path").getD "")) then
        return ← refuse ("ERROR: Invalid output path: " ++ shown a "output_path")
      showIndex path) (announce "TECH-LOCATION generation failed")

end CodeAtlas.Command
