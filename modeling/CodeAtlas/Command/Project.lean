import CodeAtlas.Command.Basic
import CodeAtlas.Project

/-!
# The command for projects

It indexes a project, shows a document, or explains itself.
-/

namespace CodeAtlas.Command

open CodeAtlas.Action CommandLine

def projectSpec : Spec where
  program := "main.py"
  description := "PY-Indexer v3.1 - Python Project Indexer"
  operands := [
    { name := "command", choices := ["index", "view", "help"], help := "Command to execute" },
    { name := "args", isMany := true, help := "Command arguments" }]
  flags := [
    ⟨["--minified"], .switch, "Generate minified JSON versions (*-mini.json) [index command only]"⟩,
    ⟨["--html"], .switch, "Generate interactive HTML viewer (index.html)"⟩]

/-- The lines with which the command explains itself. -/
def manual : List String := [
  "",
  "PY-Indexer v3.1 - Python Project Indexer",
  "",
  "USAGE:",
  "    python main.py index <project_path> <output_path> [--minified] [--html]",
  "    python main.py view <index_path>",
  "    python main.py help",
  "",
  "COMMANDS:",
  "    index       Generate all 4 index files",
  "    view        View index file contents",
  "    help        Show this help message",
  "",
  "OPTIONS (for 'index' command):",
  "    --minified  Generate minified JSON versions (*-mini.json)",
  "                Creates both regular and minified files for each index.",
  "",
  "EXAMPLES:",
  "    # Index project (regular format)",
  "    python main.py index ./my_project ./output",
  "",
  "    # Index project with minified versions",
  "    python main.py index ./my_project ./output --minified",
  "",
  "    # View generated index",
  "    python main.py view ./output/tech-index.json",
  "",
  "OUTPUT FILES:",
  "    Regular format (always generated):",
  "        tech-index.json         - Code structure (classes, functions, types)",
  "        tech-location.json      - File coordinates (line numbers)",
  "        tech-docstrings.json    - Documentation strings",
  "        tech-comments.json      - Code comments",
  "",
  "    Minified format (with --minified flag):",
  "        tech-index-mini.json        - Minified code structure",
  "        tech-location-mini.json     - Minified coordinates",
  "        tech-docstrings-mini.json   - Minified documentation",
  "        tech-comments-mini.json     - Minified comments",
  "",
  "For more information, see README.md",
  ""]

def printManual : Action Unit := print (Text.join "\n" manual)

def indexProject (a : Arguments) : Action Nat := do
  match a.all "args" with
  | path :: output :: _ =>
    let p ← Project.prepare path output (a.isOn "--minified") (a.isOn "--html")
    let _ ← p.index
    return 0
  | _ =>
    error "Usage: python main.py index <project_path> <output_path> [--minified]"
    return 1

def viewDocument (a : Arguments) : Action Nat := do
  match a.all "args" with
  | path :: _ => return if ← Document.printJson (Path.ofString path) then 0 else 1
  | [] =>
    error "Usage: python main.py view <index_path>"
    return 1

def project : List String → Action Ending :=
  run projectSpec fun a => guarded (do
    match a.one? "command" with
    | some "index" => indexProject a
    | some "view" => viewDocument a
    | some "help" => do
      printManual
      return 0
    | _ => return 0) (report "Fatal error")

end CodeAtlas.Command
