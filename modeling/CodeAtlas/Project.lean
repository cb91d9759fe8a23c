import CodeAtlas.Index.Atlas
import CodeAtlas.Outline.Read
import CodeAtlas.Settings
import CodeAtlas.View.Page
import CodeAtlas.Workspace

/-!
# Indexing a project

All source files of a project are read, and the documents of its atlas are written to a directory.
-/

namespace CodeAtlas

structure Project where
  path : Path
  output : Path
  /-- Whether compact versions of the documents are written too. -/
  minified : Bool := false
  /-- Whether a page to browse them is written. -/
  page : Bool := false

namespace Project

open CodeAtlas.Action Index

def name (p : Project) : String := p.path.name

/-- Gets a project ready to be indexed. -/
def prepare (path output : String) (minified page : Bool := false) : Action Project := do
  let _ ← Settings.current
  let p : Project :=
    { path := ← resolve (Path.ofString path), output := ← resolve (Path.ofString output), minified,
      page }
  if !(← isThere p.path) then throw (.missing .project p.path.text)
  info s!"Initialized PyIndexer for project: {p.name}"
  if minified then info "Minified mode enabled (will generate *-mini.json files)"
  if page then info "HTML viewer generation enabled (will create index.html)"
  return p

/-- The path of a file as it stands in the documents: seen from the project, with forward slashes.
-/
def inside (p : Project) (file : Path) : String :=
  Text.replaceAll ((file.relativeTo? p.path).getD file).text "\\" "/"

/-- Reads the outline of a file; a failure is reported. -/
def readFile (file : Path) : Outline.Reading (Option Outline.File) := do
  match ← Work.attempt (Outline.Reader.read file) with
  | .ok outline => return outline
  | .error f =>
    report s!"Error parsing {file.text}" f
    return none

/-- Reads the outlines of files; those that cannot be read are left out. -/
def readFiles : List Path → Outline.Reading (List Outline.File)
  | [] => return []
  | file :: files => do
    let outline ← readFile file
    let rest ← readFiles files
    return outline.toList ++ rest

/-- The atlas of outlines, each under the path of its file in the project. -/
def atlas (p : Project) (outlines : List Outline.File) : Atlas :=
  Atlas.ofFiles (outlines.map fun o => (p.inside (Path.ofString o.path), o))

def documents (header : Header) (a : Atlas) : Page.Documents where
  skeleton := a.skeleton.document header
  places := a.places.document header
  docstrings := Docstrings.document a.docstrings header
  comments := Comments.document a.comments header

/-- The documents with the names of their files. -/
def files (d : Page.Documents) : List (String × Value) := [
  ("tech-index", d.skeleton),
  ("tech-location", d.places),
  ("tech-docstrings", d.docstrings),
  ("tech-comments", d.comments)]

/-- Writes a document to the output directory. -/
def writeDocument (p : Project) (file : String) (data : Value) (minify : Bool) : Action Unit := do
  onFailure (do
    let path := p.output.child file
    writeText path (← jsonText (Document.jsonStyle minify) data)
    let size ← fileSize path
    let form := if minify then "minified" else "pretty-printed"
    info s!"Wrote: {file} ({form}, {Fixed.mebibytes size} MB)") (report s!"Error writing {file}")

def printCounts (title : String) (counts : Value) : Action Unit := do
  print s!"\n{title}:"
  match counts with
  | .table entries => for (key, v) in entries do print s!"  {key}: {v.display}"
  | _ => pure ()

def printStatistics (a : Atlas) : Action Unit := do
  let rule := "".pushn '=' 60
  print s!"\n{rule}"
  print "INDEXING STATISTICS"
  print rule
  printCounts "TECH-INDEX" a.skeleton.statistics
  printCounts "TECH-LOCATION" a.places.statistics
  printCounts "TECH-DOCSTRINGS" (Docstrings.statistics a.docstrings)
  printCounts "TECH-COMMENTS" (Comments.statistics a.comments)
  print s!"\n{rule}"

def write (p : Project) (a : Atlas) : Action Page.Documents := do
  info "Serializing indexes..."
  Workspace.ensureDirectory p.output
  let d := documents ⟨(← get).clock, p.name⟩ a
  info a.skeleton.summary
  info a.places.summary
  info (Docstrings.summary a.docstrings)
  info (Comments.summary a.comments)
  for (file, data) in files d do
    p.writeDocument (file ++ ".json") data false
    if p.minified then p.writeDocument (file ++ "-mini.json") data true
  printStatistics a
  return d

def writePage (p : Project) (d : Page.Documents) : Action Unit := do
  info "Generating HTML viewer..."
  let file ← onFailure (Page.generate p.output .builtin d) (report "Failed to generate HTML viewer")
  info s!"HTML viewer created: {file.text}"

/-- Gathers the atlas of a project, unless it has no source files. -/
def gather (p : Project) : Action (Option Atlas) := do
  info s!"Starting indexing: {p.path.text}"
  let sources ← Workspace.findSources p.path
  info s!"Found {sources.length} Python files"
  if sources.isEmpty then
    warning "No Python files found!"
    return none
  let (outlines, _) ← perform (readFiles sources) {}
  info s!"Parsed {outlines.length} files successfully"
  info "Building indexes..."
  let a := p.atlas outlines
  info "Index building complete"
  return some a

/-- Indexes a project; gives its documents, unless it has no source files. -/
def index (p : Project) : Action (Option Page.Documents) := do
  match ← p.gather with
  | none => return none
  | some a =>
    let d ← p.write a
    if p.page then p.writePage d
    info "Indexing complete!"
    return some d

end Project

end CodeAtlas
