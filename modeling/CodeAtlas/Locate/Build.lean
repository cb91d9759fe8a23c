import CodeAtlas.Digest
import CodeAtlas.Document
import CodeAtlas.Files.Search
import CodeAtlas.Locate.Place
import CodeAtlas.Number.Calendar
import CodeAtlas.Syntax.Grammar.Statement
import CodeAtlas.Text.Case

/-!
# Locating the definitions of a catalog

The files of a catalog are read one by one and their definitions placed; the locations are then
written to a file.
-/

namespace CodeAtlas

namespace Locate

/-! ### The document of locations -/

/-- What a document says about its origin. -/
structure About where
  date : String
  hash : String
  root : String
  catalog : String

def numbers (ns : List Nat) : Value := .list (ns.map Value.nat)

def spanValue (s : Syntax.Span) : Value := numbers [s.first, s.last]

def FileRow.toValue (r : FileRow) : Value := numbers [r.path, r.lines, r.size, r.modified, r.hash]

def ModuleRow.toValue (r : ModuleRow) : Value :=
  .list ([Value.nat r.number, r.location, .int r.file, .int 1, Value.nat r.last]
    ++ r.docstring.toList.map spanValue)

/-- Decorators and documentation are left out from the end if there are none. -/
def DefinitionRow.toValue (r : DefinitionRow) : Value :=
  let marks := Value.list (r.decorators.map fun (line, mark) => numbers [line, mark])
  let tail :=
    match r.docstring with
    | some d => [marks, spanValue d]
    | none => if r.decorators.isEmpty then [] else [marks]
  .list ([Value.nat r.number, r.location, .int r.file, Value.nat r.first, Value.nat r.last,
    Value.nat r.line, Value.nat r.body, Value.nat r.indentation] ++ tail)

def ImportRow.toValue (r : ImportRow) : Value :=
  .list [Value.nat r.number, .int r.file, Value.nat r.line, Value.nat r.isFrom.toNat]

def CommentRow.toValue (r : CommentRow) : Value :=
  .list [.int r.file, Value.nat r.line, Value.nat r.mark.code, Value.nat r.text]

def Totals.entries (t : Totals) : List (String × Nat) := [
  ("modules", t.modules),
  ("classes", t.classes),
  ("functions", t.functions),
  ("imports", t.imports),
  ("comments", t.comments)]

end Locate

namespace Locations

open Locate

/-- What the document says about itself. -/
def header (l : Locations) (about : About) : Value :=
  .table [
    ("version", .str "2.0"),
    ("schemaversion", .str "2.0"),
    ("indexeddate", .str about.date),
    ("techindexhash", .str about.hash),
    ("projectroot", .str about.root),
    ("techindexpath", .str about.catalog),
    ("totalobjects", .table (l.counted.entries.map fun (k, n) => (k, Value.nat n)))]

def sections (l : Locations) : List (String × Value) := [
  ("paths", Value.strings l.paths.items),
  ("modifieds", Value.strings l.modifieds.items),
  ("hashes", Value.strings l.hashes.items),
  ("decorators", Value.strings l.decorators.items),
  ("commenttexts", Value.strings l.commentTexts.items),
  ("files", .list (l.files.map (·.toValue))),
  ("modules", .list (l.modules.map (·.toValue))),
  ("classes", .list (l.classes.map (·.toValue))),
  ("functions", .list (l.functions.map (·.toValue))),
  ("imports", .list (l.imports.map (·.toValue))),
  ("comments", .list (l.comments.map (·.toValue)))]

def document (l : Locations) (about : About) : Value :=
  .table (("meta", l.header about) :: l.sections)

end Locations

end CodeAtlas

namespace CodeAtlas.Locate

/-! ### Locating the definitions of a catalog -/

open CodeAtlas.Action Syntax

abbrev Locating := Work Locations

/-- A catalog whose definitions are to be located. -/
structure Plan where
  root : Path
  catalogPath : Path
  format : String
  minify : Bool
  catalog : Value
  about : About

/-- Whether the file of a catalog is compressed: its name tells. -/
def isCompressed (path : Path) : Bool := path.suffix = ".gz"

def loadCatalog (path : Path) : Action Value := do
  if !(← isThere path) then throw (.missing .catalog path.text)
  print s!"📖 Загрузка TECH-INDEX: {path.name}"
  parseJson (← Document.textAt path (isCompressed path))

def hashLength : Nat := 16

def catalogHash (path : Path) : Action String := do
  let bytes ← readBytes path
  let bytes ← if isCompressed path then decompress bytes else pure bytes
  return Digest.cut hashLength (Digest.ofPieces .sha256 bytes)

def fileHash (path : Path) : Action String := do
  return Digest.cut hashLength (Digest.ofPieces .sha256 (← readBytes path))

/-- Gets the locations of a catalog ready to be built. -/
def prepare (root catalog : String) (format : String := "json") (minify : Bool := false) :
    Action Plan := do
  let root ← resolve (Path.ofString root)
  let path ← resolve (Path.ofString catalog)
  let data ← loadCatalog path
  let hash ← catalogHash path
  return ⟨root, path, Text.lower format, minify, data, ⟨(← get).clock, hash, root.text, path.text⟩⟩

/-- The path of a file of the catalog, as it is written there and as it is in the project. -/
def Plan.filePath (p : Plan) (file : Int) : Action (String × Path) := do
  let name ← access (do (← p.catalog.field "files").part (.int file))
  match name with
  | .str s => return (s, p.root.child s)
  | v => access (.error (.notBelow v.kind))

/-- Records a file and gives its number, or -1 if it is not there. -/
def Plan.addFile (p : Plan) (file : Int) : Locating Int := do
  let (name, path) ← p.filePath file
  if !(← isThere path) then
    print s!"⚠ Файл не найден: {name}"
    return -1
  let (bytes, time) ← (do ofFiles ((← tree).read path) : Action (List UInt8 × Int))
  let source ← decode bytes
  let lines := (Text.fileLines (Text.unifyNewlines source)).length
  let hash ← fileHash path
  let (l, i) := (← getThe Locations).addFile name lines bytes.length
    (Moment.ofMicros time).fullText hash
  set l
  return i

/-- Reads the module in a file, in the first encoding that fits, and its lines. -/
def readModule? (path : Path) : Action (Option (Module × List (List Char))) := do
  match ← attempt (readBytes path) with
  | .error _ => return none
  | .ok bytes =>
    let source := (Text.decodeAny bytes).2
    return (parseModule? source).map (·, Text.splitLines source)

/-- Places the definitions of a file, if it is there and can be read. -/
def Plan.placeFile (p : Plan) (file : Int) : Locating Unit := do
  let (_, path) ← p.filePath file
  if !(← isThere path) then return
  match ← readModule? path with
  | none => return
  | some (m, lines) => Context.placeAll ⟨p.catalog, file, lines⟩ m

/-- Records and places files; `i` of `total` are behind. -/
def Plan.buildFrom (p : Plan) (files : Value) (total i : Nat) : Nat → Locating Unit
  | 0 => pure ()
  | left + 1 => do
    let name ← access (files.item i)
    print s!"  [{i + 1}/{total}] {name.display}"
    let _ ← p.addFile i
    p.placeFile i
    p.buildFrom files total (i + 1) left

/-- Records and places all files of the catalog. -/
def Plan.build (p : Plan) : Locating Unit := do
  print s!"🔍 Построение TECH-LOCATION v2.0 для: {p.root.text}"
  let files ← access (p.catalog.field "files")
  let total ← access files.size
  p.buildFrom files total 0 total
  modifyThe Locations fun l => { l with counted := l.count }
  let totals := (← getThe Locations).counted
  print "\n✅ Обработано:"
  for (label, _, n) in ["Модулей", "Классов", "Функций", "Импортов",
    "Комментариев"].zip totals.entries do
    print s!"   {label}: {n}"

def Plan.fileName (p : Plan) : String :=
  let suffix := if p.format = "json.gz" then ".json.gz" else ".json"
  s!"tech-location-{p.root.name}-v2{suffix}"

/-- Writes locations to a file in a directory. -/
def Plan.save (p : Plan) (l : Locations) (output : Path) : Action Unit := do
  makeDirs output
  let file := output.child p.fileName
  let format : Document.Format :=
    if p.format = "json" then .json p.minify false else .json true true
  writeBytes file (← Document.bytes format (l.document p.about))
  let size ← fileSize file
  print s!"\n✅ TECH-LOCATION v2.0 сохранен: {file.text}"
  print s!"📊 Размер: {Fixed.grouped size} байт ({Fixed.text 1 size 1024} КБ)"

/-- The text around the name of a project in the name of a catalog. -/
def catalogStem (project : String) : String := s!"tech-index-py-{project}-v3.json"

def isCatalogName (name : String) : Bool :=
  let front := "tech-index-py-".toList
  name.startsWith "tech-index-py-" && Text.occursIn "-v3.json".toList
    (name.toList.drop front.length)

/-- The catalog of a project in a directory: the one with its name, or else any. -/
def findCatalog? (dir : Path) (project : String) : Action (Option Path) := do
  for suffix in ["", ".gz"] do
    let path := dir.child (catalogStem project ++ suffix)
    if ← isThere path then return some path
  match (← tree).entriesAt dir with
  | .error _ => return none
  | .ok entries =>
    let names : List String := (entries.map Prod.fst).filter isCatalogName
    return (names.mergeSort (· ≤ ·)).head?.map dir.child

end CodeAtlas.Locate
