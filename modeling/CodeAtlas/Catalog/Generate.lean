import CodeAtlas.Catalog.Document
import CodeAtlas.Document
import CodeAtlas.Files.Search
import CodeAtlas.Syntax.Grammar.Statement
import CodeAtlas.Text.Case

/-!
# Making a catalog

The source files of a project are read one by one and recorded in a catalog, which is then written
to a file.
-/

namespace CodeAtlas.Catalog

open CodeAtlas.Action Syntax

/-- What a catalog is made of and where it goes. -/
structure Plan where
  root : Path
  output : Path
  options : Options
  format : Document.Format
  about : About

/-- The formats of catalog files. -/
def format? : String → Option Document.Format
  | "json" => some (.json true false)
  | "json.gz" => some (.json true true)
  | "msgpack" => some .packed
  | _ => none

def languageVersion : String := "3.11.6"

/-- Gets a catalog ready to be made. -/
def prepare (root output : String) (options : Options) : Action Plan := do
  let root ← resolve (Path.ofString root)
  let output ← resolve (Path.ofString output)
  let name := Text.lower options.format
  match format? name with
  | none => throw (.format name)
  | some format => return ⟨root, output, options, format, (← get).clock, root.text, languageVersion⟩

/-- The names of directories that hold no sources of the project. -/
def skippedDirs : List String := [
  ".git", ".venv", "venv", "__pycache__", ".pytest_cache", "node_modules", ".tox", "build", "dist",
  ".eggs"]

/-- The source files of a project, in order. -/
def sources (root : Path) : Action (List Path) := do return (← tree).prunedSources skippedDirs root

/-- Reads the module in a file, in the first encoding that fits. What cannot be read is reported. -/
def readModule? (file : Path) : Action (Option Module) := do
  match ← attempt (readBytes file) with
  | .error f =>
    print s!"⚠ Ошибка парсинга {file.text}: {f.message}"
    return none
  | .ok bytes =>
    match parseModule? (Text.decodeAny bytes).2 with
    | some m => return some m
    | none =>
      print s!"⚠ Синтаксическая ошибка в {file.text}: {Failure.ungrammatical.message}"
      return none

/-- Records the module in a file and gives its number. -/
def addSource (p : Plan) (c : Catalog) (file : Path) (m : Module) : Action (Catalog × Nat) := do
  match file.relativeTo? p.root with
  | none => throw (.outside file.text p.root.text)
  | some path =>
    let hash := fileHash p.options.hashLength (← readBytes file)
    match moduleSketch p.options.docstrings m with
    | .error fault => throw (.source fault)
    | .ok sketch => return c.addModule (moduleName path) path.text hash sketch

/-- Reads and records files; `i` of `total` are behind. -/
def addSources (p : Plan) (total i : Nat) : Catalog → List Path → Action Catalog
  | c, [] => return c
  | c, file :: files => do
    print s!"  [{i + 1}/{total}] {file.name}"
    match ← readModule? file with
    | none => addSources p total (i + 1) c files
    | some m =>
      let (c, _) ← addSource p c file m
      addSources p total (i + 1) c files

/-- The names that every catalog begins with. -/
def standardNames : List String := [
  "EXPLICITIMPORTSONLY", "NOCIRCULARIMPORTS", "NOMETACLASSES", "plain", "google", "numpy", "rst"]

/-- Digests the whole of a catalog with the digests of its objects. -/
def finish (c : Catalog) (p : Plan) (algorithm : Nat) : Catalog :=
  { c with algorithm := some algorithm }.withDataHash p.about p.options

/-- Records all sources of a project in a catalog. -/
def generate (p : Plan) (c : Catalog) : Action Catalog := do
  print s!"🔍 Сканирование: {p.root.text}"
  let files ← sources p.root
  print s!"📁 Найдено файлов: {files.length}"
  let (c, _) := c.addNames standardNames
  let (c, algorithm) := c.addName "sha256"
  let c ← addSources p files.length 0 c files
  print "🔐 Генерация хешей объектов..."
  let c ← ofEncoding (c.addObjectHashes p.options.hashLength)
  if p.options.compress then
    print "📦 Сжатие массива names..."
    encode (namesText c.names.items)
  return c.finish p algorithm

def fileName (p : Plan) : String := s!"tech-index-py-{p.root.name}-v3{p.format.suffix}"

/-- Why the document of a catalog cannot be encoded, if it cannot: as one text, or name by name. -/
def documentFault? (p : Plan) (c : Catalog) : Option Text.EncodeFault :=
  match p.format with
  | .json minify _ =>
    Text.encodeFault? ((Json.write (Document.jsonStyle minify)
      (c.document p.about p.options)).toOption.getD "")
  | .packed => if p.options.compress then none else c.names.items.findSome? Text.encodeFault?

/-- Writes the document of a catalog to a file, which stays empty if the document cannot be encoded.
-/
def save (p : Plan) (c : Catalog) : Action Unit := do
  makeDirs p.output
  let file := p.output.child (fileName p)
  if let some fault := c.documentFault? p then
    writeBytes file (if p.format = .json true true then Gzip.compress [] else [])
    throw (.encoding fault)
  writeBytes file (← Document.bytes p.format (c.document p.about p.options))
  let size ← fileSize file
  print s!"\n✅ Индекс сохранен: {file.text}"
  print s!"📊 Размер: {Fixed.grouped size} байт ({Fixed.text 1 size 1024} КБ)"
  print "\n📈 Статистика:"
  for (label, _, n) in ["Модулей", "Классов", "Функций", "Атрибутов", "Импортов"].zip c.totals do
    print s!"   {label}: {n}"
  print s!"   Формат: {Text.lower p.options.format}"

end CodeAtlas.Catalog
