import CodeAtlas.Digest
import CodeAtlas.Files.Search
import CodeAtlas.Number.Calendar

/-!
# Questions about files and directories

Reading source files whatever their encoding, making directories, and what can be told about files:
digest, time of change, size, and where they lie.
-/

namespace CodeAtlas.Workspace

open CodeAtlas.Action

/-- The largest source file that is read, unless a limit is given. -/
def defaultLimit : Int := 1048576

/-- Makes sure that there is a file at a path. -/
def requireFile (path : Path) : Action Unit := do
  if !(← isThere path) then
    error s!"File not found: {path.text}"
    throw (.missing .file path.text)
  if !(← isFile path) then
    error s!"Not a file: {path.text}"
    throw (.unfit .notFile path.text)

/-- Says which encodings did not fit before the one that did. -/
def noteEncodings (path : Path) (found : Text.Encoding) : List Text.Encoding → Action Unit
  | [] => pure ()
  | e :: es => do
    if e = found then debug s!"Successfully read {path.text} with {e.name} encoding"
    else
      debug s!"Failed to read {path.text} with {e.name}, trying next encoding"
      noteEncodings path found es

/-- The text of a source file in the first encoding that fits, unless the file is too large. -/
def readSource (path : Path) (limit : Int := defaultLimit) : Action (List Char) := do
  requireFile path
  let bytes ← readBytes path
  let size := bytes.length
  if limit < size then
    error s!"File too large: {path.text} ({size} bytes > {limit} bytes limit). Skipping to prevent memory issues."
    throw (.tooLarge path.text size limit)
  debug s!"File size OK: {path.text} ({size} bytes)"
  let (encoding, source) := Text.decodeAny bytes
  noteEncodings path encoding Text.Encoding.all
  return source

/-- Makes sure that there is a directory at a path. -/
def ensureDirectory (path : Path) : Action Unit := do
  if ← isThere path then
    if !(← isDir path) then
      error s!"Path exists but is not a directory: {path.text}"
      throw (.unfit .occupied path.text)
    debug s!"Directory already exists: {path.text}"
  else
    match ← attempt (makeDirs path) with
    | .ok () => info s!"Created directory: {path.text}"
    | .error (.file .nullCharacter p) => throw (.file .nullCharacter p)
    | .error f =>
      report s!"Cannot create directory {path.text}" f
      throw f

/-- The digest of a file by a named hash function, cut if a positive length is given. -/
def digest (path : Path) (method : String := "sha256") (length : Option Int := none) :
    Action String := do
  requireFile path
  match Digest.Kind.ofName? method with
  | none =>
    error s!"Unsupported hash algorithm: {method}"
    throw (.hashMethod method)
  | some kind =>
    onFailure (do
      let full := Digest.ofPieces kind (← readBytes path)
      let digest :=
        match length with
        | some n => if 0 < n then Digest.cut n.toNat full else full
        | none => full
      debug s!"Calculated {method} hash for {path.text}: {Digest.cut 16 digest}..."
      return digest) (report s!"Error calculating hash for {path.text}")

def modified (path : Path) (iso : Bool := true) : Action String := do
  requireFile path
  onFailure (do
    let (_, time) ← ofFiles ((← tree).read path)
    let moment := Moment.ofMicros time
    let text := if iso then moment.text "T" ++ "Z" else moment.text " "
    debug s!"File {path.text} modified at: {text}"
    return text) (report s!"Error getting modification time for {path.text}")

def size (path : Path) : Action Nat := do
  requireFile path
  onFailure (do
    let size ← fileSize path
    debug s!"File {path.text} size: {size} bytes"
    return size) (report s!"Error getting size for {path.text}")

/-- The source files in a directory, or at any depth below it, in order. -/
def findSources (path : Path) (deep : Bool := true) : Action (List Path) := do
  if !(← isThere path) then
    error s!"Directory not found: {path.text}"
    throw (.missing .directory path.text)
  if !(← isDir path) then
    error s!"Not a directory: {path.text}"
    throw (.unfit .notDirectory path.text)
  onFailure (do
    let files ← ofFiles ((← tree).sources path deep)
    info s!"Found {files.length} Python files in {path.text} (recursive={Value.boolText deep})"
    return files) (report s!"Error finding Python files in {path.text}")

/-- Why a written path is not safe. -/
inductive Hazard where
  | traversal
  | absolute
deriving DecidableEq, Repr

/-- Why a written path is not safe, if it is not: it must be relative and hold no two dots in a row,
not even inside a name. -/
def hazard? (path : String) : Option Hazard :=
  if Text.contains path ".." then some .traversal
  else if (Path.ofString path).isAbsolute then some .absolute
  else none

def isSafe (path : String) : Action Bool := do
  match hazard? path with
  | some .traversal =>
    warning s!"Path contains directory traversal: {path}"
    return false
  | some .absolute =>
    warning s!"Path is absolute: {path}"
    return false
  | none =>
    debug s!"Path is safe: {path}"
    return true

/-- Where a file lies seen from a directory, with forward slashes. -/
def relative (path base : String) : Action String := do
  let full ← resolve (Path.ofString path)
  let start ← resolve (Path.ofString base)
  match full.relativeTo? start with
  | some p =>
    let text := Text.replaceAll p.text "\\" "/"
    debug s!"Relative path: {text}"
    return text
  | none =>
    let f : Failure := .outside full.text start.text
    error s!"Cannot compute relative path: {path} relative to {base}: {f.message}"
    throw f

end CodeAtlas.Workspace
