import CodeAtlas.Files.Search
import CodeAtlas.Session
import CodeAtlas.Text.Case

/-!
# Checking what was asked for

Every check says whether an argument can be used, and writes to the log why not.
-/

namespace CodeAtlas.Check

open CodeAtlas.Action

def reject (reason : String) : Action Bool := do
  error reason
  return false

def accept (remark : String) : Action Bool := do
  info remark
  return true

/-- The name of the file with which writing is tried. -/
def probeName : String := ".write_test"

/-- Whether files can be made in a directory: one is made and removed again. -/
def isWritable (dir : Path) : Action Bool := do
  let probe := dir.child probeName
  let now := (← get).now
  match ← attempt (do change (·.touch probe now); change (·.remove probe)) with
  | .ok () => return true
  | .error (.file .nullCharacter p) => throw (.file .nullCharacter p)
  | .error _ => return false

/-- A project is a directory with source files. -/
def projectPath (path : String) : Action Bool := do
  if path.isEmpty then return ← reject "Project path is empty"
  let dir := Path.ofString path
  if !(← isThere dir) then return ← reject s!"Project path does not exist: {path}"
  if !(← isDir dir) then return ← reject s!"Project path is not a directory: {path}"
  let files ← ofFiles ((← tree).sources dir true)
  if files.isEmpty then
    warning s!"No Python files found in project directory: {path}"
    return false
  accept s!"Project path validated: {path} ({files.length} Python files)"

/-- The directory above a path has to be there and writable. -/
def parentPath (path : Path) : Action Bool := do
  let parent := path.parent
  if !(← isThere parent) then return ← reject s!"Parent directory does not exist: {parent.text}"
  if !(← isWritable parent) then return ← reject s!"Parent directory is not writable: {parent.text}"
  return true

/-- Output goes to a writable directory, which may have to be made. -/
def outputPath (path : String) (create : Bool := true) : Action Bool := do
  if path.isEmpty then return ← reject "Output path is empty"
  let dir := Path.ofString path
  if ← isThere dir then
    if !(← isDir dir) then return ← reject s!"Output path exists but is not a directory: {path}"
    if !(← isWritable dir) then return ← reject s!"Output directory is not writable: {path}"
    return ← accept s!"Output path validated (exists): {path}"
  if !(← parentPath dir) then return false
  if create then
    match ← attempt (makeDirs dir) with
    | .ok () => info s!"Created output directory: {path}"
    | .error (.file .nullCharacter p) => throw (.file .nullCharacter p)
    | .error f =>
      report s!"Cannot create output directory {path}" f
      return false
  accept s!"Output path validated: {path}"

/-- Formats are known by their names, in any letter case. -/
def format (name : String) : Action Bool := do
  if name.isEmpty then return ← reject "Format string is empty"
  let lower := Text.lower name
  if !formatNames.contains lower then
    return ← reject (s!"Invalid format: {name}. Valid formats: " ++ Text.join ", " formatNames)
  if lower = "msgpack" then debug "msgpack module is available"
  accept s!"Format validated: {name}"

/-- Digests are cut to one of four lengths. -/
def hashLength (length : Value) : Action Bool := do
  if hashLengths.any fun n => length.same (.nat n) then
    return ← accept s!"Hash length validated: {length.display}"
  let lengths := Text.join ", " (hashLengths.map toString)
  reject s!"Invalid hash length: {length.display}. Valid lengths: {lengths}"

/-- A file has to be there, or it must be possible to make it. -/
def filePath (path : String) (mustExist : Bool := true) : Action Bool := do
  if path.isEmpty then return ← reject "File path is empty"
  let file := Path.ofString path
  if mustExist then
    if !(← isThere file) then return ← reject s!"File does not exist: {path}"
    if !(← isFile file) then return ← reject s!"Path is not a file: {path}"
  else if !(← parentPath file) then return false
  accept s!"File path validated: {path}"

def catalogSuffixes : List String := [".json", ".msgpack", ".gz"]

/-- A catalog is a file with one of three endings. -/
def catalogPath (path : String) : Action Bool := do
  if !(← filePath path) then return false
  let suffix := (Path.ofString path).suffix
  if !catalogSuffixes.contains suffix then
    let suffixes := Text.join ", " catalogSuffixes
    return ← reject s!"Invalid TECH-INDEX file extension: {suffix}. Valid extensions: {suffixes}"
  accept s!"TECH-INDEX path validated: {path}"

end CodeAtlas.Check
