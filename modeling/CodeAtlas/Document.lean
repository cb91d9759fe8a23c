import CodeAtlas.Session

/-!
# Documents in files

A document is a value that is kept in a file, as JSON text, which may be compressed, or packed.
-/

namespace CodeAtlas

/-- Whether a failure comes from the file system or a damaged compressed file. -/
def Failure.ofStorage : Failure → Bool
  | .file .nullCharacter _ => false
  | .file _ _ => true
  | .gzip .ended => false
  | .gzip (.stream _) => false
  | .gzip _ => true
  | _ => false

namespace Document

open CodeAtlas.Action

inductive Format where
  | json (minify compress : Bool)
  | packed
deriving DecidableEq, Repr

def jsonStyle (minify : Bool) : Json.Style where
  layout := if minify then .compact else .indented
  ascii := false

namespace Format

def suffix : Format → String
  | .json _ compress => if compress then ".json.gz" else ".json"
  | .packed => ".msgpack"

def name : Format → String
  | .json minify compress =>
    if compress then "JSON (GZIP compressed)" else if minify then "JSON (minified)" else "JSON"
  | .packed => "MessagePack (binary)"

/-- The words in messages that tell how a document is kept. -/
def mark : Format → String
  | .json _ compress => if compress then " (GZIP)" else ""
  | .packed => " (MessagePack)"

end Format

/-- The ending of names of documents whose format is not known. -/
def plainSuffix : String := ".dat"

def bytes (format : Format) (data : Value) : Action (List UInt8) := do
  match format with
  | .json minify compress =>
    let text := Text.utf8Bytes (← jsonText (jsonStyle minify) data)
    return if compress then Gzip.compress text else text
  | .packed =>
    match Pack.pack data with
    | .ok bytes => return bytes
    | .error f => throw (.pack f)

/-- Says that a packed document is worked on. -/
def prepare : Format → Action Unit
  | .packed => debug "msgpack module loaded successfully"
  | _ => pure ()

def save (format : Format) (data : Value) (path : Path) : Action Unit := do
  onFailure (do
    writeBytes path (← bytes format data)
    info s!"Serialized{format.mark} to {path.text}"
    let size ← fileSize path
    debug s!"Output file size: {size} bytes") fun f =>
      if f.ofStorage then report s!"Cannot write to {path.text}" f
      else if format = .packed then report "MessagePack serialization error" f
      else report "Serialization error" f

/-- Makes sure that there is something at a path. -/
def requireThere (path : Path) : Action Unit := do
  if !(← isThere path) then
    error s!"File not found: {path.text}"
    throw (.missing .file path.text)

/-- Whether the file at a path is compressed: its name or its first bytes tell. -/
def isCompressed (path : Path) : Action Bool := do
  if path.suffix = ".gz" then return true
  match ← attempt (readBytes path) with
  | .ok bytes => return bytes.take 2 = Gzip.magic
  | .error _ => return false

/-- The text of a compressed or plain text file. -/
def textAt (path : Path) (compressed : Bool) : Action (List Char) := do
  let bytes ← readBytes path
  let bytes ← if compressed then decompress bytes else pure bytes
  return Text.unifyNewlines (← decode bytes)

def loadJson (path : Path) : Action Value := do
  requireThere path
  let act : Action Value := do
    let compressed ← isCompressed path
    let data ← parseJson (← textAt path compressed)
    info s!"Deserialized{(Format.json false compressed).mark} from {path.text}"
    return data
  match ← attempt act with
  | .ok data => return data
  | .error (.json e whole) =>
    if e.isLimit then
      report "Deserialization error" (.json e whole)
      throw (.json e whole)
    else
      report s!"Invalid JSON in {path.text}" (.json e whole)
      throw (.jsonFile path.text e whole)
  | .error f =>
    if f.ofStorage then report s!"Cannot read {path.text}" f else report "Deserialization error" f
    throw f

def loadPacked (path : Path) : Action Value := do
  requireThere path
  let act : Action Value := do
    match Pack.unpack (← readBytes path) with
    | .error f => throw (.pack f)
    | .ok data =>
      info s!"Deserialized (MessagePack) from {path.text}"
      return data
  match ← attempt act with
  | .ok data => return data
  | .error (.pack .extra) =>
    report s!"Invalid MessagePack data in {path.text}" (.pack .extra)
    throw (.packFile path.text .extra)
  | .error f =>
    if f.ofStorage then report s!"Cannot read {path.text}" f
    else report "MessagePack deserialization error" f
    throw f

/-- Prints a JSON document; says whether that could be done. -/
def printJson (path : Path) : Action Bool := do
  if !(← isThere path) then
    error s!"File not found: {path.text}"
    return false
  let act : Action Unit := do
    let data ← parseJson (← readText path)
    print (← jsonText (jsonStyle false) data)
  match ← attempt act with
  | .ok () => return true
  | .error f =>
    report s!"Error reading {path.text}" f
    return false

end Document

end CodeAtlas
