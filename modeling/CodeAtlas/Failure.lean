import CodeAtlas.Data.Access
import CodeAtlas.Data.Gzip
import CodeAtlas.Data.Json.Reader
import CodeAtlas.Data.Json.Writer
import CodeAtlas.Data.Pack
import CodeAtlas.Data.Toml.Reader
import CodeAtlas.Files.Change
import CodeAtlas.Syntax.Source

/-!
# Failures

All the causes for which a command can fail, and what is said about each.
-/

namespace CodeAtlas

/-- Things that are looked for and may be missing. -/
inductive Sought where
  | file
  | directory
  | project
  | template
  | catalog
deriving DecidableEq, Repr

/-- Things that may be found at a path where something else is wanted. -/
inductive Unfit where
  | notFile
  | notDirectory
  | occupied
deriving DecidableEq, Repr

inductive Failure where
  | file (fault : Files.Fault) (path : String)
  /-- A link leads back to itself. -/
  | linkLoop (path : String)
  | missing (what : Sought) (path : String)
  | unfit (what : Unfit) (path : String)
  | tooLarge (path : String) (size : Nat) (limit : Int)
  | outside (path base : String)
  | hashMethod (name : String)
  | hashLength (shown : String)
  | logLevel (name : String)
  | pattern (text : String)
  | format (name : String)
  | setting (name : String)
  /-- A file that should hold JSON does not. -/
  | jsonFile (path : String) (error : Json.ReadError) (whole : List Char)
  | json (error : Json.ReadError) (whole : List Char)
  | jsonValue (error : Json.WriteError)
  | packFile (path : String) (fault : Pack.Fault)
  | pack (fault : Pack.Fault)
  | gzip (fault : Gzip.Fault)
  | decoding (fault : Text.Utf8Fault)
  | encoding (fault : Text.EncodeFault)
  /-- An expression that has no text. -/
  | source (fault : Syntax.SourceFault)
  | toml (fault : Toml.Fault)
  | access (fault : AccessFault)
  | ungrammatical
  /-- A result with too few or too many parts. -/
  | tooFewParts (wanted got : Nat)
  | tooManyParts (wanted : Nat)
  /-- The documents that a command was made for cannot be made by it. -/
  | indexArguments
  | placeArguments
  /-- A command ends with an exit code. -/
  | exit (code : Nat)

def Sought.text : Sought → String
  | .file => "File not found"
  | .directory => "Directory not found"
  | .project => "Project path not found"
  | .template => "Template not found"
  | .catalog => "TECH-INDEX не найден"

def Unfit.text : Unfit → String
  | .notFile => "Not a file"
  | .notDirectory => "Not a directory"
  | .occupied => "Path exists but is not a directory"

/-- The lengths that a hash may be cut to. -/
def hashLengths : List Nat := [8, 16, 32, 64]

def formatNames : List String := ["json", "json.gz", "msgpack"]

def hashNames : List String := ["sha256", "md5", "sha1"]

def levelNames : List String := ["DEBUG", "INFO", "WARNING", "ERROR", "CRITICAL"]

/-- A list of texts or numbers as it is shown in messages. -/
def shownList (items : List Value) : String := (Value.list items).display

def Failure.message : Failure → String
  | .file fault path => fault.message path
  | .linkLoop path => s!"Symlink loop from {Text.quoted path}"
  | .missing what path => s!"{what.text}: {path}"
  | .unfit what path => s!"{what.text}: {path}"
  | .tooLarge path size limit =>
    s!"File too large: {path} ({size} bytes > {limit} bytes limit). Increase max_file_size in pyproject.toml if needed."
  | .outside path base =>
    s!"{Text.quoted path} is not in the subpath of {Text.quoted base} OR one path is relative and the other is absolute."
  | .hashMethod name =>
    s!"Unsupported algorithm: {name}. Supported: {shownList (hashNames.map .str)}"
  | .hashLength shown =>
    s!"Invalid hash length: {shown}. Must be one of: {shownList (hashLengths.map Value.nat)}"
  | .logLevel name =>
    s!"Invalid log level: {name}. Valid levels: " ++ Text.join ", " levelNames
  | .pattern text => s!"Invalid format '{text}' for '%' style"
  | .format name => s!"Неверный формат: {name}. Допустимые: {shownList (formatNames.map .str)}"
  | .setting name => s!"Config has no attribute '{name}'"
  | .jsonFile path error whole => s!"Invalid JSON in {path}: {error.message whole}"
  | .json error whole => error.message whole
  | .jsonValue error => error.message
  | .packFile path fault => s!"Invalid MessagePack data in {path}: {fault.message}"
  | .pack fault => fault.message
  | .gzip fault => fault.message
  | .decoding fault => fault.message
  | .encoding fault => fault.message
  | .source fault => fault.message
  | .toml fault => fault.message
  | .access fault => fault.message
  | .ungrammatical => "invalid syntax"
  | .tooFewParts wanted got => s!"not enough values to unpack (expected {wanted}, got {got})"
  | .tooManyParts wanted => s!"too many values to unpack (expected {wanted})"
  | .indexArguments => "TechIndexBuilder.__init__() got an unexpected keyword argument 'indexer'"
  | .placeArguments => "LocationBuilder.__init__() got multiple values for argument 'project_name'"
  | .exit code => toString code

end CodeAtlas
