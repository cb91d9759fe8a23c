import CodeAtlas.Session

/-!
# Settings

Settings stand in the table `tool.py-indexer` of a project file. Every setting has a default, which
is used when the file, the table or the setting is missing, or when the value breaks the setting's
rule.
-/

namespace CodeAtlas

/-- The values of all settings, under their names. -/
structure Settings where
  values : List (String × Value)

namespace Settings

open CodeAtlas.Action

def defaults : List (String × Value) := [
  ("log_level", .str "DEBUG"),
  ("log_file", .str "main.log"),
  ("max_file_size", .int 1048576),
  ("max_ast_depth", .int 100),
  ("default_hash_length", .int 16),
  ("default_format", .str "json"),
  ("minify_output", .bool false),
  ("compress_names", .bool false),
  ("encoding_fallbacks", Value.strings ["utf-8", "cp1251", "latin-1"]),
  ("parse_timeout", .int 30)]

def standard : Settings := ⟨defaults⟩

/-- The rules that values may have to follow. -/
inductive Rule where
  | positive
  | oneOf (choices : List Value)

/-- Whether a value follows a rule. Truth values count as numbers. -/
def Rule.allows : Rule → Value → Bool
  | .positive, v => v.asInt?.any (0 < ·)
  | .oneOf choices, v => choices.any v.same

def rule? : String → Option Rule
  | "max_file_size" => some .positive
  | "max_ast_depth" => some .positive
  | "parse_timeout" => some .positive
  | "default_hash_length" => some (.oneOf (hashLengths.map Value.nat))
  | "default_format" => some (.oneOf (formatNames.map .str))
  | "log_level" => some (.oneOf (levelNames.map .str))
  | _ => none

/-- Whether a setting may have a value. -/
def allows (key : String) (v : Value) : Bool :=
  match rule? key with
  | some rule => rule.allows v
  | none => true

/-- The value of a setting that is asked for, or its default if that is not allowed. -/
def settle (raw : List (String × Value)) (key : String) (default : Value) : Value :=
  let v := (Value.lookup key raw).getD default
  if allows key v then v else default

def ofTable (raw : List (String × Value)) : Settings :=
  ⟨defaults.map fun (key, default) => (key, settle raw key default)⟩

/-- The settings for which a table has values that are not allowed, each with that value and its
default. -/
def refused (raw : List (String × Value)) : List (String × Value × Value) :=
  defaults.filterMap fun (key, default) =>
    let v := (Value.lookup key raw).getD default
    if allows key v then none else some (key, v, default)

/-- Complains about a value that is not allowed, unless it cannot be shown. -/
def complain (setting : String × Value × Value) : Action Unit :=
  let (key, v, default) := setting
  if v.isShown then
    warning s!"Invalid config value for '{key}': {v.display}. Using default: {default.display}"
  else throw (.toml .integerTooLong)

/-- The settings that a value asks for; it has to be a table. -/
def ofValue (raw : Value) : Action Settings := do
  match raw with
  | .table entries =>
    (refused entries).forM complain
    return ofTable entries
  | v => access (.error (.noAttribute v.kind "get"))

/-! ### Project files -/

def fileName : String := "pyproject.toml"

/-- The project file in the working directory or the one above it. -/
def findFile? : Action (Option Path) := do
  let here := (← tree).here
  let path := Path.mk "/" (here ++ [fileName])
  if ← isThere path then return some path
  let path := Path.mk "/" (here.dropLast ++ [fileName])
  if ← isThere path then return some path
  return none

/-- The settings in the text of a project file, unless it has none. -/
def ofFile? (path : Path) : Action (Option Settings) := do
  let source ← decode (← readBytes path)
  match Toml.read source with
  | .error f => throw (.toml f)
  | .ok entries =>
    match Value.lookup "tool" entries with
    | none => return none
    | some tool =>
      if ← access (tool.has "py-indexer") then
        return some (← ofValue (← access (tool.field "py-indexer")))
      return none

/-- Reads the settings of a project file, searched for if no path is given. -/
def load (path : Option String) : Action Settings := do
  let file ←
    match path.filter (!·.isEmpty) with
    | some p => pure (some (Path.ofString p))
    | none => findFile?
  let found ←
    match file with
    | some p => if ← isThere p then pure (some p) else pure none
    | none => pure none
  match found with
  | none =>
    warning "Configuration file not found, using defaults"
    return standard
  | some p =>
    match ← attempt (ofFile? p) with
    | .ok (some settings) =>
      info s!"Configuration loaded from {p.text}"
      return settings
    | .ok none =>
      warning s!"No [tool.py-indexer] section in {p.text}, using defaults"
      return standard
    | .error f =>
      report "Error loading configuration" f
      return standard

/-- Reads the settings anew and puts them in force. -/
def reload (path : Option String := none) : Action Settings := do
  let settings ← load path
  modify fun s => { s with settings := some settings.values }
  return settings

def current : Action Settings := do
  match (← get).settings with
  | some values => return ⟨values⟩
  | none => reload

/-- The value of a setting, or a value in its place. -/
def get (s : Settings) (key : String) (default : Value := .null) : Value :=
  (Value.lookup key s.values).getD ((Value.lookup key defaults).getD default)

/-- The value of a known setting. -/
def value (s : Settings) (key : String) : Action Value :=
  if (Value.lookup key defaults).isSome then pure (s.get key) else throw (.setting key)

end Settings

end CodeAtlas
