import CodeAtlas.Catalog.Digest

/-!
# The document of a catalog

Rows are written as lists of numbers, with -1 for what is missing. The document carries a digest of
itself, taken before the digest is put in. The table of names may be compressed.
-/

namespace CodeAtlas.Catalog

/-- What a document says about its origin. -/
structure About where
  date : String
  root : String
  language : String

/-- The options that a document tells. -/
structure Options where
  hashLength : Int := 16
  /-- Whether the table of names is compressed. -/
  compress : Bool := false
  /-- The format of the file, as it was asked for. -/
  format : String := "json"
  docstrings : Bool := true
  /-- How compressed data are made of bytes. -/
  compressor : List UInt8 → List UInt8 := Zlib.compress

/-! ### Names -/

/-- The form of a compressed table of names. -/
def nameStyle : Json.Style where
  layout := .spaced
  ascii := false

/-- The text of a table of names that is compressed. -/
def namesText (names : List String) : String :=
  (Json.write nameStyle (Value.strings names)).toOption.getD ""

def packNames (compressor : List UInt8 → List UInt8) (names : List String) : String :=
  String.ofList (Base64.encode (compressor (Text.utf8Bytes (namesText names))))

def unpackNames? (packed : String) : Option Value := do
  let bytes ← Zlib.decompress? (← Base64.decode? packed.toList)
  let text ← (Text.utf8 bytes).toOption
  (Json.readChars text).toOption

/-! ### Rows -/

def numbers (ns : List Nat) : Value := .list (ns.map Value.nat)

/-- A number that may be missing. -/
def number? (n : Option Nat) : Value := (n.map Value.nat).getD (.int (-1))

def flagNumber (b : Bool) : Value := Value.nat b.toNat

def ModuleRow.toValue (r : ModuleRow) : Value := numbers [r.name, r.file, r.location]

def ClassRow.toValue (r : ClassRow) : Value :=
  .list [Value.nat r.module, Value.nat r.name, .int 0, numbers r.bases, numbers r.methods,
    Value.nat r.location, numbers r.attributes]

def FunctionRow.toValue (r : FunctionRow) : Value :=
  .list [Value.nat r.module, number? r.parent, Value.nat r.name, Value.nat r.kind.code,
    number? r.returns, numbers r.parameters, numbers r.decorators, Value.nat r.location]

def ParameterRow.toValue (r : ParameterRow) : Value :=
  .list [Value.nat r.position, Value.nat r.name, number? r.hint, number? r.default,
    Value.nat r.kind.code, flagNumber r.required]

def AttributeRow.toValue (r : AttributeRow) : Value :=
  .list [Value.nat r.parent, Value.nat r.name, number? r.hint, number? r.default,
    Value.nat r.location]

def DocstringRow.toValue (r : DocstringRow) : Value :=
  numbers [r.kind.code, r.owner, r.text, r.style]

def ImportRow.toValue (r : ImportRow) : Value :=
  .list [Value.nat r.module, number? r.target, numbers r.names, flagNumber r.isFrom,
    Value.nat r.level]

/-! ### Sections -/

/-- The number of entities of each kind. -/
def totals (c : Catalog) : List (String × Nat) := [
  ("modules", c.modules.length),
  ("classes", c.classes.length),
  ("functions", c.functions.length),
  ("attributes", c.attributes.length),
  ("imports", c.imports.length)]

def Options.compression (o : Options) : Value :=
  .table [
    ("namesencoding", .str (if o.compress then "gzip+base64" else "raw")),
    ("hashlen", .int o.hashLength),
    ("format", .str o.format)]

/-- What the document says about itself. -/
def header (c : Catalog) (about : About) (o : Options) : Value :=
  .table [
    ("version", .str "3.0"),
    ("schemaversion", .str "3.0"),
    ("indexeddate", .str about.date),
    ("sourcehash", .str (c.sourceHash o.hashLength)),
    ("projectroot", .str about.root),
    ("pythonversion", .str about.language),
    ("indexerversion", .str "v3.0.0"),
    ("totalobjects", .table (c.totals.map fun (k, n) => (k, Value.nat n))),
    ("pythonrules", .table [("enforcedpatterns", .list []), ("restrictedpatterns", .list [])]),
    ("indexingoptions", .table [
      ("includedocstrings", flagNumber o.docstrings),
      ("includecomments", .int 0),
      ("includetypehints", .int 1),
      ("parsedecorators", .int 1),
      ("parselinenumbers", .int 1)]),
    ("compression", o.compression)]

def parameterValue (c : Catalog) : Value :=
  .table (c.parameters.map fun (f, rows) => (toString f, .list (rows.map (·.toValue))))

def objectHashValue (c : Catalog) : Value := .table (c.objectHashes.map fun (k, h) => (k, .str h))

def validation (c : Catalog) : Value :=
  .table [
    ("filehashes", .table (c.fileHashes.map fun (f, h) => (toString f, .str h))),
    ("objecthashes", c.objectHashValue),
    ("integritycheck", .table (
      (c.algorithm.toList.map fun a => ("algorithmidx", Value.nat a))
        ++ c.dataHash.toList.map fun h => ("datahash", .str h)))]

def document (c : Catalog) (about : About) (o : Options) : Value :=
  .table [
    ("meta", c.header about o),
    ("names", if o.compress then .str (packNames o.compressor c.names.items)
      else Value.strings c.names.items),
    ("files", Value.strings c.files.items),
    ("modules", .list (c.modules.map (·.toValue))),
    ("classes", .list (c.classes.map (·.toValue))),
    ("functions", .list (c.functions.map (·.toValue))),
    ("parameters", c.parameterValue),
    ("attributes", .list (c.attributes.map (·.toValue))),
    ("docstrings", .list (c.docstrings.map (·.toValue))),
    ("validation", c.validation),
    ("imports", .list (c.imports.map (·.toValue)))]

def digestStyle : Json.Style where
  layout := .compact
  ascii := true
  sorted := true

def documentHash (length : Int) (document : Value) : String :=
  textHash length ((Json.write digestStyle document).toOption.getD "")

/-- Puts the digest of its document into a catalog. -/
def withDataHash (c : Catalog) (about : About) (o : Options) : Catalog :=
  { c with dataHash := some (documentHash o.hashLength (c.document about o)) }

end CodeAtlas.Catalog
