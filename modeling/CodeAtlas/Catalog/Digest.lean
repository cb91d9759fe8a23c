import CodeAtlas.Catalog.Basic
import CodeAtlas.Digest

/-!
# Digests in a catalog

Classes and functions are digested by texts that describe them.
-/

namespace CodeAtlas.Catalog

/-- The text with a number. -/
def nameAt (c : Catalog) (i : Nat) : String := (c.names.get? i).getD ""

def quotedList (texts : List String) : String := (Value.strings texts).display

def classText (c : Catalog) (k : ClassRow) : String :=
  let bases := quotedList (k.bases.map c.nameAt)
  let methods := quotedList (k.methods.filterMap fun m => (c.functions[m]?).map (c.nameAt ·.name))
  let attributes := quotedList
    (k.attributes.filterMap fun a => (c.attributes[a]?).map (c.nameAt ·.name))
  s!"class:{c.nameAt k.name}:bases:{bases}:methods:{methods}:attrs:{attributes}"

def functionText (c : Catalog) (number : Nat) (f : FunctionRow) : String :=
  let rows := (c.parameters.get? number).getD []
  let params := quotedList (rows.map fun p =>
    c.nameAt p.name ++ ":" ++ ((p.hint.map c.nameAt).getD "Any"))
  let returns := (f.returns.map c.nameAt).getD "None"
  s!"func:{c.nameAt f.name}:params:{params}:return:{returns}"

def textHash (length : Int) (text : String) : String := Digest.cutAt length (Digest.ofText text)

def fileHash (length : Int) (bytes : List UInt8) : String :=
  Digest.cutAt length (Digest.ofPieces .sha256 bytes)

/-- The texts of classes and functions, with the keys of their digests. -/
def objectTexts (c : Catalog) : List (String × String) :=
  c.classes.zipIdx.map (fun (k, i) => (s!"c{i}", c.classText k))
    ++ c.functions.zipIdx.map fun (f, i) => (s!"f{i}", c.functionText i f)

/-- A catalog with the digests of its classes and functions. -/
def withObjectHashes (c : Catalog) (length : Int) : Catalog :=
  { c with
    objectHashes := c.objectTexts.foldl (fun hs (key, t) => hs.put key (textHash length t))
      c.objectHashes }

/-- Digests classes and functions, which can be done if their texts can be encoded. -/
def addObjectHashes (c : Catalog) (length : Int) : Except Text.EncodeFault Catalog :=
  match c.objectTexts.findSome? (Text.encodeFault? ·.2) with
  | some fault => .error fault
  | none => .ok (c.withObjectHashes length)

def sourceHash (c : Catalog) (length : Int) : String :=
  textHash length (String.join (c.fileHashes.map (·.2)))

end CodeAtlas.Catalog
