import CodeAtlas.Session

/-!
# Digests of texts and files

Digests are hexadecimal texts, cut to a length. Files are taken in by pieces of 4096 bytes.
-/

namespace CodeAtlas.Digest

open CodeAtlas.Action

/-- The hash functions that can be asked for. -/
inductive Kind where
  | sha256
  | md5
  | sha1
deriving DecidableEq, Repr

def Kind.name : Kind → String
  | .sha256 => "sha256"
  | .md5 => "md5"
  | .sha1 => "sha1"

def Kind.ofName? (name : String) : Option Kind :=
  [Kind.sha256, .md5, .sha1].find? (·.name = name)

/-- The number of bytes that are taken in at once. -/
def pieceSize : Nat := 4096

/-- Cuts bytes into pieces of a size; the first argument bounds their number. -/
def piecesFrom (size : Nat) : Nat → List UInt8 → List (List UInt8)
  | 0, _ => []
  | fuel + 1, bytes =>
    if bytes.isEmpty then []
    else
      let (front, rest) := bytes.splitAt size
      front :: piecesFrom size fuel rest

def pieces (bytes : List UInt8) : List (List UInt8) :=
  piecesFrom pieceSize (bytes.length / pieceSize + 1) bytes

/-- The digest of a file's bytes, taken in by pieces. -/
def ofPieces (kind : Kind) (bytes : List UInt8) : String :=
  Hash.hexText <|
    match kind with
    | .sha256 => Hash.sha256.hashPieces (pieces bytes)
    | .md5 => Hash.md5.hashPieces (pieces bytes)
    | .sha1 => Hash.sha1.hashPieces (pieces bytes)

def ofText (s : String) : String := Hash.hexText (Hash.sha256.hash (Text.utf8Bytes s))

def cut (length : Nat) (digest : String) : String := String.ofList (digest.toList.take length)

/-- A text cut after `length` characters; a negative length counts from the end. -/
def cutAt (length : Int) (digest : String) : String :=
  let cs := digest.toList
  String.ofList (cs.take (if 0 ≤ length then length.toNat else (cs.length + length).toNat))

/-! ### Digests of given length -/

def length? (v : Value) : Option Nat := hashLengths.find? fun n => v.same (.nat n)

def lengthOf (v : Value) : Action Nat := do
  match length? v with
  | some n => return n
  | none =>
    error s!"Invalid hash length: {v.display}"
    throw (.hashLength v.display)

/-- The digest of a text, given as a value. -/
def ofContent (content length : Value) : Action String := do
  let n ← lengthOf length
  match content with
  | .str s =>
    let digest := cut n (ofText s)
    debug s!"Hashed content (length={length.display}): {digest}"
    return digest
  | v =>
    let f : Failure := .access (.noAttribute v.kind "encode")
    report "Error hashing content" f
    throw f

/-- The digest of texts, given as values, one a line. -/
def ofLines (lines length : Value) : Action String := do
  let _ ← lengthOf length
  onFailure (do
    let items ← access lines.members
    let text ← access (Value.joined "\n" items)
    ofContent (.str text) length) (report "Error hashing string list")

def ofFile (path : Path) (length : Value) : Action String := do
  let n ← lengthOf length
  if !(← isThere path) then
    error s!"File not found: {path.text}"
    throw (.missing .file path.text)
  if !(← isFile path) then
    error s!"Not a file: {path.text}"
    throw (.unfit .notFile path.text)
  onFailure (do
    let digest := cut n (ofPieces .sha256 (← readBytes path))
    debug s!"Hashed file {path.text} (length={length.display}): {digest}"
    return digest) (report s!"Error hashing file {path.text}")

/-- Whether a value is a length for digests; if not, a warning is logged. -/
def isLength (v : Value) : Action Bool := do
  match length? v with
  | some _ => return true
  | none =>
    warning s!"Invalid hash length: {v.display}. Valid lengths: {shownList (hashLengths.map Value.nat)}"
    return false

end CodeAtlas.Digest
