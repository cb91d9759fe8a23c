import CodeAtlas.Path
import CodeAtlas.Table

/-!
# Looking up paths

A path is followed name by name. A link on the way is replaced by its target; at most forty links
are followed. Two dots lead to the directory that holds the present one, wherever a link may have
led.
-/

namespace CodeAtlas.Files

/-! ### Why a file operation fails -/

/-- The reasons for which the file system refuses an operation. -/
inductive Fault where
  | missing
  | exists
  | notDirectory
  | isDirectory
  | nameTooLong
  | tooManyLinks
  /-- The path holds a null character. -/
  | nullCharacter
deriving DecidableEq, Repr

namespace Fault

def code : Fault → Nat
  | .missing => 2
  | .exists => 17
  | .notDirectory => 20
  | .isDirectory => 21
  | .nameTooLong => 36
  | .tooManyLinks => 40
  | .nullCharacter => 22

def text : Fault → String
  | .missing => "No such file or directory"
  | .exists => "File exists"
  | .notDirectory => "Not a directory"
  | .isDirectory => "Is a directory"
  | .nameTooLong => "File name too long"
  | .tooManyLinks => "Too many levels of symbolic links"
  | .nullCharacter => "Invalid argument"

/-- What is reported when a path is refused. -/
def message (f : Fault) (path : String) : String :=
  match f with
  | .nullCharacter => "embedded null byte"
  | f => s!"[Errno {f.code}] {f.text}: {Text.quoted path}"

/-- Whether a fault means that there is nothing at the path. -/
def isAbsence : Fault → Bool
  | .missing | .notDirectory | .tooManyLinks | .nullCharacter => true
  | _ => false

end Fault


/-! ### File trees -/

/-- An entry of a tree. Times are in microseconds since 1970. -/
inductive Entry where
  | file (content : List UInt8) (modified : Int)
  | dir (entries : List (String × Entry))
  | link (target : String)
deriving Inhabited, Repr

/-- A place in a tree: the names from the root on. -/
abbrev Place := List String

namespace Entry

def isDir : Entry → Bool
  | .dir _ => true
  | _ => false

def entries : Entry → Keyed String Entry
  | .dir es => es
  | _ => []

def at? : Entry → Place → Option Entry
  | e, [] => some e
  | e, name :: rest => (Keyed.get? name e.entries).bind (·.at? rest)

/-- Puts a new entry at a place whose directory is there. -/
def put : Entry → Entry → Place → Entry
  | _, new, [] => new
  | .dir es, new, name :: rest =>
    .dir (Keyed.put name (put ((Keyed.get? name es).getD (.dir [])) new rest) es)
  | e, _, _ :: _ => e

def erase : Entry → Place → Entry
  | .dir es, [name] => .dir (es.filter (·.1 ≠ name))
  | .dir es, name :: rest =>
    match Keyed.get? name es with
    | some e => .dir (Keyed.put name (erase e rest) es)
    | none => .dir es
  | e, _ => e

/-- The names in the target of a link; a slash at the end asks for a directory. -/
def targetNames (target : String) : List String :=
  let names := (target.splitOn "/").filter (· ≠ "")
  if target.endsWith "/" then names ++ ["."] else names

mutual

/-- The number of names in the targets of all links below an entry, and of the links. -/
def linkSize : Entry → Nat
  | .file _ _ => 0
  | .dir es => linkSizeList es
  | .link target => (targetNames target).length + 1

def linkSizeList : List (String × Entry) → Nat
  | [] => 0
  | (_, e) :: es => linkSize e + linkSizeList es

end

end Entry


/-! ### Looking up paths -/

/-- A file tree and a working directory in it. -/
structure Tree where
  root : Entry
  here : Place
deriving Inhabited, Repr

/-- What a path leads to: an entry, or a free name in a directory. -/
inductive Target where
  | entry (place : Place) (e : Entry)
  | vacant (place : Place)
deriving Inhabited, Repr

/-- The longest name, in bytes. -/
def maxName : Nat := 255

/-- The longest path, in bytes. -/
def maxPath : Nat := 4095

/-- The number of links that may be followed in one look-up. -/
def maxLinks : Nat := 40

/-- Follows names from a directory. A link is left to `onLink`, which gets the directory and the
names to go on from; a link at the end is an entry of its own unless `last` is set. -/
def follow (root : Entry) (last : Bool) (onLink : Place → List String → Except Fault Target) :
    List String → Place → Except Fault Target
  | [], here =>
    match root.at? here with
    | some e => .ok (.entry here e)
    | none => .error .missing
  | name :: rest, here =>
    match root.at? here with
    | some (.dir entries) =>
      if name = "." then follow root last onLink rest here
      else if name = ".." then follow root last onLink rest here.dropLast
      else if maxName < name.utf8ByteSize then .error .nameTooLong
      else
        match Keyed.get? name entries with
        | none => if rest.isEmpty then .ok (.vacant (here ++ [name])) else .error .missing
        | some (.link target) =>
          if rest.isEmpty && !last then .ok (.entry (here ++ [name]) (.link target))
          else onLink (if target.startsWith "/" then [] else here)
            (Entry.targetNames target ++ rest)
        | some _ => follow root last onLink rest (here ++ [name])
    | _ => .error .notDirectory

/-- Follows names and up to `links` links. -/
def followLinks (root : Entry) (last : Bool) : Nat → Place → List String → Except Fault Target
  | 0, here, names => follow root last (fun _ _ => .error .tooManyLinks) names here
  | links + 1, here, names => follow root last (followLinks root last links) names here

namespace Tree

def start (t : Tree) (p : Path) : Place := if p.isAbsolute then [] else t.here

/-- What a path leads to. With `last` set, a link at the end is followed too. -/
def find (t : Tree) (p : Path) (last : Bool := true) : Except Fault Target :=
  if p.text.toList.contains '\x00' then .error .nullCharacter
  else if maxPath < p.text.utf8ByteSize then .error .nameTooLong
  else followLinks t.root last maxLinks (t.start p) p.parts

def get (t : Tree) (p : Path) (last : Bool := true) : Except Fault Entry :=
  match t.find p last with
  | .ok (.entry _ e) => .ok e
  | .ok (.vacant _) => .error .missing
  | .error f => .error f

/-- Whether the entry that a path leads to satisfies a test; nothing there satisfies none. -/
def test (t : Tree) (p : Path) (q : Entry → Bool) : Except Fault Bool :=
  match t.get p with
  | .ok e => .ok (q e)
  | .error f => if f.isAbsence then .ok false else .error f

def hasEntry (t : Tree) (p : Path) : Except Fault Bool := t.test p fun _ => true

def hasDir (t : Tree) (p : Path) : Except Fault Bool := t.test p (·.isDir)

def hasFile (t : Tree) (p : Path) : Except Fault Bool := t.test p fun e => !e.isDir

end Tree

/-! ### Resolving -/

/-- The place that names lead to by their spelling alone: two dots take back the name before. -/
def collapse (place : Place) : List String → Place
  | [] => place
  | name :: rest =>
    if name = "." || name = "" then collapse place rest
    else if name = ".." then collapse place.dropLast rest
    else collapse (place ++ [name]) rest

/-- What is left to do in resolving a path: take a name, or note that a link is resolved. -/
inductive Pending where
  | name (n : String)
  | resolved (link : Place)
deriving DecidableEq, Repr

/-- The names that are left to take. -/
def Pending.names (ps : List Pending) : List String :=
  ps.filterMap fun p =>
    match p with
    | .name n => some n
    | .resolved _ => none

/-- Resolves links one by one. A link that is met while it is being resolved stays as it stands,
with all that follows. The first argument bounds the number of steps. -/
def resolveFrom (root : Entry) : Nat → Keyed Place (Option Place) → Place → List Pending → Place
  | 0, _, here, ps => collapse here (Pending.names ps)
  | _ + 1, _, here, [] => here
  | fuel + 1, seen, here, .resolved link :: ps =>
    resolveFrom root fuel (Keyed.put link (some here) seen) here ps
  | fuel + 1, seen, here, .name n :: ps =>
    if n = "." || n = "" then resolveFrom root fuel seen here ps
    else if n = ".." then resolveFrom root fuel seen here.dropLast ps
    else
      let next := here ++ [n]
      match root.at? next with
      | some (.link target) =>
        match Keyed.get? next seen with
        | some (some place) => resolveFrom root fuel seen place ps
        | some none => collapse next (Pending.names ps)
        | none =>
          resolveFrom root fuel (Keyed.put next none seen)
            (if target.startsWith "/" then [] else here)
            ((Entry.targetNames target).map .name ++ .resolved next :: ps)
      | _ => resolveFrom root fuel seen next ps

def Place.path (place : Place) : Path := ⟨"/", place⟩

namespace Tree

/-- The place that a path denotes once all links are resolved, whether or not it is there. -/
def resolvePlace (t : Tree) (p : Path) : Place :=
  let names := p.parts.map Pending.name
  resolveFrom t.root (names.length + t.root.linkSize + 1) [] (t.start p) names

/-- The path without links that a path denotes. The end of the path need not be there, but it must
not be a link that leads back to itself: then the fault comes with the path it was met at. -/
def resolve (t : Tree) (p : Path) : Except (Fault × Path) Path :=
  if p.text.toList.contains '\x00' then .error (.nullCharacter, p)
  else
    let q := Place.path (t.resolvePlace p)
    match t.get q with
    | .error .tooManyLinks => .error (.tooManyLinks, q)
    | _ => .ok q

end Tree

end CodeAtlas.Files
