import CodeAtlas.Files.Lookup

/-!
# Searching a tree

The plain search lists every entry below a directory whose name has the wanted ending and does not
enter linked directories. The pruned search skips directories by name and lists what is no
directory.
-/

namespace CodeAtlas.Files

/-- The ending of the names that are searched for. -/
def sourceSuffix : String := ".py"

def isSourceName (name : String) : Bool := name.endsWith sourceSuffix

mutual

/-- The paths, from a directory on, of the entries below it with the wanted ending. -/
def sourcesBelow : List (String × Entry) → List Place
  | [] => []
  | (name, e) :: es =>
    (if isSourceName name then [[name]] else []) ++ (sourcesIn e).map (name :: ·) ++ sourcesBelow es

/-- The paths from an entry on, if it is a directory. -/
def sourcesIn : Entry → List Place
  | .dir es => sourcesBelow es
  | .file _ _ => []
  | .link _ => []

end

mutual

/-- The paths, from a directory on, of the directories below it. -/
def dirsBelow : List (String × Entry) → List Place
  | [] => []
  | (name, e) :: es => dirsOf name e ++ dirsBelow es

def dirsOf (name : String) : Entry → List Place
  | .dir es => [name] :: (dirsBelow es).map (name :: ·)
  | .file _ _ => []
  | .link _ => []

end

/-- Paths in order, name by name. -/
def sortPaths (ps : List Path) : List Path := ps.mergeSort Path.le

def below (p : Path) (place : Place) : Path := ⟨p.root, p.parts ++ place⟩

namespace Tree

def entriesAt (t : Tree) (p : Path) : Except Fault (List (String × Entry)) :=
  match t.get p with
  | .ok (.dir es) => .ok es
  | .ok _ => .error .notDirectory
  | .error f => .error f

/-- The entries in a directory with the wanted ending, or with `deep` those at any depth below it.
Every directory has to be reached under its own path, so none may be too deep. -/
def sources (t : Tree) (p : Path) (deep : Bool) : Except (Fault × Path) (List Path) :=
  match t.entriesAt p with
  | .error f => if f.isAbsence then .ok [] else .error (f, p)
  | .ok es =>
    if deep then
      match ((dirsBelow es).map (below p)).find? fun q => maxPath < q.text.utf8ByteSize with
      | some q => .error (.nameTooLong, q)
      | none => .ok (sortPaths ((sourcesBelow es).map (below p)))
    else .ok (sortPaths ((es.filter (isSourceName ·.1)).map fun e => below p [e.1]))

/-- Whether an entry of a directory counts as a directory, links followed. -/
def leadsToDir (t : Tree) (place : Place) : Entry → Bool
  | .dir _ => true
  | .file _ _ => false
  | .link _ =>
    match followLinks t.root true maxLinks [] place with
    | .ok (.entry _ (.dir _)) => true
    | _ => false

mutual

/-- The paths of the files with the wanted ending below the directory at a place, without what is
below directories with a skipped name. -/
def prunedBelow (t : Tree) (skip : List String) (here : Place) : List (String × Entry) → List Place
  | [] => []
  | (name, e) :: es =>
    (if isSourceName name && !t.leadsToDir (here ++ [name]) e then [[name]] else [])
      ++ (if skip.contains name then [] else (prunedIn t skip (here ++ [name]) e).map (name :: ·))
      ++ prunedBelow t skip here es

def prunedIn (t : Tree) (skip : List String) (here : Place) : Entry → List Place
  | .dir es => prunedBelow t skip here es
  | .file _ _ => []
  | .link _ => []

end

/-- The files with the wanted ending below a directory, without what is below directories with a
skipped name, in order. -/
def prunedSources (t : Tree) (skip : List String) (p : Path) : List Path :=
  match t.find p with
  | .ok (.entry place (.dir es)) => sortPaths ((prunedBelow t skip place es).map (below p))
  | _ => []

end Tree

mutual

/-- All paths below a directory; `isDir` tells by its path whether a link leads to a directory.
Directories end in a slash. -/
def listingBelow (isDir : Place → Bool) (here : Place) : List (String × Entry) → List String
  | [] => []
  | (name, e) :: es => listingOf isDir (here ++ [name]) e ++ listingBelow isDir here es

def listingOf (isDir : Place → Bool) (here : Place) : Entry → List String
  | .dir es => ("/".intercalate here ++ "/") :: listingBelow isDir here es
  | .file _ _ => ["/".intercalate here]
  | .link _ => ["/".intercalate here ++ if isDir here then "/" else ""]

end

/-- All paths below the working directory, in order. -/
def Tree.listing (t : Tree) : List String :=
  match t.root.at? t.here with
  | some (.dir es) =>
    (listingBelow (fun place => t.leadsToDir (t.here ++ place) (.link "")) [] es).mergeSort (· ≤ ·)
  | _ => []

end CodeAtlas.Files
