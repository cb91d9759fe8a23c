import CodeAtlas.Files.Lookup

/-!
# Reading and changing a tree

Every operation names the path it was refused at, which need not be the path it was asked for:
making a directory also makes the directories above it.
-/

namespace CodeAtlas.Files

/-- A refused operation: the fault and the path. -/
abbrev Refusal := Fault × Path

namespace Tree

/-- The bytes of a file and the time of its last change. -/
def read (t : Tree) (p : Path) : Except Refusal (List UInt8 × Int) :=
  match t.get p with
  | .ok (.file content modified) => .ok (content, modified)
  | .ok _ => .error (.isDirectory, p)
  | .error f => .error (f, p)

/-- Writes a file, which is made if its name is free. A dangling link makes the file it names. -/
def write (t : Tree) (p : Path) (content : List UInt8) (now : Int) : Except Refusal Tree :=
  match t.find p with
  | .ok (.entry _ (.dir _)) => .error (.isDirectory, p)
  | .ok (.entry place _) | .ok (.vacant place) =>
    .ok { t with root := t.root.put (.file content now) place }
  | .error f => .error (f, p)

/-- Makes sure that a file is there; one that is there keeps its content. -/
def touch (t : Tree) (p : Path) (now : Int) : Except Refusal Tree :=
  match t.find p with
  | .ok (.entry place (.file content _)) =>
    .ok { t with root := t.root.put (.file content now) place }
  | .ok (.entry _ _) => .ok t
  | .ok (.vacant place) => .ok { t with root := t.root.put (.file [] now) place }
  | .error f => .error (f, p)

/-- Removes a file or a link. -/
def remove (t : Tree) (p : Path) : Except Refusal Tree :=
  match t.find p false with
  | .ok (.entry _ (.dir _)) => .error (.isDirectory, p)
  | .ok (.entry place _) => .ok { t with root := t.root.erase place }
  | .ok (.vacant _) => .error (.missing, p)
  | .error f => .error (f, p)

/-- Makes a directory under a free name. -/
def makeDir (t : Tree) (p : Path) : Except Refusal Tree :=
  match t.find p false with
  | .ok (.entry _ _) => .error (.exists, p)
  | .ok (.vacant place) => .ok { t with root := t.root.put (.dir []) place }
  | .error f => .error (f, p)

/-- Accepts that a directory could not be made if it is there. -/
def orPresent (t : Tree) (p : Path) (r : Refusal) : Except Refusal Tree :=
  match t.hasDir p with
  | .ok true => .ok t
  | .ok false => .error r
  | .error f => .error (f, p)

/-- Makes the directory whose names, from the last to the first, are `back`, and those above it that
are missing. What is made before a refusal stays. -/
def makeDirsBack (root : String) : List String → Tree → Except Refusal Unit × Tree
  | back, t =>
    let p : Path := ⟨root, back.reverse⟩
    match t.makeDir p with
    | .ok t => (.ok (), t)
    | .error (.missing, q) =>
      match back with
      | [] => (.error (.missing, q), t)
      | _ :: above =>
        match makeDirsBack root above t with
        | (.error r, t) => (.error r, t)
        | (.ok (), t) =>
          match t.makeDir p with
          | .ok t => (.ok (), t)
          | .error (.missing, q) => (.error (.missing, q), t)
          | .error r => finish t p r
    | .error (.nullCharacter, q) => (.error (.nullCharacter, q), t)
    | .error r => finish t p r
where
  finish (t : Tree) (p : Path) (r : Refusal) : Except Refusal Unit × Tree :=
    match t.orPresent p r with
    | .ok t => (.ok (), t)
    | .error r => (.error r, t)

/-- Makes a directory and those above it that are missing; one that is there is fine. -/
def makeDirs (t : Tree) (p : Path) : Except Refusal Unit × Tree :=
  makeDirsBack p.root p.parts.reverse t

end Tree

end CodeAtlas.Files
