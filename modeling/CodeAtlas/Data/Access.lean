import CodeAtlas.Data.Value
import CodeAtlas.Number.Digits
import CodeAtlas.Text.Search

/-!
# Values of unknown shape

Documents from outside may have any shape. A value that cannot be read in some way gives a fault
that tells its kind.
-/

namespace CodeAtlas.Value

/-! ### Values as text -/

def boolText (b : Bool) : String := if b then "True" else "False"

mutual

/-- The form of a value inside other values. -/
def detail : Value → String
  | .null => "None"
  | .bool b => boolText b
  | .int n => toString n
  | .float x => Binary64.text x
  | .str s => Text.quoted s
  | .bytes bs => Text.quotedBytes bs
  | .list items => "[" ++ ", ".intercalate (details items) ++ "]"
  | .table entries => "\x7b" ++ ", ".intercalate (entryDetails entries) ++ "\x7d"
  | .ext code bs => s!"ExtType(code={code}, data={Text.quotedBytes bs})"
  | .stamp seconds nanos => s!"Timestamp(seconds={seconds}, nanoseconds={nanos})"
  | .moment _ detail => detail

def details : List Value → List String
  | [] => []
  | v :: vs => detail v :: details vs

def entryDetails : List (String × Value) → List String
  | [] => []
  | (k, v) :: es => (Text.quoted k ++ ": " ++ detail v) :: entryDetails es

end

mutual

/-- Whether a value has a form: no integer in it has too many digits. -/
def isShown : Value → Bool
  | .int n => !Digits.exceeds n.natAbs
  | .list items => areShown items
  | .table entries => entriesShown entries
  | _ => true

def areShown : List Value → Bool
  | [] => true
  | v :: vs => isShown v && areShown vs

def entriesShown : List (String × Value) → Bool
  | [] => true
  | (_, v) :: es => isShown v && entriesShown es

end

/-- The form of a value in a message. -/
def display : Value → String
  | .str s => s
  | .moment text _ => text
  | v => v.detail

end CodeAtlas.Value

namespace CodeAtlas

/-! ### Values of unknown shape -/

/-- Why a value cannot be read in the way that was asked for. -/
inductive AccessFault where
  | noAttribute (kind name : String)
  | noItems (kind : String)
  /-- Lists and texts are read at integers only. -/
  | listIndex (kind : String)
  | textIndex (kind : String)
  | listRange
  | textRange
  /-- The index is beyond all sizes. -/
  | indexSize
  | missingKey (key : String)
  | noKey (kind : String)
  | noLength (kind : String)
  | noMembers (kind : String)
  /-- Membership cannot be asked. -/
  | noMembership (kind : String)
  | noOrder (left right : String)
  | notPath (kind : String)
  | notBelow (kind : String)
  /-- Only texts can be joined. -/
  | notJoined (position : Nat) (kind : String)
deriving DecidableEq, Repr

def AccessFault.message : AccessFault → String
  | .noAttribute kind name => s!"'{kind}' object has no attribute '{name}'"
  | .noItems kind => s!"'{kind}' object is not subscriptable"
  | .listIndex kind => s!"list indices must be integers or slices, not {kind}"
  | .textIndex kind => s!"string indices must be integers, not '{kind}'"
  | .listRange => "list index out of range"
  | .textRange => "string index out of range"
  | .indexSize => "cannot fit 'int' into an index-sized integer"
  | .missingKey key => key
  | .noKey kind => s!"unhashable type: '{kind}'"
  | .noLength kind => s!"object of type '{kind}' has no len()"
  | .noMembers kind => s!"'{kind}' object is not iterable"
  | .noMembership kind => s!"argument of type '{kind}' is not iterable"
  | .noOrder left right => s!"'<' not supported between instances of '{left}' and '{right}'"
  | .notPath kind => s!"expected str, bytes or os.PathLike object, not {kind}"
  | .notBelow kind => s!"unsupported operand type(s) for /: 'PosixPath' and '{kind}'"
  | .notJoined position kind => s!"sequence item {position}: expected str instance, {kind} found"

namespace Value

/-- The integer that a value is; truth values count as zero and one. -/
def asInt? : Value → Option Int
  | .int n => some n
  | .bool b => some b.toNat
  | _ => none

/-- Whether a value counts as true: it is not zero and not empty. -/
def truth : Value → Bool
  | .null => false
  | .bool b => b
  | .int n => n ≠ 0
  | .float x => !x.isZero
  | .str s => !s.isEmpty
  | .bytes bs => !bs.isEmpty
  | .list items => !items.isEmpty
  | .table entries => !entries.isEmpty
  | _ => true

/-- The member of a list at an index; negative ones count from the end. -/
def atIndex? {α : Type} (items : List α) (n : Int) : Option α :=
  if 0 ≤ n then items[n.toNat]?
    else if -(items.length : Int) ≤ n then items[(items.length + n).toNat]? else none

/-- Whether an integer is beyond all sizes. -/
def isHuge (n : Int) : Bool := n < -(Int.pow 2 63) || Int.pow 2 63 ≤ n

def part (v index : Value) : Except AccessFault Value :=
  match v with
  | .list items =>
    match index.asInt? with
    | none => .error (.listIndex index.kind)
    | some n =>
      match atIndex? items n with
      | some item => .ok item
      | none => .error (if isHuge n then .indexSize else .listRange)
  | .str s =>
    match index.asInt? with
    | none => .error (.textIndex index.kind)
    | some n =>
      match atIndex? s.toList n with
      | some c => .ok (.str c.toString)
      | none => .error (if isHuge n then .indexSize else .textRange)
  | .table entries =>
    match index with
    | .list _ | .table _ => .error (.noKey index.kind)
    | .str key =>
      match lookup key entries with
      | some item => .ok item
      | none => .error (.missingKey index.detail)
    | _ => .error (.missingKey index.detail)
  | v => .error (.noItems v.kind)

/-- The part of a value under a name. -/
def field (v : Value) (key : String) : Except AccessFault Value := v.part (.str key)

def item (v : Value) (n : Nat) : Except AccessFault Value := v.part (.int n)

/-- The value of a key in a table, or a value in its place. -/
def getOr (v : Value) (key : String) (default : Value) : Except AccessFault Value :=
  match v with
  | .table entries => .ok ((lookup key entries).getD default)
  | v => .error (.noAttribute v.kind "get")

def size (v : Value) : Except AccessFault Nat :=
  match v with
  | .list items => .ok items.length
  | .str s => .ok s.length
  | .table entries => .ok entries.length
  | v => .error (.noLength v.kind)

/-- The members of a value: those of a list, the characters of a text, the keys of a table. -/
def members (v : Value) : Except AccessFault (List Value) :=
  match v with
  | .list items => .ok items
  | .str s => .ok (s.toList.map fun c => .str c.toString)
  | .table entries => .ok (entries.map fun (k, _) => .str k)
  | v => .error (.noMembers v.kind)

/-- The first `n` members of a list or a text. -/
def first (n : Nat) (v : Value) : Except AccessFault (List Value) :=
  match v with
  | .list items => .ok (items.take n)
  | .str s => .ok ((s.toList.take n).map fun c => .str c.toString)
  | .table _ => .error (.noKey "slice")
  | v => .error (.noItems v.kind)

def isBelow (v : Value) (n : Nat) : Except AccessFault Bool :=
  match v with
  | .int m => .ok (m < n)
  | .bool b => .ok (b.toNat < n)
  | .float x => .ok (x.compareInt n = some .lt)
  | v => .error (.noOrder v.kind "int")

def sameNumber : Value → Value → Option Bool
  | .int m, .int n => some (m = n)
  | .float x, .float y => some (x.compareNumber y = some .eq)
  | .int m, .float y => some (y.compareInt m = some .eq)
  | .float x, .int n => some (x.compareInt n = some .eq)
  | _, _ => none

/-- A truth value as a number; all else as it is. -/
def asNumber : Value → Value
  | .bool b => .int b.toNat
  | v => v

mutual

/-- Whether two values are equal: numbers by value, tables whatever the order of their entries. -/
def same : Value → Value → Bool
  | .null, .null => true
  | .str s, .str t => s = t
  | .list xs, .list ys => sameList xs ys
  | .table es, .table fs => es.length = fs.length && sameEntries fs es
  | .bytes bs, .bytes cs => bs = cs
  | v, w => (sameNumber v.asNumber w.asNumber).getD false

def sameList : List Value → List Value → Bool
  | [], [] => true
  | x :: xs, y :: ys => same x y && sameList xs ys
  | _, _ => false

/-- Whether every entry has an equal one in a table. -/
def sameEntries (fs : List (String × Value)) : List (String × Value) → Bool
  | [] => true
  | (k, v) :: es =>
    (match lookup k fs with
      | some w => same v w
      | none => false) && sameEntries fs es

end

/-- Whether a text is a member of a value: a key of a table, a member of a list, a part of a text.
-/
def has (v : Value) (s : String) : Except AccessFault Bool :=
  match v with
  | .table entries => .ok (lookup s entries).isSome
  | .list items => .ok (items.any (same (.str s)))
  | .str t => .ok (Text.contains t s)
  | v => .error (.noMembership v.kind)

/-- Texts joined by a separator; all values have to be texts. -/
def joined (sep : String) (vs : List Value) : Except AccessFault String := do
  let texts ← vs.zipIdx.mapM fun (v, i) =>
    match v with
    | .str s => .ok s
    | v => .error (AccessFault.notJoined i v.kind)
  return sep.intercalate texts

end Value

end CodeAtlas
