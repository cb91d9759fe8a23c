import CodeAtlas.Data.Value
import CodeAtlas.Hash.Stream
import CodeAtlas.Text.Encoding

/-!
# Packed data

A compact binary format: every value starts with a byte that tells its kind and, if it is short, its
length or the value itself, and is written in the shortest form there is for it.
-/

namespace CodeAtlas.Pack

open Hash (Endian)

/-- Why data cannot be packed or unpacked. -/
inductive Fault where
  /-- The integer fits in no form. -/
  | integerRange
  /-- Values are nested too deeply to be packed. -/
  | nesting
  /-- The format has no form for values of a kind. -/
  | unsupported (kind : String)
  | incomplete
  /-- A byte that starts no value. -/
  | format
  /-- Values are nested too deeply to be unpacked. -/
  | stack
  | arrayLength (stated limit : Nat)
  | mapLength (stated limit : Nat)
  /-- A key of a kind that is no key. -/
  | key (kind : String)
  | text (fault : Text.Utf8Fault)
  | stampLength
  | stampNanos
  | extensionCode
  /-- Bytes are left after the value. -/
  | extra
deriving DecidableEq, Repr

def Fault.message : Fault → String
  | .integerRange => "Integer value out of range"
  | .nesting => "recursion limit exceeded."
  | .unsupported kind => s!"can not serialize '{kind}' object"
  | .incomplete => "Unpack failed: incomplete input"
  | .format => ""
  | .stack => ""
  | .arrayLength stated limit => s!"{stated} exceeds max_array_len({limit})"
  | .mapLength stated limit => s!"{stated} exceeds max_map_len({limit})"
  | .key kind => s!"{kind} is not allowed for map key when strict_map_key=True"
  | .text f => f.message
  | .stampLength => "Unpack failed: error = -1"
  | .stampNanos => "nanoseconds must be a non-negative integer less than 999999999."
  | .extensionCode => "code must be 0~127"
  | .extra => "unpack(b) received extra data."

/-! ### Packing -/

/-- A first byte and a number of `k` bytes. -/
def headed (first : UInt8) (k n : Nat) : List UInt8 := first :: Endian.big.bytes k n

/-- The form of an integer. -/
def packInt (n : Int) : Except Fault (List UInt8) :=
  match n with
  | .ofNat n =>
    if n < 0x80 then .ok [n.toUInt8]
    else if n < 0x100 then .ok (headed 0xcc 1 n)
    else if n < 0x10000 then .ok (headed 0xcd 2 n)
    else if n < 0x100000000 then .ok (headed 0xce 4 n)
    else if n < 0x10000000000000000 then .ok (headed 0xcf 8 n)
    else .error .integerRange
  | .negSucc m =>
    if m < 0x20 then .ok [(0xff - m).toUInt8]
    else if m < 0x80 then .ok (headed 0xd0 1 (0xff - m))
    else if m < 0x8000 then .ok (headed 0xd1 2 (0xffff - m))
    else if m < 0x80000000 then .ok (headed 0xd2 4 (0xffffffff - m))
    else if m < 0x8000000000000000 then .ok (headed 0xd3 8 (0xffffffffffffffff - m))
    else .error .integerRange

def textHead (n : Nat) : List UInt8 :=
  if n < 0x20 then [(0xa0 + n).toUInt8]
  else if n < 0x100 then headed 0xd9 1 n
  else if n < 0x10000 then headed 0xda 2 n
  else headed 0xdb 4 n

def bytesHead (n : Nat) : List UInt8 :=
  if n < 0x100 then headed 0xc4 1 n
  else if n < 0x10000 then headed 0xc5 2 n
  else headed 0xc6 4 n

/-- The head of a container: one byte below sixteen members. -/
def containerHead (short mid long : UInt8) (n : Nat) : List UInt8 :=
  if n < 0x10 then [short + n.toUInt8]
  else if n < 0x10000 then headed mid 2 n
  else headed long 4 n

def extensionHead (n : Nat) : List UInt8 :=
  if n = 1 then [0xd4] else if n = 2 then [0xd5] else if n = 4 then [0xd6] else if n = 8 then [0xd7]
  else if n = 16 then [0xd8]
  else if n < 0x100 then headed 0xc7 1 n
  else if n < 0x10000 then headed 0xc8 2 n
  else headed 0xc9 4 n

def packText (s : String) : List UInt8 :=
  let bytes := Text.utf8Bytes s
  textHead bytes.length ++ bytes

def maxNesting : Nat := 511

mutual

/-- Packs a value that stands `depth` levels deep. -/
def packAt (depth : Nat) : Value → Except Fault (List UInt8)
  | .null => nested depth [0xc0]
  | .bool false => nested depth [0xc2]
  | .bool true => nested depth [0xc3]
  | .int n => do
    if maxNesting < depth then throw .nesting
    packInt n
  | .float x => nested depth (headed 0xcb 8 x.toBits)
  | .str s => nested depth (packText s)
  | .bytes bs => nested depth (bytesHead bs.length ++ bs)
  | .list items => do
    if maxNesting < depth then throw .nesting
    return containerHead 0x90 0xdc 0xdd items.length ++ (← packItems (depth + 1) items)
  | .table entries => do
    if maxNesting < depth then throw .nesting
    return containerHead 0x80 0xde 0xdf entries.length ++ (← packEntries (depth + 1) entries)
  | .ext code bs => nested depth (extensionHead bs.length ++ [(code % 256).toNat.toUInt8] ++ bs)
  | .stamp seconds nanos =>
    nested depth ([0xc7, 12, 0xff] ++ Endian.big.bytes 4 nanos
      ++ Endian.big.bytes 8 (seconds % Int.pow 2 64).toNat)
  | .moment _ _ => .error (.unsupported "datetime.datetime")

def packItems (depth : Nat) : List Value → Except Fault (List UInt8)
  | [] => .ok []
  | v :: vs => do
    let head ← packAt depth v
    return head ++ (← packItems depth vs)

def packEntries (depth : Nat) : List (String × Value) → Except Fault (List UInt8)
  | [] => .ok []
  | (k, v) :: es => do
    if maxNesting < depth then throw .nesting
    let head ← packAt depth v
    return packText k ++ head ++ (← packEntries depth es)

/-- Bytes of a value, unless it stands too deep. -/
def nested (depth : Nat) (bytes : List UInt8) : Except Fault (List UInt8) :=
  if maxNesting < depth then .error .nesting else .ok bytes

end

def pack (v : Value) : Except Fault (List UInt8) := packAt 0 v

/-! ### Unpacking -/

/-- A reader takes a value off the front of some bytes. -/
abbrev Reader := List UInt8 → Except Fault (Value × List UInt8)

/-- The number that bytes are, the highest first. -/
def number (bytes : List UInt8) : Nat := bytes.foldl (fun n b => n * 256 + b.toNat) 0

/-- The number that bytes are in two's complement. -/
def signed (bytes : List UInt8) : Int := Int.bmod (number bytes) (Nat.pow 256 bytes.length)

def takeBytes (n : Nat) (bytes : List UInt8) : Except Fault (List UInt8 × List UInt8) :=
  let (front, rest) := bytes.splitAt n
  if front.length = n then .ok (front, rest) else .error .incomplete

def takeNumber (k : Nat) (bytes : List UInt8) : Except Fault (Nat × List UInt8) := do
  let (front, rest) ← takeBytes k bytes
  return (number front, rest)

def takeText (n : Nat) : Reader := fun bytes => do
  let (front, rest) ← takeBytes n bytes
  match Text.utf8 front with
  | .ok cs => return (.str (String.ofList cs), rest)
  | .error f => throw (.text f)

def takeBlob (n : Nat) : Reader := fun bytes => do
  let (front, rest) ← takeBytes n bytes
  return (.bytes front, rest)

/-- The code of extensions that are points in time. -/
def stampCode : Int := -1

/-- A point in time from its bytes: seconds alone, nanoseconds packed above seconds, or both apart.
-/
def stampOf (bytes : List UInt8) : Except Fault Value :=
  let checked (seconds : Int) (nanos : Nat) : Except Fault Value :=
    if nanos < 1000000000 then .ok (.stamp seconds nanos) else .error .stampNanos
  match bytes.length with
  | 4 => checked (number bytes) 0
  | 8 => checked (number bytes % Nat.pow 2 34 : Nat) (number bytes / Nat.pow 2 34)
  | 12 => checked (signed (bytes.drop 4)) (number (bytes.take 4))
  | _ => .error .stampLength

/-- An extension of `n` bytes, after its code. -/
def takeExtension (n : Nat) : Reader := fun bytes => do
  let (front, rest) ← takeBytes (n + 1) bytes
  let code := signed (front.take 1)
  let body := front.drop 1
  if code = stampCode then return (← stampOf body, rest)
  else if code < 0 then throw .extensionCode
  else return (.ext code body, rest)

/-- The key that a value is: a text, or bytes under their quoted form. -/
def keyOf : Value → Except Fault String
  | .str s => .ok s
  | .bytes bs => .ok (Text.quotedBytes bs)
  | v => .error (.key v.kind)

/-- Reads `n` values; those read before come last first. -/
def takeItems (item : Reader) : Nat → List Value → Reader
  | 0, done, bytes => .ok (.list done.reverse, bytes)
  | n + 1, done, bytes => do
    let (v, bytes) ← item bytes
    takeItems item n (v :: done) bytes

/-- Reads `n` entries; later values of a key replace earlier ones. -/
def takeEntries (item : Reader) : Nat → List (String × Value) → Reader
  | 0, done, bytes => .ok (.table done, bytes)
  | n + 1, done, bytes => do
    let (k, bytes) ← item bytes
    let (v, bytes) ← item bytes
    takeEntries item n (Value.putEntry (← keyOf k) v done) bytes

/-- Reads a value. Containers hold no more members than `size` bytes can tell, and their members are
read by `inner`; without it there is no room for a container. -/
def itemWith (size : Nat) (inner : Option Reader) : Reader := fun bytes =>
  let array (n : Nat) : Reader := fun bytes =>
    match inner with
    | none => .error .stack
    | some item => if size < n then .error (.arrayLength n size) else takeItems item n [] bytes
  let map (n : Nat) : Reader := fun bytes =>
    match inner with
    | none => .error .stack
    | some item => if size / 2 < n then .error (.mapLength n (size / 2))
      else takeEntries item n [] bytes
  let sized (k : Nat) (reader : Nat → Reader) (bytes : List UInt8) :
  Except Fault (Value × List UInt8) := do
    let (n, bytes) ← takeNumber k bytes
    reader n bytes
  let fixed (k : Nat) (value : List UInt8 → Value) (bytes : List UInt8) :
    Except Fault (Value × List UInt8) := do
    let (front, bytes) ← takeBytes k bytes
    return (value front, bytes)
  match bytes with
  | [] => .error .incomplete
  | first :: bytes =>
    let b := first.toNat
    if b < 0x80 then .ok (.int b, bytes)
    else if b < 0x90 then map (b - 0x80) bytes
    else if b < 0xa0 then array (b - 0x90) bytes
    else if b < 0xc0 then takeText (b - 0xa0) bytes
    else if 0xe0 ≤ b then .ok (.int (b - 0x100), bytes)
    else
      match b with
      | 0xc0 => .ok (.null, bytes)
      | 0xc2 => .ok (.bool false, bytes)
      | 0xc3 => .ok (.bool true, bytes)
      | 0xc4 => sized 1 takeBlob bytes
      | 0xc5 => sized 2 takeBlob bytes
      | 0xc6 => sized 4 takeBlob bytes
      | 0xc7 => sized 1 takeExtension bytes
      | 0xc8 => sized 2 takeExtension bytes
      | 0xc9 => sized 4 takeExtension bytes
      | 0xca => fixed 4 (fun bs => .float (Binary64.ofBits32 (number bs))) bytes
      | 0xcb => fixed 8 (fun bs => .float (Binary64.ofBits (number bs))) bytes
      | 0xcc => fixed 1 (fun bs => .int (number bs)) bytes
      | 0xcd => fixed 2 (fun bs => .int (number bs)) bytes
      | 0xce => fixed 4 (fun bs => .int (number bs)) bytes
      | 0xcf => fixed 8 (fun bs => .int (number bs)) bytes
      | 0xd0 => fixed 1 (fun bs => .int (signed bs)) bytes
      | 0xd1 => fixed 2 (fun bs => .int (signed bs)) bytes
      | 0xd2 => fixed 4 (fun bs => .int (signed bs)) bytes
      | 0xd3 => fixed 8 (fun bs => .int (signed bs)) bytes
      | 0xd4 => takeExtension 1 bytes
      | 0xd5 => takeExtension 2 bytes
      | 0xd6 => takeExtension 4 bytes
      | 0xd7 => takeExtension 8 bytes
      | 0xd8 => takeExtension 16 bytes
      | 0xd9 => sized 1 takeText bytes
      | 0xda => sized 2 takeText bytes
      | 0xdb => sized 4 takeText bytes
      | 0xdc => sized 2 array bytes
      | 0xdd => sized 4 array bytes
      | 0xde => sized 2 map bytes
      | 0xdf => sized 4 map bytes
      | _ => .error .format

/-- Reads a value with at most `levels` containers inside each other. -/
def item (size : Nat) : Nat → Reader
  | 0 => itemWith size none
  | levels + 1 => itemWith size (some (item size levels))

def maxLevels : Nat := 1024

/-- Unpacks a value, which has to take all bytes. -/
def unpack (bytes : List UInt8) : Except Fault Value := do
  let (v, rest) ← item bytes.length maxLevels bytes
  if rest.isEmpty then return v else throw .extra

end CodeAtlas.Pack
