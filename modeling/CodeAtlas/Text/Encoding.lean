import CodeAtlas.Text.Lines
import CodeAtlas.Text.Quoted

/-!
# Encodings

How bytes become text. Files are read in one of three encodings: UTF-8, the Cyrillic code page 1251,
in which one byte has no meaning, and Latin-1, in which every byte has one.
-/

namespace CodeAtlas.Text

/-! ### UTF-8 -/

/-- Why bytes are no UTF-8. -/
inductive Utf8Reason where
  | start
  | continuation
  | ending
deriving DecidableEq, Repr

/-- Where and why bytes are no UTF-8: the bytes from `first` on, `length` of them, are to blame. -/
structure Utf8Fault where
  first : Nat
  length : Nat
  byte : UInt8
  reason : Utf8Reason
deriving DecidableEq, Repr

def Utf8Reason.text : Utf8Reason → String
  | .start => "invalid start byte"
  | .continuation => "invalid continuation byte"
  | .ending => "unexpected end of data"

/-- What is reported of bytes that are no UTF-8. -/
def Utf8Fault.message (f : Utf8Fault) : String :=
  let what :=
    if f.length = 1 then s!"byte 0x{String.ofList (hexDigits 2 f.byte.toNat)} in position {f.first}"
    else s!"bytes in position {f.first}-{f.first + f.length - 1}"
  s!"'utf-8' codec can't decode {what}: {f.reason.text}"

/-- How many bytes follow a first byte, and the range of the first of them. -/
def utf8Tail? (b : Nat) : Option (Nat × Nat × Nat) :=
  if b < 0x80 then some (0, 0, 0)
  else if b < 0xC2 then none
  else if b < 0xE0 then some (1, 0x80, 0xBF)
  else if b = 0xE0 then some (2, 0xA0, 0xBF)
  else if b = 0xED then some (2, 0x80, 0x9F)
  else if b < 0xF0 then some (2, 0x80, 0xBF)
  else if b = 0xF0 then some (3, 0x90, 0xBF)
  else if b < 0xF4 then some (3, 0x80, 0xBF)
  else if b = 0xF4 then some (3, 0x80, 0x8F)
  else none

/-- Checks the bytes that follow a first byte: `done` are behind, `need` are to come. Gives what is
left, or how many bytes are to blame and why. -/
def utf8Rest (done : Nat) : Nat → Nat → Nat → List UInt8 → Except (Nat × Utf8Reason) (List UInt8)
  | 0, _, _, rest => .ok rest
  | _ + 1, _, _, [] => .error (done, .ending)
  | need + 1, low, high, b :: rest =>
    if low ≤ b.toNat && b.toNat ≤ high then utf8Rest (done + 1) need 0x80 0xBF rest
    else .error (done, .continuation)

/-- Finds the first fault; the first argument bounds the number of characters. -/
def utf8FaultFrom : Nat → Nat → List UInt8 → Utf8Fault
  | 0, pos, _ => ⟨pos, 1, 0, .start⟩
  | _ + 1, pos, [] => ⟨pos, 1, 0, .ending⟩
  | fuel + 1, pos, b :: rest =>
    match utf8Tail? b.toNat with
    | none => ⟨pos, 1, b, .start⟩
    | some (need, low, high) =>
      match utf8Rest 1 need low high rest with
      | .ok rest => utf8FaultFrom fuel (pos + need + 1) rest
      | .error (length, reason) => ⟨pos, length, b, reason⟩

def utf8 (bytes : List UInt8) : Except Utf8Fault (List Char) :=
  match String.fromUTF8? ⟨bytes.toArray⟩ with
  | some s => .ok s.toList
  | none => .error (utf8FaultFrom bytes.length 0 bytes)

def utf8Bytes (s : String) : List UInt8 := s.toUTF8.toList

/-! ### One byte, one character -/

/-- The characters of code page 1251 from 0x80 to 0xBF; zero stands for none. -/
def cyrillicSigns : List Nat := [
  0x0402, 0x0403, 0x201a, 0x0453, 0x201e, 0x2026, 0x2020, 0x2021,
  0x20ac, 0x2030, 0x0409, 0x2039, 0x040a, 0x040c, 0x040b, 0x040f,
  0x0452, 0x2018, 0x2019, 0x201c, 0x201d, 0x2022, 0x2013, 0x2014,
  0x0000, 0x2122, 0x0459, 0x203a, 0x045a, 0x045c, 0x045b, 0x045f,
  0x00a0, 0x040e, 0x045e, 0x0408, 0x00a4, 0x0490, 0x00a6, 0x00a7,
  0x0401, 0x00a9, 0x0404, 0x00ab, 0x00ac, 0x00ad, 0x00ae, 0x0407,
  0x00b0, 0x00b1, 0x0406, 0x0456, 0x0491, 0x00b5, 0x00b6, 0x00b7,
  0x0451, 0x2116, 0x0454, 0x00bb, 0x0458, 0x0405, 0x0455, 0x0457]

/-- The character of a byte in code page 1251. -/
def cyrillicChar? (b : UInt8) : Option Char :=
  let n := b.toNat
  if n < 0x80 then some (Char.ofNat n)
  else if 0xC0 ≤ n then some (Char.ofNat (0x410 + (n - 0xC0)))
  else
    match cyrillicSigns.getD (n - 0x80) 0 with
    | 0 => none
    | code => some (Char.ofNat code)

def cyrillic? (bytes : List UInt8) : Option (List Char) :=
  bytes.foldr (fun b cs => match cyrillicChar? b, cs with
    | some c, some cs => some (c :: cs)
    | _, _ => none) (some [])

def latin (bytes : List UInt8) : List Char := bytes.map fun b => Char.ofNat b.toNat

/-! ### Encodings of source files -/

/-- The encodings that a source file may be in. -/
inductive Encoding where
  | utf8
  | cyrillic
  | latin
deriving DecidableEq, Repr

namespace Encoding

def name : Encoding → String
  | .utf8 => "utf-8"
  | .cyrillic => "cp1251"
  | .latin => "latin-1"

/-- The encodings in the order in which they are tried. -/
def all : List Encoding := [.utf8, .cyrillic, .latin]

end Encoding

/-- The text of a file in the first encoding that fits, with lines ended by line feeds. -/
def decodeAny (bytes : List UInt8) : Encoding × List Char :=
  match Text.utf8 bytes with
  | .ok cs => (.utf8, unifyNewlines cs)
  | .error _ =>
    match cyrillic? bytes with
    | some cs => (.cyrillic, unifyNewlines cs)
    | none => (.latin, unifyNewlines (latin bytes))

end CodeAtlas.Text
