/-!
# Tables of character properties

Sorted tables over code points, written in hexadecimal. A code point is counted from the end of the
entry before, a range is written as `first-length`, less one, and a mapping after `=`.
-/

namespace CodeAtlas.Text

/-! ### Reading the tables -/

/-- The value of a hexadecimal digit. -/
def hexValue? (c : Char) : Option Nat :=
  if '0' ≤ c ∧ c ≤ '9' then some (c.toNat - '0'.toNat)
  else if 'a' ≤ c ∧ c ≤ 'f' then some (c.toNat - 'a'.toNat + 10)
  else if 'A' ≤ c ∧ c ≤ 'F' then some (c.toNat - 'A'.toNat + 10)
  else none

/-- The value of hexadecimal digits; other characters are passed over. -/
def hexNat (cs : List Char) : Nat :=
  cs.foldl (fun n c => match hexValue? c with | some d => n * 16 + d | none => n) 0

/-- The value of decimal digits; other characters are passed over. -/
def decNat (cs : List Char) : Nat :=
  cs.foldl (fun n c => if c.isDigit then n * 10 + (c.toNat - 48) else n) 0

/-- Splits at every occurrence of `sep`. -/
def splitOnChar (sep : Char) : List Char → List (List Char)
  | [] => [[]]
  | c :: cs =>
    if c = sep then [] :: splitOnChar sep cs
    else match splitOnChar sep cs with
      | [] => [[c]]
      | w :: ws => (c :: w) :: ws

/-- The words of a table, separated by blanks and line ends. -/
def tableWords (lines : List String) : List (List Char) :=
  lines.flatMap fun l => splitOnChar ' ' l.toList

/-- Cuts a word at the first `sep`. -/
def cutAt (sep : Char) (w : List Char) : List Char × List Char :=
  (w.takeWhile (· != sep), (w.dropWhile (· != sep)).drop 1)

/-- The range that `first-length` or a single code point stands for, counted from `before`. -/
def readRange (before : Nat) (w : List Char) : Nat × Nat :=
  let (a, b) := cutAt '-' w
  (before + hexNat a, before + hexNat a + hexNat b)

/-- A number and the difference to it that is written. -/
def shifted (n : Int) (w : List Char) : Int :=
  if w.head? = some '-' then n - hexNat w else n + hexNat w

/-- Reads the words of a table, each given the entry before. -/
def readTable {α : Type} (read : Option α → List Char → α) (lines : List String) : Array α :=
  (tableWords lines).foldl (fun entries w => entries.push (read entries.back? w)) #[]

/-! ### Bisection -/

/-- The least index from `lo` up to `hi` at which `below` fails, for a predicate that holds on an
initial segment. -/
def bisect (below : Nat → Bool) : Nat → Nat → Nat → Nat
  | 0, lo, _ => lo
  | fuel + 1, lo, hi =>
    if hi ≤ lo then lo
    else
      let mid := (lo + hi) / 2
      if below mid then bisect below fuel (mid + 1) hi else bisect below fuel lo mid

/-- The last entry whose key is at most `x`, in an array sorted by `key`. -/
def lastAtMost {α : Type} (entries : Array α) (key : α → Nat) (x : Nat) : Option α :=
  let below := fun i => match entries[i]? with
    | some e => key e ≤ x
    | none => false
  match bisect below 64 0 entries.size with
  | 0 => none
  | i + 1 => entries[i]?

/-! ### The kinds of tables -/

/-- A set of code points as sorted, disjoint ranges. -/
structure Ranges where
  entries : Array (Nat × Nat)

def Ranges.ofLines (lines : List String) : Ranges :=
  ⟨readTable (fun before w => readRange ((before.map Prod.snd).getD 0) w) lines⟩

def Ranges.contains (r : Ranges) (x : Nat) : Bool :=
  match lastAtMost r.entries (·.1) x with
  | some (_, last) => x ≤ last
  | none => false

/-- Ranges with a number each. -/
structure ClassRanges where
  entries : Array (Nat × Nat × Nat)

def ClassRanges.ofLines (lines : List String) : ClassRanges :=
  ⟨readTable (fun before w =>
    let (r, v) := cutAt '=' w
    let (a, b) := readRange ((before.map (·.2.1)).getD 0) r
    (a, b, decNat v)) lines⟩

/-- The number of the range that holds `x`, zero outside all of them. -/
def ClassRanges.find (r : ClassRanges) (x : Nat) : Nat :=
  match lastAtMost r.entries (·.1) x with
  | some (_, last, v) => if x ≤ last then v else 0
  | none => 0

/-- A run of characters, every `step`-th of them moved by `offset`. -/
structure CaseRun where
  first : Nat
  last : Nat
  step : Nat
  offset : Int

structure CaseRuns where
  entries : Array CaseRun

/-- Reads a range with `/step+offset` or `/step-offset`. -/
def CaseRun.ofWord (before : Option CaseRun) (w : List Char) : CaseRun :=
  let (r, rest) := cutAt '/' w
  let (first, last) := readRange ((before.map (·.last)).getD 0) r
  ⟨first, last, decNat (rest.take 1), shifted 0 (rest.drop 1)⟩

def CaseRuns.ofLines (lines : List String) : CaseRuns := ⟨readTable CaseRun.ofWord lines⟩

/-- The character that `c` is moved to, `c` itself outside every run. -/
def CaseRuns.apply (r : CaseRuns) (c : Char) : Char :=
  let x := c.toNat
  match lastAtMost r.entries (·.first) x with
  | some run =>
    if x ≤ run.last ∧ (x - run.first) % run.step = 0 then Char.ofNat ((x : Int) + run.offset).toNat
    else c
  | none => c

/-- A mapping of code points to texts. An entry over a range maps its members to successive
characters. -/
structure Mapping where
  entries : Array (Nat × Nat × List Nat)

/-- Reads a range with `=text`, or a text alone, which belongs to the code point after the last one.
The first character is counted from that of the text before. -/
def Mapping.readEntry (before : Option (Nat × Nat × List Nat)) (w : List Char) :
    Nat × Nat × List Nat :=
  let (_, last, text) := before.getD (0, 0, [])
  let (r, v) := if w.contains '=' then cutAt '=' w else (['1'], w)
  let (a, b) := readRange last r
  let (x, xs) := cutAt '.' v
  (a, b, (shifted (text.headD 0) x).toNat :: if xs.isEmpty then []
    else (splitOnChar '.' xs).map hexNat)

def Mapping.ofLines (lines : List String) : Mapping := ⟨readTable readEntry lines⟩

def Mapping.find? (m : Mapping) (x : Nat) : Option (List Char) :=
  match lastAtMost m.entries (·.1) x with
  | some (first, last, target) =>
    if x ≤ last then some (target.map fun t => Char.ofNat (t + (x - first))) else none
  | none => none

end CodeAtlas.Text
