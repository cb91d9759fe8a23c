import CodeAtlas.Text.Tables

/-!
# Compatibility normalisation

Every character is replaced by its full decomposition, combining marks are put in canonical order,
and pairs that have a composed form are composed. Hangul syllables follow their arithmetic rule.
-/

namespace CodeAtlas.Text

/-- The full compatibility decomposition of each character that has one. -/
def decompositionTable : Mapping := Mapping.ofLines (characterTable 0)

/-- The combining classes other than zero, in decimal. -/
def combiningTable : ClassRanges := ClassRanges.ofLines (characterTable 1)

/-- Tells the characters with a decomposition from which they are composed again. -/
def composedTable : Ranges := Ranges.ofLines (characterTable 2)

/-- The characters that are composed of others, with all of these. -/
def compositions : Array (Nat × List Nat) :=
  decompositionTable.entries.filterMap fun (first, _, text) =>
    if composedTable.contains first then some (first, text) else none

/-- The class of a combining mark; zero for a starter. -/
def combiningClass (c : Char) : Nat :=
  if c.toNat < 128 then 0 else combiningTable.find c.toNat

/-- The conjoining letters of a Hangul syllable. -/
def hangulLetters (n : Nat) : List Char :=
  let s := n - 0xac00
  let t := s % 28
  [Char.ofNat (0x1100 + s / 588), Char.ofNat (0x1161 + s % 588 / 28)]
    ++ (if t = 0 then [] else [Char.ofNat (0x11a7 + t)])

/-- The full decomposition of a character. -/
def decompose (c : Char) : List Char :=
  let n := c.toNat
  if n < 128 then [c]
  else if 0xac00 ≤ n && n ≤ 0xd7a3 then hangulLetters n
  else (decompositionTable.find? n).getD [c]

/-- Puts a mark into its place among the marks before it. -/
def insertMark (c : Char) (k : Nat) : List Char → List Char
  | [] => [c]
  | d :: ds => if combiningClass d ≤ k then d :: insertMark c k ds else c :: d :: ds

/-- Canonical order: each run of marks is sorted by class, equal classes kept in order. -/
def orderMarks (run : List Char) : List Char → List Char
  | [] => run
  | c :: cs =>
    let k := combiningClass c
    if k = 0 then run ++ c :: orderMarks [] cs
    else orderMarks (insertMark c k run) cs

def composePair (a b : Char) : Option Char :=
  let x := a.toNat
  let y := b.toNat
  if 0x1100 ≤ x && x < 0x1113 && 0x1161 ≤ y && y < 0x1176 then
    some (Char.ofNat (0xac00 + ((x - 0x1100) * 21 + (y - 0x1161)) * 28))
  else if 0xac00 ≤ x && x ≤ 0xd7a3 && (x - 0xac00) % 28 = 0 && 0x11a8 ≤ y && y < 0x11c3 then
    some (Char.ofNat (x + (y - 0x11a7)))
  else
    let parts := (decompose a ++ [b]).map Char.toNat
    (compositions.find? (·.2 = parts)).map fun (composed, _) => Char.ofNat composed

/-- Composes from left to right: `starter` may still take marks, `held` are the marks after it that
it did not take, `last` is the class of the last of them. -/
def composeFrom (starter : Char) (held : List Char) (last : Nat) : List Char → List Char
  | [] => starter :: held
  | c :: cs =>
    let k := combiningClass c
    let blocked := !held.isEmpty && k ≤ last
    match if blocked then none else composePair starter c with
    | some d => composeFrom d held last cs
    | none =>
      if k = 0 then starter :: held ++ composeFrom c [] 0 cs
      else composeFrom starter (held ++ [c]) k cs

/-- Composes the part of a text that starts with a starter. -/
def compose : List Char → List Char
  | [] => []
  | c :: cs => if combiningClass c = 0 then composeFrom c [] 0 cs else c :: compose cs

def normalize (cs : List Char) : List Char :=
  if cs.all (·.toNat < 128) then cs
  else compose (orderMarks [] (cs.flatMap decompose))

end CodeAtlas.Text
