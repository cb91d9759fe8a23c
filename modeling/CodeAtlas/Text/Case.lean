import CodeAtlas.Text.Tables

/-!
# Upper and lower case

Case mapping of whole texts. A few characters map to several, and a Greek capital sigma at the end
of a word has a lower case of its own.
-/

namespace CodeAtlas.Text

/-- The upper case of single characters: runs `first-last/step±offset`. -/
def upperRuns : CaseRuns := CaseRuns.ofLines (characterTable 5)

/-- The characters whose upper case is several characters. -/
def upperSpecial : Mapping := Mapping.ofLines (characterTable 6)

def lowerRuns : CaseRuns := CaseRuns.ofLines (characterTable 7)

/-- The characters whose lower case is several characters. -/
def lowerSpecial : Mapping := Mapping.ofLines (characterTable 8)

def casedTable : Ranges := Ranges.ofLines (characterTable 9)

/-- The characters that do not end a word for the rule of the final sigma. -/
def caseIgnorableTable : Ranges := Ranges.ofLines (characterTable 10)

def upperChar (c : Char) : List Char :=
  if c.toNat < 128 then [c.toUpper]
  else match upperSpecial.find? c.toNat with
    | some cs => cs
    | none => [upperRuns.apply c]

/-- The lower case of a character, wherever it stands. -/
def lowerChar (c : Char) : List Char :=
  if c.toNat < 128 then [c.toLower]
  else match lowerSpecial.find? c.toNat with
    | some cs => cs
    | none => [lowerRuns.apply c]

def upper (s : String) : String := String.ofList (s.toList.flatMap upperChar)

/-- Whether the nearest character that is not ignorable has case. -/
def meetsCased (cs : List Char) : Bool :=
  match cs.dropWhile fun c => caseIgnorableTable.contains c.toNat with
  | [] => false
  | c :: _ => casedTable.contains c.toNat

/-- Lower case with the characters already passed, nearest first. -/
def lowerFrom (passed : List Char) : List Char → List Char
  | [] => []
  | c :: cs =>
    let mapped :=
      if c = 'Σ' then [if meetsCased passed && !meetsCased cs then 'ς' else 'σ']
      else lowerChar c
    mapped ++ lowerFrom (c :: passed) cs

def lower (s : String) : String := String.ofList (lowerFrom [] s.toList)

end CodeAtlas.Text
