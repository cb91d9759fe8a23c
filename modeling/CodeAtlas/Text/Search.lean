/-!
# Searching and replacing in texts
-/

namespace CodeAtlas.Text

def occursIn (pat : List Char) : List Char → Bool
  | [] => pat.isEmpty
  | c :: cs => pat.isPrefixOf (c :: cs) || occursIn pat cs

def contains (s pat : String) : Bool := occursIn pat.toList s.toList

/-- Replaces the occurrences of `pat` from left to right; the first argument counts the characters
of an occurrence that are still to be passed over. -/
def replaceFrom (pat new : List Char) : Nat → List Char → List Char
  | _, [] => []
  | 0, c :: cs =>
    if pat.isPrefixOf (c :: cs) then new ++ replaceFrom pat new (pat.length - 1) cs
    else c :: replaceFrom pat new 0 cs
  | skip + 1, _ :: cs => replaceFrom pat new skip cs

/-- Replaces every occurrence of `pat`, from left to right and without overlap. -/
def replaceAll (s pat new : String) : String :=
  String.ofList (replaceFrom pat.toList new.toList 0 s.toList)

def startsWith (s lead : String) : Bool := lead.toList.isPrefixOf s.toList

def endsWith (s tail : String) : Bool := tail.toList.isSuffixOf s.toList

def join (sep : String) (parts : List String) : String := sep.intercalate parts

end CodeAtlas.Text
