/-!
# Tables of texts

A table numbers texts in the order of their first arrival; numbers never change. Next to it stand
tables that gather entries under a key.
-/

namespace CodeAtlas

/-- Texts, numbered from zero in order of first arrival. -/
structure Table where
  items : List String := []
deriving DecidableEq, Repr, Inhabited

namespace Table

def find? (t : Table) (s : String) : Option Nat := t.items.idxOf? s

def get? (t : Table) (i : Nat) : Option String := t.items[i]?

def size (t : Table) : Nat := t.items.length

/-- Adds a text and gives its number. -/
def add (t : Table) (s : String) : Table × Nat :=
  match t.find? s with
  | some i => (t, i)
  | none => (⟨t.items ++ [s]⟩, t.size)

/-- Adds texts one after the other and gives their numbers. -/
def addAll (t : Table) : List String → Table × List Nat
  | [] => (t, [])
  | s :: ss =>
    let (t, i) := t.add s
    let (t, is) := t.addAll ss
    (t, i :: is)

end Table

/-- Entries under keys, in the order in which the keys first came. -/
abbrev Keyed (κ α : Type) := List (κ × α)

namespace Keyed

variable {κ α : Type} [DecidableEq κ]

def get? (key : κ) : Keyed κ α → Option α
  | [] => none
  | (k, a) :: rest => if k = key then some a else get? key rest

/-- Sets the entry under a key; a key that is there keeps its place. -/
def put (key : κ) (a : α) : Keyed κ α → Keyed κ α
  | [] => [(key, a)]
  | (k, b) :: rest => if k = key then (k, a) :: rest else (k, b) :: put key a rest

/-- Adds a member to the group under a key. -/
def addTo (key : κ) (a : α) : Keyed κ (List α) → Keyed κ (List α)
  | [] => [(key, [a])]
  | (k, as) :: rest => if k = key then (k, as ++ [a]) :: rest else (k, as) :: addTo key a rest

end Keyed

/-- A list of texts, and a dictionary in which their numbers are looked up. -/
structure Ledger where
  items : List String := []
  numbers : Keyed String Nat := []
deriving DecidableEq, Repr

namespace Ledger

/-- Gives the number that the dictionary has for a text; a new text is written at the end of the
list, and then into the dictionary. -/
def add (l : Ledger) (s : String) : Ledger × Nat :=
  match l.numbers.get? s with
  | some i => (l, i)
  | none =>
    let i := l.items.length
    let l := { l with items := l.items ++ [s] }
    ({ l with numbers := l.numbers.put s i }, i)

def addAll (l : Ledger) : List String → Ledger × List Nat
  | [] => (l, [])
  | s :: ss =>
    let (l, i) := l.add s
    let (l, is) := l.addAll ss
    (l, i :: is)

end Ledger

end CodeAtlas
