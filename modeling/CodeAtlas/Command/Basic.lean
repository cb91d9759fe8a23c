import CodeAtlas.CommandLine.Parse
import CodeAtlas.Session

/-!
# Commands

A command reads its command line and then acts on a session. It ends with an exit code: zero if it
did what it was asked for, two if the command line is wrong.
-/

namespace CodeAtlas.Command

open CodeAtlas.Action CommandLine

/-- How a command ends. -/
structure Ending where
  code : Nat
  /-- What is said about a wrong command line. -/
  complaint : String := ""
deriving DecidableEq, Repr

/-- Runs a command, which gives its exit code. -/
def run (spec : Spec) (act : Arguments → Action Nat) (args : List String) : Action Ending := do
  match spec.read args with
  | .ok a => return ⟨← act a, ""⟩
  | .error .help =>
    put spec.help
    return ⟨0, ""⟩
  | .error (.wrong message) => return ⟨2, spec.complaint message⟩

/-- The exit code of an action that handles its failures with `handle`. -/
def guarded (act : Action Nat) (handle : Failure → Action Unit) : Action Nat := do
  match ← attempt act with
  | .ok code => return code
  | .error f =>
    handle f
    return 1

/-- Prints a line and ends with exit code one. -/
def refuse (line : String) : Action Nat := do
  print line
  return 1

/-- An operand in a message. -/
def shown (a : Arguments) (name : String) : String := (a.one? name).getD "[]"

def pathAt (a : Arguments) (name : String) : Action Path :=
  match a.one? name with
  | some text => pure (Path.ofString text)
  | none => access (.error (.notPath "list"))

def formatFlag (names : List String) (help : String) : Flag := ⟨["--format"], .text names, help⟩

def lengthFlag (help : String) : Flag := ⟨["--hash-len"], .number hashLengths, help⟩

end CodeAtlas.Command
