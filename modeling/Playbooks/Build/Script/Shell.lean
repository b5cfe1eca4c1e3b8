import Playbooks.Build.Script.Syntax
import Playbooks.Build.Tool
import Playbooks.Number.Reader
import Playbooks.Table

/-!
# The state of a running script

A script works on files, writes to outputs, and takes time only where it sleeps. It halts when it
exits, when it is killed, or when its time is over.
-/
namespace Playbooks.Script

/-- Where an output goes. -/
inductive Sink where
  | nowhere
  /-- What is reported when the script has ended. -/
  | errors
  /-- What is substituted for a command. -/
  | substitution
  | file (path : String)
deriving DecidableEq

inductive Halt where
  | exit (code : Nat)
  | killed (signal : Nat)
  | timeOver

structure Shell where
  files : Files
  /-- What went to the errors so far. -/
  errors : String := ""
  /-- What is to be substituted so far. -/
  substitution : String := ""
  bindings : Table String := []
  name : String
  args : List String
  /-- The directory that paths start from, empty for the working directory. -/
  directory : String := ""
  /-- How the last command ended. -/
  status : Nat := 0
  /-- Milliseconds since the start. -/
  elapsed : Nat := 0
  /-- Milliseconds after which the script is stopped. -/
  limit : Option Nat := none
  /-- Whether a command that fails ends the script. -/
  strict : Bool := false
  out : Sink := .nowhere
  err : Sink := .errors

abbrev ShellM := ExceptT Halt (StateM Shell)

namespace ShellM

/-- A path as the files know it. -/
def locate (path : String) : ShellM String := do
  let dir := (← get).directory
  pure (if dir.isEmpty then path else dir ++ "/" ++ path)

/-- Writes to a sink. -/
def writeTo (sink : Sink) (text : String) : ShellM Unit :=
  modify fun s =>
    match sink with
    | .nowhere => s
    | .errors => { s with errors := s.errors ++ text }
    | .substitution => { s with substitution := s.substitution ++ text }
    | .file path =>
      match s.files.write path ((s.files.read path).toOption.getD "" ++ text) with
      | .ok files => { s with files }
      | .error _ => s

def print (text : String) : ShellM Unit := do
  writeTo (← get).out text

def complain (text : String) : ShellM Unit := do
  writeTo (← get).err text

/-- Changes files; a failure is reported. -/
def change (f : Files → Except FileError Files) (complaint : FileError → String) : ShellM Nat := do
  match f (← get).files with
  | .ok files =>
    modify ({ · with files })
    pure 0
  | .error e =>
    complain (complaint e ++ "\n")
    pure 1

/-- Lets time pass. -/
def wait (milliseconds : Nat) : ShellM Unit := do
  let s ← get
  let elapsed := s.elapsed + milliseconds
  set { s with elapsed }
  match s.limit with
  | some limit => if limit ≤ elapsed then throw .timeOver
  | none => pure ()

/-- The number that `$$` stands for. -/
def processId : String := "2"

/-- The value of a variable or of a special name. -/
def lookup (name : String) : ShellM String := do
  let s ← get
  match name with
  | "#" => pure (toString s.args.length)
  | "?" => pure (toString s.status)
  | "$" => pure processId
  | "0" => pure s.name
  | "@" | "*" => pure (" ".intercalate s.args)
  | name =>
    match readNat name.toList with
    | some n => pure (s.args.getD (n - 1) "")
    | none => pure ((Table.get? name s.bindings).getD "")

end ShellM

/-! ## Fields -/

/-- Words that are being put together: those that are complete, and the one that is begun. -/
structure Fields where
  complete : List String := []
  begun : Option String := none

namespace Fields

/-- Goes on with the word that is begun, or begins one. -/
def append (f : Fields) (text : String) : Fields :=
  { f with begun := some (f.begun.getD "" ++ text) }

/-- Ends the word that is begun. -/
def close (f : Fields) : Fields :=
  match f.begun with
  | some word => { complete := f.complete ++ [word] }
  | none => f

/-- Goes on with a text that is split at blanks. -/
def appendSplit (f : Fields) (text : String) : Fields :=
  text.toList.foldl (fun f c =>
    if c = ' ' || c = '\t' || c = '\n' then f.close else f.append (String.singleton c)) f

/-- Goes on with several words: the first joins the word that is begun. -/
def appendAll (f : Fields) : List String → Fields
  | [] => f
  | [word] => f.append word
  | word :: words => (f.append word).close.appendAll words

def toList (f : Fields) : List String :=
  f.close.complete

end Fields

end Playbooks.Script
