import Playbooks.Build.Script.Commands

/-!
# Running scripts

The words of a command are filled in from left to right, then its outputs are redirected, and then
it is carried out. A tool whose path names an executable script is run by running the script.
-/
namespace Playbooks.Script

open ShellM

/-- Runs a text and returns what it prints. -/
abbrev Substitute := List Char → ShellM String

/-- Adds a value, split if it is not quoted. -/
def addValue (f : Fields) (isQuoted : Bool) (value : String) : Fields :=
  if isQuoted then f.append value else f.appendSplit value

def addPiece (run : Substitute) (f : Fields) : Piece → ShellM Fields
  | .plain c => pure (f.append (String.singleton c))
  | .quoted cs => pure (f.append (String.ofList cs))
  | .param "@" true => do
    let args := (← get).args
    -- Between quotes and without arguments, no word is begun.
    pure (if args.isEmpty && f.begun = some "" then { f with begun := none } else f.appendAll args)
  | .param name isQuoted => do
    pure (addValue f isQuoted (← lookup name))
  | .fallback name text isQuoted => do
    let value ← lookup name
    pure (addValue f isQuoted (if value.isEmpty then String.ofList text else value))
  | .output script isQuoted => do
    pure (addValue f isQuoted (← run script))

def addPieces (run : Substitute) (f : Fields) : List Piece → ShellM Fields
  | [] => pure f
  | piece :: pieces => do
    let f ← addPiece run f piece
    addPieces run f pieces

/-- The words that one word of a script becomes. -/
def expand (run : Substitute) (pieces : List Piece) : ShellM (List String) := do
  pure (← addPieces run {} pieces).toList

def expandAll (run : Substitute) : List (List Piece) → ShellM (List String)
  | [] => pure []
  | word :: words => do
    let first ← expand run word
    let rest ← expandAll run words
    pure (first ++ rest)

/-- The one text that a word becomes, which is not split. -/
def expandText (run : Substitute) (pieces : List Piece) : ShellM String := do
  pure (" ".intercalate (← expand run (pieces.map unsplit)))
where
  unsplit : Piece → Piece
    | .param "@" _ => .param "*" true
    | .param name _ => .param name true
    | .fallback name text _ => .fallback name text true
    | .output script _ => .output script true
    | piece => piece

/-- Redirects outputs; false if a file cannot be opened. -/
def redirect (run : Substitute) : List (Nat × Target) → ShellM Bool
  | [] => pure true
  | (n, target) :: rest => do
    let sink : Option Sink ← match target with
      | .stream m => do
        let s ← get
        pure (some (if m = 2 then s.err else s.out))
      | .file path append => do
        let path ← expandText run path
        if path = "/dev/null" then pure (some .nowhere)
        else if path = "/dev/stderr" then pure (some (← get).err)
        else
          let path ← locate path
          let files := (← get).files
          let content := if append then (files.read path).toOption.getD "" else ""
          match files.write path content with
          | .ok files =>
            modify ({ · with files })
            pure (some (.file path))
          | .error e =>
            complain ((← get).name ++ ": cannot create " ++ path ++ ": "
              ++ (if e = .isDirectory then "Is a directory" else "Directory nonexistent") ++ "\n")
            pure none
    match sink with
    | none => pure false
    | some sink =>
      modify fun s => if n = 2 then { s with err := sink } else { s with out := sink }
      redirect run rest

def assign (run : Substitute) : List (String × List Piece) → ShellM Unit
  | [] => pure ()
  | (name, value) :: rest => do
    let value ← expandText run value
    modify fun s => { s with bindings := Table.insert name value s.bindings }
    assign run rest

/-- Runs a command and returns its status. -/
def runSimple (run : Substitute) (command : Simple) : ShellM Nat := do
  modify ({ · with status := 0 })
  let words ← expandAll run command.words
  let s ← get
  if !(← redirect run command.redirections) then
    modify ({ · with out := s.out, err := s.err })
    pure (if words.isEmpty then 2 else 1)
  else
    assign run command.assignments
    let status ← match words with
      | [] => pure (← get).status
      | "exec" :: program :: args => do
        let status ← perform program args
        throw (.exit status)
      | program :: args => perform program args
    if words ≠ ["exec"] then modify ({ · with out := s.out, err := s.err })
    pure status

mutual

/-- Runs a statement. Statements that are `tested` do not end a strict script when they fail. -/
def runStatement (run : Substitute) (tested : Bool) : Statement → ShellM Unit
  | .simple command => do
    let status ← runSimple run command
    modify ({ · with status })
    if status ≠ 0 && (← get).strict && !tested then throw (.exit status)
  | .both first second => do
    runStatement run true first
    if (← get).status = 0 then runStatement run tested second
  | .either first second => do
    runStatement run true first
    if (← get).status ≠ 0 then runStatement run tested second
  | .negate statement => do
    runStatement run true statement
    modify fun s => { s with status := if s.status = 0 then 1 else 0 }
  | .branch condition yes no => do
    runStatements run true condition
    if (← get).status = 0 then runStatements run tested yes
    else
      modify ({ · with status := 0 })
      runStatements run tested no

def runStatements (run : Substitute) (tested : Bool) : List Statement → ShellM Unit
  | [] => pure ()
  | statement :: rest => do
    runStatement run tested statement
    runStatements run tested rest

end

/-- Runs steps on the side and returns what they print, without line feeds at the end. Only their
effects on files, errors and the clock stay. -/
def aside (steps : ShellM Unit) : ShellM String := do
  let before ← get
  set { before with out := .substitution, substitution := "" }
  let halt ← tryCatch (do steps; pure none) (fun halt => pure (some halt))
  let after ← get
  let status ← match halt with
    | some (.exit code) => pure code
    | some halt => throw halt
    | none => pure after.status
  set { before with files := after.files, errors := after.errors, elapsed := after.elapsed, status }
  pure (String.ofList (after.substitution.toList.reverse.dropWhile (· = '\n')).reverse)

/-- Runs a text; `fuel` bounds how deep substitutions are nested. A text that is no script ends with
the status 2. -/
def runText : (fuel : Nat) → List Char → ShellM Unit
  | 0, _ => throw (.exit 2)
  | fuel + 1, cs =>
    match statements? cs with
    | none => throw (.exit 2)
    | some statements =>
      runStatements (fun script => aside (runText fuel script)) false statements

/-- Runs a script with arguments. -/
def run (name : String) (script : List Char) (args : List String) (seconds : Option Nat)
    (files : Files) : ToolRun :=
  let start : Shell := { files, name, args, limit := seconds.map (1000 * ·) }
  let (result, final) := (do wait 0; runText (script.length + 1) script : ShellM Unit).run start
  let status := match result with
    | .ok () => some (ExitStatus.code final.status)
    | .error (.exit code) => some (.code code)
    | .error (.killed signal) => some (.signal signal)
    | .error .timeOver => none
  { status, errors := final.errors, files := final.files }

end Playbooks.Script

namespace Playbooks

/-- Files that can be started are scripts by their name, and say so in their first line. -/
def isScript (path content : String) : Bool :=
  path.endsWith ".sh" && content.startsWith "#!"

/-- The tools at hand: scripts among the files, by a path with a slash in it, and two by name. -/
def Tools.scripts : Tools := fun program args seconds files =>
  if program.contains '/' then
    match files.read program with
    | .ok content =>
      if isScript program content then some (Script.run program content.toList args seconds files)
      else none
    | .error _ => none
  else if program = "true" || program = "false" then
    some (Script.run program program.toList args seconds files)
  else none

end Playbooks
