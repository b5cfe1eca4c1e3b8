import Playbooks.Build.Script.Shell

/-!
# Commands of scripts

What each command does with its arguments, and the status it ends with.
-/
namespace Playbooks.Script

open ShellM

/-- Reads the escapes in a text. -/
def unescape : List Char → List Char
  | '\\' :: 'n' :: cs => '\n' :: unescape cs
  | '\\' :: 't' :: cs => '\t' :: unescape cs
  | '\\' :: 'r' :: cs => '\r' :: unescape cs
  | '\\' :: '\\' :: cs => '\\' :: unescape cs
  | c :: cs => c :: unescape cs
  | [] => []

/-- The text that a format gives with arguments, and the arguments that are left. -/
def format : List Char → List String → List Char × List String
  | '%' :: '%' :: cs, args =>
    let (text, rest) := format cs args
    ('%' :: text, rest)
  | '%' :: c :: cs, args =>
    if c = 's' || c = 'd' || c = 'i' || c = 'b' then
      let (text, rest) := format cs (args.drop 1)
      ((args.headD (if c = 's' || c = 'b' then "" else "0")).toList ++ text, rest)
    else
      let (text, rest) := format cs args
      ('%' :: c :: text, rest)
  | c :: cs, args =>
    let (text, rest) := format cs args
    (c :: text, rest)
  | [], args => ([], args)

/-- Uses a format again as long as it takes arguments; `fuel` bounds how often. -/
def formatAll : (fuel : Nat) → List Char → List String → List Char
  | 0, _, _ => []
  | fuel + 1, cs, args =>
    let (text, rest) := format cs args
    if rest.isEmpty || rest.length = args.length then text else text ++ formatAll fuel cs rest

/-- A path without the slashes at its end. -/
def withoutSlashes (cs : List Char) : List Char :=
  (cs.reverse.dropWhile (· = '/')).reverse

/-- The directory of a path. -/
def dirname (path : String) : String :=
  let cs := withoutSlashes path.toList
  let dir := (cs.reverse.dropWhile (· ≠ '/')).reverse
  if dir.isEmpty then (if cs.isEmpty && !path.isEmpty then "/" else ".")
  else
    match withoutSlashes dir with
    | [] => "/"
    | dir => String.ofList dir

/-- The last name of a path. -/
def basename (path : String) : String :=
  String.ofList ((withoutSlashes path.toList).reverse.takeWhile (· ≠ '/')).reverse

/-- Seconds with decimals, in milliseconds. -/
def milliseconds (text : String) : Nat :=
  match Text.cut? '.' text.toList with
  | some (whole, fraction) =>
    1000 * (readNat whole).getD 0 + (readNat ((fraction ++ ['0', '0', '0']).take 3)).getD 0
  | none => 1000 * (readNat text.toList).getD 0

/-- The signal that an option names, by its number or its name. -/
def signal? (text : String) : Option Nat :=
  match readNat text.toList with
  | some n => some n
  | none => (ExitStatus.signalNames.find? fun (_, name) => name = text || name = "SIG" ++ text).map
      Prod.fst

/-- The signal and the processes of a `kill`. -/
def killed : List String → Option (Nat × List String)
  | "-s" :: name :: ids => (signal? name).map fun n => (n, ids)
  | option :: ids =>
    match option.toList with
    | '-' :: name => (signal? (String.ofList name)).map fun n => (n, ids)
    | _ => some (15, option :: ids)
  | [] => none

/-- Whether a condition holds. -/
def holds (files : Files) (path : String → String) : List String → Bool
  | "!" :: condition => !holds files path condition
  | ["-f", p] => files.isFile (path p)
  | ["-d", p] => files.isDirectory (path p)
  | ["-e", p] => files.contains (path p)
  | ["-n", s] => !s.isEmpty
  | ["-z", s] => s.isEmpty
  | [a, "=", b] => a = b
  | [a, "!=", b] => a ≠ b
  | [a, "-eq", b] => readInt a.toList = readInt b.toList
  | [a, "-ne", b] => readInt a.toList ≠ readInt b.toList
  | [s] => !s.isEmpty
  | _ => false

/-- Arguments that are no options. -/
def operands (args : List String) : List String :=
  args.filter fun arg => arg.toList.head? ≠ some '-'

/-- Carries out a command for each of several arguments, and fails if one fails. -/
def forEach (command : String → ShellM Nat) : List String → ShellM Nat
  | [] => pure 0
  | arg :: args => do
    let first ← command arg
    let rest ← forEach command args
    pure (max first rest)

def makeDir (args : List String) : ShellM Nat :=
  forEach (fun path => do
    let place ← locate path
    let parents := args.contains "-p"
    change (fun files =>
      if parents then files.makeDirs place
      else if files.contains place then .error .occupied
      else if files.isDirectory (dirname place) then files.makeDirs place
      else .error .notFound)
      fun e => "mkdir: cannot create directory '" ++ path ++ "': "
        ++ (e.message.takeWhile (· ≠ '(')).trimAscii.toString) (operands args)

def copyFile : List String → ShellM Nat
  | [source, target] => do
    let source' ← locate source
    let target' ← locate target
    let inside := (← get).files.isDirectory target'
    let target' := if inside then target' ++ "/" ++ basename source else target'
    change (·.copy source' target') fun _ => "cp: cannot copy '" ++ source ++ "'"
  | _ => pure 1

def showFile (path : String) : ShellM Nat := do
  match (← get).files.read (← locate path) with
  | .ok text =>
    print text
    pure 0
  | .error e =>
    complain ("cat: " ++ path ++ ": " ++ (e.message.takeWhile (· ≠ '(')).trimAscii.toString ++ "\n")
    pure 1

def touchFile (path : String) : ShellM Nat := do
  let place ← locate path
  if (← get).files.contains place then pure 0
  else change (·.write place "") fun _ => "touch: cannot touch '" ++ path ++ "'"

def changeDir (path : String) : ShellM Nat := do
  let place ← locate path
  if (← get).files.isDirectory place then
    modify ({ · with directory := place })
    pure 0
  else
    complain ("cd: can't cd to " ++ path ++ "\n")
    pure 2

def kill (args : List String) : ShellM Nat := do
  match killed args with
  | some (signal, ids) => if ids.contains processId then throw (.killed signal) else pure 1
  | none => pure 2

/-- Tells by its status whether a condition holds. -/
def check (condition : List String) : ShellM Nat := do
  let s ← get
  let path := fun p => if s.directory.isEmpty then p else s.directory ++ "/" ++ p
  pure (if holds s.files path condition then 0 else 1)

/-- Carries out a command. -/
def perform (command : String) (args : List String) : ShellM Nat := do
  match command with
  | "true" | ":" | "chmod" | "export" | "umask" => pure 0
  | "false" => pure 1
  | "echo" =>
    let (words, final) := match args with
      | "-n" :: words => (words, "")
      | words => (words, "\n")
    print (String.ofList (unescape (" ".intercalate words).toList) ++ final)
    pure 0
  | "printf" =>
    match args with
    | text :: args =>
      print (String.ofList (formatAll (args.length + 1) (unescape text.toList) args))
      pure 0
    | [] => pure 2
  | "cat" => forEach showFile (operands args)
  | "touch" => forEach touchFile (operands args)
  | "mkdir" => makeDir args
  | "cp" => copyFile (operands args)
  | "dirname" =>
    print (dirname (args.headD "") ++ "\n")
    pure 0
  | "basename" =>
    print (basename (args.headD "") ++ "\n")
    pure 0
  | "cd" => changeDir (args.headD "")
  | "sleep" =>
    wait (milliseconds (args.headD "0"))
    pure 0
  | "kill" => kill args
  | "exit" =>
    let status := (← get).status
    let code := (args.head?.map fun text => (readNat text.toList).getD 2).getD status
    throw (.exit (code % 256))
  | "shift" =>
    modify fun s => { s with args := s.args.drop 1 }
    pure 0
  | "set" =>
    if args.any fun arg => arg.toList.head? = some '-' && arg.toList.contains 'e' then
      modify ({ · with strict := true })
    pure 0
  | "test" => check args
  | "[" => check args.dropLast
  | command =>
    complain ((← get).name ++ ": " ++ command ++ ": not found\n")
    pure 127

end Playbooks.Script
