import Playbooks.Command.Options

/-!
# The compiler's command line

`check` looks at a playbook, `compile` emits its program and builds it. The settings file and the log
level can be given before and after the subcommand; after it they count more.
-/
namespace Playbooks

inductive Command where
  | check (playbook : String)
  | compile (playbook output : String) (build : Bool)
deriving DecidableEq

def Command.playbook : Command → String
  | check playbook => playbook
  | compile playbook _ _ => playbook

structure CommandLine where
  command : Command
  settings : Option String := none
  logLevel : String := defaultLogLevel
deriving DecidableEq

namespace CommandLine

/-- Options that are understood on both levels. -/
def sharedOptions : List OptionSpec :=
  [{ name := "config", letter := some 'c', kind := .single }, logLevelOption, helpOption]

def topLevel : Level where
  options := { name := "version", letter := some 'V', kind := .version } :: sharedOptions
  subcommands := ["compile", "check", "help"]

def playbookOption : OptionSpec :=
  { name := "playbook", letter := some 'p', kind := .single }

def checkLevel : Level where
  options := playbookOption :: sharedOptions

def compileLevel : Level where
  options :=
    [playbookOption, { name := "output", letter := some 'o', kind := .single },
      { name := "no-build", kind := .flag }] ++ sharedOptions

/-- What `help` with further words answers. -/
def helpOn : List String → ArgumentError
  | [] => .help
  | [name] => if topLevel.subcommands.contains name then .help else .unknownSubcommand
  | _ => .unknownSubcommand

def required (given : Given) (name : String) : Except ArgumentError String :=
  match given.lookup name with
  | some value => .ok value
  | none => .error .missingRequired

/-- The command that a subcommand and its words stand for, and the options of its level. -/
def readCommand (subcommand : String) (words : List String) :
    Except ArgumentError (Command × Given) := do
  match subcommand with
  | "check" =>
    let given ← checkLevel.read words
    pure (.check (← required given "playbook"), given)
  | "compile" =>
    let given ← compileLevel.read words
    let playbook ← required given "playbook"
    let output := (given.lookup "output").getD "playbook"
    pure (.compile playbook output (given.lookup "no-build").isNone, given)
  | _ => throw (helpOn words)

/-- Reads the words of a command line, without the name of the program. The level of the subcommand
is settled before the top level. -/
def read (words : List String) : Except ArgumentError CommandLine := do
  let (s, subcommand) ← topLevel.scan {} words
  match subcommand with
  | none =>
    let s ← s.settle
    throw (if s.given.isEmpty then .nothingGiven else .missingSubcommand)
  | some (name, rest) =>
    let (command, given) ← readCommand name rest
    let s ← s.settle
    let all := given ++ s.given
    pure {
      command
      settings := all.lookup "config"
      logLevel := (all.lookup "log-level").getD defaultLogLevel }

end CommandLine

end Playbooks
