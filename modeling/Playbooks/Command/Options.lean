import Playbooks.Text.Pieces

/-!
# Words and options of a command line

An option is written `--name`, and some also by one letter, `-n`. Its value is the next word, or is
attached: `--name=value`, `-nvalue`, `-n=value`. A word that looks like an option is never taken for a
value, and after the word `--` no word is taken for an option. Some levels of a command line end at
the name of a subcommand, whose own level takes the words that are left.

## Main definitions

* `Scan` — how far the words of one level have been read. An option counts as given only once its
  value is complete and the next option begins, so that a word which is no option at all is blamed
  before an option that lacks its value.
* `Level.scan` — reads the words of a level.
-/
namespace Playbooks

inductive OptionKind where
  /-- Takes no value and is given once. -/
  | flag
  /-- Takes a value and is given once. -/
  | single
  /-- Takes a value and can be repeated. -/
  | repeatable
  | help
  | version
deriving DecidableEq

def OptionKind.takesValue : OptionKind → Bool
  | single | repeatable => true
  | flag | help | version => false

structure OptionSpec where
  name : String
  letter : Option Char := none
  kind : OptionKind
  /-- Whether the value can be empty. -/
  mayBeEmpty : Bool := true

/-- Why a command line is not carried out. -/
inductive ArgumentError where
  /-- Help was asked for. -/
  | help
  /-- The version was asked for. -/
  | version
  /-- There is neither a subcommand nor an option. -/
  | nothingGiven
  | missingSubcommand
  | unknownSubcommand
  /-- An option that is required is missing. -/
  | missingRequired
  /-- A word is no option, no value and no subcommand. -/
  | unknownArgument
  | missingValue
  /-- A value is attached to an option that takes none. -/
  | unexpectedValue
  | repeated
deriving DecidableEq

def ArgumentError.message : ArgumentError → String
  | help => "help was asked for"
  | version => "the version was asked for"
  | nothingGiven | missingSubcommand => "a subcommand is required"
  | unknownSubcommand => "unrecognized subcommand"
  | missingRequired => "a required option was not given"
  | unknownArgument => "unexpected argument found"
  | missingValue => "a value is required for an option but none was given"
  | unexpectedValue => "unexpected value for an option that takes none"
  | repeated => "an option cannot be used multiple times"

/-- The forms of a word. -/
inductive Word where
  | separator
  | long (name : List Char) (value : Option (List Char))
  | letters (cs : List Char)
  | plain

def Word.ofChars : List Char → Word
  | ['-', '-'] => .separator
  | '-' :: '-' :: cs =>
    match Text.cut? '=' cs with
    | some (name, value) => .long name (some value)
    | none => .long cs none
  | ['-'] => .plain
  | '-' :: cs => .letters cs
  | _ => .plain

/-- The options that were given, with their values; a flag has the empty value. -/
abbrev Given := List (String × String)

/-- Counts an option as given. -/
def Given.add (given : Given) (o : OptionSpec) (value : String) : Except ArgumentError Given :=
  let put : Except ArgumentError Given :=
    if value.isEmpty && !o.mayBeEmpty then .error .missingValue
    else .ok (given ++ [(o.name, value)])
  match o.kind with
  | .help => .error .help
  | .version => .error .version
  | .repeatable => put
  | .flag | .single => if (given.lookup o.name).isSome then .error .repeated else put

structure Scan where
  given : Given := []
  /-- The option that was begun last, with its value once that is known. -/
  pending : Option (OptionSpec × Option String) := none
  /-- Whether the word `--` has passed. -/
  separated : Bool := false

namespace Scan

/-- Counts the pending option as given. -/
def settle (s : Scan) : Except ArgumentError Scan :=
  match s.pending with
  | none => .ok s
  | some (_, none) => .error .missingValue
  | some (o, some value) => do
    let given ← s.given.add o value
    pure { s with given, pending := none }

/-- Whether the next word is the value of the pending option. -/
def awaitsValue (s : Scan) : Bool :=
  match s.pending with
  | some (_, none) => true
  | _ => false

/-- An option whose value is complete. -/
def accept (s : Scan) (o : OptionSpec) (value : List Char) : Except ArgumentError Scan := do
  let s ← s.settle
  let given ← s.given.add o (String.ofList value)
  pure { s with given }

/-- An option whose value is the next word. -/
def await (s : Scan) (o : OptionSpec) : Except ArgumentError Scan := do
  let s ← s.settle
  pure { s with pending := some (o, none) }

/-- A long option. -/
def takeLong (options : List OptionSpec) (s : Scan) (name : List Char) (value : Option (List Char)) :
    Except ArgumentError Scan :=
  match options.find? (·.name == String.ofList name) with
  | none => .error .unknownArgument
  | some o =>
    match o.kind.takesValue, value with
    | true, some value => s.accept o value
    | true, none => s.await o
    | false, some _ => .error .unexpectedValue
    | false, none => s.accept o []

/-- The letters of one word: options without values, and at last perhaps one with a value. -/
def takeLetters (options : List OptionSpec) (s : Scan) : List Char → Except ArgumentError Scan
  | [] => .ok s
  | c :: cs =>
    match options.find? (·.letter == some c) with
    | none => .error .unknownArgument
    | some o =>
      match o.kind.takesValue, cs with
      | true, [] => s.await o
      | true, '=' :: value => s.accept o value
      | true, value => s.accept o value
      | false, cs => do
        let s ← s.accept o []
        takeLetters options s cs

end Scan

structure Level where
  options : List OptionSpec
  subcommands : List String := []

namespace Level

/-- What is wrong with a word that is neither an option nor a value. -/
def stray (l : Level) (s : Scan) (word : String) : ArgumentError :=
  if l.subcommands.isEmpty || (s.separated && l.subcommands.contains word) then .unknownArgument
  else .unknownSubcommand

/-- Reads words to the end, or to a subcommand, which is returned with the words after it. -/
def scan (l : Level) (s : Scan) :
    List String → Except ArgumentError (Scan × Option (String × List String))
  | [] => .ok (s, none)
  | word :: words =>
    if s.separated then .error (l.stray s word)
    else if !s.awaitsValue && l.subcommands.contains word then .ok (s, some (word, words))
    else
      match Word.ofChars word.toList with
      | .separator => l.scan { s with separated := true } words
      | .long name value => do
        let s ← s.takeLong l.options name value
        l.scan s words
      | .letters cs => do
        let s ← s.takeLetters l.options cs
        l.scan s words
      | .plain =>
        match s.pending with
        | some (o, none) => l.scan { s with pending := some (o, some word) } words
        | _ => .error (l.stray s word)

/-- The options of a level without subcommands. -/
def read (l : Level) (words : List String) : Except ArgumentError Given := do
  let (s, _) ← l.scan {} words
  let s ← s.settle
  pure s.given

end Level

/-- The option that asks for help, on every level. -/
def helpOption : OptionSpec :=
  { name := "help", letter := some 'h', kind := .help }

/-- How much is logged. -/
def logLevelOption : OptionSpec :=
  { name := "log-level", kind := .single }

def defaultLogLevel : String := "info"

end Playbooks
