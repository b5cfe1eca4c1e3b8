import Playbooks.Text.Pieces

/-!
# Scripts

The part of the shell's command language that build scripts use: commands with arguments, variables,
quotes, substituted output and redirections, joined by `;`, `&&` and `||`, and chosen by `if`.

A substituted command is kept as text and read when it is run; it is shorter than the text it stands
in.

## Main definitions

* `Piece`, `Statement` — words and statements.
* `tokens?` — the words and marks of a text.
* `statements?` — the statements of a text.
-/
namespace Playbooks.Script

/-- A part of a word. What is quoted is not split at blanks when it is filled in. -/
inductive Piece where
  | plain (c : Char)
  | quoted (cs : List Char)
  | param (name : String) (isQuoted : Bool)
  /-- A variable, or a text if it is empty. -/
  | fallback (name : String) (text : List Char) (isQuoted : Bool)
  | output (script : List Char) (isQuoted : Bool)
deriving DecidableEq

/-- Where output goes: a file, begun anew or added to, or where another output goes. -/
inductive Target where
  | file (path : List Piece) (append : Bool)
  | stream (n : Nat)
deriving DecidableEq

inductive Token where
  | word (pieces : List Piece)
  | stop
  | both
  | either
  /-- Output `n` goes to a file, whose name follows. -/
  | toFile (n : Nat) (append : Bool)
  /-- Output `n` goes where output `m` goes. -/
  | toStream (n m : Nat)
  /-- Input comes from a file, whose name follows. -/
  | input
deriving DecidableEq

/-- A command with its arguments. -/
structure Simple where
  /-- Variables that are set. -/
  assignments : List (String × List Piece) := []
  words : List (List Piece) := []
  redirections : List (Nat × Target) := []

inductive Statement where
  | simple (command : Simple)
  | both (first second : Statement)
  | either (first second : Statement)
  | negate (statement : Statement)
  | branch (condition yes no : List Statement)

/-! ## Words -/

/-- Characters that end a word. -/
def endsWord (c : Char) : Bool :=
  [' ', '\t', '\n', '\r', ';', '&', '|', '<', '>', '(', ')'].contains c

def isNameStart (c : Char) : Bool :=
  c.isAlpha || c = '_'

def isNameChar (c : Char) : Bool :=
  c.isAlphanum || c = '_'

/-- What a closing parenthesis is looked for in. -/
inductive Context where
  | parens
  | single
  | double
deriving DecidableEq

/-- The text up to the parenthesis that closes a substitution, and what follows it. -/
def takeScript : List Context → List Char → Option (List Char × List Char)
  | _, [] => none
  | contexts, '\\' :: c :: cs =>
    if contexts.head? = some .single then push '\\' (takeScript contexts (c :: cs))
    else push '\\' (push c (takeScript contexts cs))
  | contexts, c :: cs =>
    match contexts, c with
    | .single :: outer, '\x27' => push c (takeScript outer cs)
    | .single :: _, _ => push c (takeScript contexts cs)
    | .double :: outer, '\x22' => push c (takeScript outer cs)
    | .parens :: _, '\x22' => push c (takeScript (.double :: contexts) cs)
    | .parens :: _, '\x27' => push c (takeScript (.single :: contexts) cs)
    | .parens :: [], ')' => some ([], cs)
    | .parens :: outer, ')' => push c (takeScript outer cs)
    | _, '(' => push c (takeScript (.parens :: contexts) cs)
    | _, _ => push c (takeScript contexts cs)
where
  push (c : Char) (taken : Option (List Char × List Char)) : Option (List Char × List Char) :=
    taken.map fun (s, rest) => (c :: s, rest)

/-- What a dollar sign stands for, and what follows it. -/
def readDollar (isQuoted : Bool) (cs : List Char) : Option (Piece × List Char) :=
  match cs with
  | '(' :: cs => (takeScript [.parens] cs).map fun (s, rest) => (.output s isQuoted, rest)
  | '\x7b' :: cs => do
    let (inside, rest) ← Text.cut? '\x7d' cs
    match Text.cut? ':' inside with
    | some (name, '-' :: text) => some (.fallback (String.ofList name) text isQuoted, rest)
    | some _ => none
    | none => some (.param (String.ofList inside) isQuoted, rest)
  | c :: rest =>
    if isNameStart c then
      some (.param (String.ofList (cs.takeWhile isNameChar)) isQuoted, cs.dropWhile isNameChar)
    else if c.isDigit || ['@', '*', '#', '?', '$'].contains c then
      some (.param (String.singleton c) isQuoted, rest)
    else some (.quoted ['$'], cs)
  | [] => some (.quoted ['$'], [])

/-- The pieces up to a closing double quote, and what follows it; `fuel` bounds the pieces. -/
def readDouble : (fuel : Nat) → List Char → Option (List Piece × List Char)
  | 0, _ => none
  | fuel + 1, cs =>
    match cs with
    | [] => none
    | '\x22' :: rest => some ([], rest)
    | '\\' :: '\n' :: rest => readDouble fuel rest
    | '\\' :: c :: rest => do
      let escaped := if ['$', '\x22', '\\', '\x60'].contains c then [c] else ['\\', c]
      let (pieces, rest) ← readDouble fuel rest
      pure (.quoted escaped :: pieces, rest)
    | '$' :: rest => do
      let (piece, rest) ← readDollar true rest
      let (pieces, rest) ← readDouble fuel rest
      pure (piece :: pieces, rest)
    | c :: rest => do
      let (pieces, rest) ← readDouble fuel rest
      pure (.quoted [c] :: pieces, rest)

/-- The pieces of a word, and what follows it; `fuel` bounds the pieces. -/
def readWord : (fuel : Nat) → List Char → Option (List Piece × List Char)
  | 0, _ => none
  | fuel + 1, cs =>
    match cs with
    | [] => some ([], [])
    | '\\' :: '\n' :: rest => readWord fuel rest
    | '\\' :: c :: rest => do
      let (pieces, rest) ← readWord fuel rest
      pure (.quoted [c] :: pieces, rest)
    | '\x27' :: rest => do
      let (s, rest) ← Text.cut? '\x27' rest
      let (pieces, rest) ← readWord fuel rest
      pure (.quoted s :: pieces, rest)
    | '\x22' :: rest => do
      let (inside, rest) ← readDouble fuel rest
      let (pieces, rest) ← readWord fuel rest
      pure (.quoted [] :: inside ++ pieces, rest)
    | '$' :: rest => do
      let (piece, rest) ← readDollar false rest
      let (pieces, rest) ← readWord fuel rest
      pure (piece :: pieces, rest)
    | c :: rest =>
      if endsWord c then some ([], cs)
      else do
        let (pieces, rest) ← readWord fuel rest
        pure (.plain c :: pieces, rest)

/-! ## Tokens -/

/-- The number in front of a redirection, if the text is one. -/
def redirection? (cs : List Char) : Option (Token × List Char) :=
  let (n, cs) := match cs with
    | '1' :: '>' :: rest => (1, '>' :: rest)
    | '2' :: '>' :: rest => (2, '>' :: rest)
    | cs => (1, cs)
  match cs with
  | '>' :: '&' :: '1' :: rest => some (.toStream n 1, rest)
  | '>' :: '&' :: '2' :: rest => some (.toStream n 2, rest)
  | '>' :: '>' :: rest => some (.toFile n true, rest)
  | '>' :: rest => some (.toFile n false, rest)
  | '<' :: rest => some (.input, rest)
  | _ => none

/-- The tokens of a text; `fuel` bounds their number. -/
def tokensWithin : (fuel : Nat) → List Char → Option (List Token)
  | 0, _ => none
  | fuel + 1, cs =>
    match cs with
    | [] => some []
    | '\\' :: '\n' :: rest => tokensWithin fuel rest
    | '#' :: rest => tokensWithin fuel (rest.dropWhile (· ≠ '\n'))
    | '&' :: '&' :: rest => (tokensWithin fuel rest).map (.both :: ·)
    | '|' :: '|' :: rest => (tokensWithin fuel rest).map (.either :: ·)
    | c :: rest =>
      if c = ' ' || c = '\t' then tokensWithin fuel rest
      else if c = '\n' || c = ';' then (tokensWithin fuel rest).map (.stop :: ·)
      else
        match redirection? cs with
        | some (token, rest) => (tokensWithin fuel rest).map (token :: ·)
        | none =>
          if endsWord c then none
          else do
            let (pieces, rest) ← readWord (cs.length + 1) cs
            let tokens ← tokensWithin fuel rest
            pure (.word pieces :: tokens)

/-- The tokens of a text. Each takes a character at least. -/
def tokens? (cs : List Char) : Option (List Token) :=
  tokensWithin (cs.length + 1) cs

/-! ## Statements -/

/-- The text of a word without quotes and substitutions. -/
def literal? (pieces : List Piece) : Option String := do
  let cs ← pieces.mapM fun piece => match piece with
    | .plain c => some c
    | _ => none
  pure (String.ofList cs)

/-- Whether a token is a given word. -/
def Token.isWord (t : Token) (text : String) : Bool :=
  match t with
  | .word pieces => literal? pieces == some text
  | _ => false

/-- The variable that a word sets, and the value. -/
def assignment? (pieces : List Piece) : Option (String × List Piece) :=
  let name := pieces.takeWhile fun piece => match piece with
    | .plain c => isNameChar c
    | _ => false
  match literal? name, pieces.drop name.length with
  | some text, .plain '=' :: value =>
    if (text.toList.head?.map isNameStart).getD false then some (text, value) else none
  | _, _ => none

/-- A command up to the token that ends it, and what follows it. -/
def readSimple (command : Simple) : List Token → Option (Simple × List Token)
  | .word pieces :: rest =>
    match assignment? pieces, command.words with
    | some assignment, [] =>
      readSimple { command with assignments := command.assignments ++ [assignment] } rest
    | _, words => readSimple { command with words := words ++ [pieces] } rest
  | .toFile n append :: .word path :: rest =>
    readSimple { command with
      redirections := command.redirections ++ [(n, .file path append)] } rest
  | .toStream n m :: rest =>
    readSimple { command with redirections := command.redirections ++ [(n, .stream m)] } rest
  | .input :: .word _ :: rest => readSimple command rest
  | .toFile .. :: _ | .input :: _ => none
  | rest => some (command, rest)

mutual

/-- Statements up to a word that ends them, and what follows from that word on. -/
def readList : (fuel : Nat) → (ends : List String) → List Token →
    Option (List Statement × List Token)
  | 0, _, _ => none
  | fuel + 1, ends, tokens =>
    match tokens with
    | [] => some ([], [])
    | .stop :: rest => readList fuel ends rest
    | token :: rest =>
      if ends.any token.isWord then some ([], token :: rest)
      else do
        let (statement, rest) ← readChain fuel (token :: rest)
        match rest with
        | [] | .stop :: _ =>
          let (statements, rest) ← readList fuel ends rest
          pure (statement :: statements, rest)
        | _ => none

/-- Statements joined by `&&` and `||`, from left to right. -/
def readChain : (fuel : Nat) → List Token → Option (Statement × List Token)
  | 0, _ => none
  | fuel + 1, tokens => do
    let (first, rest) ← readOne fuel tokens
    joinChain fuel first rest

def joinChain : (fuel : Nat) → Statement → List Token → Option (Statement × List Token)
  | 0, _, _ => none
  | fuel + 1, first, tokens =>
    match tokens with
    | .both :: rest => do
      let (second, rest) ← readOne fuel (rest.dropWhile (· = .stop))
      joinChain fuel (.both first second) rest
    | .either :: rest => do
      let (second, rest) ← readOne fuel (rest.dropWhile (· = .stop))
      joinChain fuel (.either first second) rest
    | rest => some (first, rest)

/-- One command or one choice. -/
def readOne : (fuel : Nat) → List Token → Option (Statement × List Token)
  | 0, _ => none
  | fuel + 1, tokens =>
    match tokens with
    | [] => none
    | token :: rest =>
      if token.isWord "if" then readBranch fuel rest
      else if token.isWord "!" then do
        let (statement, rest) ← readOne fuel rest
        pure (.negate statement, rest)
      else do
        let (command, rest) ← readSimple {} tokens
        if command.words.isEmpty && command.assignments.isEmpty && command.redirections.isEmpty
        then none else pure (.simple command, rest)

/-- What follows `if`. -/
def readBranch : (fuel : Nat) → List Token → Option (Statement × List Token)
  | 0, _ => none
  | fuel + 1, tokens => do
    let (condition, rest) ← readList fuel ["then"] tokens
    let (yes, rest) ← readList fuel ["elif", "else", "fi"] (rest.drop 1)
    match rest with
    | token :: rest =>
      if token.isWord "fi" then pure (.branch condition yes [], rest)
      else if token.isWord "else" then do
        let (no, rest) ← readList fuel ["fi"] rest
        match rest with
        | _ :: rest => pure (.branch condition yes no, rest)
        | [] => none
      else do
        let (no, rest) ← readBranch fuel rest
        pure (.branch condition yes [no], rest)
    | [] => none

end

/-- The statements of a text. Each step of the reading takes a token at least or goes one of four
levels down. -/
def statements? (cs : List Char) : Option (List Statement) := do
  let tokens ← tokens? cs
  let (statements, _) ← readList (5 * tokens.length + 5) [] tokens
  pure statements

end Playbooks.Script
