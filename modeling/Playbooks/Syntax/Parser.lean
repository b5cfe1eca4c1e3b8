import Playbooks.Syntax.Match
import Playbooks.Syntax.Tracker
import Playbooks.Text.Blank

/-!
# Backtracking parsers

A parser reads from a cursor and either returns a value with the cursor after it, or fails. Failing
forgets the cursor, so an alternative starts where the failed one did, but the tracker of furthest
failures always goes on.
-/
namespace Playbooks

/-- What is left of a source, and how many bytes were read before it. -/
structure Cursor where
  rest : List Char
  offset : Nat := 0

/-- The cursor after `taken`, when `rest` is left. -/
def Cursor.advance (c : Cursor) (taken rest : List Char) : Cursor :=
  { rest, offset := c.offset + Text.byteSize taken }

/-- A parser of values of type `α`. -/
def Parser (α : Type) : Type :=
  Cursor → Tracker → Option (α × Cursor) × Tracker

namespace Parser

variable {α β : Type}

instance : Monad Parser where
  pure a := fun c t => (some (a, c), t)
  bind p f := fun c t =>
    match p c t with
    | (some (a, c'), t') => f a c' t'
    | (none, t') => (none, t')

/-- The second parser is tried at the same place if the first fails. -/
protected def orElse (p q : Parser α) : Parser α := fun c t =>
  match p c t with
  | (none, t') => q c t'
  | found => found

instance : OrElse (Parser α) where
  orElse p q := p.orElse (q ())

/-- Fails without a report. -/
def fail : Parser α := fun _ t => (none, t)

/-- Fails, reporting what was expected here. -/
def refuse (what : Expected) : Parser α := fun c t =>
  (none, t.fail c.offset what)

/-- A failure of the parser is reported where it started. -/
def expect (what : Expected) (p : Parser α) : Parser α := fun c t =>
  match p c t with
  | (none, t') => (none, t'.fail c.offset what)
  | found => found

/-- The offset of the cursor. -/
def offset : Parser Nat := fun c t => (some (c.offset, c), t)

/-- A character of a class. -/
def satisfy (p : Char → Bool) : Parser Char := fun c t =>
  match c.rest with
  | x :: rest => if p x then (some (x, c.advance [x] rest), t) else (none, t)
  | [] => (none, t)

/-- The next character, if there is one, is not of the class. Nothing is read. -/
def notAhead (p : Char → Bool) : Parser Unit := fun c t =>
  if c.rest.head?.any p then (none, t) else (some ((), c), t)

/-- The longest run of characters of a class. -/
def run (p : Char → Bool) : Parser (List Char) := fun c t =>
  let taken := c.rest.takeWhile p
  (some (taken, c.advance taken (c.rest.dropWhile p)), t)

/-- The longest run, which must not be empty. -/
def run1 (p : Char → Bool) : Parser (List Char) := do
  let taken ← run p
  if taken.isEmpty then fail else pure taken

/-- Exactly this text. -/
def text (word : List Char) : Parser Unit := fun c t =>
  if word.isPrefixOf c.rest then (some ((), c.advance word (c.rest.drop word.length)), t)
  else (none, t)

/-- A single character, expected by name. -/
def mark (x : Char) : Parser Unit :=
  expect (.mark x) do
    let _ ← satisfy (· == x)
    pure ()

/-- A value if the parser succeeds; a failure reads nothing. -/
def option (p : Parser α) : Parser (Option α) := fun c t =>
  match p c t with
  | (some (a, c'), t') => (some (some a, c'), t')
  | (none, t') => (some (none, c), t')

/-- At most `n` repetitions end the loop. A repetition that reads nothing fails the whole. -/
def manyUpTo (p : Parser α) : Nat → Parser (List α)
  | 0, _, t => (none, t)
  | n + 1, c, t =>
    match p c t with
    | (none, t') => (some ([], c), t')
    | (some (a, c'), t') =>
      if c'.offset ≤ c.offset then (none, t')
      else match manyUpTo p n c' t' with
        | (some (as, c''), t'') => (some (a :: as, c''), t'')
        | (none, t'') => (none, t'')

/-- As many repetitions as possible. Each of them reads at least one character, so what is left
bounds their number. -/
def many (p : Parser α) : Parser (List α) := fun c t =>
  manyUpTo p (c.rest.length + 1) c t

/-- One or more repetitions. -/
def many1 (p : Parser α) : Parser (List α) := do
  let first ← p
  let others ← many p
  pure (first :: others)

/-- The match of a rule over what a parser reads. -/
def leaf (rule : Rule) (p : Parser α) : Parser Match := do
  let start ← offset
  let _ ← p
  return .leaf rule start (← offset)

/-- The match of a rule over what a parser reads, with the children it returns. -/
def node (rule : Rule) (p : Parser (List Match)) : Parser Match := do
  let start ← offset
  let children ← p
  return .node rule start (← offset) children

end Parser

end Playbooks
