import Playbooks.Syntax.Parser

/-!
# The grammar of playbooks

Rules are ordered choices. Values and blocks nest up to `maxNesting` levels; every cycle of the
grammar passes through `value`, `sum` or `block`, each of which spends one level, so the remaining
budget of levels is what the recursion descends on.
-/
namespace Playbooks.Grammar

open Playbooks.Parser

/-- Deepest nesting of values and blocks. -/
def maxNesting : Nat := 64

/-! ## Layout -/

/-- Drops blanks and comments. A comment starts at `#` and ends before the next line break. -/
def skipLayout (inComment : Bool) : List Char → Nat → Cursor
  | [], offset => ⟨[], offset⟩
  | c :: cs, offset =>
    if inComment && c != '\n' then skipLayout true cs (offset + c.utf8Size)
    else if Text.isBlank c then skipLayout false cs (offset + c.utf8Size)
    else if c == '#' then skipLayout true cs (offset + c.utf8Size)
    else ⟨c :: cs, offset⟩

/-- Any amount of layout, none included. -/
def layout : Parser Unit := fun c t =>
  (some ((), skipLayout false c.rest c.offset), t)

/-- The parser, then layout. -/
def lexeme {α : Type} (p : Parser α) : Parser α := do
  let a ← p
  layout
  pure a

/-! ## Words -/

def isLetter (c : Char) : Bool :=
  c.isAlpha

def isIdentChar (c : Char) : Bool :=
  c.isAlphanum || c == '-'

def isSegmentChar (c : Char) : Bool :=
  c.isAlphanum || c == '-' || c == '_'

/-- Characters of a bracketed sentence. -/
def isSentenceChar (c : Char) : Bool :=
  c != ']' && c != '\n' && c != '\r' && c != '#'

/-- A word that does not run on into an identifier. -/
def keyword (word : String) : Parser Unit :=
  expect (.word word) do
    text word.toList
    notAhead isIdentChar

/-- A letter, then letters, digits and hyphens. -/
def ident : Parser Match :=
  leaf .ident (expect .ident do
    let _ ← satisfy isLetter
    run isIdentChar)

/-- Text between single quotes, on one line and without escapes. -/
def string : Parser Match :=
  leaf .string do
    let _ ← expect .string (satisfy (· == '\x27'))
    let _ ← run fun c => c != '\x27' && c != '\n'
    expect .closingQuote (satisfy (· == '\x27'))

/-- Digits with an optional minus and an optional fraction, not followed by a word. -/
def number : Parser Match :=
  leaf .number do
    let _ ← option (satisfy (· == '-'))
    let _ ← expect .number (run1 Char.isDigit)
    let _ ← option do
      let _ ← satisfy (· == '.')
      run1 Char.isDigit
    notAhead fun c => c.isAlphanum || c == '_'

def bool : Parser Match :=
  leaf .bool (keyword "true" <|> keyword "false")

/-- Text up to a closing bracket, without blanks at its ends. -/
def sentence : Parser Match :=
  leaf .sentence (expect .sentence do
    let cs ← run1 isSentenceChar
    if Text.isTrimmed cs then pure () else fail)

/-! ## Values -/

/-- A comma, then layout. -/
def comma : Parser Unit :=
  lexeme (mark ',')

/-- Elements separated by commas. -/
def separated (element : Parser Match) : Parser (List Match) := do
  match ← option (lexeme element) with
  | none => pure []
  | some first =>
    let others ← many do
      comma
      lexeme element
    pure (first :: others)

/-- Values and a comma after the last of them, up to a closing mark. The comma stands there also if
there is no value. -/
def listUpTo (close : Char) (value : Parser Match) : Parser (List Match) := do
  let items ← separated value
  comma
  mark close
  pure items

def array (value : Parser Match) : Parser Match :=
  node .array do
    lexeme (mark '[')
    listUpTo ']' value

/-- A key, a colon and a value. -/
def pair (value : Parser Match) : Parser Match :=
  node .pair do
    let key ← ident <|> string
    layout
    lexeme (mark ':')
    let content ← value
    pure [key, content]

/-- Pairs in braces; the comma after the last one may be left out. -/
def object (value : Parser Match) : Parser Match :=
  node .object do
    lexeme (mark '\x7b')
    let pairs ← separated (pair value)
    if !pairs.isEmpty then
      let _ ← option comma
    mark '\x7d'
    pure pairs

/-- A function name and its arguments. -/
def call (value : Parser Match) : Parser Match :=
  node .call do
    let name ← ident
    lexeme (mark '(')
    let args ← listUpTo ')' value
    pure (name :: args)

def dotSegment : Parser Match := do
  mark '.'
  leaf .indexSegment (expect .indexSegment (run1 isSegmentChar))

def bracketSegment : Parser Match := do
  mark '['
  let segment ← sentence
  mark ']'
  pure segment

/-- A name and at least one segment. -/
def index : Parser Match :=
  node .index do
    let head ← ident
    let segments ← many1 (dotSegment <|> bracketSegment)
    pure (head :: segments)

/-- One of the operators, with layout before and after it. -/
def operator (isOperator : Char → Bool) : Parser Match := do
  layout
  let sign ← leaf .operator (satisfy isOperator)
  layout
  pure sign

/-- Operands with operators between them. A single operand is returned as it is. -/
def chain (rule : Rule) (isOperator : Char → Bool) (operand : Parser Match) : Parser Match := do
  let start ← offset
  let first ← operand
  let others ← many do
    let sign ← operator isOperator
    let next ← operand
    pure [sign, next]
  let stop ← offset
  if others.isEmpty then pure first else pure (.node rule start stop (first :: others.flatten))

/-- A sum in parentheses stands for itself. -/
def group (sum : Parser Match) : Parser Match := do
  lexeme (mark '(')
  let inner ← sum
  layout
  mark ')'
  pure inner

def atom (value sum : Parser Match) : Parser Match :=
  number <|> group sum <|> call value <|> index

def product (value sum : Parser Match) : Parser Match :=
  chain .product (fun c => c == '*' || c == '/') (atom value sum)

mutual

/-- Any value. Calls, index expressions and numbers are sums of a single operand. -/
def value : (budget : Nat) → Parser Match
  | 0, c, t => refuse .shallowerNesting c t
  | n + 1, c, t =>
    (array (value n) <|> bool <|> sum n <|> object (value n) <|> string) c t

/-- Products with `+` and `-` between them. -/
def sum : (budget : Nat) → Parser Match
  | 0, c, t => refuse .shallowerNesting c t
  | n + 1, c, t =>
    chain .sum (fun c => c == '+' || c == '-') (product (value n) (sum n)) c t

end

/-! ## Blocks -/

/-- A label, a description and at least one pair. -/
def simpleBlock (value : Parser Match) : Parser Match :=
  node .simpleBlock do
    let label ← ident
    layout
    mark '['
    let description ← sentence
    lexeme (mark ']')
    lexeme (mark '\x7b')
    let pairs ← many1 (lexeme (pair value))
    mark '\x7d'
    pure (label :: description :: pairs)

/-- A keyword and blocks in braces. -/
def clause (rule : Rule) (word : String) (block : Parser Match) : Parser Match :=
  node rule do
    lexeme (keyword word)
    lexeme (mark '\x7b')
    let blocks ← many1 (lexeme block)
    mark '\x7d'
    pure blocks

/-- The blocks of a body, as a match that ends with the last of them. -/
def body (block : Parser Match) : Parser Match := do
  let start ← offset
  let blocks ← many1 (lexeme block)
  let stop := (blocks.getLast?.map (·.span.stop)).getD start
  pure (.node .body start stop blocks)

/-- Pairs and blocks in braces, then the clauses for failure and for the end, each optional. -/
def compoundBlock (value block : Parser Match) : Parser Match :=
  node .compoundBlock do
    lexeme (keyword "block")
    lexeme (mark '\x7b')
    let pairs ← many (lexeme (pair value))
    let inner ← body block
    mark '\x7d'
    let rescue ← option do
      layout
      clause .rescue "rescue" block
    let always ← option do
      layout
      clause .always "always" block
    pure (pairs ++ inner :: rescue.toList ++ always.toList)

def block : (budget : Nat) → Parser Match
  | 0, c, t => refuse .shallowerNesting c t
  | n + 1, c, t => (simpleBlock (value n) <|> compoundBlock (value n) (block n)) c t

/-! ## Whole sources -/

def endOfInput : Parser Unit := fun c t =>
  if c.rest.isEmpty then (some ((), c), t) else refuse .endOfInput c t

/-- A playbook: pairs and blocks in any order. -/
def entry : Parser Match :=
  node .entry do
    layout
    let statements ← many (lexeme (pair (value maxNesting) <|> block maxNesting))
    endOfInput
    pure statements

/-- A single value. -/
def loneValue : Parser Match := do
  layout
  let content ← lexeme (value maxNesting)
  endOfInput
  pure content

end Playbooks.Grammar
