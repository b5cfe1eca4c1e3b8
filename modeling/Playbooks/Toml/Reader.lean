import Playbooks.Number.Radix
import Playbooks.Text.Pieces
import Playbooks.Toml.Basic

/-!
# Reading settings documents

A document is read line by line: a line holds a table's header, a key with its value, or nothing,
and then perhaps a comment.
-/
namespace Playbooks.Toml

/-- Spaces and tabs. -/
def isSpace (c : Char) : Bool :=
  c = ' ' || c = '\t'

def skipSpace (cs : List Char) : List Char :=
  cs.dropWhile isSpace

/-- Characters that neither strings nor comments hold. -/
def isControl (c : Char) : Bool :=
  (c.val < 0x20 && c ≠ '\t') || c.val = 0x7f

/-- Characters of keys that are not quoted. -/
def isBare (c : Char) : Bool :=
  c.isAlphanum || c = '_' || c = '-'

/-- The rest of a string in double quotes, and what follows it. -/
def readBasic : List Char → Option (List Char × List Char)
  | [] => none
  | '\x22' :: cs => some ([], cs)
  | '\\' :: 'b' :: cs => cons '\x08' (readBasic cs)
  | '\\' :: 't' :: cs => cons '\t' (readBasic cs)
  | '\\' :: 'n' :: cs => cons '\n' (readBasic cs)
  | '\\' :: 'f' :: cs => cons '\x0c' (readBasic cs)
  | '\\' :: 'r' :: cs => cons '\r' (readBasic cs)
  | '\\' :: '\x22' :: cs => cons '\x22' (readBasic cs)
  | '\\' :: '\\' :: cs => cons '\\' (readBasic cs)
  | '\\' :: 'u' :: a :: b :: c :: d :: cs => do
    let char ← charOfHex? [a, b, c, d]
    cons char (readBasic cs)
  | '\\' :: 'U' :: a :: b :: c :: d :: e :: f :: g :: h :: cs => do
    let char ← charOfHex? [a, b, c, d, e, f, g, h]
    cons char (readBasic cs)
  | '\\' :: _ => none
  | c :: cs => if isControl c then none else cons c (readBasic cs)
where
  cons (c : Char) (read : Option (List Char × List Char)) : Option (List Char × List Char) :=
    read.map fun (s, rest) => (c :: s, rest)

/-- A string in single or double quotes, and what follows it. -/
def readQuoted : List Char → Option (List Char × List Char)
  | '\x22' :: cs => readBasic cs
  | '\x27' :: cs => do
    let (s, rest) ← Text.cut? '\x27' cs
    if s.any isControl then none else some (s, rest)
  | _ => none

/-- One part of a key, and what follows it. -/
def readKeyPart (cs : List Char) : Option (String × List Char) :=
  let bare := cs.takeWhile isBare
  if bare.isEmpty then (readQuoted cs).map fun (s, rest) => (String.ofList s, rest)
  else some (String.ofList bare, cs.dropWhile isBare)

/-- A key of parts with dots between them, and what follows it; `fuel` bounds the parts. -/
def readKeyWithin : (fuel : Nat) → List Char → Option (Keys × List Char)
  | 0, _ => none
  | fuel + 1, cs => do
    let (part, rest) ← readKeyPart (skipSpace cs)
    match skipSpace rest with
    | '.' :: rest => do
      let (parts, rest) ← readKeyWithin fuel rest
      pure (part :: parts, rest)
    | rest => pure ([part], rest)

/-- A key, and what follows it. Each part takes a character at least. -/
def readKey (cs : List Char) : Option (Keys × List Char) :=
  readKeyWithin cs.length cs

/-- Removes underscores, which stand between digits only. -/
def joinDigits? (cs : List Char) : Option (List Char) :=
  let groups := Text.split ['_'] cs
  if groups.any List.isEmpty then none else some groups.flatten

/-- An unsigned decimal without leading zeros. -/
def readDecimal? (cs : List Char) : Option Nat := do
  match ← joinDigits? cs with
  | '0' :: _ :: _ => none
  | ds => natOfBase? 10 ds

/-- A 64-bit integer, in decimals or with the mark of another base. -/
def readInteger? (cs : List Char) : Option Int := do
  let i : Int ← match cs with
    | '0' :: 'x' :: cs => do natOfBase? 16 (← joinDigits? cs)
    | '0' :: 'o' :: cs => do natOfBase? 8 (← joinDigits? cs)
    | '0' :: 'b' :: cs => do natOfBase? 2 (← joinDigits? cs)
    | '-' :: cs => (readDecimal? cs).map fun n => -(n : Int)
    | '+' :: cs => (readDecimal? cs).map Int.ofNat
    | cs => (readDecimal? cs).map Int.ofNat
  if fitsInt64 i then some i else none

/-- A value, and what follows it. -/
def readScalar (cs : List Char) : Option (Scalar × List Char) :=
  match readQuoted cs with
  | some (s, rest) => some (.string (String.ofList s), rest)
  | none =>
    let word := cs.takeWhile fun c => !isSpace c && c ≠ '#'
    let rest := cs.drop word.length
    match String.ofList word with
    | "true" => some (.boolean true, rest)
    | "false" => some (.boolean false, rest)
    | _ => (readInteger? word).map fun i => (.integer i, rest)

/-- Whether nothing but a comment is left of a line. -/
def isDone (cs : List Char) : Bool :=
  match skipSpace cs with
  | [] => true
  | '#' :: cs => !cs.any isControl
  | _ => false

/-- A document as far as it has been read, and the table that keys go to. -/
structure Progress where
  document : Document := {}
  table : Keys := []

/-- Reads one line. -/
def readLine? (p : Progress) (line : List Char) : Option Progress :=
  if isDone line then some p
  else match skipSpace line with
    | '[' :: cs => do
      match ← readKey cs with
      | (keys, ']' :: rest) =>
        if isDone rest then
          let document ← p.document.addHeader? keys
          pure { document, table := keys }
        else none
      | _ => none
    | cs => do
      match ← readKey cs with
      | (key, '=' :: rest) =>
        let (value, rest) ← readScalar (skipSpace rest)
        if isDone rest then
          let document ← p.document.add? p.table key value
          pure { p with document }
        else none
      | _ => none

/-- The lines of a text; a line can also end in a carriage return and a line feed. -/
def lines (cs : List Char) : List (List Char) :=
  (Text.split ['\n'] cs).map fun line =>
    if line.getLast? = some '\r' then line.dropLast else line

/-- Reads a document. -/
def read? (cs : List Char) : Option Document :=
  ((lines cs).foldlM readLine? {}).map (·.document)

end Playbooks.Toml
