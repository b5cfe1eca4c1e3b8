import Playbooks.Program.Term
import Playbooks.Text.Pieces
import Playbooks.Text.Quoted
import Playbooks.Text.Slice

/-!
# Program text

An expression stands on one line if it ends within `maxWidth` columns. Otherwise its outermost list
is broken, one item a line with a comma after each, and the items are laid out in the same way.
Columns are counted in bytes.
-/
namespace Playbooks

/-- Last column of a line that is not broken. -/
def maxWidth : Nat := 100

/-- Columns of one level of indentation. -/
def indentWidth : Nat := 4

def indent (level : Nat) : List Char :=
  List.replicate (indentWidth * level) ' '

/-- Integers of a signed 32-bit word need no suffix. -/
def fitsInt32 (i : Int64) : Bool :=
  Int32.minValue.toInt ≤ i.toInt && i.toInt ≤ Int32.maxValue.toInt

def Literal.chars : Literal → List Char
  | string s => Text.quoted s.toList
  | int i => (toString i.toInt).toList ++ if fitsInt32 i then [] else "_i64".toList
  | float x => (Float64.sourceText x).toList
  | bool true => "true".toList
  | bool false => "false".toList

namespace Term

/-- Text inside a comment: what would close the comment is set apart. -/
def commentText (comment : String) : List Char :=
  Text.replace ['*', '/'] ['*', ' ', '/'] comment.toList

/-- A comment and the blank after it. -/
def commentHead (comment : String) : List Char :=
  ['/', '*', ' '] ++ commentText comment ++ [' ', '*', '/', ' ']

/-- Parameters between bars, and the blank after them. -/
def closureHead (params : List Ident) : List Char :=
  '|' :: Text.join [',', ' '] (params.map (·.text.toList)) ++ ['|', ' ']

def fieldHead (name : Ident) : List Char :=
  name.text.toList ++ [':', ' ']

/-- Fields and what follows them in braces. -/
def braced (fields last : List Char) : List Char :=
  match fields, last with
  | [], [] => [' ', '\x7b', '\x7d']
  | inner, [] | [], inner => [' ', '\x7b', ' '] ++ inner ++ [' ', '\x7d']
  | fields, last => [' ', '\x7b', ' '] ++ fields ++ ',' :: ' ' :: last ++ [' ', '\x7d']

mutual

/-- The term on one line. -/
def flat : Term → List Char
  | path name => name.toList
  | lit l => l.chars
  | call callee args => callee.flat ++ '(' :: flatItems args ++ [')']
  | method receiver name args =>
    receiver.flat ++ '.' :: name.text.toList ++ '(' :: flatItems args ++ [')']
  | record name fields rest =>
    let last := match rest with
      | some r => '.' :: '.' :: r.flat
      | none => []
    name.toList ++ braced (flatFields fields) last
  | closure params body => closureHead params ++ body.flat
  | vector items => 'v' :: 'e' :: 'c' :: '!' :: '[' :: flatItems items ++ [']']
  | tuple items => '(' :: flatItems items ++ [')']
  | commented comment term => commentHead comment ++ term.flat

def flatItems : List Term → List Char
  | [] => []
  | [t] => t.flat
  | t :: ts => t.flat ++ ',' :: ' ' :: flatItems ts

def flatFields : List (Ident × Term) → List Char
  | [] => []
  | [(name, t)] => fieldHead name ++ t.flat
  | (name, t) :: rest => fieldHead name ++ t.flat ++ ',' :: ' ' :: flatFields rest

end

/-- The term ends within the width if it starts at `lead` columns after the indentation. -/
def fits (t : Term) (level lead : Nat) : Bool :=
  level * indentWidth + lead + Text.byteSize t.flat ≤ maxWidth

/-- Lines between delimiters on lines of level `level`; nothing if there are none. -/
def broken (level : Nat) : (lines : List Char) → List Char
  | [] => []
  | c :: cs => '\n' :: c :: cs ++ indent level

mutual

/-- The term on a line indented by `level`, after `lead` columns that are written already. -/
def layout (level lead : Nat) : Term → List Char
  | t@(path _) => t.flat
  | t@(lit _) => t.flat
  | t@(call callee args) =>
    if t.fits level lead then t.flat
    else callee.layout level lead ++ '(' :: broken level (layoutItems (level + 1) args) ++ [')']
  | t@(method receiver name args) =>
    if t.fits level lead then t.flat
    else receiver.layout level lead ++ '\n' :: indent level ++ '.' :: name.text.toList
      ++ '(' :: broken level (layoutItems (level + 1) args) ++ [')']
  | t@(record name fields rest) =>
    if t.fits level lead then t.flat
    else
      let last := match rest with
        | some r => indent (level + 1) ++ ['.', '.'] ++ r.layout (level + 1) 2 ++ ['\n']
        | none => []
      name.toList ++ [' ', '\x7b', '\n'] ++ layoutFields (level + 1) fields ++ last ++ indent level
        ++ ['\x7d']
  | t@(closure params body) =>
    if t.fits level lead then t.flat
    else closureHead params ++ body.layout level (lead + Text.byteSize (closureHead params))
  | t@(vector items) =>
    if t.fits level lead then t.flat
    else 'v' :: 'e' :: 'c' :: '!' :: '[' :: broken level (layoutItems (level + 1) items) ++ [']']
  | t@(tuple items) =>
    if t.fits level lead then t.flat else '(' :: broken level (layoutItems (level + 1) items) ++ [')']
  | t@(commented comment term) =>
    if t.fits level lead then t.flat
    else commentHead comment ++ term.layout level (lead + Text.byteSize (commentHead comment))

/-- Items on lines of their own. -/
def layoutItems (level : Nat) : List Term → List Char
  | [] => []
  | t :: ts => indent level ++ t.layout level 0 ++ ',' :: '\n' :: layoutItems level ts

/-- Fields on lines of their own. -/
def layoutFields (level : Nat) : List (Ident × Term) → List Char
  | [] => []
  | (name, t) :: rest =>
    indent level ++ fieldHead name ++ t.layout level (Text.byteSize (fieldHead name))
      ++ ',' :: '\n' :: layoutFields level rest

end

end Term

def ProgramFunction.chars (f : ProgramFunction) : List Char :=
  let output := match f.output with
    | some type => " -> ".toList ++ type.toList
    | none => []
  "fn ".toList ++ f.name.text.toList ++ ['(', ')'] ++ output ++ [' ', '\x7b', '\n'] ++ indent 1
    ++ f.body.layout 1 0 ++ ['\n', '\x7d', '\n']

namespace Program

def chars (p : Program) : List Char :=
  let header := p.header.flatMap fun line => "// ".toList ++ line.toList ++ ['\n']
  header ++ (if p.header.isEmpty then [] else ['\n'])
    ++ (p.uses.flatMap fun path => "use ".toList ++ path.toList ++ [';', '\n'])
    ++ p.functions.flatMap fun f => '\n' :: f.chars

/-- The text of the program. -/
def render (p : Program) : String :=
  String.ofList p.chars

end Program

end Playbooks
