import Playbooks.Number.Layout
import Playbooks.Value.Basic

/-!
# Values as text

The compact form has no layout; the spread form has one item a line, indented by two spaces a level.
-/
namespace Playbooks.Value

/-- One character of a string. Only quotes, backslashes and control characters need an escape. -/
def escapeChar (c : Char) : List Char :=
  if c = '\x22' then ['\\', '\x22']
  else if c = '\\' then ['\\', '\\']
  else if c = '\n' then ['\\', 'n']
  else if c = '\r' then ['\\', 'r']
  else if c = '\t' then ['\\', 't']
  else if c = '\x08' then ['\\', 'b']
  else if c = '\x0c' then ['\\', 'f']
  else if c.toNat < 0x20 then
    ['\\', 'u', '0', '0', Nat.digitChar (c.toNat / 16), Nat.digitChar (c.toNat % 16)]
  else [c]

def stringText (s : String) : List Char :=
  '\x22' :: s.toList.flatMap escapeChar ++ ['\x22']

def numeralText : Numeral → List Char
  | .integer i => (toString i.val).toList
  | .float x => (Float64.valueText x.val).toList

mutual

/-- The compact form. -/
def chars : Value → List Char
  | null => "null".toList
  | bool true => "true".toList
  | bool false => "false".toList
  | number n => numeralText n
  | string s => stringText s
  | array items => '[' :: itemChars items ++ [']']
  | object members => '\x7b' :: memberChars members ++ ['\x7d']

def itemChars : List Value → List Char
  | [] => []
  | [v] => v.chars
  | v :: vs => v.chars ++ ',' :: itemChars vs

def memberChars : List (String × Value) → List Char
  | [] => []
  | [(k, v)] => stringText k ++ ':' :: v.chars
  | (k, v) :: rest => stringText k ++ ':' :: v.chars ++ ',' :: memberChars rest

end

/-- The compact form as a string. -/
def render (v : Value) : String :=
  String.ofList v.chars

/-- A line break and the indentation of a level. -/
def lineBreak (level : Nat) : List Char :=
  '\n' :: List.replicate (2 * level) ' '

mutual

/-- The spread form at a level of indentation. -/
def spreadChars (level : Nat) : Value → List Char
  | array [] => ['[', ']']
  | array items => '[' :: spreadItems (level + 1) items ++ lineBreak level ++ [']']
  | object [] => ['\x7b', '\x7d']
  | object members => '\x7b' :: spreadMembers (level + 1) members ++ lineBreak level ++ ['\x7d']
  | null => chars null
  | bool b => chars (bool b)
  | number n => chars (number n)
  | string s => chars (string s)

def spreadItems (level : Nat) : List Value → List Char
  | [] => []
  | [v] => lineBreak level ++ spreadChars level v
  | v :: vs => lineBreak level ++ spreadChars level v ++ ',' :: spreadItems level vs

def spreadMembers (level : Nat) : List (String × Value) → List Char
  | [] => []
  | [(k, v)] => lineBreak level ++ stringText k ++ [':', ' '] ++ spreadChars level v
  | (k, v) :: rest =>
    lineBreak level ++ stringText k ++ [':', ' '] ++ spreadChars level v
      ++ ',' :: spreadMembers level rest

end

/-- The spread form as a string. -/
def spread (v : Value) : String :=
  String.ofList (spreadChars 0 v)

/-- The text of a value inside a sentence: a string stands for itself, null for nothing. -/
def plainText : Value → String
  | string s => s
  | null => ""
  | v => v.render

end Playbooks.Value
