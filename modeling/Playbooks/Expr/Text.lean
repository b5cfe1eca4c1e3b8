import Playbooks.Expr.Basic

/-!
# Expressions in playbook notation

`Expr.render` writes an expression the way a playbook would. A string with a quote or a line break,
and an unknown value, have no such form; what is written for them does not read back.
-/
namespace Playbooks

/-- Words of the grammar that are no bare keys. -/
def reservedWords : List String :=
  ["true", "false", "block", "rescue", "always"]

/-- A key that needs no quotes. -/
def isBareKey (key : String) : Bool :=
  (match key.toList with
    | [] => false
    | c :: cs => c.isAlpha && cs.all fun c => c.isAlphanum || c == '-')
  && !reservedWords.contains key

def quotedKey (key : List Char) : List Char :=
  '\x27' :: key ++ ['\x27']

def keyChars (key : String) : List Char :=
  if isBareKey key then key.toList else quotedKey key.toList

namespace Expr

mutual

def chars : Expr → List Char
  | array items => '[' :: listChars items ++ [']']
  | bool true => "true".toList
  | bool false => "false".toList
  | call name args => name.toList ++ '(' :: listChars args ++ [')']
  | number n => n.render.toList
  | object fields => '\x7b' :: fieldChars fields ++ ['\x7d']
  | string s => quotedKey s.toList
  | unknown => "unknown".toList

/-- Items with a comma after each; an empty list is a lone comma. -/
def listChars : List Expr → List Char
  | [] => [',']
  | e :: es => e.chars ++ ',' :: moreChars es

def moreChars : List Expr → List Char
  | [] => []
  | e :: es => ' ' :: e.chars ++ ',' :: moreChars es

/-- Pairs with a comma after each. -/
def fieldChars : List (String × Expr) → List Char
  | [] => []
  | [(k, e)] => keyChars k ++ ':' :: ' ' :: e.chars ++ [',']
  | (k, e) :: rest => keyChars k ++ ':' :: ' ' :: e.chars ++ ',' :: ' ' :: fieldChars rest

end

def render (e : Expr) : String :=
  String.ofList e.chars

end Expr

end Playbooks
