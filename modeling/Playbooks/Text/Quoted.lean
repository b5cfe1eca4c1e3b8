import Playbooks.Text.Printable

/-!
# Quoted text

A text between quotes, with every character that cannot be shown as itself written as an escape:
`\0 \t \r \n \\`, the enclosing quote after a backslash, and the code point in braces for
characters that are not printable.
-/
namespace Playbooks.Text

/-- The escape of a character by its code point. -/
def codePointEscape (c : Char) : List Char :=
  ['\\', 'u', '\x7b'] ++ Nat.toDigits 16 c.toNat ++ ['\x7d']

/-- One character between quotes of the given kind. Characters without an escape of their own are
shown as themselves if `shown` tells so. -/
def escapeBy (shown : Char → Bool) (quote c : Char) : List Char :=
  if c = '\x00' then ['\\', '0']
  else if c = '\t' then ['\\', 't']
  else if c = '\r' then ['\\', 'r']
  else if c = '\n' then ['\\', 'n']
  else if c = '\\' then ['\\', '\\']
  else if c = quote then ['\\', c]
  else if shown c then [c]
  else codePointEscape c

def doubleQuote : Char := '\x22'

def singleQuote : Char := '\x27'

/-- A text between double quotes. -/
def quotedBy (shown : Char → Bool) (cs : List Char) : List Char :=
  doubleQuote :: cs.flatMap (escapeBy shown doubleQuote) ++ [doubleQuote]

/-- A text between double quotes, with its printable characters shown as themselves. -/
def quoted (cs : List Char) : List Char :=
  quotedBy isPrintable cs

/-- A character between single quotes. -/
def quotedChar (c : Char) : List Char :=
  singleQuote :: escapeBy isPrintable singleQuote c ++ [singleQuote]

/-- `quoted` on strings. -/
def quote (s : String) : String :=
  String.ofList (quoted s.toList)

end Playbooks.Text
