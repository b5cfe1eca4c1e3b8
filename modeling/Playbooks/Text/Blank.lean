import Playbooks.Text.Ranges

/-!
# Blank characters

Layout between the words of a playbook, and the edges that `trim` removes, are runs of characters
with the White_Space property.
-/
namespace Playbooks.Text

/-- The White_Space property. -/
def blanks : Ranges :=
  [(0x09, 0x0d), (0x20, 0x20), (0x85, 0x85), (0xa0, 0xa0), (0x1680, 0x1680), (0x2000, 0x200a),
    (0x2028, 0x2029), (0x202f, 0x202f), (0x205f, 0x205f), (0x3000, 0x3000)]

def isBlank (c : Char) : Bool :=
  blanks.contains c.toNat

/-- Every character is blank, in particular when there is none. -/
def allBlank (cs : List Char) : Bool :=
  cs.all isBlank

/-- The text without the blanks at its two ends. -/
def trim (cs : List Char) : List Char :=
  ((cs.dropWhile isBlank).reverse.dropWhile isBlank).reverse

/-- The text neither starts nor ends with a blank. -/
def isTrimmed (cs : List Char) : Bool :=
  !(cs.head?.any isBlank) && !(cs.getLast?.any isBlank)

end Playbooks.Text
