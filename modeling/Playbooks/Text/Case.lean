import Playbooks.Text.CaseTable

/-!
# Upper and lower case

Full case mappings: a character may map to several, and a capital sigma has its final form at the
end of a word.
-/
namespace Playbooks.Text

private def mapCase (runs : List CaseRun) (c : Char) : Char :=
  ((runs.findSome? (·.map? c.toNat)).map Char.ofNat).getD c

def upperChar (c : Char) : List Char :=
  match upperExpansions.lookup c.toNat with
  | some codes => codes.map Char.ofNat
  | none => [mapCase upperRuns c]

/-- The lower-case form outside a context; only the dotted capital I gives two characters. -/
def lowerChar (c : Char) : List Char :=
  if c.toNat = 0x130 then ['i', Char.ofNat 0x307] else [mapCase lowerRuns c]

def upper (cs : List Char) : List Char :=
  cs.flatMap upperChar

/-- The nearest character that is not ignored for casing is cased. -/
def meetsCased (cs : List Char) : Bool :=
  (cs.dropWhile fun c => caseIgnorable.contains c.toNat).head?.any fun c => cased.contains c.toNat

/-- Lower case of a text that follows the reversed text `before`. -/
def lowerAfter (before : List Char) : List Char → List Char
  | [] => []
  | c :: cs =>
    let image :=
      if c.toNat = 0x3a3 then
        [if meetsCased before && !meetsCased cs then Char.ofNat 0x3c2 else Char.ofNat 0x3c3]
      else lowerChar c
    image ++ lowerAfter (c :: before) cs

def lower (cs : List Char) : List Char :=
  lowerAfter [] cs

end Playbooks.Text
