/-!
# Pieces of text

Occurrences of one text in another are taken from the left and never overlap. An empty pattern
occurs before every character and at the end.
-/
namespace Playbooks.Text

/-- Whether `pat` stands somewhere in the text. -/
def occursIn (pat : List Char) : List Char → Bool
  | [] => pat.isEmpty
  | c :: cs => pat.isPrefixOf (c :: cs) || occursIn pat cs

/-- Puts a character in front of the first piece. -/
def pushFront (c : Char) : List (List Char) → List (List Char)
  | [] => [[c]]
  | piece :: pieces => (c :: piece) :: pieces

/-- The pieces between occurrences of a separator that is not empty. `skip` characters at the front
belong to the occurrence that was found last. -/
def piecesFrom (sep : List Char) : (skip : Nat) → List Char → List (List Char)
  | _, [] => [[]]
  | skip + 1, _ :: cs => piecesFrom sep skip cs
  | 0, c :: cs =>
    if sep.isPrefixOf (c :: cs) then [] :: piecesFrom sep (sep.length - 1) cs
    else pushFront c (piecesFrom sep 0 cs)

/-- The text cut at every occurrence of the separator. -/
def split (sep cs : List Char) : List (List Char) :=
  match sep with
  | [] => [] :: cs.map ([·]) ++ [[]]
  | _ :: _ => piecesFrom sep 0 cs

/-- The text before and after the first occurrence of a character. -/
def cut? (c : Char) : List Char → Option (List Char × List Char)
  | [] => none
  | d :: cs => if d = c then some ([], cs) else (cut? c cs).map fun (a, b) => (d :: a, b)

/-- The pieces with the separator between them. -/
def join (sep : List Char) : List (List Char) → List Char
  | [] => []
  | [piece] => piece
  | piece :: pieces => piece ++ sep ++ join sep pieces

/-- Replaces occurrences of a pattern that is not empty; `skip` as in `piecesFrom`. -/
def replaceFrom (pat new : List Char) : (skip : Nat) → List Char → List Char
  | _, [] => []
  | skip + 1, _ :: cs => replaceFrom pat new skip cs
  | 0, c :: cs =>
    if pat.isPrefixOf (c :: cs) then new ++ replaceFrom pat new (pat.length - 1) cs
    else c :: replaceFrom pat new 0 cs

/-- The text with every occurrence of the pattern replaced. Replacements are not searched again. -/
def replace (pat new cs : List Char) : List Char :=
  match pat with
  | [] => new ++ cs.flatMap fun c => c :: new
  | _ :: _ => replaceFrom pat new 0 cs

/-- How often `pat`, which is not empty, occurs; `skip` as in `piecesFrom`. -/
def countFrom (pat : List Char) : (skip : Nat) → List Char → Nat
  | _, [] => 0
  | skip + 1, _ :: cs => countFrom pat skip cs
  | 0, c :: cs =>
    if pat.isPrefixOf (c :: cs) then countFrom pat (pat.length - 1) cs + 1
    else countFrom pat 0 cs

end Playbooks.Text
