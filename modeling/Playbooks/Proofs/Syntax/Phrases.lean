import Playbooks.Expr.Text
import Playbooks.Proofs.Syntax.Words

/-!
# Written values

A phrase is a value as it is written, without its layout. It has many texts, which differ in the
layout between its words, and one expression.

## Main definitions

* `Phrase`: keys, segments and values as they are written.
* `Phrase.Legal`: the words can be read as what they are.
* `Phrase.need`: levels of nesting.
* `Phrase.expr`: the expression of a phrase.
* `Phrase.Written`: the texts of a phrase.
-/
namespace Playbooks

open Grammar

/-- A key, with or without quotes. -/
inductive Key where
  | bare (name : List Char)
  | quoted (text : List Char)

namespace Key

/-- The key that is meant. -/
def name : Key → List Char
  | bare name => name
  | quoted text => text

def chars : Key → List Char
  | bare name => name
  | quoted text => quotedKey text

def Legal : Key → Prop
  | bare name => isIdent name = true
  | quoted text => ∀ x ∈ text, isQuotable x = true

end Key

/-- A segment of an index expression. -/
inductive Segment where
  | dot (text : List Char)
  | bracket (text : List Char)

namespace Segment

def text : Segment → List Char
  | dot text => text
  | bracket text => text

def chars : Segment → List Char
  | dot text => '.' :: text
  | bracket text => '[' :: text ++ [']']

def Legal : Segment → Prop
  | dot text => text ≠ [] ∧ ∀ x ∈ text, isSegmentChar x = true
  | bracket text => isSentence text = true

end Segment

/-- A value as it is written. A number is kept as its numeral. -/
inductive Phrase where
  | string (text : List Char)
  | bool (b : Bool)
  | number (numeral : List Char)
  | array (items : List Phrase)
  | object (pairs : List (Key × Phrase))
  | call (name : List Char) (args : List Phrase)
  | index (head : List Char) (segments : List Segment)

/-- The head of a call or of an index expression: an identifier that is no truth value. -/
def IsHead (name : List Char) : Prop :=
  isIdent name = true ∧ ∀ b, name ≠ (boolWord b).toList

namespace Phrase

mutual

def Legal : Phrase → Prop
  | string text => ∀ x ∈ text, isQuotable x = true
  | bool _ => True
  | number numeral => IsNumeral numeral
  | array items => LegalItems items
  | object pairs => LegalPairs pairs
  | call name args => IsHead name ∧ LegalItems args
  | index head segments => IsHead head ∧ segments ≠ [] ∧ ∀ s ∈ segments, s.Legal

def LegalItems : List Phrase → Prop
  | [] => True
  | v :: vs => v.Legal ∧ LegalItems vs

def LegalPairs : List (Key × Phrase) → Prop
  | [] => True
  | (k, v) :: rest => k.Legal ∧ v.Legal ∧ LegalPairs rest

end

mutual

/-- Levels of nesting that the value takes: one for itself, and one more for what arithmetic could
start with. -/
def need : Phrase → Nat
  | string _ => 1
  | bool _ => 1
  | number _ => 2
  | array items => 1 + itemsNeed items
  | object pairs => 1 + pairsNeed pairs
  | call _ args => 2 + itemsNeed args
  | index _ _ => 2

def itemsNeed : List Phrase → Nat
  | [] => 0
  | v :: vs => max v.need (itemsNeed vs)

def pairsNeed : List (Key × Phrase) → Nat
  | [] => 0
  | (_, v) :: rest => max v.need (pairsNeed rest)

end

mutual

/-- The expression that is meant. A repeated key takes the last value, and an index expression is a
call of its head on its segments. -/
def expr : Phrase → Expr
  | string text => .string (String.ofList text)
  | bool b => .bool b
  | number numeral => ((Number.read? numeral).map Expr.number).getD .unknown
  | array items => .array (exprs items)
  | object pairs => .object (Table.ofList (entries pairs))
  | call name args => .call (String.ofList name) (exprs args)
  | index head segments =>
    .call (String.ofList head) (segments.map fun s => .string (String.ofList s.text))

def exprs : List Phrase → List Expr
  | [] => []
  | v :: vs => v.expr :: exprs vs

def entries : List (Key × Phrase) → List (String × Expr)
  | [] => []
  | (k, v) :: rest => (String.ofList k.name, v.expr) :: entries rest

end

end Phrase

/-! ## Texts with layout -/

/-- Texts after a first one, each with a comma before it. -/
inductive Continued : List (List Char) → List Char → Prop
  | nil : Continued [] []
  | cons {text gap gap' more : List Char} {texts : List (List Char)} : Layout gap → Layout gap' →
      Continued texts more → Continued (text :: texts) (',' :: gap ++ text ++ gap' ++ more)

/-- Texts with commas between them and layout around them. -/
inductive Separated : List (List Char) → List Char → Prop
  | nil : Separated [] []
  | cons {text gap more : List Char} {texts : List (List Char)} : Layout gap →
      Continued texts more → Separated (text :: texts) (text ++ gap ++ more)

/-- Texts with commas between them, after the last of them, and also where there is none. -/
inductive Listed : List (List Char) → List Char → Prop
  | intro {texts : List (List Char)} {gap inner gap' : List Char} : Layout gap →
      Separated texts inner → Layout gap' → Listed texts (gap ++ inner ++ ',' :: gap')

/-- Texts with commas between them; the comma after the last of them may be left out. -/
inductive Braced : List (List Char) → List Char → Prop
  | plain {texts : List (List Char)} {gap inner : List Char} : Layout gap →
      Separated texts inner → Braced texts (gap ++ inner)
  | comma {texts : List (List Char)} {gap inner gap' : List Char} : Layout gap →
      Separated texts inner → texts ≠ [] → Layout gap' → Braced texts (gap ++ inner ++ ',' :: gap')

/-- A key, a colon and the text of a value. -/
inductive PairText (key : Key) (text : List Char) : List Char → Prop
  | intro {gap gap' : List Char} : Layout gap → Layout gap' →
      PairText key text (key.chars ++ gap ++ ':' :: gap' ++ text)

namespace Phrase

mutual

/-- The text is the value with layout wherever layout may stand. -/
def Written : Phrase → List Char → Prop
  | string text, cs => cs = quotedKey text
  | bool b, cs => cs = (boolWord b).toList
  | number numeral, cs => cs = numeral
  | array items, cs => ∃ texts inner, WrittenItems items texts ∧ Listed texts inner
      ∧ cs = '[' :: inner ++ [']']
  | object pairs, cs => ∃ texts inner, WrittenPairs pairs texts ∧ Braced texts inner
      ∧ cs = '\x7b' :: inner ++ ['\x7d']
  | call name args, cs => ∃ texts inner, WrittenItems args texts ∧ Listed texts inner
      ∧ cs = name ++ '(' :: inner ++ [')']
  | index head segments, cs => cs = head ++ segments.flatMap Segment.chars

def WrittenItems : List Phrase → List (List Char) → Prop
  | [], texts => texts = []
  | v :: vs, texts => ∃ text rest, v.Written text ∧ WrittenItems vs rest ∧ texts = text :: rest

def WrittenPairs : List (Key × Phrase) → List (List Char) → Prop
  | [], texts => texts = []
  | (k, v) :: pairs, texts => ∃ value text rest, v.Written value ∧ PairText k value text
      ∧ WrittenPairs pairs rest ∧ texts = text :: rest

end

end Phrase

end Playbooks
