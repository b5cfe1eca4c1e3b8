import Mathlib.Data.List.Forall2
import Playbooks.Proofs.Plan.Pairs
import Playbooks.Proofs.Syntax.Phrases

/-!
# Written playbooks

A draft is a playbook as it is written, without its layout. It has many texts, which differ in
the layout between its words, and one plan.

## Main definitions

* `Draft`: playbooks as they are written.
* `Draft.Legal`, `Draft.need`: the words can be read as what they are; levels of nesting.
* `Draft.plan`: the plan of a draft, without places in a source.
* `Draft.Written`: the texts of a draft.
* `Plan.unspanned`: a plan without places in a source.
-/
namespace Playbooks

open Grammar

/-- A block. An empty list of blocks for failure or for the end is a clause that is left out. -/
inductive Draft.Block where
  | simple (label description : List Char) (pairs : List (Key × Phrase))
  | compound (pairs : List (Key × Phrase)) (body rescue always : List Draft.Block)

inductive Draft.Statement where
  | pair (key : Key) (content : Phrase)
  | block (b : Draft.Block)

abbrev Draft := List Draft.Statement

namespace Draft

/-! ## Legal drafts -/

namespace Block

mutual

def Legal : Block → Prop
  | simple label description pairs => isIdent label = true ∧ isSentence description = true
      ∧ pairs ≠ [] ∧ Phrase.LegalPairs pairs
  | compound pairs body rescue always => Phrase.LegalPairs pairs ∧ body ≠ []
      ∧ LegalAll body ∧ LegalAll rescue ∧ LegalAll always

def LegalAll : List Block → Prop
  | [] => True
  | b :: bs => b.Legal ∧ LegalAll bs

end

mutual

/-- Levels of nesting that the block takes: one for itself, around those of its pairs and blocks. -/
def need : Block → Nat
  | simple _ _ pairs => 1 + Phrase.pairsNeed pairs
  | compound pairs body rescue always => 1 + max (Phrase.pairsNeed pairs)
      (max (needAll body) (max (needAll rescue) (needAll always)))

def needAll : List Block → Nat
  | [] => 0
  | b :: bs => max b.need (needAll bs)

end

end Block

namespace Statement

def Legal : Statement → Prop
  | pair key content => key.Legal ∧ content.Legal
  | block b => b.Legal

def need : Statement → Nat
  | pair _ content => content.need
  | block b => b.need

end Statement

def Legal (draft : Draft) : Prop :=
  ∀ s ∈ draft, s.Legal

def need : Draft → Nat
  | [] => 0
  | s :: rest => max s.need (need rest)

/-! ## Plans -/

namespace Block

mutual

/-- The task of a block, without its place in a source. -/
def task : Block → Task
  | simple _ description pairs =>
    .ofSimplePairs (String.ofList description) (Phrase.entries pairs) default
  | compound pairs body rescue always =>
    { Task.ofCompoundPairs (Phrase.entries pairs) default with
      body := tasks body
      rescue := tasks rescue
      always := tasks always }

def tasks : List Block → List Task
  | [] => []
  | b :: bs => b.task :: tasks bs

end

end Block

namespace Statement

def entry? : Statement → Option (String × Expr)
  | pair key content => some (String.ofList key.name, content.expr)
  | block _ => none

def task? : Statement → Option Task
  | pair .. => none
  | block b => some b.task

end Statement

/-- Pairs are attributes, of which the last one with a key counts, and blocks are tasks. -/
def plan (draft : Draft) : Plan where
  attributes := Table.ofList (draft.filterMap Statement.entry?)
  tasks := draft.filterMap Statement.task?

end Draft

namespace Task

mutual

/-- The task without places in a source, at every depth. -/
def unspanned : Task → Task
  | ⟨description, moduleName, condition, args, body, rescue, always, extra, _⟩ =>
    ⟨description, moduleName, condition, args, unspannedAll body, unspannedAll rescue,
      unspannedAll always, extra, default⟩

def unspannedAll : List Task → List Task
  | [] => []
  | t :: ts => t.unspanned :: unspannedAll ts

end

theorem unspannedAll_append (ts us : List Task) :
    unspannedAll (ts ++ us) = unspannedAll ts ++ unspannedAll us := by
  induction ts with
  | nil => rfl
  | cons t ts ih => rw [List.cons_append, unspannedAll, unspannedAll, ih, List.cons_append]

end Task

/-- The plan without places in a source. -/
def Plan.unspanned (p : Plan) : Plan :=
  { p with tasks := Task.unspannedAll p.tasks }

/-! ## Texts with layout -/

/-- Texts with layout after each of them, and some layout between any two. -/
inductive Sequence : List (List Char) → List Char → Prop
  | nil : Sequence [] []
  | last {text gap : List Char} : Layout gap → Sequence [text] (text ++ gap)
  | cons {text gap next more : List Char} {texts : List (List Char)} : Layout gap → gap ≠ [] →
      Sequence (next :: texts) more → Sequence (text :: next :: texts) (text ++ gap ++ more)

/-- Texts in braces. -/
inductive Enclosed (texts : List (List Char)) : List Char → Prop
  | intro {gap gap' inner : List Char} : Layout gap → Layout gap' → Sequence texts inner →
      Enclosed texts (gap ++ '\x7b' :: gap' ++ inner ++ ['\x7d'])

/-- A clause, which is left out if there are no texts. -/
inductive Clause (word : String) : List (List Char) → List Char → Prop
  | absent : Clause word [] []
  | present {texts : List (List Char)} {gap inner : List Char} : texts ≠ [] → Layout gap →
      Enclosed texts inner → Clause word texts (gap ++ word.toList ++ inner)

namespace Draft

namespace Block

mutual

/-- The text is the block with layout wherever layout may stand. -/
def Written : Block → List Char → Prop
  | simple label description pairs, cs => ∃ texts gap inner, Phrase.WrittenPairs pairs texts
      ∧ Layout gap ∧ Enclosed texts inner ∧ cs = label ++ gap ++ '[' :: description ++ ']' :: inner
  | compound pairs body rescue always, cs => ∃ pairTexts bodyTexts rescueTexts alwaysTexts
      inner rescueText alwaysText, Phrase.WrittenPairs pairs pairTexts
      ∧ WrittenAll body bodyTexts ∧ Enclosed (pairTexts ++ bodyTexts) inner
      ∧ WrittenAll rescue rescueTexts ∧ Clause "rescue" rescueTexts rescueText
      ∧ WrittenAll always alwaysTexts ∧ Clause "always" alwaysTexts alwaysText
      ∧ cs = "block".toList ++ inner ++ rescueText ++ alwaysText

def WrittenAll : List Block → List (List Char) → Prop
  | [], texts => texts = []
  | b :: bs, texts => ∃ text rest, b.Written text ∧ WrittenAll bs rest ∧ texts = text :: rest

end

end Block

/-- The text is the statement with layout wherever layout may stand. -/
def Statement.Written : Statement → List Char → Prop
  | pair key content, cs => ∃ text, content.Written text ∧ PairText key text cs
  | block b, cs => b.Written cs

/-- The text is the draft with layout wherever layout may stand. -/
def Written (draft : Draft) (cs : List Char) : Prop :=
  ∃ texts gap inner, List.Forall₂ Statement.Written draft texts ∧ Layout gap ∧ Sequence texts inner
    ∧ cs = gap ++ inner

end Draft

end Playbooks
