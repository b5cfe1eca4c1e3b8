import Playbooks.Diagnostic.Span
import Playbooks.Text.Quoted

/-!
# Parse trees

A match records which grammar rule covered which part of the source. `prune` removes nested matches
that cover nothing; parse trees are pruned matches, and their nodes are numbered in pre-order.

## Main definitions

* `Match` — a rule, a span and the matches inside it.
* `Match.prune` — the tree without nested matches of width zero.
* `Match.outline` — the nodes as a table in which parents and children are row numbers.
* `Match.dump` — an indented listing.
-/
namespace Playbooks

/-- Rules that appear as nodes of a parse tree. -/
inductive Rule where
  | entry
  | pair
  | ident
  | string
  | number
  | bool
  | array
  | object
  | call
  | index
  | indexSegment
  | sentence
  | sum
  | product
  | operator
  | simpleBlock
  | compoundBlock
  | body
  | rescue
  | always
deriving DecidableEq

namespace Rule

def name : Rule → String
  | entry => "entry"
  | pair => "pair"
  | ident => "ident"
  | string => "string"
  | number => "number"
  | bool => "bool_expr"
  | array => "array"
  | object => "object"
  | call => "fun_expr"
  | index => "index_expr"
  | indexSegment => "index_segment"
  | sentence => "sentence"
  | sum => "math_expr"
  | product => "math_term"
  | operator => "operator"
  | simpleBlock => "simple_block"
  | compoundBlock => "compound_block"
  | body => "body"
  | rescue => "rescue_clause"
  | always => "always_clause"

def all : List Rule :=
  [entry, pair, ident, string, number, bool, array, object, call, index, indexSegment, sentence, sum,
    product, operator, simpleBlock, compoundBlock, body, rescue, always]

def ofName? (text : String) : Option Rule :=
  all.find? (·.name == text)

end Rule

/-- A rule, the span it covers and the matches inside it, in source order. -/
structure Match where
  rule : Rule
  span : Span
  children : List Match

namespace Match

/-- A match with nothing inside. -/
def leaf (rule : Rule) (start stop : Nat) : Match :=
  ⟨rule, .ofBounds start stop, []⟩

def node (rule : Rule) (start stop : Nat) (children : List Match) : Match :=
  ⟨rule, .ofBounds start stop, children⟩

mutual

/-- The tree without nested matches of width zero and what they hold. The root stays. -/
def prune : Match → Match
  | ⟨rule, span, children⟩ => ⟨rule, span, pruneAll children⟩

/-- `prune` on siblings. -/
def pruneAll : List Match → List Match
  | [] => []
  | m :: ms => if m.span.isEmpty then pruneAll ms else m.prune :: pruneAll ms

end

mutual

/-- Number of nodes. -/
def size : Match → Nat
  | ⟨_, _, children⟩ => sizeAll children + 1

def sizeAll : List Match → Nat
  | [] => 0
  | m :: ms => m.size + sizeAll ms

end

/-- The first child of a rule. -/
def find? (m : Match) (rule : Rule) : Option Match :=
  m.children.find? (·.rule == rule)

def text (m : Match) (source : List Char) : List Char :=
  m.span.text source

mutual

/-- One line a node, children indented by two more spaces; a node without children shows its text. -/
def dumpAt (source : List Char) (depth : Nat) : Match → List Char
  | ⟨rule, span, children⟩ =>
    let shown := if children.isEmpty then ' ' :: Text.quoted (span.text source) else []
    List.replicate (2 * depth) ' ' ++ rule.name.toList ++ ' ' :: span.render.toList ++ shown
      ++ '\n' :: dumpAllAt source (depth + 1) children

def dumpAllAt (source : List Char) (depth : Nat) : List Match → List Char
  | [] => []
  | m :: ms => dumpAt source depth m ++ dumpAllAt source depth ms

end

def dump (m : Match) (source : List Char) : String :=
  String.ofList (dumpAt source 0 m)

end Match

/-- A node of the table: its rule and span, and the rows of its parent and children. -/
structure OutlineNode where
  rule : Rule
  span : Span
  parent : Option Nat
  children : List Nat
deriving DecidableEq

namespace Match

/-- Rows of siblings, the first of which is at `next`: each subtree fills consecutive rows. -/
def rows (next : Nat) : List Match → List Nat
  | [] => []
  | m :: ms => next :: rows (next + m.size) ms

mutual

/-- The nodes of a tree whose root is row `row`, in pre-order. -/
def outlineFrom (row : Nat) (parent : Option Nat) : Match → List OutlineNode
  | ⟨rule, span, children⟩ =>
    ⟨rule, span, parent, rows (row + 1) children⟩ :: outlineAllFrom (row + 1) row children

def outlineAllFrom (next parent : Nat) : List Match → List OutlineNode
  | [] => []
  | m :: ms => outlineFrom next (some parent) m ++ outlineAllFrom (next + m.size) parent ms

end

/-- The tree as a table: row zero is the root. -/
def outline (m : Match) : List OutlineNode :=
  outlineFrom 0 none m

end Match

end Playbooks
