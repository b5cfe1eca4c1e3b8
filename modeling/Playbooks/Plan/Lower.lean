import Playbooks.Diagnostic.Basic
import Playbooks.Plan.Basic
import Playbooks.Syntax.Parse

/-!
# From parse trees to plans

Every tree that the grammar produces has a plan. A node of another shape is reported as malformed.
Keys that a task does not know are kept for the check that follows.
-/
namespace Playbooks

/-- What is wrong with a node of a parse tree. -/
inductive Flaw where
  | noQuotes
  | notStatement
  | notPair
  | notKey
  | notNumber
  | notValue
  | noHead
  | notSegment
  | noOperand
  | notOperator
  | noRightOperand
  | notBlock
  | strayChild
  | noBody
deriving DecidableEq

def Flaw.describe : Flaw → String
  | noQuotes => "string without quotes"
  | notStatement => "expected a pair or a block"
  | notPair => "expected a key and a value"
  | notKey => "expected an identifier or string key"
  | notNumber => "invalid number"
  | notValue => "expected a value"
  | noHead => "missing leading identifier"
  | notSegment => "expected an index segment"
  | noOperand => "missing operand"
  | notOperator => "expected an operator"
  | noRightOperand => "operator without right operand"
  | notBlock => "expected a block"
  | strayChild => "unexpected child of a compound block"
  | noBody => "compound block without a body"

/-- A node whose shape no source has. -/
structure Malformed where
  rule : Rule
  span : Span
  flaw : Flaw
deriving DecidableEq

def Malformed.diagnostic (m : Malformed) : Diagnostic :=
  .ofCode .malformedTree ("malformed `" ++ m.rule.name ++ "` node: " ++ m.flaw.describe) [m.span]
    (some "this is a bug in the parser; please report it")

namespace Match

def malformed {α : Type} (m : Match) (flaw : Flaw) : Except Malformed α :=
  .error ⟨m.rule, m.span, flaw⟩

def textString (m : Match) (source : List Char) : String :=
  String.ofList (m.text source)

/-- Text between a first and a last quote, which are two characters. -/
def unquote? : List Char → Option (List Char)
  | '\x27' :: cs => if cs.getLast? = some '\x27' then some cs.dropLast else none
  | _ => none

/-- The text of a string without its quotes. -/
def unquoted (m : Match) (source : List Char) : Except Malformed String :=
  match unquote? (m.text source) with
  | some cs => .ok (String.ofList cs)
  | none => m.malformed .noQuotes

def key (m : Match) (source : List Char) : Except Malformed String :=
  match m.rule with
  | .ident => .ok (m.textString source)
  | .string => m.unquoted source
  | _ => m.malformed .notKey

/-- The function that an operator stands for. -/
def operatorName? : List Char → Option String
  | ['+'] => some "add"
  | ['-'] => some "sub"
  | ['*'] => some "mul"
  | ['/'] => some "div"
  | _ => none

/-- The segments of an index expression, as strings. -/
def segments (source : List Char) : List Match → Except Malformed (List Expr)
  | [] => .ok []
  | m :: ms =>
    if m.rule = .indexSegment ∨ m.rule = .sentence then do
      let others ← segments source ms
      pure (.string (m.textString source) :: others)
    else m.malformed .notSegment

mutual

/-- The expression of a value. An index expression is a call of its head on its segments. -/
def expr (source : List Char) : Match → Except Malformed Expr
  | ⟨rule, span, children⟩ =>
    let self : Match := ⟨rule, span, children⟩
    match rule with
    | .string => (self.unquoted source).map .string
    | .bool => .ok (.bool (self.textString source == "true"))
    | .number =>
      match Number.read? (self.text source) with
      | some n => .ok (.number n)
      | none => self.malformed .notNumber
    | .array => (exprs source children).map .array
    | .object => (fields source [] children).map .object
    | .call =>
      match children with
      | [] => self.malformed .noHead
      | head :: args =>
        if head.rule = .ident then
          (exprs source args).map (.call (head.textString source))
        else self.malformed .noHead
    | .index =>
      match children with
      | [] => self.malformed .noHead
      | head :: rest =>
        if head.rule = .ident then
          (segments source rest).map (.call (head.textString source))
        else self.malformed .noHead
    | .sum | .product =>
      match children with
      | [] => self.malformed .noOperand
      | first :: rest => do
        let left ← expr source first
        operations source self left rest
    | _ => self.malformed .notValue

def exprs (source : List Char) : List Match → Except Malformed (List Expr)
  | [] => .ok []
  | m :: ms => do
    let e ← expr source m
    let es ← exprs source ms
    pure (e :: es)

/-- A key and a value. -/
def pair (source : List Char) : Match → Except Malformed (String × Expr)
  | ⟨_, _, [name, content]⟩ => do
    let k ← name.key source
    let e ← expr source content
    pure (k, e)
  | m => m.malformed .notPair

/-- Pairs in order; a repeated key takes the last value. -/
def fields (source : List Char) (found : Fields) : List Match → Except Malformed Fields
  | [] => .ok found
  | m :: ms => do
    let (k, e) ← pair source m
    fields source (Table.insert k e found) ms

/-- Operators and their right operands, applied from the left. -/
def operations (source : List Char) (whole : Match) (left : Expr) :
    List Match → Except Malformed Expr
  | [] => .ok left
  | op :: rest =>
    match operatorName? (op.text source) with
    | none => op.malformed .notOperator
    | some name =>
      match rest with
      | [] => whole.malformed .noRightOperand
      | operand :: rest => do
        let right ← expr source operand
        operations source whole (.call name [left, right]) rest

end

end Match

namespace Task

/-- Adds a pair of a simple task. The first module, arguments and condition of the right kind count;
everything else is kept aside. -/
def addSimplePair (t : Task) (key : String) (e : Expr) : Task :=
  match e with
  | .string s =>
    if key = "module" ∧ t.moduleName.isNone then { t with moduleName := some s } else other
  | .object fields => if key = "args" ∧ t.args.isEmpty then { t with args := fields } else other
  | .call name args =>
    if key = "when" ∧ t.condition.isNone then { t with condition := some ⟨name, args⟩ } else other
  | _ => other
where
  other : Task := { t with extra := Table.insert key e t.extra }

/-- Adds a pair of a compound task. The first name and condition of the right kind count. -/
def addCompoundPair (t : Task) (key : String) (e : Expr) : Task :=
  match e with
  | .string s =>
    if key = "name" ∧ t.description.isEmpty then { t with description := s } else other
  | .call name args =>
    if key = "when" ∧ t.condition.isNone then { t with condition := some ⟨name, args⟩ } else other
  | _ => other
where
  other : Task := { t with extra := Table.insert key e t.extra }

end Task

namespace Match

/-- Children that are not pairs are passed over. -/
def simplePairs (source : List Char) (t : Task) : List Match → Except Malformed Task
  | [] => .ok t
  | m :: ms =>
    if m.rule = .pair then do
      let (k, e) ← pair source m
      simplePairs source (t.addSimplePair k e) ms
    else simplePairs source t ms

def simpleTask (source : List Char) (m : Match) : Except Malformed Task :=
  let description := ((m.find? .sentence).map (·.textString source)).getD ""
  simplePairs source { description, span := m.span } m.children

mutual

def task (source : List Char) : Match → Except Malformed Task
  | ⟨rule, span, children⟩ =>
    let self : Match := ⟨rule, span, children⟩
    match rule with
    | .simpleBlock => simpleTask source self
    | .compoundBlock => do
      let t ← compoundParts source { span } children
      if t.body.isEmpty then self.malformed .noBody else pure t
    | _ => self.malformed .notBlock

def tasks (source : List Char) : List Match → Except Malformed (List Task)
  | [] => .ok []
  | m :: ms => do
    let t ← task source m
    let ts ← tasks source ms
    pure (t :: ts)

/-- Pairs, body and clauses of a compound task. -/
def compoundParts (source : List Char) (t : Task) : List Match → Except Malformed Task
  | [] => .ok t
  | ⟨rule, span, children⟩ :: ms =>
    let part : Match := ⟨rule, span, children⟩
    match rule with
    | .pair => do
      let (k, e) ← pair source part
      compoundParts source (t.addCompoundPair k e) ms
    | .body => do
      let body ← tasks source children
      compoundParts source { t with body } ms
    | .rescue => do
      let rescue ← tasks source children
      compoundParts source { t with rescue } ms
    | .always => do
      let always ← tasks source children
      compoundParts source { t with always } ms
    | _ => part.malformed .strayChild

end

/-- Attributes and tasks of a playbook, in source order. -/
def statements (source : List Char) (p : Plan) : List Match → Except Malformed Plan
  | [] => .ok p
  | m :: ms =>
    match m.rule with
    | .pair => do
      let (k, e) ← pair source m
      statements source { p with attributes := Table.insert k e p.attributes } ms
    | .simpleBlock | .compoundBlock => do
      let t ← task source m
      statements source { p with tasks := p.tasks ++ [t] } ms
    | _ => m.malformed .notStatement

end Match

/-- The plan of a parse tree, whatever the rule of its root. -/
def Plan.ofTree (tree : Match) (source : List Char) : Except Malformed Plan :=
  Match.statements source {} tree.children

/-- The plan that a source describes. -/
def Plan.ofSource (source : List Char) : Except Rejection Plan := do
  let tree ← parse source
  (Plan.ofTree tree source).mapError fun m => .ofDiagnostic m.diagnostic

/-- The expression that a source is. -/
def Expr.ofSource (source : List Char) : Except Rejection Expr := do
  let tree ← parseValue source
  (tree.expr source).mapError fun m => .ofDiagnostic m.diagnostic

end Playbooks
