import Playbooks.Proofs.Plan.Validity
import Playbooks.Proofs.Plan.Walk
import Playbooks.Proofs.Program.Generation

/-!
# What an emitted program holds

Everything that occurs in a program is one of its subterms. In the program of a plan the struct
literals and the literals come from the attributes and from the parts that each task has of its own:
its description, its condition, and the struct of its module.

## Main definitions

* `Term.subterms`: a term with all terms inside it.
* `Program.records`, `Program.literals`: the struct literals and the literals of a program.
* `Task.ownTerms`: what the term of a task holds besides the tasks inside.

## Main results

* `Expr.collect_deferred`: what is found in the lazy value of an expression.
* `Plan.mem_collect_program`: what is found in the program of a plan.
-/
namespace Playbooks

namespace Term

mutual

/-- The term, then the terms inside it from left to right. -/
def subterms : Term → List Term
  | path name => [path name]
  | lit l => [lit l]
  | call callee args => call callee args :: (callee.subterms ++ subtermsAll args)
  | method receiver name args =>
    method receiver name args :: (receiver.subterms ++ subtermsAll args)
  | record name fields rest =>
    record name fields rest :: (subtermsFields fields ++ subtermsRest rest)
  | closure params body => closure params body :: body.subterms
  | vector items => vector items :: subtermsAll items
  | tuple items => tuple items :: subtermsAll items
  | commented comment t => commented comment t :: t.subterms

def subtermsAll : List Term → List Term
  | [] => []
  | t :: ts => t.subterms ++ subtermsAll ts

def subtermsFields : List (Ident × Term) → List Term
  | [] => []
  | (_, t) :: rest => t.subterms ++ subtermsFields rest

def subtermsRest : Option Term → List Term
  | none => []
  | some t => t.subterms

end

attribute [simp] subterms subtermsAll subtermsFields subtermsRest

/-- What is found in the subterms of a term, from left to right. -/
def collect {β : Type} (find : Term → Option β) (t : Term) : List β :=
  t.subterms.filterMap find

def collectAll {β : Type} (find : Term → Option β) (ts : List Term) : List β :=
  (subtermsAll ts).filterMap find

/-- A search that finds nothing but literals and struct literals. -/
structure Selects {β : Type} (find : Term → Option β) : Prop where
  path (name : String) : find (path name) = none
  call (callee : Term) (args : List Term) : find (call callee args) = none
  method (receiver : Term) (name : Ident) (args : List Term) :
    find (method receiver name args) = none
  closure (params : List Ident) (body : Term) : find (closure params body) = none
  vector (items : List Term) : find (vector items) = none
  tuple (items : List Term) : find (tuple items) = none
  commented (comment : String) (t : Term) : find (commented comment t) = none

end Term

/-- A struct literal: the path of the struct and the fields that are given. -/
structure StructLiteral where
  path : String
  fields : List (Ident × Term)

def Term.record? : Term → Option StructLiteral
  | .record name fields _ => some ⟨name, fields⟩
  | _ => none

def Term.literal? : Term → Option Literal
  | .lit l => some l
  | _ => none

theorem Term.selects_record? : Selects record? :=
  ⟨fun _ => rfl, fun _ _ => rfl, fun _ _ _ => rfl, fun _ _ => rfl, fun _ => rfl, fun _ => rfl,
    fun _ _ => rfl⟩

theorem Term.selects_literal? : Selects literal? :=
  ⟨fun _ => rfl, fun _ _ => rfl, fun _ _ _ => rfl, fun _ _ => rfl, fun _ => rfl, fun _ => rfl,
    fun _ _ => rfl⟩

namespace Program

/-- What is found in the functions of a program. -/
def collect {β : Type} (find : Term → Option β) (p : Program) : List β :=
  p.functions.flatMap (·.body.collect find)

/-- The struct literals of a program from left to right. -/
def records (p : Program) : List StructLiteral :=
  p.collect Term.record?

/-- The literals of a program from left to right. -/
def literals (p : Program) : List Literal :=
  p.collect Term.literal?

end Program

variable {β : Type} {find : Term → Option β}

/-! ## Terms -/

namespace Term

@[simp] theorem collectAll_nil : collectAll find [] = [] := rfl

@[simp] theorem collectAll_cons (t : Term) (ts : List Term) :
    collectAll find (t :: ts) = t.collect find ++ collectAll find ts :=
  List.filterMap_append

@[simp] theorem collect_lit (l : Literal) : (lit l).collect find = (find (lit l)).toList := by
  cases h : find (lit l) <;> simp [collect, h]

theorem toList_find_lit (l : Literal) :
    (find (.lit l)).toList = [l].filterMap fun l => find (.lit l) := by
  cases h : find (.lit l) <;> simp [h]

@[simp] theorem collect_string (s : String) :
    (Term.string s).collect find = (find (.lit (.string s))).toList :=
  collect_lit (.string s)

theorem collectAll_append (ts us : List Term) :
    collectAll find (ts ++ us) = collectAll find ts ++ collectAll find us := by
  induction ts with
  | nil => rfl
  | cons t ts ih => simp [ih]

variable (hfind : Selects find)

include hfind

theorem Selects.collect_path (name : String) : (Term.path name).collect find = [] := by
  simp [collect, hfind.path]

theorem Selects.collect_apply (callee : String) (args : List Term) :
    (Term.apply callee args).collect find = collectAll find args := by
  simp [Term.apply, collect, collectAll, hfind.call, hfind.path]

theorem Selects.collect_method (receiver : Term) (name : Ident) (args : List Term) :
    (Term.method receiver name args).collect find
      = receiver.collect find ++ collectAll find args := by
  simp [collect, collectAll, hfind.method]

theorem Selects.collect_vector (items : List Term) :
    (Term.vector items).collect find = collectAll find items := by
  simp [collect, collectAll, hfind.vector]

theorem Selects.collect_tuple (items : List Term) :
    (Term.tuple items).collect find = collectAll find items := by
  simp [collect, collectAll, hfind.tuple]

theorem Selects.collect_closure (params : List Ident) (body : Term) :
    (Term.closure params body).collect find = body.collect find := by
  simp [collect, hfind.closure]

theorem Selects.collect_invalid (comment : String) : (Term.invalid comment).collect find = [] := by
  simp [Term.invalid, collect, hfind.commented, hfind.path]

theorem Selects.collect_keyedTerm (key : String) (t : Term) :
    (keyedTerm key t).collect find = (find (.lit (.string key))).toList ++ t.collect find := by
  simp [keyedTerm, hfind.collect_tuple]

theorem Selects.collect_valueFrom (l : Literal) :
    (valueFrom l).collect find = (find (.lit l)).toList := by
  simp [valueFrom, hfind.collect_apply]

end Term

/-! ## Expressions -/

namespace Expr

mutual

/-- The literals of an expression from left to right, keys included. What is inside a call of a
function that is not kept is passed over. -/
def literals (keep : String → Bool) : Expr → List Literal
  | string s => [.string s]
  | bool b => [.bool b]
  | number n => [n.literal]
  | array items => literalsAll keep items
  | object fields => literalsFields keep fields
  | call name args => if keep name then literalsAll keep args else []
  | unknown => []

def literalsAll (keep : String → Bool) : List Expr → List Literal
  | [] => []
  | e :: es => e.literals keep ++ literalsAll keep es

def literalsFields (keep : String → Bool) : List (String × Expr) → List Literal
  | [] => []
  | (k, e) :: rest => .string k :: (e.literals keep ++ literalsFields keep rest)

end

/-- Calls of known functions are emitted with their arguments. -/
def emitted (name : String) : Bool :=
  (functionIdent? name).isSome

open Term

theorem collect_callTerm (hfind : Selects find) (name : String) (ts : List Term) :
    (callTerm name ts).collect find = if emitted name then collectAll find ts else [] := by
  rw [callTerm, emitted]
  cases functionIdent? name with
  | none => exact hfind.collect_invalid _
  | some ident =>
      simp [hfind.collect_apply, contextTerm, hfind.collect_path, hfind.collect_vector]

mutual

/-- In the lazy value of an expression its literals are found, and nothing else. -/
theorem collect_deferred (hfind : Selects find) : (e : Expr) →
    e.deferred.collect find = (e.literals emitted).filterMap fun l => find (.lit l)
  | string s => by simp [deferred, literals, lazyLiteral, hfind.collect_apply, toList_find_lit]
  | bool b => by simp [deferred, literals, lazyLiteral, hfind.collect_apply, toList_find_lit]
  | number n => by simp [deferred, literals, lazyLiteral, hfind.collect_apply, toList_find_lit]
  | call name args => by
    rw [deferred, lazyCall, hfind.collect_apply, collectAll_cons, hfind.collect_closure,
      collect_callTerm hfind, collect_arguments hfind args, literals]
    split <;> simp
  | array items => by
    simpa [deferred, literals, hfind.collect_apply, hfind.collect_vector] using
      collect_deferredItems hfind items
  | object fields => by
    simpa [deferred, literals, hfind.collect_apply, hfind.collect_vector] using
      collect_deferredFields hfind fields
  | unknown => hfind.collect_invalid _

/-- So it is in the argument that an expression is. -/
theorem collect_argument (hfind : Selects find) : (e : Expr) →
    e.argument.collect find = (e.literals emitted).filterMap fun l => find (.lit l)
  | string s => by
    simp [argument, literals, okLiteral, hfind.collect_apply, hfind.collect_valueFrom,
      toList_find_lit]
  | bool b => by
    simp [argument, literals, okLiteral, hfind.collect_apply, hfind.collect_valueFrom,
      toList_find_lit]
  | number n => by
    simp [argument, literals, okLiteral, hfind.collect_apply, hfind.collect_valueFrom,
      toList_find_lit]
  | call name args => by
    rw [argument, collect_callTerm hfind, collect_arguments hfind args, literals]
    split <;> simp
  | array items => by
    simpa [argument, literals, hfind.collect_apply, hfind.collect_vector, contextTerm,
      hfind.collect_path] using collect_deferredItems hfind items
  | object fields => by
    simpa [argument, literals, hfind.collect_apply, hfind.collect_vector, contextTerm,
      hfind.collect_path] using collect_deferredFields hfind fields
  | unknown => hfind.collect_invalid _

theorem collect_arguments (hfind : Selects find) : (es : List Expr) →
    collectAll find (arguments es) = (literalsAll emitted es).filterMap fun l => find (.lit l)
  | [] => rfl
  | e :: es => by
    simp [arguments, literalsAll, collect_argument hfind e, collect_arguments hfind es]

theorem collect_deferredItems (hfind : Selects find) : (es : List Expr) →
    collectAll find (deferredItems es) = (literalsAll emitted es).filterMap fun l => find (.lit l)
  | [] => rfl
  | e :: es => by
    simp [deferredItems, literalsAll, collect_deferred hfind e, collect_deferredItems hfind es]

theorem collect_deferredFields (hfind : Selects find) : (fields : List (String × Expr)) →
    collectAll find (deferredFields fields)
      = (literalsFields emitted fields).filterMap fun l => find (.lit l)
  | [] => rfl
  | (k, e) :: rest => by
    rw [deferredFields, collectAll_cons, hfind.collect_keyedTerm, collect_deferred hfind e,
      collect_deferredFields hfind rest, literalsFields]
    cases h : find (.lit (.string k)) <;> simp [h]

end

end Expr

/-! ## Attributes -/

namespace Value

open Term

mutual

/-- The literals of a value from left to right, keys included. -/
def literals : Value → List Literal
  | null => []
  | bool b => [.bool b]
  | number n => [(Number.ofNumeral n).literal]
  | string s => [.string s]
  | array items => literalsAll items
  | object members => literalsMembers members

def literalsAll : List Value → List Literal
  | [] => []
  | v :: vs => v.literals ++ literalsAll vs

def literalsMembers : List (String × Value) → List Literal
  | [] => []
  | (k, v) :: rest => .string k :: (v.literals ++ literalsMembers rest)

end

mutual

theorem collect_term (hfind : Selects find) : (v : Value) →
    v.term.collect find = v.literals.filterMap fun l => find (.lit l)
  | null => hfind.collect_path _
  | bool b => by simp [term, literals, hfind.collect_valueFrom, toList_find_lit]
  | number n => by simp [term, literals, hfind.collect_valueFrom, toList_find_lit]
  | string s => by simp [term, literals, hfind.collect_valueFrom, toList_find_lit]
  | array items => by
    simpa [term, literals, hfind.collect_apply, hfind.collect_vector] using
      collect_itemTerms hfind items
  | object members => by
    simpa [term, literals, hfind.collect_apply, hfind.collect_vector] using
      collect_memberTerms hfind members

theorem collect_itemTerms (hfind : Selects find) : (vs : List Value) →
    collectAll find (itemTerms vs) = (literalsAll vs).filterMap fun l => find (.lit l)
  | [] => rfl
  | v :: vs => by
    simp [itemTerms, literalsAll, collect_term hfind v, collect_itemTerms hfind vs]

theorem collect_memberTerms (hfind : Selects find) : (members : List (String × Value)) →
    collectAll find (memberTerms members)
      = (literalsMembers members).filterMap fun l => find (.lit l)
  | [] => rfl
  | (k, v) :: rest => by
    rw [memberTerms, collectAll_cons, hfind.collect_keyedTerm, collect_term hfind v,
      collect_memberTerms hfind rest, literalsMembers]
    cases h : find (.lit (.string k)) <;> simp [h]

end

end Value

namespace Expr

open Term

mutual

/-- The literals of an attribute. A call stands for its serialized form. -/
def attributeLiterals : Expr → List Literal
  | string s => [.string s]
  | bool b => [.bool b]
  | number n => [n.literal]
  | array items => attributeLiteralsAll items
  | object fields => attributeLiteralsFields fields
  | call name args => (call name args).toValue.literals
  | unknown => []

def attributeLiteralsAll : List Expr → List Literal
  | [] => []
  | e :: es => e.attributeLiterals ++ attributeLiteralsAll es

def attributeLiteralsFields : List (String × Expr) → List Literal
  | [] => []
  | (k, e) :: rest => .string k :: (e.attributeLiterals ++ attributeLiteralsFields rest)

end

mutual

theorem collect_attributeTerm (hfind : Selects find) : (e : Expr) →
    e.attributeTerm.collect find = e.attributeLiterals.filterMap fun l => find (.lit l)
  | string s => by
    simp [attributeTerm, attributeLiterals, hfind.collect_valueFrom, toList_find_lit]
  | bool b => by
    simp [attributeTerm, attributeLiterals, hfind.collect_valueFrom, toList_find_lit]
  | number n => by
    simp [attributeTerm, attributeLiterals, hfind.collect_valueFrom, toList_find_lit]
  | call name args => Value.collect_term hfind (call name args).toValue
  | array items => by
    simpa [attributeTerm, attributeLiterals, hfind.collect_apply, hfind.collect_vector] using
      collect_attributeItems hfind items
  | object fields => by
    simpa [attributeTerm, attributeLiterals, hfind.collect_apply, hfind.collect_vector] using
      collect_attributeFields hfind fields
  | unknown => hfind.collect_invalid _

theorem collect_attributeItems (hfind : Selects find) : (es : List Expr) →
    collectAll find (attributeItems es)
      = (attributeLiteralsAll es).filterMap fun l => find (.lit l)
  | [] => rfl
  | e :: es => by
    simp [attributeItems, attributeLiteralsAll, collect_attributeTerm hfind e,
      collect_attributeItems hfind es]

theorem collect_attributeFields (hfind : Selects find) : (fields : List (String × Expr)) →
    collectAll find (attributeFields fields)
      = (attributeLiteralsFields fields).filterMap fun l => find (.lit l)
  | [] => rfl
  | (k, e) :: rest => by
    rw [attributeFields, collectAll_cons, hfind.collect_keyedTerm, collect_attributeTerm hfind e,
      collect_attributeFields hfind rest, attributeLiteralsFields]
    cases h : find (.lit (.string k)) <;> simp [h]

end

end Expr

/-! ## Tasks -/

namespace Task

open Term

/-- What the term of a task holds besides the tasks inside: the description, the struct of the
module of a simple task, and the condition. -/
def ownTerms (modules : Modules) (t : Task) : List Term :=
  .string t.description :: ((if t.isCompound then [] else [t.moduleTerm modules])
    ++ (t.condition.map (·.toExpr.deferred)).toList)

theorem collect_withCondition (hfind : Selects find) (condition : Option Call) (t : Term) :
    (withCondition condition t).collect find
      = t.collect find ++ collectAll find (condition.map (·.toExpr.deferred)).toList := by
  cases condition with
  | none => simp [withCondition]
  | some c => simp [withCondition, hfind.collect_method]

theorem collect_fieldTerms (hfind : Selects find) (args : Fields) :
    (subtermsFields (fieldTerms args)).filterMap find
      = (args.flatMap fun f => f.2.literals Expr.emitted).filterMap fun l => find (.lit l) := by
  induction args with
  | nil => rfl
  | cons f rest ih =>
      have hfield : f.2.deferred.subterms.filterMap find
          = (f.2.literals Expr.emitted).filterMap fun l => find (.lit l) :=
        Expr.collect_deferred hfind f.2
      rw [fieldTerms] at ih ⊢
      rw [List.map_cons, subtermsFields, List.filterMap_append, hfield, ih, List.flatMap_cons,
        List.filterMap_append]

/-- In the struct of a module, the struct literal and the literals of the arguments are found. -/
theorem collect_moduleTerm (hfind : Selects find) {modules : Modules} {t : Task} {ref : ModuleRef}
    (h : Table.get? (t.moduleName.getD "") modules = some ref) :
    (t.moduleTerm modules).collect find
      = (find (t.moduleTerm modules)).toList
        ++ (t.args.flatMap fun f => f.2.literals Expr.emitted).filterMap fun l => find (.lit l) := by
  have hdefault : (subtermsRest (some (Term.apply "Default::default" []))).filterMap find = [] :=
    hfind.collect_apply "Default::default" []
  rw [moduleTerm, h, collect, subterms]
  rw [← collect_fieldTerms hfind, List.filterMap_cons, List.filterMap_append, hdefault,
    List.append_nil]
  cases find (.record ref.path (fieldTerms t.args) (some (.apply "Default::default" []))) <;> rfl

theorem terms_append (modules : Modules) (ts us : List Task) :
    terms modules (ts ++ us) = terms modules ts ++ terms modules us := by
  induction ts with
  | nil => rfl
  | cons t ts ih => simp [terms, ih]

/-- What is found in the term of a task is found in its own terms or in those of its children. -/
theorem mem_collect_term_cases (hfind : Selects find) (modules : Modules) (b : β) {t : Task}
    (h : t.Shaped) : b ∈ (t.term modules).collect find
      ↔ b ∈ collectAll find (t.ownTerms modules)
        ∨ b ∈ collectAll find (terms modules t.children) := by
  obtain ⟨description, moduleName, condition, args, body, rescue, always, extra, span⟩ := t
  rw [term, collect_withCondition hfind]
  cases body with
  | nil =>
    obtain ⟨rfl, rfl⟩ := h rfl
    simp [isCompound, ownTerms, children, terms, hfind.collect_apply]
  | cons first others =>
    simp only [isCompound, List.isEmpty_cons, Bool.not_false, if_true, hfind.collect_apply,
      hfind.collect_vector, collectAll_cons, collectAll_nil, ownTerms, children, terms_append,
      collectAll_append, List.mem_append, List.nil_append, List.not_mem_nil, or_false, or_assoc]
    -- The condition comes after the children and is one of the own terms.
    refine or_congr_right ?_
    rw [or_comm (a := b ∈ collectAll find (condition.map (·.toExpr.deferred)).toList)]
    simp only [or_assoc]

mutual

/-- What is found in the term of a task is found in what one of the tasks in it has of its own. -/
theorem mem_collect_term (hfind : Selects find) (modules : Modules) (b : β) :
    (t : Task) → t.Throughout Shaped →
    (b ∈ (t.term modules).collect find
      ↔ ∃ u ∈ t.preorder, b ∈ collectAll find (u.ownTerms modules))
  | ⟨description, moduleName, condition, args, body, rescue, always, extra, span⟩, h => by
    obtain ⟨hself, hbody, hrescue, halways⟩ := h
    rw [mem_collect_term_cases hfind modules b hself, preorder_eq, children]
    simp only [terms_append, collectAll_append, preorderAll_append, List.mem_append, List.mem_cons,
      or_and_right, exists_or, exists_eq_left, mem_collect_terms hfind modules b body hbody,
      mem_collect_terms hfind modules b rescue hrescue,
      mem_collect_terms hfind modules b always halways]

theorem mem_collect_terms (hfind : Selects find) (modules : Modules) (b : β) :
    (ts : List Task) → ThroughoutAll Shaped ts →
    (b ∈ collectAll find (terms modules ts)
      ↔ ∃ u ∈ preorderAll ts, b ∈ collectAll find (u.ownTerms modules))
  | [], _ => by simp [terms, preorderAll]
  | t :: ts, h => by
    simp only [terms, preorderAll, collectAll_cons, List.mem_append,
      mem_collect_term hfind modules b t h.1, mem_collect_terms hfind modules b ts h.2,
      or_and_right, exists_or]

end

end Task

/-! ## Plans -/

/-- What is found in the program of a plan is found in its attributes or in what one of its tasks
has of its own. -/
theorem Plan.mem_collect_program (hfind : Term.Selects find) (p : Plan) (modules : Modules)
    (runtimePath : String) (h : p.Throughout Task.Shaped) (b : β) :
    b ∈ (p.program modules runtimePath).collect find
      ↔ b ∈ Term.collectAll find (Expr.attributeFields p.attributes)
        ∨ ∃ t ∈ p.walk, b ∈ Term.collectAll find (t.ownTerms modules) := by
  rw [walk_eq_preorderAll, ← Task.mem_collect_terms hfind modules b p.tasks h]
  simp [Program.collect, program, Program.ofPlaybook, hfind.collect_apply, hfind.collect_vector]

end Playbooks
