import Playbooks.Eval.Expr
import Playbooks.Proofs.Program.Generation

/-!
# What an emitted program builds

A term of an emitted program is read with the definitions of the library that the program runs on.
Names are resolved first, in a table of the library's items; an item is then applied to objects. A
term that does not type, such as one with a sentinel in it, denotes nothing.

## Main definitions

* `Lazy` — values computed on demand from a context.
* `PlaybookObject` — a playbook as a program builds it: tasks with lazy conditions, and modules with
  lazy fields.
* `Item` — what a path of the library leads to, with `Item.ofPath?` and `Item.call?`.
* `Term.denote?`, `Program.playbook?` — the object of a term, the playbook of a program.
-/
namespace Playbooks

/-- A value computed on demand from a context. -/
abbrev Lazy := Context → Arg

namespace Lazy

/-- A value that is known already. -/
def known (v : Value) : Lazy := fun _ => .ok v

/-- Evaluates items in order up to the first that fails. -/
def values (ctx : Context) : List Lazy → Except EvalError (List Value)
  | [] => .ok []
  | l :: ls => do
    let v ← l ctx
    let vs ← values ctx ls
    pure (v :: vs)

/-- Evaluates members in order up to the first that fails; a later member replaces an earlier one
with the same key. -/
def members (ctx : Context) (found : Members) : List (String × Lazy) → Except EvalError Members
  | [] => .ok found
  | (k, l) :: rest => do
    let v ← l ctx
    members ctx (found.insert k v) rest

def array (ls : List Lazy) : Lazy := fun ctx => (values ctx ls).map .array

def object (ls : List (String × Lazy)) : Lazy := fun ctx => (members ctx [] ls).map .object

end Lazy

/-- A module struct: the path of its type and the fields that are given. Other fields are null. -/
structure ModuleObject where
  path : String
  fields : List (Ident × Lazy)

inductive TaskObject where
  | simple (description : String) (condition : Option Lazy) (content : ModuleObject)
  | compound (description : String) (condition : Option Lazy) (body rescue always : List TaskObject)

/-- The task with a condition in place of the one it had. -/
def TaskObject.withCondition (condition : Lazy) : TaskObject → TaskObject
  | simple description _ content => simple description (some condition) content
  | compound description _ body rescue always =>
    compound description (some condition) body rescue always

structure PlaybookObject where
  attributes : Value
  tasks : List TaskObject

/-- What a term stands for. Inside a closure, arguments are functions of the context in scope. -/
inductive Object where
  | literal (l : Literal)
  | value (v : Value)
  /-- The context that the closure around the term is given. -/
  | context
  /-- An argument of a function. -/
  | arg (a : Lazy)
  | closure (body : Lazy)
  | lazy (l : Lazy)
  /-- The fields that a struct literal does not give. -/
  | defaults
  | struct (m : ModuleObject)
  | boxed (m : ModuleObject)
  | task (t : TaskObject)
  | playbook (p : PlaybookObject)
  | vector (items : List Object)
  | tuple (items : List Object)

namespace Object

def value? : Object → Option Value
  | value v => some v
  | _ => none

def arg? : Object → Option Lazy
  | arg a => some a
  | _ => none

def lazy? : Object → Option Lazy
  | lazy l => some l
  | _ => none

def task? : Object → Option TaskObject
  | task t => some t
  | _ => none

/-- A key and what `content` finds in the object beside it. -/
def keyed? {α : Type} (content : Object → Option α) : Object → Option (String × α)
  | tuple [literal (.string k), o] => (content o).map (k, ·)
  | _ => none

/-- The elements of a vector, which must all be of one type. -/
def elements? {α : Type} (element : Object → Option α) : List Object → Option (List α)
  | [] => some []
  | o :: os => do
    let a ← element o
    let as ← elements? element os
    pure (a :: as)

end Object

/-! ## Items of the library -/

/-- The name of the item that implements a function. -/
def Function.itemName : Function → String
  | vars => "vars"
  | state => "state"
  | concat => "concat"
  | join => "join"
  | lower => "lower"
  | upper => "upper"
  | trim => "trim"
  | replace => "replace"
  | split => "split"
  | format => "format"
  | len => "len"
  | add => "add"
  | sub => "sub"
  | mul => "mul"
  | div => "div"
  | mod => "r#mod"
  | eq => "eq"
  | ne => "ne"
  | lt => "lt"
  | le => "le"
  | gt => "gt"
  | ge => "ge"
  | not => "not"
  | and => "and"
  | or => "or"
  | contains => "contains"
  | isEmpty => "is_empty"
  | default => "default"

/-- What a path that is called leads to. -/
inductive Item where
  | lazy
  | lazyFromFn
  | lazyArray
  | lazyObject
  | expandArray
  | expandObject
  | ok
  | valueFrom
  | valueArray
  | object
  | defaultDefault
  | boxNew
  | taskSimple
  | taskCompound
  | playbookNew
  | function (f : Function)

namespace Item

/-- The names in scope of an emitted program. -/
def table : Table Item :=
  [("lazy", lazy), ("Lazy::from_fn", lazyFromFn), ("Lazy::array", lazyArray),
    ("Lazy::object", lazyObject), ("expand_array", expandArray), ("expand_object", expandObject),
    ("Ok", ok), ("Value::from", valueFrom), ("Value::Array", valueArray), ("object", object),
    ("Default::default", defaultDefault), ("Box::new", boxNew), ("Task::simple", taskSimple),
    ("Task::compound", taskCompound), ("Playbook::new", playbookNew)]
    ++ Function.all.map fun f => ("fns::" ++ f.itemName, function f)

def ofPath? (path : String) : Option Item :=
  Table.get? path table

end Item

/-- A literal as a value; a float that is not finite becomes null. -/
def Literal.toValue : Literal → Value
  | string s => .string s
  | int i => .ofInt64 i
  | float x => .ofFloat x
  | bool b => .bool b

namespace Item

open Object in
/-- The object that a call of an item returns. -/
def call? : Item → List Object → Option Object
  | lazy, [.literal l] => some (.lazy (.known l.toValue))
  | lazyFromFn, [.closure body] => some (.lazy body)
  | lazyArray, [.vector os] => (elements? lazy? os).map fun ls => .lazy (.array ls)
  | lazyObject, [.vector os] => (elements? (keyed? lazy?) os).map fun ls => .lazy (.object ls)
  | expandArray, [.context, .vector os] => (elements? lazy? os).map fun ls => .arg (.array ls)
  | expandObject, [.context, .vector os] =>
    (elements? (keyed? lazy?) os).map fun ls => .arg (.object ls)
  | ok, [.value v] => some (.arg (.known v))
  | valueFrom, [.literal l] => some (.value l.toValue)
  | valueArray, [.vector os] => (elements? value? os).map fun vs => .value (.array vs)
  | object, [.vector os] =>
    (elements? (keyed? value?) os).map fun ms => .value (.object (Members.ofList ms))
  | defaultDefault, [] => some .defaults
  | boxNew, [.struct m] => some (.boxed m)
  | taskSimple, [.literal (.string d), .boxed m] => some (.task (.simple d none m))
  | taskCompound, [.literal (.string d), .vector body, .vector rescue, .vector always] => do
    let body ← elements? task? body
    let rescue ← elements? task? rescue
    let always ← elements? task? always
    pure (.task (.compound d none body rescue always))
  | playbookNew, [.value attributes, .vector tasks] => do
    let tasks ← elements? task? tasks
    pure (.playbook ⟨attributes, tasks⟩)
  | function f, [.context, .vector os] => do
    let args ← elements? arg? os
    pure (.arg fun ctx => f.apply ctx (args.map (· ctx)))
  | _, _ => none

end Item

/-! ## Terms -/

namespace Object

/-- A path that is not called: the parameter of the closure around it, or a constant. -/
def ofPath? (scope : Option String) (path : String) : Option Object :=
  if scope = some path then some context
  else if path = "Value::Null" then some (value .null)
  else none

/-- The only method that emitted programs call. -/
def method? (receiver : Object) (name : String) (args : List Object) : Option Object :=
  match receiver, args with
  | task t, [lazy l] => if name = "with_when" then some (task (t.withCondition l)) else none
  | _, _ => none

/-- A struct literal. A field given twice does not compile, and the other fields need defaults. -/
def struct? (path : String) (fields : List (Ident × Object)) (rest : Option Object) :
    Option Object :=
  match rest with
  | some defaults => do
    let given ← elements? lazy? (fields.map Prod.snd)
    if (fields.map Prod.fst).Nodup then
      some (struct ⟨path, (fields.map Prod.fst).zip given⟩)
    else none
  | _ => none

end Object

namespace Term

mutual

/-- The object of a term, with the name of the context in scope. -/
def denote? (scope : Option String) : Term → Option Object
  | path name => Object.ofPath? scope name
  | lit l => some (.literal l)
  | call callee args =>
    match callee with
    | path name => do
      let item ← Item.ofPath? name
      let args ← denoteAll? scope args
      item.call? args
    | _ => none
  | method receiver name args => do
    let receiver ← denote? scope receiver
    let args ← denoteAll? scope args
    receiver.method? name.text args
  | record type fields rest => do
    let fields ← denoteFields? scope fields
    let rest ← denoteRest? scope rest
    Object.struct? type fields rest
  | closure params body =>
    match params with
    | [param] => do
      let o ← denote? (some param.text) body
      let a ← o.arg?
      pure (.closure a)
    | _ => none
  | vector items => do
    let items ← denoteAll? scope items
    pure (.vector items)
  | tuple items => do
    let items ← denoteAll? scope items
    pure (.tuple items)
  | commented _ t => denote? scope t

def denoteAll? (scope : Option String) : List Term → Option (List Object)
  | [] => some []
  | t :: ts => do
    let o ← denote? scope t
    let os ← denoteAll? scope ts
    pure (o :: os)

def denoteFields? (scope : Option String) : List (Ident × Term) → Option (List (Ident × Object))
  | [] => some []
  | (name, t) :: rest => do
    let o ← denote? scope t
    let os ← denoteFields? scope rest
    pure ((name, o) :: os)

def denoteRest? (scope : Option String) : Option Term → Option (Option Object)
  | none => some none
  | some t => do
    let o ← denote? scope t
    pure (some o)

end

end Term

/-- The playbook that the function `playbook` of a program builds. -/
def Program.playbook? (p : Program) : Option PlaybookObject := do
  let f ← p.functions.find? (·.name.text == "playbook")
  match ← f.body.denote? none with
  | .playbook o => some o
  | _ => none

/-! ## Objects of simple terms -/

/-- Vectors whose elements are all of one type. -/
theorem Object.elements?_map {α β : Type} {element : Object → Option β} {embed : α → Object}
    {view : α → β} (h : ∀ a, element (embed a) = some (view a)) (as : List α) :
    elements? element (as.map embed) = some (as.map view) := by
  induction as with
  | nil => rfl
  | cons a as ih => simp [elements?, h, ih]

namespace Term

/-- A call denotes what its item returns for the objects of its arguments. -/
theorem denote?_apply {callee : String} {item : Item} (h : Item.ofPath? callee = some item)
    (scope : Option String) (args : List Term) :
    (apply callee args).denote? scope = (denoteAll? scope args).bind item.call? := by
  rw [apply, denote?, h]
  rfl

theorem denoteAll?_cons {scope : Option String} {t : Term} {ts : List Term} {o : Object}
    {os : List Object} (h : t.denote? scope = some o) (hs : denoteAll? scope ts = some os) :
    denoteAll? scope (t :: ts) = some (o :: os) := by
  rw [denoteAll?, h, hs]
  rfl

theorem denoteAll?_singleton {scope : Option String} {t : Term} {o : Object}
    (h : t.denote? scope = some o) : denoteAll? scope [t] = some [o] :=
  denoteAll?_cons h rfl

theorem denote?_vector {scope : Option String} {ts : List Term} {os : List Object}
    (h : denoteAll? scope ts = some os) : (vector ts).denote? scope = some (.vector os) := by
  rw [denote?, h]
  rfl

theorem denote?_keyedTerm {scope : Option String} {t : Term} {o : Object} (key : String)
    (h : t.denote? scope = some o) :
    (keyedTerm key t).denote? scope = some (.tuple [.literal (.string key), o]) := by
  rw [keyedTerm, denote?, denoteAll?_cons rfl (denoteAll?_singleton h)]
  rfl

/-- The parameter of a closure is in scope in its body. -/
theorem denote?_contextTerm :
    contextTerm.denote? (some contextIdent.text) = some .context := by
  simp [contextTerm, denote?, Object.ofPath?]

end Term

theorem Number.literal_toValue (n : Number) : n.literal.toValue = n.toValue := by
  cases n <;> rfl

theorem denote?_valueFrom (scope : Option String) (l : Literal) :
    (valueFrom l).denote? scope = some (.value l.toValue) := by
  have h : Item.ofPath? "Value::from" = some .valueFrom := rfl
  rw [valueFrom, Term.denote?_apply h]
  rfl

end Playbooks
