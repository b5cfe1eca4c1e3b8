import Mathlib.Data.List.Nodup
import Playbooks.Proofs.Program.Attributes

/-!
# Emission keeps the meaning

A plan can be read directly: every argument and every condition is a lazy value that evaluates the
expression. The program of a plan without defects builds the same playbook.

The two forms in which an expression is emitted, lazy and as an argument inside a closure, are
followed together, since each contains the other.
-/
namespace Playbooks

/-! ## Plans read directly -/

/-- The value of an expression on demand. -/
def Expr.lazy (e : Expr) : Lazy := fun ctx => e.eval ctx

namespace Task

/-- The fields that arguments give to a module struct. -/
def fieldObjects? : Fields → Option (List (Ident × Lazy))
  | [] => some []
  | (key, e) :: rest => do
    let name ← Ident.ofKebab? key
    let others ← fieldObjects? rest
    pure ((name, e.lazy) :: others)

/-- The struct of the module that a task names. -/
def moduleObject? (modules : Modules) (name : String) (args : Fields) : Option ModuleObject := do
  let ref ← Table.get? name modules
  let fields ← fieldObjects? args
  pure ⟨ref.path, fields⟩

mutual

/-- The object of a task, read off the task itself. -/
def object? (modules : Modules) : Task → Option TaskObject
  | ⟨description, moduleName, condition, args, body, rescue, always, _, _⟩ =>
    let condition := condition.map (·.toExpr.lazy)
    if body.isEmpty then do
      let content ← moduleObject? modules (moduleName.getD "") args
      pure (.simple description condition content)
    else do
      let body ← objects? modules body
      let rescue ← objects? modules rescue
      let always ← objects? modules always
      pure (.compound description condition body rescue always)

def objects? (modules : Modules) : List Task → Option (List TaskObject)
  | [] => some []
  | t :: ts => do
    let o ← object? modules t
    let os ← objects? modules ts
    pure (o :: os)

end

/-- The fields of a module struct are different for different arguments. -/
def FieldsDiffer (t : Task) : Prop :=
  (t.args.map fun (key, _) => Ident.ofKebab? key).Nodup

end Task

/-- The playbook of a plan, read off the plan itself. -/
def Plan.object? (p : Plan) (modules : Modules) : Option PlaybookObject := do
  let tasks ← Task.objects? modules p.tasks
  pure ⟨(Expr.object p.attributes).toValue, tasks⟩

/-! ## Names -/

/-- A function is emitted under the name of the item that implements it. -/
theorem functionIdent?_name (f : Function) : functionIdent? f.name = some ⟨f.itemName⟩ := by
  cases f <;> decide +kernel

theorem Item.ofPath?_itemName (f : Function) :
    Item.ofPath? ("fns::" ++ f.itemName) = some (.function f) := by
  cases f <;> rfl

theorem Function.name_of_ofName? {name : String} {f : Function}
    (h : Function.ofName? name = some f) : f.name = name := by
  have hf := List.find?_some h
  simpa using hf

/-- The name mapping leads to the function that the name stands for. -/
theorem exists_function_of_functionIdent? {name : String} {ident : Ident}
    (h : functionIdent? name = some ident) :
    ∃ f, Function.ofName? name = some f
      ∧ Item.ofPath? ("fns::" ++ ident.text) = some (.function f) := by
  unfold functionIdent? at h
  obtain ⟨f, hf, -⟩ := Option.bind_eq_some_iff.mp h
  have hname := Function.name_of_ofName? hf
  have hident : functionIdent? name = some ⟨f.itemName⟩ := hname ▸ functionIdent?_name f
  have heq : ident = ⟨f.itemName⟩ := by
    unfold functionIdent? at hident
    exact Option.some.inj (h.symm.trans hident)
  refine ⟨f, hf, ?_⟩
  rw [heq]
  exact Item.ofPath?_itemName f

/-! ## Evaluation through lazy values -/

namespace Lazy

theorem values_map_lazy (ctx : Context) (es : List Expr) :
    values ctx (es.map Expr.lazy) = Expr.evalItems ctx es := by
  induction es with
  | nil => rfl
  | cons e es ih => rw [List.map_cons, values, ih, Expr.evalItems, Expr.lazy]

theorem members_map_lazy (ctx : Context) (fields : List (String × Expr)) (found : Members) :
    members ctx found (fields.map fun (k, e) => (k, e.lazy))
      = Expr.evalFields ctx found fields := by
  induction fields generalizing found with
  | nil => rfl
  | cons field fields ih =>
      rw [List.map_cons, members, Expr.evalFields, Expr.lazy]
      simp only [ih]

theorem array_map_lazy (es : List Expr) : array (es.map Expr.lazy) = (Expr.array es).lazy := by
  funext ctx
  rw [array, values_map_lazy, Expr.lazy, Expr.eval]

theorem object_map_lazy (fields : List (String × Expr)) :
    object (fields.map fun (k, e) => (k, e.lazy)) = (Expr.object fields).lazy := by
  funext ctx
  rw [object, members_map_lazy, Expr.lazy, Expr.eval]

end Lazy

theorem map_lazy_eq_evalArgs (ctx : Context) (es : List Expr) :
    (es.map Expr.lazy).map (· ctx) = Expr.evalArgs ctx es := by
  induction es with
  | nil => rfl
  | cons e es ih => rw [List.map_cons, List.map_cons, ih, Expr.evalArgs, Expr.lazy]

/-- Calling the function of a name on lazy arguments evaluates the call. -/
theorem apply_eq_lazy_call {name : String} {f : Function} (h : Function.ofName? name = some f)
    (es : List Expr) :
    (fun ctx => f.apply ctx ((es.map Expr.lazy).map (· ctx))) = (Expr.call name es).lazy := by
  funext ctx
  rw [map_lazy_eq_evalArgs, Expr.lazy, Expr.eval, Function.call, h]

/-! ## Terms of expressions -/

/-- A key with a lazy value, as a program writes it. -/
def Object.ofLazyMember (key : String) (l : Lazy) : Object :=
  .tuple [.literal (.string key), .lazy l]

namespace Expr

theorem denote?_lazyLiteral (scope : Option String) (l : Literal) :
    (lazyLiteral l).denote? scope = some (.lazy (.known l.toValue)) := by
  have h : Item.ofPath? "lazy" = some .lazy := rfl
  rw [lazyLiteral, Term.denote?_apply h]
  rfl

theorem denote?_okLiteral (scope : Option String) (l : Literal) :
    (okLiteral l).denote? scope = some (.arg (.known l.toValue)) := by
  have h : Item.ofPath? "Ok" = some .ok := rfl
  rw [okLiteral, Term.denote?_apply h, Term.denoteAll?_singleton (denote?_valueFrom scope l)]
  rfl

/-- A closure over a call is a lazy value, whatever is in scope around it. -/
theorem denote?_lazyCall {call : Term} {a : Lazy}
    (h : call.denote? (some contextIdent.text) = some (.arg a)) (scope : Option String) :
    (lazyCall call).denote? scope = some (.lazy a) := by
  have hitem : Item.ofPath? "Lazy::from_fn" = some .lazyFromFn := rfl
  have hclosure : (Term.closure [contextIdent] call).denote? scope = some (.closure a) := by
    rw [Term.denote?, h]
    rfl
  rw [lazyCall, Term.denote?_apply hitem, Term.denoteAll?_singleton hclosure]
  rfl

/-- A call of a known function evaluates the call. -/
theorem denote?_callTerm {name : String} {args : List Term} {es : List Expr}
    (hname : (functionIdent? name).isSome)
    (hargs : Term.denoteAll? (some contextIdent.text) args = some (es.map fun e => .arg e.lazy)) :
    (callTerm name args).denote? (some contextIdent.text) = some (.arg (call name es).lazy) := by
  obtain ⟨ident, hident⟩ := Option.isSome_iff_exists.mp hname
  obtain ⟨f, hf, hitem⟩ := exists_function_of_functionIdent? hident
  have hobjects := Term.denoteAll?_cons Term.denote?_contextTerm
    (Term.denoteAll?_singleton (Term.denote?_vector hargs))
  have hviews : Object.elements? Object.arg? (es.map fun e => .arg e.lazy)
      = some (es.map Expr.lazy) := Object.elements?_map (by intro e; rfl) es
  rw [callTerm, hident]
  simp only
  rw [Term.denote?_apply hitem, hobjects, Option.bind_some, Item.call?, hviews,
    ← apply_eq_lazy_call hf es]
  rfl

theorem elements?_lazies (es : List Expr) :
    Object.elements? Object.lazy? (es.map fun e => .lazy e.lazy) = some (es.map Expr.lazy) :=
  Object.elements?_map (by intro e; rfl) es

theorem elements?_lazyMembers (fields : List (String × Expr)) :
    Object.elements? (Object.keyed? Object.lazy?)
        (fields.map fun (k, e) => Object.ofLazyMember k e.lazy)
      = some (fields.map fun (k, e) => (k, e.lazy)) :=
  Object.elements?_map (by rintro ⟨k, e⟩; rfl) fields

theorem defects_call_eq_nil {name : String} {args : List Expr}
    (h : (call name args).defects = []) :
    (functionIdent? name).isSome ∧ defectsAll args = [] := by
  rw [defects] at h
  split at h
  · next hname => exact ⟨hname, h⟩
  · simp at h

mutual

theorem denote?_deferred (scope : Option String) :
    (e : Expr) → e.defects = [] → e.deferred.denote? scope = some (.lazy e.lazy)
  | string s, _ => denote?_lazyLiteral scope (.string s)
  | bool b, _ => denote?_lazyLiteral scope (.bool b)
  | number n, _ => by
    rw [deferred, denote?_lazyLiteral, Number.literal_toValue]
    rfl
  | call name args, h => by
    obtain ⟨hname, hargs⟩ := defects_call_eq_nil h
    rw [deferred]
    exact denote?_lazyCall (denote?_callTerm hname (denoteAll?_arguments args hargs)) scope
  | array items, h => by
    have hitem : Item.ofPath? "Lazy::array" = some .lazyArray := rfl
    have hitems := Term.denote?_vector (denoteAll?_deferredItems scope items h)
    rw [deferred, Term.denote?_apply hitem, Term.denoteAll?_singleton hitems, Option.bind_some,
      Item.call?, elements?_lazies, ← Lazy.array_map_lazy]
    rfl
  | object fields, h => by
    have hitem : Item.ofPath? "Lazy::object" = some .lazyObject := rfl
    have hfields := Term.denote?_vector (denoteAll?_deferredFields scope fields h)
    rw [deferred, Term.denote?_apply hitem, Term.denoteAll?_singleton hfields, Option.bind_some,
      Item.call?, elements?_lazyMembers, ← Lazy.object_map_lazy]
    rfl
  | unknown, h => by simp [defects] at h

theorem denote?_argument :
    (e : Expr) → e.defects = [] →
      e.argument.denote? (some contextIdent.text) = some (.arg e.lazy)
  | string s, _ => denote?_okLiteral _ (.string s)
  | bool b, _ => denote?_okLiteral _ (.bool b)
  | number n, _ => by
    rw [argument, denote?_okLiteral, Number.literal_toValue]
    rfl
  | call name args, h => by
    obtain ⟨hname, hargs⟩ := defects_call_eq_nil h
    rw [argument]
    exact denote?_callTerm hname (denoteAll?_arguments args hargs)
  | array items, h => by
    have hitem : Item.ofPath? "expand_array" = some .expandArray := rfl
    have hitems := Term.denoteAll?_cons Term.denote?_contextTerm (Term.denoteAll?_singleton
      (Term.denote?_vector (denoteAll?_deferredItems (some contextIdent.text) items h)))
    rw [argument, Term.denote?_apply hitem, hitems, Option.bind_some, Item.call?, elements?_lazies,
      ← Lazy.array_map_lazy]
    rfl
  | object fields, h => by
    have hitem : Item.ofPath? "expand_object" = some .expandObject := rfl
    have hfields := Term.denoteAll?_cons Term.denote?_contextTerm (Term.denoteAll?_singleton
      (Term.denote?_vector (denoteAll?_deferredFields (some contextIdent.text) fields h)))
    rw [argument, Term.denote?_apply hitem, hfields, Option.bind_some, Item.call?,
      elements?_lazyMembers, ← Lazy.object_map_lazy]
    rfl
  | unknown, h => by simp [defects] at h

theorem denoteAll?_arguments :
    (es : List Expr) → defectsAll es = [] →
      Term.denoteAll? (some contextIdent.text) (arguments es)
        = some (es.map fun e => .arg e.lazy)
  | [], _ => rfl
  | e :: es, h => by
    rw [defectsAll, List.append_eq_nil_iff] at h
    rw [arguments, List.map_cons]
    exact Term.denoteAll?_cons (denote?_argument e h.1) (denoteAll?_arguments es h.2)

theorem denoteAll?_deferredItems (scope : Option String) :
    (es : List Expr) → defectsAll es = [] →
      Term.denoteAll? scope (deferredItems es) = some (es.map fun e => .lazy e.lazy)
  | [], _ => rfl
  | e :: es, h => by
    rw [defectsAll, List.append_eq_nil_iff] at h
    rw [deferredItems, List.map_cons]
    exact Term.denoteAll?_cons (denote?_deferred scope e h.1)
      (denoteAll?_deferredItems scope es h.2)

theorem denoteAll?_deferredFields (scope : Option String) :
    (fields : List (String × Expr)) → fieldDefects fields = [] →
      Term.denoteAll? scope (deferredFields fields)
        = some (fields.map fun (k, e) => Object.ofLazyMember k e.lazy)
  | [], _ => rfl
  | (k, e) :: rest, h => by
    rw [fieldDefects, List.append_eq_nil_iff] at h
    rw [deferredFields, List.map_cons]
    exact Term.denoteAll?_cons (Term.denote?_keyedTerm k (denote?_deferred scope e h.1))
      (denoteAll?_deferredFields scope rest h.2)

end

end Expr

/-! ## Terms of tasks -/

namespace Task

/-- An argument without defects names a field and has a lazy value. -/
theorem argDefects_cons_eq_nil {key : String} {e : Expr} {rest : Fields}
    (h : argDefects ((key, e) :: rest) = []) :
    Ident.ofKebab? key = some (fieldIdent key) ∧ e.defects = [] ∧ argDefects rest = [] := by
  simp only [argDefects, List.flatMap_cons, List.append_eq_nil_iff] at h
  obtain ⟨⟨hkey, he⟩, hrest⟩ := h
  split at hkey
  · next hsome =>
    obtain ⟨ident, hident⟩ := Option.isSome_iff_exists.mp hsome
    exact ⟨by rw [fieldIdent, hident, Option.getD_some], he, hrest⟩
  · simp at hkey

theorem ofKebab?_map_eq {args : Fields} (h : argDefects args = []) :
    (args.map fun (key, _) => Ident.ofKebab? key)
      = (args.map fun (key, _) => fieldIdent key).map some := by
  induction args with
  | nil => rfl
  | cons arg rest ih =>
      obtain ⟨hkey, -, hrest⟩ := argDefects_cons_eq_nil h
      simp only [List.map_cons, ih hrest, hkey]

theorem denoteFields?_fieldTerms (scope : Option String) {args : Fields}
    (h : argDefects args = []) :
    Term.denoteFields? scope (fieldTerms args)
      = some (args.map fun (key, e) => (fieldIdent key, .lazy e.lazy)) := by
  induction args with
  | nil => rfl
  | cons arg rest ih =>
      obtain ⟨-, he, hrest⟩ := argDefects_cons_eq_nil h
      have hfields := ih hrest
      rw [fieldTerms] at hfields ⊢
      rw [List.map_cons, Term.denoteFields?, Expr.denote?_deferred scope arg.2 he, hfields]
      rfl

theorem fieldObjects?_eq {args : Fields} (h : argDefects args = []) :
    fieldObjects? args = some (args.map fun (key, e) => (fieldIdent key, e.lazy)) := by
  induction args with
  | nil => rfl
  | cons arg rest ih =>
      obtain ⟨hkey, -, hrest⟩ := argDefects_cons_eq_nil h
      rw [fieldObjects?, hkey, ih hrest]
      rfl

/-- A struct literal with different fields, each of them lazy. -/
theorem struct?_fields (path : String) {args : Fields}
    (hdiffer : (args.map fun (key, _) => fieldIdent key).Nodup) :
    Object.struct? path (args.map fun (key, e) => (fieldIdent key, .lazy e.lazy)) (some .defaults)
      = some (.struct ⟨path, args.map fun (key, e) => (fieldIdent key, e.lazy)⟩) := by
  have hgiven : Object.elements? Object.lazy? (args.map fun (_, e) => .lazy e.lazy)
      = some (args.map fun (_, e) => e.lazy) := Object.elements?_map (by intro arg; rfl) args
  simp only [Object.struct?, List.map_map]
  change (Object.elements? Object.lazy? (args.map fun (_, e) => .lazy e.lazy)).bind _ = _
  rw [hgiven, Option.bind_some]
  change (if (args.map fun (key, _) => fieldIdent key).Nodup then _ else _) = _
  rw [if_pos hdiffer]
  change some (Object.struct ⟨path, (args.map fun (key, _) => fieldIdent key).zip _⟩) = _
  rw [List.zip_map']

/-- The struct of a module whose name and arguments can be resolved. -/
theorem denote?_moduleTerm {modules : Modules} {t : Task} (h : t.moduleDefects modules = [])
    (hdiffer : t.FieldsDiffer) :
    ∃ content, moduleObject? modules (t.moduleName.getD "") t.args = some content
      ∧ (t.moduleTerm modules).denote? none = some (.struct content) := by
  simp only [moduleDefects] at h
  split at h
  · next hcontains =>
    obtain ⟨ref, href⟩ := Table.exists_get?_of_mem_keys (Table.contains_iff.mp hcontains)
    have hfields := ofKebab?_map_eq h
    have hnodup : (t.args.map fun (key, _) => fieldIdent key).Nodup := by
      rw [FieldsDiffer, hfields] at hdiffer
      exact List.Nodup.of_map some hdiffer
    refine ⟨⟨ref.path, t.args.map fun (key, e) => (fieldIdent key, e.lazy)⟩, ?_, ?_⟩
    · rw [moduleObject?, href, fieldObjects?_eq h]
      rfl
    · have hrest : (Term.apply "Default::default" []).denote? none = some .defaults :=
        Term.denote?_apply
          (show Item.ofPath? "Default::default" = some .defaultDefault from rfl) none []
      rw [moduleTerm, href]
      simp only [Term.denote?, denoteFields?_fieldTerms none h, Term.denoteRest?, hrest]
      exact struct?_fields ref.path hnodup
  · simp at h

/-- The object of a task with a condition that may be absent. -/
theorem denote?_withCondition {condition : Option Call} {t : Term} {o : TaskObject}
    (hc : conditionDefects condition = []) (ht : t.denote? none = some (.task o)) :
    (withCondition condition t).denote? none
      = some (.task (condition.elim o fun c => o.withCondition c.toExpr.lazy)) := by
  cases condition with
  | none => exact ht
  | some c =>
      have hlazy := Term.denoteAll?_singleton (Expr.denote?_deferred none c.toExpr hc)
      rw [withCondition, Term.denote?, ht, hlazy]
      rfl

theorem denote?_simpleTerm {t : Term} {content : ModuleObject} (description : String)
    (h : t.denote? none = some (.struct content)) :
    (Term.apply "Task::simple" [.string description, .apply "Box::new" [t]]).denote? none
      = some (.task (.simple description none content)) := by
  have hsimple : Item.ofPath? "Task::simple" = some .taskSimple := rfl
  have hbox : Item.ofPath? "Box::new" = some .boxNew := rfl
  have hboxed : (Term.apply "Box::new" [t]).denote? none = some (.boxed content) := by
    rw [Term.denote?_apply hbox, Term.denoteAll?_singleton h]
    rfl
  have hname : (Term.string description).denote? none = some (.literal (.string description)) := rfl
  rw [Term.denote?_apply hsimple, Term.denoteAll?_cons hname (Term.denoteAll?_singleton hboxed)]
  rfl

theorem elements?_tasks (os : List TaskObject) :
    Object.elements? Object.task? (os.map Object.task) = some os := by
  have h : Object.elements? Object.task? (os.map Object.task) = some (os.map id) :=
    Object.elements?_map (by intro o; rfl) os
  rwa [List.map_id] at h

theorem denote?_compoundTerm {body rescue always : List Term} {bs rs as : List TaskObject}
    (description : String) (hbody : Term.denoteAll? none body = some (bs.map Object.task))
    (hrescue : Term.denoteAll? none rescue = some (rs.map Object.task))
    (halways : Term.denoteAll? none always = some (as.map Object.task)) :
    (Term.apply "Task::compound"
        [.string description, .vector body, .vector rescue, .vector always]).denote? none
      = some (.task (.compound description none bs rs as)) := by
  have hitem : Item.ofPath? "Task::compound" = some .taskCompound := rfl
  have hname : (Term.string description).denote? none = some (.literal (.string description)) := rfl
  have hparts := Term.denoteAll?_cons (Term.denote?_vector hbody)
    (Term.denoteAll?_cons (Term.denote?_vector hrescue)
      (Term.denoteAll?_singleton (Term.denote?_vector halways)))
  rw [Term.denote?_apply hitem, Term.denoteAll?_cons hname hparts, Option.bind_some, Item.call?]
  simp only [elements?_tasks]
  rfl

mutual

/-- The term of a task without defects denotes the object of the task. -/
theorem denote?_term (modules : Modules) :
    (t : Task) → t.diagnostics modules = [] →
      t.Throughout (fun u => u.isCompound = false → u.FieldsDiffer) →
      ∃ o, t.object? modules = some o ∧ (t.term modules).denote? none = some (.task o)
  | ⟨description, moduleName, condition, args, body, rescue, always, extra, span⟩, h, hdiffer => by
    obtain ⟨hself, hbody, hrescue, halways⟩ := hdiffer
    simp only [diagnostics, List.append_eq_nil_iff, List.map_eq_nil_iff] at h
    obtain ⟨hcontent, hcondition⟩ := h
    rw [term, object?]
    cases hempty : body.isEmpty with
    | true =>
        have hsimple : isCompound ⟨description, moduleName, condition, args, body, rescue, always,
            extra, span⟩ = false := by simp [isCompound, hempty]
        rw [hsimple] at hcontent
        obtain ⟨content, hobject, hmodule⟩ := denote?_moduleTerm
          (List.map_eq_nil_iff.mp hcontent) (hself hsimple)
        refine ⟨.simple description (condition.map (·.toExpr.lazy)) content, ?_, ?_⟩
        · simp only [if_true, hobject]
          rfl
        · simp only [hsimple]
          rw [if_neg Bool.false_ne_true,
            denote?_withCondition hcondition (denote?_simpleTerm description hmodule)]
          cases condition <;> rfl
    | false =>
        have hcompound : isCompound ⟨description, moduleName, condition, args, body, rescue, always,
            extra, span⟩ = true := by simp [isCompound, hempty]
        rw [hcompound, if_pos rfl, List.append_eq_nil_iff, List.append_eq_nil_iff] at hcontent
        obtain ⟨⟨hb, hr⟩, ha⟩ := hcontent
        obtain ⟨bs, hbs, hbody⟩ := denoteAll?_terms modules body hb hbody
        obtain ⟨rs, hrs, hrescue⟩ := denoteAll?_terms modules rescue hr hrescue
        obtain ⟨as, has, halways⟩ := denoteAll?_terms modules always ha halways
        refine ⟨.compound description (condition.map (·.toExpr.lazy)) bs rs as, ?_, ?_⟩
        · simp only [Bool.false_eq_true, if_false, hbs, hrs, has]
          rfl
        · simp only [hcompound, if_true]
          rw [denote?_withCondition hcondition
            (denote?_compoundTerm description hbody hrescue halways)]
          cases condition <;> rfl

theorem denoteAll?_terms (modules : Modules) :
    (ts : List Task) → diagnosticsAll modules ts = [] →
      ThroughoutAll (fun u => u.isCompound = false → u.FieldsDiffer) ts →
      ∃ os, objects? modules ts = some os
        ∧ Term.denoteAll? none (terms modules ts) = some (os.map Object.task)
  | [], _, _ => ⟨[], rfl, rfl⟩
  | t :: ts, h, hdiffer => by
    rw [diagnosticsAll, List.append_eq_nil_iff] at h
    obtain ⟨o, ho, hterm⟩ := denote?_term modules t h.1 hdiffer.1
    obtain ⟨os, hos, hterms⟩ := denoteAll?_terms modules ts h.2 hdiffer.2
    refine ⟨o :: os, ?_, ?_⟩
    · rw [objects?, ho, hos]
      rfl
    · rw [terms, List.map_cons]
      exact Term.denoteAll?_cons hterm hterms

end

end Task

/-- Emission keeps the meaning of a plan: a program without defects builds the playbook that the
plan describes. Its tasks have the same descriptions, nesting, order and modules, and each argument
and condition is a lazy value that evaluates the expression in every context. -/
theorem Plan.playbook?_emit (p : Plan) (modules : Modules) (runtimePath : String)
    (hresolved : (p.emit modules runtimePath).diagnostics = [])
    (hdiffer : p.Throughout fun t => t.isCompound = false → t.FieldsDiffer) :
    ∃ o, p.object? modules = some o ∧ (p.emit modules runtimePath).program.playbook? = some o := by
  simp only [diagnostics_emit, diagnostics, List.append_eq_nil_iff, List.map_eq_nil_iff]
    at hresolved
  obtain ⟨hattributes, htasks⟩ := hresolved
  obtain ⟨os, hos, hterms⟩ := Task.denoteAll?_terms modules p.tasks htasks hdiffer
  have hobject :=
    Value.denote?_objectTerm (Expr.denoteAll?_attributeFields p.attributes hattributes)
  rw [Expr.ofList_fieldValues] at hobject
  have hitem : Item.ofPath? "Playbook::new" = some .playbookNew := rfl
  have hbody := Term.denote?_apply hitem none
    [.apply "object" [.vector (Expr.attributeFields p.attributes)],
      .vector (Task.terms modules p.tasks)]
  rw [Term.denoteAll?_cons hobject (Term.denoteAll?_singleton (Term.denote?_vector hterms)),
    Option.bind_some, Item.call?, Task.elements?_tasks] at hbody
  refine ⟨⟨(Expr.object p.attributes).toValue, os⟩, ?_, ?_⟩
  · rw [Plan.object?, hos]
    rfl
  · have hfind : (p.emit modules runtimePath).program.functions.find? (·.name.text == "playbook")
        = (p.emit modules runtimePath).program.functions.head? := by
      simp [program_emit, program, Program.ofPlaybook]
    rw [Program.playbook?, hfind]
    simp only [program_emit, program, Program.ofPlaybook, List.head?_cons]
    change (Term.denote? none _).bind _ = _
    rw [hbody]
    rfl

/-- A block with a condition, a rescue clause and arguments of every kind. -/
def rescuedGreeting : Plan where
  attributes := [("name", .string "greet"), ("owner", .call "vars" [.string "team"])]
  tasks := [
    { description := "outer"
      condition := some ⟨"not", [.call "is-empty" [.call "vars" [.string "host"]]]⟩
      body := [
        { description := "greet"
          moduleName := some "debug"
          args := [
            ("msg", .call "concat"
              [.string "a", .array [.number (.int 1), .call "mod" [.number (.int 7)]]]),
            ("on-error", .object [("retry", .bool true), ("hosts", .array [.call "vars" []])])] }]
      rescue := [{ description := "recover", moduleName := some "fail" }] }]

/-- The modules that `rescuedGreeting` uses. -/
def greetingModules : Modules :=
  [("debug", { name := "debug", path := "m::Debug" }),
    ("fail", { name := "fail", path := "m::Fail" })]

theorem playbook?_emit_rescuedGreeting :
    (rescuedGreeting.emit greetingModules "rt").diagnostics = [] ∧
    ∃ o, rescuedGreeting.object? greetingModules = some o ∧
      (rescuedGreeting.emit greetingModules "rt").program.playbook? = some o := by
  have hresolved : (rescuedGreeting.emit greetingModules "rt").diagnostics = [] := by
    decide +kernel
  refine ⟨hresolved, rescuedGreeting.playbook?_emit _ "rt" hresolved ?_⟩
  simp only [Plan.Throughout, rescuedGreeting, Task.ThroughoutAll, Task.Throughout,
    Task.FieldsDiffer]
  decide +kernel

end Playbooks
