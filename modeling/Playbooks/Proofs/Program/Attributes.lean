import Mathlib.Data.String.Basic
import Playbooks.Proofs.Program.Meaning

/-!
# Attributes in emitted programs

The attributes of a playbook are emitted as a value. A value can be written as a term and read back
if its objects list their members in order and its integers fit a signed word; every serialized
expression is such a value.

## Main results

* `Expr.denote?_attributeTerm`: the term of an attribute denotes its serialized form.
* `Plan.value_of_attributes`: the attributes of an emitted program have a value exactly if emitting
  them gave no diagnostic, and it is their serialized form.
-/
namespace Playbooks

/-! ## Members in order -/

namespace Members

/-- The keys are strictly increasing. -/
def Ordered (members : Members) : Prop :=
  members.Pairwise fun a b => a.1 < b.1

theorem mem_insert {key : String} {value : Value} {members : Members} {m : String × Value}
    (h : m ∈ members.insert key value) : m = (key, value) ∨ m ∈ members := by
  induction members with
  | nil => simpa [insert] using h
  | cons first rest ih =>
      obtain ⟨k, v⟩ := first
      simp only [insert] at h
      split at h
      · simpa using h
      · split at h
        · rcases List.mem_cons.mp h with h | h
          · exact Or.inl h
          · exact Or.inr (List.mem_cons_of_mem _ h)
        · rcases List.mem_cons.mp h with h | h
          · exact Or.inr (h ▸ List.mem_cons_self)
          · exact (ih h).imp_right (List.mem_cons_of_mem _)

theorem Ordered.insert {members : Members} (h : members.Ordered) (key : String) (value : Value) :
    (members.insert key value).Ordered := by
  induction members with
  | nil => simp [Members.insert, Ordered]
  | cons first rest ih =>
      obtain ⟨k, v⟩ := first
      have hrest := List.pairwise_cons.mp h
      simp only [Members.insert]
      split
      · next hlt =>
        refine List.pairwise_cons.mpr ⟨?_, h⟩
        intro m hm
        rcases List.mem_cons.mp hm with rfl | hm
        · exact hlt
        · exact lt_trans hlt (hrest.1 m hm)
      · next hnlt =>
        split
        · next heq => exact List.pairwise_cons.mpr ⟨heq ▸ hrest.1, hrest.2⟩
        · next hne =>
          refine List.pairwise_cons.mpr ⟨?_, ih hrest.2⟩
          intro m hm
          rcases mem_insert hm with rfl | hm
          · exact lt_of_le_of_ne (not_lt.mp hnlt) (Ne.symm hne)
          · exact hrest.1 m hm

/-- A member with the greatest key goes to the end. -/
theorem insert_eq_append {members : Members} {key : String} {value : Value}
    (h : ∀ m ∈ members, m.1 < key) : members.insert key value = members ++ [(key, value)] := by
  induction members with
  | nil => rfl
  | cons first rest ih =>
      obtain ⟨k, v⟩ := first
      have hk : k < key := h (k, v) List.mem_cons_self
      rw [insert, if_neg (lt_asymm hk), if_neg (ne_of_gt hk),
        ih fun m hm => h m (List.mem_cons_of_mem _ hm)]
      rfl

private theorem foldl_insert_of_ordered (front back : Members) (h : (front ++ back).Ordered) :
    back.foldl (fun members (key, value) => members.insert key value) front = front ++ back := by
  induction back generalizing front with
  | nil => simp
  | cons first rest ih =>
      obtain ⟨k, v⟩ := first
      have hlt : ∀ m ∈ front, m.1 < k := by
        intro m hm
        exact (List.pairwise_append.mp h).2.2 m hm (k, v) List.mem_cons_self
      have hassoc : front ++ [(k, v)] ++ rest = front ++ (k, v) :: rest := by simp
      rw [List.foldl_cons]
      change rest.foldl _ (front.insert k v) = _
      rw [insert_eq_append hlt, ih _ (hassoc ▸ h), hassoc]

/-- Members that are in order stay as they are when they are put in one after the other. -/
theorem ofList_of_ordered {members : Members} (h : members.Ordered) : ofList members = members :=
  foldl_insert_of_ordered [] members h

end Members

/-! ## Values that can be written -/

namespace Value

mutual

/-- Objects list their members in order, and integers fit a signed word. -/
def Writable : Value → Prop
  | null | bool _ | string _ => True
  | number n => (Number.ofNumeral n).toValue = .number n
  | array items => WritableItems items
  | object members => Members.Ordered members ∧ WritableMembers members

def WritableItems : List Value → Prop
  | [] => True
  | v :: vs => v.Writable ∧ WritableItems vs

def WritableMembers : List (String × Value) → Prop
  | [] => True
  | (_, v) :: rest => v.Writable ∧ WritableMembers rest

end

theorem writableMembers_iff (members : List (String × Value)) :
    WritableMembers members ↔ ∀ m ∈ members, m.2.Writable := by
  induction members with
  | nil => simp [WritableMembers]
  | cons m rest ih =>
      obtain ⟨k, v⟩ := m
      simp [WritableMembers, ih]

theorem WritableMembers.insert {members : Members} {value : Value} (h : WritableMembers members)
    (hv : value.Writable) (key : String) : WritableMembers (members.insert key value) := by
  rw [writableMembers_iff] at h ⊢
  intro m hm
  rcases Members.mem_insert hm with rfl | hm
  · exact hv
  · exact h m hm

/-- A key with a value, as a program writes it. -/
def member (m : String × Value) : Object :=
  .tuple [.literal (.string m.1), .value m.2]

theorem elements?_values (vs : List Value) :
    Object.elements? Object.value? (vs.map Object.value) = some vs := by
  have h : Object.elements? Object.value? (vs.map Object.value) = some (vs.map id) :=
    Object.elements?_map (by intro v; rfl) vs
  rwa [List.map_id] at h

theorem elements?_members (ms : List (String × Value)) :
    Object.elements? (Object.keyed? Object.value?) (ms.map member) = some ms := by
  have h : Object.elements? (Object.keyed? Object.value?) (ms.map member) = some (ms.map id) :=
    Object.elements?_map (by intro m; rfl) ms
  rwa [List.map_id] at h

theorem denote?_arrayTerm {scope : Option String} {ts : List Term} {vs : List Value}
    (h : Term.denoteAll? scope ts = some (vs.map Object.value)) :
    (Term.apply "Value::Array" [.vector ts]).denote? scope = some (.value (.array vs)) := by
  have hitem : Item.ofPath? "Value::Array" = some .valueArray := rfl
  rw [Term.denote?_apply hitem, Term.denoteAll?_singleton (Term.denote?_vector h),
    Option.bind_some, Item.call?, elements?_values]
  rfl

theorem denote?_objectTerm {scope : Option String} {ts : List Term} {ms : List (String × Value)}
    (h : Term.denoteAll? scope ts = some (ms.map member)) :
    (Term.apply "object" [.vector ts]).denote? scope
      = some (.value (.object (Members.ofList ms))) := by
  have hitem : Item.ofPath? "object" = some .object := rfl
  rw [Term.denote?_apply hitem, Term.denoteAll?_singleton (Term.denote?_vector h),
    Option.bind_some, Item.call?, elements?_members]
  rfl

mutual

/-- The term of a value reads back as the value. -/
theorem denote?_term :
    (v : Value) → v.Writable → v.term.denote? none = some (.value v)
  | null, _ => by simp [term, Term.denote?, Object.ofPath?]
  | bool b, _ => denote?_valueFrom none (.bool b)
  | string s, _ => denote?_valueFrom none (.string s)
  | number n, h => by
    rw [term, denote?_valueFrom, Number.literal_toValue]
    exact congrArg (some ∘ Object.value) h
  | array items, h => by
    rw [term]
    exact denote?_arrayTerm (denoteAll?_itemTerms items h)
  | object members, h => by
    rw [term, denote?_objectTerm (denoteAll?_memberTerms members h.2),
      Members.ofList_of_ordered h.1]

theorem denoteAll?_itemTerms :
    (vs : List Value) → WritableItems vs →
      Term.denoteAll? none (itemTerms vs) = some (vs.map Object.value)
  | [], _ => rfl
  | v :: vs, h => by
    rw [itemTerms, List.map_cons]
    exact Term.denoteAll?_cons (denote?_term v h.1) (denoteAll?_itemTerms vs h.2)

theorem denoteAll?_memberTerms :
    (ms : List (String × Value)) → WritableMembers ms →
      Term.denoteAll? none (memberTerms ms) = some (ms.map member)
  | [], _ => rfl
  | (k, v) :: rest, h => by
    rw [memberTerms, List.map_cons]
    exact Term.denoteAll?_cons (Term.denote?_keyedTerm k (denote?_term v h.1))
      (denoteAll?_memberTerms rest h.2)

end

end Value

/-! ## Terms that denote nothing -/

namespace Term

variable {scope : Option String} {t : Term} {ts : List Term}

theorem denoteAll?_cons_none (h : t.denote? scope = none ∨ denoteAll? scope ts = none) :
    denoteAll? scope (t :: ts) = none := by
  rw [denoteAll?]
  rcases h with h | h
  · rw [h]
    rfl
  · cases hhead : t.denote? scope <;> simp [h]

theorem denoteAll?_vector_none (h : denoteAll? scope ts = none) :
    denoteAll? scope [vector ts] = none :=
  denoteAll?_cons_none (Or.inl (by simp [denote?, h]))

theorem denote?_keyedTerm_none (key : String) (h : t.denote? scope = none) :
    (keyedTerm key t).denote? scope = none := by
  simp [keyedTerm, denote?, denoteAll?, h]

end Term

/-! ## Serialized expressions -/

theorem Number.writable_toValue (n : Number) : n.toValue.Writable := by
  cases n with
  | int i =>
      have hread : Number.ofNumeral (.integer (.ofInt64 i)) = .int i := by
        simp [ofNumeral, Numeral.toInt64?, Integer.toInt64?, Integer.ofInt64, fitsInt64_toInt]
      change (Number.ofNumeral (.integer (.ofInt64 i))).toValue = _
      rw [hread]
      rfl
  | float x =>
      rw [toValue, Value.ofFloat]
      split
      · next y hy =>
        have hval : y.val = x := by
          unfold FiniteFloat.ofFloat? at hy
          split at hy
          · exact congrArg FiniteFloat.val (Option.some.inj hy).symm
          · simp at hy
        change Value.ofFloat y.val = _
        rw [hval, Value.ofFloat, hy]
      · trivial

namespace Expr

theorem ordered_fieldValues (fields : List (String × Expr)) {members : Members}
    (h : members.Ordered) : (fieldValues members fields).Ordered := by
  induction fields generalizing members with
  | nil => exact h
  | cons field fields ih => exact ih (h.insert field.1 field.2.toValue)

mutual

theorem writable_toValue : (e : Expr) → e.toValue.Writable
  | array items => writable_itemValues items
  | bool _ => trivial
  | call _ args => ⟨trivial, writable_itemValues args⟩
  | number n => n.writable_toValue
  | object fields =>
      ⟨ordered_fieldValues fields List.Pairwise.nil, writable_fieldValues [] trivial fields⟩
  | string _ => trivial
  | unknown => trivial

theorem writable_itemValues : (es : List Expr) → Value.WritableItems (itemValues es)
  | [] => trivial
  | e :: es => ⟨writable_toValue e, writable_itemValues es⟩

theorem writable_fieldValues (members : Members) (h : Value.WritableMembers members) :
    (fields : List (String × Expr)) → Value.WritableMembers (fieldValues members fields)
  | [] => h
  | (k, e) :: rest => writable_fieldValues _ (h.insert (writable_toValue e) k) rest

end

/-- Serialized fields are put in one after the other. -/
theorem ofList_fieldValues (fields : List (String × Expr)) :
    Members.ofList (fields.map fun (k, e) => (k, e.toValue)) = fieldValues [] fields := by
  have h : ∀ members : Members,
      (fields.map fun (k, e) => (k, e.toValue)).foldl
        (fun members (key, value) => members.insert key value) members
        = fieldValues members fields := by
    induction fields with
    | nil => intro members; rfl
    | cons field fields ih => intro members; exact ih _
  exact h []

mutual

/-- The term of an attribute without defects denotes its serialized form. -/
theorem denote?_attributeTerm :
    (e : Expr) → e.attributeDefects = [] → e.attributeTerm.denote? none = some (.value e.toValue)
  | string s, _ => denote?_valueFrom none (.string s)
  | bool b, _ => denote?_valueFrom none (.bool b)
  | number n, _ => by rw [attributeTerm, denote?_valueFrom, Number.literal_toValue, toValue]
  | array items, h => Value.denote?_arrayTerm (denoteAll?_attributeItems items h)
  | object fields, h => by
    rw [attributeTerm, Value.denote?_objectTerm (denoteAll?_attributeFields fields h),
      ofList_fieldValues, toValue]
  | call name args, _ => Value.denote?_term _ (writable_toValue (call name args))
  | unknown, h => by simp [attributeDefects] at h

theorem denoteAll?_attributeItems :
    (es : List Expr) → attributeItemDefects es = [] →
      Term.denoteAll? none (attributeItems es) = some ((itemValues es).map Object.value)
  | [], _ => rfl
  | e :: es, h => by
    rw [attributeItemDefects, List.append_eq_nil_iff] at h
    rw [attributeItems, itemValues, List.map_cons]
    exact Term.denoteAll?_cons (denote?_attributeTerm e h.1) (denoteAll?_attributeItems es h.2)

theorem denoteAll?_attributeFields :
    (fields : List (String × Expr)) → attributeFieldDefects fields = [] →
      Term.denoteAll? none (attributeFields fields)
        = some ((fields.map fun (k, e) => (k, e.toValue)).map Value.member)
  | [], _ => rfl
  | (k, e) :: rest, h => by
    rw [attributeFieldDefects, List.append_eq_nil_iff] at h
    rw [attributeFields, List.map_cons, List.map_cons]
    exact Term.denoteAll?_cons (Term.denote?_keyedTerm k (denote?_attributeTerm e h.1))
      (denoteAll?_attributeFields rest h.2)

end

/-! ## Sentinels -/

mutual

/-- An attribute with a defect has a sentinel in its term, so the term denotes nothing. -/
theorem denote?_attributeTerm_of_defects :
    (e : Expr) → e.attributeDefects ≠ [] → e.attributeTerm.denote? none = none
  | string _, h | bool _, h | number _, h | call .., h => absurd rfl h
  | array items, h => by
    have hitem : Item.ofPath? "Value::Array" = some .valueArray := rfl
    rw [attributeTerm, Term.denote?_apply hitem,
      Term.denoteAll?_vector_none (denoteAll?_attributeItems_of_defects items h)]
    rfl
  | object fields, h => by
    have hitem : Item.ofPath? "object" = some .object := rfl
    rw [attributeTerm, Term.denote?_apply hitem,
      Term.denoteAll?_vector_none (denoteAll?_attributeFields_of_defects fields h)]
    rfl
  | unknown, _ => by simp [attributeTerm, Defect.term, Term.invalid, Term.denote?, Object.ofPath?,
      Ident.sentinel]

theorem denoteAll?_attributeItems_of_defects :
    (es : List Expr) → attributeItemDefects es ≠ [] →
      Term.denoteAll? none (attributeItems es) = none
  | [], h => absurd rfl h
  | e :: es, h => by
    rw [attributeItems]
    by_cases he : e.attributeDefects = []
    · rw [attributeItemDefects, he, List.nil_append] at h
      exact Term.denoteAll?_cons_none (Or.inr (denoteAll?_attributeItems_of_defects es h))
    · exact Term.denoteAll?_cons_none (Or.inl (denote?_attributeTerm_of_defects e he))

theorem denoteAll?_attributeFields_of_defects :
    (fields : List (String × Expr)) → attributeFieldDefects fields ≠ [] →
      Term.denoteAll? none (attributeFields fields) = none
  | [], h => absurd rfl h
  | (k, e) :: rest, h => by
    rw [attributeFields]
    by_cases he : e.attributeDefects = []
    · rw [attributeFieldDefects, he, List.nil_append] at h
      exact Term.denoteAll?_cons_none (Or.inr (denoteAll?_attributeFields_of_defects rest h))
    · exact Term.denoteAll?_cons_none
        (Or.inl (Term.denote?_keyedTerm_none k (denote?_attributeTerm_of_defects e he)))

end

end Expr

/-! ## Attributes of programs -/

/-- The term that a program gives to its playbook as the attributes. -/
def Program.attributes? (p : Program) : Option Term := do
  let f ← p.functions.find? (·.name.text == "playbook")
  match f.body with
  | .call (.path "Playbook::new") (attributes :: _) => some attributes
  | _ => none

/-- The attributes that a program gives to its playbook have a value exactly if emitting them gave
no diagnostic, whatever the tasks are. The value is the serialized form of the attributes: a call at
any depth is the array of its name and its serialized arguments. -/
theorem Plan.value_of_attributes (attributes : Fields) (tasks : List Task) (modules : Modules)
    (runtimePath : String) :
    ∃ t, (emit ⟨attributes, tasks⟩ modules runtimePath).program.attributes? = some t ∧
      ∀ v, t.denote? none = some (.value v) ↔
        (emit ⟨attributes, []⟩ modules runtimePath).diagnostics = []
          ∧ v = (Expr.object attributes).toValue := by
  refine ⟨(Expr.object attributes).attributeTerm, by simp [program_emit, program,
    Program.ofPlaybook, Program.attributes?, Term.apply, Expr.attributeTerm], fun v => ?_⟩
  have hdiagnostics : (emit ⟨attributes, []⟩ modules runtimePath).diagnostics = []
      ↔ (Expr.object attributes).attributeDefects = [] := by
    simp [diagnostics_emit, diagnostics, Task.diagnosticsAll, Expr.attributeDefects]
  rw [hdiagnostics]
  constructor
  · intro hvalue
    by_cases hdefects : (Expr.object attributes).attributeDefects = []
    · rw [Expr.denote?_attributeTerm _ hdefects] at hvalue
      cases hvalue
      exact ⟨hdefects, rfl⟩
    · rw [Expr.denote?_attributeTerm_of_defects _ hdefects] at hvalue
      cases hvalue
  · rintro ⟨hdefects, rfl⟩
    exact Expr.denote?_attributeTerm _ hdefects

end Playbooks
