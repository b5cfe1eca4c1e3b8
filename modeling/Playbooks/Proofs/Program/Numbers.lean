import Playbooks.Proofs.Expr.Spelling
import Playbooks.Proofs.Program.Attributes
import Playbooks.Proofs.Program.Subterms

/-!
# Numbers of emitted programs

The numbers among the literals of a program. Those of a task are the numbers of its arguments and of
its condition, all of them. An attribute with a call in it is serialized, and there a float that is
not finite is lost.

## Main definitions

* `Expr.numbers`: the numbers of an expression.
* `Emits`: the numbers that come out of some given ones.

## Main results

* `Task.mem_numbers_ownTerms`: the numbers that a task has of its own.
* `Expr.emits_attributeLiteralsFields`: the numbers of attributes.
* `Plan.mem_literals_program`: the numbers of a program.
-/
namespace Playbooks

/-- The number that a literal is. -/
def Literal.number? : Literal → Option Number
  | int i => some (.int i)
  | float x => some (.float x)
  | _ => none

theorem Literal.number?_eq_some {l : Literal} {n : Number} :
    l.number? = some n ↔ l = n.literal := by
  cases l <;> cases n <;> simp [number?, Number.literal]

/-- The numbers among some literals. -/
def numbersOf (ls : List Literal) : List Number :=
  ls.filterMap Literal.number?

@[simp] theorem numbersOf_nil : numbersOf [] = [] := rfl

@[simp] theorem numbersOf_append (ls ms : List Literal) :
    numbersOf (ls ++ ms) = numbersOf ls ++ numbersOf ms :=
  List.filterMap_append

@[simp] theorem numbersOf_string (s : String) (ls : List Literal) :
    numbersOf (.string s :: ls) = numbersOf ls := rfl

@[simp] theorem numbersOf_bool (b : Bool) (ls : List Literal) :
    numbersOf (.bool b :: ls) = numbersOf ls := rfl

@[simp] theorem numbersOf_literal (n : Number) (ls : List Literal) :
    numbersOf (n.literal :: ls) = n :: numbersOf ls := by
  cases n <;> rfl

theorem numbersOf_flatMap {α : Type} (f : α → List Literal) (xs : List α) :
    numbersOf (xs.flatMap f) = xs.flatMap fun x => numbersOf (f x) :=
  List.filterMap_flatMap

theorem mem_numbersOf {n : Number} {ls : List Literal} : n ∈ numbersOf ls ↔ n.literal ∈ ls := by
  simp [numbersOf, List.mem_filterMap, Literal.number?_eq_some]

/-! ## Expressions -/

namespace Expr

/-- The numbers of an expression from left to right. -/
def numbers (keep : String → Bool) (e : Expr) : List Number :=
  numbersOf (e.literals keep)

variable {keep : String → Bool}

@[simp] theorem numbers_string (s : String) : (string s).numbers keep = [] := rfl

@[simp] theorem numbers_bool (b : Bool) : (bool b).numbers keep = [] := rfl

@[simp] theorem numbers_number (n : Number) : (number n).numbers keep = [n] :=
  numbersOf_literal n []

theorem numbersOf_literalsAll (items : List Expr) :
    numbersOf (literalsAll keep items) = items.flatMap (numbers keep) := by
  induction items with
  | nil => rfl
  | cons e es ih => simp [literalsAll, numbers, ih]

@[simp] theorem numbers_array (items : List Expr) :
    (array items).numbers keep = items.flatMap (numbers keep) :=
  numbersOf_literalsAll items

@[simp] theorem numbers_call (name : String) (args : List Expr) :
    (call name args).numbers keep = if keep name then args.flatMap (numbers keep) else [] := by
  rw [numbers, literals]
  split
  · exact numbersOf_literalsAll args
  · rfl

@[simp] theorem numbers_object (fields : Fields) :
    (object fields).numbers keep = fields.flatMap (·.2.numbers keep) := by
  rw [numbers, literals]
  induction fields with
  | nil => rfl
  | cons field rest ih =>
      obtain ⟨k, e⟩ := field
      simp [literalsFields, ih, numbers]

end Expr

/-! ## Tasks -/

namespace Task

/-- The numbers of the arguments and of the condition of a task. -/
def numbers (t : Task) : List Number :=
  t.args.flatMap (·.2.numbers Expr.emitted)
    ++ (t.condition.map (·.toExpr.numbers Expr.emitted)).getD []

theorem filterMap_literal?_lit (ls : List Literal) :
    (ls.filterMap fun l => (Term.lit l).literal?) = ls :=
  List.filterMap_some

/-- The numbers that a task has of its own. -/
theorem mem_numbers_ownTerms {modules : Modules} {t : Task} (n : Number)
    (hmodule : t.isCompound = false → ∃ path,
      Table.get? (t.moduleName.getD "") modules = some path)
    (hargs : t.isCompound = true → t.args = []) :
    n ∈ numbersOf (Term.collectAll Term.literal? (t.ownTerms modules)) ↔ n ∈ t.numbers := by
  have hcondition : numbersOf
      (Term.collectAll Term.literal? (t.condition.map (·.toExpr.deferred)).toList)
        = (t.condition.map (·.toExpr.numbers Expr.emitted)).getD [] := by
    cases t.condition with
    | none => rfl
    | some c =>
        simp [Expr.collect_deferred Term.selects_literal?, filterMap_literal?_lit, Expr.numbers]
  have hmodules : numbersOf (Term.collectAll Term.literal?
      (if t.isCompound then [] else [t.moduleTerm modules]))
        = t.args.flatMap (·.2.numbers Expr.emitted) := by
    cases hcompound : t.isCompound with
    | true => simp [hargs hcompound]
    | false =>
        obtain ⟨path, hpath⟩ := hmodule hcompound
        have hrecord : (t.moduleTerm modules).literal? = none := by
          rw [moduleTerm, hpath]
          rfl
        simp [Task.collect_moduleTerm Term.selects_literal? hpath, hrecord, filterMap_literal?_lit,
          numbersOf_flatMap, Expr.numbers]
  rw [ownTerms, Term.collectAll_cons, Term.collectAll_append, numbersOf_append, numbersOf_append,
    hmodules, hcondition]
  rfl

end Task

/-! ## Attributes -/

/-- An integer, or a float that is finite. -/
def Number.IsFinite : Number → Prop
  | int _ => True
  | float x => x.isFinite = true

/-- What comes out of some numbers: nothing else, and all that are finite. -/
structure Emits (given shown : List Number) : Prop where
  sound : ∀ n ∈ shown, n ∈ given
  complete : ∀ n ∈ given, n.IsFinite → n ∈ shown

namespace Emits

variable {given given' shown shown' : List Number}

theorem refl (ns : List Number) : Emits ns ns :=
  ⟨fun _ hn => hn, fun _ hn _ => hn⟩

theorem append (h : Emits given shown) (h' : Emits given' shown') :
    Emits (given ++ given') (shown ++ shown') := by
  constructor
  · intro n hn
    exact List.mem_append.mpr ((List.mem_append.mp hn).imp (h.sound n) (h'.sound n))
  · intro n hn hfinite
    exact List.mem_append.mpr ((List.mem_append.mp hn).imp (h.complete n · hfinite)
      (h'.complete n · hfinite))

/-- The order in which numbers come out does not matter. -/
theorem perm (h : Emits given shown) (hperm : ∀ n, n ∈ shown' ↔ n ∈ shown) : Emits given shown' :=
  ⟨fun n hn => h.sound n ((hperm n).mp hn), fun n hn hf => (hperm n).mpr (h.complete n hn hf)⟩

end Emits

theorem emits_toValue (n : Number) : Emits [n] (numbersOf n.toValue.literals) := by
  cases n with
  | int i =>
      have hfits : (Numeral.integer (.ofInt64 i)).toInt64? = some i := by
        change (if fitsInt64 i.toInt then some (Int64.ofInt i.toInt) else none) = some i
        rw [if_pos (fitsInt64_toInt i), Int64.ofInt_toInt]
      have hnumber : Number.ofNumeral (.integer (.ofInt64 i)) = .int i := by
        rw [Number.ofNumeral, hfits]
      rw [Number.toValue, Value.ofInt64, Value.literals, hnumber, numbersOf_literal]
      exact .refl _
  | float x =>
      rw [Number.toValue, Value.ofFloat, FiniteFloat.ofFloat?]
      split
      · next y hy =>
        split at hy
        · cases hy
          rw [Value.literals, numbersOf_literal]
          exact .refl _
        · cases hy
      · next hnone =>
        refine ⟨by simp [Value.literals], fun n hn hfinite => ?_⟩
        obtain rfl := List.mem_singleton.mp hn
        change x.isFinite = true at hfinite
        simp [hfinite] at hnone

/-- A new member brings its numbers. -/
theorem Members.mem_numbers_insert {key : String} {v : Value} {members : Members} (n : Number)
    (h : key ∉ members.keys) : n ∈ numbersOf (Value.literalsMembers (members.insert key v))
      ↔ n ∈ numbersOf (Value.literalsMembers members) ++ numbersOf v.literals := by
  induction members with
  | nil => simp [insert, Value.literalsMembers]
  | cons first rest ih =>
      obtain ⟨k, w⟩ := first
      have hne : key ≠ k := fun heq => h (heq ▸ List.mem_cons_self)
      have hrest := ih fun hmem => h (List.mem_cons_of_mem _ hmem)
      rw [insert]
      split
      · simp [Value.literalsMembers, or_comm, or_left_comm]
      · simp only [Value.literalsMembers, numbersOf_string, numbersOf_append, List.mem_append,
          hrest, or_assoc]

theorem Members.mem_keys_insert {key other : String} {v : Value} {members : Members}
    (h : other ∈ (members.insert key v).keys) : other = key ∨ other ∈ members.keys := by
  obtain ⟨m, hm, rfl⟩ := List.mem_map.mp h
  rcases Members.mem_insert hm with rfl | hm
  · exact Or.inl rfl
  · exact Or.inr (List.mem_map_of_mem hm)

namespace Expr

/-- The numbers of an expression, those of every call included. -/
abbrev allNumbers (e : Expr) : List Number :=
  e.numbers fun _ => true

mutual

/-- The numbers of a serialized expression. -/
theorem emits_toValue : (e : Expr) → e.Throughout Keyed →
    Emits e.allNumbers (numbersOf e.toValue.literals)
  | string s, _ => .refl []
  | bool b, _ => .refl []
  | number n, _ => by
    rw [allNumbers, numbers_number]
    exact Playbooks.emits_toValue n
  | array items, h => by
    rw [allNumbers, numbers_array]
    exact emits_itemValues items h.2
  | call name args, h => by
    rw [allNumbers, numbers_call]
    exact emits_itemValues args h.2
  | object fields, h => by
    rw [allNumbers, numbers_object]
    exact emits_fieldValues [] (.refl []) fields h.1 (by simp [Members.keys]) h.2
  | unknown, _ => .refl []

theorem emits_itemValues : (es : List Expr) → ThroughoutItems Keyed es →
    Emits (es.flatMap allNumbers) (numbersOf (Value.literalsAll (itemValues es)))
  | [], _ => .refl []
  | e :: es, h => by
    rw [itemValues, Value.literalsAll, numbersOf_append, List.flatMap_cons]
    exact (emits_toValue e h.1).append (emits_itemValues es h.2)

theorem emits_fieldValues {given : List Number} (members : Members)
    (hmembers : Emits given (numbersOf (Value.literalsMembers members))) :
    (fields : List (String × Expr)) → (fields.map Prod.fst).Nodup →
    (∀ k ∈ fields.map Prod.fst, k ∉ members.keys) → ThroughoutFields Keyed fields →
    Emits (given ++ fields.flatMap (·.2.allNumbers))
      (numbersOf (Value.literalsMembers (fieldValues members fields)))
  | [], _, _, _ => by
    rw [List.flatMap_nil, List.append_nil]
    exact hmembers
  | (k, e) :: rest, hnodup, hnew, h => by
    obtain ⟨hk, hothers⟩ := List.forall_mem_cons.mp hnew
    obtain ⟨hnot, hnodup⟩ := List.nodup_cons.mp hnodup
    have hfresh : ∀ k' ∈ rest.map Prod.fst, k' ∉ (members.insert k e.toValue).keys := by
      intro k' hk' hmem
      rcases Members.mem_keys_insert hmem with rfl | hmem
      · exact hnot hk'
      · exact hothers k' hk' hmem
    have hmember := (hmembers.append (emits_toValue e h.1)).perm
      (Members.mem_numbers_insert · hk)
    rw [List.flatMap_cons, ← List.append_assoc]
    exact emits_fieldValues _ hmember rest hnodup hfresh h.2

end

mutual

/-- The numbers of an attribute. -/
theorem emits_attributeLiterals : (e : Expr) → e.Throughout Keyed →
    Emits e.allNumbers (numbersOf e.attributeLiterals)
  | string s, _ => .refl []
  | bool b, _ => .refl []
  | number n, _ => .refl _
  | array items, h => by
    rw [allNumbers, numbers_array]
    exact emits_attributeLiteralsAll items h.2
  | call name args, h => emits_toValue (call name args) h
  | object fields, h => by
    rw [allNumbers, numbers_object]
    exact emits_attributeLiteralsFields fields h.2
  | unknown, _ => .refl []

theorem emits_attributeLiteralsAll : (es : List Expr) → ThroughoutItems Keyed es →
    Emits (es.flatMap allNumbers) (numbersOf (attributeLiteralsAll es))
  | [], _ => .refl []
  | e :: es, h => by
    rw [attributeLiteralsAll, numbersOf_append, List.flatMap_cons]
    exact (emits_attributeLiterals e h.1).append (emits_attributeLiteralsAll es h.2)

theorem emits_attributeLiteralsFields : (fields : List (String × Expr)) →
    ThroughoutFields Keyed fields →
    Emits (fields.flatMap (·.2.allNumbers)) (numbersOf (attributeLiteralsFields fields))
  | [], _ => .refl []
  | (k, e) :: rest, h => by
    rw [attributeLiteralsFields, numbersOf_string, numbersOf_append, List.flatMap_cons]
    exact (emits_attributeLiterals e h.1).append (emits_attributeLiteralsFields rest h.2)

end

end Expr

/-! ## Plans -/

/-- The numbers of a program are those of the attributes and of the tasks at every depth. -/
theorem Plan.mem_literals_program {p : Plan} {modules : Modules} (runtimePath : String)
    (hshaped : p.Throughout Task.Shaped)
    (hmodule : ∀ t ∈ p.walk, t.isCompound = false →
      ∃ path, Table.get? (t.moduleName.getD "") modules = some path)
    (hargs : ∀ t ∈ p.walk, t.isCompound = true → t.args = []) (n : Number) :
    n.literal ∈ (p.program modules runtimePath).literals
      ↔ n ∈ numbersOf (Expr.attributeLiteralsFields p.attributes)
        ∨ ∃ t ∈ p.walk, n ∈ t.numbers := by
  rw [Program.literals, mem_collect_program Term.selects_literal? p modules runtimePath hshaped,
    Expr.collect_attributeFields Term.selects_literal?, Task.filterMap_literal?_lit,
    mem_numbersOf]
  refine or_congr_right (exists_congr fun t => and_congr_right fun ht => ?_)
  rw [← mem_numbersOf, Task.mem_numbers_ownTerms n (hmodule t ht) (hargs t ht)]

end Playbooks
