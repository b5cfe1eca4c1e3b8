import Playbooks.Proofs.Eval.Integers
import Playbooks.Proofs.Expr.Spelling
import Playbooks.Proofs.Program.Attributes

/-!
# Serialized expressions

Literal expressions and values stand for one another, null for what is unknown. An expression
without calls is the literal of its serialized form, with the fields of its objects in the order of
their keys; and a value is the serialized form of its literal, if its integers fit a signed word.

## Main definitions

* `Expr.IsLiteral`: a part of an expression that has a value of its own.
* `Expr.Rearranges`: the same expression but for the order of fields.
* `Value.Throughout`: a property of a value and of all its parts.

## Main results

* `Expr.rearranges_ofValue_toValue`: the literal of a serialized expression.
* `Expr.beq_of_rearranges`: expressions agree whatever the order of their fields.
* `Expr.toValue_ofValue`: the serialized form of a literal.
* `Expr.serialization_inverts`: both directions.
-/
namespace Playbooks

/-! ## Members and fields -/

/-- A new member is one member more, wherever its key puts it. -/
theorem Members.insert_perm {key : String} {value : Value} {members : Members}
    (h : key ∉ members.keys) : (members.insert key value).Perm ((key, value) :: members) := by
  induction members with
  | nil => exact .refl _
  | cons first rest ih =>
    obtain ⟨k, v⟩ := first
    have hne : key ≠ k := by
      intro heq
      exact h (heq ▸ List.mem_cons_self)
    have hrest : key ∉ keys rest := by
      intro hmem
      exact h (List.mem_cons_of_mem k hmem)
    simp only [insert, if_neg hne]
    split
    · exact .refl _
    · exact ((ih hrest).cons _).trans (.swap ..)

namespace Expr

theorem ofMembers_eq_map (members : Members) :
    ofMembers members = members.map fun m => (m.1, ofValue m.2) := by
  induction members with
  | nil => rfl
  | cons m rest ih => rw [ofMembers, ih, List.map_cons]

/-- Fields with different keys are serialized one by one. -/
theorem fieldValues_perm (fields : List (String × Expr)) (members : Members)
    (hkeys : (fields.map Prod.fst).Nodup) (hnew : ∀ f ∈ fields, f.1 ∉ members.keys) :
    (fieldValues members fields).Perm (members ++ fields.map fun f => (f.1, f.2.toValue)) := by
  induction fields generalizing members with
  | nil => simp [fieldValues]
  | cons f rest ih =>
    obtain ⟨k, e⟩ := f
    rw [List.map_cons, List.nodup_cons] at hkeys
    obtain ⟨hk, hothers⟩ := List.forall_mem_cons.mp hnew
    have hinsert : (members.insert k e.toValue).Perm ((k, e.toValue) :: members) :=
      Members.insert_perm hk
    have hfresh : ∀ f ∈ rest, f.1 ∉ (members.insert k e.toValue).keys := by
      intro f hf hmem
      rcases List.mem_cons.mp ((hinsert.map Prod.fst).subset hmem) with heq | hmem
      · exact hkeys.1 (heq ▸ List.mem_map_of_mem hf)
      · exact hothers f hf hmem
    rw [fieldValues]
    refine (ih _ hkeys.2 hfresh).trans ((hinsert.append_right _).trans ?_)
    exact List.perm_middle.symm

/-! ## Order of fields -/

mutual

/-- The same expression, but for the order of the fields in objects outside of calls. -/
def Rearranges : Expr → Expr → Prop
  | array as, e => ∃ bs, e = array bs ∧ RearrangesItems as bs
  | object as, e => ∃ bs cs, e = object cs ∧ RearrangesFields as bs ∧ bs.Perm cs
  | a, e => e = a

def RearrangesItems : List Expr → List Expr → Prop
  | [], bs => bs = []
  | a :: as, bs => ∃ b bs', bs = b :: bs' ∧ a.Rearranges b ∧ RearrangesItems as bs'

def RearrangesFields : List (String × Expr) → List (String × Expr) → Prop
  | [], bs => bs = []
  | (k, a) :: as, bs => ∃ b bs', bs = (k, b) :: bs' ∧ a.Rearranges b ∧ RearrangesFields as bs'

end

/-- This part has a value of its own: it is no call, and a float is finite. -/
def IsLiteral : Expr → Prop
  | call .. => False
  | number (.float x) => x.isFinite = true
  | _ => True

theorem beqFields_perm {as bs : List (String × Expr)} (h : as.Perm bs)
    (all : List (String × Expr)) : beqFields as all = beqFields bs all := by
  induction h with
  | nil => rfl
  | cons f _ ih => rw [beqFields, beqFields, ih]
  | swap f g _ => simp only [beqFields, Bool.and_left_comm]
  | trans _ _ ih ih' => exact ih.trans ih'

mutual

/-- Literal expressions agree whatever the order of their fields. -/
theorem beq_of_rearranges : (a e : Expr) → a.Rearranges e → a.Throughout Keyed →
    a.Throughout IsLiteral → e.beq a = true
  | array as, _, ⟨bs, rfl, h⟩, hkeys, hliteral => by
    rw [beq]
    exact beqItems_of_rearranges as bs h hkeys.2 hliteral.2
  | bool _, _, rfl, _, _ => by simp [beq]
  | call _ _, _, _, _, hliteral => hliteral.1.elim
  | number (.int _), _, rfl, _, _ => by simp [beq, BEq.beq, Number.beq]
  | number (.float x), _, rfl, _, hfinite => by
    have hsame : (x == x) = true := (Float64.beq_iff_toRat_eq hfinite hfinite).mpr rfl
    simpa [beq, BEq.beq, Number.beq] using hsame
  | object as, _, ⟨bs, cs, rfl, h, hperm⟩, hkeys, hliteral => by
    have hagree := agree_of_rearranges as bs h hkeys.2 hliteral.2
    have hfields : beqFields bs as = true :=
      beqFields_of_agree hagree fun f hf => Table.get?_of_mem hkeys.1 hf
    -- The order of the fields does not matter on the left, since each is looked up on the right.
    rw [beq, ← beqFields_perm hperm, hfields, ← hperm.length_eq, hagree.length_eq]
    simp
  | string _, _, rfl, _, _ => by simp [beq]
  | unknown, _, rfl, _, _ => by simp [beq]

theorem beqItems_of_rearranges : (as bs : List Expr) → RearrangesItems as bs →
    ThroughoutItems Keyed as → ThroughoutItems IsLiteral as → beqItems bs as = true
  | [], _, rfl, _, _ => rfl
  | a :: as, _, ⟨b, bs, rfl, hb, hbs⟩, hkeys, hliteral => by
    rw [beqItems, beq_of_rearranges a b hb hkeys.1 hliteral.1,
      beqItems_of_rearranges as bs hbs hkeys.2 hliteral.2]
    rfl

theorem agree_of_rearranges : (as bs : List (String × Expr)) → RearrangesFields as bs →
    ThroughoutFields Keyed as → ThroughoutFields IsLiteral as → List.Forall₂ AgreesField bs as
  | [], _, rfl, _, _ => .nil
  | (_, a) :: as, _, ⟨b, bs, rfl, hb, hbs⟩, hkeys, hliteral =>
    .cons ⟨rfl, beq_of_rearranges a b hb hkeys.1 hliteral.1⟩
      (agree_of_rearranges as bs hbs hkeys.2 hliteral.2)

end

/-! ## Expressions to values and back -/

mutual

/-- The literal of a serialized expression is the expression, with its fields in some order. -/
theorem rearranges_ofValue_toValue : (e : Expr) → e.Throughout Keyed → e.Throughout IsLiteral →
    e.Rearranges (ofValue e.toValue)
  | array items, hkeys, hliteral =>
    ⟨_, rfl, rearranges_ofItems_itemValues items hkeys.2 hliteral.2⟩
  | bool _, _, _ => rfl
  | call _ _, _, hliteral => hliteral.1.elim
  | number (.int i), _, _ => congrArg number (Number.ofNumeral_ofInt64 i)
  | number (.float x), _, hfinite => by
    rw [toValue, Number.toValue, Value.ofFloat_of_isFinite hfinite]
    rfl
  | object fields, hkeys, hliteral => by
    have hfields := rearranges_fields fields hkeys.2 hliteral.2
    have hperm := (fieldValues_perm fields [] hkeys.1 (by simp [Members.keys])).map
      fun m => (m.1, ofValue m.2)
    rw [List.nil_append, List.map_map] at hperm
    refine ⟨_, _, rfl, hfields, ?_⟩
    rw [ofMembers_eq_map]
    exact hperm.symm
  | string _, _, _ => rfl
  | unknown, _, _ => rfl

theorem rearranges_ofItems_itemValues : (es : List Expr) → ThroughoutItems Keyed es →
    ThroughoutItems IsLiteral es → RearrangesItems es (ofItems (itemValues es))
  | [], _, _ => rfl
  | e :: es, hkeys, hliteral =>
    ⟨_, _, rfl, rearranges_ofValue_toValue e hkeys.1 hliteral.1,
      rearranges_ofItems_itemValues es hkeys.2 hliteral.2⟩

theorem rearranges_fields : (fields : List (String × Expr)) → ThroughoutFields Keyed fields →
    ThroughoutFields IsLiteral fields →
    RearrangesFields fields (fields.map fun f => (f.1, ofValue f.2.toValue))
  | [], _, _ => rfl
  | (_, e) :: rest, hkeys, hliteral =>
    ⟨_, _, rfl, rearranges_ofValue_toValue e hkeys.1 hliteral.1,
      rearranges_fields rest hkeys.2 hliteral.2⟩

end

end Expr

/-! ## Values to expressions and back -/

namespace Value

mutual

/-- A property of a value and of the values inside it, at every depth. -/
def Throughout (P : Value → Prop) : Value → Prop
  | null => P null
  | bool b => P (bool b)
  | number n => P (number n)
  | string s => P (string s)
  | array items => P (array items) ∧ ThroughoutItems P items
  | object members => P (object members) ∧ ThroughoutMembers P members

def ThroughoutItems (P : Value → Prop) : List Value → Prop
  | [] => True
  | v :: vs => v.Throughout P ∧ ThroughoutItems P vs

def ThroughoutMembers (P : Value → Prop) : List (String × Value) → Prop
  | [] => True
  | (_, v) :: rest => v.Throughout P ∧ ThroughoutMembers P rest

end

/-- The members of this object are in the order of their keys, with one value a key. -/
def KeysInOrder : Value → Prop
  | object members => Members.Ordered members
  | _ => True

/-- This integer fits a signed word. -/
def IntegerFits : Value → Prop
  | number (.integer i) => -2 ^ 63 ≤ i.val ∧ i.val < 2 ^ 63
  | _ => True

end Value

namespace Expr

mutual

/-- A value is the serialized form of its literal. -/
theorem toValue_ofValue : (v : Value) → v.Throughout Value.KeysInOrder →
    v.Throughout Value.IntegerFits → (ofValue v).toValue = v
  | .null, _, _ => rfl
  | .bool _, _, _ => rfl
  | .number (.integer i), _, hfits => by
    have hword : fitsInt64 i.val = true := fitsInt64_iff.mpr hfits
    rw [ofValue, toValue, Number.ofNumeral_of_fits hword, Number.toValue, Value.ofInt64]
    refine congrArg (Value.number ∘ Numeral.integer) (Integer.val_inj.mp ?_)
    exact toInt_ofInt_of_fitsInt64 hword
  | .number (.float x), _, _ => Value.ofFloat_of_isFinite x.finite
  | .string _, _, _ => rfl
  | .array items, hordered, hfits => by
    rw [ofValue, toValue, itemValues_ofItems items hordered.2 hfits.2]
  | .object members, hordered, hfits => by
    rw [ofValue, toValue, ← ofList_fieldValues, members_ofMembers members hordered.2 hfits.2,
      Members.ofList_of_ordered hordered.1]

theorem itemValues_ofItems : (vs : List Value) → Value.ThroughoutItems Value.KeysInOrder vs →
    Value.ThroughoutItems Value.IntegerFits vs → itemValues (ofItems vs) = vs
  | [], _, _ => rfl
  | v :: vs, hordered, hfits => by
    rw [ofItems, itemValues, toValue_ofValue v hordered.1 hfits.1,
      itemValues_ofItems vs hordered.2 hfits.2]

theorem members_ofMembers : (members : List (String × Value)) →
    Value.ThroughoutMembers Value.KeysInOrder members →
    Value.ThroughoutMembers Value.IntegerFits members →
    ((ofMembers members).map fun (k, e) => (k, e.toValue)) = members
  | [], _, _ => rfl
  | (_, v) :: rest, hordered, hfits => by
    rw [ofMembers, List.map_cons, members_ofMembers rest hordered.2 hfits.2]
    simp only [toValue_ofValue v hordered.1 hfits.1]

end

/-- Serializing and reading back are inverse to each other. A literal expression whose objects have
different keys comes back as it was but for the order of fields, integers as integers and floats as
floats, and agrees with what it was. A value whose objects are in order, with one value a key, and
whose integers fit a signed word comes back as it was, nulls included. -/
theorem serialization_inverts :
    (∀ e : Expr, e.Throughout Keyed → e.Throughout IsLiteral →
      e.Rearranges (ofValue e.toValue) ∧ (ofValue e.toValue == e) = true)
    ∧ ∀ v : Value, v.Throughout Value.KeysInOrder → v.Throughout Value.IntegerFits →
      (ofValue v).toValue = v := by
  refine ⟨fun e hkeys hliteral => ?_, toValue_ofValue⟩
  have hback := rearranges_ofValue_toValue e hkeys hliteral
  exact ⟨hback, beq_of_rearranges e _ hback hkeys hliteral⟩

/-- An object with its keys out of order, and the same number as a float and as an integer. -/
def mixed : Expr :=
  .object [("b", .number (.float 2)), ("a", .array [.number (.int 2), .object [("c", .bool true)]])]

/-- A value with a null inside. -/
def gap : Value :=
  .object [("a", .array [.null, .ofInt64 2]), ("b", .string "")]

theorem serialization_inverts_mixed : mixed.Throughout Keyed ∧ mixed.Throughout IsLiteral
    ∧ (ofValue mixed.toValue == mixed) = true
    ∧ gap.Throughout Value.KeysInOrder ∧ gap.Throughout Value.IntegerFits
    ∧ (ofValue gap).toValue = gap := by
  have hkeys : mixed.Throughout Keyed := by
    simp [mixed, Throughout, ThroughoutItems, ThroughoutFields, Keyed]
  have hfinite : (2 : Float).isFinite = true := by decide +kernel
  have hliteral : mixed.Throughout IsLiteral := by
    simp [mixed, Throughout, ThroughoutItems, ThroughoutFields, IsLiteral, hfinite]
  have hlt : "a" < "b" := by decide
  have hordered : gap.Throughout Value.KeysInOrder :=
    ⟨List.pairwise_pair.mpr hlt, ⟨trivial, trivial, trivial, trivial⟩, trivial, trivial⟩
  have hfits : gap.Throughout Value.IntegerFits := by
    simp [gap, Value.Throughout, Value.ThroughoutItems, Value.ThroughoutMembers, Value.IntegerFits,
      Value.ofInt64, Integer.ofInt64]
  exact ⟨hkeys, hliteral, (serialization_inverts.1 mixed hkeys hliteral).2, hordered, hfits,
    serialization_inverts.2 gap hordered hfits⟩

end Expr

end Playbooks
