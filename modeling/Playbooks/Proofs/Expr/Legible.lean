import Playbooks.Expr.Basic
import Playbooks.Proofs.Syntax.Words
import Playbooks.Proofs.Table

/-!
# Parts of expressions

Properties of every part of an expression, and the two facts that hold of every expression that was
read from a source: its parts are legible, and its text has a closing bracket for each array and for
each string that no quotes can hold.

## Main definitions

* `Expr.Throughout`: a property of an expression and of all its parts.
* `Expr.Legible`: what reading guarantees of one part.
* `Expr.closers`: closing brackets that a text of the expression has at least.
-/
namespace Playbooks

namespace Expr

mutual

/-- A property of an expression and of the expressions inside it, at every depth. -/
def Throughout (P : Expr → Prop) : Expr → Prop
  | array items => P (array items) ∧ ThroughoutItems P items
  | bool b => P (bool b)
  | call name args => P (call name args) ∧ ThroughoutItems P args
  | number n => P (number n)
  | object fields => P (object fields) ∧ ThroughoutFields P fields
  | string s => P (string s)
  | unknown => P unknown

def ThroughoutItems (P : Expr → Prop) : List Expr → Prop
  | [] => True
  | e :: es => e.Throughout P ∧ ThroughoutItems P es

def ThroughoutFields (P : Expr → Prop) : List (String × Expr) → Prop
  | [] => True
  | (_, e) :: rest => e.Throughout P ∧ ThroughoutFields P rest

end

variable {P Q : Expr → Prop}

mutual

theorem Throughout.imp (h : ∀ e, P e → Q e) : (e : Expr) → e.Throughout P → e.Throughout Q
  | array items, he => ⟨h _ he.1, ThroughoutItems.imp h items he.2⟩
  | bool _, he => h _ he
  | call _ args, he => ⟨h _ he.1, ThroughoutItems.imp h args he.2⟩
  | number _, he => h _ he
  | object fields, he => ⟨h _ he.1, ThroughoutFields.imp h fields he.2⟩
  | string _, he => h _ he
  | unknown, he => h _ he

theorem ThroughoutItems.imp (h : ∀ e, P e → Q e) :
    (es : List Expr) → ThroughoutItems P es → ThroughoutItems Q es
  | [], _ => trivial
  | e :: es, hes => ⟨Throughout.imp h e hes.1, ThroughoutItems.imp h es hes.2⟩

theorem ThroughoutFields.imp (h : ∀ e, P e → Q e) :
    (fs : List (String × Expr)) → ThroughoutFields P fs → ThroughoutFields Q fs
  | [], _ => trivial
  | (_, e) :: fs, hfs => ⟨Throughout.imp h e hfs.1, ThroughoutFields.imp h fs hfs.2⟩

end

mutual

theorem Throughout.and : (e : Expr) → e.Throughout P → e.Throughout Q →
    e.Throughout fun e => P e ∧ Q e
  | array items, hP, hQ => ⟨⟨hP.1, hQ.1⟩, ThroughoutItems.and items hP.2 hQ.2⟩
  | bool _, hP, hQ => ⟨hP, hQ⟩
  | call _ args, hP, hQ => ⟨⟨hP.1, hQ.1⟩, ThroughoutItems.and args hP.2 hQ.2⟩
  | number _, hP, hQ => ⟨hP, hQ⟩
  | object fields, hP, hQ => ⟨⟨hP.1, hQ.1⟩, ThroughoutFields.and fields hP.2 hQ.2⟩
  | string _, hP, hQ => ⟨hP, hQ⟩
  | unknown, hP, hQ => ⟨hP, hQ⟩

theorem ThroughoutItems.and : (es : List Expr) → ThroughoutItems P es → ThroughoutItems Q es →
    ThroughoutItems (fun e => P e ∧ Q e) es
  | [], _, _ => trivial
  | e :: es, hP, hQ => ⟨Throughout.and e hP.1 hQ.1, ThroughoutItems.and es hP.2 hQ.2⟩

theorem ThroughoutFields.and : (fs : List (String × Expr)) → ThroughoutFields P fs →
    ThroughoutFields Q fs → ThroughoutFields (fun e => P e ∧ Q e) fs
  | [], _, _ => trivial
  | (_, e) :: fs, hP, hQ => ⟨Throughout.and e hP.1 hQ.1, ThroughoutFields.and fs hP.2 hQ.2⟩

end

theorem throughoutItems_iff {es : List Expr} :
    ThroughoutItems P es ↔ ∀ e ∈ es, e.Throughout P := by
  induction es with
  | nil => simp [ThroughoutItems]
  | cons e es ih => simp [ThroughoutItems, ih]

theorem throughoutFields_iff {fields : List (String × Expr)} :
    ThroughoutFields P fields ↔ ∀ f ∈ fields, f.2.Throughout P := by
  induction fields with
  | nil => simp [ThroughoutFields]
  | cons f rest ih => simp [ThroughoutFields, ih]

/-! ## Legible parts -/

open Grammar in
/-- A string on one line, a call of an identifier, an object with different keys that quotes can
hold, or a literal. -/
def Legible : Expr → Prop
  | string s => '\n' ∉ s.toList
  | call name _ => isIdent name.toList = true
  | object fields => (fields.map Prod.fst).Nodup
      ∧ ∀ f ∈ fields, ∀ x ∈ f.1.toList, isQuotable x = true
  | unknown => False
  | _ => True

/-! ## Closing brackets -/

mutual

/-- Closing brackets that every text of the expression has: one for each array, those inside strings
and keys, and one for each string that only a bracketed segment can hold. -/
def closers : Expr → Nat
  | array items => itemClosers items + 1
  | bool _ => 0
  | call _ args => itemClosers args
  | number _ => 0
  | object fields => fieldClosers fields
  | string s => s.toList.count ']' + if '\x27' ∈ s.toList then 1 else 0
  | unknown => 0

def itemClosers : List Expr → Nat
  | [] => 0
  | e :: es => e.closers + itemClosers es

def fieldClosers : List (String × Expr) → Nat
  | [] => 0
  | (k, e) :: rest => k.toList.count ']' + e.closers + fieldClosers rest

end

end Expr

namespace Expr

theorem fieldClosers_insert_le (key : String) (e : Expr) (fields : Fields) :
    fieldClosers (Table.insert key e fields)
      ≤ key.toList.count ']' + e.closers + fieldClosers fields := by
  induction fields with
  | nil => simp [Table.insert, fieldClosers]
  | cons first rest ih =>
      obtain ⟨k, v⟩ := first
      rw [Table.insert]
      split
      · simp only [fieldClosers]
        omega
      · simp only [fieldClosers]
        omega

end Expr

end Playbooks
