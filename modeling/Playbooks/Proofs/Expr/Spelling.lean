import Playbooks.Proofs.Expr.Legible
import Playbooks.Proofs.Syntax.Reading

/-!
# Spelling expressions

Which expressions have a text in playbooks, how deep it nests, and that the text which is written
for an expression is the text of a phrase with this expression.

## Main definitions

* `Expr.Spellable`: every part of the expression has a text.
* `Expr.need`: levels of nesting.

## Main results

* `Expr.exists_spelling`: the text of a spellable expression is the text of a legal phrase.
-/
namespace Playbooks

open Grammar

/-! ## Spellable expressions -/

/-- The literal of the float is a decimal numeral that is read as an equal float. -/
structure Float64.ReadsBack (x : Float) : Prop where
  numeral : IsNumeral (literalText x).toList
  point : '.' ∈ (literalText x).toList
  read : ∃ y, Float64.read (literalText x).toList = some y ∧ (y == x) = true

namespace Expr

/-- This part has a text: strings and keys are without quotes and line breaks, the name of a call is
an identifier that is no truth value, and floats are finite. -/
def Spelled : Expr → Prop
  | string s => ∀ x ∈ s.toList, isQuotable x = true
  | call name _ => IsHead name.toList
  | number (.float x) => x.isFinite = true
  | object fields => ∀ f ∈ fields, ∀ x ∈ f.1.toList, isQuotable x = true
  | unknown => False
  | _ => True

/-- Every part has a text. -/
def Spellable (e : Expr) : Prop :=
  e.Throughout Spelled

/-- No key stands twice in this object. -/
def Keyed : Expr → Prop
  | object fields => (fields.map Prod.fst).Nodup
  | _ => True

/-- This part is no finite float, or its literal reads back. -/
def FloatReadsBack : Expr → Prop
  | number (.float x) => x.isFinite = true → Float64.ReadsBack x
  | _ => True

mutual

/-- Levels of nesting that the text of the expression takes: one for every value, and one more for
numbers and calls, with which arithmetic could start. -/
def need : Expr → Nat
  | array items => 1 + itemsNeed items
  | bool _ => 1
  | call _ args => 2 + itemsNeed args
  | number _ => 2
  | object fields => 1 + fieldsNeed fields
  | string _ => 1
  | unknown => 1

def itemsNeed : List Expr → Nat
  | [] => 0
  | e :: es => max e.need (itemsNeed es)

def fieldsNeed : List (String × Expr) → Nat
  | [] => 0
  | (_, e) :: rest => max e.need (fieldsNeed rest)

end

end Expr

/-! ## Lists as they are written -/

/-- Texts after a first one, each with a blank before it and a comma after it. -/
def trail : List (List Char) → List Char
  | [] => []
  | text :: texts => ' ' :: text ++ ',' :: trail texts

theorem continued_trail (texts : List (List Char)) :
    ∃ more, Continued texts more ∧ ',' :: trail texts = more ++ [','] := by
  induction texts with
  | nil => exact ⟨[], .nil, rfl⟩
  | cons text texts ih =>
      obtain ⟨more, hmore, heq⟩ := ih
      have hblank : Layout [' '] := .blank (by decide) .nil
      have hnext : Continued (text :: texts) (',' :: [' '] ++ text ++ [] ++ more) :=
        .cons hblank .nil hmore
      exact ⟨_, hnext, by simp [trail, heq]⟩

/-- The comma after the last text is the one that closes a list. -/
theorem separated_trail (text : List Char) (texts : List (List Char)) :
    ∃ inner, Separated (text :: texts) inner ∧ text ++ ',' :: trail texts = inner ++ [','] := by
  obtain ⟨more, hmore, heq⟩ := continued_trail texts
  exact ⟨_, .cons .nil hmore, by simp [heq]⟩

namespace Expr

theorem chars_array (items : List Expr) : (array items).chars = '[' :: listChars items ++ [']'] :=
  rfl

theorem chars_call (name : String) (args : List Expr) :
    (call name args).chars = name.toList ++ '(' :: listChars args ++ [')'] :=
  rfl

theorem chars_object (fields : List (String × Expr)) :
    (object fields).chars = '\x7b' :: fieldChars fields ++ ['\x7d'] :=
  rfl

theorem chars_number (n : Number) : (number n).chars = n.render.toList :=
  rfl

theorem chars_string (s : String) : (string s).chars = quotedKey s.toList :=
  rfl

theorem chars_bool (b : Bool) : (bool b).chars = (boolWord b).toList := by
  cases b <;> rfl

theorem moreChars_eq (es : List Expr) : moreChars es = trail (es.map chars) := by
  induction es with
  | nil => rfl
  | cons e es ih => simp [moreChars, trail, ih]

theorem listChars_cons (e : Expr) (es : List Expr) :
    listChars (e :: es) = e.chars ++ ',' :: trail (es.map chars) := by
  rw [listChars, moreChars_eq]

theorem listed_listChars (es : List Expr) : Listed (es.map chars) (listChars es) := by
  cases es with
  | nil => exact .intro .nil .nil .nil
  | cons e es =>
      obtain ⟨inner, hinner, heq⟩ := separated_trail e.chars (es.map chars)
      rw [listChars_cons, heq]
      exact .intro .nil hinner .nil

/-- A key and its value as they are written. -/
def pairChars (f : String × Expr) : List Char :=
  keyChars f.1 ++ ':' :: ' ' :: f.2.chars

theorem fieldChars_cons (f : String × Expr) (fields : List (String × Expr)) :
    fieldChars (f :: fields) = pairChars f ++ ',' :: trail (fields.map pairChars) := by
  induction fields generalizing f with
  | nil => simp [fieldChars, pairChars, trail]
  | cons f' fields ih => simp [fieldChars, pairChars, trail, ih f']

theorem braced_fieldChars (fields : List (String × Expr)) :
    Braced (fields.map pairChars) (fieldChars fields) := by
  cases fields with
  | nil => exact .plain .nil .nil
  | cons f fields =>
      obtain ⟨inner, hinner, heq⟩ := separated_trail (pairChars f) (fields.map pairChars)
      rw [fieldChars_cons, heq]
      exact .comma .nil hinner (by simp) .nil

end Expr

namespace Expr

/-- The same key, and values that agree. -/
def AgreesField (f g : String × Expr) : Prop :=
  f.1 = g.1 ∧ f.2.beq g.2 = true

variable {as bs : List (String × Expr)}

theorem keys_of_agree (h : List.Forall₂ AgreesField as bs) :
    as.map Prod.fst = bs.map Prod.fst := by
  induction h with
  | nil => rfl
  | cons hf _ ih => rw [List.map_cons, List.map_cons, hf.1, ih]

theorem beqFields_of_agree {all : List (String × Expr)} (h : List.Forall₂ AgreesField as bs)
    (hall : ∀ f ∈ bs, Table.get? f.1 all = some f.2) : beqFields as all = true := by
  induction h with
  | nil => rfl
  | @cons f g as bs hf _ ih =>
      have hget : Table.get? f.1 all = some g.2 := by
        rw [hf.1]
        exact hall g List.mem_cons_self
      have hrest := ih fun f hf => hall f (List.mem_cons_of_mem _ hf)
      simp [beqFields, hget, hf.2, hrest]

theorem beq_object_of_agree (h : List.Forall₂ AgreesField as bs) (hkeys : (Expr.object bs).Keyed) :
    (object as).beq (object bs) = true := by
  rw [beq, h.length_eq, beqFields_of_agree h fun f hf => Table.get?_of_mem hkeys hf]
  simp

end Expr

/-! ## Keys and numbers -/

theorem isIdent_of_isBareKey {key : String} (h : isBareKey key = true) :
    isIdent key.toList = true := by
  rw [isBareKey, Bool.and_eq_true] at h
  cases hkey : key.toList with
  | nil => simp [hkey] at h
  | cons x cs =>
      rw [hkey] at h
      exact h.1

/-- A key as it is written. -/
def Key.ofString (key : String) : Key :=
  if isBareKey key then .bare key.toList else .quoted key.toList

theorem Key.chars_ofString (key : String) : (Key.ofString key).chars = keyChars key := by
  rw [Key.ofString, keyChars]
  split <;> rfl

theorem Key.name_ofString (key : String) : (Key.ofString key).name = key.toList := by
  rw [Key.ofString]
  split <;> rfl

theorem Key.legal_ofString {key : String} (h : ∀ x ∈ key.toList, isQuotable x = true) :
    (Key.ofString key).Legal := by
  rw [Key.ofString]
  split
  · next hbare => exact isIdent_of_isBareKey hbare
  · exact h

theorem Number.isNumeral_render {n : Number} (hn : (Expr.number n).Spelled)
    (hfloat : (Expr.number n).FloatReadsBack) : IsNumeral n.render.toList := by
  cases n with
  | int i => exact isNumeral_toString_int i.toInt
  | float x => exact (hfloat hn).numeral

theorem Number.read?_render_float {x : Float} (h : Float64.ReadsBack x) :
    ∃ y, Number.read? (Number.float x).render.toList = some (.float y) ∧ (y == x) = true := by
  obtain ⟨y, hread, heq⟩ := h.read
  refine ⟨y, ?_, heq⟩
  have hpoint : (Float64.literalText x).toList.contains '.' = true :=
    List.contains_iff_mem.mpr h.point
  rw [Number.read?, Number.render, if_pos hpoint, hread]
  rfl

/-! ## Spellings -/

namespace Expr

/-- The phrase has the text, the nesting and the value of the expression. -/
structure Spelling (e : Expr) (v : Phrase) : Prop where
  legal : v.Legal
  need_eq : v.need = e.need
  written : v.Written e.chars
  expr_beq : v.expr.beq e = true

structure SpellingItems (es : List Expr) (vs : List Phrase) : Prop where
  legal : Phrase.LegalItems vs
  need_eq : Phrase.itemsNeed vs = itemsNeed es
  written : Phrase.WrittenItems vs (es.map chars)
  exprs_beq : beqItems (Phrase.exprs vs) es = true

structure SpellingFields (fields : List (String × Expr)) (pairs : List (Key × Phrase)) : Prop where
  legal : Phrase.LegalPairs pairs
  need_eq : Phrase.pairsNeed pairs = fieldsNeed fields
  written : Phrase.WrittenPairs pairs (fields.map pairChars)
  agree : List.Forall₂ AgreesField (Phrase.entries pairs) fields

theorem spelling_string {s : String} (h : ∀ x ∈ s.toList, isQuotable x = true) :
    Spelling (string s) (.string s.toList) :=
  ⟨h, rfl, rfl, by simp [Phrase.expr, beq]⟩

theorem spelling_bool (b : Bool) : Spelling (bool b) (.bool b) where
  legal := trivial
  need_eq := rfl
  written := chars_bool b
  expr_beq := by simp [Phrase.expr, beq]

theorem spelling_number {n : Number} (hn : (number n).Spelled)
    (hfloat : (number n).FloatReadsBack) : Spelling (number n) (.number n.render.toList) := by
  refine ⟨Number.isNumeral_render hn hfloat, rfl, rfl, ?_⟩
  cases n with
  | int i =>
      rw [Phrase.expr, Number.read?_render_int]
      exact beq_self_eq_true i
  | float x =>
      obtain ⟨y, hread, heq⟩ := Number.read?_render_float (hfloat hn)
      rw [Phrase.expr, hread]
      exact heq

section Composite

variable {es : List Expr} {vs : List Phrase} {fields : List (String × Expr)}
  {pairs : List (Key × Phrase)}

theorem spelling_array (h : SpellingItems es vs) : Spelling (array es) (.array vs) where
  legal := h.legal
  need_eq := congrArg (1 + ·) h.need_eq
  written := ⟨_, _, h.written, listed_listChars es, rfl⟩
  expr_beq := h.exprs_beq

theorem spelling_call {name : String} (hname : IsHead name.toList) (h : SpellingItems es vs) :
    Spelling (call name es) (.call name.toList vs) where
  legal := ⟨hname, h.legal⟩
  need_eq := congrArg (2 + ·) h.need_eq
  written := ⟨_, _, h.written, listed_listChars es, rfl⟩
  expr_beq := by simp [Phrase.expr, beq, h.exprs_beq]

theorem spelling_object (hkeys : (object fields).Keyed) (h : SpellingFields fields pairs) :
    Spelling (object fields) (.object pairs) where
  legal := h.legal
  need_eq := congrArg (1 + ·) h.need_eq
  written := ⟨_, _, h.written, braced_fieldChars fields, rfl⟩
  expr_beq := by
    have hentries : ((Phrase.entries pairs).map Prod.fst).Nodup := by
      rw [keys_of_agree h.agree]
      exact hkeys
    rw [Phrase.expr, Table.ofList_of_nodup hentries]
    exact beq_object_of_agree h.agree hkeys

theorem SpellingItems.cons {e : Expr} {v : Phrase} (hv : Spelling e v) (h : SpellingItems es vs) :
    SpellingItems (e :: es) (v :: vs) where
  legal := ⟨hv.legal, h.legal⟩
  need_eq := by rw [Phrase.itemsNeed, itemsNeed, hv.need_eq, h.need_eq]
  written := ⟨_, _, hv.written, h.written, rfl⟩
  exprs_beq := by rw [Phrase.exprs, beqItems, hv.expr_beq, h.exprs_beq, Bool.true_and]

theorem SpellingFields.cons {key : String} {e : Expr} {v : Phrase}
    (hkey : ∀ x ∈ key.toList, isQuotable x = true) (hv : Spelling e v)
    (h : SpellingFields fields pairs) :
    SpellingFields ((key, e) :: fields) ((Key.ofString key, v) :: pairs) where
  legal := ⟨Key.legal_ofString hkey, hv.legal, h.legal⟩
  need_eq := by rw [Phrase.pairsNeed, fieldsNeed, hv.need_eq, h.need_eq]
  written := by
    have hblank : Layout [' '] := .blank (by decide) .nil
    have hpair : PairText (Key.ofString key) e.chars (pairChars (key, e)) := by
      have htext : PairText (Key.ofString key) e.chars
          ((Key.ofString key).chars ++ [] ++ ':' :: [' '] ++ e.chars) := .intro .nil hblank
      simpa [Key.chars_ofString, pairChars] using htext
    exact ⟨_, _, _, hv.written, hpair, h.written, rfl⟩
  agree := by
    refine .cons ⟨?_, hv.expr_beq⟩ h.agree
    rw [Key.name_ofString, String.ofList_toList]

end Composite

/-- What a part of an expression needs to be read back from its text. -/
def Readable (e : Expr) : Prop :=
  e.Spelled ∧ e.Keyed ∧ e.FloatReadsBack

mutual

/-- The text of a readable expression is the text of a phrase that stands for it. -/
theorem exists_spelling : (e : Expr) → e.Throughout Readable → ∃ v, Spelling e v
  | array items, h => by
    obtain ⟨vs, hvs⟩ := exists_spellingItems items h.2
    exact ⟨_, spelling_array hvs⟩
  | bool b, _ => ⟨_, spelling_bool b⟩
  | call name args, h => by
    obtain ⟨vs, hvs⟩ := exists_spellingItems args h.2
    exact ⟨_, spelling_call h.1.1 hvs⟩
  | number n, h => ⟨_, spelling_number h.1 h.2.2⟩
  | object fields, h => by
    obtain ⟨pairs, hpairs⟩ := exists_spellingFields fields h.1.1 h.2
    exact ⟨_, spelling_object h.1.2.1 hpairs⟩
  | string s, h => ⟨_, spelling_string h.1⟩
  | unknown, h => h.1.elim

theorem exists_spellingItems : (es : List Expr) → ThroughoutItems Readable es →
    ∃ vs, SpellingItems es vs
  | [], _ => ⟨[], trivial, rfl, rfl, rfl⟩
  | e :: es, h => by
    obtain ⟨v, hv⟩ := exists_spelling e h.1
    obtain ⟨vs, hvs⟩ := exists_spellingItems es h.2
    exact ⟨_, hvs.cons hv⟩

theorem exists_spellingFields : (fields : List (String × Expr)) →
    (∀ f ∈ fields, ∀ x ∈ f.1.toList, isQuotable x = true) → ThroughoutFields Readable fields →
    ∃ pairs, SpellingFields fields pairs
  | [], _, _ => ⟨[], trivial, rfl, rfl, .nil⟩
  | (key, e) :: fields, hkeys, h => by
    obtain ⟨v, hv⟩ := exists_spelling e h.1
    obtain ⟨pairs, hpairs⟩ :=
      exists_spellingFields fields (fun f hf => hkeys f (List.mem_cons_of_mem _ hf)) h.2
    exact ⟨_, hpairs.cons (hkeys (key, e) List.mem_cons_self) hv⟩

end

end Expr

end Playbooks
