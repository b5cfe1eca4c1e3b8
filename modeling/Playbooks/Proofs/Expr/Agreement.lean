import Playbooks.Proofs.Expr.Spelling

/-!
# Agreement of expressions

Expressions that agree are equally legible and need equally many closing brackets, whatever the
order of their keys. The text that is written for an expression has exactly so many closing brackets
only if none of its strings holds a quote.

## Main results

* `Expr.legible_of_beq`: agreement keeps legibility and closing brackets.
* `Expr.plain_of_closers_le`: an expression with all its closing brackets in its text has no quotes.
-/
namespace Playbooks

open Grammar

namespace Expr

/-! ## Objects in any order -/

section Objects

variable {as bs bs' : List (String × Expr)}

theorem beqFields_congr (h : ∀ f ∈ as, Table.get? f.1 bs = Table.get? f.1 bs') :
    beqFields as bs = beqFields as bs' := by
  induction as with
  | nil => rfl
  | cons f as ih =>
      have hrest := ih fun f hf => h f (List.mem_cons_of_mem _ hf)
      rw [beqFields, beqFields, h f List.mem_cons_self, hrest]

/-- Objects that agree have their fields in pairs, up to order. -/
theorem exists_perm_of_beqFields (h : beqFields as bs = true) (hkeys : (as.map Prod.fst).Nodup)
    (hlength : bs.length ≤ as.length) : ∃ cs, bs.Perm cs ∧ List.Forall₂ AgreesField as cs := by
  induction as generalizing bs with
  | nil =>
      obtain rfl : bs = [] := List.length_eq_zero_iff.mp (Nat.le_zero.mp hlength)
      exact ⟨[], .nil, .nil⟩
  | cons f as ih =>
      obtain ⟨k, a⟩ := f
      rw [List.map_cons, List.nodup_cons] at hkeys
      rw [beqFields, Bool.and_eq_true] at h
      cases hget : Table.get? k bs with
      | none => simp [hget] at h
      | some b =>
          rw [hget] at h
          obtain ⟨before, after, rfl⟩ := Table.exists_split_of_get? hget
          have hothers : beqFields as (before ++ after) = true := by
            rw [← h.2]
            refine beqFields_congr fun f hf => (Table.get?_of_ne ?_).symm
            intro heq
            exact hkeys.1 (List.mem_map.mpr ⟨f, hf, heq⟩)
          have hshorter : (before ++ after).length ≤ as.length := by
            simp only [List.length_append, List.length_cons] at hlength ⊢
            omega
          obtain ⟨cs, hperm, hagree⟩ := ih hothers hkeys.2 hshorter
          exact ⟨(k, b) :: cs, List.perm_middle.trans (hperm.cons _), .cons ⟨rfl, h.1⟩ hagree⟩

theorem fieldClosers_perm (h : as.Perm bs) : fieldClosers as = fieldClosers bs := by
  induction h with
  | nil => rfl
  | cons f _ ih => simp [fieldClosers, ih]
  | swap f g _ =>
      simp only [fieldClosers]
      omega
  | trans _ _ ih ih' => exact ih.trans ih'

end Objects

/-! ## What agreement keeps -/

mutual

/-- Agreement keeps legibility and closing brackets. -/
theorem legible_of_beq : (e e' : Expr) → e.beq e' = true → e.Throughout Legible →
    e'.Throughout Legible ∧ e'.closers = e.closers
  | array as, e', h, he => by
    cases e' with
    | array bs =>
        obtain ⟨hbs, hclosers⟩ := legible_of_beqItems as bs h he.2
        exact ⟨⟨trivial, hbs⟩, by rw [closers, closers, hclosers]⟩
    | _ => cases h
  | bool a, e', h, _ => by
    cases e' with
    | bool b => exact ⟨trivial, rfl⟩
    | _ => cases h
  | call f as, e', h, he => by
    cases e' with
    | call g bs =>
        rw [beq, Bool.and_eq_true, beq_iff_eq] at h
        obtain ⟨rfl, h⟩ := h
        obtain ⟨hbs, hclosers⟩ := legible_of_beqItems as bs h he.2
        exact ⟨⟨he.1, hbs⟩, hclosers⟩
    | _ => cases h
  | number a, e', h, _ => by
    cases e' with
    | number b => exact ⟨trivial, rfl⟩
    | _ => cases h
  | object as, e', h, he => by
    cases e' with
    | object bs =>
        rw [beq, Bool.and_eq_true, beq_iff_eq] at h
        obtain ⟨hlength, h⟩ := h
        obtain ⟨hkeys, hquotable⟩ := he.1
        obtain ⟨cs, hperm, hagree⟩ := exists_perm_of_beqFields h hkeys
          (Nat.le_of_eq hlength.symm)
        obtain ⟨hcs, hclosers⟩ := legible_of_agree as cs hagree he.2
        have hnames : (bs.map Prod.fst).Perm (as.map Prod.fst) := by
          rw [keys_of_agree hagree]
          exact hperm.map Prod.fst
        refine ⟨⟨⟨hnames.nodup_iff.mpr hkeys, ?_⟩, ?_⟩, ?_⟩
        · intro f hf
          obtain ⟨g, hg, hname⟩ := List.mem_map.mp (hnames.subset (List.mem_map_of_mem hf))
          exact hname ▸ hquotable g hg
        · rw [throughoutFields_iff] at hcs ⊢
          exact fun f hf => hcs f (hperm.subset hf)
        · exact (fieldClosers_perm hperm).trans hclosers
    | _ => cases h
  | string a, e', h, he => by
    cases e' with
    | string b =>
        obtain rfl : a = b := by simpa [beq] using h
        exact ⟨he, rfl⟩
    | _ => cases h
  | unknown, _, _, he => he.elim

theorem legible_of_beqItems : (as bs : List Expr) → beqItems as bs = true →
    ThroughoutItems Legible as → ThroughoutItems Legible bs ∧ itemClosers bs = itemClosers as
  | [], bs, h, _ => by
    cases bs with
    | nil => exact ⟨trivial, rfl⟩
    | cons b bs => simp [beqItems] at h
  | a :: as, bs, h, has => by
    cases bs with
    | nil => simp [beqItems] at h
    | cons b bs =>
        rw [beqItems, Bool.and_eq_true] at h
        obtain ⟨hb, hclosers⟩ := legible_of_beq a b h.1 has.1
        obtain ⟨hbs, hclosers'⟩ := legible_of_beqItems as bs h.2 has.2
        exact ⟨⟨hb, hbs⟩, by rw [itemClosers, itemClosers, hclosers, hclosers']⟩

theorem legible_of_agree : (as bs : List (String × Expr)) → List.Forall₂ AgreesField as bs →
    ThroughoutFields Legible as → ThroughoutFields Legible bs ∧ fieldClosers bs = fieldClosers as
  | [], _, h, _ => by
    cases h
    exact ⟨trivial, rfl⟩
  | (k, a) :: as, _, h, has => by
    cases h with
    | @cons _ g _ bs hg hbs =>
        obtain ⟨k', b⟩ := g
        obtain ⟨rfl, hb⟩ := hg
        obtain ⟨hb, hclosers⟩ := legible_of_beq a b hb has.1
        obtain ⟨hbs, hclosers'⟩ := legible_of_agree as bs hbs has.2
        exact ⟨⟨hb, hbs⟩, by rw [fieldClosers, fieldClosers, hclosers, hclosers']⟩

end

end Expr

/-! ## Closing brackets of texts -/

theorem isDecimal_of_isNumeral {cs : List Char} (h : IsNumeral cs) :
    ∀ x ∈ cs, (x.isDigit || x == '-' || x == '.') = true := by
  have hmagnitude {cs : List Char} (h : IsMagnitude cs) :
      ∀ x ∈ cs, (x.isDigit || x == '-' || x == '.') = true := by
    intro x hx
    cases h with
    | whole hds => simp [(isDigits_iff.mp hds).2 x hx]
    | decimal hds hfs =>
        rcases List.mem_append.mp hx with hx | hx
        · simp [(isDigits_iff.mp hds).2 x hx]
        · rcases List.mem_cons.mp hx with rfl | hx
          · decide
          · simp [(isDigits_iff.mp hfs).2 x hx]
  intro x hx
  cases h with
  | plain h => exact hmagnitude h x hx
  | minus h =>
      rcases List.mem_cons.mp hx with rfl | hx
      · decide
      · exact hmagnitude h x hx

/-- Floats that are not finite are written by their names. -/
theorem Float64.literalText_of_not_finite {x : Float} (h : x.isFinite = false) :
    (literalText x).toList = "NaN".toList ∨ (literalText x).toList = "inf".toList
      ∨ (literalText x).toList = "-inf".toList := by
  rw [literalText, if_neg (by simp [h]), String.toList_ofList, plainText]
  by_cases hnan : x.isNaN = true
  · rw [if_pos hnan]
    exact Or.inl rfl
  · rw [if_neg hnan, if_pos (by simp [h])]
    split
    · exact Or.inr (Or.inr rfl)
    · exact Or.inr (Or.inl rfl)

theorem Number.count_closer_render {n : Number} (hfloat : (Expr.number n).FloatReadsBack) :
    n.render.toList.count ']' = 0 := by
  have hnumeral (h : IsNumeral n.render.toList) : n.render.toList.count ']' = 0 := by
    rw [List.count_eq_zero]
    intro hmem
    have hdecimal := isDecimal_of_isNumeral h _ hmem
    revert hdecimal
    decide
  cases n with
  | int i => exact hnumeral (isNumeral_render trivial trivial)
  | float x =>
      cases hfinite : x.isFinite with
      | true => exact hnumeral (isNumeral_render hfinite hfloat)
      | false =>
          rw [render]
          rcases Float64.literalText_of_not_finite hfinite with h | h | h
          all_goals
            rw [h]
            decide

theorem count_closer_trail (texts : List (List Char)) :
    (trail texts).count ']' = texts.flatten.count ']' := by
  induction texts with
  | nil => rfl
  | cons text texts ih => simp [trail, ih]

theorem count_closer_quotedKey (cs : List Char) : (quotedKey cs).count ']' = cs.count ']' := by
  simp [quotedKey]

theorem count_closer_keyChars (key : String) : (keyChars key).count ']' = key.toList.count ']' := by
  rw [keyChars]
  split
  · rfl
  · exact count_closer_quotedKey _

namespace Expr

theorem count_closer_listChars (es : List Expr) :
    (listChars es).count ']' = (es.map chars).flatten.count ']' := by
  cases es with
  | nil => rfl
  | cons e es => simp [listChars_cons, count_closer_trail]

theorem count_closer_fieldChars (fields : List (String × Expr)) :
    (fieldChars fields).count ']' = (fields.map pairChars).flatten.count ']' := by
  cases fields with
  | nil => rfl
  | cons f fields => simp [fieldChars_cons, count_closer_trail]

theorem count_closer_pairChars (key : String) (e : Expr) :
    (pairChars (key, e)).count ']' = key.toList.count ']' + e.chars.count ']' := by
  simp [pairChars, count_closer_keyChars]

/-- No quote stands in this string. -/
def Plain : Expr → Prop
  | string s => '\x27' ∉ s.toList
  | _ => True

mutual

/-- The text of a legible expression has at most its closing brackets, and fewer if a string holds a
quote. -/
theorem plain_of_closers_le : (e : Expr) → e.Throughout Legible → e.Throughout FloatReadsBack →
    e.chars.count ']' ≤ e.closers ∧ (e.closers ≤ e.chars.count ']' → e.Throughout Plain)
  | array items, he, hfloat => by
    obtain ⟨hle, hplain⟩ := plain_of_itemClosers_le items he.2 hfloat.2
    have hcount : (array items).chars.count ']' = (listChars items).count ']' + 1 := by
      simp [chars_array]
    rw [hcount, count_closer_listChars, closers]
    exact ⟨by omega, fun h => ⟨trivial, hplain (by omega)⟩⟩
  | bool b, _, _ => by
    refine ⟨?_, fun _ => trivial⟩
    cases b <;> decide
  | call name args, he, hfloat => by
    obtain ⟨hle, hplain⟩ := plain_of_itemClosers_le args he.2 hfloat.2
    have hname : name.toList.count ']' = 0 := by
      rw [List.count_eq_zero]
      intro hmem
      have hident := isIdentChar_of_isIdent he.1 _ hmem
      revert hident
      decide
    have hcount : (call name args).chars.count ']' = (listChars args).count ']' := by
      simp [chars_call, hname]
    rw [hcount, count_closer_listChars, closers]
    exact ⟨hle, fun h => ⟨trivial, hplain h⟩⟩
  | number n, _, hfloat => by
    refine ⟨?_, fun _ => trivial⟩
    rw [chars_number, Number.count_closer_render hfloat]
    exact Nat.zero_le _
  | object fields, he, hfloat => by
    obtain ⟨hle, hplain⟩ := plain_of_fieldClosers_le fields he.2 hfloat.2
    have hcount : (object fields).chars.count ']' = (fieldChars fields).count ']' := by
      simp [chars_object]
    rw [hcount, count_closer_fieldChars, closers]
    exact ⟨hle, fun h => ⟨trivial, hplain h⟩⟩
  | string s, _, _ => by
    rw [chars_string, count_closer_quotedKey, closers]
    refine ⟨by omega, fun h hquote => ?_⟩
    rw [if_pos hquote] at h
    omega
  | unknown, he, _ => he.elim

theorem plain_of_itemClosers_le : (es : List Expr) → ThroughoutItems Legible es →
    ThroughoutItems FloatReadsBack es →
    (es.map chars).flatten.count ']' ≤ itemClosers es
      ∧ (itemClosers es ≤ (es.map chars).flatten.count ']' → ThroughoutItems Plain es)
  | [], _, _ => ⟨Nat.le_refl 0, fun _ => trivial⟩
  | e :: es, hes, hfloat => by
    obtain ⟨hle, hplain⟩ := plain_of_closers_le e hes.1 hfloat.1
    obtain ⟨hle', hplain'⟩ := plain_of_itemClosers_le es hes.2 hfloat.2
    rw [List.map_cons, List.flatten_cons, List.count_append, itemClosers]
    exact ⟨by omega, fun h => ⟨hplain (by omega), hplain' (by omega)⟩⟩

theorem plain_of_fieldClosers_le : (fields : List (String × Expr)) →
    ThroughoutFields Legible fields → ThroughoutFields FloatReadsBack fields →
    (fields.map pairChars).flatten.count ']' ≤ fieldClosers fields
      ∧ (fieldClosers fields ≤ (fields.map pairChars).flatten.count ']' →
        ThroughoutFields Plain fields)
  | [], _, _ => ⟨Nat.le_refl 0, fun _ => trivial⟩
  | (key, e) :: fields, hfields, hfloat => by
    obtain ⟨hle, hplain⟩ := plain_of_closers_le e hfields.1 hfloat.1
    obtain ⟨hle', hplain'⟩ := plain_of_fieldClosers_le fields hfields.2 hfloat.2
    rw [List.map_cons, List.flatten_cons, List.count_append, fieldClosers, count_closer_pairChars]
    exact ⟨by omega, fun h => ⟨hplain (by omega), hplain' (by omega)⟩⟩

end

end Expr

end Playbooks
