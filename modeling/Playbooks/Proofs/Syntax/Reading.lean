import Mathlib.Data.List.Forall2
import Playbooks.Proofs.Expr.Lowering
import Playbooks.Proofs.Syntax.Phrases

/-!
# Reading written values

The grammar reads every text of a legal phrase within its levels of nesting, up to its end and no
further, and the match has the expression of the phrase.

## Main definitions

* `Ends`: what stands after a value cannot extend it.
* `ReadsText`: a parser reads a text wherever it stands.
* `ReadsOperand`: arithmetic reads a text as an operand wherever it stands.

## Main results

* `Grammar.reads_phrase`: values are read from each of their texts.
-/
namespace Playbooks

open Playbooks.Parser

namespace Grammar

/-! ## First characters -/

/-- Visible characters of ASCII. -/
def isInk (x : Char) : Bool :=
  33 ≤ x.toNat && x.toNat ≤ 126

theorem isBlank_of_isInk {x : Char} (h : isInk x = true) : Text.isBlank x = false := by
  simp only [isInk, Bool.and_eq_true, decide_eq_true_eq] at h
  simp only [Text.isBlank, Text.blanks, Text.Ranges.contains, List.any_cons, List.any_nil,
    Bool.or_false, Bool.or_eq_false_iff, Bool.and_eq_false_iff, decide_eq_false_iff_not]
  omega

theorem isInk_of_isAlphanum {x : Char} (h : x.isAlphanum = true) : isInk x = true := by
  unfold Char.isAlphanum Char.isAlpha Char.isUpper Char.isLower Char.isDigit at h
  simp only [Bool.or_eq_true, Bool.and_eq_true, decide_eq_true_eq, ge_iff_le,
    UInt32.le_iff_toNat_le] at h
  change ((65 ≤ x.toNat ∧ x.toNat ≤ 90) ∨ (97 ≤ x.toNat ∧ x.toNat ≤ 122))
    ∨ (48 ≤ x.toNat ∧ x.toNat ≤ 57) at h
  simp only [isInk, Bool.and_eq_true, decide_eq_true_eq]
  omega

theorem isLetter_of_isDigit {x : Char} (h : x.isDigit = true) : isLetter x = false := by
  simp only [Char.isDigit, Bool.and_eq_true, decide_eq_true_eq, ge_iff_le,
    UInt32.le_iff_toNat_le] at h
  change 48 ≤ x.toNat ∧ x.toNat ≤ 57 at h
  cases hx : isLetter x with
  | false => rfl
  | true =>
      unfold isLetter Char.isAlpha Char.isUpper Char.isLower at hx
      simp only [Bool.or_eq_true, Bool.and_eq_true, decide_eq_true_eq, ge_iff_le,
        UInt32.le_iff_toNat_le] at hx
      change (65 ≤ x.toNat ∧ x.toNat ≤ 90) ∨ (97 ≤ x.toNat ∧ x.toNat ≤ 122) at hx
      omega

/-- Characters that a value can start with. -/
def startsValue (x : Char) : Bool :=
  x.isAlphanum || x == '-' || x == '(' || x == '[' || x == '\x7b' || x == '\x27'

/-- Characters that an operand of arithmetic can start with. -/
def startsOperand (x : Char) : Bool :=
  x.isAlphanum || x == '-' || x == '('

theorem startsValue_of_startsOperand {x : Char} (h : startsOperand x = true) :
    startsValue x = true := by
  simp only [startsOperand, Bool.or_eq_true] at h
  rcases h with (h | h) | h <;> simp [startsValue, h]

theorem startsOperand_of_isLetter {x : Char} (h : isLetter x = true) : startsOperand x = true := by
  have hletter : x.isAlpha = true := h
  simp [startsOperand, Char.isAlphanum, hletter]

theorem startsValue_of_isLetter {x : Char} (h : isLetter x = true) : startsValue x = true :=
  startsValue_of_startsOperand (startsOperand_of_isLetter h)

theorem isInk_of_startsValue {x : Char} (h : startsValue x = true) : isInk x = true := by
  simp only [startsValue, Bool.or_eq_true, beq_iff_eq] at h
  rcases h with ((((h | rfl) | rfl) | rfl) | rfl) | rfl
  · exact isInk_of_isAlphanum h
  all_goals decide

theorem startsLayout_of_startsValue {x : Char} (h : startsValue x = true) :
    startsLayout x = false := by
  have hsharp : x ≠ '#' := by
    rintro rfl
    cases h
  simp [startsLayout, isBlank_of_isInk (isInk_of_startsValue h), hsharp]

/-! ## What ends a value -/

/-- Characters that could extend the last word of a value. -/
def runsOn (x : Char) : Bool :=
  x.isAlphanum || x == '-' || x == '_' || x == '.' || x == '['

def isSign (x : Char) : Bool :=
  x == '+' || x == '-' || x == '*' || x == '/'

/-- What stands after a value does not extend it, even after layout. -/
structure Ends (rest : List Char) : Prop where
  word : rest.head?.any runsOn = false
  sign : ∃ gap next, rest = gap ++ next ∧ Layout gap ∧ next.head?.any startsLayout = false
    ∧ next.head?.any isSign = false

/-- Characters that, after a value, are part of it or of the layout after it. -/
def extendsValue (x : Char) : Bool :=
  startsLayout x || isSign x || runsOn x

section Heads

variable {P Q : Char → Bool} {o : Option Char} {x : Char} {c c' : Cursor}
  {text more rest gap : List Char}

theorem runsOn_of_startsLayout (h : startsLayout x = true) : runsOn x = false := by
  rw [startsLayout, Bool.or_eq_true, beq_iff_eq] at h
  rcases h with h | rfl
  · cases hx : runsOn x with
    | false => rfl
    | true =>
        have hink : isInk x = true := by
          simp only [runsOn, Bool.or_eq_true, beq_iff_eq] at hx
          rcases hx with (((hx | rfl) | rfl) | rfl) | rfl
          · exact isInk_of_isAlphanum hx
          all_goals decide
        rw [isBlank_of_isInk hink] at h
        cases h
  · decide

theorem Layout.head (hgap : Layout gap) : gap = [] ∨ Starts startsLayout gap := by
  cases hgap with
  | nil => exact Or.inl rfl
  | blank hx _ => exact Or.inr ⟨_, _, rfl, by simp [startsLayout, hx]⟩
  | comment _ _ => exact Or.inr ⟨_, _, rfl, by decide⟩

/-- Layout ends a word. -/
theorem runsOn_of_gap (hgap : Layout gap) (hword : gap ≠ [] ∨ rest.head?.any runsOn = false) :
    (gap ++ rest).head?.any runsOn = false := by
  rcases hgap.head with rfl | ⟨x, more, rfl, hx⟩
  · simpa using hword
  · exact runsOn_of_startsLayout hx

/-- Layout and a character that extends nothing end a value. -/
theorem ends_of_gap (hgap : Layout gap) (hlayout : rest.head?.any startsLayout = false)
    (hsign : rest.head?.any isSign = false) (hword : gap ≠ [] ∨ rest.head?.any runsOn = false) :
    Ends (gap ++ rest) :=
  ⟨runsOn_of_gap hgap hword, gap, rest, rfl, hgap, hlayout, hsign⟩

theorem stops_of_closes (h : o.any extendsValue = false) : o.any startsLayout = false :=
  any_false_mono h fun x hx => by simp [extendsValue, hx]

theorem ends_of_closes (hgap : Layout gap) (h : rest.head?.any extendsValue = false) :
    Ends (gap ++ rest) := by
  refine ends_of_gap hgap (stops_of_closes h) (any_false_mono h ?_) (Or.inr (any_false_mono h ?_))
  all_goals
    intro x hx
    simp [extendsValue, hx]

theorem isIdentChar_of_ends (h : Ends rest) :
    rest.head?.any isIdentChar = false :=
  any_false_mono h.word fun x hx => by
    simp only [isIdentChar, Bool.or_eq_true] at hx
    rcases hx with hx | hx <;> simp [runsOn, hx]

end Heads

/-! ## Rules that do not apply -/

section Fails

variable {p : Parser Match} {c : Cursor}

theorem fails_array (h : c.rest.head? ≠ some '[') : (array p).Fails c :=
  (fails_lexeme (fails_mark h)).bind.node

theorem fails_object (h : c.rest.head? ≠ some '\x7b') : (object p).Fails c :=
  (fails_lexeme (fails_mark h)).bind.node

theorem fails_group (h : c.rest.head? ≠ some '(') : (group p).Fails c :=
  (fails_lexeme (fails_mark h)).bind

theorem fails_call (h : c.rest.head?.any isLetter = false) : (call p).Fails c :=
  (fails_ident h).bind.node

theorem fails_index (h : c.rest.head?.any isLetter = false) : index.Fails c :=
  (fails_ident h).bind.node

theorem fails_pair (h : c.rest.head?.any (fun x => isLetter x || x == '\x27') = false) :
    (pair p).Fails c := by
  have hletter : c.rest.head?.any isLetter = false := any_false_mono h (by simp +contextual)
  have hquote : c.rest.head? ≠ some '\x27' := ne_some_of_any_false h (by decide)
  exact ((fails_ident hletter).orElse (fails_string hquote)).bind.node

theorem fails_pair_of_startsValue (h : c.rest.head?.any startsValue = false) :
    (pair p).Fails c := by
  refine fails_pair (any_false_mono h fun x hx => ?_)
  rw [Bool.or_eq_true, beq_iff_eq] at hx
  rcases hx with hx | rfl
  · exact startsValue_of_isLetter hx
  · decide

theorem fails_keyword_of_head {word : String} (hword : Starts isLetter word.toList)
    (h : c.rest.head?.any isLetter = false) : (keyword word).Fails c := by
  refine (fails_text ?_).bind.expect _
  rintro ⟨tail, htail⟩
  obtain ⟨x, more, hx, hletter⟩ := hword
  rw [← htail, hx, List.cons_append, List.head?_cons, Option.any_some, hletter] at h
  cases h

theorem fails_bool_of_head (h : c.rest.head?.any isLetter = false) : bool.Fails c := by
  have hword (b : Bool) : Starts isLetter (boolWord b).toList :=
    starts_of_isIdent (isIdent_boolWord b)
  exact ((fails_keyword_of_head (hword true) h).orElse (fails_keyword_of_head (hword false) h)).leaf

theorem fails_chain {rule : Rule} {isOperator : Char → Bool} (h : p.Fails c) :
    (chain rule isOperator p).Fails c :=
  (reads_offset c).bind_fails h.bind

theorem startsOperand_of_startsNumber {x : Char} (h : (x.isDigit || x == '-') = true) :
    startsOperand x = true := by
  rw [Bool.or_eq_true] at h
  rcases h with h | h <;> simp [startsOperand, Char.isAlphanum, h]

theorem isLetter_of_startsNumber {x : Char} (h : (x.isDigit || x == '-') = true) :
    isLetter x = false := by
  rw [Bool.or_eq_true, beq_iff_eq] at h
  rcases h with h | rfl
  · exact isLetter_of_isDigit h
  · decide

/-- Neither a number nor a group starts with a letter. -/
theorem fails_number_and_group {text : List Char} {c' : Cursor} (hstarts : Starts isLetter text)
    (htook : c.Took text c') : number.Fails c ∧ (group p).Fails c := by
  refine ⟨fails_number (hstarts.any_head htook fun x hx => ?_),
    fails_group (hstarts.head?_ne htook (by decide))⟩
  rw [← Bool.not_eq_true]
  intro hnumber
  rw [isLetter_of_startsNumber hnumber] at hx
  cases hx

theorem fails_sum (n : Nat) (h : c.rest.head?.any startsOperand = false) : (sum n).Fails c := by
  cases n with
  | zero => exact fails_refuse _ c
  | succ n =>
      have hletter : c.rest.head?.any isLetter = false :=
        any_false_mono h fun _ => startsOperand_of_isLetter
      have hnumber : c.rest.head?.any (fun x => x.isDigit || x == '-') = false :=
        any_false_mono h fun _ => startsOperand_of_startsNumber
      have hgroup : c.rest.head? ≠ some '(' := ne_some_of_any_false h (by decide)
      exact fails_chain (fails_chain ((fails_number hnumber).orElse ((fails_group hgroup).orElse
        ((fails_call hletter).orElse (fails_index hletter)))))

/-- A value is not read where none can start. -/
theorem fails_value (n : Nat) (h : c.rest.head?.any startsValue = false) : (value n).Fails c := by
  cases n with
  | zero => exact fails_refuse _ c
  | succ n =>
      have hoperand : c.rest.head?.any startsOperand = false :=
        any_false_mono h fun _ => startsValue_of_startsOperand
      have hletter : c.rest.head?.any isLetter = false :=
        any_false_mono h fun _ => startsValue_of_isLetter
      exact (fails_array (ne_some_of_any_false h (by decide))).orElse
        ((fails_bool_of_head hletter).orElse ((fails_sum n hoperand).orElse
          ((fails_object (ne_some_of_any_false h (by decide))).orElse
            (fails_string (ne_some_of_any_false h (by decide))))))

end Fails

/-! ## Lists -/

/-- Wherever the text stands in the source, if nothing extends it, the parser reads it, and its
match has the property. -/
structure ReadsText (source : List Char) (p : Parser Match) (Q : Match → Prop) (text : List Char) :
    Prop where
  starts : Starts startsValue text
  reads (c c' : Cursor) : c.In source → c.Took text c' → Ends c'.rest → ∃ m, p.Reads c m c' ∧ Q m

section Lists

variable {source : List Char} {p : Parser Match} {α : Type} {R : α → Match → Prop}
  {texts : List (List Char)} {more inner : List Char} {xs : List α} {c c' : Cursor} {x : Char}

/-- Everything of a class that starts values is passed over by no layout. -/
theorem Starts.stops (h : Starts startsValue more) (htook : c.Took more c') :
    c.rest.head?.any startsLayout = false :=
  h.any_head htook fun _ => startsLayout_of_startsValue

/-- A mark and the layout after it. -/
theorem reads_markGap {c₁ c₂ : Cursor} {gap : List Char} (hmark : c.Took [x] c₁)
    (hgap : c₁.Took gap c₂) (hlayout : Layout gap)
    (hstop : c₂.rest.head?.any startsLayout = false) : (lexeme (mark x)).Reads c () c₂ :=
  reads_lexeme (reads_mark hmark) hgap hlayout hstop

theorem closes_of_continued (h : Continued texts more) (htook : c.Took more c')
    (hclose : c'.rest.head?.any extendsValue = false) : c.rest.head?.any extendsValue = false := by
  cases h with
  | nil => rwa [htook.eq_of_nil] at hclose
  | cons _ _ _ => exact any_head_of_took htook false (by decide)

theorem reads_continued (h : Continued texts more)
    (hread : List.Forall₂ (fun text x => ReadsText source p (R x) text) texts xs)
    (hc : c.In source) (htook : c.Took more c') (hclose : c'.rest.head?.any extendsValue = false)
    (hend : (comma >>= fun _ => lexeme p).Fails c') :
    ∃ ms, (many (comma >>= fun _ => lexeme p)).Reads c ms c' ∧ List.Forall₂ R xs ms := by
  induction h generalizing xs c with
  | nil =>
      cases hread
      rw [htook.eq_of_nil] at hend ⊢
      exact ⟨[], hend.many, .nil⟩
  | @cons text gap gap' more texts hgap hgap' hmore ih =>
      cases hread with
      | cons htext hrest =>
          obtain ⟨c₄, htook₄, hmoreTook⟩ := htook.split
          obtain ⟨c₃, htook₃, hgapTook'⟩ := htook₄.split
          obtain ⟨c₂, htook₂, htextTook⟩ := htook₃.split
          obtain ⟨c₁, hcomma, hgapTook⟩ := htook₂.uncons
          have hclose₄ := closes_of_continued hmore hmoreTook hclose
          have hcommaReads : comma.Reads c () c₂ :=
            reads_markGap hcomma hgapTook hgap (htext.starts.stops htextTook)
          have hends : Ends c₃.rest := by
            rw [hgapTook'.rest_eq]
            exact ends_of_closes hgap' hclose₄
          obtain ⟨m, hm, hR⟩ := htext.reads c₂ c₃ (hc.of_le htook₂.le) htextTook hends
          have helement := reads_lexeme hm hgapTook' hgap' (stops_of_closes hclose₄)
          obtain ⟨ms, hms, hRs⟩ := ih hrest (hc.of_le htook₄.le) hmoreTook
          exact ⟨m :: ms, (hcommaReads.bind helement).many_cons htook₄ (by simp) hms, .cons hR hRs⟩

theorem reads_separated (h : Separated texts inner)
    (hread : List.Forall₂ (fun text x => ReadsText source p (R x) text) texts xs)
    (hc : c.In source) (htook : c.Took inner c') (hclose : c'.rest.head?.any extendsValue = false)
    (hend : (comma >>= fun _ => lexeme p).Fails c') (hnone : p.Fails c') :
    ∃ ms, (separated p).Reads c ms c' ∧ List.Forall₂ R xs ms := by
  cases h with
  | nil =>
      cases hread
      rw [htook.eq_of_nil] at hnone ⊢
      exact ⟨[], (fails_lexeme hnone).option.bind (reads_pure [] c), .nil⟩
  | @cons text gap more texts hgap hmore =>
      cases hread with
      | cons htext hrest =>
          obtain ⟨c₂, htook₂, hmoreTook⟩ := htook.split
          obtain ⟨c₁, htextTook, hgapTook⟩ := htook₂.split
          have hclose₂ := closes_of_continued hmore hmoreTook hclose
          have hends : Ends c₁.rest := by
            rw [hgapTook.rest_eq]
            exact ends_of_closes hgap hclose₂
          obtain ⟨m, hm, hR⟩ := htext.reads c c₁ hc htextTook hends
          have hfirst := reads_lexeme hm hgapTook hgap (stops_of_closes hclose₂)
          obtain ⟨ms, hms, hRs⟩ :=
            reads_continued hmore hrest (hc.of_le htook₂.le) hmoreTook hclose hend
          exact ⟨m :: ms, hfirst.option.bind (hms.bind (reads_pure _ c')), .cons hR hRs⟩

/-- Where the items of a list start, layout ends. -/
theorem stops_of_separated (h : Separated texts inner)
    (hread : List.Forall₂ (fun text x => ReadsText source p (R x) text) texts xs)
    (htook : c.Took inner c') (hclose : c'.rest.head?.any extendsValue = false) :
    c.rest.head?.any startsLayout = false := by
  cases h with
  | nil =>
      rw [htook.eq_of_nil] at hclose
      exact stops_of_closes hclose
  | cons _ _ =>
      cases hread with
      | cons htext _ =>
          rw [List.append_assoc] at htook
          obtain ⟨c₁, htextTook, -⟩ := htook.split
          exact htext.starts.stops htextTook

/-- Items up to a comma with none after it. -/
theorem reads_up_to_comma {opening close : Char} {gap gap' : List Char}
    (hinner : Separated texts inner)
    (hread : List.Forall₂ (fun text x => ReadsText source p (R x) text) texts xs)
    (hfails : ∀ c, c.rest.head?.any startsValue = false → p.Fails c)
    (hvalue : startsValue close = false) (hlayout : startsLayout close = false)
    (hgap : Layout gap) (hgap' : Layout gap') (hc : c.In source)
    (htook : c.Took (opening :: (gap ++ inner ++ ',' :: gap') ++ [close]) c') :
    ∃ c₁ c₂ c₃ ms, (lexeme (mark opening)).Reads c () c₁ ∧ (separated p).Reads c₁ ms c₂
      ∧ comma.Reads c₂ () c₃ ∧ c₃.Took [close] c' ∧ List.Forall₂ R xs ms := by
  rw [List.cons_append, List.append_assoc, List.append_assoc, List.cons_append] at htook
  obtain ⟨c₁, hopen, htook⟩ := htook.uncons
  obtain ⟨c₂, hgapTook, htook⟩ := htook.split
  obtain ⟨c₃, hinnerTook, htook⟩ := htook.split
  obtain ⟨c₄, hcomma, htook⟩ := htook.uncons
  obtain ⟨c₅, hgapTook', hcloseTook⟩ := htook.split
  have hclose₃ : c₃.rest.head?.any extendsValue = false :=
    any_head_of_took hcomma false (by decide)
  have hopenReads : (lexeme (mark opening)).Reads c () c₂ :=
    reads_markGap hopen hgapTook hgap (stops_of_separated hinner hread hinnerTook hclose₃)
  have hcommaReads : comma.Reads c₃ () c₅ :=
    reads_markGap hcomma hgapTook' hgap' (any_head_of_took hcloseTook false hlayout)
  -- The comma after the last item does not start another item.
  have hend : (comma >>= fun _ => lexeme p).Fails c₃ :=
    hcommaReads.bind_fails (fails_lexeme (hfails c₅ (any_head_of_took hcloseTook false hvalue)))
  have hnone : p.Fails c₃ := hfails c₃ (any_head_of_took hcomma false (by decide))
  obtain ⟨ms, hms, hR⟩ := reads_separated hinner hread
    (hc.of_le (le_trans hopen.le hgapTook.le)) hinnerTook hclose₃ hend hnone
  exact ⟨c₂, c₃, c₅, ms, hopenReads, hms, hcommaReads, hcloseTook, hR⟩

/-- A list between brackets, with a comma after its last item. -/
theorem reads_listed {opening close : Char} (h : Listed texts inner)
    (hread : List.Forall₂ (fun text x => ReadsText source p (R x) text) texts xs)
    (hfails : ∀ c, c.rest.head?.any startsValue = false → p.Fails c)
    (hvalue : startsValue close = false) (hlayout : startsLayout close = false)
    (hc : c.In source) (htook : c.Took (opening :: inner ++ [close]) c') :
    ∃ c₁ ms, (lexeme (mark opening)).Reads c () c₁ ∧ (listUpTo close p).Reads c₁ ms c'
      ∧ List.Forall₂ R xs ms := by
  cases h with
  | intro hgap hinner hgap' =>
      obtain ⟨c₁, c₂, c₃, ms, hopen, hms, hcomma, hclose, hR⟩ :=
        reads_up_to_comma hinner hread hfails hvalue hlayout hgap hgap' hc htook
      exact ⟨c₁, ms, hopen,
        hms.bind (hcomma.bind ((reads_mark hclose).bind (reads_pure ms c'))), hR⟩

theorem reads_closePairs_plain {ms : List Match} (hclose : c.Took ['\x7d'] c') :
    (closePairs ms).Reads c ms c' := by
  have hend : (mark '\x7d' >>= fun _ => pure ms).Reads c ms c' :=
    (reads_mark hclose).bind (reads_pure ms c')
  rw [closePairs]
  split
  · have hcomma : comma.Fails c := fails_lexeme (fails_mark (by rw [head?_of_took hclose]; decide))
    exact hcomma.option.bind hend
  · exact hend

theorem reads_closePairs_comma {ms : List Match} {c₁ : Cursor} (hne : ms ≠ [])
    (hcomma : comma.Reads c () c₁) (hclose : c₁.Took ['\x7d'] c') :
    (closePairs ms).Reads c ms c' := by
  rw [closePairs, if_pos (by simpa using hne)]
  exact hcomma.option.bind ((reads_mark hclose).bind (reads_pure ms c'))

/-- A list between braces, with or without a comma after its last item. -/
theorem reads_braced (h : Braced texts inner)
    (hread : List.Forall₂ (fun text x => ReadsText source p (R x) text) texts xs)
    (hfails : ∀ c, c.rest.head?.any startsValue = false → p.Fails c)
    (hc : c.In source) (htook : c.Took ('\x7b' :: inner ++ ['\x7d']) c') :
    ∃ ms, (lexeme (mark '\x7b') >>= fun _ => separated p >>= closePairs).Reads c ms c'
      ∧ List.Forall₂ R xs ms := by
  cases h with
  | @plain gap inner hgap hinner =>
      rw [List.cons_append, List.append_assoc] at htook
      obtain ⟨c₁, hopen, htook⟩ := htook.uncons
      obtain ⟨c₂, hgapTook, htook⟩ := htook.split
      obtain ⟨c₃, hinnerTook, hcloseTook⟩ := htook.split
      have hclose₃ : c₃.rest.head?.any extendsValue = false :=
        any_head_of_took hcloseTook false (by decide)
      have hopenReads : (lexeme (mark '\x7b')).Reads c () c₂ :=
        reads_markGap hopen hgapTook hgap (stops_of_separated hinner hread hinnerTook hclose₃)
      have hcomma : comma.Fails c₃ :=
        fails_lexeme (fails_mark (by rw [head?_of_took hcloseTook]; decide))
      have hnone : p.Fails c₃ := hfails c₃ (any_head_of_took hcloseTook false (by decide))
      obtain ⟨ms, hms, hR⟩ := reads_separated hinner hread
        (hc.of_le (le_trans hopen.le hgapTook.le)) hinnerTook hclose₃ hcomma.bind hnone
      exact ⟨ms, hopenReads.bind (hms.bind (reads_closePairs_plain hcloseTook)), hR⟩
  | comma hgap hinner hne hgap' =>
      obtain ⟨c₁, c₂, c₃, ms, hopen, hms, hcomma, hclose, hR⟩ :=
        reads_up_to_comma hinner hread hfails (by decide) (by decide) hgap hgap' hc htook
      have hne' : ms ≠ [] := by
        rintro rfl
        cases hR
        cases hread
        exact hne rfl
      exact ⟨ms, hopen.bind (hms.bind (reads_closePairs_comma hne' hcomma hclose)), hR⟩

end Lists

/-! ## Pairs -/

/-- The match has the expression. -/
def Means (source : List Char) (e : Expr) (m : Match) : Prop :=
  m.expr source = .ok e

/-- The match is a pair of the key and the expression. -/
def MeansPair (source : List Char) (entry : String × Expr) (m : Match) : Prop :=
  m.rule = .pair ∧ m.pair source = .ok entry

variable {source : List Char} {c c' : Cursor} {n : Nat}

theorem reads_key {key : Key} (hkey : key.Legal) (hc : c.In source) (htook : c.Took key.chars c')
    (hstop : c'.rest.head?.any isIdentChar = false) :
    ∃ m, (ident <|> string).Reads c m c' ∧ m.key source = .ok (String.ofList key.name) := by
  cases key with
  | bare name =>
      refine ⟨_, (reads_ident htook hkey hstop).orElse, ?_⟩
      rw [Match.key, Match.textString, text_leaf hc htook]
      rfl
  | quoted text =>
      have hident : ident.Fails c := fails_ident (any_head_of_took htook false (by decide))
      refine ⟨_, hident.orElse_reads (reads_string htook hkey), ?_⟩
      rw [Match.key, unquoted_leaf hc htook]
      rfl

theorem starts_of_legal {key : Key} (h : key.Legal) : Starts startsValue key.chars := by
  cases key with
  | bare name => exact (starts_of_isIdent h).mono fun _ => startsValue_of_isLetter
  | quoted text => exact ⟨'\x27', _, rfl, by decide⟩

theorem readsText_pair {key : Key} {e : Expr} {p : Parser Match} {value text : List Char}
    (hkey : key.Legal) (hvalue : ReadsText source p (Means source e) value)
    (h : PairText key value text) :
    ReadsText source (pair p) (MeansPair source (String.ofList key.name, e)) text := by
  cases h with
  | @intro gap gap' hgap hgap' =>
      constructor
      · exact (((starts_of_legal hkey).append _).append _).append _
      · intro c c' hc htook hends
        obtain ⟨c₄, htook, hvalueTook⟩ := htook.split
        obtain ⟨c₂, htook₂, htook⟩ := htook.split
        obtain ⟨c₁, hkeyTook, hgapTook⟩ := htook₂.split
        obtain ⟨c₃, hcolon, hgapTook'⟩ := htook.uncons
        have hstop : Ends c₁.rest := by
          rw [hgapTook.rest_eq]
          exact ends_of_closes hgap (any_head_of_took hcolon false (by decide))
        obtain ⟨km, hkm, hname⟩ := reads_key hkey hc hkeyTook (isIdentChar_of_ends hstop)
        have hlayout : layout.Reads c₁ () c₂ :=
          reads_layout hgapTook hgap (any_head_of_took hcolon false (by decide))
        have hcolonReads : (lexeme (mark ':')).Reads c₂ () c₄ :=
          reads_markGap hcolon hgapTook' hgap' (hvalue.starts.stops hvalueTook)
        have hstart : c ≤ c₄ := le_trans htook₂.le (le_trans hcolon.le hgapTook'.le)
        obtain ⟨m, hm, hmeans⟩ := hvalue.reads c₄ c' (hc.of_le hstart) hvalueTook hends
        have hcontent : (p >>= fun content => pure [km, content]).Reads c₄ [km, m] c' :=
          hm.bind (reads_pure _ c')
        refine ⟨_, (hkm.bind (hlayout.bind (hcolonReads.bind hcontent))).node, rfl, ?_⟩
        rw [Match.node, Match.pair, hname, hmeans]
        rfl

/-! ## Operands -/

section Operands

variable {p : Parser Match} {m : Match}

theorem fails_operator_of_gap {isOperator : Char → Bool} {gap : List Char} (htook : c.Took gap c')
    (hgap : Layout gap) (hlayout : c'.rest.head?.any startsLayout = false)
    (hsign : c'.rest.head?.any isOperator = false) : (operator isOperator).Fails c :=
  (reads_layout htook hgap hlayout).bind_fails (fails_satisfy hsign).leaf.bind

theorem fails_operator {isOperator : Char → Bool} (h : Ends c.rest)
    (hsign : ∀ x, isOperator x = true → isSign x = true) : (operator isOperator).Fails c := by
  obtain ⟨gap, next, hrest, hgap, hlayout, hnext⟩ := h.sign
  exact fails_operator_of_gap (Cursor.took_advance hrest) hgap hlayout (any_false_mono hnext hsign)

/-- A single operand is read as it is. -/
theorem reads_chain_of_fails {rule : Rule} {isOperator : Char → Bool} (h : p.Reads c m c')
    (hoperator : (operator isOperator).Fails c') : (chain rule isOperator p).Reads c m c' := by
  have hothers := (hoperator.bind (f := fun sign => p >>= fun next => pure [sign, next])).many
  exact (reads_offset c).bind (h.bind (hothers.bind ((reads_offset c').bind (reads_pure m c'))))

theorem reads_chain {rule : Rule} {isOperator : Char → Bool}
    (hsign : ∀ x, isOperator x = true → isSign x = true) (h : p.Reads c m c')
    (hends : Ends c'.rest) : (chain rule isOperator p).Reads c m c' :=
  reads_chain_of_fails h (fails_operator hends hsign)

theorem isSign_of_additive (x : Char) (h : (x == '+' || x == '-') = true) : isSign x = true := by
  rw [Bool.or_eq_true] at h
  rcases h with h | h <;> simp [isSign, h]

theorem isSign_of_multiplicative (x : Char) (h : (x == '*' || x == '/') = true) :
    isSign x = true := by
  rw [Bool.or_eq_true] at h
  rcases h with h | h <;> simp [isSign, h]

theorem reads_sum (h : (atom (value n) (sum n)).Reads c m c') (hends : Ends c'.rest) :
    (sum (n + 1)).Reads c m c' :=
  reads_chain isSign_of_additive (reads_chain isSign_of_multiplicative h hends) hends

/-- Arithmetic is a value, also where it is a single operand. -/
theorem reads_value_of_sum (harray : c.rest.head? ≠ some '[') (hbool : bool.Fails c)
    (h : (sum n).Reads c m c') : (value (n + 1)).Reads c m c' :=
  (fails_array harray).orElse_reads (hbool.orElse_reads h.orElse)

end Operands

/-- Wherever the text stands in the source, if no word goes on after it, arithmetic reads it as an
operand, and the match has the expression. No truth value is read in its place. -/
structure ReadsOperand (source : List Char) (n : Nat) (e : Expr) (text : List Char) : Prop where
  starts : Starts startsOperand text
  reads (c c' : Cursor) : c.In source → c.Took text c' → c'.rest.head?.any runsOn = false →
    bool.Fails c ∧ ∃ m, (atom (value n) (sum n)).Reads c m c' ∧ Means source e m

/-- Numbers, calls and index expressions are values. -/
theorem ReadsOperand.readsText {e : Expr} {text : List Char} (h : ReadsOperand source n e text) :
    ReadsText source (value (n + 2)) (Means source e) text := by
  refine ⟨h.starts.mono fun _ => startsValue_of_startsOperand, fun c c' hc htook hends => ?_⟩
  obtain ⟨hbool, m, hm, hmeans⟩ := h.reads c c' hc htook hends.word
  exact ⟨m, reads_value_of_sum (h.starts.head?_ne htook (by decide)) hbool (reads_sum hm hends),
    hmeans⟩

/-! ## Values -/

theorem readsText_string {text : List Char} (h : ∀ x ∈ text, isQuotable x = true) :
    ReadsText source (value (n + 1)) (Means source (.string (String.ofList text)))
      (quotedKey text) := by
  refine ⟨⟨'\x27', _, rfl, by decide⟩, fun c c' hc htook hends => ?_⟩
  have hhead : c.rest.head? = some '\x27' := head?_of_took htook
  have harray : (array (value n)).Fails c := fails_array (by rw [hhead]; decide)
  have hbool : bool.Fails c := fails_bool_of_head (any_head_of_took htook false (by decide))
  have hsum : (sum n).Fails c := fails_sum n (any_head_of_took htook false (by decide))
  have hobject : (object (value n)).Fails c := fails_object (by rw [hhead]; decide)
  refine ⟨_, harray.orElse_reads (hbool.orElse_reads (hsum.orElse_reads
    (hobject.orElse_reads (reads_string htook h)))), ?_⟩
  have hunquoted := unquoted_leaf hc htook .string
  rw [Match.leaf] at hunquoted
  rw [Means, Match.leaf, Match.expr, hunquoted]
  rfl

theorem readsText_bool (b : Bool) :
    ReadsText source (value (n + 1)) (Means source (.bool b)) (boolWord b).toList := by
  have hstarts : Starts isLetter (boolWord b).toList := starts_of_isIdent (isIdent_boolWord b)
  refine ⟨hstarts.mono fun _ => startsValue_of_isLetter, fun c c' hc htook hends => ?_⟩
  have harray : (array (value n)).Fails c := fails_array (hstarts.head?_ne htook (by decide))
  refine ⟨_, harray.orElse_reads (reads_bool htook (isIdentChar_of_ends hends)).orElse, ?_⟩
  have htext := text_leaf hc htook .bool
  rw [Match.leaf] at htext
  rw [Means, Match.leaf, Match.expr, Match.textString, htext, String.ofList_toList]
  cases b <;> rfl

theorem readsOperand_number {numeral : List Char} (h : IsNumeral numeral) {number : Number}
    (hnumber : Number.read? numeral = some number) :
    ReadsOperand source n (.number number) numeral := by
  have hstarts : Starts (fun x => x.isDigit || x == '-') numeral := starts_of_isNumeral h
  refine ⟨hstarts.mono fun _ hx => startsOperand_of_startsNumber hx,
    fun c c' hc htook hword => ?_⟩
  have hstop : c'.rest.head?.any extendsNumber = false :=
    any_false_mono hword fun x hx => by
      simp only [extendsNumber, Bool.or_eq_true] at hx
      rcases hx with (hx | hx) | hx <;> simp [runsOn, hx]
  have hbool : bool.Fails c :=
    fails_bool_of_head (hstarts.any_head htook fun _ => isLetter_of_startsNumber)
  refine ⟨hbool, _, (reads_number htook h hstop).orElse, ?_⟩
  have htext := text_leaf hc htook .number
  rw [Match.leaf] at htext
  rw [Means, Match.leaf, Match.expr, htext, hnumber]

theorem readsText_number {numeral : List Char} (h : IsNumeral numeral) {number : Number}
    (hnumber : Number.read? numeral = some number) :
    ReadsText source (value (n + 2)) (Means source (.number number)) numeral :=
  (readsOperand_number h hnumber).readsText

theorem exprs_of_means {es : List Expr} {ms : List Match}
    (h : List.Forall₂ (Means source) es ms) : Match.exprs source ms = .ok es := by
  induction h with
  | nil => rfl
  | cons hm _ ih =>
      rw [Match.exprs, hm, ih]
      rfl

theorem fields_of_means {entries : List (String × Expr)} {ms : List Match}
    (h : List.Forall₂ (MeansPair source) entries ms) (found : Fields) :
    Match.fields source found ms = .ok (Table.insertAll found entries) := by
  induction h generalizing found with
  | nil => rfl
  | cons hm _ ih =>
      rw [Match.fields, hm.2]
      exact ih _

section Composite

variable {texts : List (List Char)} {inner : List Char} {es : List Expr}
  {entries : List (String × Expr)}

theorem readsText_array (h : Listed texts inner)
    (hread : List.Forall₂ (fun text e =>
      ReadsText source (value n) (Means source e) text) texts es) :
    ReadsText source (value (n + 1)) (Means source (.array es)) ('[' :: inner ++ [']']) := by
  refine ⟨⟨'[', _, rfl, by decide⟩, fun c c' hc htook _ => ?_⟩
  obtain ⟨c₁, ms, hopen, hms, hmeans⟩ := reads_listed h hread (fun c => fails_value n) (by decide)
    (by decide) hc htook
  refine ⟨_, (hopen.bind hms).node.orElse, ?_⟩
  rw [Means, expr_node, Match.expr, exprs_of_means hmeans]
  rfl

theorem readsText_object (h : Braced texts inner)
    (hread : List.Forall₂ (fun text entry =>
      ReadsText source (pair (value n)) (MeansPair source entry) text) texts entries) :
    ReadsText source (value (n + 1)) (Means source (.object (Table.ofList entries)))
      ('\x7b' :: inner ++ ['\x7d']) := by
  refine ⟨⟨'\x7b', _, rfl, by decide⟩, fun c c' hc htook _ => ?_⟩
  obtain ⟨ms, hms, hmeans⟩ := reads_braced h hread (fun _ => fails_pair_of_startsValue) hc htook
  have hhead : c.rest.head? = some '\x7b' := head?_of_took htook
  have harray : (array (value n)).Fails c := fails_array (by rw [hhead]; decide)
  have hbool : bool.Fails c := fails_bool_of_head (any_head_of_took htook false (by decide))
  have hsum : (sum n).Fails c := fails_sum n (any_head_of_took htook false (by decide))
  have hobject : (object (value n)).Reads c (.node .object c.offset c'.offset ms) c' := by
    rw [object_eq]
    exact hms.node
  refine ⟨_, harray.orElse_reads (hbool.orElse_reads (hsum.orElse_reads hobject.orElse)), ?_⟩
  rw [Means, expr_node, Match.expr, fields_of_means hmeans]
  rfl

/-- Calls and index expressions start with a head, which is neither a number nor a truth value. -/
theorem reads_atom_of_head {head : List Char} {m : Match} {c₁ : Cursor} (hhead : IsHead head)
    (htook : c.Took head c₁) (hstop : c₁.rest.head?.any isIdentChar = false)
    (hrule : (call (value n) <|> index).Reads c m c') :
    bool.Fails c ∧ (atom (value n) (sum n)).Reads c m c' := by
  obtain ⟨hnumber, hgroup⟩ := fails_number_and_group (p := sum n) (starts_of_isIdent hhead.1) htook
  exact ⟨fails_bool htook (isIdentChar_of_isIdent hhead.1) hstop hhead.2,
    hnumber.orElse_reads (hgroup.orElse_reads hrule)⟩

theorem textString_head {name : List Char} (hc : c.In source) (htook : c.Took name c') :
    (Match.leaf .ident c.offset c'.offset).textString source = String.ofList name := by
  rw [Match.textString, text_leaf hc htook]

theorem readsOperand_call {name : List Char} (hname : IsHead name) (h : Listed texts inner)
    (hread : List.Forall₂ (fun text e =>
      ReadsText source (value n) (Means source e) text) texts es) :
    ReadsOperand source n (.call (String.ofList name) es) (name ++ '(' :: inner ++ [')']) := by
  have hstarts := starts_of_isIdent hname.1
  refine ⟨(((hstarts.append _).append _).mono fun _ => startsOperand_of_isLetter),
    fun c c' hc htook _ => ?_⟩
  rw [List.append_assoc] at htook
  obtain ⟨c₁, hnameTook, hlistTook⟩ := htook.split
  obtain ⟨c₂, ms, hopen, hms, hmeans⟩ := reads_listed h hread (fun c => fails_value n) (by decide)
    (by decide) (hc.of_le hnameTook.le) hlistTook
  have hstop : c₁.rest.head?.any isIdentChar = false := any_head_of_took hlistTook false (by decide)
  let head : Match := .leaf .ident c.offset c₁.offset
  have hargs : (listUpTo ')' (value n) >>= fun args => pure (head :: args)).Reads c₂
      (head :: ms) c' :=
    hms.bind (reads_pure _ c')
  have hcall : (call (value n)).Reads c (.node .call c.offset c'.offset (head :: ms)) c' :=
    ((reads_ident hnameTook hname.1 hstop).bind (hopen.bind hargs)).node
  obtain ⟨hbool, hatom⟩ := reads_atom_of_head hname hnameTook hstop hcall.orElse
  refine ⟨hbool, _, hatom, ?_⟩
  rw [Means, expr_call rfl, exprs_of_means hmeans, textString_head hc hnameTook]
  rfl

theorem readsText_call {name : List Char} (hname : IsHead name) (h : Listed texts inner)
    (hread : List.Forall₂ (fun text e =>
      ReadsText source (value n) (Means source e) text) texts es) :
    ReadsText source (value (n + 2)) (Means source (.call (String.ofList name) es))
      (name ++ '(' :: inner ++ [')']) :=
  (readsOperand_call hname h hread).readsText

/-! ## Index expressions -/

/-- The string of a segment. -/
def segmentExpr (s : Segment) : Expr :=
  .string (String.ofList s.text)

theorem reads_segment {s : Segment} (hs : s.Legal) (hc : c.In source) (htook : c.Took s.chars c')
    (hstop : c'.rest.head?.any isSegmentChar = false) :
    ∃ m, (dotSegment <|> bracketSegment).Reads c m c' ∧ segment source m = .ok (segmentExpr s) := by
  cases s with
  | dot text =>
      obtain ⟨c₁, hdot, htextTook⟩ := htook.uncons
      have htext : (leaf .indexSegment (expect .indexSegment (run1 isSegmentChar))).Reads c₁
          (.leaf .indexSegment c₁.offset c'.offset) c' :=
        ((reads_run1 htextTook hs.1 hs.2 hstop).expect _).leaf
      refine ⟨_, ((reads_mark hdot).bind htext).orElse, ?_⟩
      rw [segment, Match.textString, text_leaf (hc.of_le hdot.le) htextTook]
      rfl
  | bracket text =>
      obtain ⟨c₁, hopen, htook⟩ := htook.uncons
      obtain ⟨c₂, htextTook, hclose⟩ := htook.split
      have hdot : dotSegment.Fails c := (fails_mark (by rw [head?_of_took hopen]; decide)).bind
      have hends : c₂.rest.head?.any isSentenceChar = false :=
        any_head_of_took hclose false (by decide)
      have htext := reads_sentence htextTook hs hends
      refine ⟨_, hdot.orElse_reads ((reads_mark hopen).bind (htext.bind
        ((reads_mark hclose).bind (reads_pure _ c')))), ?_⟩
      rw [segment, Match.textString, text_leaf (hc.of_le hopen.le) htextTook]
      rfl

theorem stops_of_segments {segments : List Segment}
    (htook : c.Took (segments.flatMap Segment.chars) c')
    (hword : c'.rest.head?.any runsOn = false) : c.rest.head?.any isSegmentChar = false := by
  cases segments with
  | nil =>
      rw [htook.eq_of_nil] at hword
      exact any_false_mono hword fun x hx => by
        simp only [isSegmentChar, Bool.or_eq_true] at hx
        rcases hx with (hx | hx) | hx <;> simp [runsOn, hx]
  | cons s segments =>
      cases s with
      | dot text => exact any_head_of_took htook false (by decide)
      | bracket text => exact any_head_of_took htook false (by decide)

theorem reads_segments {segments : List Segment} (hlegal : ∀ s ∈ segments, s.Legal)
    (hc : c.In source) (htook : c.Took (segments.flatMap Segment.chars) c')
    (hword : c'.rest.head?.any runsOn = false) :
    ∃ ms, (many (dotSegment <|> bracketSegment)).Reads c ms c'
      ∧ Match.segments source ms = .ok (segments.map segmentExpr) := by
  induction segments generalizing c with
  | nil =>
      rw [htook.eq_of_nil] at hword ⊢
      have hdot : dotSegment.Fails c :=
        (fails_mark (ne_some_of_any_false hword (by decide))).bind
      have hbracket : bracketSegment.Fails c :=
        (fails_mark (ne_some_of_any_false hword (by decide))).bind
      exact ⟨[], (hdot.orElse hbracket).many, rfl⟩
  | cons s segments ih =>
      rw [List.flatMap_cons] at htook
      obtain ⟨c₁, hsTook, hrestTook⟩ := htook.split
      obtain ⟨m, hm, hsegment⟩ := reads_segment (hlegal s List.mem_cons_self) hc hsTook
        (stops_of_segments hrestTook hword)
      obtain ⟨ms, hms, hsegments⟩ := ih (fun s hs => hlegal s (List.mem_cons_of_mem _ hs))
        (hc.of_le hsTook.le) hrestTook
      have hne : s.chars ≠ [] := by cases s <;> simp [Segment.chars]
      exact ⟨m :: ms, hm.many_cons hsTook hne hms, segments_cons hsegment hsegments⟩

theorem readsOperand_index {head : List Char} {segments : List Segment} (hhead : IsHead head)
    (hne : segments ≠ []) (hlegal : ∀ s ∈ segments, s.Legal) :
    ReadsOperand source n (.call (String.ofList head) (segments.map segmentExpr))
      (head ++ segments.flatMap Segment.chars) := by
  have hstarts := starts_of_isIdent hhead.1
  refine ⟨(hstarts.append _).mono fun _ => startsOperand_of_isLetter,
    fun c c' hc htook hword => ?_⟩
  obtain ⟨c₁, hheadTook, hsegmentsTook⟩ := htook.split
  obtain ⟨s, segments, rfl⟩ := List.exists_cons_of_ne_nil hne
  rw [List.flatMap_cons] at hsegmentsTook
  obtain ⟨c₂, hsTook, hrestTook⟩ := hsegmentsTook.split
  obtain ⟨m, hm, hsegment⟩ := reads_segment (hlegal s List.mem_cons_self) (hc.of_le hheadTook.le)
    hsTook (stops_of_segments hrestTook hword)
  obtain ⟨ms, hms, hsegments⟩ := reads_segments (fun s hs => hlegal s (List.mem_cons_of_mem _ hs))
    (hc.of_le (le_trans hheadTook.le hsTook.le)) hrestTook hword
  -- A segment starts with a dot or a bracket, which neither go on with the head nor open a call.
  have hnext : Starts (fun x => x == '.' || x == '[') s.chars := by
    cases s with
    | dot text => exact ⟨'.', _, rfl, by decide⟩
    | bracket text => exact ⟨'[', _, rfl, by decide⟩
  have hstop : c₁.rest.head?.any isIdentChar = false := by
    refine hnext.any_head hsTook fun x hx => ?_
    simp only [Bool.or_eq_true, beq_iff_eq] at hx
    rcases hx with rfl | rfl <;> decide
  have hident := reads_ident hheadTook hhead.1 hstop
  have hcall : (call (value n)).Fails c :=
    (hident.bind_fails (fails_lexeme (fails_mark (hnext.head?_ne hsTook (by decide)))).bind).node
  have hsegmentsReads : (many1 (dotSegment <|> bracketSegment)).Reads c₁ (m :: ms) c' :=
    hm.bind (hms.bind (reads_pure _ c'))
  let name : Match := .leaf .ident c.offset c₁.offset
  have hrest : (many1 (dotSegment <|> bracketSegment) >>= fun segments =>
      pure (name :: segments)).Reads c₁ (name :: m :: ms) c' :=
    hsegmentsReads.bind (reads_pure _ c')
  have hindex : index.Reads c (.node .index c.offset c'.offset (name :: m :: ms)) c' :=
    (hident.bind hrest).node
  obtain ⟨hbool, hatom⟩ := reads_atom_of_head hhead hheadTook hstop (hcall.orElse_reads hindex)
  refine ⟨hbool, _, hatom, ?_⟩
  rw [Means, expr_index rfl, segments_cons hsegment hsegments, textString_head hc hheadTook]
  rfl

end Composite

/-! ## Phrases -/

mutual

/-- A legal phrase is read from each of its texts, if there are enough levels of nesting. -/
theorem reads_phrase {n : Nat} : (v : Phrase) → {text : List Char} → v.Legal → v.need ≤ n →
    v.Written text → ReadsText source (value n) (Means source v.expr) text
  | .string text, _, hlegal, hneed, hwritten => by
    rw [Phrase.need] at hneed
    obtain ⟨k, rfl⟩ := Nat.exists_eq_add_of_le' hneed
    cases hwritten
    exact readsText_string hlegal
  | .bool b, _, _, hneed, hwritten => by
    rw [Phrase.need] at hneed
    obtain ⟨k, rfl⟩ := Nat.exists_eq_add_of_le' hneed
    cases hwritten
    exact readsText_bool b
  | .number numeral, _, hlegal, hneed, hwritten => by
    rw [Phrase.need] at hneed
    obtain ⟨k, rfl⟩ := Nat.exists_eq_add_of_le' hneed
    obtain ⟨x, hx⟩ := Number.exists_read? hlegal
    cases hwritten
    rw [Phrase.expr, hx]
    exact readsText_number hlegal hx
  | .array items, _, hlegal, hneed, hwritten => by
    rw [Phrase.need] at hneed
    obtain ⟨k, rfl⟩ := Nat.exists_eq_add_of_le' (show 1 ≤ n by omega)
    obtain ⟨texts, inner, hitems, hlisted, rfl⟩ := hwritten
    exact readsText_array hlisted (reads_items items hlegal (by omega) hitems)
  | .object pairs, _, hlegal, hneed, hwritten => by
    rw [Phrase.need] at hneed
    obtain ⟨k, rfl⟩ := Nat.exists_eq_add_of_le' (show 1 ≤ n by omega)
    obtain ⟨texts, inner, hpairs, hbraced, rfl⟩ := hwritten
    exact readsText_object hbraced (reads_pairs pairs hlegal (by omega) hpairs)
  | .call name args, _, hlegal, hneed, hwritten => by
    rw [Phrase.need] at hneed
    obtain ⟨k, rfl⟩ := Nat.exists_eq_add_of_le' (show 2 ≤ n by omega)
    obtain ⟨texts, inner, hargs, hlisted, rfl⟩ := hwritten
    exact readsText_call hlegal.1 hlisted (reads_items args hlegal.2 (by omega) hargs)
  | .index head segments, _, hlegal, hneed, hwritten => by
    rw [Phrase.need] at hneed
    obtain ⟨k, rfl⟩ := Nat.exists_eq_add_of_le' hneed
    obtain ⟨hhead, hne, hsegments⟩ := hlegal
    cases hwritten
    exact (readsOperand_index hhead hne hsegments).readsText

theorem reads_items {n : Nat} : (vs : List Phrase) → {texts : List (List Char)} →
    Phrase.LegalItems vs → Phrase.itemsNeed vs ≤ n → Phrase.WrittenItems vs texts →
    List.Forall₂ (fun text e => ReadsText source (value n) (Means source e) text) texts
      (Phrase.exprs vs)
  | [], _, _, _, hwritten => by
    cases hwritten
    exact .nil
  | v :: vs, _, hlegal, hneed, hwritten => by
    obtain ⟨text, rest, htext, hrest, rfl⟩ := hwritten
    rw [Phrase.itemsNeed, Nat.max_le] at hneed
    exact .cons (reads_phrase v hlegal.1 hneed.1 htext) (reads_items vs hlegal.2 hneed.2 hrest)

theorem reads_pairs {n : Nat} : (pairs : List (Key × Phrase)) → {texts : List (List Char)} →
    Phrase.LegalPairs pairs → Phrase.pairsNeed pairs ≤ n → Phrase.WrittenPairs pairs texts →
    List.Forall₂ (fun text entry =>
      ReadsText source (pair (value n)) (MeansPair source entry) text) texts (Phrase.entries pairs)
  | [], _, _, _, hwritten => by
    cases hwritten
    exact .nil
  | (k, v) :: pairs, _, hlegal, hneed, hwritten => by
    obtain ⟨value, text, rest, hvalue, htext, hrest, rfl⟩ := hwritten
    rw [Phrase.pairsNeed, Nat.max_le] at hneed
    exact .cons (readsText_pair hlegal.1 (reads_phrase v hlegal.2.1 hneed.1 hvalue) htext)
      (reads_pairs pairs hlegal.2.2 hneed.2 hrest)

end

/-! ## Whole sources -/

/-- A source is read as a value from layout around the text of the value. -/
theorem ReadsText.loneValue {Q : Match → Prop} {gap text gap' : List Char}
    (h : ReadsText source (value maxNesting) Q text) (hgap : Layout gap) (hgap' : Layout gap')
    (hsource : gap ++ text ++ gap' = source) : ∃ m c, loneValue.Reads ⟨source, 0⟩ m c ∧ Q m := by
  have htook : Cursor.Took ⟨source, 0⟩ (gap ++ text ++ gap') (Cursor.atEnd source) := by
    rw [hsource]
    exact Cursor.took_atEnd source
  obtain ⟨c₂, htook₂, hgapTook'⟩ := htook.split
  obtain ⟨c₁, hgapTook, htextTook⟩ := htook₂.split
  have hends : Ends c₂.rest := by
    rw [hgapTook'.rest_eq]
    exact ends_of_closes hgap' rfl
  obtain ⟨m, hm, hQ⟩ :=
    h.reads c₁ c₂ ((Cursor.in_start source).of_le hgapTook.le) htextTook hends
  have hlayout : layout.Reads ⟨source, 0⟩ () c₁ :=
    reads_layout hgapTook hgap (h.starts.stops htextTook)
  have hvalue : (lexeme (value maxNesting)).Reads c₁ m (Cursor.atEnd source) :=
    reads_lexeme hm hgapTook' hgap' rfl
  exact ⟨m, _, hlayout.bind (hvalue.bind ((reads_endOfInput rfl).bind (reads_pure m _))), hQ⟩

end Grammar

end Playbooks
