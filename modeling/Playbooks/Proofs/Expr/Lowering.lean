import Playbooks.Plan.Lower
import Playbooks.Proofs.Expr.Legible
import Playbooks.Proofs.Number.Numerals
import Playbooks.Proofs.Syntax.Trees

/-!
# Expressions of parse trees

Whatever a rule for values reads has an expression. The expression is legible throughout, and the
text that was read has its closing brackets.

## Main results

* `Grammar.lowers_value`: the match of a value has an expression.
-/
namespace Playbooks

open Playbooks.Parser Grammar

/-! ## Calls and index expressions -/

namespace Grammar

variable {source : List Char}

theorem expr_node (rule : Rule) (start stop : Nat) (ms : List Match) :
    (Match.node rule start stop ms).expr source
      = Match.expr source ⟨rule, .ofBounds start stop, ms⟩ :=
  rfl

theorem expr_call {head : Match} (hhead : head.rule = .ident) (start stop : Nat)
    (args : List Match) : (Match.node .call start stop (head :: args)).expr source
      = (Match.exprs source args).map (.call (head.textString source)) := by
  rw [expr_node, Match.expr, if_pos hhead]

theorem expr_index {head : Match} (hhead : head.rule = .ident) (start stop : Nat)
    (segments : List Match) : (Match.node .index start stop (head :: segments)).expr source
      = (Match.segments source segments).map (.call (head.textString source)) := by
  rw [expr_node, Match.expr, if_pos hhead]

end Grammar

/-! ## Closing brackets -/

namespace Cursor

/-- Closing brackets ahead. -/
def closers (c : Cursor) : Nat :=
  c.rest.count ']'

variable {c c' : Cursor} {taken : List Char}

theorem Took.closers_eq (h : c.Took taken c') : c.closers = taken.count ']' + c'.closers := by
  rw [closers, h.rest_eq, List.count_append, closers]

theorem closers_le (h : c ≤ c') : c'.closers ≤ c.closers := by
  obtain ⟨taken, h⟩ := h
  have := h.closers_eq
  omega

end Cursor

/-! ## What reading promises -/

section Promises

variable (source : List Char)

/-- The match has a legible expression, whose closing brackets were read. -/
structure LowersBy (lower : Match → Except Malformed Expr) (c : Cursor) (m : Match) (c' : Cursor) :
    Prop where
  le : c ≤ c'
  expr : c.In source → ∃ e, lower m = .ok e ∧ e.Throughout Expr.Legible
    ∧ e.closers + c'.closers ≤ c.closers

structure LowerAllBy (lowerAll : List Match → Except Malformed (List Expr)) (c : Cursor)
    (ms : List Match) (c' : Cursor) : Prop where
  le : c ≤ c'
  exprs : c.In source → ∃ es, lowerAll ms = .ok es
    ∧ Expr.ThroughoutItems Expr.Legible es ∧ Expr.itemClosers es + c'.closers ≤ c.closers

/-- The match of a value. -/
abbrev Lowers : Cursor → Match → Cursor → Prop :=
  LowersBy source (Match.expr source)

/-- The match is a pair of a key and an expression. -/
structure LowersPair (c : Cursor) (m : Match) (c' : Cursor) : Prop where
  le : c ≤ c'
  rule_eq : m.rule = .pair
  pair : c.In source → ∃ k e, m.pair source = .ok (k, e) ∧ (∀ x ∈ k.toList, isQuotable x = true)
    ∧ e.Throughout Expr.Legible ∧ k.toList.count ']' + e.closers + c'.closers ≤ c.closers

/-- The matches are pairs, which extend every legible object. -/
structure LowerFields (c : Cursor) (ms : List Match) (c' : Cursor) : Prop where
  le : c ≤ c'
  fields : c.In source → ∀ found, (Expr.object found).Throughout Expr.Legible →
    ∃ fs, Match.fields source found ms = .ok fs ∧ (Expr.object fs).Throughout Expr.Legible
      ∧ Expr.fieldClosers fs + c'.closers ≤ Expr.fieldClosers found + c.closers

end Promises

variable {source : List Char} {c c₁ c' c'' : Cursor} {m : Match} {ms : List Match}

section Lists

variable {lower : Match → Except Malformed Expr}
  {lowerAll : List Match → Except Malformed (List Expr)}

theorem LowersBy.start (h : LowersBy source lower c₁ m c') (hle : c ≤ c₁) :
    LowersBy source lower c m c' where
  le := le_trans hle h.le
  expr hc := by
    obtain ⟨e, he, hlegible, hclosers⟩ := h.expr (hc.of_le hle)
    have := Cursor.closers_le hle
    exact ⟨e, he, hlegible, by omega⟩

theorem LowersBy.stop (h : LowersBy source lower c m c') (hle : c' ≤ c'') :
    LowersBy source lower c m c'' where
  le := le_trans h.le hle
  expr hc := by
    obtain ⟨e, he, hlegible, hclosers⟩ := h.expr hc
    have := Cursor.closers_le hle
    exact ⟨e, he, hlegible, by omega⟩

theorem listing_lowersBy (hnil : lowerAll [] = .ok [])
    (hcons : ∀ {m ms e es}, lower m = .ok e → lowerAll ms = .ok es →
      lowerAll (m :: ms) = .ok (e :: es)) :
    Listing (LowersBy source lower) (LowerAllBy source lowerAll) where
  nil hle := by
    refine ⟨hle, fun _ => ⟨[], hnil, trivial, ?_⟩⟩
    simpa [Expr.itemClosers] using Cursor.closers_le hle
  cons hm hms := by
    refine ⟨le_trans hm.le hms.le, fun hc => ?_⟩
    obtain ⟨e, he, hlegible, hclosers⟩ := hm.expr hc
    obtain ⟨es, hes, hlegibles, hclosers'⟩ := hms.exprs (hc.of_le hm.le)
    refine ⟨e :: es, hcons he hes, ⟨hlegible, hlegibles⟩, ?_⟩
    rw [Expr.itemClosers]
    omega
  start := LowersBy.start
  stop := LowersBy.stop
  stopAll hms hle := by
    refine ⟨le_trans hms.le hle, fun hc => ?_⟩
    obtain ⟨es, hes, hlegibles, hclosers⟩ := hms.exprs hc
    have := Cursor.closers_le hle
    exact ⟨es, hes, hlegibles, by omega⟩

end Lists

theorem listing_lowers :
    Listing (Lowers source) (LowerAllBy source (Match.exprs source)) := by
  refine listing_lowersBy rfl fun he hes => ?_
  rw [Match.exprs, he, hes]
  rfl

theorem listing_fields : Listing (LowersPair source) (LowerFields source) where
  nil hle := by
    refine ⟨hle, fun _ found hfound => ⟨found, rfl, hfound, ?_⟩⟩
    have := Cursor.closers_le hle
    omega
  cons hm hms := by
    refine ⟨le_trans hm.le hms.le, fun hc found hfound => ?_⟩
    obtain ⟨k, e, hpair, hkey, hlegible, hclosers⟩ := hm.pair hc
    have hinserted : (Expr.object (Table.insert k e found)).Throughout Expr.Legible := by
      obtain ⟨⟨hnodup, hkeys⟩, hfields⟩ := hfound
      rw [Expr.throughoutFields_iff] at hfields
      refine ⟨⟨Table.nodup_keys_insert hnodup, ?_⟩, Expr.throughoutFields_iff.mpr ?_⟩
      · intro f hf
        rcases Table.mem_insert hf with rfl | hf
        · exact hkey
        · exact hkeys f hf
      · intro f hf
        rcases Table.mem_insert hf with rfl | hf
        · exact hlegible
        · exact hfields f hf
    obtain ⟨fs, hfs, hlegibles, hclosers'⟩ := hms.fields (hc.of_le hm.le) _ hinserted
    have hle := Expr.fieldClosers_insert_le k e found
    refine ⟨fs, ?_, hlegibles, by omega⟩
    rw [Match.fields, hpair]
    exact hfs
  start hm hle := by
    refine ⟨le_trans hle hm.le, hm.rule_eq, fun hc => ?_⟩
    obtain ⟨k, e, hpair, hkey, hlegible, hclosers⟩ := hm.pair (hc.of_le hle)
    have := Cursor.closers_le hle
    exact ⟨k, e, hpair, hkey, hlegible, by omega⟩
  stop hm hle := by
    refine ⟨le_trans hm.le hle, hm.rule_eq, fun hc => ?_⟩
    obtain ⟨k, e, hpair, hkey, hlegible, hclosers⟩ := hm.pair hc
    have := Cursor.closers_le hle
    exact ⟨k, e, hpair, hkey, hlegible, by omega⟩
  stopAll hms hle := by
    refine ⟨le_trans hms.le hle, fun hc found hfound => ?_⟩
    obtain ⟨fs, hfs, hlegibles, hclosers⟩ := hms.fields hc found hfound
    have := Cursor.closers_le hle
    exact ⟨fs, hfs, hlegibles, by omega⟩

/-! ## Words -/

namespace Grammar

/-- The text of a match over what was read. -/
theorem text_leaf (hc : c.In source) {taken : List Char} (h : c.Took taken c') (rule : Rule) :
    (Match.leaf rule c.offset c'.offset).text source = taken :=
  hc.text_ofBounds h

theorem unquote?_quoted (cs : List Char) :
    Match.unquote? ('\x27' :: cs ++ ['\x27']) = some cs := by
  simp [Match.unquote?]

theorem unquoted_leaf (hc : c.In source) {cs : List Char} (h : c.Took ('\x27' :: cs ++ ['\x27']) c')
    (rule : Rule) :
    (Match.leaf rule c.offset c'.offset).unquoted source = .ok (String.ofList cs) := by
  rw [Match.unquoted, text_leaf hc h, unquote?_quoted]

theorem lowers_string (c : Cursor) : string.Ensures c (Lowers source c) := by
  refine (ensures_string c).mono ?_
  rintro m c' ⟨rfl, cs, htook, hcs⟩
  refine ⟨htook.le, fun hc => ⟨.string (String.ofList cs), ?_, ?_, ?_⟩⟩
  · have hunquoted := unquoted_leaf hc htook .string
    rw [Match.leaf] at hunquoted ⊢
    rw [Match.expr, hunquoted]
    rfl
  · simp only [Expr.Throughout, Expr.Legible, String.toList_ofList]
    intro hnewline
    cases hcs _ hnewline
  · have hquote : '\x27' ∉ cs := fun hmem => by cases hcs _ hmem
    have hcount := htook.closers_eq
    simp only [List.cons_append, List.count_cons, List.count_append, List.count_nil] at hcount
    simp only [Expr.closers, String.toList_ofList, if_neg hquote]
    omega

theorem lowers_bool (c : Cursor) : bool.Ensures c (Lowers source c) := by
  refine (ensures_bool c).mono ?_
  rintro m c' ⟨rfl, b, htook, -⟩
  refine ⟨htook.le, fun _ => ⟨.bool _, by rw [Match.leaf, Match.expr], trivial, ?_⟩⟩
  simpa [Expr.closers] using Cursor.closers_le htook.le

theorem lowers_number (c : Cursor) : number.Ensures c (Lowers source c) := by
  refine (ensures_number c).mono ?_
  rintro m c' ⟨rfl, cs, htook, hnumeral⟩
  refine ⟨htook.le, fun hc => ?_⟩
  obtain ⟨n, hn⟩ := Number.exists_read? hnumeral
  refine ⟨.number n, ?_, trivial, ?_⟩
  · have htext := text_leaf hc htook .number
    rw [Match.leaf] at htext ⊢
    rw [Match.expr, htext, hn]
  · simpa [Expr.closers] using Cursor.closers_le htook.le

/-! ## Values -/

section Values

variable {value sum : Parser Match}

theorem lowers_array (h : ∀ c, value.Ensures c (Lowers source c)) (c : Cursor) :
    (array value).Ensures c (Lowers source c) := by
  refine Ensures.node ((ensures_lexeme (ensures_mark '[' c)
    fun _ _ _ hopen hgap => le_trans hopen.le hgap).bind fun _ c₁ hopen => ?_)
  refine (listing_lowers.separated h c₁).bind fun ms c₂ hms => ?_
  refine (lt_of_lexeme (lt_of_mark ',' c₂)).bind fun _ c₃ hcomma => ?_
  refine (ensures_mark ']' c₃).bind fun _ c₄ hclose => ensures_pure ?_
  have hend : c₂ ≤ c₄ := le_trans (le_of_lt hcomma) hclose.le
  refine ⟨le_trans hopen (le_trans hms.le hend), fun hc => ?_⟩
  obtain ⟨es, hes, hlegible, hclosers⟩ := hms.exprs (hc.of_le hopen)
  refine ⟨.array es, ?_, ⟨trivial, hlegible⟩, ?_⟩
  · rw [expr_node, Match.expr, hes]
    rfl
  · -- The bracket at the end is not one of the items.
    have hbefore := Cursor.closers_le hopen
    have hcomma := Cursor.closers_le (le_of_lt hcomma)
    have hlast : c₃.closers = 1 + c₄.closers := hclose.closers_eq
    rw [Expr.closers]
    omega

theorem isQuotable_of_isIdentChar {x : Char} (h : isIdentChar x = true) : isQuotable x = true := by
  have hquote : x ≠ '\x27' := by
    rintro rfl
    cases h
  have hline : x ≠ '\n' := by
    rintro rfl
    cases h
  simp [isQuotable, hquote, hline]

/-- A key is an identifier, or a text that quotes hold. -/
theorem lowers_key (source : List Char) (c : Cursor) :
    (ident <|> string).Ensures c fun m c' => c ≤ c'
      ∧ (c.In source → ∃ k, m.key source = .ok k ∧ (∀ x ∈ k.toList, isQuotable x = true)
        ∧ k.toList.count ']' + c'.closers ≤ c.closers) := by
  refine Ensures.orElse ((ensures_ident c).mono ?_) ((ensures_string c).mono ?_)
  · rintro m c' ⟨rfl, name, htook, hident, -⟩
    refine ⟨htook.le, fun hc => ⟨String.ofList name, ?_, ?_, ?_⟩⟩
    · rw [Match.key, Match.textString, text_leaf hc htook]
      rfl
    · rw [String.toList_ofList]
      exact fun x hx => isQuotable_of_isIdentChar (isIdentChar_of_isIdent hident x hx)
    · have := htook.closers_eq
      rw [String.toList_ofList]
      omega
  · rintro m c' ⟨rfl, cs, htook, hcs⟩
    refine ⟨htook.le, fun hc => ⟨String.ofList cs, ?_, ?_, ?_⟩⟩
    · rw [Match.key, unquoted_leaf hc htook]
      rfl
    · rw [String.toList_ofList]
      exact hcs
    · have hcount := htook.closers_eq
      simp only [List.cons_append, List.count_cons, List.count_append] at hcount
      rw [String.toList_ofList]
      omega

theorem lowers_pair (h : ∀ c, value.Ensures c (Lowers source c)) (c : Cursor) :
    (pair value).Ensures c (LowersPair source c) := by
  refine Ensures.node ((lowers_key source c).bind ?_)
  rintro key c₁ ⟨hkey, hlowered⟩
  refine (ensures_layout c₁).bind fun _ c₂ hgap => ?_
  refine (lt_of_lexeme (lt_of_mark ':' c₂)).bind fun _ c₃ hcolon => ?_
  refine (h c₃).bind fun content c₄ hcontent => ensures_pure ?_
  have hcontent' : Lowers source c₁ content c₄ :=
    hcontent.start (le_trans hgap (le_of_lt hcolon))
  refine ⟨le_trans hkey hcontent'.le, rfl, fun hc => ?_⟩
  obtain ⟨k, hk, hquotable, hclosers⟩ := hlowered hc
  obtain ⟨e, he, hlegible, hclosers'⟩ := hcontent'.expr (hc.of_le hkey)
  refine ⟨k, e, ?_, hquotable, hlegible, by omega⟩
  rw [Match.node, Match.pair, hk, he]
  rfl

theorem lowers_object (h : ∀ c, value.Ensures c (Lowers source c)) (c : Cursor) :
    (object value).Ensures c (Lowers source c) := by
  rw [object_eq]
  refine Ensures.node ((lt_of_lexeme (lt_of_mark '\x7b' c)).bind fun _ c₁ hopen => ?_)
  refine (listing_fields.closePairs (lowers_pair h) c₁).mono fun ms c₂ hms => ?_
  refine ⟨le_trans (le_of_lt hopen) hms.le, fun hc => ?_⟩
  have hempty : (Expr.object []).Throughout Expr.Legible := by
    simp [Expr.Throughout, Expr.Legible, Expr.ThroughoutFields]
  obtain ⟨fs, hfs, hlegible, hclosers⟩ := hms.fields (hc.of_le (le_of_lt hopen)) [] hempty
  refine ⟨.object fs, ?_, hlegible, ?_⟩
  · rw [expr_node, Match.expr, hfs]
    rfl
  · have := Cursor.closers_le (le_of_lt hopen)
    simp only [Expr.fieldClosers] at hclosers
    rw [Expr.closers]
    omega

/-- The head of a call or of an index expression. -/
theorem lowers_head (source : List Char) (c : Cursor) :
    ident.Ensures c fun m c' => c ≤ c' ∧ m.rule = .ident
      ∧ (c.In source → isIdent (m.textString source).toList = true) := by
  refine (ensures_ident c).mono ?_
  rintro m c' ⟨rfl, name, htook, hident, -⟩
  refine ⟨htook.le, rfl, fun hc => ?_⟩
  rwa [Match.textString, text_leaf hc htook, String.toList_ofList]

theorem lowers_call (h : ∀ c, value.Ensures c (Lowers source c)) (c : Cursor) :
    (call value).Ensures c (Lowers source c) := by
  refine Ensures.node ((lowers_head source c).bind ?_)
  rintro name c₁ ⟨hname, hrule, hident⟩
  refine (lt_of_lexeme (lt_of_mark '(' c₁)).bind fun _ c₂ hopen => ?_
  refine (listing_lowers.listUpTo ')' h c₂).bind fun args c₃ hargs => ensures_pure ?_
  have hstart : c ≤ c₂ := le_trans hname (le_of_lt hopen)
  refine ⟨le_trans hstart hargs.le, fun hc => ?_⟩
  obtain ⟨es, hes, hlegible, hclosers⟩ := hargs.exprs (hc.of_le hstart)
  refine ⟨.call (name.textString source) es, ?_, ⟨hident hc, hlegible⟩, ?_⟩
  · rw [expr_call hrule, hes]
    rfl
  · have := Cursor.closers_le hstart
    rw [Expr.closers]
    omega

/-- The string of a segment of an index expression. -/
def segment (source : List Char) (m : Match) : Except Malformed Expr :=
  if m.rule = .indexSegment ∨ m.rule = .sentence then .ok (.string (m.textString source))
  else m.malformed .notSegment

theorem segments_cons {m : Match} {ms : List Match} {e : Expr} {es : List Expr}
    (he : segment source m = .ok e) (hes : Match.segments source ms = .ok es) :
    Match.segments source (m :: ms) = .ok (e :: es) := by
  rw [segment] at he
  split at he
  · next hrule =>
    cases he
    rw [Match.segments, if_pos hrule, hes]
    rfl
  · cases he

theorem listing_segments :
    Listing (LowersBy source (segment source)) (LowerAllBy source (Match.segments source)) :=
  listing_lowersBy rfl segments_cons

theorem lowers_dotSegment (c : Cursor) :
    dotSegment.Ensures c (LowersBy source (segment source) c) := by
  refine (lt_of_mark '.' c).bind fun _ c₁ hdot => ?_
  refine Ensures.leaf (((ensures_run1 isSegmentChar c₁).expect _).mono ?_)
  rintro cs c₂ ⟨htook, -, hall, -⟩
  refine LowersBy.start ⟨htook.le, fun hc => ?_⟩ (le_of_lt hdot)
  have hnot {x : Char} (hx : isSegmentChar x = false) : x ∉ cs := by
    intro hmem
    rw [hall x hmem] at hx
    cases hx
  refine ⟨.string (String.ofList cs), ?_, ?_, ?_⟩
  · rw [segment, Match.textString, text_leaf hc htook]
    rfl
  · simpa [Expr.Throughout, Expr.Legible] using hnot (by decide)
  · have := Cursor.closers_le htook.le
    have hbracket : cs.count ']' = 0 := List.count_eq_zero.mpr (hnot (by decide))
    have hquote : '\x27' ∉ cs := hnot (by decide)
    simp only [Expr.closers, String.toList_ofList, hbracket, if_neg hquote]
    omega

/-- A segment in brackets may hold a quote, and then the bracket after it counts for it. -/
theorem lowers_bracketSegment (c : Cursor) :
    bracketSegment.Ensures c (LowersBy source (segment source) c) := by
  refine (lt_of_mark '[' c).bind fun _ c₁ hopen => (ensures_sentence c₁).bind ?_
  rintro m c₂ ⟨rfl, cs, htook, hsentence⟩
  refine (ensures_mark ']' c₂).bind fun _ c₃ hclose => ensures_pure ?_
  refine LowersBy.start ⟨le_trans htook.le hclose.le, fun hc => ?_⟩ (le_of_lt hopen)
  obtain ⟨-, hall, -⟩ := isSentence_iff.mp hsentence
  have hnot {x : Char} (hx : isSentenceChar x = false) : x ∉ cs := by
    intro hmem
    rw [hall x hmem] at hx
    cases hx
  refine ⟨.string (String.ofList cs), ?_, ?_, ?_⟩
  · rw [segment, Match.textString, text_leaf hc htook]
    rfl
  · simpa [Expr.Throughout, Expr.Legible] using hnot (by decide)
  · have hlast : c₂.closers = 1 + c₃.closers := hclose.closers_eq
    have := Cursor.closers_le htook.le
    have hbracket : cs.count ']' = 0 := List.count_eq_zero.mpr (hnot (by decide))
    simp only [Expr.closers, String.toList_ofList, hbracket]
    split <;> omega

theorem lowers_index (c : Cursor) : index.Ensures c (Lowers source c) := by
  have hsegment (c : Cursor) :
      (dotSegment <|> bracketSegment).Ensures c (LowersBy source (segment source) c) :=
    (lowers_dotSegment c).orElse (lowers_bracketSegment c)
  refine Ensures.node ((lowers_head source c).bind ?_)
  rintro head c₁ ⟨hhead, hrule, hident⟩
  refine (listing_segments.many1 hsegment c₁).bind ?_
  rintro segments c₂ ⟨hsegments, -⟩
  refine ensures_pure ⟨le_trans hhead hsegments.le, fun hc => ?_⟩
  obtain ⟨es, hes, hlegible, hclosers⟩ := hsegments.exprs (hc.of_le hhead)
  refine ⟨.call (head.textString source) es, ?_, ⟨hident hc, hlegible⟩, ?_⟩
  · rw [expr_index hrule, hes]
    rfl
  · have := Cursor.closers_le hhead
    rw [Expr.closers]
    omega

/-! ## Arithmetic -/

/-- Operators of the grammar stand for functions. -/
def IsOperatorClass (isOperator : Char → Bool) : Prop :=
  ∀ x, isOperator x = true →
    ∃ name, Match.operatorName? [x] = some name ∧ isIdent name.toList = true

theorem lowers_operator {isOperator : Char → Bool} (hclass : IsOperatorClass isOperator)
    (source : List Char) (c : Cursor) :
    (operator isOperator).Ensures c fun m c' => c ≤ c' ∧ (c.In source →
      ∃ name, Match.operatorName? (m.text source) = some name ∧ isIdent name.toList = true) := by
  refine (ensures_layout c).bind fun _ c₁ hbefore => ?_
  have hsign : (leaf .operator (satisfy isOperator)).Ensures c₁ fun m c' => c₁ ≤ c'
      ∧ (c₁.In source → ∃ name, Match.operatorName? (m.text source) = some name
        ∧ isIdent name.toList = true) := by
    refine Ensures.leaf ((ensures_satisfy isOperator c₁).mono ?_)
    rintro x c₂ ⟨hx, htook⟩
    refine ⟨htook.le, fun hc => ?_⟩
    rw [text_leaf hc htook]
    exact hclass x hx
  refine hsign.bind ?_
  rintro m c₂ ⟨hle, hname⟩
  refine (ensures_layout c₂).bind fun _ c₃ hafter => ensures_pure ?_
  exact ⟨le_trans hbefore (le_trans hle hafter), fun hc => hname (hc.of_le hbefore)⟩

/-- Operators and right operands, which can be applied to any left operand. -/
structure LowerSteps (source : List Char) (c : Cursor) (steps : List (List Match)) (c' : Cursor) :
    Prop where
  le : c ≤ c'
  operations : c.In source → ∀ (whole : Match) (left : Expr), left.Throughout Expr.Legible →
    ∃ e, Match.operations source whole left steps.flatten = .ok e ∧ e.Throughout Expr.Legible
      ∧ e.closers + c'.closers ≤ left.closers + c.closers

theorem lowers_steps {isOperator : Char → Bool} (hclass : IsOperatorClass isOperator)
    {operand : Parser Match} (h : ∀ c, operand.Ensures c (Lowers source c)) (c : Cursor) :
    (many (operator isOperator >>= fun sign => operand >>= fun next =>
      pure [sign, next])).Ensures c (LowerSteps source c) := by
  let R (c : Cursor) (step : List Match) (c' : Cursor) : Prop := c ≤ c' ∧ (c.In source →
    ∃ sign next name e, step = [sign, next] ∧ Match.operatorName? (sign.text source) = some name
      ∧ isIdent name.toList = true ∧ next.expr source = .ok e ∧ e.Throughout Expr.Legible
      ∧ e.closers + c'.closers ≤ c.closers)
  refine ensures_many (R := R) (Q := LowerSteps source) ?_ ?_ ?_ c
  · intro c
    refine (lowers_operator hclass source c).bind ?_
    rintro sign c₁ ⟨hsign, hname⟩
    refine (h c₁).bind fun next c₂ hnext => ensures_pure ⟨le_trans hsign hnext.le, fun hc => ?_⟩
    obtain ⟨name, hname, hident⟩ := hname hc
    obtain ⟨e, he, hlegible, hclosers⟩ := (hnext.start hsign).expr hc
    exact ⟨sign, next, name, e, rfl, hname, hident, he, hlegible, hclosers⟩
  · intro c
    exact ⟨le_refl c, fun _ whole left hleft => ⟨left, rfl, hleft, Nat.le_refl _⟩⟩
  · rintro c step c₁ steps c₂ ⟨hle, hstep⟩ hsteps
    refine ⟨le_trans hle hsteps.le, fun hc whole left hleft => ?_⟩
    obtain ⟨sign, next, name, right, rfl, hname, hident, hright, hlegible, hclosers⟩ := hstep hc
    have happlied : (Expr.call name [left, right]).Throughout Expr.Legible :=
      ⟨hident, hleft, hlegible, trivial⟩
    obtain ⟨e, he, hlegible', hclosers'⟩ :=
      hsteps.operations (hc.of_le hle) whole _ happlied
    refine ⟨e, ?_, hlegible', ?_⟩
    · simp only [List.flatten_cons, List.cons_append, List.nil_append, Match.operations, hname,
        hright]
      exact he
    · simp only [Expr.closers, Expr.itemClosers] at hclosers'
      omega

theorem lowers_chain {rule : Rule} {isOperator : Char → Bool}
    (hrule : rule = .sum ∨ rule = .product) (hclass : IsOperatorClass isOperator)
    {operand : Parser Match} (h : ∀ c, operand.Ensures c (Lowers source c)) (c : Cursor) :
    (chain rule isOperator operand).Ensures c (Lowers source c) := by
  refine (reads_offset c).ensures_bind ((h c).bind fun first c₁ hfirst => ?_)
  refine (lowers_steps hclass h c₁).bind fun steps c₂ hsteps => (reads_offset c₂).ensures_bind ?_
  split
  · exact ensures_pure (hfirst.stop hsteps.le)
  · refine ensures_pure ⟨le_trans hfirst.le hsteps.le, fun hc => ?_⟩
    obtain ⟨left, hleft, hlegible, hclosers⟩ := hfirst.expr hc
    let whole : Match := .node rule c.offset c₂.offset (first :: steps.flatten)
    obtain ⟨e, he, hlegible', hclosers'⟩ :=
      hsteps.operations (hc.of_le hfirst.le) whole left hlegible
    refine ⟨e, ?_, hlegible', by omega⟩
    rcases hrule with rfl | rfl
    · rw [expr_node, Match.expr, hleft]
      exact he
    · rw [expr_node, Match.expr, hleft]
      exact he

theorem lowers_group (h : ∀ c, sum.Ensures c (Lowers source c)) (c : Cursor) :
    (group sum).Ensures c (Lowers source c) := by
  refine (lt_of_lexeme (lt_of_mark '(' c)).bind fun _ c₁ hopen => ?_
  refine (h c₁).bind fun inner c₂ hinner => (ensures_layout c₂).bind fun _ c₃ hgap => ?_
  refine (lt_of_mark ')' c₃).bind fun _ c₄ hclose => ensures_pure ?_
  exact (hinner.start (le_of_lt hopen)).stop (le_trans hgap (le_of_lt hclose))

theorem lowers_product (hvalue : ∀ c, value.Ensures c (Lowers source c))
    (hsum : ∀ c, sum.Ensures c (Lowers source c)) (c : Cursor) :
    (product value sum).Ensures c (Lowers source c) := by
  refine lowers_chain (Or.inr rfl) ?_ (fun c => ?_) c
  · intro x hx
    simp only [Bool.or_eq_true, beq_iff_eq] at hx
    rcases hx with rfl | rfl
    · exact ⟨"mul", rfl, by decide⟩
    · exact ⟨"div", rfl, by decide⟩
  · exact (lowers_number c).orElse ((lowers_group hsum c).orElse
      ((lowers_call hvalue c).orElse (lowers_index c)))

end Values

theorem lowers_value_and_sum (n : Nat) :
    (∀ c, (value n).Ensures c (Lowers source c)) ∧ ∀ c, (sum n).Ensures c (Lowers source c) := by
  induction n with
  | zero => exact ⟨fun c => (fails_refuse _ c).ensures, fun c => (fails_refuse _ c).ensures⟩
  | succ n ih =>
      obtain ⟨hvalue, hsum⟩ := ih
      constructor
      · intro c
        exact (lowers_array hvalue c).orElse ((lowers_bool c).orElse ((hsum c).orElse
          ((lowers_object hvalue c).orElse (lowers_string c))))
      · refine lowers_chain (Or.inl rfl) ?_ (lowers_product hvalue hsum)
        intro x hx
        simp only [Bool.or_eq_true, beq_iff_eq] at hx
        rcases hx with rfl | rfl
        · exact ⟨"add", rfl, by decide⟩
        · exact ⟨"sub", rfl, by decide⟩

/-- The match of a value has an expression. -/
theorem lowers_value (source : List Char) (n : Nat) (c : Cursor) :
    (value n).Ensures c (Lowers source c) :=
  lowers_value_and_sum n |>.1 c

end Grammar

end Playbooks
