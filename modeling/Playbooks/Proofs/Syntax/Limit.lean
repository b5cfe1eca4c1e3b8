import Playbooks.Proofs.Syntax.Agreement

/-!
# Parsers that raise an alarm

A report at an offset beyond the text is an alarm: no other report gets as far, and none takes it
back, so the tracker at the end of a run tells whether it was raised. As long as it is not, a rule
of the grammar reads the same as with nested values that do something else in its place.

## Main definitions

* `Parser.AgreeBelow`: without an alarm of the first parser the second one reads the same.

## Main results

* `Grammar.agreeBelow_array`, `Grammar.agreeBelow_object`, `Grammar.agreeBelow_sumOf`: one rule for
  each rule of the grammar with nested values.
-/
namespace Playbooks

namespace Parser

variable {α β : Type} {far : Nat} {p q r s : Parser α} {f g : α → Parser β}

/-- If the first parser ends with no report as far as the alarm, then there was none before, and the
second parser reads the same, whatever was reported before. -/
def AgreeBelow (far : Nat) (p q : Parser α) : Prop :=
  ∀ c t t', (p c t).2.furthest < far → t.furthest < far ∧ (q c t').1 = (p c t).1

/-- Without an alarm the second parser does what the first does. -/
theorem AgreeBelow.apply_eq (h : AgreeBelow far p q) {c : Cursor} {t t₁ : Tracker}
    {outcome : Option (α × Cursor)} (t' : Tracker) (hp : p c t = (outcome, t₁))
    (hlow : t₁.furthest < far) : t.furthest < far ∧ q c t' = (outcome, (q c t').2) := by
  obtain ⟨ht, hq⟩ := h c t t' (by rw [hp]; exact hlow)
  rw [hp] at hq
  exact ⟨ht, Prod.ext hq rfl⟩

/-! ## Combinators -/

theorem Quiet.agreeBelow (hp : p.Quiet) : AgreeBelow far p p := by
  intro c t t' hlow
  rw [hp.snd_eq] at hlow
  exact ⟨hlow, hp.agree c t' t⟩

theorem agreeBelow_pure (a : α) : AgreeBelow far (pure a) (pure a) :=
  (quiet_pure a).agreeBelow

theorem AgreeBelow.bind (h : AgreeBelow far p q) (hf : ∀ a, AgreeBelow far (f a) (g a)) :
    AgreeBelow far (p >>= f) (q >>= g) := by
  intro c t t' hlow
  rw [bind_apply] at hlow
  rw [bind_apply, bind_apply]
  rcases hp : p c t with ⟨_ | ⟨a, c'⟩, t₁⟩
  · rw [hp] at hlow
    obtain ⟨ht, hq⟩ := h.apply_eq t' hp hlow
    rw [hq]
    exact ⟨ht, rfl⟩
  · rw [hp] at hlow
    -- The alarm is not taken back, so it was not raised before the second part either.
    obtain ⟨ht₁, hrest⟩ := hf a c' t₁ (q c t').2 hlow
    obtain ⟨ht, hq⟩ := h.apply_eq t' hp ht₁
    rw [hq]
    exact ⟨ht, hrest⟩

theorem AgreeBelow.orElse (h : AgreeBelow far p q) (h' : AgreeBelow far r s) :
    AgreeBelow far (p <|> r) (q <|> s) := by
  intro c t t' hlow
  rw [orElse_apply] at hlow
  rw [orElse_apply, orElse_apply]
  rcases hp : p c t with ⟨_ | ⟨a, c'⟩, t₁⟩
  · rw [hp] at hlow
    obtain ⟨ht₁, hrest⟩ := h' c t₁ (q c t').2 hlow
    obtain ⟨ht, hq⟩ := h.apply_eq t' hp ht₁
    rw [hq]
    exact ⟨ht, hrest⟩
  · rw [hp] at hlow
    obtain ⟨ht, hq⟩ := h.apply_eq t' hp hlow
    rw [hq]
    exact ⟨ht, rfl⟩

theorem AgreeBelow.expect (h : AgreeBelow far p q) (what : Expected) :
    AgreeBelow far (Parser.expect what p) (Parser.expect what q) := by
  intro c t t' hlow
  rw [expect_fst, expect_fst]
  refine h c t t' (lt_of_le_of_lt ?_ hlow)
  rw [Parser.expect]
  rcases p c t with ⟨_ | ⟨a, c'⟩, t₁⟩
  · rw [Tracker.furthest_fail]
    exact le_max_left t₁.furthest c.offset
  · exact le_rfl

theorem agreeBelow_mark (x : Char) : AgreeBelow far (mark x) (mark x) :=
  ((quiet_satisfy _).bind fun _ => quiet_pure ()).agreeBelow.expect _

theorem AgreeBelow.option (h : AgreeBelow far p q) :
    AgreeBelow far (Parser.option p) (Parser.option q) := by
  intro c t t' hlow
  rw [Parser.option] at hlow
  rw [Parser.option, Parser.option]
  rcases hp : p c t with ⟨_ | ⟨a, c'⟩, t₁⟩
  · rw [hp] at hlow
    obtain ⟨ht, hq⟩ := h.apply_eq t' hp hlow
    rw [hq]
    exact ⟨ht, rfl⟩
  · rw [hp] at hlow
    obtain ⟨ht, hq⟩ := h.apply_eq t' hp hlow
    rw [hq]
    exact ⟨ht, rfl⟩

/-- What holds of one repetition holds of the loop. -/
theorem AgreeBelow.manyUpTo (h : AgreeBelow far p q) (n : Nat) :
    AgreeBelow far (Parser.manyUpTo p n) (Parser.manyUpTo q n) := by
  induction n with
  | zero => exact fun c t t' hlow => ⟨hlow, rfl⟩
  | succ n ih =>
      intro c t t' hlow
      rw [Parser.manyUpTo] at hlow
      rw [Parser.manyUpTo, Parser.manyUpTo]
      rcases hp : p c t with ⟨_ | ⟨a, c'⟩, t₁⟩
      · rw [hp] at hlow
        obtain ⟨ht, hq⟩ := h.apply_eq t' hp hlow
        rw [hq]
        exact ⟨ht, rfl⟩
      · rw [hp] at hlow
        simp only at hlow ⊢
        by_cases hstuck : c'.offset ≤ c.offset
        · rw [if_pos hstuck] at hlow
          obtain ⟨ht, hq⟩ := h.apply_eq t' hp hlow
          refine ⟨ht, ?_⟩
          rw [hq]
          simp only [if_pos hstuck]
        · rw [if_neg hstuck] at hlow ⊢
          rcases hrest : Parser.manyUpTo p n c' t₁ with ⟨_ | ⟨as, c''⟩, t₂⟩
          · rw [hrest] at hlow
            obtain ⟨ht₁, hrest'⟩ := ih.apply_eq (q c t').2 hrest hlow
            obtain ⟨ht, hq⟩ := h.apply_eq t' hp ht₁
            rw [hq]
            simp only [if_neg hstuck]
            rw [hrest']
            exact ⟨ht, rfl⟩
          · rw [hrest] at hlow
            obtain ⟨ht₁, hrest'⟩ := ih.apply_eq (q c t').2 hrest hlow
            obtain ⟨ht, hq⟩ := h.apply_eq t' hp ht₁
            rw [hq]
            simp only [if_neg hstuck]
            rw [hrest']
            exact ⟨ht, rfl⟩

theorem AgreeBelow.many (h : AgreeBelow far p q) :
    AgreeBelow far (Parser.many p) (Parser.many q) :=
  fun c => h.manyUpTo (c.rest.length + 1) c

theorem AgreeBelow.many1 (h : AgreeBelow far p q) :
    AgreeBelow far (Parser.many1 p) (Parser.many1 q) :=
  h.bind fun _ => h.many.bind fun _ => agreeBelow_pure _

theorem AgreeBelow.leaf (h : AgreeBelow far p q) (rule : Rule) :
    AgreeBelow far (Parser.leaf rule p) (Parser.leaf rule q) :=
  quiet_offset.agreeBelow.bind fun _ => h.bind fun _ => quiet_offset.agreeBelow.bind fun _ =>
    agreeBelow_pure _

theorem AgreeBelow.node {ps qs : Parser (List Match)} (h : AgreeBelow far ps qs) (rule : Rule) :
    AgreeBelow far (Parser.node rule ps) (Parser.node rule qs) :=
  quiet_offset.agreeBelow.bind fun _ => h.bind fun _ => quiet_offset.agreeBelow.bind fun _ =>
    agreeBelow_pure _

end Parser

namespace Grammar

open Playbooks.Parser

/-! ## Words -/

section Words

variable {α : Type} {far : Nat} {p q : Parser α}

theorem agreeBelow_layout : AgreeBelow far layout layout :=
  Quiet.agreeBelow fun _ _ _ => rfl

theorem agreeBelow_lexeme (h : AgreeBelow far p q) : AgreeBelow far (lexeme p) (lexeme q) :=
  h.bind fun a => agreeBelow_layout.bind fun _ => agreeBelow_pure a

theorem agreeBelow_keyword (word : String) : AgreeBelow far (keyword word) (keyword word) :=
  ((quiet_text _).bind fun _ => quiet_notAhead _).agreeBelow.expect _

theorem agreeBelow_ident : AgreeBelow far ident ident :=
  (((quiet_satisfy _).bind fun _ => quiet_run _).agreeBelow.expect _).leaf _

theorem agreeBelow_string : AgreeBelow far string string :=
  AgreeBelow.leaf (((quiet_satisfy _).agreeBelow.expect _).bind fun _ =>
    (quiet_run _).agreeBelow.bind fun _ => (quiet_satisfy _).agreeBelow.expect _) _

theorem agreeBelow_number : AgreeBelow far number number := by
  have hfraction : AgreeBelow far (do let _ ← satisfy (· == '.'); run1 Char.isDigit)
      (do let _ ← satisfy (· == '.'); run1 Char.isDigit) :=
    ((quiet_satisfy _).bind fun _ => quiet_run1 _).agreeBelow
  exact AgreeBelow.leaf ((quiet_satisfy _).agreeBelow.option.bind fun _ =>
    ((quiet_run1 _).agreeBelow.expect _).bind fun _ => hfraction.option.bind fun _ =>
      (quiet_notAhead _).agreeBelow) _

theorem agreeBelow_bool : AgreeBelow far bool bool :=
  ((agreeBelow_keyword _).orElse (agreeBelow_keyword _)).leaf _

theorem agreeBelow_sentence : AgreeBelow far sentence sentence := by
  refine (AgreeBelow.expect ((quiet_run1 _).agreeBelow.bind fun cs => ?_) _).leaf _
  split
  · exact agreeBelow_pure ()
  · exact quiet_fail.agreeBelow

end Words

/-! ## Values -/

section Values

variable {far : Nat} {p q v w s s' : Parser Match}

theorem agreeBelow_comma : AgreeBelow far comma comma :=
  agreeBelow_lexeme (agreeBelow_mark ',')

theorem agreeBelow_separated (h : AgreeBelow far p q) :
    AgreeBelow far (separated p) (separated q) := by
  refine (agreeBelow_lexeme h).option.bind fun first => ?_
  cases first with
  | none => exact agreeBelow_pure []
  | some first =>
      have hnext := agreeBelow_comma.bind fun _ => agreeBelow_lexeme h
      exact hnext.many.bind fun others => agreeBelow_pure (first :: others)

theorem agreeBelow_listUpTo (close : Char) (h : AgreeBelow far v w) :
    AgreeBelow far (listUpTo close v) (listUpTo close w) :=
  (agreeBelow_separated h).bind fun items => agreeBelow_comma.bind fun _ =>
    (agreeBelow_mark close).bind fun _ => agreeBelow_pure items

theorem agreeBelow_array (h : AgreeBelow far v w) : AgreeBelow far (array v) (array w) :=
  ((agreeBelow_lexeme (agreeBelow_mark '[')).bind fun _ => agreeBelow_listUpTo ']' h).node _

theorem agreeBelow_pair (h : AgreeBelow far v w) : AgreeBelow far (pair v) (pair w) :=
  ((agreeBelow_ident.orElse agreeBelow_string).bind fun key => agreeBelow_layout.bind fun _ =>
    (agreeBelow_lexeme (agreeBelow_mark ':')).bind fun _ => h.bind fun content =>
      agreeBelow_pure [key, content]).node _

theorem agreeBelow_closePairs (ms : List Match) :
    AgreeBelow far (closePairs ms) (closePairs ms) := by
  have hclose : AgreeBelow far (mark '\x7d' >>= fun _ => pure ms)
      (mark '\x7d' >>= fun _ => pure ms) :=
    (agreeBelow_mark '\x7d').bind fun _ => agreeBelow_pure ms
  rw [closePairs]
  split
  · exact agreeBelow_comma.option.bind fun _ => hclose
  · exact hclose

theorem agreeBelow_object (h : AgreeBelow far v w) : AgreeBelow far (object v) (object w) := by
  rw [object_eq, object_eq]
  exact ((agreeBelow_lexeme (agreeBelow_mark '\x7b')).bind fun _ =>
    (agreeBelow_separated (agreeBelow_pair h)).bind agreeBelow_closePairs).node _

theorem agreeBelow_call (h : AgreeBelow far v w) : AgreeBelow far (call v) (call w) :=
  (agreeBelow_ident.bind fun name => (agreeBelow_lexeme (agreeBelow_mark '(')).bind fun _ =>
    (agreeBelow_listUpTo ')' h).bind fun args => agreeBelow_pure (name :: args)).node _

theorem agreeBelow_segment :
    AgreeBelow far (dotSegment <|> bracketSegment) (dotSegment <|> bracketSegment) := by
  refine AgreeBelow.orElse ?_ ?_
  · exact (agreeBelow_mark '.').bind fun _ => ((quiet_run1 _).agreeBelow.expect _).leaf _
  · exact (agreeBelow_mark '[').bind fun _ => agreeBelow_sentence.bind fun segment =>
      (agreeBelow_mark ']').bind fun _ => agreeBelow_pure segment

theorem agreeBelow_index : AgreeBelow far index index :=
  (agreeBelow_ident.bind fun head => agreeBelow_segment.many1.bind fun segments =>
    agreeBelow_pure (head :: segments)).node _

theorem agreeBelow_group (h : AgreeBelow far s s') : AgreeBelow far (group s) (group s') :=
  (agreeBelow_lexeme (agreeBelow_mark '(')).bind fun _ => h.bind fun inner =>
    agreeBelow_layout.bind fun _ => (agreeBelow_mark ')').bind fun _ => agreeBelow_pure inner

theorem agreeBelow_chain (rule : Rule) (isOperator : Char → Bool) (h : AgreeBelow far p q) :
    AgreeBelow far (chain rule isOperator p) (chain rule isOperator q) := by
  have hoperator : AgreeBelow far (operator isOperator) (operator isOperator) :=
    agreeBelow_layout.bind fun _ => ((quiet_satisfy isOperator).agreeBelow.leaf _).bind fun sign =>
      agreeBelow_layout.bind fun _ => agreeBelow_pure sign
  have hstep := hoperator.bind fun sign => h.bind fun next => agreeBelow_pure [sign, next]
  refine quiet_offset.agreeBelow.bind fun start => h.bind fun first =>
    hstep.many.bind fun others => quiet_offset.agreeBelow.bind fun stop => ?_
  split
  · exact agreeBelow_pure first
  · exact agreeBelow_pure _

theorem agreeBelow_sumOf (hv : AgreeBelow far v w) (hs : AgreeBelow far s s') :
    AgreeBelow far (sumOf v s) (sumOf w s') :=
  agreeBelow_chain _ _ (agreeBelow_chain _ _ (agreeBelow_number.orElse
    ((agreeBelow_group hs).orElse ((agreeBelow_call hv).orElse agreeBelow_index))))

end Values

end Grammar

end Playbooks
