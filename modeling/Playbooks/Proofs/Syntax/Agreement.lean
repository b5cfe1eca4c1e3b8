import Mathlib.Order.UpperLower.Basic
import Playbooks.Proofs.Syntax.Trees

/-!
# Parsers with the same outcomes

Two parsers agree at a cursor if they read the same there, whatever was reported before. A rule of
the grammar takes its nested values from later places only, so two instances of a rule agree at a
cursor as soon as their nested values agree after it.

## Main definitions

* `Parser.Meet`: two parsers agree at a cursor and stop at a place of a set.
* `Parser.Alike`: they do so at every place of the set.

## Main results

* `Grammar.meet_array`, `Grammar.meet_object`, `Grammar.meet_call`, `Grammar.meet_sumOf`: one rule
  of agreement for each rule of the grammar with nested values.
-/
namespace Playbooks

namespace Parser

variable {α β : Type} {D E : Set Cursor} {p q r s : Parser α} {f g : α → Parser β}
  {c c' : Cursor} {a : α}

/-- The parsers read the same from the cursor, whatever was reported before, and stop at a place of
the set. -/
structure Meet (D : Set Cursor) (p q : Parser α) (c : Cursor) : Prop where
  agree (t t' : Tracker) : (p c t).1 = (q c t').1
  stays : q.Ensures c fun _ c' => c' ∈ D

/-- Wherever the parsers start in the set, they read the same and stay there. -/
def Alike (D : Set Cursor) (p q : Parser α) : Prop :=
  ∀ c ∈ D, Meet D p q c

theorem Meet.mono (h : Meet D p q c) (hDE : D ⊆ E) : Meet E p q c :=
  ⟨h.agree, h.stays.mono fun _ _ hc => hDE hc⟩

theorem Meet.of_apply_eq (h : Meet D p q c) (hp : p c = r c) (hq : q c = s c) : Meet D r s c := by
  constructor
  · intro t t'
    rw [← hp, ← hq]
    exact h.agree t t'
  · intro t a c' hs
    rw [← hq] at hs
    exact h.stays t a c' hs

theorem Fails.meet (hp : p.Fails c) (hq : q.Fails c) : Meet D p q c :=
  ⟨fun t t' => (hp t).trans (hq t').symm, hq.ensures⟩

theorem Reads.meet (hp : p.Reads c a c') (hq : q.Reads c a c') (hc' : c' ∈ D) : Meet D p q c :=
  ⟨fun t t' => (hp t).trans (hq t').symm, hq.ensures hc'⟩

/-- A parser whose outcomes do not depend on reports either fails or reads something. -/
theorem fails_or_reads (h : ∀ t t', (p c t).1 = (p c t').1) :
    p.Fails c ∨ ∃ a c', p.Reads c a c' := by
  cases hread : (p c {}).1 with
  | none => exact Or.inl fun t => (h t {}).trans hread
  | some r => exact Or.inr ⟨r.1, r.2, fun t => (h t {}).trans hread⟩

/-- Parsers that agree at a cursor either both fail there or both read the same. -/
theorem Meet.cases (h : Meet D p q c) :
    (p.Fails c ∧ q.Fails c) ∨ ∃ a, ∃ c' ∈ D, p.Reads c a c' ∧ q.Reads c a c' := by
  have hself (t t' : Tracker) : (p c t).1 = (p c t').1 :=
    (h.agree t {}).trans (h.agree t' {}).symm
  rcases fails_or_reads hself with hp | ⟨a, c', hp⟩
  · exact Or.inl ⟨hp, fun t => (h.agree {} t).symm.trans (hp {})⟩
  · have hq : q.Reads c a c' := fun t => (h.agree {} t).symm.trans (hp {})
    exact Or.inr ⟨a, c', hq.of_ensures h.stays, hp, hq⟩

/-! ## Sequences and choices -/

theorem meet_pure (a : α) (hc : c ∈ D) : Meet D (pure a) (pure a) c :=
  (reads_pure a c).meet (reads_pure a c) hc

theorem alike_pure (a : α) : Alike D (pure a) (pure a) :=
  fun _ => meet_pure a

/-- What is read before the parsers does not have to stop at a place of the set. -/
theorem Reads.meet_bind (hp : p.Reads c a c') (hq : q.Reads c a c')
    (hf : Meet D (f a) (g a) c') : Meet D (p >>= f) (q >>= g) c := by
  rcases hf.cases with ⟨hfa, hga⟩ | ⟨b, c'', hc'', hfa, hga⟩
  · exact (hp.bind_fails hfa).meet (hq.bind_fails hga)
  · exact (hp.bind hfa).meet (hq.bind hga) hc''

theorem Meet.bind (h : Meet D p q c) (hf : ∀ a, Alike D (f a) (g a)) :
    Meet D (p >>= f) (q >>= g) c := by
  rcases h.cases with ⟨hp, hq⟩ | ⟨a, c', hc', hp, hq⟩
  · exact hp.bind.meet hq.bind
  · exact hp.meet_bind hq (hf a c' hc')

theorem Alike.bind (h : Alike D p q) (hf : ∀ a, Alike D (f a) (g a)) :
    Alike D (p >>= f) (q >>= g) :=
  fun c hc => (h c hc).bind hf

theorem meet_offset_bind {f g : Nat → Parser α} (h : Meet D (f c.offset) (g c.offset) c) :
    Meet D (offset >>= f) (offset >>= g) c :=
  (reads_offset c).meet_bind (reads_offset c) h

theorem Meet.orElse (h : Meet D p q c) (h' : Meet D r s c) : Meet D (p <|> r) (q <|> s) c := by
  rcases h.cases with ⟨hp, hq⟩ | ⟨a, c', hc', hp, hq⟩
  · rcases h'.cases with ⟨hr, hs⟩ | ⟨a, c', hc', hr, hs⟩
    · exact (hp.orElse hr).meet (hq.orElse hs)
    · exact (hp.orElse_reads hr).meet (hq.orElse_reads hs) hc'
  · exact hp.orElse.meet hq.orElse hc'

/-- An alternative that fails may be left out. -/
theorem Fails.orElse_meet (hp : p.Fails c) (h : Meet D q r c) : Meet D (p <|> q) r c := by
  rcases h.cases with ⟨hq, hr⟩ | ⟨a, c', hc', hq, hr⟩
  · exact (hp.orElse hq).meet hr
  · exact (hp.orElse_reads hq).meet hr hc'

/-! ## Characters -/

theorem meet_fail : Meet D (fail : Parser α) fail c :=
  ⟨fun _ _ => rfl, (fails_fail c).ensures⟩

theorem Meet.expect (h : Meet D p q c) (what : Expected) :
    Meet D (Parser.expect what p) (Parser.expect what q) c := by
  constructor
  · intro t t'
    rw [expect_fst, expect_fst]
    exact h.agree t t'
  · exact h.stays.expect what

theorem meet_satisfy (P : Char → Bool) (hc : Set.Ioi c ⊆ D) :
    Meet D (satisfy P) (satisfy P) c :=
  ⟨(quiet_satisfy P).agree c, (ensures_satisfy P c).mono fun _ _ h => hc (h.2.lt (by simp))⟩

theorem meet_mark (x : Char) (hc : Set.Ioi c ⊆ D) : Meet D (mark x) (mark x) c :=
  ((meet_satisfy _ hc).bind fun _ => alike_pure ()).expect _

theorem alike_notAhead (P : Char → Bool) : Alike D (notAhead P) (notAhead P) := fun c hc =>
  ⟨(quiet_notAhead P).agree c, (ensures_notAhead P c).mono fun _ _ h => h.1 ▸ hc⟩

theorem alike_run (hD : IsUpperSet D) (P : Char → Bool) : Alike D (run P) (run P) := fun c hc =>
  ⟨(quiet_run P).agree c, (ensures_run P c).mono fun _ _ h => hD h.1.le hc⟩

theorem meet_run1 (P : Char → Bool) (hc : Set.Ioi c ⊆ D) : Meet D (run1 P) (run1 P) c :=
  ⟨(quiet_run1 P).agree c, (ensures_run1 P c).mono fun _ _ h => hc (h.1.lt h.2.1)⟩

theorem meet_text (word : List Char) (hword : word ≠ []) (hc : Set.Ioi c ⊆ D) :
    Meet D (text word) (text word) c :=
  ⟨(quiet_text word).agree c, (ensures_text word c).mono fun _ _ h => hc (h.lt hword)⟩

/-! ## Options and repetitions -/

theorem Meet.option (h : Meet D p q c) (hc : c ∈ D) :
    Meet D (Parser.option p) (Parser.option q) c := by
  rcases h.cases with ⟨hp, hq⟩ | ⟨a, c', hc', hp, hq⟩
  · exact hp.option.meet hq.option hc
  · exact hp.option.meet hq.option hc'

theorem Alike.option (h : Alike D p q) : Alike D (Parser.option p) (Parser.option q) :=
  fun c hc => (h c hc).option hc

/-- Repetitions that read the same make loops that read the same. -/
theorem Alike.manyUpTo (h : Alike D p q) (n : Nat) :
    Alike D (Parser.manyUpTo p n) (Parser.manyUpTo q n) := by
  induction n with
  | zero => exact fun c _ => (fails_manyUpTo_zero p c).meet (fails_manyUpTo_zero q c)
  | succ n ih =>
      intro c hc
      constructor
      · intro t t'
        rw [Parser.manyUpTo, Parser.manyUpTo]
        rcases (h c hc).cases with ⟨hp, hq⟩ | ⟨a, c', hc', hp, hq⟩
        · rw [hp.apply_eq t, hq.apply_eq t']
        · rw [hp.apply_eq t, hq.apply_eq t']
          simp only
          split
          · rfl
          · rcases (ih c' hc').cases with ⟨hp', hq'⟩ | ⟨as, c'', -, hp', hq'⟩
            · rw [hp'.apply_eq, hq'.apply_eq]
            · rw [hp'.apply_eq, hq'.apply_eq]
      · refine ensures_manyUpTo_succ hc ((h c hc).stays.mono fun a c' hc' => ?_)
        exact (ih c' hc').stays

theorem Alike.many (h : Alike D p q) : Alike D (Parser.many p) (Parser.many q) :=
  fun c hc => (h.manyUpTo (c.rest.length + 1) c hc).of_apply_eq rfl rfl

theorem Meet.leaf (h : Meet D p q c) (rule : Rule) :
    Meet D (Parser.leaf rule p) (Parser.leaf rule q) c :=
  meet_offset_bind (h.bind fun _ _ hc => meet_offset_bind (meet_pure _ hc))

theorem Meet.node {ps qs : Parser (List Match)} (h : Meet D ps qs c) (rule : Rule) :
    Meet D (Parser.node rule ps) (Parser.node rule qs) c :=
  meet_offset_bind (h.bind fun _ _ hc => meet_offset_bind (meet_pure _ hc))

end Parser

namespace Grammar

open Playbooks.Parser

/-! ## Words -/

section Words

variable {α : Type} {D : Set Cursor} {p q : Parser α} {c : Cursor}

theorem alike_layout (hD : IsUpperSet D) : Alike D layout layout :=
  fun c hc => ⟨fun _ _ => rfl, (ensures_layout c).mono fun _ _ h => hD h hc⟩

theorem meet_lexeme (hD : IsUpperSet D) (h : Meet D p q c) : Meet D (lexeme p) (lexeme q) c :=
  h.bind fun a => (alike_layout hD).bind fun _ => alike_pure a

theorem meet_keyword (word : String) (hword : word.toList ≠ []) (hc : Set.Ioi c ⊆ D) :
    Meet D (keyword word) (keyword word) c :=
  ((meet_text _ hword hc).bind fun _ => alike_notAhead _).expect _

theorem meet_ident (hD : IsUpperSet D) (hc : Set.Ioi c ⊆ D) : Meet D ident ident c :=
  (((meet_satisfy _ hc).bind fun _ => alike_run hD _).expect _).leaf _

theorem meet_string (hD : IsUpperSet D) (hc : Set.Ioi c ⊆ D) : Meet D string string c := by
  refine (Meet.bind ((meet_satisfy _ hc).expect _) fun _ => ?_).leaf _
  refine (alike_run hD _).bind fun _ c' hc' => ?_
  exact (meet_satisfy _ (hD.Ioi_subset hc')).expect _

theorem meet_number (hc : Set.Ioi c ⊆ D) : Meet D number number c := by
  -- The sign may be missing, so that the places at and after the cursor are the ones to stay in.
  have hfrom : IsUpperSet (Set.Ici c) := isUpperSet_Ici c
  have hfraction : Alike (Set.Ici c) (do let _ ← satisfy (· == '.'); run1 Char.isDigit)
      (do let _ ← satisfy (· == '.'); run1 Char.isDigit) := by
    intro c' hc'
    refine (meet_satisfy _ (hfrom.Ioi_subset hc')).bind fun _ c'' hc'' => ?_
    exact meet_run1 _ (hfrom.Ioi_subset hc'')
  have hsign : Meet (Set.Ici c) (option (satisfy (· == '-'))) (option (satisfy (· == '-'))) c :=
    (meet_satisfy _ (hfrom.Ioi_subset (le_refl c))).option (le_refl c)
  have hnumber : Meet (Set.Ici c) number number c := by
    refine Meet.leaf (hsign.bind fun _ => Alike.bind ?_ fun _ =>
      hfraction.option.bind fun _ => alike_notAhead _) _
    exact fun c' hc' => (meet_run1 _ (hfrom.Ioi_subset hc')).expect _
  exact ⟨hnumber.agree, (formed_number c).mono fun _ _ h => hc h.lt⟩

theorem meet_bool (hc : Set.Ioi c ⊆ D) : Meet D bool bool c :=
  ((meet_keyword _ (by decide) hc).orElse (meet_keyword _ (by decide) hc)).leaf _

theorem meet_sentence (hc : Set.Ioi c ⊆ D) : Meet D sentence sentence c := by
  refine (((meet_run1 _ hc).bind fun cs c' hc' => ?_).expect _).leaf _
  split
  · exact meet_pure () hc'
  · exact meet_fail

end Words

/-! ## Values -/

section Values

variable {D : Set Cursor} {p q v w s s' : Parser Match} {c : Cursor}

theorem meet_comma (hD : IsUpperSet D) (hc : Set.Ioi c ⊆ D) : Meet D comma comma c :=
  meet_lexeme hD (meet_mark ',' hc)

theorem alike_separated (hD : IsUpperSet D) (h : Alike D p q) :
    Alike D (separated p) (separated q) := by
  have hitem : Alike D (lexeme p) (lexeme q) := fun c hc => meet_lexeme hD (h c hc)
  have hnext : Alike D (comma >>= fun _ => lexeme p) (comma >>= fun _ => lexeme q) :=
    Alike.bind (fun c hc => meet_comma hD (hD.Ioi_subset hc)) fun _ => hitem
  refine hitem.option.bind fun first => ?_
  cases first with
  | none => exact alike_pure []
  | some first => exact hnext.many.bind fun others => alike_pure (first :: others)

theorem alike_listUpTo (hD : IsUpperSet D) (close : Char) (h : Alike D v w) :
    Alike D (listUpTo close v) (listUpTo close w) := by
  refine (alike_separated hD h).bind fun items => Alike.bind ?_ fun _ => Alike.bind ?_ fun _ => ?_
  · exact fun c hc => meet_comma hD (hD.Ioi_subset hc)
  · exact fun c hc => meet_mark close (hD.Ioi_subset hc)
  · exact alike_pure items

theorem meet_array (hD : IsUpperSet D) (hc : Set.Ioi c ⊆ D) (h : Alike D v w) :
    Meet D (array v) (array w) c :=
  ((meet_lexeme hD (meet_mark '[' hc)).bind fun _ => alike_listUpTo hD ']' h).node _

theorem meet_pair (hD : IsUpperSet D) (hc : Set.Ioi c ⊆ D) (h : Alike D v w) :
    Meet D (pair v) (pair w) c := by
  refine (((meet_ident hD hc).orElse (meet_string hD hc)).bind fun key => ?_).node _
  refine (alike_layout hD).bind fun _ => Alike.bind ?_ fun _ => ?_
  · exact fun c hc => meet_lexeme hD (meet_mark ':' (hD.Ioi_subset hc))
  · exact h.bind fun content => alike_pure [key, content]

theorem alike_closePairs (hD : IsUpperSet D) (ms : List Match) :
    Alike D (closePairs ms) (closePairs ms) := by
  have hclose : Alike D (mark '\x7d' >>= fun _ => pure ms) (mark '\x7d' >>= fun _ => pure ms) :=
    Alike.bind (fun c hc => meet_mark '\x7d' (hD.Ioi_subset hc)) fun _ => alike_pure ms
  have hcomma : Alike D comma comma := fun c hc => meet_comma hD (hD.Ioi_subset hc)
  rw [closePairs]
  split
  · exact hcomma.option.bind fun _ => hclose
  · exact hclose

theorem meet_object (hD : IsUpperSet D) (hc : Set.Ioi c ⊆ D) (h : Alike D v w) :
    Meet D (object v) (object w) c := by
  have hpairs : Alike D (separated (pair v)) (separated (pair w)) :=
    alike_separated hD fun c hc => meet_pair hD (hD.Ioi_subset hc) h
  rw [object_eq, object_eq]
  exact ((meet_lexeme hD (meet_mark '\x7b' hc)).bind fun _ =>
    hpairs.bind fun ms => alike_closePairs hD ms).node _

theorem meet_call (hD : IsUpperSet D) (hc : Set.Ioi c ⊆ D) (h : Alike D v w) :
    Meet D (call v) (call w) c := by
  refine ((meet_ident hD hc).bind fun name => Alike.bind ?_ fun _ => ?_).node _
  · exact fun c hc => meet_lexeme hD (meet_mark '(' (hD.Ioi_subset hc))
  · exact (alike_listUpTo hD ')' h).bind fun args => alike_pure (name :: args)

theorem meet_segment (hD : IsUpperSet D) (hc : Set.Ioi c ⊆ D) :
    Meet D (dotSegment <|> bracketSegment) (dotSegment <|> bracketSegment) c := by
  refine Meet.orElse ?_ ?_
  · refine (meet_mark '.' hc).bind fun _ c' hc' => ?_
    exact ((meet_run1 _ (hD.Ioi_subset hc')).expect _).leaf _
  · refine (meet_mark '[' hc).bind fun _ => Alike.bind ?_ fun segment => Alike.bind ?_ fun _ => ?_
    · exact fun c hc => meet_sentence (hD.Ioi_subset hc)
    · exact fun c hc => meet_mark ']' (hD.Ioi_subset hc)
    · exact alike_pure segment

theorem meet_index (hD : IsUpperSet D) (hc : Set.Ioi c ⊆ D) : Meet D index index c := by
  have hsegment : Alike D (dotSegment <|> bracketSegment) (dotSegment <|> bracketSegment) :=
    fun c hc => meet_segment hD (hD.Ioi_subset hc)
  refine ((meet_ident hD hc).bind fun head => Alike.bind ?_ fun segments => ?_).node _
  · exact hsegment.bind fun first => hsegment.many.bind fun others => alike_pure (first :: others)
  · exact alike_pure (head :: segments)

theorem meet_group (hD : IsUpperSet D) (hc : Set.Ioi c ⊆ D) (h : Alike D s s') :
    Meet D (group s) (group s') c := by
  refine (meet_lexeme hD (meet_mark '(' hc)).bind fun _ => h.bind fun inner => ?_
  refine (alike_layout hD).bind fun _ => Alike.bind ?_ fun _ => alike_pure inner
  exact fun c hc => meet_mark ')' (hD.Ioi_subset hc)

/-- The first operand stands at the cursor, the others at later places. -/
theorem meet_chain (hD : IsUpperSet D) (rule : Rule) (isOperator : Char → Bool)
    (h : Meet D p q c) (hall : Alike D p q) :
    Meet D (chain rule isOperator p) (chain rule isOperator q) c := by
  have hoperator : Alike D (operator isOperator) (operator isOperator) := by
    refine (alike_layout hD).bind fun _ => Alike.bind ?_ fun sign => ?_
    · exact fun c hc => (meet_satisfy _ (hD.Ioi_subset hc)).leaf _
    · exact (alike_layout hD).bind fun _ => alike_pure sign
  have hstep : Alike D (operator isOperator >>= fun sign => p >>= fun next => pure [sign, next])
      (operator isOperator >>= fun sign => q >>= fun next => pure [sign, next]) :=
    hoperator.bind fun sign => hall.bind fun next => alike_pure [sign, next]
  refine meet_offset_bind (h.bind fun first => hstep.many.bind fun others => ?_)
  intro c' hc'
  refine meet_offset_bind ?_
  split
  · exact meet_pure first hc'
  · exact meet_pure _ hc'

theorem meet_atom (hD : IsUpperSet D) (hc : Set.Ioi c ⊆ D) (hv : Alike D v w)
    (hs : Alike D s s') : Meet D (atom v s) (atom w s') c :=
  (meet_number hc).orElse ((meet_group hD hc hs).orElse
    ((meet_call hD hc hv).orElse (meet_index hD hc)))

/-- Sums over given values and nested sums. -/
def sumOf (value sum : Parser Match) : Parser Match :=
  chain .sum (fun c => c == '+' || c == '-') (product value sum)

theorem meet_sumOf (hD : IsUpperSet D) (hc : Set.Ioi c ⊆ D) (hv : Alike D v w)
    (hs : Alike D s s') : Meet D (sumOf v s) (sumOf w s') c := by
  have hatom (c : Cursor) (hc : Set.Ioi c ⊆ D) : Meet D (atom v s) (atom w s') c :=
    meet_atom hD hc hv hs
  have hproduct (c : Cursor) (hc : Set.Ioi c ⊆ D) : Meet D (product v s) (product w s') c :=
    meet_chain hD _ _ (hatom c hc) fun c hc => hatom c (hD.Ioi_subset hc)
  exact meet_chain hD _ _ (hproduct c hc) fun c hc => hproduct c (hD.Ioi_subset hc)

end Values

end Grammar

end Playbooks
