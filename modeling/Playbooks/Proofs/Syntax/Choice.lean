import Mathlib.Logic.Function.Iterate
import Playbooks.Proofs.Syntax.Limit
import Playbooks.Proofs.Syntax.Reading

/-!
# The ordered choice of values

The grammar describes a value by an ordered choice in which a call and an index expression stand
before arithmetic, each only where no operator follows. The parser leaves these two alternatives
out, since arithmetic hands a lone operand back unchanged. As long as the levels of nesting last,
the two read the same.

## Main definitions

* `ValueRules`: the two rules that values and sums are nested by.
* `ValueRules.merged`, `ValueRules.ordered`: one level of nesting, by the rule of the parser and by
  the ordered choice.
* `ValueRules.Obey`: rules that are one level of nesting over themselves, so nest without a limit.
* `WithinLimit`: what is read does not depend on what stands at the limit of nesting.
* `NeverRefuses`: the parser does not get to the limit of nesting.

## Main results

* `Grammar.withinLimit_of_neverRefuses`: where the parser does not get to the limit, what stands
  there plays no role.
* `Grammar.value_eq_ordered_choice`: values are read as the ordered choice reads them.
-/
namespace Playbooks

namespace Parser

variable {α : Type} {p : Parser α} {c c' : Cursor} {a : α}

/-- Succeeds without reading anything where the parser fails. -/
def absent (p : Parser α) : Parser Unit := fun c t =>
  match p c t with
  | (some _, t') => (none, t')
  | (none, t') => (some ((), c), t')

theorem Fails.absent (h : p.Fails c) : (absent p).Reads c () c := by
  intro t
  rw [Parser.absent, h.apply_eq t]

theorem Reads.absent (h : p.Reads c a c') : (Parser.absent p).Fails c := by
  intro t
  rw [Parser.absent, h.apply_eq t]

theorem Reads.not_fails (h : p.Reads c a c') : ¬ p.Fails c := by
  intro hfails
  have := (hfails {}).symm.trans (h {})
  cases this

end Parser

namespace Grammar

open Playbooks.Parser

/-- The parser, where no operator of arithmetic follows it. -/
def unlessOperator (p : Parser Match) : Parser Match := do
  let m ← p
  absent do
    layout
    satisfy isSign
  pure m

/-- The rules for values and for sums. -/
structure ValueRules where
  value : Parser Match
  sum : Parser Match

namespace ValueRules

/-- Values and sums over nested ones, by the rule of the parser. -/
def merged (g : ValueRules) : ValueRules where
  value := array g.value <|> bool <|> g.sum <|> object g.value <|> string
  sum := sumOf g.value g.sum

/-- Values and sums over nested ones, by the ordered choice: a call and an index expression are
tried before arithmetic, and taken where no operator follows. -/
def ordered (g : ValueRules) : ValueRules where
  value := array g.value <|> bool <|> unlessOperator (call g.value) <|> unlessOperator index
    <|> g.sum <|> object g.value <|> string
  sum := sumOf g.value g.sum

/-- The rules read what one level of nesting over them reads. -/
structure Obey (step : ValueRules → ValueRules) (g : ValueRules) : Prop where
  value (c : Cursor) (t t' : Tracker) : (g.value c t).1 = ((step g).value c t').1
  sum (c : Cursor) (t t' : Tracker) : (g.sum c t).1 = ((step g).sum c t').1

/-- What stands where the levels of nesting are used up. -/
def limit : ValueRules where
  value := refuse .shallowerNesting
  sum := refuse .shallowerNesting

/-- The limit with an alarm: getting there is reported at an offset of choice. -/
def alarm (far : Nat) : ValueRules where
  value _ t := (none, t.fail far .shallowerNesting)
  sum _ t := (none, t.fail far .shallowerNesting)

/-- The levels of the parser. -/
theorem iterate_merged (n : Nat) : merged^[n] limit = ⟨Grammar.value n, Grammar.sum n⟩ := by
  induction n with
  | zero => rfl
  | succ n ih =>
      rw [Function.iterate_succ_apply', ih]
      rfl

end ValueRules

open ValueRules

/-- With `n` levels of nesting the same is read from the cursor whatever stands at the limit. -/
def WithinLimit (n : Nat) (c : Cursor) : Prop :=
  ∀ (bottom : ValueRules) (t : Tracker),
    ((merged^[n] bottom).value c t).1 = (value n c t).1

/-- With `n` levels of nesting the parser never refuses a value or a sum for being nested too
deeply: an alarm at the limit is not raised. -/
def NeverRefuses (n : Nat) (c : Cursor) : Prop :=
  ∃ far, ((merged^[n] (alarm far)).value c {}).2.furthest < far

/-! ## Levels of nesting -/

section Levels

variable {D : Set Cursor} {g g' : ValueRules} {c c' : Cursor}

/-- One level of nesting reads the same over rules that agree at later places; a value may be a sum
at the cursor itself. -/
structure Nests (step : ValueRules → ValueRules) : Prop where
  value {D : Set Cursor} {g g' : ValueRules} {c : Cursor} : IsUpperSet D → Set.Ioi c ⊆ D →
    Alike D g.value g'.value → Meet D g.sum g'.sum c → Meet D (step g).value (step g').value c
  sum {D : Set Cursor} {g g' : ValueRules} {c : Cursor} : IsUpperSet D → Set.Ioi c ⊆ D →
    Alike D g.value g'.value → Alike D g.sum g'.sum → Meet D (step g).sum (step g').sum c

theorem nests_merged : Nests merged where
  value hD hc hvalue hsum :=
    (meet_array hD hc hvalue).orElse ((meet_bool hc).orElse (hsum.orElse
      ((meet_object hD hc hvalue).orElse (meet_string hD hc))))
  sum hD hc hvalue hsum := meet_sumOf hD hc hvalue hsum

/-- Whether an operator follows does not depend on reports. -/
theorem fails_or_reads_sign (c : Cursor) : (layout >>= fun _ => satisfy isSign).Fails c
    ∨ ∃ x c', (layout >>= fun _ => satisfy isSign).Reads c x c' := by
  refine fails_or_reads (Meet.agree (D := Set.univ) ?_)
  refine (alike_layout isUpperSet_univ c trivial).bind fun _ c' _ => ?_
  exact meet_satisfy _ (Set.subset_univ _)

theorem alike_absent_sign : Alike D (absent (layout >>= fun _ => satisfy isSign))
    (absent (layout >>= fun _ => satisfy isSign)) := by
  intro c hc
  rcases fails_or_reads_sign c with h | ⟨x, c', h⟩
  · exact h.absent.meet h.absent hc
  · exact h.absent.meet h.absent

theorem meet_unlessOperator {p q : Parser Match} (h : Meet D p q c) :
    Meet D (unlessOperator p) (unlessOperator q) c :=
  h.bind fun m => alike_absent_sign.bind fun _ => alike_pure m

theorem nests_ordered : Nests ordered where
  value hD hc hvalue hsum :=
    (meet_array hD hc hvalue).orElse ((meet_bool hc).orElse
      ((meet_unlessOperator (meet_call hD hc hvalue)).orElse
        ((meet_unlessOperator (meet_index hD hc)).orElse (hsum.orElse
          ((meet_object hD hc hvalue).orElse (meet_string hD hc))))))
  sum hD hc hvalue hsum := meet_sumOf hD hc hvalue hsum

/-- Levels for two visits of a place and of every place after it. -/
def levels (c : Cursor) : Nat :=
  2 * c.rest.length

theorem levels_lt (h : c < c') : levels c' + 2 ≤ levels c := by
  have := Cursor.length_lt_of_lt h
  simp only [levels]
  omega

/-- Every level of nesting that is not a sum at the same place reads a character first, so what is
left bounds the levels that are used, and it does not matter what stands below them. -/
theorem meet_iterate {step : ValueRules → ValueRules} (hstep : Nests step)
    (bottom bottom' : ValueRules) (n : Nat) : ∀ (m : Nat) (c : Cursor),
    (levels c + 2 ≤ n → levels c + 2 ≤ m →
      Meet (Set.Ioi c) (step^[n] bottom).value (step^[m] bottom').value c)
    ∧ (levels c + 1 ≤ n → levels c + 1 ≤ m →
      Meet (Set.Ioi c) (step^[n] bottom).sum (step^[m] bottom').sum c) := by
  induction n with
  | zero => exact fun m c => ⟨fun h => by omega, fun h => by omega⟩
  | succ n ih =>
      intro m c
      cases m with
      | zero => exact ⟨fun _ h => by omega, fun _ h => by omega⟩
      | succ m =>
          rw [Function.iterate_succ_apply', Function.iterate_succ_apply']
          have hafter (c' : Cursor) (h : c < c') : Set.Ioi c' ⊆ Set.Ioi c :=
            Set.Ioi_subset_Ioi (le_of_lt h)
          have hvalue (hn : levels c ≤ n) (hm : levels c ≤ m) :
              Alike (Set.Ioi c) (step^[n] bottom).value (step^[m] bottom').value := by
            intro c' hc'
            have := levels_lt hc'
            exact ((ih m c').1 (by omega) (by omega)).mono (hafter c' hc')
          have hsum (hn : levels c ≤ n) (hm : levels c ≤ m) :
              Alike (Set.Ioi c) (step^[n] bottom).sum (step^[m] bottom').sum := by
            intro c' hc'
            have := levels_lt hc'
            exact ((ih m c').2 (by omega) (by omega)).mono (hafter c' hc')
          constructor
          · intro hn hm
            exact hstep.value (isUpperSet_Ioi c) subset_rfl (hvalue (by omega) (by omega))
              ((ih m c).2 (by omega) (by omega))
          · intro hn hm
            exact hstep.sum (isUpperSet_Ioi c) subset_rfl (hvalue (by omega) (by omega))
              (hsum (by omega) (by omega))

/-- A short text does not reach the limit. -/
theorem withinLimit_of_levels {n : Nat} (h : levels c + 2 ≤ n) : WithinLimit n c := by
  intro bottom t
  have hmeet := (meet_iterate nests_merged bottom limit n n c).1 h h
  rw [iterate_merged] at hmeet
  exact hmeet.agree t t

end Levels

/-! ## The limit of nesting -/

section Limit

variable {far : Nat} {g g' : ValueRules}

/-- Getting to the limit raises the alarm. -/
theorem agreeBelow_alarm (far : Nat) (bottom : ValueRules) :
    AgreeBelow far (alarm far).value bottom.value ∧ AgreeBelow far (alarm far).sum bottom.sum := by
  have hraised (t : Tracker) : ¬ (t.fail far .shallowerNesting).furthest < far := by
    rw [Tracker.furthest_fail]
    exact not_lt.mpr (le_max_right t.furthest far)
  exact ⟨fun c t t' hlow => absurd hlow (hraised t), fun c t t' hlow => absurd hlow (hraised t)⟩

theorem agreeBelow_merged (hvalue : AgreeBelow far g.value g'.value)
    (hsum : AgreeBelow far g.sum g'.sum) :
    AgreeBelow far (merged g).value (merged g').value
      ∧ AgreeBelow far (merged g).sum (merged g').sum := by
  refine ⟨?_, agreeBelow_sumOf hvalue hsum⟩
  exact (agreeBelow_array hvalue).orElse (agreeBelow_bool.orElse (hsum.orElse
    ((agreeBelow_object hvalue).orElse agreeBelow_string)))

/-- As long as the alarm is not raised, it does not matter what stands at the limit. -/
theorem agreeBelow_iterate (far : Nat) (bottom : ValueRules) (n : Nat) :
    AgreeBelow far (merged^[n] (alarm far)).value (merged^[n] bottom).value
      ∧ AgreeBelow far (merged^[n] (alarm far)).sum (merged^[n] bottom).sum := by
  induction n with
  | zero => exact agreeBelow_alarm far bottom
  | succ n ih =>
      rw [Function.iterate_succ_apply', Function.iterate_succ_apply']
      exact agreeBelow_merged ih.1 ih.2

/-- A text of any length is within the limit if the parser never refuses to nest deeper. -/
theorem withinLimit_of_neverRefuses {n : Nat} {c : Cursor} (h : NeverRefuses n c) :
    WithinLimit n c := by
  obtain ⟨far, hlow⟩ := h
  intro bottom t
  have hbottom := ((agreeBelow_iterate far bottom n).1 c {} t hlow).2
  have hlimit := ((agreeBelow_iterate far limit n).1 c {} t hlow).2
  rw [iterate_merged] at hlimit
  exact hbottom.trans hlimit.symm

end Limit

/-! ## Nesting without a limit -/

/-- Values and sums with as many levels as the rest of the text can use. -/
def unlimited (step : ValueRules → ValueRules) : ValueRules where
  value c := (step^[levels c + 2] limit).value c
  sum c := (step^[levels c + 1] limit).sum c

theorem obey_unlimited {step : ValueRules → ValueRules} (hstep : Nests step) :
    Obey step (unlimited step) := by
  have hvalue (c : Cursor) (n : Nat) (hn : levels c ≤ n) :
      Alike (Set.Ioi c) (step^[n] limit).value (unlimited step).value := by
    intro c' hc'
    have := levels_lt hc'
    have hmeet := (meet_iterate hstep limit limit n (levels c' + 2) c').1 (by omega) (by omega)
    exact (hmeet.mono (Set.Ioi_subset_Ioi (le_of_lt hc'))).of_apply_eq rfl rfl
  have hsum (c : Cursor) (n : Nat) (hn : levels c ≤ n) :
      Alike (Set.Ioi c) (step^[n] limit).sum (unlimited step).sum := by
    intro c' hc'
    have := levels_lt hc'
    have hmeet := (meet_iterate hstep limit limit n (levels c' + 1) c').2 (by omega) (by omega)
    exact (hmeet.mono (Set.Ioi_subset_Ioi (le_of_lt hc'))).of_apply_eq rfl rfl
  have hlast (n : Nat) : step (step^[n] limit) = step^[n + 1] limit :=
    (Function.iterate_succ_apply' step n limit).symm
  constructor
  · intro c
    have hhere : Meet (Set.Ioi c) (step^[levels c + 1] limit).sum (unlimited step).sum c :=
      ((meet_iterate hstep limit limit _ _ c).2 le_rfl le_rfl).of_apply_eq rfl rfl
    have hmeet := hstep.value (isUpperSet_Ioi c) subset_rfl (hvalue c _ (by omega)) hhere
    rw [hlast] at hmeet
    exact hmeet.agree
  · intro c
    have hmeet := hstep.sum (isUpperSet_Ioi c) subset_rfl (hvalue c _ le_rfl) (hsum c _ le_rfl)
    rw [hlast] at hmeet
    exact hmeet.agree

/-! ## Lone operands -/

section Operands

variable {v s r : Parser Match} {m name : Match} {c c₁ c' : Cursor}

theorem fails_operator_of_sign {isOperator : Char → Bool}
    (hsign : ∀ x, isOperator x = true → isSign x = true)
    (h : (layout >>= fun _ => satisfy isSign).Fails c) : (operator isOperator).Fails c := by
  let c₁ := skipLayout false c.rest c.offset
  have hlayout : layout.Reads c () c₁ := fun _ => rfl
  have hhead : c₁.rest.head?.any isSign = false := by
    cases hrest : c₁.rest with
    | nil => rfl
    | cons x rest =>
        rw [List.head?_cons, Option.any_some, ← Bool.not_eq_true]
        intro hx
        have hreads := hlayout.bind (f := fun _ => satisfy isSign)
          (reads_satisfy (Cursor.took_advance hrest) hx)
        have := (h {}).symm.trans (hreads {})
        cases this
  exact hlayout.bind_fails (fails_satisfy (any_false_mono hhead hsign)).leaf.bind

/-- An operand with no operator after it is a sum. -/
theorem reads_sumOf_of_atom (h : (atom v s).Reads c m c')
    (hsign : (layout >>= fun _ => satisfy isSign).Fails c') : (sumOf v s).Reads c m c' :=
  reads_chain_of_fails
    (reads_chain_of_fails h (fails_operator_of_sign isSign_of_multiplicative hsign))
    (fails_operator_of_sign isSign_of_additive hsign)

theorem reads_ident_of_head (h : ¬ ident.Fails c) : ∃ name c₁, ident.Reads c name c₁ := by
  have hident : Meet Set.univ ident ident c := meet_ident isUpperSet_univ (Set.subset_univ _)
  rcases fails_or_reads hident.agree with hfails | hreads
  · exact absurd hfails h
  · exact hreads

/-- A call has a parenthesis after its name. -/
theorem reads_ident_of_call (h : (call v).Reads c m c') :
    ∃ name c₁, ident.Reads c name c₁ ∧ c₁.rest.head? = some '(' := by
  obtain ⟨name, c₁, hname⟩ := reads_ident_of_head fun hfails => h.not_fails hfails.bind.node
  refine ⟨name, c₁, hname, ?_⟩
  by_contra hhead
  have hopen : (lexeme (mark '(')).Fails c₁ := fails_lexeme (fails_mark hhead)
  exact h.not_fails (hname.bind_fails hopen.bind).node

/-- Neither a number nor a group starts with a name. -/
theorem fails_of_reads_ident (h : ident.Reads c name c₁) : number.Fails c ∧ (group s).Fails c := by
  obtain ⟨-, text, htook, hident, -⟩ := h.of_ensures (ensures_ident c)
  exact fails_number_and_group (starts_of_isIdent hident) htook

theorem fails_index_of_paren (h : ident.Reads c name c₁) (hhead : c₁.rest.head? = some '(') :
    index.Fails c := by
  have hdot : dotSegment.Fails c₁ := (fails_mark (by rw [hhead]; decide)).bind
  have hbracket : bracketSegment.Fails c₁ := (fails_mark (by rw [hhead]; decide)).bind
  exact (h.bind_fails (hdot.orElse hbracket).bind.bind).node

theorem reads_unlessOperator {p : Parser Match} (h : p.Reads c m c')
    (hsign : (layout >>= fun _ => satisfy isSign).Fails c') : (unlessOperator p).Reads c m c' :=
  h.bind (hsign.absent.bind (reads_pure m c'))

theorem fails_unlessOperator {p : Parser Match} {x : Char} (h : p.Reads c m c')
    (hsign : (layout >>= fun _ => satisfy isSign).Reads c' x c₁) : (unlessOperator p).Fails c :=
  h.bind_fails hsign.absent.bind

/-- A call or an index expression with no operator after it is what arithmetic reads at its place,
and where an operator follows it is left to arithmetic. -/
theorem meet_operands (hv : Alike Set.univ v v) (hsum : Meet Set.univ s (sumOf v s) c)
    (hr : Meet Set.univ r r c) :
    Meet Set.univ (unlessOperator (call v) <|> unlessOperator index <|> s <|> r) (s <|> r) c := by
  have hup := Set.subset_univ (Set.Ioi c)
  have hself : Meet Set.univ s s c :=
    ⟨fun t t' => (hsum.agree t {}).trans (hsum.agree t' {}).symm, fun _ _ _ _ => trivial⟩
  have hrest : Meet Set.univ (s <|> r) (s <|> r) c := hself.orElse hr
  have hlone {m : Match} {c' : Cursor} (hatom : (atom v s).Reads c m c')
      (hsign : (layout >>= fun _ => satisfy isSign).Fails c') : s.Reads c m c' :=
    fun t => (hsum.agree t t).trans (reads_sumOf_of_atom hatom hsign t)
  rcases fails_or_reads (meet_call isUpperSet_univ hup hv).agree with hcall | ⟨m, c', hcall⟩
  · refine hcall.bind.orElse_meet ?_
    rcases fails_or_reads (meet_index isUpperSet_univ hup).agree with hindex | ⟨m, c', hindex⟩
    · exact hindex.bind.orElse_meet hrest
    · obtain ⟨name, c₁, hname⟩ :=
        reads_ident_of_head fun hfails => hindex.not_fails hfails.bind.node
      obtain ⟨hnumber, hgroup⟩ := fails_of_reads_ident (s := s) hname
      rcases fails_or_reads_sign c' with hsign | ⟨x, c₂, hsign⟩
      · have hatom : (atom v s).Reads c m c' :=
          hnumber.orElse_reads (hgroup.orElse_reads (hcall.orElse_reads hindex))
        exact (reads_unlessOperator hindex hsign).orElse.meet (hlone hatom hsign).orElse trivial
      · exact (fails_unlessOperator hindex hsign).orElse_meet hrest
  · obtain ⟨name, c₁, hname, hparen⟩ := reads_ident_of_call hcall
    obtain ⟨hnumber, hgroup⟩ := fails_of_reads_ident (s := s) hname
    rcases fails_or_reads_sign c' with hsign | ⟨x, c₂, hsign⟩
    · have hatom : (atom v s).Reads c m c' :=
        hnumber.orElse_reads (hgroup.orElse_reads hcall.orElse)
      exact (reads_unlessOperator hcall hsign).orElse.meet (hlone hatom hsign).orElse trivial
    · refine (fails_unlessOperator hcall hsign).orElse_meet ?_
      exact (fails_index_of_paren hname hparen).bind.orElse_meet hrest

end Operands

/-! ## Both readings of a value -/

section Readings

variable {g : ValueRules}

theorem ValueRules.Obey.alike {step : ValueRules → ValueRules} (hg : Obey step g) :
    Alike Set.univ g.value g.value ∧ Alike Set.univ g.sum g.sum := by
  constructor
  · exact fun c _ => ⟨fun t t' => (hg.value c t {}).trans (hg.value c t' {}).symm,
      fun _ _ _ _ => trivial⟩
  · exact fun c _ => ⟨fun t t' => (hg.sum c t {}).trans (hg.sum c t' {}).symm,
      fun _ _ _ _ => trivial⟩

/-- Rules that follow the ordered choice follow the rule of the parser. -/
theorem ValueRules.Obey.merged_of_ordered (hg : Obey ordered g) : Obey merged g := by
  obtain ⟨hvalue, -⟩ := hg.alike
  refine ⟨fun c => ?_, hg.sum⟩
  have hup := Set.subset_univ (Set.Ioi c)
  have hsum : Meet Set.univ g.sum (sumOf g.value g.sum) c := ⟨hg.sum c, fun _ _ _ _ => trivial⟩
  have hrest : Meet Set.univ (object g.value <|> string) (object g.value <|> string) c :=
    (meet_object isUpperSet_univ hup hvalue).orElse (meet_string isUpperSet_univ hup)
  have hmeet : Meet Set.univ (ordered g).value (merged g).value c :=
    (meet_array isUpperSet_univ hup hvalue).orElse ((meet_bool hup).orElse
      (meet_operands hvalue hsum hrest))
  exact fun t t' => (hg.value c t {}).trans (hmeet.agree {} t')

/-- Any number of levels over rules that follow a level of nesting reads what they read. -/
theorem ValueRules.Obey.alike_iterate {step : ValueRules → ValueRules} (hstep : Nests step)
    (hg : Obey step g) (n : Nat) :
    Alike Set.univ (step^[n] g).value g.value ∧ Alike Set.univ (step^[n] g).sum g.sum := by
  induction n with
  | zero => exact hg.alike
  | succ n ih =>
      obtain ⟨hvalue, hsum⟩ := ih
      rw [Function.iterate_succ_apply']
      constructor
      · intro c hc
        have hmeet := hstep.value isUpperSet_univ (Set.subset_univ (Set.Ioi c)) hvalue (hsum c hc)
        exact ⟨fun t t' => (hmeet.agree t {}).trans (hg.value c t' {}).symm, fun _ _ _ _ => trivial⟩
      · intro c hc
        have hmeet := hstep.sum isUpperSet_univ (Set.subset_univ (Set.Ioi c)) hvalue hsum
        exact ⟨fun t t' => (hmeet.agree t {}).trans (hg.sum c t' {}).symm, fun _ _ _ _ => trivial⟩

/-- There are rules that nest the ordered choice without a limit, and from every place of every
text where the limit of nesting plays no role, values are read as such rules read them: the same
part of the text, with the same match. -/
theorem value_eq_ordered_choice : (∃ g, Obey ordered g) ∧
    ∀ g, Obey ordered g → ∀ n c, WithinLimit n c →
      ∀ t t', (value n c t).1 = (g.value c t').1 := by
  refine ⟨⟨unlimited ordered, obey_unlimited nests_ordered⟩, fun g hg n c hlimit t t' => ?_⟩
  obtain ⟨hvalue, -⟩ := hg.merged_of_ordered.alike_iterate nests_merged n
  calc (value n c t).1 = ((merged^[n] g).value c t).1 := (hlimit g t).symm
    _ = (g.value c t').1 := (hvalue c trivial).agree t t'

/-- An index expression with a comment before the operator. -/
def commentedOperator : Cursor :=
  ⟨"vars.count # n\n+ max(1, 2,)".toList, 0⟩

/-- A call of more characters than half the levels of nesting. -/
def nestedCall : Cursor :=
  ⟨"fetch([\x7b url: vars.base, tries: (1 + max(2, 3,)) \x7d,], 'text',)".toList, 0⟩

theorem value_eq_ordered_choice_commentedOperator : ∃ g, Obey ordered g
    ∧ WithinLimit maxNesting commentedOperator
    ∧ (∀ t t', (value maxNesting commentedOperator t).1 = (g.value commentedOperator t').1)
    ∧ ((value maxNesting commentedOperator {}).1.map fun r => (r.1.rule, r.2.rest))
      = some (.sum, [])
    ∧ maxNesting < levels nestedCall ∧ WithinLimit maxNesting nestedCall
    ∧ (∀ t t', (value maxNesting nestedCall t).1 = (g.value nestedCall t').1)
    ∧ ((value maxNesting nestedCall {}).1.map fun r => (r.1.rule, r.2.rest))
      = some (.call, []) := by
  obtain ⟨⟨g, hg⟩, hvalue⟩ := value_eq_ordered_choice
  have hshort : WithinLimit maxNesting commentedOperator := withinLimit_of_levels (by decide)
  have hlong : WithinLimit maxNesting nestedCall :=
    withinLimit_of_neverRefuses ⟨100, by decide +kernel⟩
  refine ⟨g, hg, hshort, hvalue g hg maxNesting commentedOperator hshort, by decide +kernel, ?_⟩
  exact ⟨by decide, hlong, hvalue g hg maxNesting nestedCall hlong, by decide +kernel⟩

end Readings

end Grammar

end Playbooks
