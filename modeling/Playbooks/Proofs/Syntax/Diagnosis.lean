import Playbooks.Proofs.Syntax.Failures

/-!
# Explained failures

A failed reading ends with a report, so there is something that was expected at the furthest offset.
Different things are described by different words, and no thing is reported twice at an offset.

A playbook is read statement by statement. Each statement reads something, so the loop over them
ends, and reading fails only for what is left after it. The place of the failure is not before that.

## Main definitions

* `Tracker.Tidy`: what holds of every tracker of the grammar.
* `Parser.Reports`: a parser that does not fail in silence.
* `Grammar.statements`: the statements of a playbook, up to the first thing that is none.
* `Diagnostic.Explains`: a diagnostic that names a place of the source and what was expected there.

## Main results

* `failure_explained`: a failed reading gives one diagnostic, which explains it.
-/
namespace Playbooks

open Playbooks.Parser Grammar

/-! ## Descriptions -/

/-- Different labels are described differently: words and marks stand between backticks, and no
keyword is a single character. -/
theorem Expected.describe_inj {a b : Expected} (ha : a.IsLabel) (hb : b.IsLabel)
    (h : a.describe = b.describe) : a = b := by
  have hlong : ∀ word ∈ keywords, word.toList.length ≠ 1 := by decide
  have hchars : a.describe.toList = b.describe.toList := congrArg String.toList h
  cases a <;> cases b <;> simp [describe, IsLabel] at hchars ha hb ⊢
  case word.word => exact String.toList_inj.mp hchars
  case word.mark text mark =>
    have hlength := congrArg List.length hchars
    exact hlong text ha (by simpa using hlength)
  case mark.word mark text =>
    have hlength := congrArg List.length hchars
    exact hlong text hb (by simpa using hlength.symm)
  case mark.mark => exact hchars

theorem Expected.nodup_describe {labels : List Expected} (h : labels.Nodup)
    (hlabels : ∀ what ∈ labels, what.IsLabel) : (labels.map describe).Nodup := by
  refine List.pairwise_map.mpr (h.imp_of_mem ?_)
  intro a b ha hb hne heq
  exact hne (describe_inj (hlabels a ha) (hlabels b hb) heq)

/-! ## Trackers -/

namespace Tracker

/-- Labels are reported once each, and an offset is there because something was expected at it. -/
structure Tidy (t : Tracker) : Prop where
  nodup : t.expected.Nodup
  labels : ∀ what ∈ t.expected, what.IsLabel
  reported : t.furthest ≠ 0 → t.expected ≠ []

variable {t : Tracker} {offset : Nat} {what : Expected}

theorem tidy_start : Tidy {} :=
  ⟨List.nodup_nil, by simp, by simp⟩

theorem Tidy.fail (h : t.Tidy) (hwhat : what.IsLabel) (offset : Nat) :
    (t.fail offset what).Tidy := by
  rw [Tracker.fail]
  split
  · exact ⟨by simp, by simpa using hwhat, by simp⟩
  · split
    · next hnew =>
      have hnew : what ∉ t.expected := by simp_all
      refine ⟨?_, ?_, by simp⟩
      · refine List.nodup_append.mpr ⟨h.nodup, by simp, ?_⟩
        intro a ha b hb hab
        simp only [List.mem_singleton] at hb
        exact hnew (hb ▸ hab ▸ ha)
      · intro a ha
        rcases List.mem_append.mp ha with ha | ha
        · exact h.labels a ha
        · simpa [List.mem_singleton.mp ha] using hwhat
    · exact h

/-- After a report something is expected, be it what was reported or what was further. -/
theorem Tidy.expected_fail_ne_nil (h : t.Tidy) (offset : Nat) (what : Expected) :
    (t.fail offset what).expected ≠ [] := by
  rw [Tracker.fail]
  split
  · simp
  · next hle =>
    split
    · simp
    · next hknown =>
      by_cases hoffset : offset = t.furthest
      · have hmem : what ∈ t.expected := by simpa [hoffset] using hknown
        exact List.ne_nil_of_mem hmem
      · exact h.reported (by omega)

theorem stable_tidy (source : List Char) : Stable source Tidy :=
  fun c _ _ _ hwhat h => h.fail hwhat c.offset

end Tracker

/-! ## Parsers that report -/

namespace Parser

variable {α β : Type} {source : List Char} {p q : Parser α} {f : α → Parser β}

/-- If the parser fails, something is expected. -/
def Reports (source : List Char) (p : Parser α) : Prop :=
  ∀ c t, c.In source → t.Tidy → (p c t).1 = none → (p c t).2.expected ≠ []

theorem reports_refuse (what : Expected) : (refuse what : Parser α).Reports source :=
  fun c _ _ ht _ => ht.expected_fail_ne_nil c.offset what

theorem reports_expect (hp : p.Keeps source Tracker.Tidy) (what : Expected) :
    (expect what p).Reports source := by
  intro c t hc ht hfails
  have htidy := (hp c t hc ht).1
  rw [expect_fst] at hfails
  rw [expect]
  rcases hrun : p c t with ⟨_ | r, t'⟩
  · rw [hrun] at htidy
    exact htidy.expected_fail_ne_nil c.offset what
  · rw [hrun] at hfails
    cases hfails

theorem reports_of_total (h : ∀ c t, (p c t).1 ≠ none) : p.Reports source :=
  fun c t _ _ hfails => absurd hfails (h c t)

theorem Reports.bind (hp : p.Reports source) (hkeeps : p.Keeps source Tracker.Tidy)
    (hf : ∀ a, (f a).Reports source) : (p >>= f).Reports source := by
  intro c t hc ht hfails
  have hreport := hp c t hc ht
  obtain ⟨htidy, hin⟩ := hkeeps c t hc ht
  rw [bind_apply] at hfails ⊢
  rcases hrun : p c t with ⟨_ | ⟨a, c'⟩, t'⟩
  · rw [hrun] at hreport
    exact hreport rfl
  · rw [hrun] at hfails htidy hin
    exact hf a c' t' (hin a c' rfl) htidy hfails

/-- An alternative that reports is enough, if it is the last one. -/
theorem Reports.orElse (hq : q.Reports source) (hp : p.Keeps source Tracker.Tidy) :
    (p <|> q).Reports source := by
  intro c t hc ht hfails
  have htidy := (hp c t hc ht).1
  rw [orElse_apply] at hfails ⊢
  rcases hrun : p c t with ⟨_ | r, t'⟩
  · rw [hrun] at hfails htidy
    exact hq c t' hc htidy hfails
  · rw [hrun] at hfails
    cases hfails

theorem reports_pure (a : α) : (pure a : Parser α).Reports source :=
  reports_of_total fun _ _ h => by cases h

theorem Reports.leaf (hp : p.Reports source) (hkeeps : p.Keeps source Tracker.Tidy) (rule : Rule) :
    (Parser.leaf rule p).Reports source :=
  (reports_of_total fun _ _ h => by cases h).bind keeps_offset fun _ => hp.bind hkeeps fun _ =>
    (reports_of_total fun _ _ h => by cases h).bind keeps_offset fun _ => reports_pure _

/-! ## Loops -/

/-- A loop whose repetitions all read something ends, if its fuel covers what is left. -/
theorem manyUpTo_ne_none (hp : ∀ c, p.Ensures c fun _ c' => c < c') {n : Nat} {c : Cursor}
    (hfuel : c.rest.length < n) (t : Tracker) : (manyUpTo p n c t).1 ≠ none := by
  induction n generalizing c t with
  | zero => omega
  | succ n ih =>
      rw [manyUpTo]
      rcases hrun : p c t with ⟨_ | ⟨a, c'⟩, t'⟩
      · simp
      · have hlt : c < c' := hp c t a c' (by rw [hrun])
        have hguard : ¬ c'.offset ≤ c.offset := Nat.not_le.mpr (Cursor.offset_lt_of_lt hlt)
        have hshorter : c'.rest.length < n := by
          have := Cursor.length_lt_of_lt hlt
          omega
        have hrest := ih hshorter t'
        simp only [if_neg hguard]
        rcases hmany : manyUpTo p n c' t' with ⟨_ | r, t''⟩
        · rw [hmany] at hrest
          exact absurd rfl hrest
        · simp

theorem many_ne_none (hp : ∀ c, p.Ensures c fun _ c' => c < c') (c : Cursor) (t : Tracker) :
    (many p c t).1 ≠ none :=
  manyUpTo_ne_none hp (Nat.lt_succ_self _) t

end Parser

namespace Grammar

variable {source : List Char}

/-! ## Values -/

theorem reports_string : string.Reports source := by
  have htidy := Tracker.stable_tidy source
  have hopen : (satisfy (· == '\x27')).Keeps source Tracker.Tidy := keeps_satisfy _
  refine Reports.leaf ((reports_expect hopen _).bind (hopen.expect htidy (by trivial)) fun _ => ?_)
    ((hopen.expect htidy (by trivial)).bind fun _ => (keeps_run _).bind fun _ =>
      hopen.expect htidy (by trivial)) _
  exact (reports_of_total fun _ _ h => by cases h).bind (keeps_run _) fun _ =>
    reports_expect hopen _

/-- The last alternative of a value is a string, which reports. -/
theorem reports_value (n : Nat) : (value n).Reports source := by
  have htidy := Tracker.stable_tidy source
  cases n with
  | zero => exact reports_refuse _
  | succ n =>
      obtain ⟨hvalue, hsum⟩ := keeps_value_and_sum htidy n
      exact ((((reports_string.orElse (keeps_object htidy hvalue)).orElse hsum).orElse
        (keeps_bool htidy)).orElse (keeps_array htidy hvalue))

theorem reports_endOfInput : endOfInput.Reports source := by
  intro c t hc ht hfails
  rw [endOfInput] at hfails ⊢
  split at hfails
  · cases hfails
  · next hrest =>
    rw [if_neg hrest]
    exact reports_refuse (α := Unit) .endOfInput c t hc ht rfl

theorem reports_loneValue : loneValue.Reports source := by
  have htidy := Tracker.stable_tidy source
  have hlayout : layout.Reports source := reports_of_total fun _ _ h => by cases h
  refine hlayout.bind keeps_layout fun _ => ?_
  refine Reports.bind (p := lexeme (value maxNesting)) ?_ (keeps_lexeme (keeps_value htidy _))
    fun content => ?_
  · exact (reports_value _).bind (keeps_value htidy _) fun _ =>
      hlayout.bind keeps_layout fun _ => reports_pure _
  · exact reports_endOfInput.bind (keeps_endOfInput htidy) fun _ => reports_pure content

/-! ## Statements -/

/-- The statements of a playbook, each with the layout after it, up to the first thing that is no
statement. -/
def statements : Parser (List Match) := do
  layout
  many (lexeme (pair (value maxNesting) <|> block maxNesting))

theorem keeps_statements {I : Tracker → Prop} (hI : Tracker.Stable source I) :
    statements.Keeps source I :=
  keeps_layout.bind fun _ =>
    (keeps_lexeme ((keeps_pair hI (keeps_value hI _)).orElse (keeps_block hI _))).many

theorem lt_of_statement (c : Cursor) :
    (lexeme (pair (value maxNesting) <|> block maxNesting)).Ensures c fun _ c' => c < c' :=
  lt_of_lexeme (((formed_pair (formed_value _) c).orElse (formed_block _ c)).mono fun _ _ h => h.lt)

/-- After its statements, a playbook ends or is refused. -/
theorem entry_of_statements {c c' : Cursor} {t t' : Tracker} {ms : List Match}
    (h : statements c t = (some (ms, c'), t')) :
    entry c t = if c'.rest.isEmpty then (some (.node .entry c.offset c'.offset ms, c'), t')
      else (none, t'.fail c'.offset .endOfInput) := by
  simp only [statements, bind_apply, layout] at h
  simp only [entry, node, bind_apply, Parser.offset, layout, h, endOfInput]
  cases c'.rest.isEmpty
  · rfl
  · rfl

/-- The statements of a playbook are always read, so the playbook is refused only for what stands
after them, and this is the last thing that is reported. -/
theorem statements_of_entry_fails {c : Cursor} {t t' : Tracker} (h : entry c t = (none, t')) :
    ∃ ms c₁ t₁, statements c t = (some (ms, c₁), t₁) ∧ t' = t₁.fail c₁.offset .endOfInput := by
  have htotal : (statements c t).1 ≠ none := many_ne_none lt_of_statement _ t
  rcases hrun : statements c t with ⟨_ | ⟨ms, c₁⟩, t₁⟩
  · rw [hrun] at htotal
    exact absurd rfl htotal
  · refine ⟨ms, c₁, t₁, rfl, ?_⟩
    rw [entry_of_statements hrun] at h
    split at h
    · cases h
    · cases h
      rfl

end Grammar

/-! ## Diagnostics -/

/-- The advice on what was expected. -/
def advice : List Expected → String
  | [only] => "expected " ++ only.describe
  | labels => "expected one of: " ++ ", ".intercalate (labels.map Expected.describe)

/-- A position as messages give it. -/
def Position.place (p : Position) : String :=
  " at line " ++ toString p.line ++ ", column " ++ toString p.column

/-- The diagnostic is about the place of the source where the span starts. It blames the character
there, or the end of the source, and advises what was expected. -/
structure Diagnostic.Explains (d : Diagnostic) (source : List Char) (s : Span) : Prop where
  boundary : Text.IsBoundary source s.start
  character : s.start < Text.byteSize source → ∃ before x after, source = before ++ x :: after
    ∧ s.start = Text.byteSize before ∧ s.stop = s.start + x.utf8Size
    ∧ d.code = some .unexpectedInput
    ∧ d.message = "unexpected character " ++ String.ofList (Text.quotedChar x)
      ++ (Position.of source s.start).place
  ending : ¬ s.start < Text.byteSize source → s.stop = s.start ∧ d.code = some .incompleteInput
    ∧ d.message = "unexpected end of input" ++ (Position.of source s.start).place
  help : ∃ labels, labels ≠ [] ∧ (labels.map Expected.describe).Nodup
    ∧ (∀ what ∈ labels, what.IsLabel) ∧ d.help = some (advice labels)

namespace SyntaxError

variable {e : SyntaxError} {source : List Char}

theorem help?_eq (h : e.expected ≠ []) : e.help? = some (advice e.expected) := by
  rw [help?]
  match hexpected : e.expected with
  | [] => exact absurd hexpected h
  | [_] => rfl
  | _ :: _ :: _ => rfl

/-- The diagnostic of a failure at a place of the source explains it. -/
theorem explains_diagnostic (hoffset : Text.IsBoundary source e.offset)
    (hexpected : e.expected ≠ []) (hnodup : e.expected.Nodup)
    (hlabels : ∀ what ∈ e.expected, what.IsLabel) :
    ∃ l, (e.diagnostic source).labels = [l] ∧ l.span.start = e.offset
      ∧ (e.diagnostic source).Explains source l.span := by
  have hhelp : ∃ labels, labels ≠ [] ∧ (labels.map Expected.describe).Nodup
      ∧ (∀ what ∈ labels, what.IsLabel) ∧ e.help? = some (advice labels) :=
    ⟨e.expected, hexpected, Expected.nodup_describe hnodup hlabels, hlabels, help?_eq hexpected⟩
  obtain ⟨before, after, hsource, hbefore⟩ := hoffset
  have hdrop : Text.dropBytes e.offset source = some after := by
    rw [hsource, hbefore, Text.dropBytes_append]
  have hsize : Text.byteSize source = e.offset + Text.byteSize after := by
    rw [hsource, Text.byteSize_append, hbefore]
  simp only [diagnostic, hdrop, Option.bind_some]
  cases after with
  | nil =>
      simp only [List.head?_nil]
      have hend : ¬ e.offset < Text.byteSize source := by simp [hsize]
      refine ⟨_, rfl, rfl, ⟨before, [], hsource, hbefore⟩, fun h => absurd h hend, fun _ => ?_,
        hhelp⟩
      exact ⟨Nat.max_self e.offset, rfl, rfl⟩
  | cons x after =>
      simp only [List.head?_cons]
      have hinside : e.offset < Text.byteSize source := by
        have := Char.utf8Size_pos x
        simp [hsize]
        omega
      refine ⟨_, rfl, rfl, ⟨before, x :: after, hsource, hbefore⟩, fun _ => ?_,
        fun h => absurd hinside h, hhelp⟩
      exact ⟨before, x, after, hsource, hbefore, Nat.max_eq_right (Nat.le_add_right _ _), rfl, rfl⟩

end SyntaxError

/-! ## Failed readings -/

variable {rule : Parser Match} {source : List Char}

/-- The only diagnostic of a rejection has a single label and explains where reading got stuck. -/
theorem explains_of_reject {t : Tracker}
    (hfurthest : rule.Keeps source fun t => Text.IsBoundary source t.furthest)
    (htidy : rule.Keeps source Tracker.Tidy) (hrun : rule ⟨source, 0⟩ {} = (none, t))
    (hexpected : t.expected ≠ []) :
    ∃ l, (SyntaxError.diagnostic ⟨t.furthest, t.expected⟩ source).labels = [l]
      ∧ l.span.start = t.furthest
      ∧ (SyntaxError.diagnostic ⟨t.furthest, t.expected⟩ source).Explains source l.span := by
  have hstart := Cursor.in_start source
  have hboundary := (hfurthest ⟨source, 0⟩ {} hstart (Text.isBoundary_zero source)).1
  have hkept := (htidy ⟨source, 0⟩ {} hstart Tracker.tidy_start).1
  rw [hrun] at hboundary hkept
  exact SyntaxError.explains_diagnostic hboundary hexpected hkept.nodup hkept.labels

/-- A source that is rejected, as a playbook or as a value, is rejected with one diagnostic. It has
a single label and explains the failure. For a playbook the label does not start before the place
that reading has got to after the last statement and its layout. -/
theorem failure_explained (source : List Char) :
    (∀ r, parse source = .error r →
      ∃ d l, r.diagnostics = [d] ∧ d.labels = [l] ∧ d.Explains source l.span
        ∧ ∃ ms c t, statements ⟨source, 0⟩ {} = (some (ms, c), t) ∧ c.offset ≤ l.span.start)
    ∧ ∀ r, parseValue source = .error r →
      ∃ d l, r.diagnostics = [d] ∧ d.labels = [l] ∧ d.Explains source l.span := by
  have hfurthest := Tracker.stable_furthest source
  have htidy := Tracker.stable_tidy source
  have hstart := Cursor.in_start source
  constructor
  · intro r h
    obtain ⟨t, hrun, rfl⟩ := runRuleOrReject_eq_error h
    obtain ⟨ms, c, t', hstatements, hlast⟩ := statements_of_entry_fails hrun
    have hkept : t'.Tidy := by
      have := (keeps_statements htidy ⟨source, 0⟩ {} hstart Tracker.tidy_start).1
      rwa [hstatements] at this
    obtain ⟨l, hl, hoffset, hexplains⟩ := explains_of_reject (keeps_entry hfurthest)
      (keeps_entry htidy) hrun (hlast ▸ hkept.expected_fail_ne_nil _ _)
    refine ⟨_, l, rfl, hl, hexplains, ms, c, t', hstatements, ?_⟩
    rw [hoffset, hlast, Tracker.furthest_fail]
    exact Nat.le_max_right _ _
  · intro r h
    obtain ⟨t, hrun, rfl⟩ := runRuleOrReject_eq_error h
    have hexpected : t.expected ≠ [] := by
      have := reports_loneValue ⟨source, 0⟩ {} hstart Tracker.tidy_start
      rw [hrun] at this
      exact this rfl
    obtain ⟨l, hl, -, hexplains⟩ := explains_of_reject (keeps_loneValue hfurthest)
      (keeps_loneValue htidy) hrun hexpected
    exact ⟨_, l, rfl, hl, hexplains⟩

/-- A bare word in the place of a value, after a pair and a comment of two bytes a letter. -/
theorem failure_explained_bare_word :
    let source := "name: 'x' # é\nmotto: ü".toList
    ∃ r v, parse source = .error r ∧ parseValue source = .error v
      ∧ (∃ d l, r.diagnostics = [d] ∧ d.labels = [l] ∧ d.Explains source l.span
        ∧ ∃ ms c t, statements ⟨source, 0⟩ {} = (some (ms, c), t) ∧ c.offset ≤ l.span.start)
      ∧ ∃ d l, v.diagnostics = [d] ∧ d.labels = [l] ∧ d.Explains source l.span := by
  intro source
  obtain ⟨r, hr⟩ : ∃ r, parse source = .error r :=
    exists_of_isNone_toOption (by decide +kernel)
  obtain ⟨v, hv⟩ : ∃ v, parseValue source = .error v :=
    exists_of_isNone_toOption (by decide +kernel)
  obtain ⟨hplaybook, hvalue⟩ := failure_explained source
  exact ⟨r, v, hr, hv, hplaybook r hr, hvalue v hv⟩

end Playbooks
