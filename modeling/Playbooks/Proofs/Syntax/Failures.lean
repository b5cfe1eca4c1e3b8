import Playbooks.Proofs.Syntax.Trees

/-!
# Reported failures

A parser reports failures at the places it has got to, and these are places of the source. What
holds of a tracker and is kept by every report at such a place is therefore kept by every rule of
the grammar, whether the rule succeeds or fails. In particular the furthest failure lies between two
characters of the source.

## Main definitions

* `Text.IsBoundary`: an offset between two characters.
* `Span.PointsInto`: a span that is a part of a source.
* `Parser.Keeps`: the reports of a parser keep a property of trackers.

## Main results

* `Grammar.keeps_entry`: so do those of the whole grammar.
* `isBoundary_of_runRule_error`, `SyntaxError.pointsInto_diagnostic`: a failed reading is blamed on
  a part of the source.
-/
namespace Playbooks

/-! ## Offsets between characters -/

namespace Text

/-- The offset lies between two characters of the text, or at one of its ends. -/
def IsBoundary (text : List Char) (offset : Nat) : Prop :=
  ∃ before after, text = before ++ after ∧ offset = byteSize before

variable {text : List Char} {offset : Nat}

theorem IsBoundary.le (h : IsBoundary text offset) : offset ≤ byteSize text := by
  obtain ⟨before, after, rfl, rfl⟩ := h
  rw [byteSize_append]
  omega

theorem isBoundary_zero (text : List Char) : IsBoundary text 0 :=
  ⟨[], text, rfl, rfl⟩

/-- The character after an offset ends at an offset of the same kind. -/
theorem IsBoundary.add_utf8Size (h : IsBoundary text offset) {x : Char} {rest : List Char}
    (hdrop : dropBytes offset text = some (x :: rest)) :
    IsBoundary text (offset + x.utf8Size) := by
  obtain ⟨before, after, rfl, rfl⟩ := h
  rw [dropBytes_append] at hdrop
  cases hdrop
  exact ⟨before ++ [x], rest, by simp, by simp⟩

end Text

/-- The span is a part of the source: it ends inside the source, and no character is cut. -/
structure Span.PointsInto (s : Span) (source : List Char) : Prop where
  start_le_stop : s.start ≤ s.stop
  stop_le : s.stop ≤ Text.byteSize source
  start : Text.IsBoundary source s.start
  stop : Text.IsBoundary source s.stop

theorem Span.pointsInto_ofBounds {source : List Char} {start stop : Nat} (hle : start ≤ stop)
    (hstart : Text.IsBoundary source start) (hstop : Text.IsBoundary source stop) :
    (Span.ofBounds start stop).PointsInto source := by
  have hmax : max start stop = stop := Nat.max_eq_right hle
  refine ⟨?_, ?_, hstart, ?_⟩
  · rw [start_ofBounds, stop_ofBounds, hmax]
    exact hle
  · rw [stop_ofBounds, hmax]
    exact hstop.le
  · rw [stop_ofBounds, hmax]
    exact hstop

theorem Cursor.In.isBoundary {c : Cursor} {source : List Char} (h : c.In source) :
    Text.IsBoundary source c.offset := by
  obtain ⟨before, hsource, hoffset⟩ := h
  exact ⟨before, c.rest, hsource, by simpa using hoffset⟩

/-! ## Properties of trackers -/

/-- The words that the grammar sets apart. -/
def keywords : List String :=
  ["true", "false", "block", "rescue", "always"]

/-- What rules of the grammar report: of words, the keywords. -/
def Expected.IsLabel : Expected → Prop
  | .word text => text ∈ keywords
  | _ => True

/-- A property that every report at a place of the source keeps. -/
def Tracker.Stable (source : List Char) (I : Tracker → Prop) : Prop :=
  ∀ (c : Cursor) (t : Tracker) (what : Expected), c.In source → what.IsLabel → I t →
    I (t.fail c.offset what)

theorem Tracker.stable_furthest (source : List Char) :
    Tracker.Stable source fun t => Text.IsBoundary source t.furthest := by
  intro c t what hc _ ht
  rw [Tracker.fail]
  split
  · exact hc.isBoundary
  · split
    · exact ht
    · exact ht

namespace Parser

variable {α β : Type} {source : List Char} {I : Tracker → Prop} {p q : Parser α}
  {f : α → Parser β}

/-- From a place of the source the parser gets to places of the source only, and its reports keep
the property. -/
def Keeps (source : List Char) (I : Tracker → Prop) (p : Parser α) : Prop :=
  ∀ c t, c.In source → I t →
    I (p c t).2 ∧ ∀ a c', (p c t).1 = some (a, c') → c'.In source

/-! ## Parsers without reports -/

theorem keeps_of_quiet (hquiet : p.Quiet) (hle : ∀ c, p.Ensures c fun _ c' => c ≤ c') :
    p.Keeps source I := by
  intro c t hc ht
  refine ⟨by rwa [hquiet.snd_eq], fun a c' h => ?_⟩
  exact hc.of_le (hle c t a c' h)

theorem keeps_pure (a : α) : (pure a : Parser α).Keeps source I :=
  keeps_of_quiet (quiet_pure a) fun c => ensures_pure (le_refl c)

theorem keeps_fail : (fail : Parser α).Keeps source I :=
  keeps_of_quiet quiet_fail fun c => (fails_fail c).ensures

theorem keeps_offset : offset.Keeps source I :=
  keeps_of_quiet quiet_offset fun c => (reads_offset c).ensures (le_refl c)

theorem keeps_satisfy (P : Char → Bool) : (satisfy P).Keeps source I :=
  keeps_of_quiet (quiet_satisfy P) fun c => (ensures_satisfy P c).mono fun _ _ h => h.2.le

theorem keeps_notAhead (P : Char → Bool) : (notAhead P).Keeps source I :=
  keeps_of_quiet (quiet_notAhead P) fun c =>
    (ensures_notAhead P c).mono fun _ _ h => h.1 ▸ le_refl c

theorem keeps_run (P : Char → Bool) : (run P).Keeps source I :=
  keeps_of_quiet (quiet_run P) fun c => (ensures_run P c).mono fun _ _ h => h.1.le

theorem keeps_run1 (P : Char → Bool) : (run1 P).Keeps source I :=
  keeps_of_quiet (quiet_run1 P) fun c => (ensures_run1 P c).mono fun _ _ h => h.1.le

theorem keeps_text (word : List Char) : (text word).Keeps source I :=
  keeps_of_quiet (quiet_text word) fun c => (ensures_text word c).mono fun _ _ h => h.le

/-! ## Combinators -/

theorem Keeps.bind (hp : p.Keeps source I) (hf : ∀ a, (f a).Keeps source I) :
    (p >>= f).Keeps source I := by
  intro c t hc ht
  obtain ⟨hI, hin⟩ := hp c t hc ht
  rw [bind_apply]
  rcases hpt : p c t with ⟨_ | ⟨a, c'⟩, t'⟩
  · rw [hpt] at hI
    exact ⟨hI, fun _ _ h => by cases h⟩
  · rw [hpt] at hI hin
    exact hf a c' t' (hin a c' rfl) hI

theorem Keeps.orElse (hp : p.Keeps source I) (hq : q.Keeps source I) :
    (p <|> q).Keeps source I := by
  intro c t hc ht
  have hpt := hp c t hc ht
  rw [orElse_apply]
  rcases hrun : p c t with ⟨_ | ⟨a, c'⟩, t'⟩
  · rw [hrun] at hpt
    exact hq c t' hc hpt.1
  · rw [hrun] at hpt
    exact hpt

theorem keeps_refuse (hI : Tracker.Stable source I) {what : Expected} (hwhat : what.IsLabel) :
    (refuse what : Parser α).Keeps source I :=
  fun c t hc ht => ⟨hI c t what hc hwhat ht, fun _ _ h => by cases h⟩

theorem Keeps.expect (hI : Tracker.Stable source I) (hp : p.Keeps source I) {what : Expected}
    (hwhat : what.IsLabel) : (Parser.expect what p).Keeps source I := by
  intro c t hc ht
  have hpt := hp c t hc ht
  rw [Parser.expect]
  rcases hrun : p c t with ⟨_ | ⟨a, c'⟩, t'⟩
  · rw [hrun] at hpt
    exact ⟨hI c t' what hc hwhat hpt.1, fun _ _ h => by cases h⟩
  · rw [hrun] at hpt
    exact hpt

theorem keeps_mark (hI : Tracker.Stable source I) (x : Char) : (mark x).Keeps source I :=
  ((keeps_satisfy _).bind fun _ => keeps_pure ()).expect hI (by trivial)

theorem Keeps.option (hp : p.Keeps source I) : (Parser.option p).Keeps source I := by
  intro c t hc ht
  obtain ⟨hI, hin⟩ := hp c t hc ht
  rw [Parser.option]
  rcases hrun : p c t with ⟨_ | ⟨a, c'⟩, t'⟩
  · rw [hrun] at hI
    refine ⟨hI, fun r c' h => ?_⟩
    cases h
    exact hc
  · rw [hrun] at hI hin
    refine ⟨hI, fun r c'' h => ?_⟩
    cases h
    exact hin a c' rfl

/-- What one repetition keeps, the loop keeps. -/
theorem Keeps.manyUpTo (hp : p.Keeps source I) (n : Nat) :
    (Parser.manyUpTo p n).Keeps source I := by
  induction n with
  | zero => exact fun c t hc ht => ⟨ht, fun _ _ h => by cases h⟩
  | succ n ih =>
      intro c t hc ht
      obtain ⟨hI, hin⟩ := hp c t hc ht
      rw [Parser.manyUpTo]
      rcases hrun : p c t with ⟨_ | ⟨a, c'⟩, t'⟩
      · rw [hrun] at hI
        refine ⟨hI, fun as c' h => ?_⟩
        cases h
        exact hc
      · rw [hrun] at hI hin
        simp only
        split
        · exact ⟨hI, fun _ _ h => by cases h⟩
        · obtain ⟨hI', hin'⟩ := ih c' t' (hin a c' rfl) hI
          rcases hrest : Parser.manyUpTo p n c' t' with ⟨_ | ⟨as, c''⟩, t''⟩
          · rw [hrest] at hI'
            exact ⟨hI', fun _ _ h => by cases h⟩
          · rw [hrest] at hI' hin'
            refine ⟨hI', fun bs c₃ h => ?_⟩
            cases h
            exact hin' as c'' rfl

theorem Keeps.many (hp : p.Keeps source I) : (Parser.many p).Keeps source I :=
  fun c t hc ht => hp.manyUpTo (c.rest.length + 1) c t hc ht

theorem Keeps.many1 (hp : p.Keeps source I) : (Parser.many1 p).Keeps source I :=
  hp.bind fun _ => hp.many.bind fun _ => keeps_pure _

theorem Keeps.leaf (hp : p.Keeps source I) (rule : Rule) : (Parser.leaf rule p).Keeps source I :=
  keeps_offset.bind fun _ => hp.bind fun _ => keeps_offset.bind fun _ => keeps_pure _

theorem Keeps.node {r : Parser (List Match)} (hr : r.Keeps source I) (rule : Rule) :
    (Parser.node rule r).Keeps source I :=
  keeps_offset.bind fun _ => hr.bind fun _ => keeps_offset.bind fun _ => keeps_pure _

end Parser

namespace Grammar

open Playbooks.Parser

variable {α : Type} {source : List Char} {I : Tracker → Prop} {p : Parser α}

theorem keeps_layout : layout.Keeps source I :=
  keeps_of_quiet (fun _ _ _ => rfl) ensures_layout

theorem keeps_lexeme (hp : p.Keeps source I) : (lexeme p).Keeps source I :=
  hp.bind fun a => keeps_layout.bind fun _ => keeps_pure a

theorem keeps_operator (isOperator : Char → Bool) : (operator isOperator).Keeps source I :=
  keeps_layout.bind fun _ => ((keeps_satisfy isOperator).leaf _).bind fun sign =>
    keeps_layout.bind fun _ => keeps_pure sign

theorem keeps_chain {operand : Parser Match} (rule : Rule) (isOperator : Char → Bool)
    (h : operand.Keeps source I) : (chain rule isOperator operand).Keeps source I := by
  have hstep : (operator isOperator >>= fun sign => operand >>= fun next =>
      pure [sign, next]).Keeps source I :=
    (keeps_operator isOperator).bind fun sign => h.bind fun next => keeps_pure [sign, next]
  refine keeps_offset.bind fun start => h.bind fun first => hstep.many.bind fun others =>
    keeps_offset.bind fun stop => ?_
  split
  · exact keeps_pure first
  · exact keeps_pure _

theorem keeps_body {block : Parser Match} (h : block.Keeps source I) :
    (body block).Keeps source I :=
  keeps_offset.bind fun _ => (keeps_lexeme h).many1.bind fun _ => keeps_pure _

section Rules

variable (hI : Tracker.Stable source I) {value sum block element : Parser Match}

include hI

/-! ## Words -/

theorem keeps_keyword {word : String} (hword : word ∈ keywords) :
    (keyword word).Keeps source I :=
  ((keeps_text _).bind fun _ => keeps_notAhead _).expect hI hword

theorem keeps_ident : ident.Keeps source I :=
  (((keeps_satisfy _).bind fun _ => keeps_run _).expect hI (by trivial)).leaf _

theorem keeps_string : string.Keeps source I :=
  Keeps.leaf (((keeps_satisfy _).expect hI (by trivial)).bind fun _ =>
    (keeps_run _).bind fun _ => (keeps_satisfy _).expect hI (by trivial)) _

theorem keeps_number : number.Keeps source I := by
  have hfraction : (do let _ ← satisfy (· == '.'); run1 Char.isDigit).Keeps source I :=
    (keeps_satisfy _).bind fun _ => keeps_run1 _
  exact Keeps.leaf ((keeps_satisfy _).option.bind fun _ =>
    ((keeps_run1 _).expect hI (by trivial)).bind fun _ => hfraction.option.bind fun _ =>
      keeps_notAhead _) _

theorem keeps_bool : bool.Keeps source I :=
  ((keeps_keyword hI (by decide)).orElse (keeps_keyword hI (by decide))).leaf _

theorem keeps_sentence : sentence.Keeps source I := by
  refine (Keeps.expect hI ((keeps_run1 _).bind fun cs => ?_) (by trivial)).leaf _
  split
  · exact keeps_pure ()
  · exact keeps_fail

/-! ## Values -/

theorem keeps_comma : comma.Keeps source I :=
  keeps_lexeme (keeps_mark hI ',')

theorem keeps_separated (h : element.Keeps source I) : (separated element).Keeps source I := by
  refine (keeps_lexeme h).option.bind fun first => ?_
  cases first with
  | none => exact keeps_pure []
  | some first =>
      have hnext := (keeps_comma hI).bind fun _ => keeps_lexeme h
      exact hnext.many.bind fun others => keeps_pure (first :: others)

theorem keeps_listUpTo (close : Char) (h : value.Keeps source I) :
    (listUpTo close value).Keeps source I :=
  (keeps_separated hI h).bind fun items => (keeps_comma hI).bind fun _ =>
    (keeps_mark hI close).bind fun _ => keeps_pure items

theorem keeps_array (h : value.Keeps source I) : (array value).Keeps source I :=
  ((keeps_lexeme (keeps_mark hI '[')).bind fun _ => keeps_listUpTo hI ']' h).node _

theorem keeps_pair (h : value.Keeps source I) : (pair value).Keeps source I :=
  (((keeps_ident hI).orElse (keeps_string hI)).bind fun key => keeps_layout.bind fun _ =>
    (keeps_lexeme (keeps_mark hI ':')).bind fun _ => h.bind fun content =>
      keeps_pure [key, content]).node _

theorem keeps_closePairs (ms : List Match) : (closePairs ms).Keeps source I := by
  have hclose : (mark '\x7d' >>= fun _ => pure ms).Keeps source I :=
    (keeps_mark hI '\x7d').bind fun _ => keeps_pure ms
  rw [closePairs]
  split
  · exact (keeps_comma hI).option.bind fun _ => hclose
  · exact hclose

theorem keeps_object (h : value.Keeps source I) : (object value).Keeps source I := by
  rw [object_eq]
  exact ((keeps_lexeme (keeps_mark hI '\x7b')).bind fun _ =>
    (keeps_separated hI (keeps_pair hI h)).bind (keeps_closePairs hI)).node _

theorem keeps_call (h : value.Keeps source I) : (call value).Keeps source I :=
  ((keeps_ident hI).bind fun name => (keeps_lexeme (keeps_mark hI '(')).bind fun _ =>
    (keeps_listUpTo hI ')' h).bind fun args => keeps_pure (name :: args)).node _

theorem keeps_segment : (dotSegment <|> bracketSegment).Keeps source I := by
  refine Keeps.orElse ?_ ?_
  · exact (keeps_mark hI '.').bind fun _ => ((keeps_run1 _).expect hI (by trivial)).leaf _
  · exact (keeps_mark hI '[').bind fun _ => (keeps_sentence hI).bind fun segment =>
      (keeps_mark hI ']').bind fun _ => keeps_pure segment

theorem keeps_index : index.Keeps source I :=
  ((keeps_ident hI).bind fun head => (keeps_segment hI).many1.bind fun segments =>
    keeps_pure (head :: segments)).node _

theorem keeps_group (h : sum.Keeps source I) : (group sum).Keeps source I :=
  (keeps_lexeme (keeps_mark hI '(')).bind fun _ => h.bind fun inner => keeps_layout.bind fun _ =>
    (keeps_mark hI ')').bind fun _ => keeps_pure inner

theorem keeps_product (hvalue : value.Keeps source I) (hsum : sum.Keeps source I) :
    (product value sum).Keeps source I :=
  keeps_chain _ _ ((keeps_number hI).orElse ((keeps_group hI hsum).orElse
    ((keeps_call hI hvalue).orElse (keeps_index hI))))

theorem keeps_value_and_sum (n : Nat) :
    (Grammar.value n).Keeps source I ∧ (Grammar.sum n).Keeps source I := by
  induction n with
  | zero => exact ⟨keeps_refuse hI (by trivial), keeps_refuse hI (by trivial)⟩
  | succ n ih =>
      obtain ⟨hvalue, hsum⟩ := ih
      refine ⟨?_, keeps_chain _ _ (keeps_product hI hvalue hsum)⟩
      exact (keeps_array hI hvalue).orElse ((keeps_bool hI).orElse (hsum.orElse
        ((keeps_object hI hvalue).orElse (keeps_string hI))))

theorem keeps_value (n : Nat) : (Grammar.value n).Keeps source I :=
  (keeps_value_and_sum hI n).1

/-! ## Blocks -/

theorem keeps_simpleBlock (h : value.Keeps source I) : (simpleBlock value).Keeps source I :=
  ((keeps_ident hI).bind fun label => keeps_layout.bind fun _ => (keeps_mark hI '[').bind fun _ =>
    (keeps_sentence hI).bind fun description => (keeps_lexeme (keeps_mark hI ']')).bind fun _ =>
      (keeps_lexeme (keeps_mark hI '\x7b')).bind fun _ =>
        (keeps_lexeme (keeps_pair hI h)).many1.bind fun pairs =>
          (keeps_mark hI '\x7d').bind fun _ => keeps_pure (label :: description :: pairs)).node _

theorem keeps_clause (rule : Rule) {word : String} (hword : word ∈ keywords)
    (h : block.Keeps source I) : (clause rule word block).Keeps source I :=
  ((keeps_lexeme (keeps_keyword hI hword)).bind fun _ =>
    (keeps_lexeme (keeps_mark hI '\x7b')).bind fun _ => (keeps_lexeme h).many1.bind fun blocks =>
      (keeps_mark hI '\x7d').bind fun _ => keeps_pure blocks).node _

theorem keeps_compoundBlock (hvalue : value.Keeps source I) (hblock : block.Keeps source I) :
    (compoundBlock value block).Keeps source I := by
  have hclause (rule : Rule) {word : String} (hword : word ∈ keywords) :
      (option (layout >>= fun _ => clause rule word block)).Keeps source I :=
    (keeps_layout.bind fun _ => keeps_clause hI rule hword hblock).option
  exact ((keeps_lexeme (keeps_keyword hI (by decide))).bind fun _ =>
    (keeps_lexeme (keeps_mark hI '\x7b')).bind fun _ =>
      (keeps_lexeme (keeps_pair hI hvalue)).many.bind fun _ => (keeps_body hblock).bind fun _ =>
        (keeps_mark hI '\x7d').bind fun _ => (hclause _ (by decide)).bind fun _ =>
          (hclause _ (by decide)).bind fun _ => keeps_pure _).node _

theorem keeps_block (n : Nat) : (Grammar.block n).Keeps source I := by
  induction n with
  | zero => exact keeps_refuse hI (by trivial)
  | succ n ih =>
      exact (keeps_simpleBlock hI (keeps_value hI n)).orElse
        (keeps_compoundBlock hI (keeps_value hI n) ih)

/-! ## Whole sources -/

theorem keeps_endOfInput : endOfInput.Keeps source I := by
  intro c t hc ht
  rw [endOfInput]
  split
  · exact ⟨ht, fun _ c' h => by cases h; exact hc⟩
  · exact keeps_refuse hI (by trivial) c t hc ht

/-- A property of trackers that reports at places of the source keep holds after reading a
playbook. -/
theorem keeps_entry : entry.Keeps source I :=
  (keeps_layout.bind fun _ => (keeps_lexeme
    ((keeps_pair hI (keeps_value hI _)).orElse (keeps_block hI _))).many.bind fun statements =>
      (keeps_endOfInput hI).bind fun _ => keeps_pure statements).node _

theorem keeps_loneValue : loneValue.Keeps source I :=
  keeps_layout.bind fun _ => (keeps_lexeme (keeps_value hI _)).bind fun content =>
    (keeps_endOfInput hI).bind fun _ => keeps_pure content

end Rules

end Grammar

/-- The furthest failure of a rule that reports at places of the source lies between two
characters. -/
theorem isBoundary_of_runRule_error {rule : Parser Match} {source : List Char} {e : SyntaxError}
    (hrule : rule.Keeps source fun t => Text.IsBoundary source t.furthest)
    (h : runRule rule source = .error e) : Text.IsBoundary source e.offset := by
  have hkept := (hrule ⟨source, 0⟩ {} (Cursor.in_start source) (Text.isBoundary_zero source)).1
  rw [runRule] at h
  rcases hrun : rule ⟨source, 0⟩ {} with ⟨_ | ⟨m, c'⟩, t⟩
  · rw [hrun] at h hkept
    cases h
    exact hkept
  · rw [hrun] at h
    cases h

/-- The diagnostic of a failed reading points at a character of the source, or at its end. -/
theorem SyntaxError.pointsInto_diagnostic {e : SyntaxError} {source : List Char}
    (h : Text.IsBoundary source e.offset) {l : Label} (hl : l ∈ (e.diagnostic source).labels) :
    l.span.PointsInto source := by
  rw [diagnostic] at hl
  split at hl
  · next found hfound =>
    obtain ⟨rest, hdrop, hhead⟩ := Option.bind_eq_some_iff.mp hfound
    obtain ⟨others, rfl⟩ := List.head?_eq_some_iff.mp hhead
    obtain rfl := List.mem_singleton.mp hl
    exact Span.pointsInto_ofBounds (Nat.le_add_right _ _) h (h.add_utf8Size hdrop)
  · obtain rfl := List.mem_singleton.mp hl
    exact Span.pointsInto_ofBounds (Nat.le_refl _) h h

end Playbooks
