import Playbooks.Proofs.Syntax.Words
import Playbooks.Syntax.Parse

/-!
# Trees of accepted sources

What a rule of the grammar returns is a tree of words: leaves cover words that were read, and the
matches inside another one were read one after the other. What holds of all such trees is proved by
induction on how they are formed, and not rule by rule.

Every word has a character, so no match inside a tree covers nothing and pruning a tree leaves it as
it is.

## Main definitions

* `Grammar.IsWord`: the texts of the rules without parts.
* `Match.Formed`: how a match comes from reading between two cursors.

## Main results

* `Grammar.formed_value`, `Grammar.formed_block`: the trees of values and blocks are formed so.
* `Match.prune_of_solid`: pruning keeps a tree without empty matches.
-/
namespace Playbooks

namespace Match

mutual

/-- No match of the tree covers nothing. -/
def Solid : Match → Prop
  | ⟨_, span, children⟩ => span.start < span.stop ∧ SolidAll children

def SolidAll : List Match → Prop
  | [] => True
  | m :: ms => m.Solid ∧ SolidAll ms

end

theorem Solid.start_lt_stop {m : Match} (h : m.Solid) : m.span.start < m.span.stop := by
  cases m
  exact h.1

mutual

theorem prune_of_solid : (m : Match) → m.Solid → m.prune = m
  | ⟨_, _, children⟩, h => by
    obtain ⟨-, hchildren⟩ := h
    rw [prune, pruneAll_of_solid children hchildren]

theorem pruneAll_of_solid : (ms : List Match) → SolidAll ms → pruneAll ms = ms
  | [], _ => rfl
  | m :: ms, h => by
    obtain ⟨hm, hms⟩ := h
    have hwidth : m.span.isEmpty = false := by
      simpa [Span.isEmpty] using Nat.ne_of_lt hm.start_lt_stop
    rw [pruneAll, if_neg (by simp [hwidth]), prune_of_solid m hm, pruneAll_of_solid ms hms]

end

theorem solid_of_mem {m : Match} {ms : List Match} (h : SolidAll ms) (hm : m ∈ ms) : m.Solid := by
  induction ms with
  | nil => cases hm
  | cons m' ms ih =>
      rcases List.mem_cons.mp hm with rfl | hm
      · exact h.1
      · exact ih h.2 hm

/-- A match of what was read between two cursors. -/
structure Stands (c : Cursor) (m : Match) (c' : Cursor) : Prop where
  solid : m.Solid
  start_le : c.offset ≤ m.span.start
  stop_le : m.span.stop ≤ c'.offset
  lt : c < c'

/-- Matches of what was read between two cursors. -/
structure StandAll (c : Cursor) (ms : List Match) (c' : Cursor) : Prop where
  solid : SolidAll ms
  start_le : ∀ m ∈ ms, c.offset ≤ m.span.start
  stop_le : ∀ m ∈ ms, m.span.stop ≤ c'.offset
  le : c ≤ c'
  lt : ms ≠ [] → c < c'

variable {c c₁ c' c'' : Cursor} {m : Match} {ms : List Match} {rule : Rule}

theorem Stands.stop (h : Stands c m c') (hle : c' ≤ c'') : Stands c m c'' :=
  { h with
    stop_le := Nat.le_trans h.stop_le (Cursor.offset_le_of_le hle)
    lt := lt_of_lt_of_le h.lt hle }

theorem Stands.start (h : Stands c₁ m c') (hle : c ≤ c₁) : Stands c m c' :=
  { h with
    start_le := Nat.le_trans (Cursor.offset_le_of_le hle) h.start_le
    lt := lt_of_le_of_lt hle h.lt }

theorem standAll_nil (h : c ≤ c') : StandAll c [] c' :=
  ⟨trivial, by simp, by simp, h, by simp⟩

theorem Stands.cons (h : Stands c m c') (h' : StandAll c' ms c'') : StandAll c (m :: ms) c'' where
  solid := ⟨h.solid, h'.solid⟩
  start_le := by
    intro m' hm
    rcases List.mem_cons.mp hm with rfl | hm
    · exact h.start_le
    · exact Nat.le_trans (Cursor.offset_le_of_le (le_of_lt h.lt)) (h'.start_le m' hm)
  stop_le := by
    intro m' hm
    rcases List.mem_cons.mp hm with rfl | hm
    · exact Nat.le_trans h.stop_le (Cursor.offset_le_of_le h'.le)
    · exact h'.stop_le m' hm
  le := le_trans (le_of_lt h.lt) h'.le
  lt := fun _ => lt_of_lt_of_le h.lt h'.le

/-- A match over all that was read. -/
theorem StandAll.node (hms : StandAll c ms c') (h : c < c') :
    Stands c (node rule c.offset c'.offset ms) c' := by
  have hwidth := Cursor.offset_lt_of_lt h
  have hmax : max c.offset c'.offset = c'.offset := Nat.max_eq_right (Nat.le_of_lt hwidth)
  refine ⟨⟨?_, hms.solid⟩, Nat.le_refl _, Nat.le_of_eq hmax, h⟩
  rwa [Span.start_ofBounds, Span.stop_ofBounds, hmax]

/-- A match that ends with the last one inside it, which is not empty. -/
theorem StandAll.upToLast (hms : StandAll c ms c') (hne : ms ≠ []) :
    Stands c (Match.node rule c.offset (ms.getLast hne).span.stop ms) c' := by
  have hlast := List.getLast_mem hne
  have hstart := hms.start_le _ hlast
  have hwidth := (solid_of_mem hms.solid hlast).start_lt_stop
  have hmax : max c.offset (ms.getLast hne).span.stop = (ms.getLast hne).span.stop := by omega
  refine ⟨⟨?_, hms.solid⟩, Nat.le_refl _, Nat.le_trans (Nat.le_of_eq hmax) ?_, hms.lt hne⟩
  · rw [Span.start_ofBounds, Span.stop_ofBounds, hmax]
    omega
  · exact hms.stop_le _ hlast

end Match

/-! ## How matches are formed -/

/-- The texts of the rules without parts. -/
def Grammar.IsWord : Rule → List Char → Prop
  | .ident, text => isIdent text = true
  | .string, text => ∃ cs, text = '\x27' :: cs ++ ['\x27'] ∧ ∀ x ∈ cs, isQuotable x = true
  | .number, text => IsNumeral text
  | .bool, text => ∃ b, text = (boolWord b).toList
  | .sentence, text => isSentence text = true
  | .indexSegment, text => text ≠ [] ∧ ∀ x ∈ text, isSegmentChar x = true
  | .operator, text => ∃ x, text = [x]
  | _, _ => False

theorem Grammar.IsWord.ne_nil {rule : Rule} {text : List Char} (h : IsWord rule text) :
    text ≠ [] := by
  cases rule with
  | ident => exact (starts_of_isIdent h).ne_nil
  | string =>
      obtain ⟨cs, rfl, -⟩ := h
      simp
  | number => exact (starts_of_isNumeral h).ne_nil
  | bool =>
      obtain ⟨b, rfl⟩ := h
      exact (starts_of_isIdent (isIdent_boolWord b)).ne_nil
  | sentence => exact (isSentence_iff.mp h).1
  | indexSegment => exact h.1
  | operator =>
      obtain ⟨x, rfl⟩ := h
      simp
  | _ => exact h.elim

namespace Match

open Grammar

mutual

/-- How a match comes from reading between two cursors. -/
inductive Formed : Cursor → Match → Cursor → Prop
  | leaf {c c' : Cursor} {rule : Rule} {text : List Char} (hword : IsWord rule text)
      (h : c.Took text c') : Formed c (leaf rule c.offset c'.offset) c'
  | node {c c' : Cursor} {rule : Rule} {ms : List Match} (hrule : ∀ text, ¬ IsWord rule text)
      (hms : FormedAll c ms c') (hlt : c < c') : Formed c (node rule c.offset c'.offset ms) c'
  | upToLast {c c' : Cursor} {rule : Rule} {ms : List Match} (hrule : ∀ text, ¬ IsWord rule text)
      (hms : FormedAll c ms c') (hne : ms ≠ []) :
      Formed c (node rule c.offset (ms.getLast hne).span.stop ms) c'
  | within {c c₁ c₂ c' : Cursor} {m : Match} (h : Formed c₁ m c₂) (hstart : c ≤ c₁)
      (hstop : c₂ ≤ c') : Formed c m c'

/-- Matches that were read one after the other. -/
inductive FormedAll : Cursor → List Match → Cursor → Prop
  | nil {c c' : Cursor} (h : c ≤ c') : FormedAll c [] c'
  | cons {c c₁ c' : Cursor} {m : Match} {ms : List Match} (h : Formed c m c₁)
      (hms : FormedAll c₁ ms c') : FormedAll c (m :: ms) c'

end

mutual

theorem Formed.stands {c c' : Cursor} {m : Match} : Formed c m c' → Stands c m c'
  | .leaf hword h => (standAll_nil h.le).node (h.lt hword.ne_nil)
  | .node _ hms hlt => hms.standAll.node hlt
  | .upToLast _ hms hne => hms.standAll.upToLast hne
  | .within h hstart hstop => (h.stands.start hstart).stop hstop

theorem FormedAll.standAll {c c' : Cursor} {ms : List Match} : FormedAll c ms c' → StandAll c ms c'
  | .nil h => standAll_nil h
  | .cons h hms => h.stands.cons hms.standAll

end

variable {c c₁ c' c'' : Cursor} {m : Match} {ms : List Match} {rule : Rule}

theorem Formed.lt (h : Formed c m c') : c < c' :=
  h.stands.lt

theorem Formed.start (h : Formed c₁ m c') (hle : c ≤ c₁) : Formed c m c' :=
  .within h hle (le_refl c')

theorem Formed.stop (h : Formed c m c') (hle : c' ≤ c'') : Formed c m c'' :=
  .within h (le_refl c) hle

theorem Formed.single (h : Formed c m c') : FormedAll c [m] c' :=
  .cons h (.nil (le_refl c'))

theorem FormedAll.le (h : FormedAll c ms c') : c ≤ c' :=
  h.standAll.le

theorem FormedAll.start (h : FormedAll c₁ ms c') (hle : c ≤ c₁) : FormedAll c ms c' := by
  cases h with
  | nil h => exact .nil (le_trans hle h)
  | cons h hms => exact .cons (h.start hle) hms

theorem FormedAll.append {c c' c'' : Cursor} {ms ns : List Match} :
    FormedAll c ms c' → FormedAll c' ns c'' → FormedAll c (ms ++ ns) c''
  | .nil h, h' => h'.start h
  | .cons h hms, h' => .cons h (hms.append h')

theorem FormedAll.stop (h : FormedAll c ms c') (hle : c' ≤ c'') : FormedAll c ms c'' := by
  simpa using h.append (.nil hle)

/-- A match that starts with the first one inside it. -/
theorem Formed.around (hrule : ∀ text, ¬ IsWord rule text) (h : Formed c m c₁)
    (hms : FormedAll c₁ ms c') : Formed c (.node rule c.offset c'.offset (m :: ms)) c' :=
  .node hrule (.cons h hms) (lt_of_lt_of_le h.lt hms.le)

/-- A match that starts before the first one inside it. -/
theorem FormedAll.after (hrule : ∀ text, ¬ IsWord rule text) (h : c < c₁)
    (hms : FormedAll c₁ ms c') : Formed c (.node rule c.offset c'.offset ms) c' :=
  .node hrule (hms.start (le_of_lt h)) (lt_of_lt_of_le h hms.le)

end Match

namespace Grammar

open Playbooks.Parser Match

/-! ## Words -/

theorem lt_of_mark (x : Char) (c : Cursor) : (mark x).Ensures c fun _ c' => c < c' :=
  (ensures_mark x c).mono fun _ _ h => h.lt (by simp)

theorem lt_of_keyword {word : String} (hword : word.toList ≠ []) (c : Cursor) :
    (keyword word).Ensures c fun _ c' => c < c' :=
  (ensures_keyword word c).mono fun _ _ h => h.1.lt hword

theorem lt_of_lexeme {α : Type} {p : Parser α} {c : Cursor} (h : p.Ensures c fun _ c' => c < c') :
    (lexeme p).Ensures c fun _ c' => c < c' :=
  ensures_lexeme h fun _ _ _ hlt hle => lt_of_lt_of_le hlt hle

theorem formed_ident (c : Cursor) : ident.Ensures c (Formed c) := by
  refine (ensures_ident c).mono ?_
  rintro m c' ⟨rfl, name, hname, hident, -⟩
  exact .leaf hident hname

theorem formed_string (c : Cursor) : string.Ensures c (Formed c) := by
  refine (ensures_string c).mono ?_
  rintro m c' ⟨rfl, cs, hcs, hquotable⟩
  exact .leaf ⟨cs, rfl, hquotable⟩ hcs

theorem formed_number (c : Cursor) : number.Ensures c (Formed c) := by
  refine (ensures_number c).mono ?_
  rintro m c' ⟨rfl, cs, hcs, hnumeral⟩
  exact .leaf hnumeral hcs

theorem formed_bool (c : Cursor) : bool.Ensures c (Formed c) := by
  refine (ensures_bool c).mono ?_
  rintro m c' ⟨rfl, b, hb, -⟩
  exact .leaf ⟨b, rfl⟩ hb

theorem formed_sentence (c : Cursor) : sentence.Ensures c (Formed c) := by
  refine (ensures_sentence c).mono ?_
  rintro m c' ⟨rfl, cs, hcs, hsentence⟩
  exact .leaf hsentence hcs

/-! ## Repetitions -/

/-- What an object reads after its pairs: a comma, if there is a pair before it, and the brace. -/
def closePairs (ms : List Match) : Parser (List Match) :=
  if !ms.isEmpty then option comma >>= fun _ => mark '\x7d' >>= fun _ => pure ms
  else mark '\x7d' >>= fun _ => pure ms

theorem object_eq (value : Parser Match) : object value
    = node .object (lexeme (mark '\x7b') >>= fun _ => separated (pair value) >>= closePairs) :=
  rfl

/-- Relations of matches, and of lists of matches, to the cursors around them. Layout may stand
between a cursor and the match. -/
structure Listing (R : Cursor → Match → Cursor → Prop) (S : Cursor → List Match → Cursor → Prop) :
    Prop where
  nil {c c' : Cursor} : c ≤ c' → S c [] c'
  cons {c c' c'' : Cursor} {m : Match} {ms : List Match} :
    R c m c' → S c' ms c'' → S c (m :: ms) c''
  start {c c₁ c' : Cursor} {m : Match} : R c₁ m c' → c ≤ c₁ → R c m c'
  stop {c c' c'' : Cursor} {m : Match} : R c m c' → c' ≤ c'' → R c m c''
  stopAll {c c' c'' : Cursor} {ms : List Match} : S c ms c' → c' ≤ c'' → S c ms c''

namespace Listing

variable {R : Cursor → Match → Cursor → Prop} {S : Cursor → List Match → Cursor → Prop}
  {p : Parser Match}

theorem lexeme (h : Listing R S) {c : Cursor} (hp : p.Ensures c (R c)) :
    (lexeme p).Ensures c (R c) :=
  ensures_lexeme hp fun _ _ _ hR hle => h.stop hR hle

theorem many (h : Listing R S) (hp : ∀ c, p.Ensures c (R c)) (c : Cursor) :
    (many p).Ensures c (S c) :=
  ensures_many (Q := S) hp (fun c => h.nil (le_refl c)) (fun _ _ _ _ _ hm hms => h.cons hm hms) c

theorem many1 (h : Listing R S) (hp : ∀ c, p.Ensures c (R c)) (c : Cursor) :
    (many1 p).Ensures c fun ms c' => S c ms c' ∧ ms ≠ [] := by
  refine (hp c).bind fun m c₁ hm => (h.many hp c₁).bind fun ms c₂ hms => ?_
  exact ensures_pure ⟨h.cons hm hms, by simp⟩

theorem separated (h : Listing R S) (hp : ∀ c, p.Ensures c (R c)) (c : Cursor) :
    (separated p).Ensures c (S c) := by
  have hnext (c : Cursor) : (comma >>= fun _ => Grammar.lexeme p).Ensures c (R c) := by
    refine (lt_of_lexeme (lt_of_mark ',' c)).bind fun _ c₁ hcomma => ?_
    exact (h.lexeme (hp c₁)).mono fun _ _ hm => h.start hm (le_of_lt hcomma)
  have hfirst : (option (Grammar.lexeme p)).Ensures c fun first c' =>
      (first = none → c' = c) ∧ ∀ m, first = some m → R c m c' := by
    refine Ensures.option ((h.lexeme (hp c)).mono ?_) ⟨fun _ => rfl, by simp⟩
    intro m c' hm
    exact ⟨by simp, by simpa using hm⟩
  refine hfirst.bind ?_
  rintro (_ | m) c₁ ⟨hnone, hsome⟩
  · rw [hnone rfl]
    exact ensures_pure (h.nil (le_refl c))
  · refine (h.many hnext c₁).bind fun ms c₂ hms => ?_
    exact ensures_pure (h.cons (hsome m rfl) hms)

theorem listUpTo (h : Listing R S) (close : Char) (hp : ∀ c, p.Ensures c (R c)) (c : Cursor) :
    (listUpTo close p).Ensures c (S c) := by
  refine (h.separated hp c).bind fun ms c₁ hms => ?_
  refine (lt_of_lexeme (lt_of_mark ',' c₁)).bind fun _ c₂ hcomma => ?_
  refine (lt_of_mark close c₂).bind fun _ c₃ hclose => ?_
  exact ensures_pure (h.stopAll hms (le_of_lt (lt_trans hcomma hclose)))

/-- The pairs of an object up to the closing brace. -/
theorem closePairs (h : Listing R S) (hp : ∀ c, p.Ensures c (R c)) (c : Cursor) :
    (Grammar.separated p >>= closePairs).Ensures c (S c) := by
  refine (h.separated hp c).bind fun ms c₁ hms => ?_
  have hclose (c₂ : Cursor) (hle : c₁ ≤ c₂) :
      (mark '\x7d' >>= fun _ => pure ms).Ensures c₂ (S c) := by
    refine (lt_of_mark '\x7d' c₂).bind fun _ c₃ hlt => ensures_pure ?_
    exact h.stopAll hms (le_trans hle (le_of_lt hlt))
  rw [Grammar.closePairs]
  split
  · have hcomma : (option comma).Ensures c₁ fun _ c' => c₁ ≤ c' :=
      Ensures.option ((lt_of_lexeme (lt_of_mark ',' c₁)).mono fun _ _ hlt => le_of_lt hlt)
        (le_refl c₁)
    exact hcomma.bind fun _ c₂ hle => hclose c₂ hle
  · exact hclose c₁ (le_refl c₁)

end Listing

theorem listing_formed : Listing Formed FormedAll where
  nil := .nil
  cons := .cons
  start := Formed.start
  stop := Formed.stop
  stopAll := FormedAll.stop

/-! ## Values -/

section Values

variable {value sum : Parser Match}

theorem formed_array (h : ∀ c, value.Ensures c (Formed c)) (c : Cursor) :
    (array value).Ensures c (Formed c) := by
  refine Ensures.node ((lt_of_lexeme (lt_of_mark '[' c)).bind fun _ c₁ hopen => ?_)
  refine (listing_formed.listUpTo ']' h c₁).mono fun ms c₂ hms => ?_
  exact hms.after (by rintro _ ⟨⟩) hopen

theorem formed_pair (h : ∀ c, value.Ensures c (Formed c)) (c : Cursor) :
    (pair value).Ensures c (Formed c) := by
  refine Ensures.node (((formed_ident c).orElse (formed_string c)).bind fun key c₁ hkey => ?_)
  refine (ensures_layout c₁).bind fun _ c₂ hgap => ?_
  refine (lt_of_lexeme (lt_of_mark ':' c₂)).bind fun _ c₃ hcolon => ?_
  refine (h c₃).bind fun content c₄ hcontent => ensures_pure ?_
  exact hkey.around (by rintro _ ⟨⟩) (hcontent.single.start (le_trans hgap (le_of_lt hcolon)))

theorem formed_object (h : ∀ c, value.Ensures c (Formed c)) (c : Cursor) :
    (object value).Ensures c (Formed c) := by
  rw [object_eq]
  refine Ensures.node ((lt_of_lexeme (lt_of_mark '\x7b' c)).bind fun _ c₁ hopen => ?_)
  refine (listing_formed.closePairs (formed_pair h) c₁).mono fun ms c₂ hms => ?_
  exact hms.after (by rintro _ ⟨⟩) hopen

theorem formed_call (h : ∀ c, value.Ensures c (Formed c)) (c : Cursor) :
    (call value).Ensures c (Formed c) := by
  refine Ensures.node ((formed_ident c).bind fun name c₁ hname => ?_)
  refine (lt_of_lexeme (lt_of_mark '(' c₁)).bind fun _ c₂ hopen => ?_
  refine (listing_formed.listUpTo ')' h c₂).bind fun args c₃ hargs => ensures_pure ?_
  exact hname.around (by rintro _ ⟨⟩) (hargs.start (le_of_lt hopen))

theorem formed_dotSegment (c : Cursor) : dotSegment.Ensures c (Formed c) := by
  refine (lt_of_mark '.' c).bind fun _ c₁ hdot => ?_
  refine Ensures.leaf (((ensures_run1 isSegmentChar c₁).expect _).mono ?_)
  rintro cs c₂ ⟨hcs, hne, hsegment, -⟩
  exact .within (.leaf ⟨hne, hsegment⟩ hcs) (le_of_lt hdot) (le_refl c₂)

theorem formed_bracketSegment (c : Cursor) : bracketSegment.Ensures c (Formed c) := by
  refine (lt_of_mark '[' c).bind fun _ c₁ hopen => ?_
  refine (formed_sentence c₁).bind fun m c₂ hm => ?_
  refine (lt_of_mark ']' c₂).bind fun _ c₃ hclose => ensures_pure ?_
  exact .within hm (le_of_lt hopen) (le_of_lt hclose)

theorem formed_index (c : Cursor) : index.Ensures c (Formed c) := by
  have hsegment (c : Cursor) : (dotSegment <|> bracketSegment).Ensures c (Formed c) :=
    (formed_dotSegment c).orElse (formed_bracketSegment c)
  refine Ensures.node ((formed_ident c).bind fun head c₁ hhead => ?_)
  refine (listing_formed.many1 hsegment c₁).bind ?_
  rintro segments c₂ ⟨hsegments, -⟩
  exact ensures_pure (hhead.around (by rintro _ ⟨⟩) hsegments)

theorem formed_operator (isOperator : Char → Bool) (c : Cursor) :
    (operator isOperator).Ensures c (Formed c) := by
  refine (ensures_layout c).bind fun _ c₁ hbefore => ?_
  have hsign : (leaf .operator (satisfy isOperator)).Ensures c₁ (Formed c₁) := by
    refine Ensures.leaf ((ensures_satisfy isOperator c₁).mono ?_)
    rintro x c₂ ⟨-, hx⟩
    exact .leaf ⟨x, rfl⟩ hx
  refine hsign.bind fun m c₂ hm => (ensures_layout c₂).bind fun _ c₃ hafter => ensures_pure ?_
  exact .within hm hbefore hafter

theorem formed_chain {rule : Rule} (hrule : ∀ text, ¬ IsWord rule text) (isOperator : Char → Bool)
    {operand : Parser Match} (h : ∀ c, operand.Ensures c (Formed c)) (c : Cursor) :
    (chain rule isOperator operand).Ensures c (Formed c) := by
  have hstep (c : Cursor) : (operator isOperator >>= fun sign => operand >>= fun next =>
      pure [sign, next]).Ensures c (FormedAll c) := by
    refine (formed_operator isOperator c).bind fun sign c₁ hsign => ?_
    exact (h c₁).bind fun next c₂ hnext => ensures_pure (.cons hsign hnext.single)
  have hsteps (c : Cursor) : (many (operator isOperator >>= fun sign => operand >>= fun next =>
      pure [sign, next])).Ensures c fun others c' => FormedAll c others.flatten c' :=
    ensures_many (Q := fun c others c' => FormedAll c others.flatten c') hstep
      (fun c => .nil (le_refl c)) (fun _ _ _ _ _ hms hrest => hms.append hrest) c
  refine (reads_offset c).ensures_bind ((h c).bind fun first c₁ hfirst => ?_)
  refine (hsteps c₁).bind fun others c₂ hothers => (reads_offset c₂).ensures_bind ?_
  split
  · exact ensures_pure (hfirst.stop hothers.le)
  · exact ensures_pure (hfirst.around hrule hothers)

theorem formed_group (h : ∀ c, sum.Ensures c (Formed c)) (c : Cursor) :
    (group sum).Ensures c (Formed c) := by
  refine (lt_of_lexeme (lt_of_mark '(' c)).bind fun _ c₁ hopen => ?_
  refine (h c₁).bind fun inner c₂ hinner => (ensures_layout c₂).bind fun _ c₃ hgap => ?_
  refine (lt_of_mark ')' c₃).bind fun _ c₄ hclose => ensures_pure ?_
  exact .within hinner (le_of_lt hopen) (le_trans hgap (le_of_lt hclose))

theorem formed_product (hvalue : ∀ c, value.Ensures c (Formed c))
    (hsum : ∀ c, sum.Ensures c (Formed c)) (c : Cursor) :
    (product value sum).Ensures c (Formed c) := by
  refine formed_chain (by rintro _ ⟨⟩) _ (fun c => ?_) c
  exact (formed_number c).orElse ((formed_group hsum c).orElse
    ((formed_call hvalue c).orElse (formed_index c)))

end Values

theorem formed_value_and_sum (n : Nat) :
    (∀ c, (value n).Ensures c (Formed c)) ∧ ∀ c, (sum n).Ensures c (Formed c) := by
  induction n with
  | zero => exact ⟨fun c => (fails_refuse _ c).ensures, fun c => (fails_refuse _ c).ensures⟩
  | succ n ih =>
      obtain ⟨hvalue, hsum⟩ := ih
      constructor
      · intro c
        exact (formed_array hvalue c).orElse ((formed_bool c).orElse ((hsum c).orElse
          ((formed_object hvalue c).orElse (formed_string c))))
      · exact formed_chain (by rintro _ ⟨⟩) _ (formed_product hvalue hsum)

theorem formed_value (n : Nat) (c : Cursor) : (value n).Ensures c (Formed c) :=
  (formed_value_and_sum n).1 c

/-! ## Blocks -/

section Blocks

variable {value block : Parser Match}

theorem formed_simpleBlock (h : ∀ c, value.Ensures c (Formed c)) (c : Cursor) :
    (simpleBlock value).Ensures c (Formed c) := by
  refine Ensures.node ((formed_ident c).bind fun label c₁ hlabel => ?_)
  refine (ensures_layout c₁).bind fun _ c₂ hgap => ?_
  refine (lt_of_mark '[' c₂).bind fun _ c₃ hopen => ?_
  refine (formed_sentence c₃).bind fun description c₄ hdescription => ?_
  refine (lt_of_lexeme (lt_of_mark ']' c₄)).bind fun _ c₅ hclose => ?_
  refine (lt_of_lexeme (lt_of_mark '\x7b' c₅)).bind fun _ c₆ hbrace => ?_
  refine (listing_formed.many1 (fun c => listing_formed.lexeme (formed_pair h c)) c₆).bind ?_
  rintro pairs c₇ ⟨hpairs, -⟩
  refine (lt_of_mark '\x7d' c₇).bind fun _ c₈ hend => ensures_pure ?_
  have hpairs' : FormedAll c₄ pairs c₈ :=
    (hpairs.start (le_of_lt (lt_trans hclose hbrace))).stop (le_of_lt hend)
  have hothers : FormedAll c₁ (description :: pairs) c₈ :=
    (FormedAll.cons hdescription hpairs').start (le_trans hgap (le_of_lt hopen))
  exact hlabel.around (by rintro _ ⟨⟩) hothers

theorem formedAll_blocks (h : ∀ c, block.Ensures c (Formed c)) (c : Cursor) :
    (many1 (lexeme block)).Ensures c fun ms c' => FormedAll c ms c' ∧ ms ≠ [] :=
  listing_formed.many1 (fun c => listing_formed.lexeme (h c)) c

theorem formed_clause {word : String} {rule : Rule} (hrule : ∀ text, ¬ IsWord rule text)
    (hword : word.toList ≠ [])
    (h : ∀ c, block.Ensures c (Formed c)) (c : Cursor) :
    (clause rule word block).Ensures c (Formed c) := by
  refine Ensures.node ((lt_of_lexeme (lt_of_keyword hword c)).bind fun _ c₁ hkeyword => ?_)
  refine (lt_of_lexeme (lt_of_mark '\x7b' c₁)).bind fun _ c₂ hopen => ?_
  refine (formedAll_blocks h c₂).bind ?_
  rintro blocks c₃ ⟨hblocks, -⟩
  refine (lt_of_mark '\x7d' c₃).bind fun _ c₄ hclose => ensures_pure ?_
  exact (hblocks.stop (le_of_lt hclose)).after hrule (lt_trans hkeyword hopen)

theorem formed_body (h : ∀ c, block.Ensures c (Formed c)) (c : Cursor) :
    (body block).Ensures c (Formed c) := by
  refine (reads_offset c).ensures_bind ((formedAll_blocks h c).bind ?_)
  rintro blocks c₁ ⟨hblocks, hne⟩
  have hstop : (blocks.getLast?.map (·.span.stop)).getD c.offset
      = (blocks.getLast hne).span.stop := by
    rw [List.getLast?_eq_some_getLast hne, Option.map_some, Option.getD_some]
  refine ensures_pure ?_
  rw [hstop]
  exact .upToLast (by rintro _ ⟨⟩) hblocks hne

theorem formed_compoundBlock (hvalue : ∀ c, value.Ensures c (Formed c))
    (hblock : ∀ c, block.Ensures c (Formed c)) (c : Cursor) :
    (compoundBlock value block).Ensures c (Formed c) := by
  have hclause {word : String} {rule : Rule} (hrule : ∀ text, ¬ IsWord rule text)
      (hword : word.toList ≠ []) (c : Cursor) :
      (option (layout >>= fun _ => clause rule word block)).Ensures c fun found c' =>
        FormedAll c found.toList c' := by
    refine Ensures.option ((ensures_layout c).bind fun _ c₁ hgap => ?_) (.nil (le_refl c))
    exact (formed_clause hrule hword hblock c₁).mono fun m c₂ hm => (hm.start hgap).single
  refine Ensures.node ((lt_of_lexeme (lt_of_keyword (by decide) c)).bind fun _ c₁ hkeyword => ?_)
  refine (lt_of_lexeme (lt_of_mark '\x7b' c₁)).bind fun _ c₂ hopen => ?_
  refine (listing_formed.many (fun c => listing_formed.lexeme (formed_pair hvalue c)) c₂).bind
    fun pairs c₃ hpairs => ?_
  refine (formed_body hblock c₃).bind fun inner c₄ hinner => ?_
  refine (lt_of_mark '\x7d' c₄).bind fun _ c₅ hclose => ?_
  refine (hclause (by rintro _ ⟨⟩) (by decide) c₅).bind fun rescue c₆ hrescue => ?_
  refine (hclause (by rintro _ ⟨⟩) (by decide) c₆).bind fun always c₇ halways => ensures_pure ?_
  have hinner' := hinner.single.stop (le_of_lt hclose)
  have hparts := ((hpairs.append hinner').append hrescue).append halways
  have hnode : Formed c (.node .compoundBlock c.offset c₇.offset _) c₇ :=
    hparts.after (by rintro _ ⟨⟩) (lt_trans hkeyword hopen)
  simpa using hnode

end Blocks

theorem formed_block (n : Nat) (c : Cursor) : (block n).Ensures c (Formed c) := by
  induction n generalizing c with
  | zero => exact (fails_refuse _ c).ensures
  | succ n ih =>
      exact (formed_simpleBlock (formed_value n) c).orElse
        (formed_compoundBlock (formed_value n) ih c)

/-! ## Whole sources -/

/-- A playbook is a match over the whole source, around the statements. -/
theorem formed_entry (c : Cursor) : entry.Ensures c fun m c' =>
    ∃ ms, m = .node .entry c.offset c'.offset ms ∧ FormedAll c ms c' ∧ c'.rest = [] := by
  refine Ensures.node ((ensures_layout c).bind fun _ c₁ hgap => ?_)
  refine (listing_formed.many (fun c => listing_formed.lexeme
    ((formed_pair (formed_value _) c).orElse (formed_block _ c))) c₁).bind ?_
  intro statements c₂ hstatements
  refine (ensures_endOfInput c₂).bind ?_
  rintro _ c₃ ⟨rfl, hrest⟩
  exact ensures_pure ⟨statements, rfl, hstatements.start hgap, hrest⟩

theorem formed_loneValue (c : Cursor) : loneValue.Ensures c (Formed c) := by
  refine (ensures_layout c).bind fun _ c₁ hgap => ?_
  refine (listing_formed.lexeme (formed_value _ c₁)).bind fun m c₂ hm => ?_
  refine (ensures_endOfInput c₂).bind ?_
  rintro _ c₃ ⟨rfl, -⟩
  exact ensures_pure (hm.start hgap)

/-- Pruning changes nothing in the tree of a playbook. -/
theorem prune_entry (c : Cursor) : entry.Ensures c fun m _ => m.prune = m := by
  refine (formed_entry c).mono ?_
  rintro m c' ⟨ms, rfl, hms, -⟩
  rw [Match.node, Match.prune, pruneAll_of_solid ms hms.standAll.solid]

/-- Pruning changes nothing in the tree of a single value. -/
theorem prune_loneValue (c : Cursor) : loneValue.Ensures c fun m _ => m.prune = m :=
  (formed_loneValue c).mono fun m _ h => prune_of_solid m h.stands.solid

end Grammar

/-! ## Accepted and rejected sources -/

open Playbooks.Parser

variable {rule : Parser Match} {source : List Char}

/-- An accepted source is one that the rule reads, with the tree of the match. -/
theorem runRuleOrReject_eq_ok {tree : Match} (h : runRuleOrReject rule source = .ok tree) :
    ∃ m c t, rule ⟨source, 0⟩ {} = (some (m, c), t) ∧ m.prune = tree := by
  rw [runRuleOrReject, runRule] at h
  rcases hrun : rule ⟨source, 0⟩ {} with ⟨_ | ⟨m, c⟩, t⟩
  · rw [hrun] at h
    cases h
  · rw [hrun] at h
    cases h
    exact ⟨m, c, t, rfl, rfl⟩

/-- A rejected source is one that the rule does not read, and the rejection is what the tracker
holds in the end. -/
theorem runRuleOrReject_eq_error {r : Rejection} (h : runRuleOrReject rule source = .error r) :
    ∃ t, rule ⟨source, 0⟩ {} = (none, t)
      ∧ r = .ofDiagnostic (SyntaxError.diagnostic ⟨t.furthest, t.expected⟩ source) := by
  rw [runRuleOrReject, runRule] at h
  rcases hrun : rule ⟨source, 0⟩ {} with ⟨_ | found, t⟩
  · rw [hrun] at h
    cases h
    exact ⟨t, rfl, rfl⟩
  · rw [hrun] at h
    cases h

theorem runRuleOrReject_ok {tree : Match} {Q : Match → Cursor → Prop}
    (hrule : rule.Ensures ⟨source, 0⟩ Q)
    (h : runRuleOrReject rule source = .ok tree) : ∃ m c', Q m c' ∧ m.prune = tree := by
  obtain ⟨m, c', t, hrun, htree⟩ := runRuleOrReject_eq_ok h
  exact ⟨m, c', hrule {} m c' (by rw [hrun]), htree⟩

theorem Parser.Reads.runRuleOrReject {m : Match} {c' : Cursor}
    (h : rule.Reads ⟨source, 0⟩ m c') :
    runRuleOrReject rule source = .ok m.prune := by
  rw [Playbooks.runRuleOrReject, runRule, h.apply_eq {}]
  rfl

end Playbooks
