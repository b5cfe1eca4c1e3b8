import Playbooks.Proofs.Plan.Drafts
import Playbooks.Proofs.Syntax.Reading

/-!
# Where statements start and end

Each statement is read up to its end and no further: what stands after it is another statement, a
closing brace or the end, and none of these can be taken for more of it.

## Main definitions

* `Headed`: texts that start with a word.
* `Opens`, `Breaks`: where statements start, and where they end.
* `ReadsPart`: a parser reads a text wherever a statement ends after it.

## Main results

* `Grammar.reads_sequence`: a loop reads the first texts of a sequence and leaves the others.
-/
namespace Playbooks

open Playbooks.Parser

namespace Grammar

variable {source : List Char} {c c' c₁ c₂ : Cursor} {x : Char} {text name gap more : List Char}
  {texts : List (List Char)}

/-! ## Words at the start of statements -/

/-- The text is a word, layout and a character that goes on with neither. -/
structure Headed (name : List Char) (x : Char) (text : List Char) : Prop where
  isIdent_name : isIdent name = true
  not_word : isIdentChar x = false
  not_layout : startsLayout x = false
  text_eq : ∃ gap more, Layout gap ∧ text = name ++ gap ++ x :: more

theorem Headed.append (h : Headed name x text) (after : List Char) :
    Headed name x (text ++ after) := by
  obtain ⟨hname, hword, hlayout, gap, more, hgap, rfl⟩ := h
  exact ⟨hname, hword, hlayout, gap, more ++ after, hgap, by simp⟩

theorem isIdentChar_of_startsLayout (h : startsLayout x = true) : isIdentChar x = false := by
  rw [← Bool.not_eq_true]
  intro hx
  have hruns : runsOn x = true := by
    simp only [isIdentChar, Bool.or_eq_true] at hx
    rcases hx with hx | hx <;> simp [runsOn, hx]
  rw [runsOn_of_startsLayout h] at hruns
  cases hruns

/-- Layout does not go on with a word. -/
theorem word_stops (hgapTook : c.Took gap c₁) (hgap : Layout gap)
    (hstop : c₁.rest.head?.any isIdentChar = false) : c.rest.head?.any isIdentChar = false := by
  rcases hgap.head with rfl | ⟨y, more, rfl, hy⟩
  · rwa [hgapTook.eq_of_nil] at hstop
  · exact any_head_of_took hgapTook false (isIdentChar_of_startsLayout hy)

/-- The word and the layout are read, and then the character is next. -/
theorem Headed.took (h : Headed name x text) (htook : c.Took text c') :
    ∃ c₁ c₂, c.Took name c₁ ∧ c₁.rest.head?.any isIdentChar = false ∧ layout.Reads c₁ () c₂
      ∧ c₂.rest.head? = some x := by
  obtain ⟨gap, more, hgap, rfl⟩ := h.text_eq
  rw [List.append_assoc] at htook
  obtain ⟨c₁, hname, htook⟩ := htook.split
  obtain ⟨c₂, hgapTook, hrest⟩ := htook.split
  have hlayout : layout.Reads c₁ () c₂ :=
    reads_layout hgapTook hgap (any_head_of_took hrest false h.not_layout)
  exact ⟨c₁, c₂, hname, word_stops hgapTook hgap (any_head_of_took hrest false h.not_word), hlayout,
    head?_of_took hrest⟩

theorem Headed.fails_pair {p : Parser Match} (h : Headed name x text) (hx : x ≠ ':')
    (htook : c.Took text c') : (pair p).Fails c := by
  obtain ⟨c₁, c₂, hname, hstop, hlayout, hhead⟩ := h.took htook
  have hcolon : (lexeme (mark ':')).Fails c₂ :=
    fails_lexeme (fails_mark (by rw [hhead]; simpa using hx))
  have hkey := reads_ident hname h.isIdent_name hstop
  exact (hkey.orElse.bind_fails (hlayout.bind_fails hcolon.bind)).node

theorem Headed.fails_simpleBlock {p : Parser Match} (h : Headed name x text) (hx : x ≠ '[')
    (htook : c.Took text c') : (simpleBlock p).Fails c := by
  obtain ⟨c₁, c₂, hname, hstop, hlayout, hhead⟩ := h.took htook
  have hbracket : (mark '[').Fails c₂ := fails_mark (by rw [hhead]; simpa using hx)
  have hlabel := reads_ident hname h.isIdent_name hstop
  exact (hlabel.bind_fails (hlayout.bind_fails hbracket.bind)).node

theorem Headed.fails_clause {p : Parser Match} {rule : Rule} {word : String}
    (h : Headed name x text) (hword : isIdent word.toList = true)
    (hx : x ≠ '\x7b' ∨ name ≠ word.toList) (htook : c.Took text c') :
    (clause rule word p).Fails c := by
  obtain ⟨c₁, c₂, hname, hstop, hlayout, hhead⟩ := h.took htook
  by_cases heq : name = word.toList
  · have hbrace : (lexeme (mark '\x7b')).Fails c₂ := by
      refine fails_lexeme (fails_mark ?_)
      rw [hhead]
      simpa [heq] using hx
    have hkeyword : (lexeme (keyword word)).Reads c () c₂ :=
      (reads_keyword (heq ▸ hname) hstop).bind (hlayout.bind (reads_pure () c₂))
    exact (hkeyword.bind_fails hbrace.bind).node
  · have hkeyword : (keyword word).Fails c :=
      fails_keyword (isIdentChar_of_isIdent hword) hname (isIdentChar_of_isIdent h.isIdent_name)
        hstop heq
    exact (fails_lexeme hkeyword).bind.node

/-! ## Where statements start and end -/

/-- Characters that statements start with. -/
def startsStatement (x : Char) : Bool :=
  isLetter x || x == '\x27'

theorem startsValue_of_startsStatement (h : startsStatement x = true) : startsValue x = true := by
  rw [startsStatement, Bool.or_eq_true, beq_iff_eq] at h
  rcases h with h | rfl
  · exact startsValue_of_isLetter h
  · decide

theorem isSign_of_startsStatement (h : startsStatement x = true) : isSign x = false := by
  rw [← Bool.not_eq_true]
  intro hx
  simp only [isSign, Bool.or_eq_true, beq_iff_eq] at hx
  rcases hx with ((rfl | rfl) | rfl) | rfl
  all_goals cases h

/-- The words of the clauses of a compound block. -/
def IsClauseWord (word : String) : Prop :=
  word = "rescue" ∨ word = "always"

theorem isIdent_of_isClauseWord {word : String} (h : IsClauseWord word) :
    isIdent word.toList = true := by
  rcases h with rfl | rfl <;> decide

/-- A statement starts with this text, and no clause does. -/
structure Opens (text : List Char) : Prop where
  starts : Starts startsStatement text
  noClause {word : String} (rule : Rule) (p : Parser Match) {c c' : Cursor} :
    IsClauseWord word → c.Took text c' → (clause rule word p).Fails c

/-- A statement ends here: nothing extends a value, and no clause follows. -/
structure Breaks (c : Cursor) : Prop where
  ends : Ends c.rest
  noClause {word : String} (rule : Rule) (p : Parser Match) :
    IsClauseWord word → (layout >>= fun _ => clause rule word p).Fails c

/-- Nothing stands here, or a closing brace. -/
def Closes (c : Cursor) : Prop :=
  c.rest.head?.any (· != '\x7d') = false

theorem Closes.any_head {P : Char → Bool} (h : Closes c) (hP : P '\x7d' = false) :
    c.rest.head?.any P = false := by
  refine any_false_mono h fun x hx => ?_
  rw [bne_iff_ne]
  rintro rfl
  rw [hP] at hx
  cases hx

theorem Headed.opens (h : Headed name x text)
    (hx : x ≠ '\x7b' ∨ ∀ word, IsClauseWord word → name ≠ word.toList) : Opens text := by
  constructor
  · obtain ⟨gap, more, -, rfl⟩ := h.text_eq
    refine ((starts_of_isIdent h.isIdent_name).append _).append _ |>.mono fun y hy => ?_
    simp [startsStatement, hy]
  · intro word rule p c c' hword htook
    exact h.fails_clause (isIdent_of_isClauseWord hword)
      (hx.imp_right fun hne => hne word hword) htook

theorem breaks_of_opens (hgapTook : c.Took gap c₁) (hgap : Layout gap) (hne : gap ≠ [])
    (hopens : Opens text) (htook : c₁.Took text c') : Breaks c := by
  have hlayout : c₁.rest.head?.any startsLayout = false :=
    hopens.starts.any_head htook fun _ hx =>
      startsLayout_of_startsValue (startsValue_of_startsStatement hx)
  have hsign : c₁.rest.head?.any isSign = false :=
    hopens.starts.any_head htook fun _ => isSign_of_startsStatement
  constructor
  · rw [hgapTook.rest_eq]
    exact ends_of_gap hgap hlayout hsign (Or.inl hne)
  · intro word rule p hword
    exact (reads_layout hgapTook hgap hlayout).bind_fails (hopens.noClause rule p hword htook)

theorem breaks_of_closes (hgapTook : c.Took gap c₁) (hgap : Layout gap) (hclose : Closes c₁) :
    Breaks c := by
  constructor
  · rw [hgapTook.rest_eq]
    exact ends_of_closes hgap (hclose.any_head (by decide))
  · intro word rule p hword
    have hkeyword : (keyword word).Fails c₁ :=
      fails_keyword_of_head (starts_of_isIdent (isIdent_of_isClauseWord hword))
        (hclose.any_head (by decide))
    exact (reads_layout hgapTook hgap (hclose.any_head (by decide))).bind_fails
      (fails_lexeme hkeyword).bind.node

/-! ## Sequences -/

/-- Wherever the text stands in the source and a statement ends after it, the parser reads it, and
its match has the property. -/
structure ReadsPart (source : List Char) (p : Parser Match) (Q : Match → Prop) (text : List Char) :
    Prop where
  opens : Opens text
  reads (c c' : Cursor) : c.In source → c.Took text c' → Breaks c' → ∃ m, p.Reads c m c' ∧ Q m

section Sequences

variable {p : Parser Match} {Q : Match → Prop} {α : Type} {R : α → Match → Prop} {xs : List α}
  {others : List (List Char)} {inner : List Char}

theorem opens_of_readsParts
    (h : List.Forall₂ (fun text x => ReadsPart source p (R x) text) texts xs) :
    ∀ text ∈ texts, Opens text := by
  induction h with
  | nil => simp
  | cons htext _ ih => simpa using ⟨htext.opens, ih⟩

theorem took_head (h : Sequence (text :: texts) inner) (htook : c.Took inner c') :
    ∃ c₁, c.Took text c₁ := by
  cases h with
  | last _ =>
      obtain ⟨c₁, htext, -⟩ := htook.split
      exact ⟨c₁, htext⟩
  | cons _ _ _ =>
      obtain ⟨c₂, htook₂, -⟩ := htook.split
      obtain ⟨c₁, htext, -⟩ := htook₂.split
      exact ⟨c₁, htext⟩

/-- Where a sequence starts, layout ends. -/
theorem stops_of_sequence (h : Sequence texts inner) (hopens : ∀ text ∈ texts, Opens text)
    (htook : c.Took inner c') (hclose : Closes c') : c.rest.head?.any startsLayout = false := by
  cases texts with
  | nil =>
      cases h
      rw [htook.eq_of_nil] at hclose
      exact hclose.any_head (by decide)
  | cons text texts =>
      obtain ⟨c₁, htext⟩ := took_head h htook
      exact (hopens text List.mem_cons_self).starts.any_head htext fun _ hx =>
        startsLayout_of_startsValue (startsValue_of_startsStatement hx)

/-- The first text of a sequence is read with the layout after it. -/
theorem reads_first (h : Sequence (text :: texts) inner) (htext : ReadsPart source p Q text)
    (hopens : ∀ text ∈ texts, Opens text) (hc : c.In source) (htook : c.Took inner c')
    (hclose : Closes c') : ∃ c₁ taken inner' m, (lexeme p).Reads c m c₁ ∧ Q m ∧ c.Took taken c₁
      ∧ taken ≠ [] ∧ c₁.Took inner' c' ∧ Sequence texts inner' := by
  have hne : text ≠ [] := htext.opens.starts.ne_nil
  cases h with
  | @last _ gap hgap =>
      obtain ⟨c₁, htextTook, hgapTook⟩ := htook.split
      obtain ⟨m, hm, hQ⟩ :=
        htext.reads c c₁ hc htextTook (breaks_of_closes hgapTook hgap hclose)
      have hreads := reads_lexeme hm hgapTook hgap (hclose.any_head (by decide))
      exact ⟨c', _, [], m, hreads, hQ, htook, by simp [hne], Cursor.Took.refl c', .nil⟩
  | @cons _ gap next more texts hgap hgapNe hmore =>
      obtain ⟨c₂, htook₂, hmoreTook⟩ := htook.split
      obtain ⟨c₁, htextTook, hgapTook⟩ := htook₂.split
      obtain ⟨c₃, hnextTook⟩ := took_head hmore hmoreTook
      have hbreaks : Breaks c₁ :=
        breaks_of_opens hgapTook hgap hgapNe (hopens next List.mem_cons_self) hnextTook
      obtain ⟨m, hm, hQ⟩ := htext.reads c c₁ hc htextTook hbreaks
      have hreads := reads_lexeme hm hgapTook hgap (stops_of_sequence hmore hopens hmoreTook hclose)
      exact ⟨c₂, _, more, m, hreads, hQ, htook₂, by simp [hne], hmoreTook, hmore⟩

/-- The first texts of a sequence are read by one loop, which leaves the others. -/
theorem reads_sequence (h : Sequence (texts ++ others) inner)
    (hread : List.Forall₂ (fun text x => ReadsPart source p (R x) text) texts xs)
    (hothers : ∀ text ∈ others, Opens text) (hc : c.In source) (htook : c.Took inner c')
    (hclose : Closes c')
    (hend : ∀ c₁ inner', c₁.Took inner' c' → Sequence others inner' → p.Fails c₁) :
    ∃ c₁ inner' ms, (many (lexeme p)).Reads c ms c₁ ∧ List.Forall₂ R xs ms ∧ c ≤ c₁
      ∧ c₁.Took inner' c' ∧ Sequence others inner' := by
  induction hread generalizing c inner with
  | nil =>
      have hfails : p.Fails c := hend c inner htook h
      exact ⟨c, inner, [], (fails_lexeme hfails).many, .nil, le_refl c, htook, h⟩
  | @cons text x texts xs htext hrest ih =>
      have hopens : ∀ t ∈ texts ++ others, Opens t := by
        intro t ht
        rcases List.mem_append.mp ht with ht | ht
        · exact opens_of_readsParts hrest t ht
        · exact hothers t ht
      obtain ⟨c₁, taken, inner', m, hm, hR, htaken, hne, hinner, hsequence⟩ :=
        reads_first h htext hopens hc htook hclose
      obtain ⟨c₂, inner₂, ms, hms, hRs, hle, hinner₂, hothers₂⟩ :=
        ih hsequence (hc.of_le htaken.le) hinner
      exact ⟨c₂, inner₂, m :: ms, hm.many_cons htaken hne hms, .cons hR hRs,
        le_trans htaken.le hle, hinner₂, hothers₂⟩

/-- A sequence is read to its end. -/
theorem reads_whole_sequence (h : Sequence texts inner)
    (hread : List.Forall₂ (fun text x => ReadsPart source p (R x) text) texts xs)
    (hc : c.In source) (htook : c.Took inner c') (hclose : Closes c') (hend : p.Fails c') :
    ∃ ms, (many (lexeme p)).Reads c ms c' ∧ List.Forall₂ R xs ms := by
  rw [← List.append_nil texts] at h
  have hfails (c₁ : Cursor) (inner' : List Char) (htook : c₁.Took inner' c')
      (hnil : Sequence [] inner') : p.Fails c₁ := by
    cases hnil
    exact htook.eq_of_nil ▸ hend
  obtain ⟨c₁, inner', ms, hms, hR, -, hinner, hnil⟩ :=
    reads_sequence h hread (by simp) hc htook hclose hfails
  cases hnil
  rw [hinner.eq_of_nil]
  exact ⟨ms, hms, hR⟩

/-- A sequence that is not empty is read to its end. -/
theorem reads_sequence_many1 (h : Sequence texts inner) (hne : texts ≠ [])
    (hread : List.Forall₂ (fun text x => ReadsPart source p (R x) text) texts xs)
    (hc : c.In source) (htook : c.Took inner c') (hclose : Closes c') (hend : p.Fails c') :
    ∃ ms, (many1 (lexeme p)).Reads c ms c' ∧ List.Forall₂ R xs ms := by
  cases hread with
  | nil => exact absurd rfl hne
  | cons htext hrest =>
      obtain ⟨c₁, taken, inner', m, hm, hR, htaken, -, hinner, hsequence⟩ :=
        reads_first h htext (opens_of_readsParts hrest) hc htook hclose
      obtain ⟨ms, hms, hRs⟩ :=
        reads_whole_sequence hsequence hrest (hc.of_le htaken.le) hinner hclose hend
      exact ⟨m :: ms, hm.bind (hms.bind (reads_pure _ c')), .cons hR hRs⟩

/-- The braces around a sequence. -/
theorem took_enclosed (h : Enclosed texts text) (hopens : ∀ text ∈ texts, Opens text)
    (htook : c.Took text c') : ∃ gap c₁ c₂ c₃ inner, c.Took gap c₁ ∧ Layout gap
      ∧ c₁.rest.head? = some '\x7b' ∧ (lexeme (mark '\x7b')).Reads c₁ () c₂ ∧ c₁ ≤ c₂
      ∧ c₂.Took inner c₃ ∧ Sequence texts inner ∧ c₃.Took ['\x7d'] c' := by
  cases h with
  | @intro gap gap' inner hgap hgap' hinner =>
      rw [List.append_assoc, List.append_assoc, List.cons_append] at htook
      obtain ⟨c₁, hgapTook, htook⟩ := htook.split
      obtain ⟨c₂, hopen, htook₂⟩ := htook.uncons
      obtain ⟨c₃, hgapTook', htook⟩ := htook₂.split
      obtain ⟨c₄, hinnerTook, hcloseTook⟩ := htook.split
      have hclose : Closes c₄ := any_head_of_took hcloseTook false (by decide)
      have hopenReads : (lexeme (mark '\x7b')).Reads c₁ () c₃ :=
        reads_markGap hopen hgapTook' hgap' (stops_of_sequence hinner hopens hinnerTook hclose)
      exact ⟨gap, c₁, c₃, c₄, inner, hgapTook, hgap, head?_of_took hopen, hopenReads,
        le_trans hopen.le hgapTook'.le, hinnerTook, hinner, hcloseTook⟩

end Sequences

end Grammar

end Playbooks
