import Playbooks.Proofs.Plan.Lowering
import Playbooks.Proofs.Plan.Statements

/-!
# Reading written playbooks

Every text of a legal draft is accepted, whatever its layout, and its plan is the plan of the draft.

## Main definitions

* `Grammar.ReadsBlock`: a text that is read as a block, and never as a pair.

## Main results

* `Grammar.reads_block`: blocks are read as their tasks.
* `Grammar.reads_statement`: pairs and blocks are not taken for one another.
* `Draft.ofSource_written`: texts of drafts are read as their plans.
-/
namespace Playbooks

open Playbooks.Parser Draft

namespace Grammar

variable {source : List Char} {c c' : Cursor} {text gap : List Char} {texts : List (List Char)}

/-! ## Pairs -/

section Pairs

variable {key : Key} {content : List Char} {entries : List (String × Expr)} {ms : List Match}

theorem opens_pairText (hkey : key.Legal) (h : PairText key content text) : Opens text := by
  cases h with
  | @intro gap gap' hgap hgap' =>
      cases key with
      | bare name =>
          have hheaded : Headed name ':' (name ++ gap ++ ':' :: gap' ++ content) :=
            ⟨hkey, by decide, by decide, gap, gap' ++ content, hgap, by simp⟩
          exact hheaded.opens (Or.inl (by decide))
      | quoted cs =>
          refine ⟨⟨'\x27', _, rfl, by decide⟩, ?_⟩
          intro word rule p c c' hword htook
          have hkeyword : (keyword word).Fails c :=
            fails_keyword_of_head (starts_of_isIdent (isIdent_of_isClauseWord hword))
              (any_head_of_took htook false (by decide))
          exact (fails_lexeme hkeyword).bind.node

theorem readsPart_pair {p : Parser Match} {e : Expr} (hkey : key.Legal)
    (hcontent : ReadsText source p (Means source e) content) (h : PairText key content text) :
    ReadsPart source (pair p) (MeansPair source (String.ofList key.name, e)) text :=
  ⟨opens_pairText hkey h, fun c c' hc htook hbreaks =>
    (readsText_pair hkey hcontent h).reads c c' hc htook hbreaks.ends⟩

/-- The texts are read as pairs that have the entries. -/
abbrev ReadsPairs (source : List Char) (n : Nat) (texts : List (List Char))
    (entries : List (String × Expr)) : Prop :=
  List.Forall₂ (fun text entry =>
    ReadsPart source (pair (value n)) (MeansPair source entry) text) texts entries

theorem readsParts_pairs {n : Nat} {pairs : List (Key × Phrase)} (hlegal : Phrase.LegalPairs pairs)
    (hneed : Phrase.pairsNeed pairs ≤ n) (hwritten : Phrase.WrittenPairs pairs texts) :
    ReadsPairs source n texts (Phrase.entries pairs) := by
  induction pairs generalizing texts with
  | nil =>
      cases hwritten
      exact .nil
  | cons f pairs ih =>
      obtain ⟨key, v⟩ := f
      obtain ⟨content, text, rest, hcontent, htext, hrest, rfl⟩ := hwritten
      obtain ⟨hkey, hv, hpairs⟩ := hlegal
      rw [Phrase.pairsNeed, Nat.max_le] at hneed
      exact .cons (readsPart_pair hkey (reads_phrase v hv hneed.1 hcontent) htext)
        (ih hpairs hneed.2 hrest)

theorem simplePairs_of_means (h : List.Forall₂ (MeansPair source) entries ms) (t : Task) :
    Match.simplePairs source t ms = .ok (entries.foldl (fun t f => t.addSimplePair f.1 f.2) t) := by
  induction h generalizing t with
  | nil => rfl
  | cons hm _ ih =>
      rw [Match.simplePairs, if_pos hm.1, hm.2]
      exact ih _

theorem compoundParts_of_means (h : List.Forall₂ (MeansPair source) entries ms) (t : Task)
    (parts : List Match) : Match.compoundParts source t (ms ++ parts)
      = Match.compoundParts source
        (entries.foldl (fun t f => t.addCompoundPair f.1 f.2) t) parts := by
  induction h generalizing t with
  | nil => rfl
  | @cons entry m entries ms hm _ ih =>
      obtain ⟨rule, span, children⟩ := m
      obtain ⟨hrule, hpair⟩ := hm
      cases hrule
      rw [List.cons_append, Match.compoundParts, hpair]
      exact ih _

end Pairs

/-! ## Blocks -/

/-- The match is a block of the task, but for places in the source. -/
def MeansTask (source : List Char) (t : Task) (m : Match) : Prop :=
  (m.rule = .simpleBlock ∨ m.rule = .compoundBlock)
    ∧ ∃ t', m.task source = .ok t' ∧ t'.unspanned = t

/-- No block starts where a brace closes. -/
theorem fails_block_of_closes (n : Nat) (h : Closes c) : (block n).Fails c := by
  cases n with
  | zero => exact fails_refuse _ c
  | succ n =>
      have hletter : c.rest.head?.any isLetter = false := h.any_head (by decide)
      have hsimple : (simpleBlock (value n)).Fails c := (fails_ident hletter).bind.node
      have hkeyword : (keyword "block").Fails c :=
        fails_keyword_of_head ⟨'b', _, rfl, by decide⟩ hletter
      exact hsimple.orElse (fails_lexeme hkeyword).bind.node

theorem fails_pair_of_closes {p : Parser Match} (h : Closes c) : (pair p).Fails c :=
  fails_pair_of_startsValue (h.any_head (by decide))

section SimpleBlocks

variable {n : Nat} {label description inner : List Char} {entries : List (String × Expr)}

theorem reads_simpleBlock (hlabel : isIdent label = true)
    (hdescription : isSentence description = true) (hgap : Layout gap) (hne : texts ≠ [])
    (h : Enclosed texts inner) (hread : ReadsPairs source n texts entries) (hc : c.In source)
    (htook : c.Took (label ++ gap ++ '[' :: description ++ ']' :: inner) c') :
    ∃ m, (simpleBlock (value n)).Reads c m c'
      ∧ MeansTask source (.ofSimplePairs (String.ofList description) entries default) m := by
  obtain ⟨c₄, htook₄, hcloseTook⟩ := htook.split
  obtain ⟨c₂, htook₂, htook⟩ := htook₄.split
  obtain ⟨c₁, hlabelTook, hgapTook⟩ := htook₂.split
  obtain ⟨c₃, hopen, hdescriptionTook⟩ := htook.uncons
  obtain ⟨c₅, hclose, hinnerTook⟩ := hcloseTook.uncons
  obtain ⟨gap', c₆, c₇, c₈, pairsText, hgapTook', hgap', hbrace, hbraceReads, hle, hpairsTook,
    hsequence, hend⟩ := took_enclosed h (opens_of_readsParts hread) hinnerTook
  have hlabelReads := reads_ident hlabelTook hlabel
    (word_stops hgapTook hgap (any_head_of_took hopen false (by decide)))
  have hlayoutReads : layout.Reads c₁ () c₂ :=
    reads_layout hgapTook hgap (any_head_of_took hopen false (by decide))
  have hdescriptionReads := reads_sentence hdescriptionTook hdescription
    (any_head_of_took hclose false (by decide))
  have hcloseReads : (lexeme (mark ']')).Reads c₄ () c₆ :=
    reads_markGap hclose hgapTook' hgap' (by rw [hbrace]; decide)
  have hc₃ : c₃.In source := hc.of_le (le_trans htook₂.le hopen.le)
  have hc₇ : c₇.In source := by
    refine hc.of_le (le_trans htook₄.le ?_)
    exact le_trans hclose.le (le_trans hgapTook'.le hle)
  have hcloses : Closes c₈ := any_head_of_took hend false (by decide)
  obtain ⟨ms, hms, hmeans⟩ := reads_sequence_many1 hsequence hne hread hc₇ hpairsTook hcloses
    (fails_pair_of_closes hcloses)
  let children : List Match :=
    .leaf .ident c.offset c₁.offset :: .leaf .sentence c₃.offset c₄.offset :: ms
  have hpairsReads : (many1 (lexeme (pair (value n))) >>= fun pairs => mark '\x7d' >>= fun _ =>
      pure (.leaf .ident c.offset c₁.offset :: .leaf .sentence c₃.offset c₄.offset :: pairs)).Reads
      c₇ children c' :=
    hms.bind ((reads_mark hend).bind (reads_pure _ c'))
  refine ⟨.node .simpleBlock c.offset c'.offset children, ?_, Or.inl rfl,
    .ofSimplePairs (String.ofList description) entries (.ofBounds c.offset c'.offset), ?_, rfl⟩
  · exact Reads.node (hlabelReads.bind (hlayoutReads.bind ((reads_mark hopen).bind
      (hdescriptionReads.bind (hcloseReads.bind (hbraceReads.bind hpairsReads))))))
  · rw [task_simpleBlock rfl rfl, Match.textString, text_leaf hc₃ hdescriptionTook,
      simplePairs_of_means hmeans]
    exact congrArg Except.ok (Task.foldl_addSimplePair _ [] entries _)

end SimpleBlocks

section Clauses

variable {p : Parser Match} {ts : List Task} {word : String} {rule : Rule} {inner : List Char}

theorem tasks_of_means {ms : List Match} (h : List.Forall₂ (MeansTask source) ts ms) :
    ∃ ts', Match.tasks source ms = .ok ts' ∧ Task.unspannedAll ts' = ts := by
  induction h with
  | nil => exact ⟨[], rfl, rfl⟩
  | cons hm _ ih =>
      obtain ⟨-, t', ht', ht⟩ := hm
      obtain ⟨ts', hts', hts⟩ := ih
      refine ⟨t' :: ts', ?_, ?_⟩
      · rw [Match.tasks, ht', hts']
        rfl
      · rw [Task.unspannedAll, ht, hts]

theorem headed_enclosed (hword : isIdent word.toList = true) (h : Enclosed texts inner) :
    Headed word.toList '\x7b' (word.toList ++ inner) := by
  cases h with
  | @intro gap gap' inner hgap _ _ =>
      exact ⟨hword, by decide, by decide, gap, gap' ++ inner ++ ['\x7d'], hgap, by simp⟩

/-- A word and the opening brace after it. -/
theorem reads_word_brace (h : Enclosed texts inner) (hopens : ∀ text ∈ texts, Opens text)
    (htook : c.Took (word.toList ++ inner) c') : ∃ c₁ c₂ c₃ seq,
      (lexeme (keyword word)).Reads c () c₁ ∧ (lexeme (mark '\x7b')).Reads c₁ () c₂ ∧ c ≤ c₂
      ∧ c₂.Took seq c₃ ∧ Sequence texts seq ∧ Closes c₃ ∧ c₃.Took ['\x7d'] c' := by
  obtain ⟨c₀, hwordTook, hinnerTook⟩ := htook.split
  obtain ⟨gap, c₁, c₂, c₃, seq, hgapTook, hgap, hbrace, hbraceReads, hle, hseqTook, hseq, hend⟩ :=
    took_enclosed h hopens hinnerTook
  have hword : (keyword word).Reads c () c₀ :=
    reads_keyword hwordTook (word_stops hgapTook hgap (by rw [hbrace]; decide))
  refine ⟨c₁, c₂, c₃, seq, reads_lexeme hword hgapTook hgap (by rw [hbrace]; decide), hbraceReads,
    ?_, hseqTook, hseq, any_head_of_took hend false (by decide), hend⟩
  exact le_trans hwordTook.le (le_trans hgapTook.le hle)

theorem reads_clause (h : Enclosed texts inner) (hne : texts ≠ [])
    (hread : List.Forall₂ (fun text t => ReadsPart source p (MeansTask source t) text) texts ts)
    (hp : ∀ c, Closes c → p.Fails c) (hc : c.In source)
    (htook : c.Took (word.toList ++ inner) c') :
    ∃ ms, (clause rule word p).Reads c (.node rule c.offset c'.offset ms) c'
      ∧ List.Forall₂ (MeansTask source) ts ms := by
  obtain ⟨c₁, c₂, c₃, seq, hwordReads, hbraceReads, hle, hseqTook, hseq, hcloses, hend⟩ :=
    reads_word_brace h (opens_of_readsParts hread) htook
  obtain ⟨ms, hms, hmeans⟩ := reads_sequence_many1 hseq hne hread (hc.of_le hle) hseqTook hcloses
    (hp c₃ hcloses)
  exact ⟨ms, Reads.node (hwordReads.bind (hbraceReads.bind (hms.bind ((reads_mark hend).bind
    (reads_pure ms c'))))), hmeans⟩

/-- The layout before a clause. -/
theorem reads_clause_layout (hword : isIdent word.toList = true) (hgap : Layout gap)
    (htook : c.Took (gap ++ word.toList ++ inner) c') :
    ∃ c₁, layout.Reads c () c₁ ∧ c ≤ c₁ ∧ c₁.Took (word.toList ++ inner) c' := by
  rw [List.append_assoc] at htook
  obtain ⟨c₁, hgapTook, htook₁⟩ := htook.split
  have hstop : c₁.rest.head?.any startsLayout = false := by
    refine ((starts_of_isIdent hword).append inner).any_head htook₁ fun x hx => ?_
    exact startsLayout_of_startsValue (startsValue_of_isLetter hx)
  exact ⟨c₁, reads_layout hgapTook hgap hstop, hgapTook.le, htook₁⟩

/-- What was found of a clause: nothing if it has no tasks, or a match that has blocks of them. -/
inductive MeansClause (source : List Char) (rule : Rule) : List Task → Option Match → Prop
  | absent : MeansClause source rule [] none
  | present {ts : List Task} {ms : List Match} (start stop : Nat) :
      List.Forall₂ (MeansTask source) ts ms →
      MeansClause source rule ts (some (.node rule start stop ms))

theorem reads_optional_clause (h : Clause word texts text)
    (hread : List.Forall₂ (fun text t => ReadsPart source p (MeansTask source t) text) texts ts)
    (hp : ∀ c, Closes c → p.Fails c) (hword : IsClauseWord word) (hc : c.In source)
    (htook : c.Took text c')
    (habsent : text = [] → (layout >>= fun _ => clause rule word p).Fails c) :
    ∃ found, (option (layout >>= fun _ => clause rule word p)).Reads c found c'
      ∧ MeansClause source rule ts found := by
  cases h with
  | absent =>
      cases hread
      rw [htook.eq_of_nil]
      exact ⟨none, (habsent rfl).option, .absent⟩
  | present hne hgap hinner =>
      obtain ⟨c₁, hlayout, hle, htook₁⟩ :=
        reads_clause_layout (isIdent_of_isClauseWord hword) hgap htook
      obtain ⟨ms, hms, hmeans⟩ := reads_clause hinner hne hread hp (hc.of_le hle) htook₁
      exact ⟨_, (hlayout.bind hms).option, .present _ _ hmeans⟩

/-- A clause is not taken for one with another word. -/
theorem fails_other_clause {other : String} (h : Clause word texts text)
    (hword : IsClauseWord word) (hother : IsClauseWord other) (hne : word ≠ other)
    (htook : c.Took text c') (hbreaks : Breaks c') :
    (layout >>= fun _ => clause rule other p).Fails c := by
  cases h with
  | absent =>
      rw [← htook.eq_of_nil]
      exact hbreaks.noClause rule p hother
  | present _ hgap hinner =>
      have hheaded := headed_enclosed (isIdent_of_isClauseWord hword) hinner
      have hwords : word.toList ≠ other.toList := fun heq => hne (String.toList_inj.mp heq)
      obtain ⟨c₁, hlayout, -, htook₁⟩ := reads_clause_layout hheaded.isIdent_name hgap htook
      exact hlayout.bind_fails
        (hheaded.fails_clause (isIdent_of_isClauseWord hother) (Or.inr hwords) htook₁)

/-- A clause sets the tasks of one field, which are none without it. -/
theorem compoundParts_clause {found : Option Match} {t : Task} (set : List Task → Task)
    (h : MeansClause source rule ts found) (hnil : set [] = t)
    (hset : ∀ start stop ms rest,
      Match.compoundParts source t (.node rule start stop ms :: rest)
        = Match.tasks source ms >>= fun ts => Match.compoundParts source (set ts) rest)
    (rest : List Match) : ∃ ts', Task.unspannedAll ts' = ts
      ∧ Match.compoundParts source t (found.toList ++ rest)
        = Match.compoundParts source (set ts') rest := by
  cases h with
  | absent => exact ⟨[], rfl, by rw [hnil]; rfl⟩
  | present start stop hmeans =>
      obtain ⟨ts', htasks, hts⟩ := tasks_of_means hmeans
      refine ⟨ts', hts, ?_⟩
      rw [Option.toList_some, List.singleton_append, hset, htasks]
      rfl

end Clauses

section CompoundBlocks

/-- The text is read as a block of the task, and never as a pair. -/
structure ReadsBlock (source : List Char) (n : Nat) (t : Task) (text : List Char) : Prop extends
    ReadsPart source (block n) (MeansTask source t) text where
  noPair {c c' : Cursor} (p : Parser Match) : c.Took text c' → (pair p).Fails c

/-- The texts are read as blocks of the tasks. -/
abbrev ReadsBlocks (source : List Char) (n : Nat) (texts : List (List Char)) (ts : List Task) :
    Prop :=
  List.Forall₂ (fun text t => ReadsBlock source n t text) texts ts

variable {n : Nat} {pairTexts bodyTexts rescueTexts alwaysTexts : List (List Char)}
  {inner rescueText alwaysText : List Char} {entries : List (String × Expr)}
  {ts body rescue always : List Task}

theorem readsParts_of_readsBlocks (h : ReadsBlocks source n texts ts) :
    List.Forall₂ (fun text t => ReadsPart source (block n) (MeansTask source t) text) texts ts :=
  h.imp fun _ _ hblock => hblock.toReadsPart

/-- Where blocks start, no pair does. -/
theorem fails_pair_of_blocks {p : Parser Match} (hread : ReadsBlocks source n texts ts)
    (hne : texts ≠ []) (h : Sequence texts inner) (htook : c.Took inner c') :
    (pair p).Fails c := by
  cases hread with
  | nil => exact absurd rfl hne
  | cons hblock _ =>
      obtain ⟨c₁, htext⟩ := took_head h htook
      exact hblock.noPair p htext

theorem reads_body (hread : ReadsBlocks source n texts ts) (hne : texts ≠ [])
    (h : Sequence texts inner) (hc : c.In source) (htook : c.Took inner c') (hcloses : Closes c') :
    ∃ stop ms,
      (Grammar.body (block n)).Reads c (.node .body c.offset stop ms) c'
        ∧ List.Forall₂ (MeansTask source) ts ms := by
  obtain ⟨ms, hms, hmeans⟩ := reads_sequence_many1 h hne (readsParts_of_readsBlocks hread) hc htook
    hcloses (fails_block_of_closes n hcloses)
  exact ⟨_, ms, (reads_offset c).bind (hms.bind (reads_pure _ c')), hmeans⟩

/-- The parts of a compound block make its task. -/
theorem means_compoundBlock {ms bs : List Match} {found found' : Option Match}
    {start stop start' stop' : Nat} (hpairs : List.Forall₂ (MeansPair source) entries ms)
    (hbody : List.Forall₂ (MeansTask source) body bs) (hne : body ≠ [])
    (hrescue : MeansClause source .rescue rescue found)
    (halways : MeansClause source .always always found') :
    MeansTask source { Task.ofCompoundPairs entries default with body, rescue, always }
      (.node .compoundBlock start stop
        (ms ++ .node .body start' stop' bs :: found.toList ++ found'.toList)) := by
  let span : Span := .ofBounds start stop
  obtain ⟨body', htasks, rfl⟩ := tasks_of_means hbody
  let t : Task := { Task.ofCompoundPairs entries span with body := body' }
  obtain ⟨rescue', rfl, hrescueParts⟩ := compoundParts_clause (t := t)
    (fun ts => { t with rescue := ts }) hrescue rfl (fun _ _ _ _ => rfl) found'.toList
  obtain ⟨always', rfl, halwaysParts⟩ := compoundParts_clause (t := { t with rescue := rescue' })
    (fun ts => { t with rescue := rescue', always := ts }) halways rfl (fun _ _ _ _ => rfl) []
  have hstart : entries.foldl (fun t f => t.addCompoundPair f.1 f.2) { span }
      = Task.ofCompoundPairs entries span :=
    Task.foldl_addCompoundPair [] entries span
  refine ⟨Or.inr rfl, { t with rescue := rescue', always := always' },
    task_compoundBlock ?_ ?_, rfl⟩
  · rw [List.append_nil] at halwaysParts
    rw [List.append_assoc, compoundParts_of_means hpairs, hstart, List.cons_append, Match.node,
      Match.compoundParts, htasks]
    exact hrescueParts.trans halwaysParts
  · rintro (heq : body' = [])
    exact hne (by rw [heq]; rfl)

theorem reads_compoundBlock (hpairs : ReadsPairs source n pairTexts entries)
    (hbody : ReadsBlocks source n bodyTexts body)
    (hrescue : ReadsBlocks source n rescueTexts rescue)
    (halways : ReadsBlocks source n alwaysTexts always) (hne : bodyTexts ≠ [])
    (hinner : Enclosed (pairTexts ++ bodyTexts) inner)
    (hrescueText : Clause "rescue" rescueTexts rescueText)
    (halwaysText : Clause "always" alwaysTexts alwaysText) (hc : c.In source)
    (htook : c.Took ("block".toList ++ inner ++ rescueText ++ alwaysText) c')
    (hbreaks : Breaks c') :
    ∃ m, (compoundBlock (value n) (block n)).Reads c m c' ∧ MeansTask source
      { Task.ofCompoundPairs entries default with body, rescue, always } m := by
  obtain ⟨c₂, htook₂, halwaysTook⟩ := htook.split
  obtain ⟨c₁, htook₁, hrescueTook⟩ := htook₂.split
  have hopens : ∀ text ∈ pairTexts ++ bodyTexts, Opens text := by
    intro text htext
    rcases List.mem_append.mp htext with htext | htext
    · exact opens_of_readsParts hpairs text htext
    · exact opens_of_readsParts (readsParts_of_readsBlocks hbody) text htext
  obtain ⟨c₃, c₄, c₅, seq, hwordReads, hbraceReads, hle, hseqTook, hseq, hcloses, hend⟩ :=
    reads_word_brace hinner hopens htook₁
  have hc₄ : c₄.In source := hc.of_le hle
  -- The pairs end at the first block, which does not read as a pair.
  obtain ⟨c₆, bodySeq, ms, hms, hmeans, hle', hbodyTook, hbodySeq⟩ :=
    reads_sequence hseq hpairs (opens_of_readsParts (readsParts_of_readsBlocks hbody)) hc₄ hseqTook
      hcloses fun _ _ htook h => fails_pair_of_blocks hbody hne h htook
  obtain ⟨stop, bs, hbs, hbodyMeans⟩ :=
    reads_body hbody hne hbodySeq (hc₄.of_le hle') hbodyTook hcloses
  -- Without a clause for failure, the word for the end or the next statement comes here.
  have hnoRescue : (layout >>= fun _ => clause .rescue "rescue" (block n)).Fails c₂ :=
    fails_other_clause halwaysText (Or.inr rfl) (Or.inl rfl) (by decide) halwaysTook hbreaks
  obtain ⟨found, hfound, hfoundMeans⟩ := reads_optional_clause hrescueText
    (readsParts_of_readsBlocks hrescue) (fun _ => fails_block_of_closes n) (Or.inl rfl)
    (hc.of_le htook₁.le) hrescueTook fun hnil => (hnil ▸ hrescueTook).eq_of_nil ▸ hnoRescue
  obtain ⟨found', hfound', hfoundMeans'⟩ := reads_optional_clause halwaysText
    (readsParts_of_readsBlocks halways) (fun _ => fails_block_of_closes n) (Or.inr rfl)
    (hc.of_le htook₂.le) halwaysTook fun hnil =>
      (hnil ▸ halwaysTook).eq_of_nil ▸ hbreaks.noClause .always (block n) (Or.inr rfl)
  have hclauses : (option (layout >>= fun _ => clause .always "always" (block n)) >>= fun always =>
      pure (ms ++ .node .body c₆.offset stop bs :: found.toList ++ always.toList)).Reads c₂
      (ms ++ .node .body c₆.offset stop bs :: found.toList ++ found'.toList) c' :=
    hfound'.bind (reads_pure _ c')
  have hbodyNe : body ≠ [] := by
    rintro rfl
    cases hbody
    exact hne rfl
  exact ⟨_, Reads.node (hwordReads.bind (hbraceReads.bind (hms.bind (hbs.bind
    ((reads_mark hend).bind (hfound.bind hclauses)))))),
    means_compoundBlock hmeans hbodyMeans hbodyNe hfoundMeans hfoundMeans'⟩

theorem readsBlock_simple {label description : List Char} (hlabel : isIdent label = true)
    (hdescription : isSentence description = true) (hgap : Layout gap) (hne : texts ≠ [])
    (h : Enclosed texts inner) (hread : ReadsPairs source n texts entries) :
    ReadsBlock source (n + 1) (.ofSimplePairs (String.ofList description) entries default)
      (label ++ gap ++ '[' :: description ++ ']' :: inner) := by
  have hheaded : Headed label '[' (label ++ gap ++ '[' :: description ++ ']' :: inner) :=
    ⟨hlabel, by decide, by decide, gap, description ++ ']' :: inner, hgap, by simp⟩
  refine ⟨⟨hheaded.opens (Or.inl (by decide)), fun c c' hc htook _ => ?_⟩, ?_⟩
  · obtain ⟨m, hm, hmeans⟩ := reads_simpleBlock hlabel hdescription hgap hne h hread hc htook
    exact ⟨m, hm.orElse, hmeans⟩
  · intro c c' p htook
    exact hheaded.fails_pair (by decide) htook

theorem readsBlock_compound (hpairs : ReadsPairs source n pairTexts entries)
    (hbody : ReadsBlocks source n bodyTexts body)
    (hrescue : ReadsBlocks source n rescueTexts rescue)
    (halways : ReadsBlocks source n alwaysTexts always) (hne : bodyTexts ≠ [])
    (hinner : Enclosed (pairTexts ++ bodyTexts) inner)
    (hrescueText : Clause "rescue" rescueTexts rescueText)
    (halwaysText : Clause "always" alwaysTexts alwaysText) :
    ReadsBlock source (n + 1) { Task.ofCompoundPairs entries default with body, rescue, always }
      ("block".toList ++ inner ++ rescueText ++ alwaysText) := by
  have hheaded : Headed "block".toList '\x7b'
      ("block".toList ++ inner ++ rescueText ++ alwaysText) :=
    ((headed_enclosed rfl hinner).append rescueText).append alwaysText
  refine ⟨⟨hheaded.opens (Or.inr ?_), fun c c' hc htook hbreaks => ?_⟩, ?_⟩
  · rintro word (rfl | rfl) <;> decide
  · obtain ⟨m, hm, hmeans⟩ := reads_compoundBlock hpairs hbody hrescue halways hne hinner
      hrescueText halwaysText hc htook hbreaks
    exact ⟨m, (hheaded.fails_simpleBlock (by decide) htook).orElse_reads hm, hmeans⟩
  · intro c c' p htook
    exact hheaded.fails_pair (by decide) htook

end CompoundBlocks

/-! ## Whole drafts -/

mutual

/-- Blocks are read as their tasks. -/
theorem reads_block {n : Nat} : (b : Block) → {text : List Char} → b.Legal → b.need ≤ n →
    b.Written text → ReadsBlock source n b.task text
  | .simple label description pairs, _, hlegal, hneed, hwritten => by
    rw [Block.need] at hneed
    obtain ⟨k, rfl⟩ := Nat.exists_eq_add_of_le' (show 1 ≤ n by omega)
    obtain ⟨hlabel, hdescription, hne, hpairs⟩ := hlegal
    obtain ⟨texts, gap, inner, htexts, hgap, hinner, rfl⟩ := hwritten
    have htextsNe : texts ≠ [] := by
      rintro rfl
      cases pairs with
      | nil => exact hne rfl
      | cons f pairs => simp [Phrase.WrittenPairs] at htexts
    rw [Block.task]
    exact readsBlock_simple hlabel hdescription hgap htextsNe hinner
      (readsParts_pairs hpairs (by omega) htexts)
  | .compound pairs body rescue always, _, hlegal, hneed, hwritten => by
    rw [Block.need] at hneed
    obtain ⟨k, rfl⟩ := Nat.exists_eq_add_of_le' (show 1 ≤ n by omega)
    obtain ⟨hpairs, hne, hbody, hrescue, halways⟩ := hlegal
    obtain ⟨pairTexts, bodyTexts, rescueTexts, alwaysTexts, inner, rescueText, alwaysText,
      hpairTexts, hbodyTexts, hinner, hrescueTexts, hrescueText, halwaysTexts, halwaysText,
      rfl⟩ := hwritten
    have hbodyRead := reads_blocks body hbody (n := k) (by omega) hbodyTexts
    have hrescueRead := reads_blocks rescue hrescue (n := k) (by omega) hrescueTexts
    have halwaysRead := reads_blocks always halways (n := k) (by omega) halwaysTexts
    have hbodyNe : bodyTexts ≠ [] := by
      rintro rfl
      cases body with
      | nil => exact hne rfl
      | cons b body => simp [Block.WrittenAll] at hbodyTexts
    rw [Block.task]
    exact readsBlock_compound (readsParts_pairs hpairs (by omega) hpairTexts) hbodyRead hrescueRead
      halwaysRead hbodyNe hinner hrescueText halwaysText

theorem reads_blocks {n : Nat} : (bs : List Block) → {texts : List (List Char)} →
    Block.LegalAll bs → Block.needAll bs ≤ n → Block.WrittenAll bs texts →
    ReadsBlocks source n texts (Block.tasks bs)
  | [], _, _, _, hwritten => by
    cases hwritten
    exact .nil
  | b :: bs, _, hlegal, hneed, hwritten => by
    obtain ⟨text, rest, htext, hrest, rfl⟩ := hwritten
    rw [Block.needAll, Nat.max_le] at hneed
    exact .cons (reads_block b hlegal.1 hneed.1 htext) (reads_blocks bs hlegal.2 hneed.2 hrest)

end

/-- The match is a pair or a block as the statement is. -/
def MeansStatement (source : List Char) : Statement → Match → Prop
  | .pair key content, m => MeansPair source (String.ofList key.name, content.expr) m
  | .block b, m => MeansTask source b.task m

theorem reads_statement {n : Nat} {s : Statement} (hlegal : s.Legal) (hneed : s.need ≤ n)
    (hwritten : s.Written text) :
    ReadsPart source (pair (value n) <|> block n) (MeansStatement source s) text := by
  cases s with
  | pair key content =>
      obtain ⟨valueText, hvalue, htext⟩ := hwritten
      have hcontent : ReadsText source (value n) (Means source content.expr) valueText :=
        reads_phrase content hlegal.2 hneed hvalue
      have hpair := readsPart_pair hlegal.1 hcontent htext
      refine ⟨hpair.opens, fun c c' hc htook hbreaks => ?_⟩
      obtain ⟨m, hm, hmeans⟩ := hpair.reads c c' hc htook hbreaks
      exact ⟨m, hm.orElse, hmeans⟩
  | block b =>
      have hblock : ReadsBlock source n b.task text := reads_block b hlegal hneed hwritten
      refine ⟨hblock.opens, fun c c' hc htook hbreaks => ?_⟩
      obtain ⟨m, hm, hmeans⟩ := hblock.reads c c' hc htook hbreaks
      exact ⟨m, (hblock.noPair _ htook).orElse_reads hm, hmeans⟩

theorem reads_statements (source : List Char) {n : Nat} {draft : Draft} (hlegal : draft.Legal)
    (hneed : draft.need ≤ n) (hwritten : List.Forall₂ Statement.Written draft texts) :
    List.Forall₂ (fun text s =>
      ReadsPart source (pair (value n) <|> block n) (MeansStatement source s) text)
      texts draft := by
  induction hwritten with
  | nil => exact .nil
  | cons htext _ ih =>
      rw [Draft.need, Nat.max_le] at hneed
      exact .cons (reads_statement (hlegal _ List.mem_cons_self) hneed.1 htext)
        (ih (fun s hs => hlegal s (List.mem_cons_of_mem _ hs)) hneed.2)

/-- Statements add their attributes and tasks to those before them. -/
theorem statements_of_means {draft : Draft} {ms : List Match}
    (h : List.Forall₂ (MeansStatement source) draft ms) (p : Plan) :
    ∃ p', Match.statements source p ms = .ok p'
      ∧ p'.attributes = Table.insertAll p.attributes (draft.filterMap Statement.entry?)
      ∧ Task.unspannedAll p'.tasks
        = Task.unspannedAll p.tasks ++ draft.filterMap Statement.task? := by
  induction h generalizing p with
  | nil => exact ⟨p, rfl, rfl, (List.append_nil _).symm⟩
  | @cons s m draft ms hm _ ih =>
      cases s with
      | pair key content =>
          obtain ⟨hrule, hpair⟩ := hm
          obtain ⟨p', hp', hattributes, htasks⟩ := ih
            { p with attributes := p.attributes.insert (String.ofList key.name) content.expr }
          refine ⟨p', ?_, hattributes, htasks⟩
          rw [Match.statements, hrule, hpair]
          exact hp'
      | block b =>
          obtain ⟨hrule, t, ht, hunspanned⟩ := hm
          obtain ⟨p', hp', hattributes, htasks⟩ := ih { p with tasks := p.tasks ++ [t] }
          refine ⟨p', ?_, hattributes, ?_⟩
          · rw [Match.statements]
            rcases hrule with hrule | hrule
            all_goals
              rw [hrule, ht]
              exact hp'
          · rw [htasks, Task.unspannedAll_append, List.append_assoc]
            simp [Task.unspannedAll, hunspanned, Statement.task?]

theorem reads_entry {draft : Draft} (hlegal : draft.Legal) (hneed : draft.need ≤ maxNesting)
    (hwritten : draft.Written source) :
    ∃ ms stop, entry.Reads ⟨source, 0⟩ (.node .entry 0 stop.offset ms) stop
      ∧ List.Forall₂ (MeansStatement source) draft ms := by
  obtain ⟨texts, gap, inner, htexts, hgap, hinner, rfl⟩ := hwritten
  let source := gap ++ inner
  let stop : Cursor := .atEnd source
  obtain ⟨c₁, hgapTook, hinnerTook⟩ := (Cursor.took_atEnd source).split
  have hread := reads_statements source hlegal hneed htexts
  have hcloses : Closes stop := rfl
  have hlayout : layout.Reads ⟨source, 0⟩ () c₁ := reads_layout hgapTook hgap
    (stops_of_sequence hinner (opens_of_readsParts hread) hinnerTook hcloses)
  obtain ⟨ms, hms, hmeans⟩ := reads_whole_sequence hinner hread
    ((Cursor.in_start source).of_le hgapTook.le) hinnerTook hcloses
    ((fails_pair_of_closes hcloses).orElse (fails_block_of_closes maxNesting hcloses))
  exact ⟨ms, stop, Reads.node (hlayout.bind (hms.bind ((reads_endOfInput rfl).bind
    (reads_pure ms stop)))), hmeans⟩

end Grammar

open Grammar

/-- Every text of a legal draft within the limit of nesting is accepted, and its plan is the plan of
the draft, whatever layout the text has. -/
theorem Draft.ofSource_written (draft : Draft) (source : List Char) (hlegal : draft.Legal)
    (hneed : draft.need ≤ maxNesting) (hwritten : draft.Written source) :
    ∃ p, Plan.ofSource source = .ok p ∧ p.unspanned = draft.plan := by
  obtain ⟨ms, stop, hreads, hmeans⟩ := reads_entry hlegal hneed hwritten
  obtain ⟨p, hstatements, hattributes, htasks⟩ := statements_of_means hmeans {}
  have hparse : parse source = .ok (.node .entry 0 stop.offset ms) := by
    rw [parse, hreads.runRuleOrReject, hreads.of_ensures (prune_entry _)]
  refine ⟨p, ?_, ?_⟩
  · rw [Plan.ofSource, hparse]
    show (Match.statements source {} ms).mapError _ = _
    rw [hstatements]
    rfl
  · rw [Plan.unspanned, hattributes, htasks]
    rfl

/-! A draft whose last block has the word of a clause as its label. -/

def watchedDraft : Draft :=
  [.pair (.quoted "who".toList) (.string "me".toList),
    .block (.compound [(.bare "when".toList, .call "up".toList [.number "1".toList])]
      [.simple "rescue".toList "say hi".toList [(.bare "a".toList, .number "1".toList)]] []
      [.simple "t".toList "x".toList [(.bare "b".toList, .index "x".toList [.dot "y".toList])]]),
    .block (.simple "rescue".toList "it".toList [(.bare "c".toList, .bool true)])]

def watchedSource : List Char :=
  ("'who': 'me' # i\nblock{when:up(1,) rescue[say hi]{a:1}}\nalways{t[x]{b:x.y}} "
    ++ "rescue[it]{c:true}").toList

theorem legal_watchedDraft : watchedDraft.Legal := by
  have hone : IsNumeral "1".toList := .plain (.whole rfl)
  have hindex : (Phrase.index "x".toList [.dot "y".toList]).Legal :=
    ⟨⟨rfl, by decide⟩, by simp, by simp [Segment.Legal]; decide⟩
  simp only [watchedDraft, Draft.Legal, List.forall_mem_cons]
  refine ⟨⟨List.all_eq_true.mp rfl, List.all_eq_true.mp rfl⟩, ?_, ?_, by simp⟩
  · exact ⟨⟨rfl, ⟨⟨rfl, by decide⟩, hone, trivial⟩, trivial⟩, by simp,
      ⟨⟨rfl, rfl, by simp, rfl, hone, trivial⟩, trivial⟩, trivial,
      ⟨rfl, rfl, by simp, rfl, hindex, trivial⟩, trivial⟩
  · exact ⟨rfl, rfl, by simp, rfl, trivial, trivial⟩

/-- A simple block of one pair, without layout. -/
theorem Draft.Block.written_simple {label description key value text : List Char} {content : Phrase}
    (h : content.Written value) (htext : text
      = label ++ '[' :: description ++ ']' :: '\x7b' :: key ++ ':' :: value ++ ['\x7d']) :
    (Block.simple label description [(.bare key, content)]).Written text := by
  refine ⟨[key ++ ':' :: value], [], '\x7b' :: key ++ ':' :: value ++ ['\x7d'], ?_, .nil, ?_, ?_⟩
  · refine ⟨value, _, [], h, ?_, rfl, rfl⟩
    simpa [Key.chars] using @PairText.intro (.bare key) value [] [] .nil .nil
  · simpa using
      @Enclosed.intro _ [] [] _ .nil .nil (@Sequence.last (key ++ ':' :: value) [] .nil)
  · simp [htext]

theorem written_watchedDraft : watchedDraft.Written watchedSource := by
  have hblank : Layout [' '] := .blank rfl .nil
  have hline : Layout ['\n'] := .blank rfl .nil
  have hnote : Layout " # i\n".toList :=
    .blank rfl (@Layout.comment " i".toList [] (by decide) .nil)
  have hcall : (Phrase.call "up".toList [.number "1".toList]).Written "up(1,)".toList :=
    ⟨["1".toList], "1,".toList, ⟨_, [], rfl, rfl, rfl⟩,
      @Listed.intro _ [] "1".toList [] .nil (@Separated.cons "1".toList [] [] [] .nil .nil) .nil,
      rfl⟩
  have hwhen : Phrase.WrittenPairs [(.bare "when".toList, .call "up".toList [.number "1".toList])]
      ["when:up(1,)".toList] :=
    ⟨_, _, [], hcall, @PairText.intro _ _ [] [] .nil .nil, rfl, rfl⟩
  refine ⟨["'who': 'me'".toList,
    "block{when:up(1,) rescue[say hi]{a:1}}\nalways{t[x]{b:x.y}}".toList,
    "rescue[it]{c:true}".toList], [], _, .cons ?_ (.cons ?_ (.cons ?_ .nil)), .nil,
    .cons hnote (by simp) (.cons hblank (by simp) (.last .nil)), ?_⟩
  · exact ⟨_, rfl, @PairText.intro (.quoted "who".toList) "'me'".toList [] [' '] .nil hblank⟩
  · exact ⟨_, ["rescue[say hi]{a:1}".toList], [], ["t[x]{b:x.y}".toList], _, [], _, hwhen,
      ⟨_, [], Block.written_simple rfl rfl, rfl, rfl⟩,
      @Enclosed.intro _ [] [] _ .nil .nil (.cons hblank (by simp) (.last .nil)), rfl, .absent,
      ⟨_, [], Block.written_simple rfl rfl, rfl, rfl⟩,
      .present (by simp) hline (@Enclosed.intro _ [] [] _ .nil .nil (.last .nil)),
      by decide +kernel⟩
  · exact Block.written_simple rfl rfl
  · decide +kernel

/-- The label is not taken for a clause. -/
theorem ofSource_written_watched : watchedDraft.Legal ∧ watchedDraft.need ≤ maxNesting
    ∧ watchedDraft.Written watchedSource
    ∧ ∃ p, Plan.ofSource watchedSource = .ok p ∧ p.unspanned = watchedDraft.plan :=
  ⟨legal_watchedDraft, by decide, written_watchedDraft,
    watchedDraft.ofSource_written watchedSource legal_watchedDraft (by decide)
      written_watchedDraft⟩

end Playbooks
