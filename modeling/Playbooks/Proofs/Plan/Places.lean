import Playbooks.Proofs.Plan.Lowering
import Playbooks.Proofs.Plan.Walk
import Playbooks.Proofs.Syntax.Failures

/-!
# Places of tasks

The span of a task is the part of the source that describes it. Nested tasks are described inside
it, one after the other: first those of the body, then those of the two clauses.

## Main definitions

* `Task.InOrder`: tasks that lie between two offsets, one after the other.
* `Task.Placed`: the span of a task is a part of the source with the nested tasks inside.

## Main results

* `Plan.placed_of_ofSource`: all tasks of a plan that was read from a source are placed in it.
-/
namespace Playbooks

open Playbooks.Parser Grammar

namespace Task

/-- The spans of the tasks lie between two offsets, one after the other. -/
structure InOrder (start : Nat) (ts : List Task) (stop : Nat) : Prop where
  start_le : ∀ t ∈ ts, start ≤ t.span.start
  le_stop : ∀ t ∈ ts, t.span.stop ≤ stop
  apart : ts.Pairwise fun t u => t.span.stop ≤ u.span.start

/-- The span of the task is a part of the source; nested tasks lie inside it, one after the
other. -/
structure Placed (source : List Char) (t : Task) : Prop where
  pointsInto : t.span.PointsInto source
  nested : ∀ u ∈ t.children, t.span.contains u.span = true
  apart : t.children.Pairwise fun u v => u.span.stop ≤ v.span.start

namespace InOrder

variable {a b c a' b' : Nat} {ts us : List Task} {t : Task}

theorem nil (a b : Nat) : InOrder a [] b :=
  ⟨by simp, by simp, by simp⟩

theorem single (hstart : a ≤ t.span.start) (hstop : t.span.stop ≤ b) : InOrder a [t] b :=
  ⟨by simpa using hstart, by simpa using hstop, by simp⟩

theorem widen (h : InOrder a ts b) (ha : a' ≤ a) (hb : b ≤ b') : InOrder a' ts b' where
  start_le t ht := Nat.le_trans ha (h.start_le t ht)
  le_stop t ht := Nat.le_trans (h.le_stop t ht) hb
  apart := h.apart

theorem append (h : InOrder a ts b) (h' : InOrder b us c) (hab : a ≤ b) (hbc : b ≤ c) :
    InOrder a (ts ++ us) c where
  start_le t ht := by
    rcases List.mem_append.mp ht with ht | ht
    · exact h.start_le t ht
    · exact Nat.le_trans hab (h'.start_le t ht)
  le_stop t ht := by
    rcases List.mem_append.mp ht with ht | ht
    · exact Nat.le_trans (h.le_stop t ht) hbc
    · exact h'.le_stop t ht
  apart := List.pairwise_append.mpr ⟨h.apart, h'.apart, fun t ht u hu =>
    Nat.le_trans (h.le_stop t ht) (h'.start_le u hu)⟩

/-- Tasks in order inside the span of a task are placed there. -/
theorem placed {source : List Char} (hspan : t.span.PointsInto source)
    (h : InOrder t.span.start t.children t.span.stop) : t.Placed source where
  pointsInto := hspan
  nested u hu := by simp [Span.contains, h.start_le u hu, h.le_stop u hu]
  apart := h.apart

end InOrder

/-- The second task has the place and the nested tasks of the first. -/
structure SameFrame (t t' : Task) : Prop where
  span : t'.span = t.span
  body : t'.body = t.body
  rescue : t'.rescue = t.rescue
  always : t'.always = t.always

theorem SameFrame.refl (t : Task) : t.SameFrame t :=
  ⟨rfl, rfl, rfl, rfl⟩

theorem SameFrame.trans {t t' t'' : Task} (h : t.SameFrame t') (h' : t'.SameFrame t'') :
    t.SameFrame t'' :=
  ⟨h'.span.trans h.span, h'.body.trans h.body, h'.rescue.trans h.rescue, h'.always.trans h.always⟩

theorem sameFrame_addSimplePair (t : Task) (key : String) (e : Expr) :
    t.SameFrame (t.addSimplePair key e) := by
  rcases t.addSimplePair_cases key e with ⟨_, -, h⟩ | ⟨_, -, h⟩ | ⟨_, _, -, h⟩ | h
  all_goals
    rw [h]
    exact ⟨rfl, rfl, rfl, rfl⟩

theorem sameFrame_addCompoundPair (t : Task) (key : String) (e : Expr) :
    t.SameFrame (t.addCompoundPair key e) := by
  rcases t.addCompoundPair_cases key e with ⟨_, -, h⟩ | ⟨_, _, -, h⟩ | h
  all_goals
    rw [h]
    exact ⟨rfl, rfl, rfl, rfl⟩

end Task

/-! ## Parts of blocks -/

namespace Match

variable {source : List Char} {t t' : Task} {ms : List Match}

theorem tasks_cons_eq_ok {m : Match} {ts : List Task} (h : tasks source (m :: ms) = .ok ts) :
    ∃ first others, ts = first :: others ∧ m.task source = .ok first
      ∧ tasks source ms = .ok others := by
  rw [tasks] at h
  obtain ⟨first, hfirst, h⟩ := exists_of_bind_eq_ok h
  obtain ⟨others, hothers, h⟩ := exists_of_bind_eq_ok h
  cases h
  exact ⟨first, others, rfl, hfirst, hothers⟩

theorem sameFrame_of_simplePairs (h : simplePairs source t ms = .ok t') : t.SameFrame t' := by
  induction ms generalizing t with
  | nil =>
      cases h
      exact .refl _
  | cons m ms ih =>
      rw [simplePairs] at h
      split at h
      · obtain ⟨⟨k, e⟩, -, h⟩ := exists_of_bind_eq_ok h
        exact (t.sameFrame_addSimplePair k e).trans (ih h)
      · exact ih h

/-- The pairs of a compound block come before its other parts. -/
theorem sameFrame_of_compoundParts {rest : List Match} (hpairs : ∀ m ∈ ms, m.rule = .pair)
    (h : compoundParts source t (ms ++ rest) = .ok t') :
    ∃ t₁, compoundParts source t₁ rest = .ok t' ∧ t.SameFrame t₁ := by
  induction ms generalizing t with
  | nil => exact ⟨t, h, .refl t⟩
  | cons m ms ih =>
      obtain ⟨rule, span, children⟩ := m
      obtain rfl : rule = .pair := hpairs _ List.mem_cons_self
      rw [List.cons_append, compoundParts] at h
      obtain ⟨⟨k, e⟩, -, h⟩ := exists_of_bind_eq_ok h
      obtain ⟨t₁, hrest, hframe⟩ := ih (fun m hm => hpairs m (List.mem_cons_of_mem _ hm)) h
      exact ⟨t₁, hrest, (t.sameFrame_addCompoundPair k e).trans hframe⟩

/-- The blocks of a clause that may be left out. -/
def clauseBlocks (found : Option Match) : List Match :=
  (found.map (·.children)).getD []

/-- The tasks of a clause take their place in the compound task; a clause that was left out changes
nothing. -/
theorem clause_of_compoundParts {found : Option Match} {rule : Rule} {rest : List Match}
    (put : List Task → Task) (hrule : ∀ m ∈ found, m.rule = rule)
    (hput : ∀ span children, compoundParts source t (⟨rule, span, children⟩ :: rest)
      = (tasks source children >>= fun ts => compoundParts source (put ts) rest))
    (hnone : put [] = t) (h : compoundParts source t (found.toList ++ rest) = .ok t') :
    ∃ ts, tasks source (clauseBlocks found) = .ok ts
      ∧ compoundParts source (put ts) rest = .ok t' := by
  cases found with
  | none => exact ⟨[], rfl, by rwa [hnone]⟩
  | some m =>
      obtain ⟨rule', span, children⟩ := m
      obtain rfl : rule' = rule := hrule _ rfl
      rw [Option.toList_some, List.singleton_append, hput] at h
      exact exists_of_bind_eq_ok h

/-- The nested tasks of a compound block are those of its body and then those of its clauses. -/
theorem children_of_compoundParts {pairs blocks : List Match} {rescue always : Option Match}
    {span span' : Span} (hpairs : ∀ m ∈ pairs, m.rule = .pair)
    (hrescue : ∀ m ∈ rescue, m.rule = .rescue) (halways : ∀ m ∈ always, m.rule = .always)
    (h : compoundParts source { span }
      (pairs ++ ⟨.body, span', blocks⟩ :: (rescue.toList ++ always.toList)) = .ok t) :
    ∃ inBody inRescue inAlways, tasks source blocks = .ok inBody
      ∧ tasks source (clauseBlocks rescue) = .ok inRescue
      ∧ tasks source (clauseBlocks always) = .ok inAlways
      ∧ t.span = span ∧ t.body = inBody ∧ t.rescue = inRescue ∧ t.always = inAlways := by
  obtain ⟨t₁, h, hframe⟩ := sameFrame_of_compoundParts hpairs h
  rw [compoundParts] at h
  obtain ⟨inBody, hbody, h⟩ := exists_of_bind_eq_ok h
  obtain ⟨inRescue, hinRescue, h⟩ := clause_of_compoundParts
    (fun ts => { t₁ with body := inBody, rescue := ts }) hrescue (fun _ _ => rfl)
    (by rw [hframe.rescue]) h
  rw [← List.append_nil always.toList] at h
  obtain ⟨inAlways, hinAlways, h⟩ := clause_of_compoundParts
    (fun ts => { t₁ with body := inBody, rescue := inRescue, always := ts }) halways
    (fun _ _ => rfl) (by rw [hframe.always]) h
  cases h
  exact ⟨inBody, inRescue, inAlways, hbody, hinRescue, hinAlways, hframe.span, rfl, rfl, rfl⟩

end Match

/-! ## What reading promises -/

section Promises

variable (source : List Char)

/-- The task of the match is placed between the cursors. -/
structure PlacesTask (c : Cursor) (m : Match) (c' : Cursor) : Prop where
  le : c ≤ c'
  rule_eq : m.rule = .simpleBlock ∨ m.rule = .compoundBlock
  task : c.In source → ∀ t, m.task source = .ok t →
    Task.InOrder c.offset [t] c'.offset ∧ t.Throughout (Task.Placed source)

/-- The tasks of the matches are placed between the cursors, one after the other. -/
structure PlacesTasks (c : Cursor) (ms : List Match) (c' : Cursor) : Prop where
  le : c ≤ c'
  tasks : c.In source → ∀ ts, Match.tasks source ms = .ok ts →
    Task.InOrder c.offset ts c'.offset ∧ Task.ThroughoutAll (Task.Placed source) ts

/-- A match is a pair, or a task that is placed between the cursors. -/
def PlacesStatement (c : Cursor) (m : Match) (c' : Cursor) : Prop :=
  (m.rule = .pair ∧ c ≤ c') ∨ PlacesTask source c m c'

/-- The statements add tasks that are placed between the cursors, one after the other. -/
structure PlacesStatements (c : Cursor) (ms : List Match) (c' : Cursor) : Prop where
  le : c ≤ c'
  statements : c.In source → ∀ p p', Match.statements source p ms = .ok p' →
    ∃ ts, p'.tasks = p.tasks ++ ts ∧ Task.InOrder c.offset ts c'.offset
      ∧ Task.ThroughoutAll (Task.Placed source) ts

end Promises

variable {source : List Char} {c c₁ c' c'' : Cursor} {m : Match} {ms : List Match}

theorem PlacesTask.start (h : PlacesTask source c₁ m c') (hle : c ≤ c₁) :
    PlacesTask source c m c' where
  le := le_trans hle h.le
  rule_eq := h.rule_eq
  task hc t ht := by
    obtain ⟨horder, hplaced⟩ := h.task (hc.of_le hle) t ht
    exact ⟨horder.widen (Cursor.offset_le_of_le hle) (Nat.le_refl _), hplaced⟩

theorem PlacesTask.stop (h : PlacesTask source c m c') (hle : c' ≤ c'') :
    PlacesTask source c m c'' where
  le := le_trans h.le hle
  rule_eq := h.rule_eq
  task hc t ht := by
    obtain ⟨horder, hplaced⟩ := h.task hc t ht
    exact ⟨horder.widen (Nat.le_refl _) (Cursor.offset_le_of_le hle), hplaced⟩

theorem PlacesTasks.start (h : PlacesTasks source c₁ ms c') (hle : c ≤ c₁) :
    PlacesTasks source c ms c' where
  le := le_trans hle h.le
  tasks hc ts hts := by
    obtain ⟨horder, hplaced⟩ := h.tasks (hc.of_le hle) ts hts
    exact ⟨horder.widen (Cursor.offset_le_of_le hle) (Nat.le_refl _), hplaced⟩

theorem PlacesTasks.stop (h : PlacesTasks source c ms c') (hle : c' ≤ c'') :
    PlacesTasks source c ms c'' where
  le := le_trans h.le hle
  tasks hc ts hts := by
    obtain ⟨horder, hplaced⟩ := h.tasks hc ts hts
    exact ⟨horder.widen (Nat.le_refl _) (Cursor.offset_le_of_le hle), hplaced⟩

theorem listing_placesTasks : Listing (PlacesTask source) (PlacesTasks source) where
  nil hle := ⟨hle, fun _ ts h => by
    cases h
    exact ⟨.nil _ _, trivial⟩⟩
  cons hm hms := ⟨le_trans hm.le hms.le, fun hc ts h => by
    obtain ⟨t, ts, rfl, ht, hts⟩ := Match.tasks_cons_eq_ok h
    obtain ⟨horder, hplaced⟩ := hm.task hc t ht
    obtain ⟨horder', hplaced'⟩ := hms.tasks (hc.of_le hm.le) ts hts
    exact ⟨horder.append horder' (Cursor.offset_le_of_le hm.le) (Cursor.offset_le_of_le hms.le),
      hplaced, hplaced'⟩⟩
  start := PlacesTask.start
  stop := PlacesTask.stop
  stopAll := PlacesTasks.stop

theorem listing_placesStatements :
    Listing (PlacesStatement source) (PlacesStatements source) where
  nil hle := ⟨hle, fun _ p p' h => by
    cases h
    exact ⟨[], by simp, .nil _ _, trivial⟩⟩
  cons {c c₁ c₂ m ms} hm hms := by
    rcases hm with ⟨hrule, hle⟩ | hm
    · refine ⟨le_trans hle hms.le, fun hc p p' h => ?_⟩
      rw [Match.statements, hrule] at h
      obtain ⟨⟨k, e⟩, -, h⟩ := exists_of_bind_eq_ok h
      obtain ⟨ts, htasks, horder, hplaced⟩ := hms.statements (hc.of_le hle) _ p' h
      exact ⟨ts, htasks, horder.widen (Cursor.offset_le_of_le hle) (Nat.le_refl _), hplaced⟩
    · refine ⟨le_trans hm.le hms.le, fun hc p p' h => ?_⟩
      have hstep : (m.task source >>= fun t =>
          Match.statements source { p with tasks := p.tasks ++ [t] } ms) = .ok p' := by
        rcases hm.rule_eq with hrule | hrule
        · rwa [Match.statements, hrule] at h
        · rwa [Match.statements, hrule] at h
      obtain ⟨t, ht, h⟩ := exists_of_bind_eq_ok hstep
      obtain ⟨horder, hplaced⟩ := hm.task hc t ht
      obtain ⟨ts, htasks, horder', hplaced'⟩ := hms.statements (hc.of_le hm.le) _ p' h
      refine ⟨t :: ts, by simpa using htasks, ?_, hplaced, hplaced'⟩
      exact horder.append horder' (Cursor.offset_le_of_le hm.le) (Cursor.offset_le_of_le hms.le)
  start hm hle := hm.imp (fun h => ⟨h.1, le_trans hle h.2⟩) (·.start hle)
  stop hm hle := hm.imp (fun h => ⟨h.1, le_trans h.2 hle⟩) (·.stop hle)
  stopAll hms hle := ⟨le_trans hms.le hle, fun hc p p' h => by
    obtain ⟨ts, htasks, horder, hplaced⟩ := hms.statements hc p p' h
    exact ⟨ts, htasks, horder.widen (Nat.le_refl _) (Cursor.offset_le_of_le hle), hplaced⟩⟩

/-! ## Blocks -/

/-- A task over what was read between two cursors, with nested tasks between them. -/
theorem placed_between {t : Task} (hc : c.In source) (hle : c ≤ c')
    (hspan : t.span = .ofBounds c.offset c'.offset)
    (horder : Task.InOrder c.offset t.children c'.offset)
    (hnested : Task.ThroughoutAll (Task.Placed source) t.body
      ∧ Task.ThroughoutAll (Task.Placed source) t.rescue
      ∧ Task.ThroughoutAll (Task.Placed source) t.always) :
    Task.InOrder c.offset [t] c'.offset ∧ t.Throughout (Task.Placed source) := by
  have hoffset := Cursor.offset_le_of_le hle
  have hstart : t.span.start = c.offset := by rw [hspan, Span.start_ofBounds]
  have hstop : t.span.stop = c'.offset := by
    rw [hspan, Span.stop_ofBounds, Nat.max_eq_right hoffset]
  have hpoints : t.span.PointsInto source := by
    rw [hspan]
    exact Span.pointsInto_ofBounds hoffset hc.isBoundary (hc.of_le hle).isBoundary
  refine ⟨.single (Nat.le_of_eq hstart.symm) (Nat.le_of_eq hstop),
    Task.throughout_iff.mpr ⟨?_, hnested⟩⟩
  exact Task.InOrder.placed hpoints (by rwa [hstart, hstop])

namespace Grammar

section Blocks

variable {value block : Parser Match}

theorem places_simpleBlock (h : ∀ c, value.Ensures c (Match.Formed c)) (c : Cursor) :
    (simpleBlock value).Ensures c (PlacesTask source c) := by
  have hshape : (simpleBlock value).Ensures c fun m c' =>
      ∃ children, m = .node .simpleBlock c.offset c'.offset children :=
    Ensures.node fun _ children _ _ => ⟨children, rfl⟩
  refine ((formed_simpleBlock h c).and hshape).mono ?_
  rintro _ c' ⟨hformed, children, rfl⟩
  have hle := le_of_lt hformed.lt
  refine ⟨hle, Or.inl rfl, fun hc t ht => ?_⟩
  rw [Match.node, Match.task, Match.simpleTask] at ht
  obtain ⟨hspan, hbody, hrescue, halways⟩ := Match.sameFrame_of_simplePairs ht
  refine placed_between hc hle hspan ?_ ?_
  · rw [Task.children, hbody, hrescue, halways]
    exact .nil _ _
  · rw [hbody, hrescue, halways]
    exact ⟨trivial, trivial, trivial⟩

theorem places_blocks (h : ∀ c, block.Ensures c (PlacesTask source c)) (c : Cursor) :
    (many1 (lexeme block)).Ensures c (PlacesTasks source c) :=
  (listing_placesTasks.many1 (fun c => listing_placesTasks.lexeme (h c)) c).mono fun _ _ h => h.1

/-- The tasks of a body. -/
theorem places_body (h : ∀ c, block.Ensures c (PlacesTask source c)) (c : Cursor) :
    (body block).Ensures c fun m c' =>
      ∃ span blocks, m = ⟨.body, span, blocks⟩ ∧ PlacesTasks source c blocks c' := by
  refine (reads_offset c).ensures_bind ((places_blocks h c).bind fun blocks c₁ hblocks => ?_)
  exact ensures_pure ⟨_, blocks, rfl, hblocks⟩

/-- The tasks of a clause that may be left out. -/
theorem places_clause (rule : Rule) (word : String)
    (h : ∀ c, block.Ensures c (PlacesTask source c)) (c : Cursor) :
    (option (layout >>= fun _ => clause rule word block)).Ensures c fun found c' =>
      (∀ m ∈ found, m.rule = rule) ∧ PlacesTasks source c (Match.clauseBlocks found) c' := by
  refine Ensures.option ((ensures_layout c).bind fun _ c₁ hgap => ?_)
    ⟨by simp, listing_placesTasks.nil (le_refl c)⟩
  have hkeyword : (lexeme (keyword word)).Ensures c₁ fun _ c' => c₁ ≤ c' :=
    ensures_lexeme (ensures_keyword word c₁) fun _ _ _ hword hgap => le_trans hword.1.le hgap
  refine Ensures.node (hkeyword.bind fun _ c₂ hword => ?_)
  refine (lt_of_lexeme (lt_of_mark '\x7b' c₂)).bind fun _ c₃ hopen => ?_
  refine (places_blocks h c₃).bind fun blocks c₄ hblocks => ?_
  refine (lt_of_mark '\x7d' c₄).bind fun _ c₅ hclose => ensures_pure ⟨by simp [Match.node], ?_⟩
  have hstart : c ≤ c₃ := le_trans hgap (le_trans hword (le_of_lt hopen))
  exact (hblocks.start hstart).stop (le_of_lt hclose)

/-- Pairs one after the other. -/
theorem listing_pairs : Listing (fun c m c' => m.rule = .pair ∧ c ≤ c')
    (fun c ms c' => (∀ m ∈ ms, m.rule = .pair) ∧ c ≤ c') where
  nil hle := ⟨by simp, hle⟩
  cons hm hms := ⟨by simpa using ⟨hm.1, hms.1⟩, le_trans hm.2 hms.2⟩
  start hm hle := ⟨hm.1, le_trans hle hm.2⟩
  stop hm hle := ⟨hm.1, le_trans hm.2 hle⟩
  stopAll hms hle := ⟨hms.1, le_trans hms.2 hle⟩

theorem rule_of_pair (h : ∀ c, value.Ensures c (Lowers source c)) (c : Cursor) :
    (pair value).Ensures c fun m c' => m.rule = .pair ∧ c ≤ c' :=
  (lowers_pair h c).mono fun _ _ h => ⟨h.rule_eq, h.le⟩

theorem places_compoundBlock (hvalue : ∀ c, value.Ensures c (Lowers source c))
    (hblock : ∀ c, block.Ensures c (PlacesTask source c)) (c : Cursor) :
    (compoundBlock value block).Ensures c (PlacesTask source c) := by
  refine Ensures.node ((lt_of_lexeme (lt_of_keyword (by decide) c)).bind fun _ c₁ hkeyword => ?_)
  refine (lt_of_lexeme (lt_of_mark '\x7b' c₁)).bind fun _ c₂ hopen => ?_
  refine (listing_pairs.many (fun c => listing_pairs.lexeme (rule_of_pair hvalue c)) c₂).bind ?_
  rintro pairs c₃ ⟨hpairs, hpairsAt⟩
  refine (places_body hblock c₃).bind ?_
  rintro _ c₄ ⟨span, blocks, rfl, hbody⟩
  refine (lt_of_mark '\x7d' c₄).bind fun _ c₅ hclose => ?_
  refine (places_clause .rescue "rescue" hblock c₅).bind ?_
  rintro rescue c₆ ⟨hrescue, hinRescue⟩
  refine (places_clause .always "always" hblock c₆).bind ?_
  rintro always c₇ ⟨halways, hinAlways⟩
  have hbodyAt : c ≤ c₃ := le_trans (le_of_lt (lt_trans hkeyword hopen)) hpairsAt
  have hinBody := (hbody.start hbodyAt).stop (le_of_lt hclose)
  have hle : c ≤ c₇ := le_trans hinBody.le (le_trans hinRescue.le hinAlways.le)
  refine ensures_pure ⟨hle, Or.inr rfl, fun hc t ht => ?_⟩
  rw [Match.node, Match.task, List.append_assoc, List.cons_append] at ht
  obtain ⟨t', hparts, ht⟩ := exists_of_bind_eq_ok ht
  obtain ⟨inBody, inRescue, inAlways, hbodyTasks, hrescueTasks, halwaysTasks, hspan, rfl, rfl,
    rfl⟩ := Match.children_of_compoundParts hpairs hrescue halways hparts
  obtain rfl : t' = t := by
    split at ht
    · cases ht
    · cases ht
      rfl
  -- Body and clauses were read one after the other, from `c` on.
  obtain ⟨hbodyOrder, hbodyPlaced⟩ := hinBody.tasks hc _ hbodyTasks
  obtain ⟨hrescueOrder, hrescuePlaced⟩ := hinRescue.tasks (hc.of_le hinBody.le) _ hrescueTasks
  obtain ⟨halwaysOrder, halwaysPlaced⟩ :=
    hinAlways.tasks (hc.of_le (le_trans hinBody.le hinRescue.le)) _ halwaysTasks
  have horder := (hbodyOrder.append hrescueOrder (Cursor.offset_le_of_le hinBody.le)
    (Cursor.offset_le_of_le hinRescue.le)).append halwaysOrder
      (Cursor.offset_le_of_le (le_trans hinBody.le hinRescue.le))
      (Cursor.offset_le_of_le hinAlways.le)
  exact placed_between hc hle hspan horder ⟨hbodyPlaced, hrescuePlaced, halwaysPlaced⟩

end Blocks

theorem places_block (n : Nat) (c : Cursor) : (block n).Ensures c (PlacesTask source c) := by
  induction n generalizing c with
  | zero => exact (fails_refuse _ c).ensures
  | succ n ih =>
      exact (places_simpleBlock (formed_value n) c).orElse
        (places_compoundBlock (lowers_value source n) ih c)

/-! ## Whole sources -/

theorem places_entry (source : List Char) (c : Cursor) : entry.Ensures c fun m _ =>
    c.In source → ∀ p, Plan.ofTree m source = .ok p →
      p.Throughout (Task.Placed source)
        ∧ p.tasks.Pairwise fun t u => t.span.stop ≤ u.span.start := by
  have hstatement (c : Cursor) : (pair (value maxNesting) <|> block maxNesting).Ensures c
      (PlacesStatement source c) :=
    ((rule_of_pair (lowers_value source _) c).mono fun _ _ h => Or.inl h).orElse
      ((places_block _ c).mono fun _ _ h => Or.inr h)
  refine Ensures.node ((ensures_layout c).bind fun _ c₁ hgap => ?_)
  refine (listing_placesStatements.many
    (fun c => listing_placesStatements.lexeme (hstatement c)) c₁).bind fun ms c₂ hms => ?_
  refine (ensures_endOfInput c₂).bind fun _ c₃ _ => ensures_pure fun hc p hp => ?_
  obtain ⟨ts, htasks, horder, hplaced⟩ := hms.statements (hc.of_le hgap) {} p hp
  rw [List.nil_append] at htasks
  rw [Plan.Throughout, htasks]
  exact ⟨hplaced, horder.apart⟩

end Grammar

namespace Plan

variable {p : Plan}

/-- A plan that was read from a source is the plan of a tree of the grammar. -/
theorem exists_tree_of_ofSource {Q : Match → Prop}
    (hentry : entry.Ensures ⟨source, 0⟩ fun m _ => Q m) (h : ofSource source = .ok p) :
    ∃ tree, Q tree ∧ ofTree tree source = .ok p := by
  obtain ⟨tree, htree, h⟩ := exists_of_bind_eq_ok h
  obtain ⟨m, c', ⟨hprune, hQ⟩, rfl⟩ := runRuleOrReject_ok ((prune_entry _).and hentry) htree
  refine ⟨m, hQ, ?_⟩
  rw [hprune] at h
  cases hm : ofTree m source with
  | error flaw =>
      rw [hm] at h
      cases h
  | ok p' =>
      rw [hm] at h
      cases h
      rfl

/-- All tasks of a plan that was read from a source are placed in it, and so are the tasks that are
nested in no other. -/
theorem placed_of_ofSource (h : ofSource source = .ok p) :
    p.Throughout (Task.Placed source)
      ∧ p.tasks.Pairwise fun t u => t.span.stop ≤ u.span.start := by
  obtain ⟨tree, hplaces, htree⟩ := exists_tree_of_ofSource (places_entry source _) h
  exact hplaces (Cursor.in_start source) p htree

theorem wellKinded_of_ofSource (h : ofSource source = .ok p) :
    (∀ f ∈ p.attributes, f.2.Known) ∧ p.Throughout Task.WellKinded := by
  obtain ⟨tree, hlowers, htree⟩ := exists_tree_of_ofSource (lowers_entry source _) h
  obtain ⟨p', hp', hknown, hkinded⟩ := hlowers (Cursor.in_start source)
  obtain rfl : p' = p := Except.ok.inj (hp'.symm.trans htree)
  exact ⟨hknown, hkinded⟩

/-- A source is rejected only because reading it failed. -/
theorem exists_of_ofSource_error {rejection : Rejection} (h : ofSource source = .error rejection) :
    ∃ e, runRule entry source = .error e ∧ rejection = .ofDiagnostic (e.diagnostic source) := by
  cases hrun : runRule entry source with
  | error e =>
      refine ⟨e, rfl, ?_⟩
      rw [ofSource, parse, runRuleOrReject, hrun] at h
      cases h
      rfl
  | ok tree =>
      have hparse : parse source = .ok tree := by
        rw [parse, runRuleOrReject, hrun]
        rfl
      obtain ⟨m, c', ⟨hprune, hlowers⟩, rfl⟩ :=
        runRuleOrReject_ok ((prune_entry _).and (lowers_entry source _)) hparse
      obtain ⟨p, hp, -⟩ := hlowers (Cursor.in_start source)
      rw [ofSource, hparse, hprune] at h
      change (ofTree m source).mapError _ = _ at h
      rw [hp] at h
      cases h

end Plan

end Playbooks
