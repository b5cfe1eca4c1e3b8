import Playbooks.Expr.Text
import Playbooks.Proofs.Expr.Lowering

/-!
# Plans of parse trees

Every accepted source has a plan, and every accepted value an expression: no tree of the grammar is
malformed. Tasks at every depth are of one of two kinds, and nothing in them is unknown.

## Main results

* `lowering_total`: accepted sources have well-kinded plans and known expressions.
-/
namespace Playbooks

open Playbooks.Parser Grammar

/-! ## Kinds of tasks -/

/-- Nothing in the expression is unknown. -/
def Expr.Known (e : Expr) : Prop :=
  e.Throughout (· ≠ .unknown)

/-- A text that describes a simple task: some text, without blanks at its ends and without the
characters that would end it. -/
structure IsDescription (s : String) : Prop where
  ne_empty : s ≠ ""
  trim_eq : Text.trim s.toList = s.toList
  no_break : '\n' ∉ s.toList
  no_bracket : ']' ∉ s.toList
  no_comment : '#' ∉ s.toList

namespace Task

/-- Nothing that the task holds itself is unknown. -/
structure Known (t : Task) : Prop where
  args : ∀ f ∈ t.args, f.2.Known
  extra : ∀ f ∈ t.extra, f.2.Known
  condition : ∀ call, t.condition = some call → call.toExpr.Known

/-- No nested tasks, and a proper description. -/
structure Simple (t : Task) : Prop where
  body : t.body = []
  rescue : t.rescue = []
  always : t.always = []
  description : IsDescription t.description

/-- Nested tasks, and no module of its own. -/
structure Compound (t : Task) : Prop where
  body : t.body ≠ []
  moduleName : t.moduleName = none
  args : t.args = []

/-- The task is of one of the two kinds. -/
def WellKinded (t : Task) : Prop :=
  (t.Simple ∨ t.Compound) ∧ t.Known

theorem throughout_iff {P : Task → Prop} {t : Task} :
    t.Throughout P ↔ P t ∧ ThroughoutAll P t.body ∧ ThroughoutAll P t.rescue
      ∧ ThroughoutAll P t.always := by
  cases t
  simp [Throughout]

/-! ## Adding pairs -/

variable {t : Task} {key : String} {e : Expr}

theorem Known.insert_extra (h : t.Known) (he : e.Known) :
    Known { t with extra := Table.insert key e t.extra } where
  args := h.args
  condition := h.condition
  extra := by
    intro f hf
    rcases Table.mem_insert hf with rfl | hf
    · exact he
    · exact h.extra f hf

/-- A pair of a simple task gives the module, the arguments or the condition, or is kept aside. -/
theorem addSimplePair_cases (t : Task) (key : String) (e : Expr) :
    (∃ s, e = .string s ∧ t.addSimplePair key e = { t with moduleName := some s })
      ∨ (∃ fields, e = .object fields ∧ t.addSimplePair key e = { t with args := fields })
      ∨ (∃ name args, e = .call name args
        ∧ t.addSimplePair key e = { t with condition := some ⟨name, args⟩ })
      ∨ t.addSimplePair key e = { t with extra := Table.insert key e t.extra } := by
  cases e with
  | string s =>
      by_cases h : key = "module" ∧ t.moduleName.isNone
      · exact Or.inl ⟨s, rfl, if_pos h⟩
      · exact Or.inr (Or.inr (Or.inr (if_neg h)))
  | object fields =>
      by_cases h : key = "args" ∧ t.args.isEmpty
      · exact Or.inr (Or.inl ⟨fields, rfl, if_pos h⟩)
      · exact Or.inr (Or.inr (Or.inr (if_neg h)))
  | call name args =>
      by_cases h : key = "when" ∧ t.condition.isNone
      · exact Or.inr (Or.inr (Or.inl ⟨name, args, rfl, if_pos h⟩))
      · exact Or.inr (Or.inr (Or.inr (if_neg h)))
  | array _ => exact Or.inr (Or.inr (Or.inr rfl))
  | bool _ => exact Or.inr (Or.inr (Or.inr rfl))
  | number _ => exact Or.inr (Or.inr (Or.inr rfl))
  | unknown => exact Or.inr (Or.inr (Or.inr rfl))

/-- A pair of a compound task gives the name or the condition, or is kept aside. -/
theorem addCompoundPair_cases (t : Task) (key : String) (e : Expr) :
    (∃ s, e = .string s ∧ t.addCompoundPair key e = { t with description := s })
      ∨ (∃ name args, e = .call name args
        ∧ t.addCompoundPair key e = { t with condition := some ⟨name, args⟩ })
      ∨ t.addCompoundPair key e = { t with extra := Table.insert key e t.extra } := by
  cases e with
  | string s =>
      by_cases h : key = "name" ∧ t.description.isEmpty
      · exact Or.inl ⟨s, rfl, if_pos h⟩
      · exact Or.inr (Or.inr (if_neg h))
  | call name args =>
      by_cases h : key = "when" ∧ t.condition.isNone
      · exact Or.inr (Or.inl ⟨name, args, rfl, if_pos h⟩)
      · exact Or.inr (Or.inr (if_neg h))
  | array _ => exact Or.inr (Or.inr rfl)
  | bool _ => exact Or.inr (Or.inr rfl)
  | number _ => exact Or.inr (Or.inr rfl)
  | object _ => exact Or.inr (Or.inr rfl)
  | unknown => exact Or.inr (Or.inr rfl)

theorem Known.set_condition {name : String} {args : List Expr} (h : t.Known)
    (he : (Expr.call name args).Known) : Known { t with condition := some ⟨name, args⟩ } where
  args := h.args
  extra := h.extra
  condition := by
    intro call hcall
    cases hcall
    exact he

/-- Pairs keep a simple task simple. -/
theorem Simple.addSimplePair (hsimple : t.Simple) (hknown : t.Known) (key : String) (he : e.Known) :
    (t.addSimplePair key e).Simple ∧ (t.addSimplePair key e).Known := by
  rcases addSimplePair_cases t key e with ⟨s, -, h⟩ | ⟨fields, rfl, h⟩ | ⟨name, args, rfl, h⟩ | h
  · rw [h]
    exact ⟨{ hsimple with }, { hknown with }⟩
  · rw [h]
    exact ⟨{ hsimple with }, { hknown with args := Expr.throughoutFields_iff.mp he.2 }⟩
  · rw [h]
    exact ⟨{ hsimple with }, hknown.set_condition he⟩
  · rw [h]
    exact ⟨{ hsimple with }, hknown.insert_extra he⟩

/-- A compound task, of which some parts were read. -/
structure Building (t : Task) : Prop where
  moduleName : t.moduleName = none
  args : t.args = []
  known : t.Known
  body : ThroughoutAll WellKinded t.body
  rescue : ThroughoutAll WellKinded t.rescue
  always : ThroughoutAll WellKinded t.always

/-- Pairs do not change the nested tasks of a compound task. -/
theorem Building.addCompoundPair (h : t.Building) (key : String) (he : e.Known) :
    (t.addCompoundPair key e).Building ∧ (t.addCompoundPair key e).body = t.body := by
  rcases addCompoundPair_cases t key e with ⟨s, -, heq⟩ | ⟨name, args, rfl, heq⟩ | heq
  · rw [heq]
    exact ⟨{ h with known := { h.known with } }, rfl⟩
  · rw [heq]
    exact ⟨{ h with known := h.known.set_condition he }, rfl⟩
  · rw [heq]
    exact ⟨{ h with known := h.known.insert_extra he }, rfl⟩

/-- With a body, the task is finished. -/
theorem Building.throughout (h : t.Building) (hbody : t.body ≠ []) : t.Throughout WellKinded :=
  throughout_iff.mpr
    ⟨⟨Or.inr ⟨hbody, h.moduleName, h.args⟩, h.known⟩, h.body, h.rescue, h.always⟩

end Task

/-! ## Descriptions -/

theorem Text.trim_of_isTrimmed {cs : List Char} (h : Text.isTrimmed cs = true) :
    Text.trim cs = cs := by
  simp only [isTrimmed, Bool.and_eq_true, Bool.not_eq_true'] at h
  have hlast : cs.reverse.head?.any isBlank = false := by
    rw [List.head?_reverse]
    exact h.2
  rw [trim, dropWhile_of_stop h.1, dropWhile_of_stop hlast, List.reverse_reverse]

theorem isDescription_of_isSentence {cs : List Char} (h : isSentence cs = true) :
    IsDescription (String.ofList cs) := by
  obtain ⟨hne, hall, htrimmed⟩ := isSentence_iff.mp h
  have hnot {x : Char} (hx : isSentenceChar x = false) : x ∉ (String.ofList cs).toList := by
    intro hmem
    rw [String.toList_ofList] at hmem
    rw [hall x hmem] at hx
    cases hx
  refine ⟨?_, ?_, hnot (by decide), hnot (by decide), hnot (by decide)⟩
  · intro hempty
    apply hne
    rw [← String.toList_ofList (l := cs), hempty]
    rfl
  · rw [String.toList_ofList]
    exact Text.trim_of_isTrimmed htrimmed

/-! ## What reading promises -/

theorem Expr.known_of_legible {e : Expr} (h : e.Throughout Expr.Legible) : e.Known := by
  refine Expr.Throughout.imp ?_ e h
  rintro e he rfl
  exact he

section Promises

variable (source : List Char)

/-- The pairs extend every simple task. -/
structure LowerSimple (c : Cursor) (ms : List Match) (c' : Cursor) : Prop where
  le : c ≤ c'
  pairs : c.In source → ∀ t : Task, t.Simple → t.Known →
    ∃ t', Match.simplePairs source t ms = .ok t' ∧ t'.Simple ∧ t'.Known

/-- The parts extend every compound task under construction. -/
structure LowerParts (c : Cursor) (ms : List Match) (c' : Cursor) : Prop where
  le : c ≤ c'
  parts : c.In source → ∀ t : Task, t.Building → ∃ t' : Task, t'.Building
    ∧ (t.body ≠ [] → t'.body ≠ [])
    ∧ ∀ rest, Match.compoundParts source t (ms ++ rest) = Match.compoundParts source t' rest

/-- The match is a task of one of the two kinds. -/
structure LowersTask (c : Cursor) (m : Match) (c' : Cursor) : Prop where
  le : c ≤ c'
  rule_eq : m.rule = .simpleBlock ∨ m.rule = .compoundBlock
  task : c.In source → ∃ t, m.task source = .ok t ∧ t.Throughout Task.WellKinded

structure LowerTasks (c : Cursor) (ms : List Match) (c' : Cursor) : Prop where
  le : c ≤ c'
  tasks : c.In source → ∃ ts, Match.tasks source ms = .ok ts
    ∧ Task.ThroughoutAll Task.WellKinded ts ∧ (ms ≠ [] → ts ≠ [])

end Promises

variable {source : List Char} {c c' c'' : Cursor} {ms ns : List Match}

theorem listing_simple : Listing (LowersPair source) (LowerSimple source) where
  nil hle := ⟨hle, fun _ t hsimple hknown => ⟨t, rfl, hsimple, hknown⟩⟩
  cons hm hms := by
    refine ⟨le_trans hm.le hms.le, fun hc t hsimple hknown => ?_⟩
    obtain ⟨k, e, hpair, -, hlegible, -⟩ := hm.pair hc
    obtain ⟨hsimple', hknown'⟩ :=
      hsimple.addSimplePair hknown k (Expr.known_of_legible hlegible)
    obtain ⟨t', ht', hdone⟩ := hms.pairs (hc.of_le hm.le) _ hsimple' hknown'
    refine ⟨t', ?_, hdone⟩
    rw [Match.simplePairs, if_pos hm.rule_eq, hpair]
    exact ht'
  start := listing_fields.start
  stop := listing_fields.stop
  stopAll hms hle := ⟨le_trans hms.le hle, hms.pairs⟩

theorem LowerParts.append (h : LowerParts source c ms c') (h' : LowerParts source c' ns c'') :
    LowerParts source c (ms ++ ns) c'' := by
  refine ⟨le_trans h.le h'.le, fun hc t ht => ?_⟩
  obtain ⟨t₁, hbuilding, hbody, heq⟩ := h.parts hc t ht
  obtain ⟨t₂, hbuilding', hbody', heq'⟩ := h'.parts (hc.of_le h.le) t₁ hbuilding
  refine ⟨t₂, hbuilding', fun hne => hbody' (hbody hne), fun rest => ?_⟩
  rw [List.append_assoc, heq, heq']

theorem lowerParts_nil (h : c ≤ c') : LowerParts source c [] c' :=
  ⟨h, fun _ t ht => ⟨t, ht, id, fun _ => rfl⟩⟩

/-- A pair of a compound block is a part of it. -/
theorem LowersPair.lowerParts {m : Match} (h : LowersPair source c m c') :
    LowerParts source c [m] c' := by
  refine ⟨h.le, fun hc t ht => ?_⟩
  obtain ⟨k, e, hpair, -, hlegible, -⟩ := h.pair hc
  obtain ⟨hbuilding, hbody⟩ := ht.addCompoundPair k (Expr.known_of_legible hlegible)
  refine ⟨_, hbuilding, fun hne => hbody ▸ hne, fun rest => ?_⟩
  obtain ⟨rule, span, children⟩ := m
  cases h.rule_eq
  rw [List.singleton_append, Match.compoundParts, hpair]
  rfl

theorem listing_parts : Listing (LowersPair source) (LowerParts source) where
  nil := lowerParts_nil
  cons hm hms := hm.lowerParts.append hms
  start := listing_fields.start
  stop := listing_fields.stop
  stopAll hms hle := by
    have := hms.append (lowerParts_nil hle)
    rwa [List.append_nil] at this

theorem listing_tasks : Listing (LowersTask source) (LowerTasks source) where
  nil hle := ⟨hle, fun _ => ⟨[], rfl, trivial, fun h => absurd rfl h⟩⟩
  cons hm hms := by
    refine ⟨le_trans hm.le hms.le, fun hc => ?_⟩
    obtain ⟨t, ht, hkinded⟩ := hm.task hc
    obtain ⟨ts, hts, hkinded', -⟩ := hms.tasks (hc.of_le hm.le)
    refine ⟨t :: ts, ?_, ⟨hkinded, hkinded'⟩, by simp⟩
    rw [Match.tasks, ht, hts]
    rfl
  start hm hle := ⟨le_trans hle hm.le, hm.rule_eq, fun hc => hm.task (hc.of_le hle)⟩
  stop hm hle := ⟨le_trans hm.le hle, hm.rule_eq, hm.task⟩
  stopAll hms hle := ⟨le_trans hms.le hle, hms.tasks⟩

/-! ## Blocks -/

/-- The description of a simple block is its first sentence, and the words before the pairs are
passed over. -/
theorem task_simpleBlock {label description : Match} (hlabel : label.rule = .ident)
    (hdescription : description.rule = .sentence) (pairs : List Match) (start stop : Nat) :
    (Match.node .simpleBlock start stop (label :: description :: pairs)).task source
      = Match.simplePairs source
        { description := description.textString source, span := .ofBounds start stop } pairs := by
  have hfound : (label :: description :: pairs).find? (·.rule == .sentence) = some description := by
    simp [hlabel, hdescription]
  rw [Match.node, Match.task, Match.simpleTask, Match.find?, hfound]
  rw [Match.simplePairs, if_neg (by simp [hlabel]), Match.simplePairs,
    if_neg (by simp [hdescription])]
  rfl

theorem task_compoundBlock {parts : List Match} {start stop : Nat} {t : Task}
    (hparts : Match.compoundParts source { span := .ofBounds start stop } parts = .ok t)
    (hbody : t.body ≠ []) : (Match.node .compoundBlock start stop parts).task source = .ok t := by
  rw [Match.node, Match.task, hparts]
  exact if_neg (by simpa using hbody)

namespace Grammar

section Blocks

variable {value block : Parser Match}

theorem lowers_simpleBlock (h : ∀ c, value.Ensures c (Lowers source c)) (c : Cursor) :
    (simpleBlock value).Ensures c (LowersTask source c) := by
  refine Ensures.node ((ensures_ident c).bind ?_)
  rintro label c₁ ⟨rfl, name, hname, -, -⟩
  refine (ensures_layout c₁).bind fun _ c₂ hgap => ?_
  refine (lt_of_mark '[' c₂).bind fun _ c₃ hopen => (ensures_sentence c₃).bind ?_
  rintro description c₄ ⟨rfl, cs, hcs, hsentence⟩
  refine (lt_of_lexeme (lt_of_mark ']' c₄)).bind fun _ c₅ hclose => ?_
  refine (lt_of_lexeme (lt_of_mark '\x7b' c₅)).bind fun _ c₆ hbrace => ?_
  refine (listing_simple.many1 (fun c => listing_simple.lexeme (lowers_pair h c)) c₆).bind ?_
  rintro pairs c₇ ⟨hpairs, -⟩
  refine (lt_of_mark '\x7d' c₇).bind fun _ c₈ hend => ensures_pure ?_
  have hsentenceAt : c ≤ c₃ := le_trans hname.le (le_trans hgap (le_of_lt hopen))
  have hpairsAt : c ≤ c₆ :=
    le_trans hsentenceAt (le_trans hcs.le (le_of_lt (lt_trans hclose hbrace)))
  refine ⟨le_trans hpairsAt (le_trans hpairs.le (le_of_lt hend)), Or.inl rfl, fun hc => ?_⟩
  let start : Task :=
    { description := String.ofList cs, span := .ofBounds c.offset c₈.offset }
  have hsimple : start.Simple := ⟨rfl, rfl, rfl, isDescription_of_isSentence hsentence⟩
  have hknown : start.Known := ⟨by simp [start], by simp [start], by simp [start]⟩
  obtain ⟨t, ht, hsimple', hknown'⟩ := hpairs.pairs (hc.of_le hpairsAt) start hsimple hknown
  refine ⟨t, ?_, Task.throughout_iff.mpr ⟨⟨Or.inl hsimple', hknown'⟩, ?_⟩⟩
  · have htext := text_leaf (hc.of_le hsentenceAt) hcs .sentence
    rw [task_simpleBlock rfl rfl, Match.textString, htext]
    exact ht
  · simp [hsimple'.body, hsimple'.rescue, hsimple'.always, Task.ThroughoutAll]

theorem lowers_blocks (h : ∀ c, block.Ensures c (LowersTask source c)) (c : Cursor) :
    (many1 (lexeme block)).Ensures c fun ms c' => LowerTasks source c ms c' ∧ ms ≠ [] :=
  listing_tasks.many1 (fun c => listing_tasks.lexeme (h c)) c

/-- The tasks of a body are parts of the compound task, and then its body is not empty. -/
theorem lowers_body (h : ∀ c, block.Ensures c (LowersTask source c)) (c : Cursor) :
    (body block).Ensures c fun m c' => c ≤ c' ∧ (c.In source → ∀ t : Task, t.Building →
      ∃ t' : Task, t'.Building ∧ t'.body ≠ []
        ∧ ∀ rest, Match.compoundParts source t (m :: rest)
          = Match.compoundParts source t' rest) := by
  refine (reads_offset c).ensures_bind ((lowers_blocks h c).bind ?_)
  rintro blocks c₁ ⟨hblocks, hne⟩
  refine ensures_pure ⟨hblocks.le, fun hc t ht => ?_⟩
  obtain ⟨ts, hts, hkinded, hsome⟩ := hblocks.tasks hc
  refine ⟨{ t with body := ts }, { ht with known := { ht.known with }, body := hkinded },
    hsome hne, ?_⟩
  intro rest
  rw [Match.node, Match.compoundParts, hts]
  rfl

theorem lowers_clause (rule : Rule) (word : String)
    (h : ∀ c, block.Ensures c (LowersTask source c)) (c : Cursor) :
    (clause rule word block).Ensures c fun m c' => c ≤ c' ∧ m.rule = rule ∧ (c.In source →
      ∃ ts, Match.tasks source m.children = .ok ts ∧ Task.ThroughoutAll Task.WellKinded ts) := by
  have hkeyword : (lexeme (keyword word)).Ensures c fun _ c' => c ≤ c' :=
    ensures_lexeme (ensures_keyword word c) fun _ _ _ hword hgap => le_trans hword.1.le hgap
  refine Ensures.node (hkeyword.bind fun _ c₁ hword => ?_)
  refine (lt_of_lexeme (lt_of_mark '\x7b' c₁)).bind fun _ c₂ hopen => (lowers_blocks h c₂).bind ?_
  rintro blocks c₃ ⟨hblocks, -⟩
  refine (lt_of_mark '\x7d' c₃).bind fun _ c₄ hclose => ensures_pure ?_
  have hstart : c ≤ c₂ := le_trans hword (le_of_lt hopen)
  refine ⟨le_trans hstart (le_trans hblocks.le (le_of_lt hclose)), rfl, fun hc => ?_⟩
  obtain ⟨ts, hts, hkinded, -⟩ := hblocks.tasks (hc.of_le hstart)
  exact ⟨ts, hts, hkinded⟩

/-- A clause that may be left out is a part of the compound task. -/
theorem lowerParts_clause {rule : Rule} (hrule : rule = .rescue ∨ rule = .always) (word : String)
    (h : ∀ c, block.Ensures c (LowersTask source c)) (c : Cursor) :
    (option (layout >>= fun _ => clause rule word block)).Ensures c fun found c' =>
      LowerParts source c found.toList c' := by
  refine Ensures.option ((ensures_layout c).bind fun _ c₁ hgap => ?_) (lowerParts_nil (le_refl c))
  refine (lowers_clause rule word h c₁).mono ?_
  rintro ⟨rule', span, children⟩ c₂ ⟨hle, hrule', htasks⟩
  refine ⟨le_trans hgap hle, fun hc t ht => ?_⟩
  obtain ⟨ts, hts, hkinded⟩ := htasks (hc.of_le hgap)
  simp only at hts
  cases hrule'
  rcases hrule with rfl | rfl
  · refine ⟨{ t with rescue := ts }, { ht with known := { ht.known with }, rescue := hkinded },
      id, ?_⟩
    intro rest
    rw [Option.toList_some, List.singleton_append, Match.compoundParts, hts]
    rfl
  · refine ⟨{ t with always := ts }, { ht with known := { ht.known with }, always := hkinded },
      id, ?_⟩
    intro rest
    rw [Option.toList_some, List.singleton_append, Match.compoundParts, hts]
    rfl

theorem lowers_compoundBlock (hvalue : ∀ c, value.Ensures c (Lowers source c))
    (hblock : ∀ c, block.Ensures c (LowersTask source c)) (c : Cursor) :
    (compoundBlock value block).Ensures c (LowersTask source c) := by
  refine Ensures.node ((lt_of_lexeme (lt_of_keyword (by decide) c)).bind fun _ c₁ hkeyword => ?_)
  refine (lt_of_lexeme (lt_of_mark '\x7b' c₁)).bind fun _ c₂ hopen => ?_
  refine (listing_parts.many (fun c => listing_parts.lexeme (lowers_pair hvalue c)) c₂).bind
    fun pairs c₃ hpairs => (lowers_body hblock c₃).bind ?_
  rintro inner c₄ ⟨hinner, hbody⟩
  refine (lt_of_mark '\x7d' c₄).bind fun _ c₅ hclose => ?_
  refine (lowerParts_clause (Or.inl rfl) "rescue" hblock c₅).bind fun rescue c₆ hrescue => ?_
  refine (lowerParts_clause (Or.inr rfl) "always" hblock c₆).bind fun always c₇ halways => ?_
  have hclauses := hrescue.append halways
  have hstart : c ≤ c₂ := le_of_lt (lt_trans hkeyword hopen)
  have hbodyAt : c ≤ c₃ := le_trans hstart hpairs.le
  have hclausesAt : c ≤ c₅ := le_trans hbodyAt (le_trans hinner (le_of_lt hclose))
  refine ensures_pure ⟨le_trans hclausesAt hclauses.le, Or.inr rfl, fun hc => ?_⟩
  have hempty : Task.Building { span := .ofBounds c.offset c₇.offset } :=
    ⟨rfl, rfl, ⟨by simp, by simp, by simp⟩, trivial, trivial, trivial⟩
  obtain ⟨t₁, ht₁, -, heq₁⟩ := hpairs.parts (hc.of_le hstart) _ hempty
  obtain ⟨t₂, ht₂, hne, heq₂⟩ := hbody (hc.of_le hbodyAt) t₁ ht₁
  obtain ⟨t₃, ht₃, hkeep, heq₃⟩ := hclauses.parts (hc.of_le hclausesAt) t₂ ht₂
  refine ⟨t₃, ?_, ht₃.throughout (hkeep hne)⟩
  have hparts := heq₃ []
  rw [List.append_nil] at hparts
  refine task_compoundBlock ?_ (hkeep hne)
  rw [List.append_assoc, List.cons_append, heq₁, heq₂, hparts, Match.compoundParts]

end Blocks

theorem lowers_block (n : Nat) (c : Cursor) : (block n).Ensures c (LowersTask source c) := by
  induction n generalizing c with
  | zero => exact (fails_refuse _ c).ensures
  | succ n ih =>
      have hvalue := lowers_value source n
      exact (lowers_simpleBlock hvalue c).orElse (lowers_compoundBlock hvalue ih c)

/-! ## Whole sources -/

/-- Pairs and blocks in any order extend every plan. -/
structure LowerStatements (source : List Char) (c : Cursor) (ms : List Match) (c' : Cursor) :
    Prop where
  le : c ≤ c'
  statements : c.In source → ∀ p : Plan, (∀ f ∈ p.attributes, f.2.Known) →
    p.Throughout Task.WellKinded → ∃ p', Match.statements source p ms = .ok p'
      ∧ (∀ f ∈ p'.attributes, f.2.Known) ∧ p'.Throughout Task.WellKinded

theorem throughoutAll_append {P : Task → Prop} {ts us : List Task} (hts : Task.ThroughoutAll P ts)
    (hus : Task.ThroughoutAll P us) : Task.ThroughoutAll P (ts ++ us) := by
  induction ts with
  | nil => exact hus
  | cons t ts ih => exact ⟨hts.1, ih hts.2⟩

theorem listing_statements : Listing
    (fun c m c' => LowersPair source c m c' ∨ LowersTask source c m c')
    (LowerStatements source) where
  nil hle := ⟨hle, fun _ p hattributes htasks => ⟨p, rfl, hattributes, htasks⟩⟩
  cons hm hms := by
    refine ⟨le_trans (hm.elim (·.le) (·.le)) hms.le, fun hc p hattributes htasks => ?_⟩
    rcases hm with hm | hm
    · obtain ⟨k, e, hpair, -, hlegible, -⟩ := hm.pair hc
      have hattributes' : ∀ f ∈ Table.insert k e p.attributes, f.2.Known := by
        intro f hf
        rcases Table.mem_insert hf with rfl | hf
        · exact Expr.known_of_legible hlegible
        · exact hattributes f hf
      obtain ⟨p', hp', hdone⟩ := hms.statements (hc.of_le hm.le)
        { p with attributes := Table.insert k e p.attributes } hattributes' htasks
      refine ⟨p', ?_, hdone⟩
      rw [Match.statements, hm.rule_eq, hpair]
      exact hp'
    · obtain ⟨t, ht, hkinded⟩ := hm.task hc
      have htasks' : Task.ThroughoutAll Task.WellKinded (p.tasks ++ [t]) :=
        throughoutAll_append htasks ⟨hkinded, trivial⟩
      obtain ⟨p', hp', hdone⟩ := hms.statements (hc.of_le hm.le)
        { p with tasks := p.tasks ++ [t] } hattributes htasks'
      refine ⟨p', ?_, hdone⟩
      rcases hm.rule_eq with hrule | hrule
      · rw [Match.statements, hrule, ht]
        exact hp'
      · rw [Match.statements, hrule, ht]
        exact hp'
  start hm hle := hm.imp (listing_fields.start · hle) (listing_tasks.start · hle)
  stop hm hle := hm.imp (listing_fields.stop · hle) (listing_tasks.stop · hle)
  stopAll hms hle := ⟨le_trans hms.le hle, hms.statements⟩

theorem lowers_entry (source : List Char) (c : Cursor) : entry.Ensures c fun m _ => c.In source →
    ∃ p, Plan.ofTree m source = .ok p ∧ (∀ f ∈ p.attributes, f.2.Known)
      ∧ p.Throughout Task.WellKinded := by
  have hstatement (c : Cursor) : (pair (value maxNesting) <|> block maxNesting).Ensures c
      fun m c' => LowersPair source c m c' ∨ LowersTask source c m c' :=
    ((lowers_pair (lowers_value source _) c).mono fun _ _ h => Or.inl h).orElse
      ((lowers_block _ c).mono fun _ _ h => Or.inr h)
  refine Ensures.node ((ensures_layout c).bind fun _ c₁ hgap => ?_)
  refine (listing_statements.many (fun c => listing_statements.lexeme (hstatement c)) c₁).bind
    fun ms c₂ hms => (ensures_endOfInput c₂).bind fun _ c₃ _ => ensures_pure fun hc => ?_
  exact hms.statements (hc.of_le hgap) {} (by simp) trivial

theorem lowers_loneValue (source : List Char) (c : Cursor) :
    loneValue.Ensures c (Lowers source c) := by
  refine (ensures_layout c).bind fun _ c₁ hgap => ?_
  refine (listing_lowers.lexeme (lowers_value source _ c₁)).bind fun m c₂ hm => ?_
  refine (ensures_endOfInput c₂).bind ?_
  rintro _ c₃ ⟨rfl, -⟩
  exact ensures_pure (hm.start hgap)

end Grammar

/-- Every accepted source has a plan with tasks of the two kinds, every accepted value has an
expression, and nothing in them is unknown. -/
theorem lowering_total (source : List Char) :
    (∀ tree, parse source = .ok tree → ∃ p, Plan.ofTree tree source = .ok p
      ∧ (∀ f ∈ p.attributes, f.2.Known) ∧ p.Throughout Task.WellKinded)
    ∧ ∀ tree, parseValue source = .ok tree → ∃ e, tree.expr source = .ok e ∧ e.Known := by
  constructor
  · intro tree h
    obtain ⟨m, c', ⟨hprune, hlowers⟩, rfl⟩ :=
      runRuleOrReject_ok ((prune_entry _).and (lowers_entry source _)) h
    rw [hprune]
    exact hlowers (Cursor.in_start source)
  · intro tree h
    obtain ⟨m, c', ⟨hprune, hlowers⟩, rfl⟩ :=
      runRuleOrReject_ok ((prune_loneValue _).and (lowers_loneValue source _)) h
    rw [hprune]
    obtain ⟨e, he, hlegible, -⟩ := hlowers.expr (Cursor.in_start source)
    exact ⟨e, he, Expr.known_of_legible hlegible⟩

/-- A block with a rescue clause, whose texts need every kind of word. -/
def rescuedSource : List Char :=
  "who: 'me' block {t [is up] {a: 1}} # once\n rescue {u [retry] {when: f(x.y, -2.5 * 2,)}}".toList

/-- An array of an index expression, an object with a call, and a text. -/
def nestedValue : List Char :=
  "[x.y, \x7b'a b': f(true,)\x7d, 'up',] # done".toList

/-- The block with a rescue clause is accepted and has a plan with its attribute and its tasks, and
the array is accepted and has its expression. -/
theorem lowering_total_rescued :
    (∃ tree, parse rescuedSource = .ok tree ∧ ∃ p, Plan.ofTree tree rescuedSource = .ok p
      ∧ (∀ f ∈ p.attributes, f.2.Known) ∧ p.Throughout Task.WellKinded
      ∧ (p.attributes.map fun f => (f.1, f.2.render)) = [("who", "'me'")]
      ∧ (p.tasks.map fun t => (t.body.map (·.description), t.rescue.map (·.description)))
        = [(["is up"], ["retry"])])
    ∧ ∃ tree, parseValue nestedValue = .ok tree ∧ ∃ e, tree.expr nestedValue = .ok e ∧ e.Known
      ∧ e.render = "[x('y',), \x7b'a b': f(true,),\x7d, 'up',]" := by
  constructor
  · have h : (parse rescuedSource).toOption.any (fun tree =>
        (Plan.ofTree tree rescuedSource).toOption.any fun p =>
          decide ((p.attributes.map fun f => (f.1, f.2.render)) = [("who", "'me'")]
            ∧ (p.tasks.map fun t => (t.body.map (·.description), t.rescue.map (·.description)))
              = [(["is up"], ["retry"])])) = true := by decide +kernel
    obtain ⟨tree, htree, hplan⟩ := exists_of_any_toOption h
    obtain ⟨p, hp, hshown⟩ := exists_of_any_toOption hplan
    obtain ⟨p', hp', hknown, hkinded⟩ := (lowering_total rescuedSource).1 tree htree
    cases hp.symm.trans hp'
    exact ⟨tree, htree, p, hp, hknown, hkinded, of_decide_eq_true hshown⟩
  · have h : (parseValue nestedValue).toOption.any (fun tree =>
        (tree.expr nestedValue).toOption.any fun e =>
          decide (e.render = "[x('y',), \x7b'a b': f(true,),\x7d, 'up',]")) = true := by
      decide +kernel
    obtain ⟨tree, htree, hexpr⟩ := exists_of_any_toOption h
    obtain ⟨e, he, hshown⟩ := exists_of_any_toOption hexpr
    obtain ⟨e', he', hknown⟩ := (lowering_total nestedValue).2 tree htree
    cases he.symm.trans he'
    exact ⟨tree, htree, e, he, hknown, of_decide_eq_true hshown⟩

end Playbooks
