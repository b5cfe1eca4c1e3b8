import Playbooks.Proofs.Compile.Warnings
import Playbooks.Proofs.Plan.Pairs

/-!
# Repeated keys

A block whose pairs repeat a key that its kind of task knows. The second pair is kept aside as one
that the task does not know, and the check that follows refuses such pairs. A repeated condition is
always refused, and so is a module that is named twice. Three repetitions pass: the name of a
compound block, arguments after empty arguments, and a module that is itself called `module`.

## Main definitions

* `Match.blocks`: the blocks of a parse tree.
* `Repetition`: a repetition that is refused.

## Main results

* `Plan.analyze_rejects_repetition`: no accepted source holds one.
* `Plan.analyze_accepts_repeated_keys`: what passes.
-/
namespace Playbooks

open Playbooks.Parser Grammar

/-! ## Blocks and their pairs -/

namespace Match

mutual

/-- The blocks of a tree, each before those nested in it. They stand in the entry, in bodies and in
clauses; values hold none. -/
def blocks : Match → List Match
  | ⟨rule, span, children⟩ =>
    match rule with
    | .simpleBlock => [⟨rule, span, children⟩]
    | .compoundBlock => ⟨rule, span, children⟩ :: blocksAll children
    | .entry | .body | .rescue | .always => blocksAll children
    | _ => []

def blocksAll : List Match → List Match
  | [] => []
  | m :: ms => m.blocks ++ blocksAll ms

end

/-- The pairs among some parts of a block, with their keys and expressions. -/
def pairsIn (source : List Char) (ms : List Match) : List (String × Expr) :=
  (ms.filter (·.rule = .pair)).filterMap fun m => (m.pair source).toOption

/-- The pairs of a block. -/
def pairs (source : List Char) (m : Match) : List (String × Expr) :=
  pairsIn source m.children

variable {source : List Char} {t t' : Task} {m : Match} {ms : List Match}

theorem blocksAll_append (ms ns : List Match) :
    blocksAll (ms ++ ns) = blocksAll ms ++ blocksAll ns := by
  induction ms with
  | nil => rfl
  | cons m ms ih => rw [List.cons_append, blocksAll, blocksAll, ih, List.append_assoc]

theorem blocksAll_of_pairs (h : ∀ m ∈ ms, m.rule = .pair) : blocksAll ms = [] := by
  induction ms with
  | nil => rfl
  | cons m ms ih =>
    obtain ⟨rule, span, children⟩ := m
    obtain rfl : rule = .pair := h _ List.mem_cons_self
    rw [blocksAll, ih fun m hm => h m (List.mem_cons_of_mem _ hm)]
    rfl

theorem blocksAll_of_clause {found : Option Match}
    (h : ∀ m ∈ found, m.rule = .rescue ∨ m.rule = .always) :
    blocksAll found.toList = blocksAll (clauseBlocks found) := by
  cases found with
  | none => rfl
  | some m =>
    obtain ⟨rule, span, children⟩ := m
    obtain rfl | rfl : rule = .rescue ∨ rule = .always := h _ rfl
    · exact List.append_nil _
    · exact List.append_nil _

theorem pairsIn_cons_of_pair (hrule : m.rule = .pair) {f : String × Expr}
    (hpair : m.pair source = .ok f) : pairsIn source (m :: ms) = f :: pairsIn source ms := by
  simp [pairsIn, hrule, hpair, Except.toOption]

theorem pairsIn_cons_of_ne (hrule : m.rule ≠ .pair) :
    pairsIn source (m :: ms) = pairsIn source ms := by
  simp [pairsIn, hrule]

/-! ## The task of a block -/

theorem simplePairs_eq_ok (h : simplePairs source t ms = .ok t') :
    t' = (pairsIn source ms).foldl (fun t f => t.addSimplePair f.1 f.2) t := by
  induction ms generalizing t with
  | nil =>
    cases h
    rfl
  | cons m ms ih =>
    rw [simplePairs] at h
    split at h
    · next hrule =>
      obtain ⟨⟨k, e⟩, hpair, h⟩ := exists_of_bind_eq_ok h
      rw [pairsIn_cons_of_pair hrule hpair, List.foldl_cons]
      exact ih h
    · next hrule =>
      rw [pairsIn_cons_of_ne hrule]
      exact ih h

/-- A simple block is the task of its pairs. -/
theorem task_of_simpleBlock (hrule : m.rule = .simpleBlock) (h : m.task source = .ok t) :
    ∃ description, t = .ofSimplePairs description (m.pairs source) m.span := by
  obtain ⟨rule, span, children⟩ := m
  obtain rfl : rule = .simpleBlock := hrule
  rw [task, simpleTask] at h
  exact ⟨_, (simplePairs_eq_ok h).trans (Task.foldl_addSimplePair _ [] _ span)⟩

end Match

/-- The task without the tasks nested in it. -/
def Task.bare (t : Task) : Task :=
  { t with body := [], rescue := [], always := [] }

theorem Task.bare_addCompoundPair (t : Task) (key : String) (e : Expr) :
    (t.addCompoundPair key e).bare = t.bare.addCompoundPair key e := by
  cases e with
  | string s =>
    by_cases h : key = "name" ∧ t.description.isEmpty
    · simp [addCompoundPair, bare, h]
    · simp only [addCompoundPair, bare, h, if_false]
      rfl
  | call name args =>
    by_cases h : key = "when" ∧ t.condition.isNone
    · simp [addCompoundPair, bare, h]
    · simp only [addCompoundPair, bare, h, if_false]
      rfl
  | _ => rfl

namespace Match

variable {source : List Char} {t t' : Task} {m : Match} {ms : List Match}

theorem compoundParts_eq_ok (h : compoundParts source t ms = .ok t') :
    t'.bare = (pairsIn source ms).foldl (fun t f => t.addCompoundPair f.1 f.2) t.bare := by
  induction ms generalizing t with
  | nil =>
    cases h
    rfl
  | cons m ms ih =>
    obtain ⟨rule, span, children⟩ := m
    cases rule with
    | pair =>
      rw [compoundParts] at h
      obtain ⟨⟨k, e⟩, hpair, h⟩ := exists_of_bind_eq_ok h
      rw [pairsIn_cons_of_pair rfl hpair, List.foldl_cons, ← Task.bare_addCompoundPair]
      exact ih h
    -- A body or a clause changes only what is nested.
    | body | rescue | always =>
      rw [compoundParts] at h
      obtain ⟨ts, -, h⟩ := exists_of_bind_eq_ok h
      have hrest := ih h
      rwa [pairsIn_cons_of_ne (by simp)]
    | _ => cases h

/-- A compound block is the task of its pairs with the tasks nested in it. -/
theorem task_of_compoundBlock (hrule : m.rule = .compoundBlock) (h : m.task source = .ok t) :
    t.bare = .ofCompoundPairs (m.pairs source) m.span ∧ t.body ≠ [] := by
  obtain ⟨rule, span, children⟩ := m
  obtain rfl : rule = .compoundBlock := hrule
  rw [task] at h
  obtain ⟨t', hparts, h⟩ := exists_of_bind_eq_ok h
  split at h
  · cases h
  · next hbody =>
    cases h
    refine ⟨?_, by simpa using hbody⟩
    rw [compoundParts_eq_ok hparts]
    exact Task.foldl_addCompoundPair [] _ span

end Match

/-! ## Every block has its task -/

section Found

variable (source : List Char)

/-- Every block in the matches has its task among the given ones, at some depth. -/
def Found (ms : List Match) (ts : List Task) : Prop :=
  ∀ b ∈ Match.blocksAll ms, ∃ u ∈ Task.preorderAll ts, b.task source = .ok u

/-- A block with all its blocks found in its task. -/
structure FindsBlocks (m : Match) : Prop where
  rule_eq : m.rule = .simpleBlock ∨ m.rule = .compoundBlock
  found : ∀ t, m.task source = .ok t → Found source [m] [t]

/-- Statements with all their blocks found among the tasks that they add to a plan. -/
def FindsStatements (ms : List Match) : Prop :=
  ∀ p p', Match.statements source p ms = .ok p' → ∃ ts, p'.tasks = p.tasks ++ ts ∧ Found source ms ts

end Found

variable {source : List Char} {m : Match} {ms ns : List Match} {ts us : List Task}

theorem Found.append (h : Found source ms ts) (h' : Found source ns us) :
    Found source (ms ++ ns) (ts ++ us) := by
  intro b hb
  rw [Task.preorderAll_append]
  rw [Match.blocksAll_append] at hb
  rcases List.mem_append.mp hb with hb | hb
  · obtain ⟨u, hu, hub⟩ := h b hb
    exact ⟨u, List.mem_append_left _ hu, hub⟩
  · obtain ⟨u, hu, hub⟩ := h' b hb
    exact ⟨u, List.mem_append_right _ hu, hub⟩

theorem found_nil : Found source [] [] := by
  intro b hb
  cases hb

theorem found_tasks (h : ∀ m ∈ ms, FindsBlocks source m) (hts : Match.tasks source ms = .ok ts) :
    Found source ms ts := by
  induction ms generalizing ts with
  | nil =>
    cases hts
    exact found_nil
  | cons m ms ih =>
    obtain ⟨t, others, rfl, ht, hothers⟩ := Match.tasks_cons_eq_ok hts
    obtain ⟨hm, hms⟩ := List.forall_mem_cons.mp h
    exact (hm.found t ht).append (ih hms hothers)

/-- A task is found, and so is what is found in the tasks nested in it. -/
theorem found_nested (ns : List Match) {t : Task} (ht : m.task source = .ok t)
    (hblocks : ∀ b ∈ m.blocks, b = m ∨ b ∈ Match.blocksAll ns)
    (hnested : Found source ns t.children) : Found source [m] [t] := by
  intro b hb
  rw [Match.blocksAll, Match.blocksAll, List.append_nil] at hb
  rw [Task.preorderAll, Task.preorderAll, List.append_nil, Task.preorder_eq]
  rcases hblocks b hb with rfl | hb
  · exact ⟨t, List.mem_cons_self, ht⟩
  · obtain ⟨u, hu, hub⟩ := hnested b hb
    exact ⟨u, List.mem_cons_of_mem _ hu, hub⟩

theorem findsStatements (h : ∀ m ∈ ms, m.rule = .pair ∨ FindsBlocks source m) :
    FindsStatements source ms := by
  induction ms with
  | nil =>
    intro p p' hp
    cases hp
    exact ⟨[], by simp, found_nil⟩
  | cons m ms ih =>
    intro p p' hp
    obtain ⟨hm, hms⟩ := List.forall_mem_cons.mp h
    rcases hm with hrule | hm
    · rw [Match.statements, hrule] at hp
      obtain ⟨⟨k, e⟩, -, hp⟩ := exists_of_bind_eq_ok hp
      obtain ⟨ts, htasks, hfound⟩ := ih hms _ p' hp
      refine ⟨ts, htasks, ?_⟩
      have hnone : Match.blocksAll [m] = [] := Match.blocksAll_of_pairs (by simpa using hrule)
      intro b hb
      rw [← List.singleton_append, Match.blocksAll_append, hnone] at hb
      exact hfound b hb
    · have hstep : (m.task source >>= fun t =>
          Match.statements source { p with tasks := p.tasks ++ [t] } ms) = .ok p' := by
        rcases hm.rule_eq with hrule | hrule <;> rwa [Match.statements, hrule] at hp
      obtain ⟨t, ht, hp⟩ := exists_of_bind_eq_ok hstep
      obtain ⟨ts, htasks, hfound⟩ := ih hms _ p' hp
      exact ⟨t :: ts, by simpa using htasks, (hm.found t ht).append hfound⟩

/-- Matches that satisfy a property one by one. -/
theorem listing_forall (P : Match → Prop) :
    Listing (fun _ m _ => P m) (fun _ ms _ => ∀ m ∈ ms, P m) where
  nil _ := by simp
  cons hm hms := List.forall_mem_cons.mpr ⟨hm, hms⟩
  start hm _ := hm
  stop hm _ := hm
  stopAll hms _ := hms

namespace Grammar

section Blocks

variable {value block : Parser Match}

theorem finds_simpleBlock (c : Cursor) :
    (simpleBlock value).Ensures c fun m _ => FindsBlocks source m := by
  refine Ensures.node fun t children c' h => ⟨Or.inl rfl, fun t ht => ?_⟩
  refine found_nested [] ht ?_ ?_
  · intro b hb
    exact Or.inl (by simpa [Match.node, Match.blocks] using hb)
  · intro b hb
    cases hb

theorem finds_blocks (h : ∀ c, block.Ensures c fun m _ => FindsBlocks source m) (c : Cursor) :
    (many1 (lexeme block)).Ensures c fun ms _ => ∀ m ∈ ms, FindsBlocks source m :=
  ((listing_forall _).many1 (fun c => (listing_forall _).lexeme (h c)) c).mono fun _ _ h => h.1

theorem finds_body (h : ∀ c, block.Ensures c fun m _ => FindsBlocks source m) (c : Cursor) :
    (body block).Ensures c fun m _ =>
      ∃ span blocks, m = ⟨.body, span, blocks⟩ ∧ ∀ b ∈ blocks, FindsBlocks source b := by
  refine (reads_offset c).ensures_bind ((finds_blocks h c).bind fun blocks c₁ hblocks => ?_)
  exact ensures_pure ⟨_, blocks, rfl, hblocks⟩

theorem finds_clause (rule : Rule) (word : String)
    (h : ∀ c, block.Ensures c fun m _ => FindsBlocks source m) (c : Cursor) :
    (option (layout >>= fun _ => clause rule word block)).Ensures c fun found _ =>
      (∀ m ∈ found, m.rule = rule) ∧ ∀ b ∈ Match.clauseBlocks found, FindsBlocks source b := by
  refine Ensures.option ((ensures_layout c).bind fun _ c₁ _ => ?_)
    ⟨by simp, by simp [Match.clauseBlocks]⟩
  have hkeyword : (lexeme (keyword word)).Ensures c₁ fun _ c' => c₁ ≤ c' :=
    ensures_lexeme (ensures_keyword word c₁) fun _ _ _ hword hgap => le_trans hword.1.le hgap
  refine Ensures.node (hkeyword.bind fun _ c₂ _ => ?_)
  refine (lt_of_lexeme (lt_of_mark '\x7b' c₂)).bind fun _ c₃ _ => ?_
  refine (finds_blocks h c₃).bind fun blocks c₄ hblocks => ?_
  refine (lt_of_mark '\x7d' c₄).bind fun _ c₅ _ => ensures_pure ⟨by simp [Match.node], hblocks⟩

theorem finds_compoundBlock (hvalue : ∀ c, value.Ensures c (Lowers source c))
    (hblock : ∀ c, block.Ensures c fun m _ => FindsBlocks source m) (c : Cursor) :
    (compoundBlock value block).Ensures c fun m _ => FindsBlocks source m := by
  refine Ensures.node ((lt_of_lexeme (lt_of_keyword (by decide) c)).bind fun _ c₁ _ => ?_)
  refine (lt_of_lexeme (lt_of_mark '\x7b' c₁)).bind fun _ c₂ _ => ?_
  refine (listing_pairs.many (fun c => listing_pairs.lexeme (rule_of_pair hvalue c)) c₂).bind ?_
  rintro pairs c₃ ⟨hpairs, -⟩
  refine (finds_body hblock c₃).bind ?_
  rintro _ c₄ ⟨span, blocks, rfl, hbody⟩
  refine (lt_of_mark '\x7d' c₄).bind fun _ c₅ _ => ?_
  refine (finds_clause .rescue "rescue" hblock c₅).bind ?_
  rintro rescue c₆ ⟨hrescue, hinRescue⟩
  refine (finds_clause .always "always" hblock c₆).bind ?_
  rintro always c₇ ⟨halways, hinAlways⟩
  refine ensures_pure ⟨Or.inr rfl, fun t ht => ?_⟩
  -- The blocks nested in the match are those of its body and its clauses.
  refine found_nested (blocks ++ Match.clauseBlocks rescue ++ Match.clauseBlocks always) ht ?_ ?_
  · have hparts : Match.blocksAll (pairs ++ ⟨.body, span, blocks⟩ :: rescue.toList ++ always.toList)
        = Match.blocksAll (blocks ++ Match.clauseBlocks rescue ++ Match.clauseBlocks always) := by
      simp only [Match.blocksAll_append, Match.blocksAll_of_pairs hpairs, Match.blocksAll,
        Match.blocks, Match.blocksAll_of_clause fun m hm => Or.inl (hrescue m hm),
        Match.blocksAll_of_clause fun m hm => Or.inr (halways m hm), List.nil_append]
    intro b hb
    rw [Match.node, Match.blocks, hparts] at hb
    exact List.mem_cons.mp hb
  · rw [Match.node, Match.task, List.append_assoc, List.cons_append] at ht
    obtain ⟨t', hparts, ht⟩ := exists_of_bind_eq_ok ht
    obtain ⟨inBody, inRescue, inAlways, hbodyTasks, hrescueTasks, halwaysTasks, -, rfl, rfl,
      rfl⟩ := Match.children_of_compoundParts hpairs hrescue halways hparts
    obtain rfl : t' = t := by
      split at ht
      · cases ht
      · cases ht
        rfl
    exact ((found_tasks hbody hbodyTasks).append (found_tasks hinRescue hrescueTasks)).append
      (found_tasks hinAlways halwaysTasks)

end Blocks

theorem finds_block (n : Nat) (c : Cursor) :
    (block n).Ensures c fun m _ => FindsBlocks source m := by
  induction n generalizing c with
  | zero => exact (fails_refuse _ c).ensures
  | succ n ih =>
    exact (finds_simpleBlock c).orElse (finds_compoundBlock (lowers_value source n) ih c)

theorem finds_entry (source : List Char) (c : Cursor) : entry.Ensures c fun m _ =>
    ∀ p, Plan.ofTree m source = .ok p → Found source [m] p.tasks := by
  have hstatement (c : Cursor) : (pair (value maxNesting) <|> block maxNesting).Ensures c
      fun m _ => m.rule = .pair ∨ FindsBlocks source m :=
    ((rule_of_pair (lowers_value source _) c).mono fun _ _ h => Or.inl h.1).orElse
      ((finds_block _ c).mono fun _ _ h => Or.inr h)
  refine Ensures.node ((ensures_layout c).bind fun _ c₁ _ => ?_)
  refine ((listing_forall _).many
    (fun c => (listing_forall _).lexeme (hstatement c)) c₁).bind fun ms c₂ hms => ?_
  refine (ensures_endOfInput c₂).bind fun _ c₃ _ => ensures_pure fun p hp => ?_
  obtain ⟨ts, htasks, hfound⟩ := findsStatements hms {} p hp
  rw [htasks]
  intro b hb
  exact hfound b (by simpa [Match.node, Match.blocksAll, Match.blocks] using hb)

end Grammar

/-! ## Pairs that do not count -/

namespace Task

variable {counts : List (String × Expr) → String × Expr → Bool}
variable {earlier pairs : List (String × Expr)} {key : String} {e e' : Expr}

theorem mem_leftovers_iff {f : String × Expr} : f ∈ leftovers counts earlier pairs ↔
    ∃ before after, pairs = before ++ f :: after ∧ counts (earlier ++ before) f = false := by
  induction pairs generalizing earlier with
  | nil => simp [leftovers]
  | cons g pairs ih =>
    have hstep : f ∈ leftovers counts earlier (g :: pairs)
        ↔ (f = g ∧ counts earlier g = false) ∨ f ∈ leftovers counts (earlier ++ [g]) pairs := by
      rw [leftovers]
      split <;> simp_all
    rw [hstep, ih]
    constructor
    · rintro (⟨rfl, h⟩ | ⟨before, after, rfl, h⟩)
      · exact ⟨[], pairs, rfl, by simpa using h⟩
      · exact ⟨g :: before, after, rfl, by simpa using h⟩
    · rintro ⟨before, after, hpairs, h⟩
      cases before with
      | nil =>
        cases hpairs
        exact Or.inl ⟨rfl, by simpa using h⟩
      | cons first before =>
        cases hpairs
        exact Or.inr ⟨before, after, rfl, by simpa using h⟩

/-- Two members of a list, in this order. -/
theorem splits_of_sublist {f g : String × Expr} (h : [f, g].Sublist pairs) :
    ∃ before between after, pairs = before ++ f :: between ++ g :: after := by
  obtain ⟨front, back, rfl, hf, hg⟩ := List.cons_sublist_iff.mp h
  obtain ⟨before, between, rfl⟩ := List.append_of_mem hf
  obtain ⟨between', after, rfl⟩ := List.append_of_mem (List.singleton_sublist.mp hg)
  exact ⟨before, between ++ between', after, by simp⟩

/-- Where a pair counts only for what it gives, and only if no earlier one gave it, one of two pairs
with the same key does not count. -/
theorem leftover_of_repeated {α : Type} {of? : String × Expr → Option α}
    (hcounts : ∀ earlier e, counts earlier (key, e) = true →
      (of? (key, e)).isSome ∧ earlier.findSome? of? = none)
    (h : [(key, e), (key, e')].Sublist pairs) : ∃ v, (key, v) ∈ leftovers counts [] pairs := by
  obtain ⟨before, between, after, rfl⟩ := splits_of_sublist h
  by_cases hfirst : counts before (key, e) = true
  · refine ⟨e', mem_leftovers_iff.mpr ⟨_, after, rfl, Bool.eq_false_iff.mpr fun hsecond => ?_⟩⟩
    have hgiven := (hcounts _ _ hfirst).1
    have hnone := List.findSome?_eq_none_iff.mp (hcounts _ _ hsecond).2 (key, e) (by simp)
    rw [hnone] at hgiven
    cases hgiven
  · exact ⟨e, mem_leftovers_iff.mpr
      ⟨before, between ++ (key, e') :: after, by simp, Bool.eq_false_iff.mpr hfirst⟩⟩

theorem mem_keys_of_mem_leftovers (h : (key, e) ∈ leftovers counts [] pairs) :
    key ∈ Table.keys (Table.ofList (leftovers counts [] pairs)) :=
  Table.mem_keys_insertAll.mpr (Or.inr (List.mem_map_of_mem h))

end Task

/-! ## Repetitions -/

/-- The pairs of a block repeat a key in a way that is refused: a condition stated twice, a module
named twice, and arguments given twice. A module that is called `module` can be used twice, and empty
arguments can be replaced. -/
inductive Repetition (imports : Imports) : Rule → List (String × Expr) → Prop where
  | condition {rule : Rule} {pairs : List (String × Expr)} {e e' : Expr} :
      [("when", e), ("when", e')].Sublist pairs → Repetition imports rule pairs
  | module {pairs : List (String × Expr)} {e e' : Expr} :
      [("module", e), ("module", e')].Sublist pairs →
      (∃ name, ("module", .string name) ∈ pairs) ∨ "module" ∉ Table.keys imports →
      Repetition imports .simpleBlock pairs
  | args {pairs : List (String × Expr)} {e e' : Expr} :
      [("args", e), ("args", e')].Sublist pairs →
      e ≠ .object [] ∨ (∀ fields, e' ≠ .object fields) →
      Repetition imports .simpleBlock pairs

namespace Task

variable {imports : Imports} {pairs : List (String × Expr)} {description : String} {span : Span}
variable {t : Task}

/-- A pair of a valid simple task that does not count stands for module and arguments. -/
theorem ValidSimple.short_of_leftover
    (h : (ofSimplePairs description pairs span).ValidSimple imports) {key : String} {e : Expr}
    (hleft : (key, e) ∈ leftovers countsSimple [] pairs) :
    pairs.findSome? moduleOf? = none ∧ pairs.findSome? argsOf? = none
      ∧ key ∈ Table.keys imports
      ∧ ∃ fields, (key, .object fields) ∈ leftovers countsSimple [] pairs := by
  have hkey := mem_keys_of_mem_leftovers hleft
  rcases h.oneModule with ⟨-, -, -, hextra⟩ | ⟨hmodule, hargs, name, hname, fields, hextra⟩
  · change Table.ofList _ = _ at hextra
    rw [hextra] at hkey
    cases hkey
  · change Table.ofList _ = _ at hextra
    change Option.getD _ _ = _ at hargs
    rw [hextra] at hkey
    obtain rfl : key = name := List.mem_singleton.mp hkey
    refine ⟨hmodule, ?_, hname, ?_⟩
    · have hempty := isEmpty_args pairs
      rwa [hargs, List.isEmpty_nil, eq_comm, Option.isNone_iff_eq_none] at hempty
    · have hmem : (key, Expr.object fields) ∈ Table.ofList (leftovers countsSimple [] pairs) :=
        hextra ▸ List.mem_singleton_self _
      exact ⟨fields, (Table.mem_of_mem_insertAll hmem).resolve_left List.not_mem_nil⟩

theorem object_of_countsSimple {earlier : List (String × Expr)} {e : Expr}
    (h : countsSimple earlier ("args", e) = true) : ∃ fields, e = .object fields := by
  cases e with
  | object fields => exact ⟨fields, rfl⟩
  | _ => simp at h

/-- In a valid simple task all arguments count. -/
theorem ValidSimple.countsSimple_args
    (h : (ofSimplePairs description pairs span).ValidSimple imports)
    {before after : List (String × Expr)} {e : Expr}
    (hpairs : pairs = before ++ ("args", e) :: after) : countsSimple before ("args", e) = true := by
  refine Decidable.byContradiction fun hcounts => ?_
  have hleft : ("args", e) ∈ leftovers countsSimple [] pairs :=
    mem_leftovers_iff.mpr ⟨before, after, hpairs, Bool.eq_false_iff.mpr hcounts⟩
  -- Some arguments that do not count are an object, so others came before them.
  obtain ⟨-, hnone, -, fields, hfields⟩ := h.short_of_leftover hleft
  obtain ⟨front, back, hsplit, hfalse⟩ := mem_leftovers_iff.mp hfields
  rw [hsplit, List.findSome?_append, Option.or_eq_none_iff] at hnone
  simp only [List.nil_append, countsSimple, hnone.1] at hfalse
  cases hfalse

theorem ValidSimple.not_repetition
    (h : (ofSimplePairs description pairs span).ValidSimple imports) :
    ¬ Repetition imports .simpleBlock pairs := by
  intro hrepetition
  cases hrepetition with
  | condition hpairs =>
    have hcounts (earlier : List (String × Expr)) (e : Expr)
        (h : countsSimple earlier ("when", e) = true) :
        (conditionOf? ("when", e)).isSome ∧ earlier.findSome? conditionOf? = none := by
      cases e <;> simp_all
    obtain ⟨v, hv⟩ := leftover_of_repeated hcounts hpairs
    exact h.conditionIsCall (mem_keys_of_mem_leftovers hv)
  | module hpairs hmodule =>
    have hcounts (earlier : List (String × Expr)) (e : Expr)
        (h : countsSimple earlier ("module", e) = true) :
        (moduleOf? ("module", e)).isSome ∧ earlier.findSome? moduleOf? = none := by
      cases e <;> simp_all
    obtain ⟨v, hv⟩ := leftover_of_repeated hcounts hpairs
    obtain ⟨hnone, -, himported, -⟩ := h.short_of_leftover hv
    rcases hmodule with ⟨name, hname⟩ | hmodule
    · cases List.findSome?_eq_none_iff.mp hnone _ hname
    · exact hmodule himported
  | args hpairs hargs =>
    obtain ⟨before, between, after, hsplit⟩ := splits_of_sublist hpairs
    have hfirst := h.countsSimple_args (hsplit.trans (List.append_assoc ..))
    have hsecond := h.countsSimple_args hsplit
    obtain ⟨fields, rfl⟩ := object_of_countsSimple hfirst
    obtain ⟨fields', rfl⟩ := object_of_countsSimple hsecond
    rcases hargs with hargs | hargs
    · have hnone : (before ++ ("args", .object fields) :: between).findSome? argsOf? = none := by
        simpa only [countsSimple, true_and, decide_eq_true_eq, Option.isNone_iff_eq_none]
          using hsecond
      have hempty := List.findSome?_eq_none_iff.mp hnone ("args", .object fields) (by simp)
      exact hargs (by simpa using hempty)
    · exact hargs fields' rfl

theorem ValidCompound.not_repetition (h : t.ValidCompound)
    (hbare : t.bare = ofCompoundPairs pairs span) : ¬ Repetition imports .compoundBlock pairs := by
  intro hrepetition
  cases hrepetition with
  | condition hpairs =>
    have hcounts (earlier : List (String × Expr)) (e : Expr)
        (h : countsCompound earlier ("when", e) = true) :
        (conditionOf? ("when", e)).isSome ∧ earlier.findSome? conditionOf? = none := by
      cases e <;> simp_all
    obtain ⟨v, hv⟩ := leftover_of_repeated hcounts hpairs
    have hextra : t.extra = Table.ofList (leftovers countsCompound [] pairs) :=
      congrArg Task.extra hbare
    have hkey := h.knownKeys "when" (hextra ▸ mem_keys_of_mem_leftovers hv)
    exact absurd hkey (by decide)

/-- A block with a valid task repeats nothing that is refused. -/
theorem Valid.not_repetition {source : List Char} {b : Match} (h : t.Valid imports)
    (htask : b.task source = .ok t) : ¬ Repetition imports b.rule (b.pairs source) := by
  obtain ⟨rule, span, children⟩ := b
  cases rule with
  | simpleBlock =>
    obtain ⟨description, rfl⟩ := Match.task_of_simpleBlock rfl htask
    exact (h.simple rfl).not_repetition
  | compoundBlock =>
    obtain ⟨hbare, hbody⟩ := Match.task_of_compoundBlock rfl htask
    exact (h.compound hbody).not_repetition hbare
  | _ => cases htask

end Task

/-! ## Sources that repeat keys -/

namespace Plan

/-- Every source that parses has a plan, and if a block of it repeats a key in a way that is refused,
at any depth, the source is rejected. -/
theorem analyze_rejects_repetition (source : List Char) (tree : Match)
    (hparse : parse source = .ok tree) (declared : Imports) :
    ∃ p, ofTree tree source = .ok p
      ∧ ∀ b ∈ tree.blocks, Repetition (p.imports declared) b.rule (b.pairs source) →
        ∃ rejection, analyze source declared = .error rejection := by
  obtain ⟨m, c', ⟨⟨hprune, hlowers⟩, hfinds⟩, rfl⟩ :=
    runRuleOrReject_ok (((prune_entry _).and (lowers_entry source _)).and (finds_entry source _))
      hparse
  rw [hprune] at hparse ⊢
  obtain ⟨p, hp, -, hkinded⟩ := hlowers (Cursor.in_start source)
  refine ⟨p, hp, fun b hb hrepetition => ?_⟩
  have hsource : ofSource source = .ok p := by
    rw [ofSource, hparse]
    exact congrArg (Except.mapError _) hp
  rcases resolve_cases p declared with ⟨hnil, -⟩ | ⟨-, herror⟩
  · -- Without problems the task of the block would be valid.
    have hshaped : p.Throughout Task.Shaped :=
      (p.throughout_iff_walk).mpr fun t ht => ((p.throughout_iff_walk).mp hkinded t ht).shaped
    obtain ⟨imports, hoverlaid, -, hvalid⟩ := (problems_eq_nil_iff_valid hshaped).mp hnil
    obtain rfl := hoverlaid.imports_eq
    obtain ⟨t, ht, htask⟩ := hfinds p hp b (by simpa [Match.blocksAll] using hb)
    rw [← walk_eq_preorderAll] at ht
    exact absurd hrepetition (((p.throughout_iff_walk).mp hvalid t ht).not_repetition htask)
  · exact ⟨_, by rw [analyze, hsource]; exact herror⟩

end Plan

/-- Two pairs of a block have the key. -/
def Match.Repeats (source : List Char) (key : String) (b : Match) : Prop :=
  ∃ e e', [(key, e), (key, e')].Sublist (b.pairs source)

/-- A block of the source, of this kind, has two pairs with the key. -/
def hasRepeated (source : List Char) (rule : Rule) (key : String) : Bool :=
  (parse source).toOption.any fun tree => tree.blocks.any fun b =>
    decide (b.rule = rule ∧ 2 ≤ ((b.pairs source).map Prod.fst).count key)

theorem exists_of_hasRepeated {source : List Char} {rule : Rule} {key : String}
    (h : hasRepeated source rule key = true) :
    ∃ tree, parse source = .ok tree ∧ ∃ b ∈ tree.blocks, b.rule = rule ∧ b.Repeats source key := by
  obtain ⟨tree, hparse, hblocks⟩ := exists_of_any_toOption h
  obtain ⟨b, hb, hcheck⟩ := List.any_eq_true.mp hblocks
  obtain ⟨hrule, hcount⟩ := of_decide_eq_true hcheck
  obtain ⟨two, hpairs, htwo⟩ := List.sublist_map_iff.mp (List.replicate_sublist_iff.mpr hcount)
  refine ⟨tree, hparse, b, hb, hrule, ?_⟩
  match two, htwo with
  | [(_, e), (_, e')], htwo =>
    cases htwo
    exact ⟨e, e', hpairs⟩

/-- A task inside a block has two conditions. -/
def twoConditionsSource : List Char :=
  "block \x7bname: 'all' t [greet] \x7bdebug: \x7b\x7d when: eq(1,) when: ne(1,)\x7d\x7d".toList

theorem Plan.analyze_rejects_repetition_two_conditions :
    ∃ tree p, parse twoConditionsSource = .ok tree ∧ Plan.ofTree tree twoConditionsSource = .ok p
      ∧ (∃ b ∈ tree.blocks, b.rule = .simpleBlock
        ∧ Repetition (p.imports []) b.rule (b.pairs twoConditionsSource))
      ∧ ∃ rejection, Plan.analyze twoConditionsSource [] = .error rejection := by
  have hrepeated : hasRepeated twoConditionsSource .simpleBlock "when" = true := by decide +kernel
  obtain ⟨tree, hparse, b, hb, hrule, e, e', hpairs⟩ := exists_of_hasRepeated hrepeated
  obtain ⟨p, hp, hrejects⟩ := Plan.analyze_rejects_repetition twoConditionsSource tree hparse []
  exact ⟨tree, p, hparse, hp, ⟨b, hb, hrule, .condition hpairs⟩, hrejects b hb (.condition hpairs)⟩

/-- The source is accepted, though a block of it, of this kind, has two pairs with the key. -/
def AcceptsRepeated (source : List Char) (declared : Imports) (rule : Rule) (key : String) : Prop :=
  (∃ tree, parse source = .ok tree ∧ ∃ b ∈ tree.blocks, b.rule = rule ∧ b.Repeats source key)
    ∧ ∃ resolved, Plan.analyze source declared = .ok resolved

theorem acceptsRepeated_of_check {source : List Char} {declared : Imports} {rule : Rule}
    {key : String} (h : (hasRepeated source rule key
      && (Plan.analyze source declared).toOption.any fun _ => true) = true) :
    AcceptsRepeated source declared rule key := by
  obtain ⟨hrepeated, hanalyzed⟩ := Bool.and_eq_true_iff.mp h
  obtain ⟨resolved, hresolved, -⟩ := exists_of_any_toOption hanalyzed
  exact ⟨exists_of_hasRepeated hrepeated, resolved, hresolved⟩

/-- A block with two names. -/
def twoNamesSource : List Char :=
  "block \x7bname: 'a' name: 'b' t [greet] \x7bdebug: \x7b\x7d\x7d\x7d".toList

/-- A task with arguments after empty ones. -/
def twoArgsSource : List Char :=
  "t [greet] \x7bmodule: 'debug' args: \x7b\x7d args: \x7bmsg: 'x',\x7d\x7d".toList

/-- A task that uses a module called `module` twice. -/
def twoModulesSource : List Char :=
  "t [greet] \x7bmodule: \x7b\x7d module: \x7bmsg: 'x',\x7d\x7d".toList

/-- Each key but that of the condition is repeated in some accepted source. -/
theorem Plan.analyze_accepts_repeated_keys :
    AcceptsRepeated twoNamesSource [("debug", "std::Debug")] .compoundBlock "name"
      ∧ AcceptsRepeated twoArgsSource [("debug", "std::Debug")] .simpleBlock "args"
      ∧ AcceptsRepeated twoModulesSource [("module", "std::Module")] .simpleBlock "module" := by
  refine ⟨acceptsRepeated_of_check ?_, acceptsRepeated_of_check ?_, acceptsRepeated_of_check ?_⟩
  · decide +kernel
  · decide +kernel
  · decide +kernel

end Playbooks
