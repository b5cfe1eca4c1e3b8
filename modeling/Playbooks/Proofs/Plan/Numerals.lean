import Mathlib.Data.List.Induction
import Playbooks.Proofs.Compile.Records
import Playbooks.Proofs.Expr.Numerals

/-!
# Numerals of playbooks

The numerals of a playbook that its tasks and attributes have as numbers. In a block the last pair
with a key counts; of the pairs of a compound block only the condition does.

## Main definitions

* `Match.emittedNumerals`: the numerals of a playbook.

## Main results

* `Match.mem_numbers_block`: the numbers of a valid task are those of its block.
* `Match.block_of_statements`: every task is that of a block.
* `Match.yieldsFields_attributes`: the numbers of the attributes.
* `Match.emittedNumerals_subset`: the numerals are numbers of the tree.
-/
namespace Playbooks

/-! ## Pairs and tasks -/

namespace Task

variable {counts : List (String × Expr) → String × Expr → Bool} {pairs : List (String × Expr)}

theorem conditionOf?_eq_some {key : String} {e : Expr} {c : Call} :
    conditionOf? (key, e) = some c ↔ key = "when" ∧ e = c.toExpr := by
  obtain ⟨name, args⟩ := c
  cases e <;> simp [Call.toExpr]

/-- Where the last condition counts, it is the condition. -/
theorem get?_condition
    (hcounts : ∀ earlier e, counts earlier ("when", e) = true →
      (conditionOf? ("when", e)).isSome ∧ earlier.findSome? conditionOf? = none)
    (hleft : "when" ∉ Table.keys (Table.ofList (leftovers counts [] pairs))) :
    Table.get? "when" (Table.ofList pairs) = (pairs.findSome? conditionOf?).map Call.toExpr := by
  cases hget : Table.get? "when" (Table.ofList pairs) with
  | none =>
    have hnone : pairs.findSome? conditionOf? = none := by
      refine List.findSome?_eq_none_iff.mpr fun f hf => ?_
      by_contra hsome
      obtain ⟨c, hc⟩ := Option.ne_none_iff_exists'.mp hsome
      have hkey := (conditionOf?_eq_some.mp hc).1
      exact Table.get?_ofList_eq_none_iff.mp hget (hkey ▸ List.mem_map_of_mem hf)
    rw [hnone]
    rfl
  | some e =>
    obtain ⟨before, after, rfl, -⟩ := Table.last_of_get?_ofList hget
    have hcount : counts before ("when", e) = true := by
      by_contra hfalse
      have hmem : ("when", e) ∈ leftovers counts [] (before ++ ("when", e) :: after) :=
        mem_leftovers_iff.mpr ⟨before, after, rfl, by simpa using hfalse⟩
      exact hleft (mem_keys_of_mem_leftovers hmem)
    obtain ⟨hsome, hnone⟩ := hcounts before e hcount
    obtain ⟨c, hc⟩ := Option.isSome_iff_exists.mp hsome
    rw [List.findSome?_append, hnone, Option.none_or, List.findSome?_cons, hc,
      (conditionOf?_eq_some.mp hc).2]
    rfl

/-- Where all arguments count, the last ones are the arguments. -/
theorem get?_args (hcounts : ∀ before e after, pairs = before ++ ("args", e) :: after →
      countsSimple before ("args", e) = true) :
    (Table.get? "args" (Table.ofList pairs)).getD (.object [])
      = .object ((pairs.findSome? argsOf?).getD []) := by
  have hother {ps : List (String × Expr)} (h : "args" ∉ ps.map Prod.fst) :
      ps.findSome? argsOf? = none := by
    refine List.findSome?_eq_none_iff.mpr fun f hf => ?_
    have hkey : f.1 ≠ "args" := fun heq => h (heq ▸ List.mem_map_of_mem hf)
    obtain ⟨key, e⟩ := f
    cases e <;> simp_all
  cases hget : Table.get? "args" (Table.ofList pairs) with
  | none =>
    rw [hother (Table.get?_ofList_eq_none_iff.mp hget)]
    rfl
  | some e =>
    obtain ⟨before, after, rfl, hafter⟩ := Table.last_of_get?_ofList hget
    have hcount := hcounts before e after rfl
    obtain ⟨fields, rfl⟩ := object_of_countsSimple hcount
    have hnone : before.findSome? argsOf? = none := by simpa using hcount
    rw [List.findSome?_append, hnone, Option.none_or, List.findSome?_cons, hother hafter]
    by_cases hfields : fields = []
    · simp [hfields]
    · simp [hfields]

/-- A last pair with a key that does not count is kept aside. -/
theorem get?_leftovers (counts : List (String × Expr) → String × Expr → Bool) {key : String}
    (h : ∀ before e after, pairs = before ++ (key, e) :: after → key ∉ after.map Prod.fst →
      counts before (key, e) = false) :
    Table.get? key (Table.ofList (leftovers counts [] pairs))
      = Table.get? key (Table.ofList pairs) := by
  induction pairs using List.reverseRecOn with
  | nil => rfl
  | append_singleton pairs f ih =>
    rw [leftovers_append, List.nil_append, Table.get?_ofList_append]
    by_cases hkey : key = f.1
    · have hcount := h pairs f.2 [] (by rw [hkey]) (by simp)
      subst hkey
      rw [hcount, if_neg Bool.false_ne_true, Table.get?_ofList_append]
      simp
    · have hpairs := ih fun before e after hsplit hafter =>
        h before e (after ++ [f]) (by simp [hsplit]) (by simpa [hkey] using hafter)
      rw [if_neg hkey, ← hpairs]
      split
      · rw [List.append_nil]
      · rw [Table.get?_ofList_append, if_neg hkey]

variable {imports : Imports} {description : String} {span : Span} {t t' : Task}

theorem ValidSimple.get?_condition
    (h : (ofSimplePairs description pairs span).ValidSimple imports) :
    Table.get? "when" (Table.ofList pairs)
      = (ofSimplePairs description pairs span).condition.map Call.toExpr := by
  refine Task.get?_condition (fun earlier e hcount => ?_) h.conditionIsCall
  cases e <;> simp_all

theorem ValidCompound.get?_condition (h : t.ValidCompound)
    (hbare : t.bare = ofCompoundPairs pairs span) :
    Table.get? "when" (Table.ofList pairs) = t.condition.map Call.toExpr := by
  have hcondition : t.condition = pairs.findSome? conditionOf? := congrArg Task.condition hbare
  have hextra : t.extra = Table.ofList (leftovers countsCompound [] pairs) :=
    congrArg Task.extra hbare
  have hwhen : "when" ∉ Table.keys (Table.ofList (leftovers countsCompound [] pairs)) :=
    fun hwhen => absurd (h.knownKeys "when" (hextra ▸ hwhen)) (by decide)
  rw [hcondition]
  refine Task.get?_condition (fun earlier e hcount => ?_) hwhen
  cases e <;> simp_all

/-- A pair of a simple block that counts gives the module, the arguments or the condition. -/
theorem countsSimple_cases {earlier : List (String × Expr)} {key : String} {e : Expr}
    (h : countsSimple earlier (key, e) = true) :
    (key = "module" ∧ ∃ s, e = .string s) ∨ key = "args" ∨ key = "when" := by
  cases e <;> simp_all

/-- A pair besides module, arguments and condition is kept aside. -/
theorem get?_extra {key : String} {e : Expr} (hget : Table.get? key (Table.ofList pairs) = some e)
    (hcounts : ∀ before, countsSimple before (key, e) = false) :
    Table.get? key (Table.ofList (leftovers countsSimple [] pairs)) = some e := by
  rw [← hget]
  refine get?_leftovers countsSimple fun before e' after hpairs hafter => ?_
  have hlast : Table.get? key (Table.ofList pairs) = some e' := by
    rw [hpairs]
    exact Table.get?_ofList_of_last hafter
  obtain rfl : e = e' := Option.some.inj (hget.symm.trans hlast)
  exact hcounts before

/-- The explicit form has the arguments that were given with the module, or those of the one pair
that stands for both. -/
theorem ValidSimple.usage (h : t.ValidSimple imports) (hbody : t.body = [])
    (hexplicates : Explicates t t') :
    (t.extra = [] ∧ t'.args = t.args)
      ∨ (t.moduleName = none ∧ t.args = [] ∧ ∃ name, t.extra = [(name, .object t'.args)]) := by
  obtain ⟨-, -, -, husage, -, -, -, -⟩ := hexplicates
  obtain ⟨name, -, -, ⟨hnamed, hargs⟩ | ⟨hnone, hshort⟩⟩ := husage hbody
  · rcases h.oneModule with ⟨-, -, -, hextra⟩ | ⟨hmodule, -, -⟩
    · exact Or.inl ⟨hextra, hargs⟩
    · rw [hmodule] at hnamed
      cases hnamed
  · rcases h.oneModule with ⟨-, -, -, hextra⟩ | ⟨-, hargs, -⟩
    · rw [hextra] at hshort
      cases hshort
    · exact Or.inr ⟨hnone, hargs, name, hshort⟩

/-- The pair that stands for module and arguments is the last one with its key. -/
theorem ValidSimple.get?_short (h : (ofSimplePairs description pairs span).ValidSimple imports)
    {name : String} {fields : Fields} (hmodule : pairs.findSome? moduleOf? = none)
    (hextra : Table.ofList (leftovers countsSimple [] pairs) = [(name, .object fields)]) :
    Table.get? name (Table.ofList pairs) = some (.object fields) := by
  have hname : name ∈ Table.keys (ofSimplePairs description pairs span).extra := by
    change name ∈ Table.keys (Table.ofList _)
    simp [hextra, Table.keys]
  have hshort : (name, .object fields) ∈ leftovers countsSimple [] pairs := by
    have hmem : (name, Expr.object fields) ∈ Table.ofList (leftovers countsSimple [] pairs) := by
      simp [hextra]
    exact (Table.mem_of_mem_insertAll hmem).resolve_left List.not_mem_nil
  rw [← get?_leftovers countsSimple, hextra]
  · simp [Table.get?]
  · intro before e after hpairs hafter
    by_contra hcount
    rw [Bool.not_eq_false] at hcount
    rcases countsSimple_cases hcount with ⟨rfl, s, rfl⟩ | rfl | rfl
    · have hnone := List.findSome?_eq_none_iff.mp hmodule ("module", .string s) (by simp [hpairs])
      simp at hnone
    · obtain ⟨front, back, hsplit, hfalse⟩ := mem_leftovers_iff.mp hshort
      rw [List.nil_append, h.countsSimple_args hsplit] at hfalse
      cases hfalse
    · exact h.conditionIsCall hname

/-- The arguments of a valid simple task are the last value of some key. -/
theorem ValidSimple.pair_of_mem_args
    (h : (ofSimplePairs description pairs span).ValidSimple imports)
    (hexplicates : Explicates (ofSimplePairs description pairs span) t') {n : Number}
    (hn : n ∈ (Expr.object t'.args).numbers Expr.emitted) :
    ∃ f ∈ Table.ofList pairs, f.1 ≠ "when" ∧ n ∈ f.2.numbers Expr.emitted := by
  rcases h.usage rfl hexplicates with ⟨-, hsame⟩ | ⟨hmodule, -, name, hshort⟩
  · have hargs := get?_args fun before e after hpairs => h.countsSimple_args hpairs
    change t'.args = (pairs.findSome? argsOf?).getD [] at hsame
    rw [hsame, ← hargs] at hn
    cases hget : Table.get? "args" (Table.ofList pairs) with
    | none => simp [hget] at hn
    | some e =>
      rw [hget] at hn
      exact ⟨("args", e), Table.mem_ofList_iff.mpr hget, by simp, hn⟩
  · have hget := h.get?_short hmodule hshort
    refine ⟨(name, .object t'.args), Table.mem_ofList_iff.mpr hget, ?_, hn⟩
    rintro rfl
    exact h.conditionIsCall (by simp [hshort, Table.keys])

/-- The numbers in the last value of a key, other than a condition, are in the arguments. -/
theorem ValidSimple.mem_args_of_pair
    (h : (ofSimplePairs description pairs span).ValidSimple imports)
    (hexplicates : Explicates (ofSimplePairs description pairs span) t') {key : String} {e : Expr}
    (hget : Table.get? key (Table.ofList pairs) = some e) (hkey : key ≠ "when") {n : Number}
    (hn : n ∈ e.numbers Expr.emitted) : n ∈ (Expr.object t'.args).numbers Expr.emitted := by
  by_cases hkey' : key = "args"
  · have hargs := get?_args fun before e after hpairs => h.countsSimple_args hpairs
    subst hkey'
    rw [hget] at hargs
    obtain rfl : e = .object (ofSimplePairs description pairs span).args := hargs
    rcases h.usage rfl hexplicates with ⟨-, hsame⟩ | ⟨-, hnone, -⟩
    · rwa [hsame]
    · rw [hnone] at hn
      cases hn
  · -- Any other pair with numbers is kept aside, so it is the one that stands for both.
    have hcounts (before : List (String × Expr)) : countsSimple before (key, e) = false := by
      by_contra hcount
      rw [Bool.not_eq_false] at hcount
      rcases countsSimple_cases hcount with ⟨-, s, rfl⟩ | rfl | rfl
      · cases hn
      · exact hkey' rfl
      · exact hkey rfl
    have hextra : (key, e) ∈ (ofSimplePairs description pairs span).extra :=
      Table.mem_of_get? (get?_extra hget hcounts)
    rcases h.usage rfl hexplicates with ⟨hnone, -⟩ | ⟨-, -, name, hshort⟩
    · rw [hnone] at hextra
      cases hextra
    · rw [hshort] at hextra
      cases List.mem_singleton.mp hextra
      exact hn

theorem numbers_condition {condition : Option Call}
    (h : Table.get? "when" (Table.ofList pairs) = condition.map Call.toExpr) :
    (condition.map (·.toExpr.numbers Expr.emitted)).getD []
      = ((Table.get? "when" (Table.ofList pairs)).map (Expr.numbers Expr.emitted)).getD [] := by
  rw [h, Option.map_map]
  rfl

/-- The numbers of a valid simple task are those of its pairs, where the last pair with a key
counts. -/
theorem ValidSimple.mem_numbers (h : (ofSimplePairs description pairs span).ValidSimple imports)
    (hexplicates : Explicates (ofSimplePairs description pairs span) t') (n : Number) :
    n ∈ t'.numbers ↔ n ∈ (Table.ofList pairs).flatMap (·.2.numbers Expr.emitted) := by
  have hcondition : t'.condition = (ofSimplePairs description pairs span).condition := by
    obtain ⟨-, hcondition, -, -, -, -, -, -⟩ := hexplicates
    exact hcondition
  have hwhen :
      n ∈ ((Table.get? "when" (Table.ofList pairs)).map (Expr.numbers Expr.emitted)).getD []
        ↔ ∃ f ∈ Table.ofList pairs, f.1 = "when" ∧ n ∈ f.2.numbers Expr.emitted := by
    constructor
    · intro hn
      cases hget : Table.get? "when" (Table.ofList pairs) with
      | none => simp [hget] at hn
      | some e =>
        rw [hget] at hn
        exact ⟨("when", e), Table.mem_ofList_iff.mpr hget, rfl, hn⟩
    · rintro ⟨⟨_, e⟩, hf, rfl, hn⟩
      rwa [Table.mem_ofList_iff.mp hf]
  rw [numbers, ← Expr.numbers_object, List.mem_append, hcondition,
    numbers_condition h.get?_condition, hwhen, List.mem_flatMap]
  constructor
  · rintro (hn | ⟨f, hf, -, hn⟩)
    · obtain ⟨f, hf, -, hn⟩ := h.pair_of_mem_args hexplicates hn
      exact ⟨f, hf, hn⟩
    · exact ⟨f, hf, hn⟩
  · rintro ⟨f, hf, hn⟩
    by_cases hkey : f.1 = "when"
    · exact Or.inr ⟨f, hf, hkey, hn⟩
    · exact Or.inl (h.mem_args_of_pair hexplicates (Table.mem_ofList_iff.mp hf) hkey hn)

/-- The numbers of a valid compound task are those of its last condition. -/
theorem ValidCompound.numbers_eq (h : t.ValidCompound) (hbody : t.body ≠ [])
    (hbare : t.bare = ofCompoundPairs pairs span) (hexplicates : Explicates t t') :
    t'.numbers
      = ((Table.get? "when" (Table.ofList pairs)).map (Expr.numbers Expr.emitted)).getD [] := by
  obtain ⟨-, hcondition, -, -, hheld, -, -, -⟩ := hexplicates
  have hargs : t.args = [] := congrArg Task.args hbare
  rw [numbers, (hheld hbody).2.1, hargs, hcondition, numbers_condition (h.get?_condition hbare)]
  rfl

end Task

/-! ## Blocks -/

namespace Task

variable {t t' u : Task}

theorem SameFrame.children_eq (h : t.SameFrame t') : t'.children = t.children := by
  rw [children, children, h.body, h.rescue, h.always]

theorem mem_preorderAll_children : u ∈ preorderAll t.children ↔
    u ∈ preorderAll t.body ∨ u ∈ preorderAll t.rescue ∨ u ∈ preorderAll t.always := by
  simp [children, preorderAll_append]

end Task

namespace Match

variable {source : List Char} {keep : String → Bool} {m b : Match} {ms : List Match}
variable {t t' : Task}

theorem keepsOperators_emitted : KeepsOperators Expr.emitted := by
  intro cs name h
  unfold operatorName? at h
  split at h <;> cases h <;> decide

/-- The pairs among some parts, each key with the numerals of its last value. -/
def pairNumerals (source : List Char) (keep : String → Bool) (ms : List Match) :
    Table (List (List Char)) :=
  Table.ofList (fieldNumerals source keep (ms.filter (·.rule = .pair)))

/-- The numerals of a block: those of its pairs, and only those of the condition if the block is
compound. -/
def blockNumerals (source : List Char) (b : Match) : List (List Char) :=
  if b.rule = .simpleBlock then
    (pairNumerals source Expr.emitted b.children).flatMap Prod.snd
  else (Table.get? "when" (pairNumerals source Expr.emitted b.children)).getD []

/-- The numerals of a playbook that its program has: those of the attributes and of all blocks. -/
def emittedNumerals (source : List Char) (tree : Match) : List (List Char) :=
  (pairNumerals source (fun _ => true) tree.children).flatMap Prod.snd
    ++ tree.blocks.flatMap (blockNumerals source)

/-- Every pair among the parts has a key and an expression. -/
def HasPairs (source : List Char) (ms : List Match) : Prop :=
  ∀ m ∈ ms, m.rule = .pair → ∃ f, m.pair source = .ok f

theorem HasPairs.cons_of_ne (hrule : m.rule ≠ .pair) (h : HasPairs source ms) :
    HasPairs source (m :: ms) :=
  List.forall_mem_cons.mpr ⟨fun hpair => absurd hpair hrule, h⟩

theorem HasPairs.cons {f : String × Expr} (hpair : m.pair source = .ok f)
    (h : HasPairs source ms) : HasPairs source (m :: ms) :=
  List.forall_mem_cons.mpr ⟨fun _ => ⟨f, hpair⟩, h⟩

theorem hasPairs_simplePairs (h : simplePairs source t ms = .ok t') : HasPairs source ms := by
  induction ms generalizing t with
  | nil => simp [HasPairs]
  | cons m ms ih =>
    rw [simplePairs] at h
    split at h
    · obtain ⟨f, hpair, h⟩ := exists_of_bind_eq_ok h
      exact (ih h).cons hpair
    · next hrule => exact (ih h).cons_of_ne hrule

theorem hasPairs_compoundParts (h : compoundParts source t ms = .ok t') : HasPairs source ms := by
  induction ms generalizing t with
  | nil => simp [HasPairs]
  | cons m ms ih =>
    obtain ⟨rule, span, children⟩ := m
    cases rule with
    | pair =>
      rw [compoundParts] at h
      obtain ⟨f, hpair, h⟩ := exists_of_bind_eq_ok h
      exact (ih h).cons hpair
    | body | rescue | always =>
      rw [compoundParts] at h
      obtain ⟨ts, -, h⟩ := exists_of_bind_eq_ok h
      exact (ih h).cons_of_ne (by simp)
    | _ => cases h

theorem hasPairs_task (h : b.task source = .ok t) : HasPairs source b.children := by
  obtain ⟨rule, span, children⟩ := b
  cases rule with
  | simpleBlock => exact hasPairs_simplePairs h
  | compoundBlock =>
    rw [task] at h
    obtain ⟨t', hparts, -⟩ := exists_of_bind_eq_ok h
    exact hasPairs_compoundParts hparts
  | _ => cases h

/-- The pairs have the numbers of their numerals. -/
theorem yieldsFields_pairs (hkeep : KeepsOperators keep) (h : HasPairs source ms) :
    YieldsFields keep (pairNumerals source keep ms) (Table.ofList (pairsIn source ms)) := by
  suffices hall : ∀ (table : Table (List (List Char))) (fs : Fields), YieldsFields keep table fs →
      YieldsFields keep
        (Table.insertAll table (fieldNumerals source keep (ms.filter (·.rule = .pair))))
        (Table.insertAll fs (pairsIn source ms)) from
    hall [] [] ⟨rfl, List.nodup_nil, by simp⟩
  induction ms with
  | nil => exact fun _ _ hfs => hfs
  | cons m ms ih =>
    intro table fs hfs
    obtain ⟨hm, hms⟩ := List.forall_mem_cons.mp h
    by_cases hrule : m.rule = .pair
    · obtain ⟨⟨k, e⟩, hpair⟩ := hm hrule
      obtain ⟨css, hcss, he⟩ := yields_pair hkeep m k e hpair
      rw [pairsIn_cons_of_pair hrule hpair, List.filter_cons_of_pos (by simpa using hrule),
        fieldNumerals, hcss]
      exact ih hms _ _ (hfs.insert he)
    · rw [pairsIn_cons_of_ne hrule, List.filter_cons_of_neg (by simpa using hrule)]
      exact ih hms table fs hfs

/-- The numbers of a valid task are those of the numerals of its block. -/
theorem mem_numbers_block {imports : Imports} (htask : b.task source = .ok t)
    (hvalid : t.Valid imports) (hexplicates : Task.Explicates t t') (n : Number) :
    n ∈ t'.numbers ↔ n ∈ (b.blockNumerals source).filterMap Number.read? := by
  have hyields := yieldsFields_pairs keepsOperators_emitted (hasPairs_task htask)
  obtain ⟨rule, span, children⟩ := b
  cases rule with
  | simpleBlock =>
    obtain ⟨description, rfl⟩ := task_of_simpleBlock rfl htask
    rw [(hvalid.simple rfl).mem_numbers hexplicates, blockNumerals, if_pos rfl,
      ← hyields.flatMap_numbers]
    rfl
  | compoundBlock =>
    obtain ⟨hbare, hbody⟩ := task_of_compoundBlock rfl htask
    rw [(hvalid.compound hbody).numbers_eq hbody hbare hexplicates, blockNumerals,
      if_neg (by simp)]
    have hwhen := congrArg (Table.get? "when") hyields.numbers
    rw [Table.get?_mapValues, Table.get?_mapValues] at hwhen
    change n ∈ ((Table.get? "when" (Table.ofList (pairsIn source children))).map _).getD [] ↔ _
    rw [hwhen]
    cases Table.get? "when" (pairNumerals source Expr.emitted children) <;> rfl
  | _ => cases htask

/-! ## Tasks and their blocks -/

mutual

/-- Every task, at any depth, is that of a block. -/
theorem block_of_task : (m : Match) → (t : Task) → m.task source = .ok t →
    ∀ u ∈ t.preorder, ∃ b ∈ m.blocks, b.task source = .ok u
  | ⟨rule, span, children⟩, t, h, u, hu => by
    rw [Task.preorder_eq] at hu
    cases rule with
    | simpleBlock =>
      obtain ⟨description, rfl⟩ := task_of_simpleBlock rfl h
      obtain rfl := List.mem_singleton.mp hu
      exact ⟨_, List.mem_cons_self, h⟩
    | compoundBlock =>
      rcases List.mem_cons.mp hu with rfl | hu
      · exact ⟨_, List.mem_cons_self, h⟩
      · rw [task] at h
        obtain ⟨built, hparts, h⟩ := exists_of_bind_eq_ok h
        split at h
        · cases h
        · cases h
          rcases block_of_compoundParts children _ t hparts u hu with hu | ⟨b, hb, hub⟩
          · cases hu
          · exact ⟨b, List.mem_cons_of_mem _ hb, hub⟩
    | _ => cases h

theorem block_of_tasks : (ms : List Match) → (ts : List Task) → tasks source ms = .ok ts →
    ∀ u ∈ Task.preorderAll ts, ∃ b ∈ blocksAll ms, b.task source = .ok u
  | [], ts, h, u, hu => by
    cases h
    cases hu
  | m :: ms, ts, h, u, hu => by
    obtain ⟨t, others, rfl, ht, hothers⟩ := tasks_cons_eq_ok h
    rcases List.mem_append.mp hu with hu | hu
    · obtain ⟨b, hb, hub⟩ := block_of_task m t ht u hu
      exact ⟨b, List.mem_append_left _ hb, hub⟩
    · obtain ⟨b, hb, hub⟩ := block_of_tasks ms others hothers u hu
      exact ⟨b, List.mem_append_right _ hb, hub⟩

theorem block_of_compoundParts : (ms : List Match) → (t t' : Task) →
    compoundParts source t ms = .ok t' → ∀ u ∈ Task.preorderAll t'.children,
      u ∈ Task.preorderAll t.children ∨ ∃ b ∈ blocksAll ms, b.task source = .ok u
  | [], t, t', h, u, hu => by
    cases h
    exact Or.inl hu
  | ⟨rule, span, children⟩ :: ms, t, t', h, u, hu => by
    rw [blocksAll]
    cases rule with
    | pair =>
      rw [compoundParts] at h
      obtain ⟨⟨k, e⟩, -, h⟩ := exists_of_bind_eq_ok h
      have hrest := block_of_compoundParts ms _ t' h u hu
      rwa [(t.sameFrame_addCompoundPair k e).children_eq] at hrest
    | body | rescue | always =>
      rw [compoundParts] at h
      obtain ⟨ts, hts, h⟩ := exists_of_bind_eq_ok h
      rcases block_of_compoundParts ms _ t' h u hu with hu | ⟨b, hb, hub⟩
      · -- The part sets one list of nested tasks and leaves the other two.
        by_cases hnew : u ∈ Task.preorderAll ts
        · obtain ⟨b, hb, hub⟩ := block_of_tasks children ts hts u hnew
          exact Or.inr ⟨b, List.mem_append_left _ hb, hub⟩
        · simp only [Task.mem_preorderAll_children, hnew, false_or, or_false] at hu ⊢
          rcases hu with hu | hu <;> simp [hu]
      · exact Or.inr ⟨b, List.mem_append_right _ hb, hub⟩
    | _ => cases h

end

theorem block_of_statements {p p' : Plan} (h : statements source p ms = .ok p') :
    ∀ u ∈ Task.preorderAll p'.tasks,
      u ∈ Task.preorderAll p.tasks ∨ ∃ b ∈ blocksAll ms, b.task source = .ok u := by
  induction ms generalizing p with
  | nil =>
    cases h
    exact fun u hu => Or.inl hu
  | cons m ms ih =>
    intro u hu
    obtain ⟨rule, span, children⟩ := m
    cases rule with
    | pair =>
      rw [statements] at h
      obtain ⟨⟨k, e⟩, -, h⟩ := exists_of_bind_eq_ok h
      exact ih h u hu
    | simpleBlock | compoundBlock =>
      rw [statements] at h
      obtain ⟨t, ht, h⟩ := exists_of_bind_eq_ok h
      rw [blocksAll]
      rcases ih h u hu with hu | ⟨b, hb, hub⟩
      · rw [Task.preorderAll_append, List.mem_append, Task.preorderAll, Task.preorderAll,
          List.append_nil] at hu
        refine hu.imp_right fun hu => ?_
        obtain ⟨b, hb, hub⟩ := block_of_task _ t ht u hu
        exact ⟨b, List.mem_append_left _ hb, hub⟩
      · exact Or.inr ⟨b, List.mem_append_right _ hb, hub⟩
    | _ => cases h

theorem attributes_of_statements {p p' : Plan} (h : statements source p ms = .ok p') :
    HasPairs source ms ∧ p'.attributes = Table.insertAll p.attributes (pairsIn source ms) := by
  induction ms generalizing p with
  | nil =>
    cases h
    exact ⟨by simp [HasPairs], rfl⟩
  | cons m ms ih =>
    obtain ⟨rule, span, children⟩ := m
    cases rule with
    | pair =>
      rw [statements] at h
      obtain ⟨⟨k, e⟩, hpair, h⟩ := exists_of_bind_eq_ok h
      obtain ⟨hpairs, hattributes⟩ := ih h
      exact ⟨hpairs.cons hpair, by rw [hattributes, pairsIn_cons_of_pair rfl hpair]; rfl⟩
    | simpleBlock | compoundBlock =>
      rw [statements] at h
      obtain ⟨t, -, h⟩ := exists_of_bind_eq_ok h
      obtain ⟨hpairs, hattributes⟩ := ih h
      exact ⟨hpairs.cons_of_ne (by simp), by rw [hattributes, pairsIn_cons_of_ne (by simp)]⟩
    | _ => cases h

/-- The attributes have the numbers of their numerals. -/
theorem yieldsFields_attributes {p : Plan} (h : statements source {} ms = .ok p) :
    YieldsFields (fun _ => true) (pairNumerals source (fun _ => true) ms) p.attributes := by
  obtain ⟨hpairs, hattributes⟩ := attributes_of_statements h
  rw [hattributes]
  exact yieldsFields_pairs (fun _ _ _ => rfl) hpairs

/-! ## Numerals of the tree -/

theorem mem_numberTextsAll {cs : List Char} :
    cs ∈ numberTextsAll source ms ↔ ∃ m ∈ ms, cs ∈ m.numberTexts source := by
  induction ms with
  | nil => simp [numberTextsAll]
  | cons m ms ih => simp [numberTextsAll, ih]

theorem pairNumerals_subset {f : String × List (List Char)}
    (hf : f ∈ pairNumerals source keep ms) : f.2 ⊆ numberTextsAll source ms := by
  intro cs hcs
  have hf := (Table.mem_of_mem_insertAll hf).resolve_left List.not_mem_nil
  obtain ⟨m, hm, hcs⟩ := mem_numberTextsAll.mp (fieldNumerals_subset _ f hf hcs)
  exact mem_numberTextsAll.mpr ⟨m, (List.mem_filter.mp hm).1, hcs⟩

mutual

theorem numberTexts_of_mem_blocks : (m : Match) →
    ∀ b ∈ m.blocks, b.numberTexts source ⊆ m.numberTexts source
  | ⟨rule, span, children⟩, b, hb => by
    cases rule with
    | simpleBlock =>
      obtain rfl := List.mem_singleton.mp hb
      exact List.Subset.refl _
    | compoundBlock =>
      rcases List.mem_cons.mp hb with rfl | hb
      · exact List.Subset.refl _
      · exact fun cs hcs =>
          numberTextsAll_subset source _ (numberTexts_of_mem_blocksAll children b hb hcs)
    | entry | body | rescue | always =>
      exact fun cs hcs =>
        numberTextsAll_subset source _ (numberTexts_of_mem_blocksAll children b hb hcs)
    | _ => cases hb

theorem numberTexts_of_mem_blocksAll : (ms : List Match) →
    ∀ b ∈ blocksAll ms, b.numberTexts source ⊆ numberTextsAll source ms
  | [], b, hb => by cases hb
  | m :: ms, b, hb => by
    rcases List.mem_append.mp hb with hb | hb
    · exact fun cs hcs => List.mem_append_left _ (numberTexts_of_mem_blocks m b hb hcs)
    · exact fun cs hcs => List.mem_append_right _ (numberTexts_of_mem_blocksAll ms b hb hcs)

end

theorem blockNumerals_subset (b : Match) : b.blockNumerals source ⊆ b.numberTexts source := by
  intro cs hcs
  refine numberTextsAll_subset source b ?_
  rw [blockNumerals] at hcs
  split at hcs
  · obtain ⟨f, hf, hcs⟩ := List.mem_flatMap.mp hcs
    exact pairNumerals_subset hf hcs
  · cases hget : Table.get? "when" (pairNumerals source Expr.emitted b.children) with
    | none => simp [hget] at hcs
    | some css =>
      rw [hget] at hcs
      exact pairNumerals_subset (Table.mem_of_get? hget) hcs

/-- The numerals that are emitted are numbers of the tree. -/
theorem emittedNumerals_subset (tree : Match) :
    tree.emittedNumerals source ⊆ tree.numberTexts source := by
  intro cs hcs
  rcases List.mem_append.mp hcs with hcs | hcs
  · obtain ⟨f, hf, hcs⟩ := List.mem_flatMap.mp hcs
    exact numberTextsAll_subset source tree (pairNumerals_subset hf hcs)
  · obtain ⟨b, hb, hcs⟩ := List.mem_flatMap.mp hcs
    exact numberTexts_of_mem_blocks tree b hb (blockNumerals_subset b hcs)

end Match

end Playbooks
