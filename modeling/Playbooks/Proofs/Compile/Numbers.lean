import Playbooks.Proofs.Number.Decimals
import Playbooks.Proofs.Number.Denotation
import Playbooks.Proofs.Plan.Numerals

/-!
# Numbers of emitted programs

The numbers of a program are those of the numerals that are emitted. A numeral without a point that
fits 64 bits is emitted as the integer of its value. Any other one is emitted as a float, and
nothing keeps that from being infinite: a float literal is a decimal exactly if the numeral is below
the bound in magnitude.

## Main results

* `Settings.emits_of_generate`: the numbers of a program.
* `Settings.numbers_of_generate`: what they are.
-/
namespace Playbooks

open Playbooks.Parser Grammar

/-! ## Tasks in explicit form -/

namespace Task

mutual

/-- The explicit forms come in the order of the tasks they were made from. -/
theorem Explicates.preorder : (t t' : Task) → Explicates t t' →
    List.Forall₂ Explicates t.preorder t'.preorder
  | ⟨_, _, _, _, body, rescue, always, _, _⟩, ⟨_, _, _, _, body', rescue', always', _, _⟩,
      hexplicates => by
    rw [Task.preorder, Task.preorder]
    refine .cons hexplicates ?_
    obtain ⟨-, -, -, -, -, hbody, hrescue, halways⟩ := hexplicates
    have hbodies := Explicates.preorderAll body body' hbody
    have hrescues := Explicates.preorderAll rescue rescue' hrescue
    have halwayses := Explicates.preorderAll always always' halways
    exact List.rel_append (List.rel_append hbodies hrescues) halwayses

theorem Explicates.preorderAll : (ts ts' : List Task) → List.Forall₂ Explicates ts ts' →
    List.Forall₂ Explicates (Task.preorderAll ts) (Task.preorderAll ts')
  | [], [], _ => .nil
  | t :: ts, t' :: ts', hall => by
    obtain ⟨hhead, htail⟩ := List.forall₂_cons.mp hall
    exact List.rel_append (Explicates.preorder t t' hhead) (Explicates.preorderAll ts ts' htail)

end

end Task

/-! ## Sources and their blocks -/

theorem Grammar.rule_of_entry (c : Cursor) : entry.Ensures c fun m _ => m.rule = .entry :=
  Ensures.node fun _ _ _ _ => rfl

variable {source : List Char}

/-- The tasks of a source are those of the blocks of its tree. -/
theorem Plan.exists_parse_of_ofSource {p : Plan} (h : ofSource source = .ok p) :
    ∃ tree, parse source = .ok tree ∧ ofTree tree source = .ok p
      ∧ (∀ b ∈ tree.blocks, ∃ t ∈ p.walk, b.task source = .ok t)
      ∧ ∀ t ∈ p.walk, ∃ b ∈ tree.blocks, b.task source = .ok t := by
  obtain ⟨tree, hparse, h⟩ := exists_of_bind_eq_ok h
  have htree : ofTree tree source = .ok p := by
    cases hlowered : ofTree tree source with
    | error flaw =>
      rw [hlowered] at h
      cases h
    | ok p' =>
      rw [hlowered] at h
      cases h
      rfl
  obtain ⟨m, c', ⟨hprune, hrule, hfinds⟩, rfl⟩ := runRuleOrReject_ok
    ((prune_entry _).and ((rule_of_entry _).and (finds_entry source _))) hparse
  rw [hprune] at hparse htree
  rw [walk_eq_preorderAll]
  refine ⟨m, hparse, htree, fun b hb => ?_, fun t ht => ?_⟩
  · exact hfinds p htree b (by simpa [Match.blocksAll] using hb)
  · obtain ⟨b, hb, htask⟩ := (Match.block_of_statements htree t ht).resolve_left List.not_mem_nil
    obtain ⟨rule, span, children⟩ := m
    obtain rfl : rule = .entry := hrule
    exact ⟨b, hb, htask⟩

/-! ## Programs -/

namespace Settings

variable {s : Settings} {resolved : Resolved}

/-- The numbers of the tasks of a checked playbook are those of its blocks. -/
theorem mem_numbers_walk {p : Plan} {tree : Match} (hsource : Plan.ofSource source = .ok p)
    (hresolve : p.resolve s.modules = .ok resolved)
    (hblocks : ∀ b ∈ tree.blocks, ∃ t ∈ p.walk, b.task source = .ok t)
    (htasks : ∀ t ∈ p.walk, ∃ b ∈ tree.blocks, b.task source = .ok t) (n : Number) :
    (∃ t ∈ resolved.plan.walk, n ∈ t.numbers)
      ↔ n ∈ (tree.blocks.flatMap (Match.blockNumerals source)).filterMap Number.read? := by
  have hshaped := Plan.shaped_of_ofSource hsource
  obtain ⟨hproblems, -, -⟩ := Plan.resolve_eq_ok hresolve
  obtain ⟨imports, -, -, hvalid⟩ := (Plan.problems_eq_nil_iff_valid hshaped).mp hproblems
  rw [Plan.throughout_iff_walk] at hvalid
  have hforms : List.Forall₂ Task.Explicates p.walk resolved.plan.walk := by
    rw [Plan.walk_eq_preorderAll, Plan.walk_eq_preorderAll]
    exact Task.Explicates.preorderAll _ _ (Plan.explicates_of_resolve hshaped hresolve)
  rw [List.filterMap_flatMap, List.mem_flatMap]
  constructor
  · rintro ⟨t', ht', hn⟩
    obtain ⟨t, ht, hexplicates⟩ := exists_of_mem_forall₂ (List.Forall₂.flip hforms) ht'
    obtain ⟨b, hb, htask⟩ := htasks t ht
    exact ⟨b, hb, (Match.mem_numbers_block htask (hvalid t ht) hexplicates n).mp hn⟩
  · rintro ⟨b, hb, hn⟩
    obtain ⟨t, ht, htask⟩ := hblocks b hb
    obtain ⟨t', ht', hexplicates⟩ := exists_of_mem_forall₂ hforms ht
    exact ⟨t', ht', (Match.mem_numbers_block htask (hvalid t ht) hexplicates n).mpr hn⟩

/-- A compound task of a checked playbook has no arguments. -/
theorem args_eq_nil_of_check (h : s.check source = .ok resolved) :
    ∀ t ∈ resolved.plan.walk, t.isCompound = true → t.args = [] := by
  obtain ⟨p, hsource, -, htree, -⟩ := explicates_of_check h
  rw [← Plan.throughout_iff_walk]
  refine Task.Explicates.throughoutAll (fun t t' hexplicates hkinded hcompound => ?_) _ _ htree
    (Plan.wellKinded_of_ofSource hsource).2
  have hbody' : t'.body ≠ [] := by simpa [Task.isCompound] using hcompound
  have hbody : t.body ≠ [] := mt hexplicates.body_eq_nil_iff.mpr hbody'
  obtain ⟨-, -, -, -, hheld, -, -, -⟩ := hexplicates
  rcases hkinded.1 with hsimple | hcompound
  · exact absurd hsimple.body hbody
  · rw [(hheld hbody).2.1, hcompound.args]

/-- The numbers of a program are those of the numerals that are emitted, up to floats that are not
finite. -/
theorem emits_of_generate {emission : Emission} (h : s.generate source = .ok emission) :
    ∃ tree, parse source = .ok tree
      ∧ Emits ((tree.emittedNumerals source).filterMap Number.read?)
        (numbersOf emission.program.literals) := by
  obtain ⟨resolved, hcheck, rfl, -⟩ := exists_of_generate h
  obtain ⟨p, hsource, hresolve⟩ := exists_of_check hcheck
  obtain ⟨tree, hparse, htree, hblocks, htasks⟩ := Plan.exists_parse_of_ofSource hsource
  have hattributes := Match.yieldsFields_attributes htree
  have hshown := Expr.emits_attributeLiteralsFields p.attributes
    (Expr.throughoutFields_iff.mpr hattributes.keyed)
  rw [hattributes.flatMap_numbers] at hshown
  refine ⟨tree, hparse, ?_⟩
  rw [Match.emittedNumerals, List.filterMap_append]
  refine (hshown.append (.refl _)).perm fun n => ?_
  have hplan : resolved.plan.attributes = p.attributes := by
    rw [(Plan.resolve_eq_ok hresolve).2.1]
  rw [List.mem_append, mem_numbersOf, ← mem_numbers_walk hsource hresolve hblocks htasks, ← hplan,
    Plan.program_emit]
  exact Plan.mem_literals_program s.emit.runtimePath (shaped_of_check hcheck)
    (fun t ht => exists_ref_of_check hcheck ht) (args_eq_nil_of_check hcheck) n

/-- The numerals that are emitted are numbers of the parse tree. The integer literals of a program
are the values of those without a point that fit 64 bits. A float literal is that of another one of
them, and it is finite, and so a decimal, exactly if the numeral is below the bound in magnitude.
Every float below the bound is a literal. -/
theorem numbers_of_generate (s : Settings) (source : List Char) (emission : Emission)
    (hgenerate : s.generate source = .ok emission) :
    ∃ tree, parse source = .ok tree ∧ tree.emittedNumerals source ⊆ tree.numberTexts source
      ∧ (∀ i : Int64, .int i ∈ emission.program.literals ↔
        ∃ cs ∈ tree.emittedNumerals source, '.' ∉ cs ∧ numeralValue cs = i.toInt)
      ∧ (∀ x : Float, .float x ∈ emission.program.literals →
        (∃ cs ∈ tree.emittedNumerals source, Number.read? cs = some (.float x)
          ∧ (x.isFinite = true ↔ |numeralValue cs| < Float64.overflow))
        ∧ (x.isFinite = true ↔ ∃ ds, IsDecimal ds
          ∧ ((Literal.float x).chars = ds ∨ (Literal.float x).chars = '-' :: ds)))
      ∧ ∀ cs ∈ tree.emittedNumerals source, ∀ x : Float, Number.read? cs = some (.float x) →
        |numeralValue cs| < Float64.overflow → .float x ∈ emission.program.literals := by
  obtain ⟨tree, hparse, hemits⟩ := emits_of_generate hgenerate
  have hsubset : tree.emittedNumerals source ⊆ tree.numberTexts source :=
    Match.emittedNumerals_subset tree
  have hnumeral (cs : List Char) (hcs : cs ∈ tree.emittedNumerals source) : IsNumeral cs :=
    isNumeral_of_parse hparse cs (hsubset hcs)
  have hcomplete {cs : List Char} {n : Number} (hcs : cs ∈ tree.emittedNumerals source)
      (hread : Number.read? cs = some n) (hfinite : n.IsFinite) :
      n.literal ∈ emission.program.literals :=
    mem_numbersOf.mp (hemits.complete n (List.mem_filterMap.mpr ⟨cs, hcs, hread⟩) hfinite)
  refine ⟨tree, hparse, hsubset, fun i => ?_, fun x hx => ?_, fun cs hcs x hread hbelow => ?_⟩
  · constructor
    · intro hi
      obtain ⟨cs, hcs, hread⟩ := List.mem_filterMap.mp
        (hemits.sound (.int i) (mem_numbersOf.mpr hi))
      exact ⟨cs, hcs, (Number.read?_eq_int_iff (hnumeral cs hcs) i).mp hread⟩
    · rintro ⟨cs, hcs, hvalue⟩
      have hread := (Number.read?_eq_int_iff (hnumeral cs hcs) i).mpr hvalue
      exact hcomplete hcs hread trivial
  · obtain ⟨cs, hcs, hread⟩ := List.mem_filterMap.mp
      (hemits.sound (.float x) (mem_numbersOf.mpr hx))
    exact ⟨⟨cs, hcs, hread, Number.isFinite_of_read? (hnumeral cs hcs) hread⟩,
      (Float64.isDecimal_sourceText_iff x).symm⟩
  · exact hcomplete hcs hread ((Number.isFinite_of_read? (hnumeral cs hcs) hread).mpr hbelow)

end Settings

/-- Numbers at both ends of 64 bits and just beyond. The first attribute is overwritten. -/
def wideSource : List Char :=
  ("low: -9223372036854775808 low: 7 t [x] \x7b"
    ++ "debug: \x7bmsg: 9223372036854775807, ratio: add(2.50, 1,)\x7d "
    ++ "when: eq(9223372036854775808, 0,)\x7d").toList

/-- The numerals of the wide playbook that are emitted. -/
def wideNumerals : List (List Char) :=
  ["7".toList, "9223372036854775807".toList, "2.50".toList, "1".toList,
    "9223372036854775808".toList, "0".toList]

/-- The greatest integer is emitted, the least one was overwritten, and the floats are finite. -/
theorem numbers_of_generate_wide :
    ∃ emission, Settings.generate {} wideSource = .ok emission
      ∧ .int Int64.maxValue ∈ emission.program.literals
      ∧ .int Int64.minValue ∉ emission.program.literals
      ∧ ∀ x, .float x ∈ emission.program.literals → x.isFinite = true := by
  have hgenerated : ((Settings.generate {} wideSource).toOption.any fun _ => true) = true := by
    decide +kernel
  have hparsed : ((parse wideSource).toOption.any fun tree =>
      decide (tree.emittedNumerals wideSource = wideNumerals)) = true := by
    decide +kernel
  obtain ⟨emission, hgenerate, -⟩ := exists_of_any_toOption hgenerated
  obtain ⟨tree, hparse, hnumerals⟩ := exists_of_any_toOption hparsed
  rw [decide_eq_true_eq] at hnumerals
  obtain ⟨tree', hparse', -, hints, hfloats, -⟩ :=
    Settings.numbers_of_generate {} wideSource emission hgenerate
  obtain rfl := Except.ok.inj (hparse.symm.trans hparse')
  rw [hnumerals] at hints hfloats
  refine ⟨emission, hgenerate, (hints _).mpr ?_, fun hlow => ?_, fun x hx => ?_⟩
  · decide +kernel
  · have hnone : ¬ ∃ cs ∈ wideNumerals,
        '.' ∉ cs ∧ numeralValue cs = Int64.minValue.toInt := by decide +kernel
    exact hnone ((hints _).mp hlow)
  · have hbelow : ∀ cs ∈ wideNumerals, |numeralValue cs| < Float64.overflow := by decide +kernel
    obtain ⟨⟨cs, hcs, -, hfinite⟩, -⟩ := hfloats x hx
    exact hfinite.mpr (hbelow cs hcs)

/-- A number above every float. -/
def hugeSource : List Char :=
  "a: 2".toList ++ List.replicate 308 '0'

/-- The huge playbook is compiled without warnings to a program with an infinite float literal. -/
theorem numbers_of_generate_infinite :
    ∃ emission, Settings.generate {} hugeSource = .ok emission ∧ emission.diagnostics = []
      ∧ ∃ x, .float x ∈ emission.program.literals ∧ x.isFinite = false
        ∧ (Literal.float x).chars = "inf.0".toList := by
  have h : ((Settings.generate {} hugeSource).toOption.any fun e => e.diagnostics.isEmpty
      && e.program.literals.any fun l => match l with
        | .float x => !x.isFinite && decide (l.chars = "inf.0".toList)
        | _ => false) = true := by
    decide +kernel
  obtain ⟨emission, hgenerate, h⟩ := exists_of_any_toOption h
  rw [Bool.and_eq_true, List.isEmpty_iff, List.any_eq_true] at h
  obtain ⟨hnone, l, hl, hinfinite⟩ := h
  refine ⟨emission, hgenerate, hnone, ?_⟩
  cases l with
  | float x =>
    simp only [Bool.and_eq_true, Bool.not_eq_true', decide_eq_true_eq] at hinfinite
    exact ⟨x, hl, hinfinite⟩
  | _ => cases hinfinite

end Playbooks
