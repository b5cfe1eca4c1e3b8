import Playbooks.Proofs.Compile.Warnings
import Playbooks.Proofs.Program.Subterms

/-!
# Struct literals of emitted programs

Every simple task becomes a struct literal: the path of its module, with one field for each of its
arguments. A program without warnings has no other struct literals.

Such a literal need not be well formed. Keys that differ in a hyphen and an underscore name the same
field, and a path is checked for the form of its segments but not for keywords.

## Main definitions

* `StructLiteral.WellFormed`: no field is given twice, and the path is made of identifiers.
* `Task.Builds`: the struct literal of a simple task.

## Main results

* `Settings.records_of_generate`: the struct literals of a program without warnings, and which of
  them are well formed.
-/
namespace Playbooks

/-! ## Identifiers of fields -/

namespace Ident

/-- The name with underscores for hyphens. -/
def snake (name : String) : List Char :=
  name.toList.map fun c => if c = '-' then '_' else c

theorem ofKebab?_congr {name other : String} (h : snake name = snake other) :
    ofKebab? name = ofKebab? other := by
  change name.toList.map _ = other.toList.map _ at h
  simp only [ofKebab?, h]

/-- An identifier spells its name, in raw form if that is a keyword. -/
theorem ofKebab?_cases {name : String} {ident : Ident} (h : ofKebab? name = some ident) :
    '#' ∉ snake name
      ∧ (ident.text.toList = snake name ∨ ident.text.toList = 'r' :: '#' :: snake name) := by
  have hwords : name.toList.map (fun c => if c = '-' then '_' else c) = snake name := rfl
  simp only [ofKebab?, hwords] at h
  cases hname : snake name with
  | nil =>
      rw [hname] at h
      simp at h
  | cons c rest =>
      simp only [hname] at h
      split at h
      · cases h
      · next hvalid =>
        rw [Bool.or_eq_true, not_or, Bool.not_eq_true', Bool.not_eq_false, Bool.and_eq_true,
          List.all_eq_true] at hvalid
        obtain ⟨⟨hfirst, hothers⟩, -⟩ := hvalid
        constructor
        · intro hsharp
          rcases List.mem_cons.mp hsharp with rfl | hsharp
          · exact absurd hfirst (by decide)
          · exact absurd (hothers '#' hsharp) (by decide)
        · split at h
          · cases h
            exact Or.inr (by simp)
          · cases h
            exact Or.inl (by simp)

/-- Names have the same identifier if they differ in hyphens and underscores only. -/
theorem eq_iff_snake_eq {name other : String} {i j : Ident} (hi : ofKebab? name = some i)
    (hj : ofKebab? other = some j) : i = j ↔ snake name = snake other := by
  constructor
  · rintro rfl
    obtain ⟨hname, hi⟩ := ofKebab?_cases hi
    obtain ⟨hother, hj⟩ := ofKebab?_cases hj
    -- A name has no `#` in it, so the raw form of one is never the plain form of another.
    rcases hi with hi | hi <;> rcases hj with hj | hj <;> rw [hi] at hj
    · exact hj
    · exact absurd (hj ▸ by simp) hname
    · exact absurd (hj ▸ by simp) hother
    · simpa using hj
  · intro h
    have := ofKebab?_congr h
    rw [hi, hj] at this
    exact Option.some.inj this

end Ident

/-! ## Well-formed struct literals -/

/-- Keywords that cannot stand in a path; `crate`, `self` and `super` can. -/
def pathKeywords : List String :=
  "Self" :: rawKeywords

namespace StructLiteral

/-- The parts of the path between its double colons. -/
def segments (r : StructLiteral) : List (List Char) :=
  Text.split [':', ':'] r.path.toList

/-- No field is given twice, and every segment of the path is an identifier. -/
structure WellFormed (r : StructLiteral) : Prop where
  fields : (r.fields.map (·.1)).Nodup
  path : ∀ segment ∈ r.segments,
    isPathSegment segment = true ∧ String.ofList segment ∉ pathKeywords

theorem wellFormed_iff (r : StructLiteral) :
    r.WellFormed ↔ (r.fields.map (·.1)).Nodup ∧ ∀ segment ∈ r.segments,
      isPathSegment segment = true ∧ String.ofList segment ∉ pathKeywords :=
  ⟨fun h => ⟨h.fields, h.path⟩, fun h => ⟨h.1, h.2⟩⟩

instance (r : StructLiteral) : Decidable r.WellFormed :=
  decidable_of_iff _ r.wellFormed_iff.symm

end StructLiteral

namespace Task

/-- The struct literal of a simple task: the path of its module and its arguments. -/
structure Builds (modules : Modules) (t : Task) (r : StructLiteral) : Prop where
  simple : t.isCompound = false
  path : (Table.get? (t.moduleName.getD "") modules).map (·.path) = some r.path
  fields : r.fields = fieldTerms t.args

/-- The names of the arguments differ in more than hyphens and underscores. -/
def WordsDiffer (t : Task) : Prop :=
  ((Table.keys t.args).map Ident.snake).Nodup

instance (t : Task) : Decidable t.WordsDiffer :=
  inferInstanceAs (Decidable (List.Nodup _))

/-- The fields of a struct differ if the words of the arguments do. -/
theorem nodup_fieldTerms_iff {args : Fields} (h : argDefects args = []) :
    ((fieldTerms args).map (·.1)).Nodup ↔ ((Table.keys args).map Ident.snake).Nodup := by
  have hident : ∀ f ∈ args, Ident.ofKebab? f.1 = some (fieldIdent f.1) := by
    induction args with
    | nil => simp
    | cons arg rest ih =>
        obtain ⟨hkey, -, hrest⟩ := argDefects_cons_eq_nil h
        exact List.forall_mem_cons.mpr ⟨hkey, ih hrest⟩
  simp only [fieldTerms, Table.keys, List.map_map, List.Nodup, List.pairwise_map]
  refine List.Pairwise.iff_of_mem fun {f g} hf hg => ?_
  exact not_congr (Ident.eq_iff_snake_eq (hident f hf) (hident g hg))

theorem record?_moduleTerm {modules : Modules} {t : Task} {ref : ModuleRef}
    (h : Table.get? (t.moduleName.getD "") modules = some ref) :
    (t.moduleTerm modules).record? = some ⟨ref.path, fieldTerms t.args⟩ := by
  rw [moduleTerm, h]
  rfl

theorem filterMap_record?_lit (ls : List Literal) :
    (ls.filterMap fun l => (Term.lit l).record?) = [] :=
  List.filterMap_eq_nil_iff.mpr fun _ _ => rfl

/-- Of the terms that a task has of its own, the struct of its module is the only one with a struct
literal. -/
theorem mem_records_ownTerms {modules : Modules} {t : Task} {r : StructLiteral}
    (hmodule : t.isCompound = false → ∃ ref,
      Table.get? (t.moduleName.getD "") modules = some ref) :
    r ∈ Term.collectAll Term.record? (t.ownTerms modules) ↔ t.Builds modules r := by
  have hcondition : Term.collectAll Term.record? (t.condition.map (·.toExpr.deferred)).toList
      = [] := by
    cases t.condition with
    | none => rfl
    | some c =>
        simpa [Expr.collect_deferred Term.selects_record?] using filterMap_record?_lit _
  rw [ownTerms, Term.collectAll_cons, Term.collectAll_append, hcondition, List.append_nil]
  cases hcompound : t.isCompound with
  | true =>
      refine iff_of_false (by simp [Term.record?]) fun hbuilds => ?_
      exact absurd hbuilds.simple (by simp [hcompound])
  | false =>
      obtain ⟨ref, href⟩ := hmodule hcompound
      have hcollect : Term.collectAll Term.record? [t.moduleTerm modules]
          = [⟨ref.path, fieldTerms t.args⟩] := by
        simp [collect_moduleTerm Term.selects_record? href, record?_moduleTerm href,
          filterMap_record?_lit]
      rw [if_neg (by simp), hcollect]
      simp only [Term.collect_string, Term.record?, Option.toList_none, List.nil_append,
        List.mem_singleton]
      have hpath : (Table.get? (t.moduleName.getD "") modules).map (·.path) = some ref.path := by
        rw [href, Option.map_some]
      constructor
      · rintro rfl
        exact ⟨hcompound, hpath, rfl⟩
      · rintro ⟨-, hpath', hfields⟩
        rw [Option.some.inj (hpath.symm.trans hpath'), ← hfields]

mutual

/-- Where there are no diagnostics, no task at any depth has defects. -/
theorem throughout_of_diagnostics_eq_nil (modules : Modules) : (t : Task) →
    t.Throughout Shaped → t.diagnostics modules = [] →
      t.Throughout fun u => u.ownDefects modules = []
  | ⟨description, moduleName, condition, args, body, rescue, always, extra, span⟩, hshaped, h => by
    obtain ⟨hself, hbody, hrescue, halways⟩ := hshaped
    simp only [diagnostics, List.append_eq_nil_iff, List.map_eq_nil_iff] at h
    obtain ⟨hcontent, hcondition⟩ := h
    cases body with
    | nil =>
      obtain ⟨rfl, rfl⟩ := hself rfl
      refine ⟨List.append_eq_nil_iff.mpr ⟨?_, hcondition⟩, trivial, trivial, trivial⟩
      exact List.map_eq_nil_iff.mp hcontent
    | cons first others =>
      have hclauses := List.append_eq_nil_iff.mp hcontent
      obtain ⟨hbodies, hrescues⟩ := List.append_eq_nil_iff.mp hclauses.1
      refine ⟨hcondition, ?_, ?_, ?_⟩
      · exact throughoutAll_of_diagnosticsAll_eq_nil modules _ hbody hbodies
      · exact throughoutAll_of_diagnosticsAll_eq_nil modules _ hrescue hrescues
      · exact throughoutAll_of_diagnosticsAll_eq_nil modules _ halways hclauses.2

theorem throughoutAll_of_diagnosticsAll_eq_nil (modules : Modules) : (ts : List Task) →
    ThroughoutAll Shaped ts → diagnosticsAll modules ts = [] →
      ThroughoutAll (fun u => u.ownDefects modules = []) ts
  | [], _, _ => trivial
  | t :: ts, hshaped, h => by
    obtain ⟨ht, hts⟩ := List.append_eq_nil_iff.mp h
    exact ⟨throughout_of_diagnostics_eq_nil modules t hshaped.1 ht,
      throughoutAll_of_diagnosticsAll_eq_nil modules ts hshaped.2 hts⟩

end

end Task

/-! ## Programs without warnings -/

theorem Plan.shaped_of_ofSource {source : List Char} {p : Plan} (h : ofSource source = .ok p) :
    p.Throughout Task.Shaped :=
  (p.throughout_iff_walk).mpr fun t ht =>
    ((p.throughout_iff_walk).mp (wellKinded_of_ofSource h).2 t ht).shaped

namespace Settings

variable {s : Settings} {source : List Char} {resolved : Resolved}

theorem shaped_of_check (h : s.check source = .ok resolved) :
    resolved.plan.Throughout Task.Shaped := by
  obtain ⟨p, hsource, -, htree, -⟩ := explicates_of_check h
  exact Task.Explicates.throughoutAll (fun _ _ hexplicates hshaped => hexplicates.shaped hshaped)
    _ _ htree (Plan.shaped_of_ofSource hsource)

/-- The module of every simple task of a checked playbook is found. -/
theorem exists_ref_of_check (h : s.check source = .ok resolved) {t : Task}
    (ht : t ∈ resolved.plan.walk) (hsimple : t.isCompound = false) :
    ∃ ref, Table.get? (t.moduleName.getD "") resolved.modules = some ref := by
  obtain ⟨-, -, -, -, hexplicit⟩ := explicates_of_check h
  rw [Plan.throughout_iff_walk] at hexplicit
  have hbody : t.body = [] := by simpa [Task.isCompound] using hsimple
  obtain ⟨⟨name, hname, hmodule⟩, -⟩ := hexplicit t ht hbody
  rw [hmodule]
  exact Table.exists_get?_of_mem_keys hname

/-- The path of every module that a checked playbook uses has the form of a path. -/
theorem isModulePath_of_check (h : s.check source = .ok resolved) {name path : String}
    (hpath : (Table.get? name resolved.modules).map (·.path) = some path) :
    isModulePath path = true := by
  obtain ⟨ref, href, rfl⟩ := Option.map_eq_some_iff.mp hpath
  obtain ⟨p, hsource, hresolve⟩ := exists_of_check h
  have hshaped := Plan.shaped_of_ofSource hsource
  obtain ⟨hproblems, -, -⟩ := Plan.resolve_eq_ok hresolve
  obtain ⟨imports, hoverlaid, hpaths, -⟩ := (Plan.problems_eq_nil_iff_valid hshaped).mp hproblems
  obtain rfl := hoverlaid.imports_eq
  have huses := Plan.listsFirstUses_of_resolve hshaped hresolve
  obtain ⟨-, hfound⟩ := huses.refs _ (Table.mem_of_get? href)
  exact hpaths _ (Table.mem_of_get? hfound)

theorem isPathSegment_of_check (h : s.check source = .ok resolved) {t : Task} {r : StructLiteral}
    (hbuilds : t.Builds resolved.modules r) :
    ∀ segment ∈ r.segments, isPathSegment segment = true :=
  List.all_eq_true.mp (isModulePath_of_check h hbuilds.path)

/-- The struct literals of a program without warnings are those of the simple tasks. Such a literal
is well formed exactly if the names of the arguments differ in more than hyphens and underscores and
the path of the module has no keyword in it; neither is checked. -/
theorem records_of_generate (s : Settings) (source : List Char) (emission : Emission)
    (hgenerate : s.generate source = .ok emission) (hnone : emission.diagnostics = []) :
    ∃ resolved, s.check source = .ok resolved
      ∧ (∀ t ∈ resolved.plan.walk, t.isCompound = false →
        ∃ r ∈ emission.program.records, t.Builds resolved.modules r)
      ∧ ∀ r ∈ emission.program.records, ∃ t ∈ resolved.plan.walk, t.Builds resolved.modules r
        ∧ (r.WellFormed ↔ t.WordsDiffer
          ∧ ∀ segment ∈ r.segments, String.ofList segment ∉ pathKeywords) := by
  obtain ⟨resolved, hcheck, rfl, -⟩ := exists_of_generate hgenerate
  have hshaped := shaped_of_check hcheck
  have hattributes : Term.collectAll Term.record?
      (Expr.attributeFields resolved.plan.attributes) = [] := by
    rw [Expr.collect_attributeFields Term.selects_record?]
    exact Task.filterMap_record?_lit _
  have hrecords (r : StructLiteral) :
      r ∈ (resolved.plan.emit resolved.modules s.emit.runtimePath).program.records
        ↔ ∃ t ∈ resolved.plan.walk, t.Builds resolved.modules r := by
    rw [Plan.program_emit, Program.records,
      Plan.mem_collect_program Term.selects_record? _ _ _ hshaped, hattributes]
    simp only [List.not_mem_nil, false_or]
    refine exists_congr fun t => and_congr_right fun ht => ?_
    exact Task.mem_records_ownTerms (exists_ref_of_check hcheck ht)
  have hdefects : ∀ t ∈ resolved.plan.walk, t.ownDefects resolved.modules = [] := by
    rw [Plan.diagnostics_emit] at hnone
    rw [← Plan.throughout_iff_walk]
    exact Task.throughoutAll_of_diagnosticsAll_eq_nil _ _ hshaped
      (List.append_eq_nil_iff.mp hnone).2
  refine ⟨resolved, hcheck, fun t ht hsimple => ?_, fun r hr => ?_⟩
  · obtain ⟨ref, href⟩ := exists_ref_of_check hcheck ht hsimple
    have hbuilds : t.Builds resolved.modules ⟨ref.path, Task.fieldTerms t.args⟩ :=
      ⟨hsimple, by rw [href, Option.map_some], rfl⟩
    exact ⟨_, (hrecords _).mpr ⟨t, ht, hbuilds⟩, hbuilds⟩
  · obtain ⟨t, ht, hbuilds⟩ := (hrecords r).mp hr
    refine ⟨t, ht, hbuilds, ?_⟩
    have hargs : Task.argDefects t.args = [] := by
      have hown := (List.append_eq_nil_iff.mp (hdefects t ht)).1
      rw [if_neg (by simp [hbuilds.simple]), Task.moduleDefects] at hown
      split at hown
      · exact hown
      · cases hown
    have hsegments := isPathSegment_of_check hcheck hbuilds
    rw [r.wellFormed_iff, hbuilds.fields, Task.nodup_fieldTerms_iff hargs]
    refine and_congr_right fun _ => forall₂_congr fun segment hsegment => ?_
    exact and_iff_right (hsegments segment hsegment)

end Settings

/-- A struct named by a path from the root of the program, with a keyword among its fields, used
inside a block. -/
def rootedSource : List Char :=
  ("imports: \x7brun: 'crate::tasks::Run'\x7d block \x7bname: 'b' "
    ++ "t [go] \x7brun: \x7bdry-run: true, type: upper('x',)\x7d\x7d\x7d").toList

/-- The one struct literal of the rooted playbook is well formed, as its task tells. -/
theorem records_of_generate_rooted :
    ∃ emission, Settings.generate {} rootedSource = .ok emission ∧ emission.diagnostics = []
      ∧ emission.program.records.map (fun r => (r.path, r.fields.map (·.1.text)))
        = [("crate::tasks::Run", ["dry_run", "r#type"])]
      ∧ ∀ r ∈ emission.program.records, r.WellFormed := by
  have hgenerated : ((Settings.generate {} rootedSource).toOption.any fun e =>
      e.diagnostics.isEmpty
        && decide (e.program.records.map (fun r => (r.path, r.fields.map (·.1.text)))
          = [("crate::tasks::Run", ["dry_run", "r#type"])])
        && decide (∀ r ∈ e.program.records, ∀ segment ∈ r.segments,
          String.ofList segment ∉ pathKeywords)) = true := by
    decide +kernel
  have hchecked : ((Settings.check {} rootedSource).toOption.any fun resolved =>
      decide (∀ t ∈ resolved.plan.walk, t.WordsDiffer)) = true := by
    decide +kernel
  obtain ⟨emission, hgenerate, h⟩ := exists_of_any_toOption hgenerated
  obtain ⟨resolved, hcheck, hdiffer⟩ := exists_of_any_toOption hchecked
  simp only [Bool.and_eq_true, decide_eq_true_eq, List.isEmpty_iff] at h hdiffer
  obtain ⟨⟨hnone, hrecords⟩, hkeywords⟩ := h
  refine ⟨emission, hgenerate, hnone, hrecords, fun r hr => ?_⟩
  obtain ⟨resolved', hcheck', -, hbuilt⟩ :=
    Settings.records_of_generate {} rootedSource emission hgenerate hnone
  obtain rfl := Except.ok.inj (hcheck.symm.trans hcheck')
  obtain ⟨t, ht, -, hwell⟩ := hbuilt r hr
  exact hwell.mpr ⟨hdiffer t ht, hkeywords r hr⟩

/-- Two keys that name one field. -/
def hyphenSource : List Char :=
  "t [x] \x7bdebug: \x7ba-b: 1, 'a_b': 2\x7d\x7d".toList

/-- A path with a keyword in it. -/
def keywordSource : List Char :=
  "imports: \x7bx: 'fn::Y'\x7d t [a] \x7bx: \x7b\x7d\x7d".toList

/-- Both playbooks are compiled without warnings to programs with ill-formed struct literals. -/
theorem records_of_generate_illFormed :
    (∃ emission, Settings.generate {} hyphenSource = .ok emission ∧ emission.diagnostics = []
      ∧ ∃ r ∈ emission.program.records, ¬ (r.fields.map (·.1)).Nodup)
    ∧ ∃ emission, Settings.generate {} keywordSource = .ok emission ∧ emission.diagnostics = []
      ∧ ∃ r ∈ emission.program.records, ∃ segment ∈ r.segments,
        String.ofList segment ∈ pathKeywords := by
  constructor
  · have h : ((Settings.generate {} hyphenSource).toOption.any fun e => e.diagnostics.isEmpty
        && decide (∃ r ∈ e.program.records, ¬ (r.fields.map (·.1)).Nodup)) = true := by
      decide +kernel
    obtain ⟨emission, hgenerate, h⟩ := exists_of_any_toOption h
    rw [Bool.and_eq_true, decide_eq_true_eq, List.isEmpty_iff] at h
    exact ⟨emission, hgenerate, h⟩
  · have h : ((Settings.generate {} keywordSource).toOption.any fun e => e.diagnostics.isEmpty
        && decide (∃ r ∈ e.program.records, ∃ segment ∈ r.segments,
          String.ofList segment ∈ pathKeywords)) = true := by
      decide +kernel
    obtain ⟨emission, hgenerate, h⟩ := exists_of_any_toOption h
    rw [Bool.and_eq_true, decide_eq_true_eq, List.isEmpty_iff] at h
    exact ⟨emission, hgenerate, h⟩

end Playbooks
