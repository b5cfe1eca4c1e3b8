import Playbooks.Proofs.Syntax.Failures
import Playbooks.Proofs.Syntax.Outline

/-!
# Nested spans

The matches inside a match of the grammar cover parts of what it covers. They stand one after the
other, each covers something, and no span cuts a character.

A tree is read as its outline, so the rows of the outline are nested in the same way: a row lies
within the row of its parent, after the rows of the siblings before it.

## Main definitions

* `Match.Nests`: the spans of a tree are nested.
* `WellNested`: the spans of an outline are nested.

## Main results

* `Match.Formed.nests`: the trees of the grammar are nested.
* `Match.Nests.wellNested`: the outline of such a tree is nested.
* `wellNested_of_accepted`: the outline of an accepted source is nested and elides nothing.
-/
namespace Playbooks

namespace Match

mutual

/-- The span is a part of the source, and the matches inside are nested in it. -/
def Nests (source : List Char) : Match → Prop
  | ⟨_, span, children⟩ => span.PointsInto source ∧ NestAll source span.start children span.stop

/-- Between two offsets the matches stand one after the other, and none of them is empty. -/
def NestAll (source : List Char) : Nat → List Match → Nat → Prop
  | start, [], stop => start ≤ stop
  | start, m :: ms, stop => start ≤ m.span.start ∧ m.span.start < m.span.stop ∧ m.Nests source
      ∧ NestAll source m.span.stop ms stop

end

variable {source : List Char} {m : Match} {ms before : List Match} {start stop start' : Nat}

theorem Nests.pointsInto (h : m.Nests source) : m.span.PointsInto source := by
  cases m
  exact h.1

theorem Nests.children (h : m.Nests source) :
    NestAll source m.span.start m.children m.span.stop := by
  cases m
  exact h.2

namespace NestAll

theorem le (h : NestAll source start ms stop) : start ≤ stop := by
  induction ms generalizing start with
  | nil => exact h
  | cons m ms ih =>
      obtain ⟨hstart, hwidth, -, hms⟩ := h
      have := ih hms
      omega

theorem of_le (h : NestAll source start ms stop) (hle : start' ≤ start) :
    NestAll source start' ms stop := by
  cases ms with
  | nil => exact Nat.le_trans hle h
  | cons m ms => exact ⟨Nat.le_trans hle h.1, h.2⟩

/-- From a match on, the rest is nested. -/
theorem drop (h : NestAll source start (before ++ ms) stop) :
    ∃ start', start ≤ start' ∧ NestAll source start' ms stop := by
  induction before generalizing start with
  | nil => exact ⟨start, Nat.le_refl start, h⟩
  | cons m before ih =>
      obtain ⟨hstart, hwidth, -, hms⟩ := h
      obtain ⟨start', hle, hrest⟩ := ih hms
      exact ⟨start', by omega, hrest⟩

theorem nests_of_mem (h : NestAll source start ms stop) (hm : m ∈ ms) : m.Nests source := by
  obtain ⟨before, after, rfl⟩ := List.append_of_mem hm
  obtain ⟨_, -, -, -, hm, -⟩ := h.drop
  exact hm

/-- A match of the list lies between the two offsets and is not empty. -/
theorem bounds_of_mem (h : NestAll source start ms stop) (hm : m ∈ ms) :
    start ≤ m.span.start ∧ m.span.start < m.span.stop ∧ m.span.stop ≤ stop := by
  obtain ⟨before, after, rfl⟩ := List.append_of_mem hm
  obtain ⟨_, hle, hstart, hwidth, -, hrest⟩ := h.drop
  exact ⟨Nat.le_trans hle hstart, hwidth, hrest.le⟩

theorem pairwise (h : NestAll source start ms stop) :
    ms.Pairwise fun m m' => m.span.stop ≤ m'.span.start := by
  induction ms generalizing start with
  | nil => exact .nil
  | cons m ms ih =>
      obtain ⟨-, -, -, hms⟩ := h
      exact .cons (fun m' hm' => (hms.bounds_of_mem hm').1) (ih hms)

/-- The list is nested up to the end of its last match. -/
theorem upToLast (h : NestAll source start ms stop) (hne : ms ≠ []) :
    NestAll source start ms (ms.getLast hne).span.stop := by
  induction ms generalizing start with
  | nil => exact absurd rfl hne
  | cons m ms ih =>
      obtain ⟨hstart, hwidth, hm, hms⟩ := h
      cases ms with
      | nil => exact ⟨hstart, hwidth, hm, Nat.le_refl _⟩
      | cons m' ms => exact ⟨hstart, hwidth, hm, ih hms (by simp)⟩

theorem node (h : NestAll source start ms stop) (hstart : Text.IsBoundary source start)
    (hstop : Text.IsBoundary source stop) (rule : Rule) :
    (Match.node rule start stop ms).Nests source := by
  refine ⟨Span.pointsInto_ofBounds h.le hstart hstop, ?_⟩
  rwa [Span.start_ofBounds, Span.stop_ofBounds, Nat.max_eq_right h.le]

end NestAll

mutual

theorem Formed.nests {c c' : Cursor} {m : Match} (hc : c.In source) :
    Formed c m c' → m.Nests source
  | .leaf _ h => by
    have hempty : NestAll source c.offset [] c'.offset := h.offset_le
    exact hempty.node hc.isBoundary (hc.of_le h.le).isBoundary _
  | .node _ hms hlt => (hms.nestAll hc).node hc.isBoundary (hc.of_le (le_of_lt hlt)).isBoundary _
  | .upToLast _ hms hne => by
    have hnested := hms.nestAll hc
    have hlast := hnested.nests_of_mem (List.getLast_mem hne)
    exact (hnested.upToLast hne).node hc.isBoundary hlast.pointsInto.stop _
  | .within h hstart _ => h.nests (hc.of_le hstart)

theorem FormedAll.nestAll {c c' : Cursor} {ms : List Match} (hc : c.In source) :
    FormedAll c ms c' → NestAll source c.offset ms c'.offset
  | .nil h => Cursor.offset_le_of_le h
  | .cons h hms => by
    have hin := hc.of_le (le_of_lt h.lt)
    refine ⟨h.stands.start_le, h.stands.solid.start_lt_stop, h.nests hc, ?_⟩
    exact (hms.nestAll hin).of_le h.stands.stop_le

end

/-- The matches that stand at rows of a nested tree are nested. -/
theorem Nests.placed {tree m : Match} {row : Nat} {parent : Option Nat} (htree : tree.Nests source)
    (h : Placed tree row parent m) : m.Nests source := by
  induction h with
  | root => exact htree
  | child _ hchildren ih => exact ih.children.nests_of_mem (by simp [hchildren])

end Match

/-! ## Outlines -/

/-- The spans of an outline are parts of the source. A row other than the first is not empty and
lies within its parent, which lists it. The children that a row lists stand in order and have it as
their parent. -/
structure WellNested (source : List Char) (outline : List OutlineNode) : Prop where
  root : ∃ node : OutlineNode, outline[0]? = some node ∧ node.parent = none
  inside (i : Nat) (node : OutlineNode) : outline[i]? = some node → node.span.PointsInto source
  parent (i : Nat) (node : OutlineNode) : outline[i]? = some node → i ≠ 0 →
    ∃ (j : Nat) (above : OutlineNode), node.parent = some j ∧ outline[j]? = some above
      ∧ i ∈ above.children ∧ node.span.isEmpty = false ∧ above.span.contains node.span = true
  children (i : Nat) (node : OutlineNode) : outline[i]? = some node →
    ∀ j ∈ node.children, ∃ child : OutlineNode, outline[j]? = some child ∧ child.parent = some i
  order (i : Nat) (node : OutlineNode) : outline[i]? = some node →
    node.children.Pairwise fun j j' => ∀ child child' : OutlineNode,
      outline[j]? = some child → outline[j']? = some child' → child.span.stop ≤ child'.span.start

namespace Match

variable {source : List Char} {tree : Match}

theorem Nests.wellNested (h : tree.Nests source) : WellNested source tree.outline where
  root := ⟨_, Placed.root.getElem?_outline, rfl⟩
  inside := by
    intro i node hnode
    obtain ⟨parent, m, hplaced, rfl⟩ := exists_placed hnode
    exact (h.placed hplaced).pointsInto
  parent := by
    intro i node hnode hi
    obtain ⟨parent, m, hplaced, rfl⟩ := exists_placed hnode
    cases hplaced with
    | root => exact absurd rfl hi
    | @child row _ above _ before after habove hchildren =>
        have hm : m ∈ above.children := by simp [hchildren]
        obtain ⟨hstart, hwidth, hstop⟩ := (h.placed habove).children.bounds_of_mem hm
        refine ⟨row, _, rfl, habove.getElem?_outline, ?_, ?_, ?_⟩
        · exact mem_rows_iff.mpr ⟨before, m, after, hchildren, rfl⟩
        · simpa [nodeAt, Span.isEmpty] using Nat.ne_of_lt hwidth
        · simp [nodeAt, Span.contains, hstart, hstop]
  children := by
    intro i node hnode j hj
    obtain ⟨parent, m, hplaced, rfl⟩ := exists_placed hnode
    obtain ⟨before, m', after, hchildren, rfl⟩ := mem_rows_iff.mp hj
    exact ⟨_, (hplaced.child hchildren).getElem?_outline, rfl⟩
  order := by
    intro i node hnode
    obtain ⟨parent, m, hplaced, rfl⟩ := exists_placed hnode
    refine pairwise_rows (Q := fun j m' => tree.outline[j]? = some (m'.nodeAt j (some i))) ?_
      (h.placed hplaced).children.pairwise fun before m' after hchildren =>
        (hplaced.child hchildren).getElem?_outline
    intro j j' m₁ m₂ h₁ h₂ hle child child' hchild hchild'
    rw [h₁] at hchild
    rw [h₂] at hchild'
    cases hchild
    cases hchild'
    exact hle

end Match

open Playbooks.Parser Grammar

/-- The outline of an accepted source, be it a playbook or a single value, is nested and has a row
for every match that was read. The first row of a playbook is an entry over the whole source. -/
theorem wellNested_of_accepted (source : List Char) :
    (∀ tree, parse source = .ok tree → WellNested source tree.outline
      ∧ (∃ root, tree.outline[0]? = some root ∧ root.rule = .entry
        ∧ root.span = .ofBounds 0 (Text.byteSize source))
      ∧ ∃ m c t, entry ⟨source, 0⟩ {} = (some (m, c), t) ∧ tree.outline.length = m.size)
    ∧ ∀ tree, parseValue source = .ok tree → WellNested source tree.outline
      ∧ ∃ m c t, loneValue ⟨source, 0⟩ {} = (some (m, c), t) ∧ tree.outline.length = m.size := by
  have hstart := Cursor.in_start source
  constructor
  · intro tree h
    obtain ⟨m, c, t, hrun, rfl⟩ := runRuleOrReject_eq_ok h
    have hread : (entry ⟨source, 0⟩ {}).1 = some (m, c) := by rw [hrun]
    obtain ⟨ms, rfl, hms, hrest⟩ := formed_entry _ {} _ _ hread
    rw [prune_entry _ {} _ _ hread]
    have hin := hstart.of_le hms.le
    have hnests := (hms.nestAll hstart).node hstart.isBoundary hin.isBoundary .entry
    refine ⟨hnests.wellNested, ⟨_, Match.Placed.root.getElem?_outline, rfl, ?_⟩, _, c, t, hrun,
      Match.length_outline _⟩
    rw [← hin.offset_eq hrest]
    rfl
  · intro tree h
    obtain ⟨m, c, t, hrun, rfl⟩ := runRuleOrReject_eq_ok h
    have hread : (loneValue ⟨source, 0⟩ {}).1 = some (m, c) := by rw [hrun]
    have hformed := formed_loneValue _ {} _ _ hread
    rw [prune_loneValue _ {} _ _ hread]
    exact ⟨(hformed.nests hstart).wellNested, m, c, t, hrun, Match.length_outline m⟩

/-- A playbook with a group, and a value with a call and an empty string. -/
theorem wellNested_of_accepted_group_and_call :
    let playbook := "name: 'é' # x\nblock \x7b step [ü] \x7b k: (1 + 2) * 3 \x7d \x7d\n".toList
    let content := "\x7b 'ä': [f('ü',), '',] \x7d".toList
    (∃ tree, parse playbook = .ok tree ∧ tree.outline.length = 18
      ∧ WellNested playbook tree.outline
      ∧ (∃ root, tree.outline[0]? = some root ∧ root.rule = .entry
        ∧ root.span = .ofBounds 0 (Text.byteSize playbook))
      ∧ ∃ m c t, entry ⟨playbook, 0⟩ {} = (some (m, c), t) ∧ tree.outline.length = m.size)
    ∧ ∃ tree, parseValue content = .ok tree ∧ tree.outline.length = 8
      ∧ WellNested content tree.outline
      ∧ ∃ m c t, loneValue ⟨content, 0⟩ {} = (some (m, c), t) ∧ tree.outline.length = m.size := by
  intro playbook content
  have hplaybook : ((parse playbook).toOption.any (·.outline.length == 18)) = true := by
    decide +kernel
  have hcontent : ((parseValue content).toOption.any (·.outline.length == 8)) = true := by
    decide +kernel
  obtain ⟨tree, htree, hrows⟩ := exists_of_any_toOption hplaybook
  obtain ⟨tree', htree', hrows'⟩ := exists_of_any_toOption hcontent
  exact ⟨⟨tree, htree, by simpa using hrows, (wellNested_of_accepted playbook).1 tree htree⟩,
    tree', htree', by simpa using hrows', (wellNested_of_accepted content).2 tree' htree'⟩

end Playbooks
