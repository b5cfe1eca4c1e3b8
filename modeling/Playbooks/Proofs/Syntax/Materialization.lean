import Playbooks.Proofs.Syntax.Outline

/-!
# Trees as tables

A parse tree is kept as a table of nodes. It can be filled while the tree is walked: a node gets the
next free row and then receives its children one by one, each of which has filled its own rows
before the next child is met. Matches of width zero are left out on the way. The outcome is the
outline of the pruned tree, from which the tree can be read back.

## Main definitions

* `Match.push`: puts a tree into a table row by row.
* `Match.preorder`: the matches of a tree, each before those inside it.
* `Match.ReadsBack`: the rows below a row spell out a match.

## Main results

* `Match.push_eq`: filling a table appends the outline of the pruned tree.
* `Match.readsBack_iff`: the table determines the tree.
* `Match.mem_children_iff_parent`: links to children and to parents agree.
* `Match.table_is_lossless`: all of this for the table of any match.
-/
namespace Playbooks

/-- The node with one more child. -/
def OutlineNode.adopt (node : OutlineNode) (child : Nat) : OutlineNode :=
  { node with children := node.children ++ [child] }

namespace Match

/-! ## Filling a table -/

mutual

/-- Puts a match and what it holds into the table, from the next free row on. -/
def push (nodes : List OutlineNode) (parent : Option Nat) : Match → List OutlineNode
  | ⟨rule, span, children⟩ =>
    pushAll nodes.length (nodes ++ [⟨rule, span, parent, []⟩]) children

/-- Puts the children of the match at `row` into the table. The row is told of each child once the
child is in; a child of width zero is passed over. -/
def pushAll (row : Nat) (nodes : List OutlineNode) : List Match → List OutlineNode
  | [] => nodes
  | m :: ms =>
    if m.span.isEmpty then pushAll row nodes ms
    else pushAll row ((push nodes (some row) m).modify row (·.adopt nodes.length)) ms

end

theorem modify_middle {α : Type} (f : α → α) (above : List α) (a : α) (below : List α) :
    (above ++ a :: below).modify above.length f = above ++ f a :: below := by
  induction above with
  | nil => rfl
  | cons b above ih => rw [List.cons_append, List.length_cons, List.modify_succ_cons, ih]; rfl

mutual

/-- Filling a table leaves what is in it and appends the outline of the pruned tree. -/
theorem push_eq (nodes : List OutlineNode) (parent : Option Nat) :
    (m : Match) → push nodes parent m = nodes ++ outlineFrom nodes.length parent m.prune
  | ⟨rule, span, children⟩ => by
    rw [push, prune, outlineFrom, pushAll_eq nodes _ [] children]
    simp

/-- The row of the match whose children are put in stands somewhere before the free rows. It has
learned of the children that are in, and learns of the others. -/
theorem pushAll_eq (above : List OutlineNode) (node : OutlineNode) (below : List OutlineNode) :
    (ms : List Match) → pushAll above.length (above ++ node :: below) ms
      = above ++ { node with children :=
          node.children ++ rows (above.length + 1 + below.length) (pruneAll ms) }
        :: (below ++ outlineAllFrom (above.length + 1 + below.length) above.length (pruneAll ms))
  | [] => by simp [pushAll, pruneAll, rows, outlineAllFrom]
  | m :: ms => by
    rw [pushAll, pruneAll]
    split
    · exact pushAll_eq above node below ms
    · have hlength : (above ++ node :: below).length = above.length + 1 + below.length := by
        simp
        omega
      rw [push_eq _ _ m, hlength, List.append_assoc, List.cons_append]
      rw [modify_middle, pushAll_eq above _ _ ms, rows, outlineAllFrom, List.length_append,
        length_outlineFrom, ← Nat.add_assoc]
      simp [OutlineNode.adopt]

end

/-! ## Reading a table back -/

mutual

/-- A match, then the matches inside it. -/
def preorder : Match → List Match
  | ⟨rule, span, children⟩ => ⟨rule, span, children⟩ :: preorderAll children

def preorderAll : List Match → List Match
  | [] => []
  | m :: ms => m.preorder ++ preorderAll ms

end

mutual

/-- The rows of a tree are its matches in this order. -/
theorem map_outlineFrom (row : Nat) (parent : Option Nat) :
    (m : Match) → (outlineFrom row parent m).map (fun n => (n.rule, n.span))
      = m.preorder.map fun m => (m.rule, m.span)
  | ⟨rule, span, children⟩ => by
    rw [outlineFrom, preorder, List.map_cons, List.map_cons,
      map_outlineAllFrom (row + 1) row children]

theorem map_outlineAllFrom (next parent : Nat) :
    (ms : List Match) → (outlineAllFrom next parent ms).map (fun n => (n.rule, n.span))
      = (preorderAll ms).map fun m => (m.rule, m.span)
  | [] => rfl
  | m :: ms => by
    rw [outlineAllFrom, preorderAll, List.map_append, List.map_append,
      map_outlineFrom next (some parent) m, map_outlineAllFrom (next + m.size) parent ms]

end

mutual

/-- From a row of the table, following the links to children, the match is read. -/
def ReadsBack (table : List OutlineNode) (row : Nat) : Match → Prop
  | ⟨rule, span, children⟩ => ∃ node, table[row]? = some node ∧ node.rule = rule
    ∧ node.span = span ∧ ReadsBackAll table node.children children

def ReadsBackAll (table : List OutlineNode) : List Nat → List Match → Prop
  | [], [] => True
  | row :: rows, m :: ms => m.ReadsBack table row ∧ ReadsBackAll table rows ms
  | _, _ => False

end

variable {tree : Match} {table : List OutlineNode}

mutual

theorem readsBack_of_placed : (m : Match) → {row : Nat} → {parent : Option Nat} →
    Placed tree row parent m → m.ReadsBack tree.outline row
  | ⟨_, _, children⟩, _, _, h =>
    ⟨_, h.getElem?_outline, rfl, rfl, readsBackAll_of_placed children [] h rfl⟩

/-- The children from some child on stand in the rows after those of the children before it. -/
theorem readsBackAll_of_placed : (ms before : List Match) → {m : Match} → {row : Nat} →
    {parent : Option Nat} → Placed tree row parent m → m.children = before ++ ms →
    ReadsBackAll tree.outline (rows (row + 1 + sizeAll before) ms) ms
  | [], _, _, _, _, _, _ => trivial
  | m' :: ms, before, _, _, _, h, hchildren => by
    have hsize : sizeAll (before ++ [m']) = sizeAll before + m'.size := by
      rw [sizeAll_append, sizeAll, sizeAll, Nat.add_zero]
    have hmore := readsBackAll_of_placed ms (before ++ [m']) h (by simpa using hchildren)
    rw [hsize, ← Nat.add_assoc] at hmore
    exact ⟨readsBack_of_placed m' (.child h hchildren), hmore⟩

end

mutual

theorem ReadsBack.unique : (m m' : Match) → {row : Nat} → m.ReadsBack table row →
    m'.ReadsBack table row → m = m'
  | ⟨_, _, children⟩, ⟨_, _, children'⟩, row, h, h' => by
    obtain ⟨node, hnode, rfl, rfl, hchildren⟩ := h
    obtain ⟨node', hnode', rfl, rfl, hchildren'⟩ := h'
    obtain rfl : node = node' := Option.some.inj (hnode.symm.trans hnode')
    rw [ReadsBackAll.unique children children' hchildren hchildren']

theorem ReadsBackAll.unique : (ms ms' : List Match) → {rows : List Nat} →
    ReadsBackAll table rows ms → ReadsBackAll table rows ms' → ms = ms'
  | [], [], _, _, _ => rfl
  | [], _ :: _, [], _, h' => h'.elim
  | [], _ :: _, _ :: _, h, _ => h.elim
  | _ :: _, [], [], h, _ => h.elim
  | _ :: _, [], _ :: _, _, h' => h'.elim
  | _ :: _, _ :: _, [], h, _ => h.elim
  | m :: ms, m' :: ms', row :: rows, h, h' => by
    rw [ReadsBack.unique m m' h.1 h'.1, ReadsBackAll.unique ms ms' h.2 h'.2]

end

/-- From the outline of a tree the tree is read, and nothing else. -/
theorem readsBack_iff (m : Match) : m.ReadsBack tree.outline 0 ↔ m = tree := by
  have htree : tree.ReadsBack tree.outline 0 := readsBack_of_placed tree .root
  constructor
  · intro h
    exact ReadsBack.unique m tree h htree
  · rintro rfl
    exact htree

/-! ## Links -/

variable {i j : Nat} {node other : OutlineNode}

/-- A row is among the children of another exactly if that one is its parent. -/
theorem mem_children_iff_parent (hi : tree.outline[i]? = some node)
    (hj : tree.outline[j]? = some other) : i ∈ other.children ↔ node.parent = some j := by
  obtain ⟨parent, m, hm, rfl⟩ := exists_placed hi
  obtain ⟨parent', m', hm', rfl⟩ := exists_placed hj
  constructor
  · intro hmem
    obtain ⟨before, child, after, hchildren, rfl⟩ := mem_rows_iff.mp hmem
    have hchild := (Placed.child hm' hchildren).getElem?_outline
    exact congrArg OutlineNode.parent (Option.some.inj (hi.symm.trans hchild))
  · rintro rfl
    cases hm with
    | @child row parent₀ m₀ _ before after h hchildren =>
      have hsame := Option.some.inj (hj.symm.trans h.getElem?_outline)
      rw [hsame]
      exact mem_rows_iff.mpr ⟨before, m, after, hchildren, rfl⟩

/-- Only the first row has no parent, and parents stand before their children. -/
theorem parent_cases (hi : tree.outline[i]? = some node) :
    i = 0 ∧ node.parent = none ∨ ∃ k, node.parent = some k ∧ k < i := by
  obtain ⟨parent, m, hm, rfl⟩ := exists_placed hi
  cases hm with
  | root => exact .inl ⟨rfl, rfl⟩
  | @child row parent₀ m₀ _ before after h hchildren => exact .inr ⟨row, rfl, by omega⟩

theorem size_pos (m : Match) : 0 < m.size := by
  cases m
  rw [size]
  omega

theorem pairwise_lt_rows (next : Nat) (ms : List Match) : (rows next ms).Pairwise (· < ·) := by
  induction ms generalizing next with
  | nil => exact .nil
  | cons m ms ih =>
    rw [rows]
    refine .cons (fun i hi => ?_) (ih _)
    obtain ⟨before, m', after, -, rfl⟩ := mem_rows_iff.mp hi
    have := m.size_pos
    omega

/-- The table of a match holds the matches of the pruned tree in pre-order, and the pruned tree is
read back from its first row. The first row has no parent, and every other row has a parent before
it. A row is among the children of its parent and of no other row, and children stand in the order
of their rows. -/
theorem table_is_lossless (m : Match) :
    push [] none m = m.prune.outline
    ∧ m.prune.outline.map (fun n => (n.rule, n.span))
      = m.prune.preorder.map (fun m => (m.rule, m.span))
    ∧ (∀ m', m'.ReadsBack m.prune.outline 0 ↔ m' = m.prune)
    ∧ ∀ i node, m.prune.outline[i]? = some node →
      (i = 0 → node.parent = none)
      ∧ (i ≠ 0 → ∃ k, node.parent = some k ∧ k < i)
      ∧ (∀ j other, m.prune.outline[j]? = some other →
        (i ∈ other.children ↔ node.parent = some j))
      ∧ node.children.Pairwise (· < ·) := by
  refine ⟨push_eq [] none m, map_outlineFrom 0 none m.prune, readsBack_iff, fun i node hi => ?_⟩
  refine ⟨?_, ?_, fun j other hj => mem_children_iff_parent hi hj, ?_⟩
  · rintro rfl
    rcases parent_cases hi with ⟨-, hnone⟩ | ⟨k, -, hk⟩
    · exact hnone
    · omega
  · intro hne
    exact (parent_cases hi).resolve_left fun h => hne h.1
  · obtain ⟨parent, m', -, rfl⟩ := exists_placed hi
    exact pairwise_lt_rows (i + 1) m'.children

end Match

end Playbooks
