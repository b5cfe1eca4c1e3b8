import Playbooks.Syntax.Match

/-!
# Rows of an outline

The outline of a tree lists its nodes in pre-order, so the rows of a subtree stand together and the
row of a child follows from the sizes of the children before it.

## Main definitions

* `Match.Placed`: which match stands at which row, and which row is that of its parent.

## Main results

* `Match.Placed.getElem?_outline`: the outline holds, at the row of a match, its rule and span and
  the rows around it.
* `Match.exists_placed`: every row of the outline is the row of a match.
-/
namespace Playbooks.Match

/-! ## Sizes -/

theorem sizeAll_append (ms ns : List Match) : sizeAll (ms ++ ns) = sizeAll ms + sizeAll ns := by
  induction ms with
  | nil => simp [sizeAll]
  | cons m ms ih => simp [sizeAll, ih, Nat.add_assoc]

mutual

theorem length_outlineFrom (row : Nat) (parent : Option Nat) :
    (m : Match) → (outlineFrom row parent m).length = m.size
  | ⟨_, _, children⟩ => by
    rw [outlineFrom, List.length_cons, length_outlineAllFrom (row + 1) row children, size]

theorem length_outlineAllFrom (next parent : Nat) :
    (ms : List Match) → (outlineAllFrom next parent ms).length = sizeAll ms
  | [] => rfl
  | m :: ms => by
    rw [outlineAllFrom, List.length_append, length_outlineFrom next (some parent) m,
      length_outlineAllFrom (next + m.size) parent ms, sizeAll]

end

theorem length_outline (m : Match) : m.outline.length = m.size :=
  length_outlineFrom 0 none m

/-! ## Rows of siblings -/

theorem outlineAllFrom_append (next parent : Nat) (ms ns : List Match) :
    outlineAllFrom next parent (ms ++ ns)
      = outlineAllFrom next parent ms ++ outlineAllFrom (next + sizeAll ms) parent ns := by
  induction ms generalizing next with
  | nil => simp [outlineAllFrom, sizeAll]
  | cons m ms ih => simp [outlineAllFrom, sizeAll, ih, Nat.add_assoc]

/-- The row of a sibling is the first row, moved by the sizes of the siblings before it. -/
theorem mem_rows_iff {next i : Nat} {ms : List Match} :
    i ∈ rows next ms ↔ ∃ before m after, ms = before ++ m :: after ∧ i = next + sizeAll before := by
  induction ms generalizing next with
  | nil => simp [rows]
  | cons m ms ih =>
      rw [rows, List.mem_cons, ih]
      constructor
      · rintro (rfl | ⟨before, m', after, rfl, rfl⟩)
        · exact ⟨[], m, ms, rfl, rfl⟩
        · exact ⟨m :: before, m', after, rfl, by rw [sizeAll, Nat.add_assoc]⟩
      · rintro ⟨before, m', after, hms, rfl⟩
        cases before with
        | nil => exact .inl rfl
        | cons m₀ before =>
            obtain ⟨rfl, rfl⟩ := List.cons.inj hms
            exact .inr ⟨before, m', after, rfl, by rw [sizeAll, Nat.add_assoc]⟩

/-- What relates siblings in order relates their rows in order. -/
theorem pairwise_rows {R : Match → Match → Prop} {S : Nat → Nat → Prop} {Q : Nat → Match → Prop}
    (hS : ∀ i j m m', Q i m → Q j m' → R m m' → S i j) {next : Nat} {ms : List Match}
    (hR : ms.Pairwise R)
    (hQ : ∀ before m after, ms = before ++ m :: after → Q (next + sizeAll before) m) :
    (rows next ms).Pairwise S := by
  induction ms generalizing next with
  | nil => exact .nil
  | cons m ms ih =>
      have hmore {before after : List Match} {m' : Match} (h : ms = before ++ m' :: after) :
          Q (next + m.size + sizeAll before) m' := by
        have := hQ (m :: before) m' after (by rw [h, List.cons_append])
        rwa [sizeAll, ← Nat.add_assoc] at this
      rw [rows]
      refine .cons (fun j hj => ?_) (ih hR.of_cons fun before m' after h => hmore h)
      obtain ⟨before, m', after, h, rfl⟩ := mem_rows_iff.mp hj
      refine hS next _ m m' (hQ [] m ms rfl) (hmore h) ?_
      exact (List.pairwise_cons.mp hR).1 m' (by simp [h])

/-! ## Rows of a tree -/

/-- The node that a match has in an outline. -/
def nodeAt (row : Nat) (parent : Option Nat) (m : Match) : OutlineNode :=
  ⟨m.rule, m.span, parent, rows (row + 1) m.children⟩

theorem outlineFrom_eq (row : Nat) (parent : Option Nat) (m : Match) :
    outlineFrom row parent m = m.nodeAt row parent :: outlineAllFrom (row + 1) row m.children := by
  cases m
  rfl

/-- The match stands at a row of the outline of the tree, under a parent at another row. -/
inductive Placed (tree : Match) : Nat → Option Nat → Match → Prop
  | root : Placed tree 0 none tree
  | child {row : Nat} {parent : Option Nat} {m m' : Match} {before after : List Match}
      (h : Placed tree row parent m) (hchildren : m.children = before ++ m' :: after) :
      Placed tree (row + 1 + sizeAll before) (some row) m'

variable {tree m : Match} {row i : Nat} {parent : Option Nat}

/-- The rows of a subtree stand together, from the row of its root on. -/
theorem Placed.outline_eq (h : Placed tree row parent m) :
    ∃ above below, tree.outline = above ++ outlineFrom row parent m ++ below
      ∧ above.length = row := by
  induction h with
  | root => exact ⟨[], [], by simp [outline], rfl⟩
  | @child row parent m m' before after _ hchildren ih =>
      obtain ⟨above, below, houtline, habove⟩ := ih
      refine ⟨above ++ m.nodeAt row parent :: outlineAllFrom (row + 1) row before,
        outlineAllFrom (row + 1 + sizeAll before + m'.size) row after ++ below, ?_, ?_⟩
      · rw [houtline, outlineFrom_eq, hchildren, outlineAllFrom_append]
        simp [outlineAllFrom]
      · rw [List.length_append, List.length_cons, length_outlineAllFrom, habove]
        omega

theorem Placed.getElem?_outline (h : Placed tree row parent m) :
    tree.outline[row]? = some (m.nodeAt row parent) := by
  obtain ⟨above, below, houtline, rfl⟩ := h.outline_eq
  rw [houtline, outlineFrom_eq]
  simp

mutual

/-- Every row of a subtree is the row of a match. The rows of its children follow one another, so
the row belongs to the root or to one of the children. -/
theorem Placed.exists_of_lt : (m : Match) → {row : Nat} → {parent : Option Nat} →
    Placed tree row parent m → row ≤ i → i < row + m.size → ∃ parent' m', Placed tree i parent' m'
  | ⟨rule, span, children⟩, row, parent, h, hle, hlt => by
    rw [size] at hlt
    by_cases hrow : i = row
    · exact ⟨parent, _, hrow ▸ h⟩
    · refine Placed.exists_of_lt_all children [] h rfl ?_ ?_
      · rw [sizeAll]
        omega
      · rw [sizeAll]
        omega

theorem Placed.exists_of_lt_all : (ms before : List Match) → {m : Match} → {row : Nat} →
    {parent : Option Nat} → Placed tree row parent m → m.children = before ++ ms →
    row + 1 + sizeAll before ≤ i → i < row + 1 + sizeAll before + sizeAll ms →
    ∃ parent' m', Placed tree i parent' m'
  | [], before, _, _, _, _, _, hle, hlt => by
    rw [sizeAll] at hlt
    omega
  | m' :: ms, before, m, row, parent, h, hchildren, hle, hlt => by
    rw [sizeAll] at hlt
    by_cases hfirst : i < row + 1 + sizeAll before + m'.size
    · exact Placed.exists_of_lt m' (.child h hchildren) hle hfirst
    · have hsize : sizeAll (before ++ [m']) = sizeAll before + m'.size := by
        rw [sizeAll_append, sizeAll, sizeAll, Nat.add_zero]
      refine Placed.exists_of_lt_all ms (before ++ [m']) h (by simpa using hchildren) ?_ ?_
      · rw [hsize]
        omega
      · rw [hsize]
        omega

end

/-- Every row of an outline is the row of a match, and says what this match is. -/
theorem exists_placed {node : OutlineNode} (h : tree.outline[i]? = some node) :
    ∃ parent m, Placed tree i parent m ∧ node = m.nodeAt i parent := by
  have hlt : i < 0 + tree.size := by
    rw [Nat.zero_add, ← length_outline]
    exact (List.getElem?_eq_some_iff.mp h).1
  obtain ⟨parent, m, hplaced⟩ := Placed.exists_of_lt tree .root (Nat.zero_le i) hlt
  rw [hplaced.getElem?_outline] at h
  exact ⟨parent, m, hplaced, (Option.some.inj h).symm⟩

end Playbooks.Match
