import Mathlib.Data.List.Induction
import Playbooks.Proofs.Syntax.Failures

/-!
# Positions and offsets

A position moves on with every character of a text: a line break starts a new line, and any other
character goes one column further. Each character leads to a later position, so the places between
the characters of a source are told apart by their lines and columns.

## Main definitions

* `Position.next`: the position after one more character.
* The order of positions: by line, and by column within a line.

## Main results

* `Position.after_concat`, `Position.after_lt_after_append`: walking over a text.
* `Position.of_identifies`: what the position of an offset says, for every offset.
-/
namespace Playbooks

namespace Text

variable {text taken : List Char} {offset : Nat}

/-- A cut that succeeds is made between two characters. -/
theorem exists_of_takeBytes (h : takeBytes offset text = some taken) :
    ∃ rest, text = taken ++ rest ∧ offset = byteSize taken := by
  fun_induction takeBytes offset text generalizing taken with
  | case1 cs =>
    cases h
    exact ⟨cs, rfl, rfl⟩
  | case2 => cases h
  | case3 n c cs hfits ih =>
    obtain ⟨inner, hinner, rfl⟩ := Option.map_eq_some_iff.mp h
    obtain ⟨rest, rfl, hsize⟩ := ih hinner
    exact ⟨rest, rfl, by rw [byteSize_cons]; omega⟩
  | case4 => cases h

theorem isSome_takeBytes_iff : (takeBytes offset text).isSome ↔ IsBoundary text offset := by
  constructor
  · intro h
    obtain ⟨taken, htaken⟩ := Option.isSome_iff_exists.mp h
    obtain ⟨rest, htext, hoffset⟩ := exists_of_takeBytes htaken
    exact ⟨taken, rest, htext, hoffset⟩
  · rintro ⟨before, after, rfl, rfl⟩
    rw [takeBytes_append]
    rfl

instance (text : List Char) (offset : Nat) : Decidable (IsBoundary text offset) :=
  decidable_of_iff _ isSome_takeBytes_iff

/-- Between two places of a text stands what is read from one to the other. -/
theorem IsBoundary.exists_between {a b : Nat} (ha : IsBoundary text a) (hb : IsBoundary text b)
    (hlt : a < b) : ∃ before between after, text = before ++ between ++ after ∧ between ≠ []
      ∧ a = byteSize before ∧ b = byteSize (before ++ between) := by
  obtain ⟨before, rest, rfl, rfl⟩ := ha
  obtain ⟨before', rest', htext, rfl⟩ := hb
  rcases List.append_eq_append_iff.mp htext with ⟨between, rfl, rfl⟩ | ⟨between, rfl, rfl⟩
  · refine ⟨before, between, rest', by simp, ?_, rfl, rfl⟩
    rintro rfl
    simp at hlt
  · rw [byteSize_append] at hlt
    omega

end Text

namespace Position

variable {p q r : Position}

/-! ## Order -/

/-- Positions are ordered by line, and by column within a line. -/
instance : LT Position where
  lt p q := p.line < q.line ∨ p.line = q.line ∧ p.column < q.column

theorem lt_iff : p < q ↔ p.line < q.line ∨ p.line = q.line ∧ p.column < q.column :=
  Iff.rfl

instance (p q : Position) : Decidable (p < q) :=
  decidable_of_iff _ lt_iff.symm

protected theorem lt_irrefl (p : Position) : ¬ p < p := by
  rw [lt_iff]
  omega

protected theorem lt_trans (hpq : p < q) (hqr : q < r) : p < r := by
  rw [lt_iff] at *
  omega

/-! ## Walking over a text -/

/-- The position after one more character. -/
def next (p : Position) (c : Char) : Position :=
  if c = '\n' then ⟨p.line + 1, 1⟩ else ⟨p.line, p.column + 1⟩

theorem lt_next (p : Position) (c : Char) : p < p.next c := by
  rw [next]
  split
  · exact .inl (Nat.lt_succ_self p.line)
  · exact .inr ⟨rfl, Nat.lt_succ_self p.column⟩

theorem after_concat (before : List Char) (c : Char) :
    after (before ++ [c]) = (after before).next c := by
  by_cases hc : c = '\n'
  · simp [after, next, hc]
  · simp [after, next, hc]

theorem after_lt_after_append (before : List Char) {between : List Char} (h : between ≠ []) :
    after before < after (before ++ between) := by
  induction between using List.reverseRecOn with
  | nil => exact absurd rfl h
  | append_singleton between c ih =>
    have hstep : after (before ++ between) < after (before ++ (between ++ [c])) := by
      rw [← List.append_assoc, after_concat]
      exact lt_next _ c
    by_cases hbetween : between = []
    · simpa [hbetween] using hstep
    · exact Position.lt_trans (ih hbetween) hstep

/-- A text splits into the lines before its last one, and this one. -/
theorem exists_lines (before : List Char) :
    ∃ above line, before = above ++ line ∧ (above = [] ∨ above.getLast? = some '\n')
      ∧ '\n' ∉ line ∧ after before = ⟨before.count '\n' + 1, line.length + 1⟩ := by
  induction before using List.reverseRecOn with
  | nil => exact ⟨[], [], rfl, .inl rfl, by simp, rfl⟩
  | append_singleton before c ih =>
    obtain ⟨above, line, hbefore, habove, hline, hafter⟩ := ih
    rw [after_concat, hafter, next]
    by_cases hc : c = '\n'
    · refine ⟨before ++ [c], [], by simp, .inr (by simp [hc]), by simp, ?_⟩
      simp [hc]
    · refine ⟨above, line ++ [c], by simp [hbefore], habove, by simp [hline, Ne.symm hc], ?_⟩
      simp [hc]

/-! ## Positions of offsets -/

variable {source : List Char} {a b : Nat}

theorem of_append (before rest : List Char) :
    of (before ++ rest) (Text.byteSize before) = after before := by
  rw [of, Text.takeBytes_append]
  rfl

theorem of_byteSize (source : List Char) : of source (Text.byteSize source) = after source := by
  simpa using of_append source []

theorem of_lt_of (ha : Text.IsBoundary source a) (hb : Text.IsBoundary source b) (hlt : a < b) :
    of source a < of source b := by
  obtain ⟨before, between, rest, rfl, hbetween, rfl, rfl⟩ := ha.exists_between hb hlt
  rw [of_append, List.append_assoc, of_append]
  exact after_lt_after_append before hbetween

theorem of_lt_of_iff (ha : Text.IsBoundary source a) (hb : Text.IsBoundary source b) :
    of source a < of source b ↔ a < b := by
  refine ⟨fun h => ?_, of_lt_of ha hb⟩
  rcases Nat.lt_trichotomy a b with hlt | rfl | hgt
  · exact hlt
  · exact absurd h (Position.lt_irrefl _)
  · exact absurd (Position.lt_trans h (of_lt_of hb ha hgt)) (Position.lt_irrefl _)

/-- **Positions identify offsets.**

Between the characters of a source, positions are in the order of the offsets. The line of a
position is one more than the number of line breaks before the offset, and its column is one more
than the number of characters after the last of them. All other offsets, beyond the end or inside a
character, have the position of the end. -/
theorem of_identifies (source : List Char) :
    (∀ a b, Text.IsBoundary source a → Text.IsBoundary source b →
      (of source a < of source b ↔ a < b))
    ∧ (∀ offset, Text.IsBoundary source offset → ∃ above line rest,
      source = above ++ line ++ rest ∧ offset = Text.byteSize (above ++ line)
      ∧ (above = [] ∨ above.getLast? = some '\n') ∧ '\n' ∉ line
      ∧ of source offset = ⟨(above ++ line).count '\n' + 1, line.length + 1⟩)
    ∧ ∀ offset, ¬ Text.IsBoundary source offset →
      of source offset = of source (Text.byteSize source) := by
  refine ⟨fun _ _ => of_lt_of_iff, ?counts, ?others⟩
  case counts =>
    rintro offset ⟨before, rest, rfl, rfl⟩
    obtain ⟨above, line, rfl, habove, hline, hafter⟩ := exists_lines before
    exact ⟨above, line, rest, rfl, rfl, habove, hline, (of_append _ rest).trans hafter⟩
  case others =>
    intro offset hoffset
    have hnone : Text.takeBytes offset source = none := by
      simpa using mt Text.isSome_takeBytes_iff.mp hoffset
    rw [of_byteSize, of, hnone]
    rfl

/-- Two lines, the first with a letter of two bytes: the place after this letter and one in the
second line, an offset inside the letter and one beyond the end. -/
theorem of_identifies_two_lines :
    let source := "é: 'x'\nbc".toList
    Text.IsBoundary source 2 ∧ Text.IsBoundary source 9 ∧ of source 2 < of source 9
    ∧ (∃ above line rest, source = above ++ line ++ rest ∧ 9 = Text.byteSize (above ++ line)
      ∧ (above = [] ∨ above.getLast? = some '\n') ∧ '\n' ∉ line
      ∧ of source 9 = ⟨(above ++ line).count '\n' + 1, line.length + 1⟩)
    ∧ of source 9 = ⟨2, 2⟩
    ∧ ¬ Text.IsBoundary source 1 ∧ of source 1 = of source (Text.byteSize source)
    ∧ ¬ Text.IsBoundary source 100 ∧ of source 100 = of source (Text.byteSize source)
    ∧ of source (Text.byteSize source) = ⟨2, 3⟩ := by
  intro source
  have h₂ : Text.IsBoundary source 2 := by decide
  have h₉ : Text.IsBoundary source 9 := by decide
  have h₁ : ¬ Text.IsBoundary source 1 := by decide
  have h₁₀₀ : ¬ Text.IsBoundary source 100 := by decide
  obtain ⟨horder, hcounts, hothers⟩ := of_identifies source
  exact ⟨h₂, h₉, (horder 2 9 h₂ h₉).mpr (by decide), hcounts 9 h₉, by decide, h₁, hothers 1 h₁,
    h₁₀₀, hothers 100 h₁₀₀, by decide⟩

end Position

end Playbooks
