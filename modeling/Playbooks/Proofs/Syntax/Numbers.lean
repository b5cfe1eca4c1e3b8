import Playbooks.Proofs.Syntax.Trees

/-!
# Numbers of parse trees

A node for a number covers a numeral, at whatever depth it stands.

## Main definitions

* `Match.numberTexts`: the texts of the numbers of a tree.

## Main results

* `isNumeral_of_parse`: the numbers of an accepted source are numerals.
-/
namespace Playbooks

open Playbooks.Parser Grammar

namespace Match

mutual

/-- The texts of the numbers in a tree, from left to right. -/
def numberTexts (source : List Char) : Match → List (List Char)
  | ⟨rule, span, children⟩ =>
    (if rule = .number then [text ⟨rule, span, children⟩ source] else [])
      ++ numberTextsAll source children

def numberTextsAll (source : List Char) : List Match → List (List Char)
  | [] => []
  | m :: ms => m.numberTexts source ++ numberTextsAll source ms

end

theorem numberTexts_node {source : List Char} {rule : Rule} (h : rule ≠ .number)
    (start stop : Nat) (ms : List Match) :
    (node rule start stop ms).numberTexts source = numberTextsAll source ms := by
  rw [node, numberTexts, if_neg h, List.nil_append]

theorem numberTextsAll_subset (source : List Char) (m : Match) :
    numberTextsAll source m.children ⊆ m.numberTexts source := by
  cases m
  exact List.subset_append_right _ _

end Match

/-- A rule with parts is not the one of numbers. -/
theorem ne_number_of_not_isWord {rule : Rule} (h : ∀ text, ¬ IsWord rule text) :
    rule ≠ .number := by
  rintro rfl
  exact h ['0'] (IsNumeral.plain (.whole rfl))

namespace Match

variable {source : List Char}

/-- The text of a number is the numeral that was read. -/
theorem isNumeral_leaf {c c' : Cursor} {rule : Rule} {text cs : List Char} (hc : c.In source)
    (hword : IsWord rule text) (h : c.Took text c')
    (hcs : cs ∈ (leaf rule c.offset c'.offset).numberTexts source) : IsNumeral cs := by
  by_cases hrule : rule = .number
  · subst hrule
    have htext : (leaf .number c.offset c'.offset).text source = text := hc.text_ofBounds h
    rw [leaf] at hcs htext
    simp only [numberTexts, numberTextsAll, if_true, List.append_nil, List.mem_singleton] at hcs
    rw [hcs, htext]
    exact hword
  · simp [leaf, numberTexts, numberTextsAll, hrule] at hcs

mutual

theorem Formed.isNumeral {c c' : Cursor} {m : Match} (hc : c.In source) :
    Formed c m c' → ∀ cs ∈ m.numberTexts source, IsNumeral cs
  | .leaf hword h => fun _ hcs => isNumeral_leaf hc hword h hcs
  | .node hrule hms _ => by
    rw [numberTexts_node (ne_number_of_not_isWord hrule)]
    exact hms.isNumeral hc
  | .upToLast hrule hms _ => by
    rw [numberTexts_node (ne_number_of_not_isWord hrule)]
    exact hms.isNumeral hc
  | .within h hstart _ => h.isNumeral (hc.of_le hstart)

theorem FormedAll.isNumeral {c c' : Cursor} {ms : List Match} (hc : c.In source) :
    FormedAll c ms c' → ∀ cs ∈ numberTextsAll source ms, IsNumeral cs
  | .nil _ => by simp [numberTextsAll]
  | .cons h hms => by
    intro cs hcs
    rcases List.mem_append.mp hcs with hcs | hcs
    · exact h.isNumeral hc cs hcs
    · exact hms.isNumeral (hc.of_le (le_of_lt h.lt)) cs hcs

end

end Match

/-- The numbers of an accepted source are numerals. -/
theorem isNumeral_of_parse {source : List Char} {tree : Match} (h : parse source = .ok tree) :
    ∀ cs ∈ tree.numberTexts source, IsNumeral cs := by
  obtain ⟨m, c', ⟨hprune, ms, rfl, hms, -⟩, rfl⟩ :=
    runRuleOrReject_ok ((prune_entry _).and (formed_entry _)) h
  rw [hprune, Match.numberTexts_node (by decide)]
  exact hms.isNumeral (Cursor.in_start source)

end Playbooks
