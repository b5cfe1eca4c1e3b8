import Mathlib.Data.List.Forall2
import Mathlib.Data.List.Induction

/-!
# Results, options and lists

What the rest of the theory uses of steps that can fail, of first elements, of runs of elements of a
class, and of lists whose repetitions are erased.
-/
namespace Playbooks

/-! ## Steps that can fail -/

section Results

variable {ε α β : Type} {x : Except ε α} {b : β}

/-- A sequence of two steps succeeds if both do. -/
theorem exists_of_bind_eq_ok {f : α → Except ε β} (h : (x >>= f) = .ok b) :
    ∃ a, x = .ok a ∧ f a = .ok b := by
  cases x with
  | error e => cases h
  | ok a => exact ⟨a, rfl, h⟩

theorem bind_eq_of_eq_ok {a : α} (h : x = .ok a) (f : α → Except ε β) : (x >>= f) = f a := by
  rw [h]
  rfl

theorem exists_of_map_eq_ok {f : α → β} (h : x.map f = .ok b) : ∃ a, x = .ok a ∧ f a = b := by
  cases x with
  | error => cases h
  | ok a =>
    cases h
    exact ⟨a, rfl, rfl⟩

theorem exists_of_any_toOption {P : α → Bool} (h : x.toOption.any P = true) :
    ∃ a, x = .ok a ∧ P a = true := by
  cases x with
  | error e => cases h
  | ok a => exact ⟨a, rfl, h⟩

theorem exists_of_isNone_toOption (h : x.toOption.isNone = true) : ∃ e, x = .error e := by
  cases x with
  | error e => exact ⟨e, rfl⟩
  | ok a => cases h

end Results

/-! ## Runs of elements -/

section Runs

variable {α : Type} {P Q : α → Bool} {o : Option α} {x : α} {taken rest : List α}

theorem any_false_mono (h : o.any P = false) (hQ : ∀ x, Q x = true → P x = true) :
    o.any Q = false := by
  cases o with
  | none => rfl
  | some x =>
    cases hx : Q x with
    | false => exact hx
    | true =>
      rw [Option.any_some, hQ x hx] at h
      cases h

theorem ne_some_of_any_false (h : o.any P = false) (hx : P x = true) : o ≠ some x := by
  rintro rfl
  rw [Option.any_some, hx] at h
  cases h

theorem takeWhile_of_stop (h : rest.head?.any P = false) : rest.takeWhile P = [] := by
  cases rest with
  | nil => rfl
  | cons y rest =>
    have hy : P y = false := h
    simp [hy]

theorem dropWhile_of_stop (h : rest.head?.any P = false) : rest.dropWhile P = rest := by
  cases rest with
  | nil => rfl
  | cons y rest =>
    have hy : P y = false := h
    simp [hy]

/-- A run ends where the class ends. -/
theorem takeWhile_append_of_stop (htaken : ∀ x ∈ taken, P x = true)
    (hrest : rest.head?.any P = false) :
    (taken ++ rest).takeWhile P = taken ∧ (taken ++ rest).dropWhile P = rest := by
  rw [List.takeWhile_append_of_pos htaken, List.dropWhile_append_of_pos htaken,
    takeWhile_of_stop hrest, dropWhile_of_stop hrest, List.append_nil]
  exact ⟨rfl, rfl⟩

/-- A run ends before what is put after it. -/
theorem takeWhile_append_stop (h : rest.head?.any P = false) :
    (taken ++ rest).takeWhile P = taken.takeWhile P
      ∧ (taken ++ rest).dropWhile P = taken.dropWhile P ++ rest := by
  induction taken with
  | nil => exact ⟨takeWhile_of_stop h, dropWhile_of_stop h⟩
  | cons y taken ih =>
    cases hy : P y
    · simp [hy]
    · simp [hy, ih]

end Runs

/-! ## Lists -/

section Lists

variable {α β : Type}

theorem exists_of_mem_forall₂ {R : α → β → Prop} {as : List α} {bs : List β}
    (h : List.Forall₂ R as bs) {a : α} (ha : a ∈ as) : ∃ b ∈ bs, R a b := by
  induction h with
  | nil => cases ha
  | cons hhead _ ih =>
    rcases List.mem_cons.mp ha with rfl | ha
    · exact ⟨_, List.mem_cons_self, hhead⟩
    · obtain ⟨b, hb, hR⟩ := ih ha
      exact ⟨b, List.mem_cons_of_mem _ hb, hR⟩

variable [DecidableEq α] [DecidableEq β]

theorem eraseDups_concat (as : List α) (a : α) :
    (as ++ [a]).eraseDups = if a ∈ as then as.eraseDups else as.eraseDups ++ [a] := by
  rw [List.eraseDups_append]
  split
  · next hmem => simp [List.removeAll, hmem]
  · next hmem => simp [List.removeAll, hmem, List.eraseDups_cons]

theorem eraseDups_map {f : α → β} {as : List α}
    (hf : ∀ a ∈ as, ∀ b ∈ as, f a = f b → a = b) :
    (as.map f).eraseDups = as.eraseDups.map f := by
  induction as using List.reverseRecOn with
  | nil => rfl
  | append_singleton as a ih =>
    have hmem : f a ∈ as.map f ↔ a ∈ as := by
      refine ⟨fun h => ?_, List.mem_map_of_mem⟩
      obtain ⟨b, hb, hba⟩ := List.mem_map.mp h
      exact hf b (by simp [hb]) a (by simp) hba ▸ hb
    have hrest := ih fun b hb c hc => hf b (by simp [hb]) c (by simp [hc])
    rw [List.map_append, List.map_singleton, eraseDups_concat, eraseDups_concat, hrest]
    by_cases ha : a ∈ as
    · rw [if_pos ha, if_pos (hmem.mpr ha)]
    · rw [if_neg ha, if_neg (mt hmem.mp ha), List.map_append, List.map_singleton]

end Lists

end Playbooks
