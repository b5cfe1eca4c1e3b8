import Mathlib.Data.List.Induction
import Playbooks.Table

/-!
# Tables

What is found in a table, and what inserting entries does to it. The value under a key is that of
the last entry that was inserted with the key, at the place of the first one.

## Main results

* `Table.get?_eq_none_iff`, `Table.exists_get?_of_mem_keys`: exactly the keys have values.
* `Table.ofList_of_nodup`: entries with different keys are a table.
* `Table.last_of_get?_ofList`: the value under a key is that of the last entry with the key.
-/
namespace Playbooks.Table

variable {α β : Type} {key : String} {value : α} {table : Table α} {entries : List (String × α)}

/-! ## Looking up -/

theorem contains_iff : contains key table = true ↔ key ∈ keys table := by
  simp [contains, keys]

theorem contains_congr {other : Table α} (h : keys table = keys other) (key : String) :
    contains key table = contains key other := by
  rw [Bool.eq_iff_iff, contains_iff, contains_iff, h]

theorem get?_eq_none_iff : get? key table = none ↔ key ∉ keys table := by
  rw [get?, keys, List.lookup_eq_none_iff]
  simp only [List.mem_map, not_exists, not_and, bne_iff_ne]
  constructor
  · intro h entry hentry heq
    exact h entry hentry heq.symm
  · intro h entry hentry heq
    exact h entry hentry heq.symm

theorem exists_get?_of_mem_keys (h : key ∈ keys table) : ∃ value, get? key table = some value :=
  Option.ne_none_iff_exists'.mp fun hnone => get?_eq_none_iff.mp hnone h

theorem contains_eq_isSome (key : String) (table : Table α) :
    contains key table = (get? key table).isSome := by
  rw [Bool.eq_iff_iff, contains_iff, Option.isSome_iff_ne_none, Ne, get?_eq_none_iff,
    Decidable.not_not]

theorem mem_of_get? (h : get? key table = some value) : (key, value) ∈ table := by
  rw [get?, List.lookup_eq_some_iff] at h
  obtain ⟨before, after, rfl, -⟩ := h
  simp

theorem get?_of_mem {entry : String × α} (h : (table.map Prod.fst).Nodup) (hmem : entry ∈ table) :
    get? entry.1 table = some entry.2 := by
  induction table with
  | nil => cases hmem
  | cons first rest ih =>
      obtain ⟨k, v⟩ := first
      simp only [List.map_cons, List.nodup_cons] at h
      rw [get?, List.lookup_cons]
      rcases List.mem_cons.mp hmem with rfl | hrest
      · simp
      · have hne : entry.1 ≠ k := by
          intro heq
          exact h.1 (heq ▸ List.mem_map_of_mem hrest)
        rw [beq_eq_false_iff_ne.mpr hne]
        exact ih h.2 hrest

/-- The place of an entry that is found. -/
theorem exists_split_of_get? (h : get? key table = some value) :
    ∃ before after, table = before ++ (key, value) :: after := by
  induction table with
  | nil => cases h
  | cons first rest ih =>
      obtain ⟨k, v⟩ := first
      by_cases hk : key = k
      · subst hk
        rw [get?, List.lookup_cons_self] at h
        cases h
        exact ⟨[], rest, rfl⟩
      · rw [get?, List.lookup_cons, beq_eq_false_iff_ne.mpr hk] at h
        obtain ⟨before, after, heq⟩ := ih h
        exact ⟨(k, v) :: before, after, by rw [heq, List.cons_append]⟩

theorem get?_of_ne {other : String} {before after : Table α} (h : other ≠ key) :
    get? other (before ++ (key, value) :: after) = get? other (before ++ after) := by
  rw [get?, get?, List.lookup_append, List.lookup_append, List.lookup_cons,
    beq_eq_false_iff_ne.mpr h]

theorem keys_eq_nil_iff : keys table = [] ↔ table = [] :=
  List.map_eq_nil_iff

theorem keys_append (table others : Table α) : keys (table ++ others) = keys table ++ keys others :=
  List.map_append

/-- Erasing a key that is not there changes nothing. -/
theorem erase_of_notMem (h : key ∉ keys table) : erase key table = table := by
  refine List.filter_eq_self.mpr fun entry hentry => ?_
  have hne : entry.1 ≠ key := fun heq => h (heq ▸ List.mem_map_of_mem hentry)
  simpa using hne

/-! ## Inserting -/

theorem mem_insert {entry : String × α} (h : entry ∈ insert key value table) :
    entry = (key, value) ∨ entry ∈ table := by
  induction table with
  | nil => simpa [insert] using h
  | cons first rest ih =>
      obtain ⟨k, v⟩ := first
      rw [insert] at h
      split at h
      · rcases List.mem_cons.mp h with h | h
        · exact Or.inl h
        · exact Or.inr (List.mem_cons_of_mem _ h)
      · rcases List.mem_cons.mp h with h | h
        · exact Or.inr (h ▸ List.mem_cons_self)
        · exact (ih h).imp_right (List.mem_cons_of_mem _)

theorem mem_keys_insert {other : String} {value : α} :
    key ∈ keys (insert other value table) ↔ key = other ∨ key ∈ keys table := by
  have hiff : key ∉ keys (insert other value table) ↔ ¬ (key = other ∨ key ∈ keys table) := by
    rw [not_or, ← get?_eq_none_iff, ← get?_eq_none_iff, get?_insert]
    by_cases hkey : key = other <;> simp [hkey]
  exact Decidable.not_iff_not.mp hiff

/-- Inserting keeps keys different. -/
theorem nodup_keys_insert (h : (table.map Prod.fst).Nodup) :
    ((insert key value table).map Prod.fst).Nodup := by
  induction table with
  | nil => simp [insert]
  | cons first rest ih =>
      obtain ⟨k, v⟩ := first
      simp only [List.map_cons, List.nodup_cons] at h
      rw [insert]
      split
      · next hk =>
        subst hk
        simpa using h
      · next hk =>
        simp only [List.map_cons, List.nodup_cons]
        refine ⟨?_, ih h.2⟩
        intro hmem
        obtain ⟨entry, hentry, hfst⟩ := List.mem_map.mp hmem
        rcases mem_insert hentry with rfl | hentry
        · exact hk hfst.symm
        · exact h.1 (List.mem_map.mpr ⟨entry, hentry, hfst⟩)

theorem insert_of_notMem (h : key ∉ table.map Prod.fst) :
    insert key value table = table ++ [(key, value)] := by
  induction table with
  | nil => rfl
  | cons first rest ih =>
      obtain ⟨k, v⟩ := first
      simp only [List.map_cons, List.mem_cons, not_or] at h
      rw [insert, if_neg (Ne.symm h.1), ih h.2, List.cons_append]

/-! ## Several entries -/

theorem insertAll_append (table : Table α) (entries : List (String × α)) (entry : String × α) :
    insertAll table (entries ++ [entry]) = insert entry.1 entry.2 (insertAll table entries) := by
  induction entries generalizing table with
  | nil => rfl
  | cons first entries ih => exact ih _

theorem ofList_append (entries : List (String × α)) (entry : String × α) :
    ofList (entries ++ [entry]) = insert entry.1 entry.2 (ofList entries) :=
  insertAll_append [] entries entry

theorem mem_keys_insertAll :
    key ∈ keys (insertAll table entries) ↔ key ∈ keys table ∨ key ∈ entries.map Prod.fst := by
  induction entries generalizing table with
  | nil => simp [insertAll]
  | cons entry entries ih =>
    rw [insertAll, ih, mem_keys_insert, List.map_cons, List.mem_cons, or_right_comm, or_comm,
      or_left_comm]

theorem mem_of_mem_insertAll {entry : String × α} (h : entry ∈ insertAll table entries) :
    entry ∈ table ∨ entry ∈ entries := by
  induction entries generalizing table with
  | nil => exact Or.inl h
  | cons first entries ih =>
    rcases ih h with h | h
    · rcases mem_insert h with rfl | h
      · exact Or.inr List.mem_cons_self
      · exact Or.inl h
    · exact Or.inr (List.mem_cons_of_mem _ h)

theorem nodup_keys_insertAll {table : Table α} (h : (table.map Prod.fst).Nodup) :
    ((insertAll table entries).map Prod.fst).Nodup := by
  induction entries generalizing table with
  | nil => exact h
  | cons entry entries ih => exact ih (nodup_keys_insert h)

theorem insertAll_of_nodup {entries : List (String × α)}
    (h : ((table ++ entries).map Prod.fst).Nodup) : insertAll table entries = table ++ entries := by
  induction entries generalizing table with
  | nil => simp [insertAll]
  | cons first rest ih =>
      obtain ⟨k, v⟩ := first
      have hk : k ∉ table.map Prod.fst := by
        intro hmem
        rw [List.map_append, List.nodup_append] at h
        exact h.2.2 k hmem k (by simp) rfl
      rw [insertAll, insert_of_notMem hk, ih (by simpa using h)]
      simp

/-- Entries with different keys are a table. -/
theorem ofList_of_nodup {entries : List (String × α)} (h : (entries.map Prod.fst).Nodup) :
    ofList entries = entries := by
  have hall : insertAll [] entries = [] ++ entries := insertAll_of_nodup h
  exact hall

/-- What is found after entries were inserted: one of these, or else what was there before. -/
theorem get?_insertAll {entries : Table α} (h : get? key (insertAll table entries) = some value) :
    (key, value) ∈ entries ∨ (key ∉ keys entries ∧ get? key table = some value) := by
  induction entries generalizing table with
  | nil => exact Or.inr ⟨by simp [keys], h⟩
  | cons entry entries ih =>
      rcases ih h with hmem | ⟨hnot, hfound⟩
      · exact Or.inl (List.mem_cons_of_mem _ hmem)
      · rw [get?_insert] at hfound
        split at hfound
        · next hkey =>
          cases hfound
          subst hkey
          exact Or.inl List.mem_cons_self
        · next hkey => exact Or.inr ⟨by simpa [keys, hkey] using hnot, hfound⟩

theorem get?_ofList_append (entries : List (String × α)) (entry : String × α) :
    get? key (ofList (entries ++ [entry]))
      = if key = entry.1 then some entry.2 else get? key (ofList entries) := by
  rw [ofList_append, get?_insert]

theorem get?_ofList_of_last {before after : List (String × α)} (h : key ∉ after.map Prod.fst) :
    get? key (ofList (before ++ (key, value) :: after)) = some value := by
  induction after using List.reverseRecOn with
  | nil => rw [get?_ofList_append, if_pos rfl]
  | append_singleton after entry ih =>
    simp only [List.map_append, List.map_cons, List.map_nil, List.mem_append, List.mem_singleton,
      not_or] at h
    rw [← List.cons_append, ← List.append_assoc, get?_ofList_append, if_neg h.2]
    exact ih h.1

/-- The value under a key is that of the last entry with the key. -/
theorem last_of_get?_ofList (h : get? key (ofList entries) = some value) :
    ∃ before after, entries = before ++ (key, value) :: after ∧ key ∉ after.map Prod.fst := by
  induction entries using List.reverseRecOn with
  | nil => cases h
  | append_singleton entries entry ih =>
    rw [get?_ofList_append] at h
    split at h
    · next hkey =>
      cases h
      exact ⟨entries, [], by rw [hkey], by simp⟩
    · next hkey =>
      obtain ⟨before, after, rfl, hafter⟩ := ih h
      exact ⟨before, after ++ [entry], by simp, by simpa [hkey] using hafter⟩

theorem get?_ofList_eq_none_iff :
    get? key (ofList entries) = none ↔ key ∉ entries.map Prod.fst := by
  rw [get?_eq_none_iff, ofList, mem_keys_insertAll]
  simp [keys]

theorem mem_ofList_iff {entry : String × α} :
    entry ∈ ofList entries ↔ get? entry.1 (ofList entries) = some entry.2 :=
  ⟨get?_of_mem (nodup_keys_insertAll List.nodup_nil), mem_of_get?⟩

/-! ## Changing all values -/

/-- The table with every value changed. -/
def mapValues (f : α → β) (table : Table α) : Table β :=
  table.map fun entry => (entry.1, f entry.2)

theorem insert_mapValues (f : α → β) (key : String) (value : α) (table : Table α) :
    insert key (f value) (mapValues f table) = mapValues f (insert key value table) := by
  induction table with
  | nil => rfl
  | cons entry table ih =>
    obtain ⟨k, v⟩ := entry
    change insert key (f value) ((k, f v) :: mapValues f table) = _
    rw [insert, insert]
    split
    · rfl
    · exact congrArg _ ih

theorem get?_mapValues (f : α → β) (table : Table α) :
    get? key (mapValues f table) = (get? key table).map f := by
  induction table with
  | nil => rfl
  | cons entry table ih =>
    simp only [get?, mapValues, List.map_cons] at ih ⊢
    rw [List.lookup_cons, List.lookup_cons, ih]
    cases key == entry.1 <;> rfl

end Playbooks.Table
