/-!
# Tables in insertion order

A table maps strings to values and remembers the order in which keys first came in. Giving a key a
new value keeps its place.
-/
namespace Playbooks

/-- Keys with their values, in the order of first insertion. -/
abbrev Table (α : Type) := List (String × α)

namespace Table

variable {α : Type}

def get? (key : String) (table : Table α) : Option α :=
  table.lookup key

def insert (key : String) (value : α) : Table α → Table α
  | [] => [(key, value)]
  | (k, v) :: rest =>
    if k = key then (key, value) :: rest else (k, v) :: insert key value rest

/-- A value that was put in is found under its key, and other values are as before. -/
theorem get?_insert (key other : String) (value : α) (table : Table α) :
    get? other (insert key value table)
      = if other = key then some value else get? other table := by
  induction table with
  | nil =>
    by_cases h : other = key
    · simp [insert, get?, h]
    · simp [insert, get?, List.lookup_cons, h, beq_eq_false_iff_ne.mpr h]
  | cons e rest ih =>
    obtain ⟨k, v⟩ := e
    simp only [get?] at ih ⊢
    by_cases hk : k = key
    · subst hk
      by_cases h : other = k
      · simp [insert, h]
      · simp [insert, List.lookup_cons, h, beq_eq_false_iff_ne.mpr h]
    · by_cases h : other = key
      · subst h
        simp [insert, hk, List.lookup_cons, beq_eq_false_iff_ne.mpr (Ne.symm hk), ih]
      · simp only [insert, hk, if_false, List.lookup_cons, ih, h]

def erase (key : String) (table : Table α) : Table α :=
  table.filter (·.1 ≠ key)

def keys (table : Table α) : List String :=
  table.map Prod.fst

def contains (key : String) (table : Table α) : Bool :=
  table.any (·.1 == key)

/-- Adds a value at the end, unless there is one under its key. -/
def insertNew (key : String) (value : α) (table : Table α) : Table α :=
  if contains key table then table else table ++ [(key, value)]

/-- Inserts entries one after the other. -/
def insertAll (table : Table α) : List (String × α) → Table α
  | [] => table
  | (key, value) :: rest => insertAll (insert key value table) rest

def ofList (entries : List (String × α)) : Table α :=
  insertAll [] entries

end Table

end Playbooks
