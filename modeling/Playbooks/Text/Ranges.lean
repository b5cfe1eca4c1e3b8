/-!
# Sets of code points

A character property is a table of inclusive ranges of code points, lowest first.
-/
namespace Playbooks.Text

/-- A set of code points as inclusive ranges. -/
abbrev Ranges := List (Nat × Nat)

/-- Membership in one of the ranges. -/
def Ranges.contains (table : Ranges) (n : Nat) : Bool :=
  table.any fun (first, last) => first ≤ n && n ≤ last

end Playbooks.Text
