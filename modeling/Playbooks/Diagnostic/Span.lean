import Playbooks.Text.Slice

/-!
# Places in a source

A span is a half-open range of byte offsets; a position is a line and a column, both counted from
one, the column in characters.
-/
namespace Playbooks

/-- The bytes from `start` up to, and without, `stop`. -/
structure Span where
  start : Nat
  stop : Nat
  start_le_stop : start ≤ stop := by omega
deriving DecidableEq

namespace Span

/-- The span between two offsets; an end before the start is moved to the start. -/
def ofBounds (start stop : Nat) : Span :=
  { start, stop := max start stop, start_le_stop := Nat.le_max_left .. }

/-- The empty span at an offset. -/
def point (offset : Nat) : Span :=
  ofBounds offset offset

instance : Inhabited Span := ⟨.point 0⟩

def length (s : Span) : Nat :=
  s.stop - s.start

def isEmpty (s : Span) : Bool :=
  s.start == s.stop

/-- `t` lies within `s`. -/
def contains (s t : Span) : Bool :=
  s.start ≤ t.start && t.stop ≤ s.stop

/-- The least span around both. -/
def union (s t : Span) : Span :=
  { start := min s.start t.start
    stop := max s.stop t.stop
    start_le_stop := by have := s.start_le_stop; omega }

/-- The text of the span; a span that cuts a character or leaves the source has none. -/
def text (s : Span) (source : List Char) : List Char :=
  (Text.slice? source s.start s.stop).getD []

def render (s : Span) : String :=
  toString s.start ++ ".." ++ toString s.stop

@[simp] theorem start_ofBounds (a b : Nat) : (ofBounds a b).start = a := rfl

@[simp] theorem stop_ofBounds (a b : Nat) : (ofBounds a b).stop = max a b := rfl

end Span

/-- A line and a column. -/
structure Position where
  line : Nat
  column : Nat
deriving DecidableEq

namespace Position

/-- The position after a text. -/
def after (before : List Char) : Position :=
  { line := before.count '\n' + 1
    column := (before.reverse.takeWhile (· ≠ '\n')).length + 1 }

/-- The position of an offset. An offset beyond the end, or inside a character, counts as the end of
the source. -/
def of (source : List Char) (offset : Nat) : Position :=
  after ((Text.takeBytes offset source).getD source)

def render (p : Position) : String :=
  toString p.line ++ ":" ++ toString p.column

end Position

end Playbooks
