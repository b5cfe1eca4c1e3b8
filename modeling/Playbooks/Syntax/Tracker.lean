/-!
# Furthest failures

A failed parse is explained by the furthest offset at which some alternative gave up and by what was
expected there.
-/
namespace Playbooks

/-- What a rule of the grammar can expect at an offset. -/
inductive Expected where
  | ident
  | string
  | closingQuote
  | number
  | word (text : String)
  | mark (c : Char)
  | indexSegment
  | sentence
  | shallowerNesting
  | endOfInput
deriving DecidableEq

/-- The words used in the advice of a failed parse. -/
def Expected.describe : Expected → String
  | .ident => "identifier"
  | .string => "string"
  | .closingQuote => "closing `'`"
  | .number => "number"
  | .word text => "`" ++ text ++ "`"
  | .mark c => "`" ++ String.singleton c ++ "`"
  | .indexSegment => "index segment"
  | .sentence => "text without surrounding spaces"
  | .shallowerNesting => "shallower nesting"
  | .endOfInput => "end of input"

/-- The furthest offset of a failure and, in order of their first report, the different things that
were expected at it. -/
structure Tracker where
  furthest : Nat := 0
  expected : List Expected := []
deriving DecidableEq

/-- Reports a failure. Only reports at the furthest offset are kept. -/
def Tracker.fail (t : Tracker) (offset : Nat) (what : Expected) : Tracker :=
  if t.furthest < offset then { furthest := offset, expected := [what] }
  else if offset = t.furthest && !t.expected.contains what then
    { t with expected := t.expected ++ [what] }
  else t

end Playbooks
