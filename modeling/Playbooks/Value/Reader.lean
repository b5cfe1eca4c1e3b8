import Playbooks.Number.Radix
import Playbooks.Value.Basic

/-!
# Reading values

Values are read from their JSON text, strictly: blanks are spaces, tabs and line breaks, numbers have
no redundant zeros, and strings hold no raw control characters or unpaired surrogates. Nesting is
bounded. Of two members with one key the last stands.
-/
namespace Playbooks.Value

/-- Reads something from the front of a text and returns what follows it. -/
abbrev Read (α : Type) := List Char → Option (α × List Char)

def isJsonBlank (c : Char) : Bool :=
  c == ' ' || c == '\t' || c == '\n' || c == '\r'

def skipBlanks (cs : List Char) : List Char :=
  cs.dropWhile isJsonBlank

/-! ## Strings -/

/-- Four hexadecimal digits. -/
def readUnit : Read Nat
  | a :: b :: c :: d :: rest => do
    let a ← digitValue? a
    let b ← digitValue? b
    let c ← digitValue? c
    let d ← digitValue? d
    pure (((a * 16 + b) * 16 + c) * 16 + d, rest)
  | _ => none

/-- The character after `\u`: one unit, or a high and a low surrogate in two escapes. -/
def readUnicode : Read Char := fun cs => do
  let (unit, rest) ← readUnit cs
  if 0xd800 ≤ unit && unit ≤ 0xdbff then
    match rest with
    | '\\' :: 'u' :: rest =>
      let (low, rest) ← readUnit rest
      if 0xdc00 ≤ low && low ≤ 0xdfff then
        pure (Char.ofNat (0x10000 + (unit - 0xd800) * 0x400 + (low - 0xdc00)), rest)
      else none
    | _ => none
  else if 0xdc00 ≤ unit && unit ≤ 0xdfff then none
  else pure (Char.ofNat unit, rest)

/-- The character after a backslash. -/
def readEscape : Read Char
  | [] => none
  | e :: rest =>
    if e = '\x22' || e = '\\' || e = '/' then some (e, rest)
    else if e = 'b' then some ('\x08', rest)
    else if e = 'f' then some ('\x0c', rest)
    else if e = 'n' then some ('\n', rest)
    else if e = 'r' then some ('\r', rest)
    else if e = 't' then some ('\t', rest)
    else if e = 'u' then readUnicode rest
    else none

/-- A string after its opening quote, up to and with the closing one. Every step reads a character,
so the length of the text is fuel enough. -/
def readStringFrom : (fuel : Nat) → Read (List Char)
  | 0, _ => none
  | _ + 1, [] => none
  | n + 1, c :: rest =>
    if c = '\x22' then some ([], rest)
    else if c = '\\' then do
      let (x, rest) ← readEscape rest
      let (xs, rest) ← readStringFrom n rest
      pure (x :: xs, rest)
    else if c.toNat < 0x20 then none
    else do
      let (xs, rest) ← readStringFrom n rest
      pure (c :: xs, rest)

def readString : Read String := fun cs => do
  let (xs, rest) ← readStringFrom (cs.length + 1) cs
  pure (String.ofList xs, rest)

/-! ## Numbers -/

/-- A significand of at most 64 bits and a power of ten. -/
structure Scaled where
  significand : Nat := 0
  exponent : Int := 0

/-- Digits before the point. The first digit that does not fit, and all after it, only scale. -/
def Scaled.addWhole (s : Scaled) : List Char → Scaled
  | [] => s
  | d :: ds =>
    let next := s.significand * 10 + (d.toNat - '0'.toNat)
    if next < UInt64.size then { s with significand := next }.addWhole ds
    else { s with exponent := s.exponent + (ds.length + 1) }

/-- Digits after the point. The first digit that does not fit, and all after it, are left out. -/
def Scaled.addFraction (s : Scaled) : List Char → Scaled
  | [] => s
  | d :: ds =>
    let next := s.significand * 10 + (d.toNat - '0'.toNat)
    if next < UInt64.size then
      Scaled.addFraction { significand := next, exponent := s.exponent - 1 } ds
    else s

/-- Scales a float by a power of ten in steps of at most 308 places. Two divisions by `10 ^ 308`
underflow every significand, so three steps are enough. A result out of range is none. -/
def scaleFloat (f : Float) (exponent : Int) : (steps : Nat) → Option Float
  | 0 => some f
  | n + 1 =>
    if exponent.natAbs ≤ 308 then
      let power := Float.ofScientific 1 false exponent.natAbs
      if 0 ≤ exponent then
        let g := f * power
        if g.isFinite then some g else none
      else some (f / power)
    else if f == 0 then some f
    else if 0 ≤ exponent then none
    else scaleFloat (f / Float.ofScientific 1 false 308) (exponent + 308) n

/-- The significand is rounded to a float, which is then scaled. -/
def Scaled.toFloat? (s : Scaled) : Option Float :=
  scaleFloat (Float.ofNat s.significand) s.exponent 4

/-- The value of a number from its parts. An integer that fits a 64-bit word stays one, except a
negative zero. -/
def numberOf (negative : Bool) (whole fraction : List Char) (exponent : Option Int) :
    Option Value :=
  let n : Int := natOfDigits whole
  let i := if negative then -n else n
  match Integer.ofInt? i with
  | some integer =>
    if fraction.isEmpty && exponent.isNone && !(negative && n == 0) then
      some (.number (.integer integer))
    else float
  | none => float
where
  float : Option Value := do
    let s := (Scaled.addWhole {} whole).addFraction fraction
    let f ← { s with exponent := s.exponent + exponent.getD 0 : Scaled }.toFloat?
    pure (ofFloat (if negative then -f else f))

/-- Digits, at least one. -/
def readDigits : Read (List Char) := fun cs =>
  let digits := cs.takeWhile Char.isDigit
  if digits.isEmpty then none else some (digits, cs.dropWhile Char.isDigit)

/-- A single zero, or digits that do not start with one. -/
def readWhole : Read (List Char)
  | '0' :: rest => if rest.head?.any Char.isDigit then none else some (['0'], rest)
  | cs => readDigits cs

def readFraction : Read (List Char)
  | '.' :: rest => readDigits rest
  | cs => some ([], cs)

def readExponent : Read (Option Int)
  | c :: rest =>
    if c = 'e' || c = 'E' then do
      let (negative, rest) := takeSign rest
      let (digits, rest) ← readDigits rest
      let n : Int := natOfDigits digits
      pure (some (if negative then -n else n), rest)
    else some (none, c :: rest)
  | [] => some (none, [])

def readNumber : Read Value := fun cs => do
  let (negative, cs) := match cs with
    | '-' :: rest => (true, rest)
    | cs => (false, cs)
  let (whole, cs) ← readWhole cs
  let (fraction, cs) ← readFraction cs
  let (exponent, cs) ← readExponent cs
  let v ← numberOf negative whole fraction exponent
  pure (v, cs)

/-! ## Values -/

/-- A fixed word. -/
def readWord (word : String) (v : Value) : Read Value := fun cs =>
  if word.toList.isPrefixOf cs then some (v, cs.drop word.length) else none

/-- Items up to the closing mark, the first of which is next. -/
def readItems {α : Type} (close : Char) (item : Read α) : (fuel : Nat) → Read (List α)
  | 0, _ => none
  | n + 1, cs => do
    let (a, cs) ← item (skipBlanks cs)
    match skipBlanks cs with
    | c :: rest =>
      if c = ',' then do
        let (as, rest) ← readItems close item n rest
        pure (a :: as, rest)
      else if c = close then pure ([a], rest)
      else none
    | [] => none

/-- Items between marks whose opening one was read. -/
def readList {α : Type} (close : Char) (item : Read α) : Read (List α) := fun cs =>
  match skipBlanks cs with
  | c :: rest => if c = close then some ([], rest) else readItems close item (cs.length + 1) (c :: rest)
  | [] => none

def readMember (value : Read Value) : Read (String × Value)
  | '\x22' :: rest => do
    let (key, rest) ← readString rest
    match skipBlanks rest with
    | ':' :: rest =>
      let (v, rest) ← value (skipBlanks rest)
      pure ((key, v), rest)
    | _ => none
  | _ => none

/-- A value whose arrays and objects nest less than `depth` levels. -/
def readValue : (depth : Nat) → Read Value
  | 0, _ => none
  | n + 1, cs =>
    match cs with
    | 'n' :: _ => readWord "null" .null cs
    | 't' :: _ => readWord "true" (.bool true) cs
    | 'f' :: _ => readWord "false" (.bool false) cs
    | '\x22' :: rest => (readString rest).map fun (s, rest) => (.string s, rest)
    | '[' :: rest => if n = 0 then none else
      (readList ']' (readValue n) rest).map fun (items, rest) => (.array items, rest)
    | '\x7b' :: rest => if n = 0 then none else
      (readList '\x7d' (readMember (readValue n)) rest).map fun (members, rest) =>
        (.object (Members.ofList members), rest)
    | _ => readNumber cs

/-- A text that is one value nesting less than `depth` levels, with blanks around it. -/
def readWithin (depth : Nat) (cs : List Char) : Option Value :=
  match readValue depth (skipBlanks cs) with
  | some (v, rest) => if (skipBlanks rest).isEmpty then some v else none
  | none => none

/-- Arrays and objects nest less than this many levels. -/
def maxDepth : Nat := 128

/-- A text that is one value, with blanks around it. -/
def read? (cs : List Char) : Option Value :=
  readWithin maxDepth cs

end Playbooks.Value
