import Playbooks.Number.Reader

/-!
# Values

What a running playbook computes with: null, booleans, numbers, strings, arrays and objects. The
members of an object are kept in the order of their keys.
-/
namespace Playbooks

/-- Integers of a signed or an unsigned 64-bit word. -/
structure Integer where
  val : Int
  lower : Int64.minValue.toInt ≤ val
  upper : val < UInt64.size
deriving DecidableEq

/-- Floats other than the infinities and NaN. -/
structure FiniteFloat where
  val : Float
  finite : val.isFinite = true

/-- A number is an integer or a float; the two stay apart also where their values agree. -/
inductive Numeral where
  | integer (i : Integer)
  | float (x : FiniteFloat)

inductive Value where
  | null
  | bool (b : Bool)
  | number (n : Numeral)
  | string (s : String)
  | array (items : List Value)
  | object (members : List (String × Value))

namespace Integer

def ofInt? (i : Int) : Option Integer :=
  if h : Int64.minValue.toInt ≤ i ∧ i < UInt64.size then some ⟨i, h.1, h.2⟩ else none

theorem int64_bounds (i : Int64) : Int64.minValue.toInt ≤ i.toInt ∧ i.toInt < UInt64.size := by
  refine ⟨i.minValue_le_toInt, ?_⟩
  have high := i.toInt_lt
  rw [UInt64.size]
  omega

def ofInt64 (i : Int64) : Integer :=
  ⟨i.toInt, (int64_bounds i).1, (int64_bounds i).2⟩

/-- The integer as a signed 64-bit word, if it fits. -/
def toInt64? (i : Integer) : Option Int64 :=
  if fitsInt64 i.val then some (Int64.ofInt i.val) else none

end Integer

def FiniteFloat.ofFloat? (x : Float) : Option FiniteFloat :=
  if h : x.isFinite = true then some ⟨x, h⟩ else none

namespace Numeral

/-- The nearest float. -/
def toFloat : Numeral → Float
  | integer i => Float.ofInt i.val
  | float x => x.val

/-- The signed 64-bit integer that the number is, if it is one. -/
def toInt64? : Numeral → Option Int64
  | integer i => i.toInt64?
  | float _ => none

/-- Integers agree by value, floats as floats; an integer is no float. -/
def beq : Numeral → Numeral → Bool
  | integer i, integer j => i.val == j.val
  | float x, float y => x.val == y.val
  | _, _ => false

instance : BEq Numeral := ⟨beq⟩

end Numeral

/-- Members of an object, in the order of their keys and with one value a key. -/
abbrev Members := List (String × Value)

namespace Members

def get? (key : String) (members : Members) : Option Value :=
  members.lookup key

/-- Puts a value at its key, replacing the one that was there. -/
def insert (key : String) (value : Value) : Members → Members
  | [] => [(key, value)]
  | (k, v) :: rest =>
    if key < k then (key, value) :: (k, v) :: rest
    else if key = k then (key, value) :: rest
    else (k, v) :: insert key value rest

/-- A member that was put in is found under its key, and other members are as before. -/
theorem get?_insert (key other : String) (value : Value) (members : Members) :
    (members.insert key value).get? other
      = if other = key then some value else members.get? other := by
  induction members with
  | nil =>
    by_cases h : other = key
    · simp [insert, get?, h]
    · simp [insert, get?, List.lookup_cons, h, beq_eq_false_iff_ne.mpr h]
  | cons m rest ih =>
    obtain ⟨k, v⟩ := m
    simp only [get?] at ih ⊢
    by_cases h : other = key
    · subst h
      simp only [insert]
      split
      · simp
      · split
        · simp
        · rename_i hne
          simp [List.lookup_cons, beq_eq_false_iff_ne.mpr hne, ih]
    · have differ := beq_eq_false_iff_ne.mpr h
      simp only [h, if_false] at ih
      simp only [insert, h, if_false]
      split
      · simp [List.lookup_cons, differ]
      · split
        · rename_i heq
          subst heq
          simp [List.lookup_cons, differ]
        · simp [List.lookup_cons, ih]

/-- Later entries replace earlier ones with the same key. -/
def ofList (entries : List (String × Value)) : Members :=
  entries.foldl (fun members (key, value) => members.insert key value) []

def keys (members : Members) : List String :=
  members.map Prod.fst

end Members

namespace Value

instance : Inhabited Value := ⟨null⟩

def ofInt64 (i : Int64) : Value :=
  .number (.integer (.ofInt64 i))

/-- A float as a value; one that is not finite has none and becomes null. -/
def ofFloat (x : Float) : Value :=
  match FiniteFloat.ofFloat? x with
  | some y => .number (.float y)
  | none => null

/-- A count as a value. -/
def ofNat (n : Nat) : Value :=
  match Integer.ofInt? n with
  | some i => .number (.integer i)
  | none => ofFloat (Float.ofNat n)

/-- The name of a value's kind. -/
def kind : Value → String
  | null => "null"
  | bool _ => "bool"
  | number _ => "number"
  | string _ => "string"
  | array _ => "array"
  | object _ => "object"

/-- The member of an object; other values have none. -/
def get? (key : String) : Value → Option Value
  | object members => Members.get? key members
  | _ => none

def string? : Value → Option String
  | string s => some s
  | _ => none

mutual

/-- Agreement of kind and content. -/
def beq : Value → Value → Bool
  | null, null => true
  | bool a, bool b => a == b
  | number a, number b => a == b
  | string a, string b => a == b
  | array as, array bs => beqItems as bs
  | object as, object bs => beqMembers as bs
  | _, _ => false

def beqItems : List Value → List Value → Bool
  | [], [] => true
  | a :: as, b :: bs => a.beq b && beqItems as bs
  | _, _ => false

def beqMembers : List (String × Value) → List (String × Value) → Bool
  | [], [] => true
  | (j, a) :: as, (k, b) :: bs => j == k && a.beq b && beqMembers as bs
  | _, _ => false

end

instance : BEq Value := ⟨beq⟩

end Value

end Playbooks
