import Playbooks.Eval.Function

/-!
# Failed arguments

A call whose arguments hold failures ends with the first of them, whatever function is called and
whatever the other arguments are. Functions take their arguments in a few ways, each of which stops
at the first failure, and no function does anything before it has taken all of them. `default` looks
past a missing first argument, and past nothing else.

## Main definitions

* `Function.Strict`: the first failure among the arguments is the result.

## Main results

* `Function.strict_values`, `Function.strict_exactly`, `Function.strict_segments`,
  `Function.strict_order`: the ways of taking arguments are strict.
* `Function.strict_apply`: and so is every function but `default`.
* `Function.call_of_failed_argument`: the law for every function of the language.
-/
namespace Playbooks.Function

variable {args : List Arg}

/-- Arguments of which one failed are values, the first failure, and any arguments. -/
theorem exists_first_failure (h : ∃ e, Except.error e ∈ args) :
    ∃ (before : List Value) (e : EvalError) (after : List Arg),
      args = before.map .ok ++ .error e :: after := by
  induction args with
  | nil =>
    obtain ⟨e, he⟩ := h
    cases he
  | cons arg args ih =>
    cases arg with
    | error e => exact ⟨[], e, args, rfl⟩
    | ok v =>
      obtain ⟨e, he⟩ := h
      have hrest : .error e ∈ args := by simpa using he
      obtain ⟨before, e', after, rfl⟩ := ih ⟨e, hrest⟩
      exact ⟨v :: before, e', after, rfl⟩

/-! ## Taking arguments -/

/-- The first failure among the arguments is the result, whatever stands before and after it. -/
def Strict {α : Type} (take : List Arg → Except EvalError α) : Prop :=
  ∀ (before : List Value) (e : EvalError) (after : List Arg),
    take (before.map .ok ++ .error e :: after) = .error e

/-- What is done with what was taken does not matter. -/
theorem Strict.bind {α β : Type} {take : List Arg → Except EvalError α} (h : Strict take)
    (next : α → Except EvalError β) : Strict fun args => take args >>= next := by
  intro before e after
  change take _ >>= next = _
  rw [h before e after]
  rfl

theorem strict_values : Strict values := by
  intro before e after
  induction before with
  | nil => rfl
  | cons v before ih =>
    rw [List.map_cons, List.cons_append, values, ih]
    rfl

section Families

variable (f : Function)

/-- The count is looked at only if there is no failure. -/
theorem strict_exactly (n : Nat) : Strict (f.exactly n) :=
  strict_values.bind _

theorem strict_segments : Strict f.segments :=
  strict_values.bind _

theorem strict_access (all : Members) (find : List String → Arg) : Strict (f.access all find) :=
  f.strict_segments.bind _

theorem strict_onText (g : List Char → List Char) : Strict (f.onText g) :=
  (f.strict_exactly 1).bind _

theorem strict_arithmetic (g : Number → Number → Number) : Strict (f.arithmetic g) :=
  (f.strict_exactly 2).bind _

theorem strict_division (g : Number → Number → Number) : Strict (f.division g) :=
  (f.strict_exactly 2).bind _

theorem strict_order : Strict f.order :=
  (f.strict_exactly 2).bind _

theorem strict_comparison (test : Ordering → Bool) : Strict (f.comparison test) :=
  f.strict_order.bind _

end Families

/-! ## The functions -/

/-- Every function but `default` takes its arguments before anything else. -/
theorem strict_apply {f : Function} (hf : f ≠ default) (ctx : Context) : Strict (f.apply ctx) := by
  cases f with
  | vars | state => exact strict_access _ _ _
  | concat | and | or | format => exact strict_values.bind _
  | lower | upper | trim => exact strict_onText _ _
  | add | sub | mul => exact strict_arithmetic _ _
  | div | mod => exact strict_division _ _
  | lt | le | gt | ge => exact strict_comparison _ _
  | len | not | isEmpty => exact (strict_exactly _ 1).bind _
  | join | split | eq | ne | contains => exact (strict_exactly _ 2).bind _
  | replace => exact (strict_exactly _ 3).bind _
  | default => exact absurd rfl hf

/-- A failure that `default` does not look past is its result. -/
theorem apply_default_of_failure (ctx : Context) {before : List Value} {e : EvalError}
    {after : List Arg} (h : forgiveMissing args = before.map .ok ++ .error e :: after) :
    default.apply ctx args = .error e := by
  rw [apply, h, strict_exactly default 2 before e after]
  rfl

theorem forgiveMissing_of_not_missing (h : ∀ path rest, args ≠ .error (.missing path) :: rest) :
    forgiveMissing args = args := by
  unfold forgiveMissing
  split
  · next path rest => exact absurd rfl (h path rest)
  · rfl

/-- The first failure is the result, if it is not a missing first argument of `default`. -/
theorem apply_of_failure (f : Function) (ctx : Context) {before : List Value} {e : EvalError}
    {after : List Arg} (hargs : args = before.map .ok ++ .error e :: after)
    (hkept : f ≠ default ∨ ∀ path rest, args ≠ .error (.missing path) :: rest) :
    f.apply ctx args = .error e := by
  by_cases hf : f = default
  · have hmissing := hkept.resolve_left fun h => h hf
    subst hf
    exact apply_default_of_failure ctx ((forgiveMissing_of_not_missing hmissing).trans hargs)
  · rw [hargs, strict_apply hf ctx before e after]

/-- No two functions share a name. -/
theorem ofName?_name (f : Function) : ofName? f.name = some f := by
  cases f <;> decide

theorem call_name (f : Function) (ctx : Context) (args : List Arg) :
    call f.name ctx args = f.apply ctx args := by
  rw [call, ofName?_name]

/-- Where no argument failed, all values are taken. -/
theorem values_map_ok (vs : List Value) : values (vs.map .ok) = .ok vs := by
  induction vs with
  | nil => rfl
  | cons v vs ih =>
    rw [List.map_cons, values, ih]
    rfl

/-- A call with a failed argument ends with the first failure. If the first argument of `default` is
missing, the call is that on null and the other arguments, and ends with the first failure among
these. -/
theorem call_of_failed_argument {name : String} (hname : name ∈ all.map Function.name)
    (ctx : Context) (hfailed : ∃ e, Except.error e ∈ args) :
    ((name ≠ "default" ∨ ∀ path rest, args ≠ .error (.missing path) :: rest) →
      ∃ (before : List Value) (e : EvalError) (after : List Arg),
        args = before.map .ok ++ .error e :: after ∧ call name ctx args = .error e)
    ∧ ∀ path rest, name = "default" → args = .error (.missing path) :: rest →
      call name ctx args = call name ctx (.ok .null :: rest)
        ∧ ∀ (before : List Value) (e : EvalError) (after : List Arg),
          rest = before.map .ok ++ .error e :: after → call name ctx args = .error e := by
  obtain ⟨f, -, rfl⟩ := List.mem_map.mp hname
  refine ⟨fun hkept => ?_, ?_⟩
  · obtain ⟨before, e, after, hargs⟩ := exists_first_failure hfailed
    refine ⟨before, e, after, hargs, ?_⟩
    rw [call_name]
    refine f.apply_of_failure ctx hargs (hkept.imp_left fun hne hdefault => hne ?_)
    rw [hdefault, Function.name]
  · rintro path rest hdefault rfl
    have hlookup : ofName? "default" = some default := ofName?_name default
    obtain rfl : f = default := Option.some.inj ((ofName?_name f).symm.trans (hdefault ▸ hlookup))
    refine ⟨by rw [call_name, call_name]; rfl, ?_⟩
    rintro before e after rfl
    have hforgiven :
        forgiveMissing (.error (.missing path) :: (before.map .ok ++ .error e :: after))
          = (.null :: before).map .ok ++ .error e :: after := rfl
    rw [call_name, apply_default_of_failure ctx hforgiven]

/-- A missing value is forgiven, the remainder by zero after it is not, and the count of the
arguments is not looked at. -/
theorem call_of_failed_argument_default :
    call "default" {} [.error (.missing "vars.a"), .ok .null, .error (.divisionByZero "mod")]
      = .error (.divisionByZero "mod") := by
  have hfailed : .error (.divisionByZero "mod") ∈
      ([.error (.missing "vars.a"), .ok .null, .error (.divisionByZero "mod")] : List Arg) := by
    simp
  obtain ⟨-, hmissing⟩ := call_of_failed_argument (show "default" ∈ _ by decide) {} ⟨_, hfailed⟩
  exact (hmissing "vars.a" _ rfl rfl).2 [.null] (.divisionByZero "mod") [] rfl

end Playbooks.Function
