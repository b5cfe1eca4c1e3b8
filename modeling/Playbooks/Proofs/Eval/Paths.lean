import Playbooks.Proofs.Eval.Failures

/-!
# Paths into values

A path leads from a value to a part of it, a member of an object by key or an element of an array by
its decimal index at each step. Looking a path up in the inputs or in the recorded outputs gives the
part that it leads to; where it leads nowhere, the error names the shortest part of the path that
does so, and naming more of the path does not change it.

## Main definitions

* `Reaches`: a path leads from a value to a part of it.
* `BreaksOff`: the shortest part of a path that leads nowhere.
* `Composes`: how a look-up goes on after a path.

## Main results

* `Context.follow_eq_descend`: the error of a depth names what was followed.
* `Context.descend_eq_ok_iff`, `Context.lookup_missing`: what is found, and what is missing.
* `Context.lookups_compose`: looking up a path is looking up its parts, in both maps and through
  both functions.
-/
namespace Playbooks

/-! ## Where paths lead -/

/-- The text of an array index: digits, perhaps after a plus, of a number that fits 64 bits. -/
def IsIndex (segment : String) (i : Nat) : Prop :=
  ∃ digits, (segment.toList = digits ∨ segment.toList = '+' :: digits) ∧ digits ≠ []
    ∧ (∀ d ∈ digits, d.isDigit = true) ∧ natOfDigits digits = i ∧ i < UInt64.size

/-- One step into a value. -/
inductive Enters : Value → String → Value → Prop where
  | member {members : Members} {key : String} {v : Value} (h : members.get? key = some v) :
      Enters (.object members) key v
  | element {items : List Value} {segment : String} {i : Nat} {v : Value}
      (hindex : IsIndex segment i) (h : items[i]? = some v) : Enters (.array items) segment v

/-- A path leads from a value to a part of it. -/
inductive Reaches : Value → List String → Value → Prop where
  | here (v : Value) : Reaches v [] v
  | onward {v w part : Value} {segment : String} {path : List String} (h : Enters v segment w)
      (hpath : Reaches w path part) : Reaches v (segment :: path) part

/-- The path leads somewhere. -/
def Resolves (v : Value) (path : List String) : Prop :=
  ∃ part, Reaches v path part

/-- The shortest beginning of a path that does not lead anywhere. -/
structure BreaksOff (v : Value) (path stop : List String) : Prop where
  inPath : stop <+: path
  unresolved : ¬ Resolves v stop
  shortest : ∀ front, front <+: path → ¬ Resolves v front → stop.length ≤ front.length

theorem reaches_nil_iff {v part : Value} : Reaches v [] part ↔ v = part := by
  constructor
  · intro h
    cases h
    rfl
  · rintro rfl
    exact .here v

theorem reaches_cons_iff {v part : Value} {segment : String} {path : List String} :
    Reaches v (segment :: path) part ↔ ∃ w, Enters v segment w ∧ Reaches w path part := by
  constructor
  · intro h
    cases h with
    | onward h hpath => exact ⟨_, h, hpath⟩
  · rintro ⟨w, h, hpath⟩
    exact .onward h hpath

namespace Context

theorem readIndex_eq_some_iff {segment : String} {i : Nat} :
    readIndex segment = some i ↔ IsIndex segment i := by
  have hread {digits : List Char} : (readNat digits).filter (· < UInt64.size) = some i
      ↔ digits ≠ [] ∧ (∀ d ∈ digits, d.isDigit = true) ∧ natOfDigits digits = i
        ∧ i < UInt64.size := by
    rw [Option.filter_eq_some_iff, readNat]
    simp [and_assoc]
  rw [readIndex, IsIndex]
  split
  · next digits hsegment =>
    rw [hread, hsegment]
    constructor
    · intro h
      exact ⟨digits, Or.inr rfl, h⟩
    · rintro ⟨ds, hds | hds, h⟩
      · subst hds
        exact absurd (h.2.1 '+' List.mem_cons_self) (by decide)
      · cases hds
        exact h
  · next hplain =>
    rw [hread]
    constructor
    · intro h
      exact ⟨_, Or.inl rfl, h⟩
    · rintro ⟨ds, hds | hds, h⟩
      · exact hds ▸ h
      · exact absurd hds (hplain ds)

theorem step_eq_some_iff {v w : Value} {segment : String} :
    step v segment = some w ↔ Enters v segment w := by
  constructor
  · intro h
    cases v with
    | object members => exact .member h
    | array items =>
      obtain ⟨i, hi, hitem⟩ := Option.bind_eq_some_iff.mp h
      exact .element (readIndex_eq_some_iff.mp hi) hitem
    | _ => cases h
  · intro h
    cases h with
    | member h => exact h
    | element hindex h =>
      exact Option.bind_eq_some_iff.mpr ⟨_, readIndex_eq_some_iff.mpr hindex, h⟩

end Context

theorem Enters.unique {v w w' : Value} {segment : String} (h : Enters v segment w)
    (h' : Enters v segment w') : w = w' :=
  Option.some.inj ((Context.step_eq_some_iff.mpr h).symm.trans (Context.step_eq_some_iff.mpr h'))

namespace BreaksOff

variable {v w : Value} {segment : String} {path stop : List String}

theorem ne_nil (h : BreaksOff v path stop) : stop ≠ [] := by
  rintro rfl
  exact h.unresolved ⟨v, .here v⟩

/-- The first step of the path is not possible. -/
theorem first (h : ∀ w, ¬ Enters v segment w) (path : List String) :
    BreaksOff v (segment :: path) [segment] where
  inPath := List.cons_prefix_cons.mpr ⟨rfl, List.nil_prefix⟩
  unresolved := by
    rintro ⟨part, hpart⟩
    obtain ⟨w, hw, -⟩ := reaches_cons_iff.mp hpart
    exact h w hw
  shortest := by
    intro front _ hfront
    cases front with
    | nil => exact absurd ⟨v, .here v⟩ hfront
    | cons x front => simp

/-- A step that is possible belongs to the beginning that leads nowhere. -/
theorem onward (hstep : Enters v segment w) (h : BreaksOff w path stop) :
    BreaksOff v (segment :: path) (segment :: stop) where
  inPath := List.cons_prefix_cons.mpr ⟨rfl, h.inPath⟩
  unresolved := by
    rintro ⟨part, hpart⟩
    obtain ⟨w', hw', hstop⟩ := reaches_cons_iff.mp hpart
    cases hstep.unique hw'
    exact h.unresolved ⟨part, hstop⟩
  shortest := by
    intro front hinPath hfront
    cases front with
    | nil => exact absurd ⟨v, .here v⟩ hfront
    | cons x front =>
      obtain ⟨rfl, hprefix⟩ := List.cons_prefix_cons.mp hinPath
      have hrest : ¬ Resolves w front := by
        rintro ⟨part, hpart⟩
        exact hfront ⟨part, .onward hstep hpart⟩
      have hlength := h.shortest front hprefix hrest
      simp only [List.length_cons]
      omega

end BreaksOff

namespace Context

/-! ## Looking up -/

/-- Follows a path. `before` is what was followed already, for the error. -/
def descend (before : List String) (v : Value) : List String → Arg
  | [] => .ok v
  | segment :: rest =>
    match step v segment with
    | some next => descend (before ++ [segment]) next rest
    | none => .error (.missing (".".intercalate (before ++ [segment])))

variable {before path p q : List String} {v part : Value} {e : EvalError}

/-- The error of a depth names the segments down to it, and these are the ones that were followed
and the one that is not found. -/
theorem follow_eq_descend (root : String) (done : List String) {depth : Nat}
    (hdepth : done.length = depth + 1) (v : Value) (rest : List String) :
    follow root (done ++ rest) depth v rest = descend (root :: done) v rest := by
  induction rest generalizing done depth v with
  | nil => rfl
  | cons segment rest ih =>
    have hdone : done ++ segment :: rest = done ++ [segment] ++ rest := by simp
    cases hstep : step v segment with
    | some next =>
      simp only [follow, descend, hstep]
      rw [hdone, ih _ (by simp [hdepth]), List.cons_append]
    | none =>
      have htake : (done ++ segment :: rest).take (depth + 1 + 1) = done ++ [segment] := by
        rw [hdone, List.take_left' (by simp [hdepth])]
      simp only [follow, descend, hstep]
      rw [missing, htake, List.cons_append]

/-- Following a path finds the part of the value that the path leads to. -/
theorem descend_eq_ok_iff : descend before v path = .ok part ↔ Reaches v path part := by
  induction path generalizing before v with
  | nil => simp [descend, reaches_nil_iff]
  | cons segment path ih =>
    rw [descend, reaches_cons_iff]
    constructor
    · intro h
      split at h
      · next w hstep => exact ⟨w, step_eq_some_iff.mp hstep, ih.mp h⟩
      · cases h
    · rintro ⟨w, hstep, hpath⟩
      rw [step_eq_some_iff.mpr hstep]
      exact ih.mpr hpath

/-- The error names what was followed before and the shortest beginning that leads nowhere. -/
theorem exists_breaksOff_of_descend (h : descend before v path = .error e) :
    ∃ stop, BreaksOff v path stop ∧ e = .missing (".".intercalate (before ++ stop)) := by
  induction path generalizing before v with
  | nil => cases h
  | cons segment path ih =>
    rw [descend] at h
    split at h
    · next w hstep =>
      obtain ⟨stop, hstop, rfl⟩ := ih h
      refine ⟨segment :: stop, hstop.onward (step_eq_some_iff.mp hstep), ?_⟩
      rw [List.append_assoc, List.singleton_append]
    · next hstep =>
      cases h
      refine ⟨[segment], .first ?_ path, rfl⟩
      intro w hw
      rw [step_eq_some_iff.mpr hw] at hstep
      cases hstep

/-- A path is followed by following a first part of it and then the rest. -/
theorem descend_append (before p q : List String) (v : Value) :
    descend before v (p ++ q) = (descend before v p).bind fun w => descend (before ++ p) w q := by
  induction p generalizing before v with
  | nil => simp [descend, Except.bind]
  | cons segment p ih =>
    rw [List.cons_append, descend, descend]
    split
    · rw [ih, List.append_assoc, List.singleton_append]
    · rfl

/-- How a look-up in a map under some name goes on after a path. -/
structure Composes (root : String) (members : Members) (find : List String → Arg) : Prop where
  found : ∀ path part, path ≠ [] → (find path = .ok part ↔ Reaches (.object members) path part)
  missing : ∀ path, path ≠ [] → ¬ Resolves (.object members) path →
    ∃ stop, BreaksOff (.object members) path stop
      ∧ find path = .error (.missing (root ++ "." ++ ".".intercalate stop))
  /-- After a path that leads to a value, the rest of the path is followed from there. -/
  onward : ∀ p q v, p ≠ [] → find p = .ok v →
    (∀ part, Reaches v q part → find (p ++ q) = .ok part)
    ∧ (¬ Resolves v q → ∃ stop, BreaksOff (.object members) (p ++ q) stop
      ∧ find (p ++ q) = .error (.missing (root ++ "." ++ ".".intercalate stop)))
  /-- After a path that leads nowhere, the error stays the same. -/
  stable : ∀ p q e, p ≠ [] → find p = .error e → find (p ++ q) = .error e

variable {root : String} {members : Members}

/-- The first segment is looked up in the map, and the others are counted from it. -/
theorem lookup_of_ne_nil (h : path ≠ []) :
    lookup root members path = descend [root] (.object members) path := by
  cases path with
  | nil => exact absurd rfl h
  | cons first rest =>
    cases hfirst : members.get? first with
    | some v =>
      simp only [lookup, descend, step, hfirst]
      exact follow_eq_descend root [first] rfl v rest
    | none =>
      simp only [lookup, descend, step, hfirst]
      rfl

theorem lookup_missing (hne : path ≠ []) (h : ¬ Resolves (.object members) path) :
    ∃ stop, BreaksOff (.object members) path stop
      ∧ lookup root members path = .error (.missing (root ++ "." ++ ".".intercalate stop)) := by
  rw [lookup_of_ne_nil hne]
  cases hdescend : descend [root] (.object members) path with
  | ok part => exact absurd ⟨part, descend_eq_ok_iff.mp hdescend⟩ h
  | error e =>
    obtain ⟨stop, hstop, rfl⟩ := exists_breaksOff_of_descend hdescend
    refine ⟨stop, hstop, ?_⟩
    rw [List.singleton_append, String.intercalate_cons_of_ne_nil hstop.ne_nil]

theorem lookup_append (hp : p ≠ []) : lookup root members (p ++ q)
    = (lookup root members p).bind fun v => descend (root :: p) v q := by
  rw [lookup_of_ne_nil hp, lookup_of_ne_nil (List.append_ne_nil_of_left_ne_nil hp q), descend_append]
  rfl

theorem composes_lookup (root : String) (members : Members) :
    Composes root members (lookup root members) where
  found := by
    intro path part hne
    rw [lookup_of_ne_nil hne, descend_eq_ok_iff]
  missing := fun path hne h => lookup_missing hne h
  onward := by
    intro p q v hp hv
    have happend : lookup root members (p ++ q) = descend (root :: p) v q := by
      rw [lookup_append hp, hv]
      rfl
    refine ⟨fun part hpart => ?_, fun hq => ?_⟩
    · rw [happend, descend_eq_ok_iff]
      exact hpart
    · have hne : p ++ q ≠ [] := List.append_ne_nil_of_left_ne_nil hp q
      refine lookup_missing hne ?_
      rintro ⟨part, hpart⟩
      have hdescend : descend [root] (.object members) (p ++ q) = .ok part :=
        descend_eq_ok_iff.mpr hpart
      rw [← lookup_of_ne_nil hne, happend] at hdescend
      exact hq ⟨part, descend_eq_ok_iff.mp hdescend⟩
  stable := by
    intro p q e hp he
    rw [lookup_append hp, he]
    rfl

end Context

/-! ## Paths as arguments -/

/-- An argument that names a step of a path. -/
inductive PathStep where
  | key (text : String)
  | index (i : Integer)

namespace PathStep

def value : PathStep → Value
  | key text => .string text
  | index i => .number (.integer i)

/-- An integer stands for its decimal text. -/
def text : PathStep → String
  | key text => text
  | index i => toString i.val

end PathStep

namespace Function

theorem mapM_segmentArg (f : Function) (steps : List PathStep) :
    (steps.map PathStep.value).mapM f.segmentArg = .ok (steps.map PathStep.text) := by
  have hstep (s : PathStep) : f.segmentArg s.value = .ok s.text := by
    cases s with
    | key text => rfl
    | index i =>
      simp [PathStep.value, PathStep.text, segmentArg, Value.render, Value.chars, Value.numeralText]
  induction steps with
  | nil => rfl
  | cons s steps ih =>
    rw [List.map_cons, List.mapM_cons, hstep, ih]
    rfl

/-- A path of keys and integers is followed, and without a path the whole map is the result. -/
theorem access_steps (f : Function) (all : Members) (find : List String → Arg)
    (steps : List PathStep) :
    f.access all find (steps.map fun s => .ok s.value)
      = if steps = [] then .ok (.object all) else find (steps.map PathStep.text) := by
  have hvalues : values (steps.map fun s => .ok s.value) = .ok (steps.map PathStep.value) := by
    rw [← values_map_ok, List.map_map]
    rfl
  have hsegments : f.segments (steps.map fun s => .ok s.value) = .ok (steps.map PathStep.text) := by
    rw [segments, hvalues]
    exact f.mapM_segmentArg steps
  rw [access, hsegments]
  cases steps <;> rfl

end Function

/-- Looking up composes and its error is stable, in the inputs and in the recorded outputs. What is
found after a path is what the rest of the path leads to from there; otherwise the error names the
shortest beginning of the whole path that leads nowhere, and a path that leads nowhere does so with
the same error however it goes on. The two functions of the language look up the same paths, with
keys and integers for segments; without any they give the whole map. -/
theorem Context.lookups_compose (ctx : Context) :
    Composes "vars" ctx.vars ctx.var ∧ Composes "state" ctx.state ctx.output
      ∧ ∀ steps : List PathStep,
        Function.call "vars" ctx (steps.map fun s => .ok s.value)
          = (if steps = [] then .ok (.object ctx.vars) else ctx.var (steps.map PathStep.text))
        ∧ Function.call "state" ctx (steps.map fun s => .ok s.value)
          = if steps = [] then .ok (.object ctx.state) else ctx.output (steps.map PathStep.text) := by
  refine ⟨composes_lookup "vars" ctx.vars, composes_lookup "state" ctx.state, fun steps => ?_⟩
  constructor
  · rw [← Function.access_steps .vars]
    exact Function.call_name .vars ctx _
  · rw [← Function.access_steps .state]
    exact Function.call_name .state ctx _

/-- An integer names an element of an array, and an index out of range ends the path. -/
example (ctx : Context) (h : ctx.vars = [("xs", .array [.null, .bool true])]) :
    Function.call "vars" ctx [.ok (.string "xs"), .ok (.ofNat 1)] = .ok (.bool true)
      ∧ ctx.var ["xs", "2", "y"] = .error (.missing "vars.xs.2") := by
  obtain ⟨vars, state⟩ := ctx
  cases h
  exact ⟨rfl, rfl⟩

end Playbooks
