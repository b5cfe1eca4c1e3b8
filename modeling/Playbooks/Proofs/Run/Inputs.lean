import Playbooks.Proofs.Program.Attributes
import Playbooks.Run.Arguments

/-!
# Inputs of a run

An input of a playbook comes from its command line: the last `--var` that names it, or else the file
of inputs. An input that is given in neither place has its declared default. A run starts if every
declared input has a value of its type, or has none and needs none; otherwise the error is about the
first declared input, in the order of names, for which this is not so.

## Main definitions

* `Playbook.inputValue`: the value of an input by precedence.
* `Accepts`: what a declaration asks of the value of an input.
* `Refuses`: the error for an input that is not accepted.

## Main results

* `settleInputs_spec`: how declared inputs are settled over inputs that are given.
* `Playbook.context_follows_precedence`: the context in which a run starts.
-/
namespace Playbooks

/-! ## Inputs of the command line -/

/-- The name in a `--var`: what stands before the first `=`. -/
def varName (var : String) : String :=
  String.ofList (var.toList.takeWhile (· ≠ '='))

/-- The value in a `--var`: what stands after the first `=` is read as JSON, and is a string if it is
not JSON. -/
def varValue (var : String) : Value :=
  let text := (var.toList.dropWhile (· ≠ '=')).drop 1
  (Value.read? text).getD (.string (String.ofList text))

/-- The value of the last `--var` with a name. -/
def lastVar? (vars : List String) (name : String) : Option Value :=
  (vars.reverse.find? (varName · = name)).map varValue

theorem Text.cut?_of_mem {c : Char} {cs : List Char} (h : c ∈ cs) :
    cut? c cs = some (cs.takeWhile (· ≠ c), (cs.dropWhile (· ≠ c)).drop 1) := by
  induction cs with
  | nil => cases h
  | cons d cs ih =>
    by_cases hd : d = c
    · simp [cut?, hd]
    · have hrest : c ∈ cs := by simpa [Ne.symm hd] using h
      simp [cut?, hd, ih hrest]

namespace RunArguments

theorem addVars_cons {var : String} (h : '=' ∈ var.toList) (inputs : Members)
    (vars : List String) :
    addVars inputs (var :: vars) = addVars (inputs.insert (varName var) (varValue var)) vars := by
  rw [addVars, Text.cut?_of_mem h]
  rfl

/-- The last `--var` with a name counts, and all of them before what was there. -/
theorem exists_addVars {vars : List String} (h : ∀ var ∈ vars, '=' ∈ var.toList)
    (inputs : Members) :
    ∃ result, addVars inputs vars = .ok result
      ∧ ∀ k, result.get? k = (lastVar? vars k).or (inputs.get? k) := by
  induction vars generalizing inputs with
  | nil => exact ⟨inputs, rfl, fun k => rfl⟩
  | cons var vars ih =>
    obtain ⟨hvar, hvars⟩ := List.forall_mem_cons.mp h
    obtain ⟨result, hresult, hget⟩ := ih hvars (inputs.insert (varName var) (varValue var))
    refine ⟨result, by rw [addVars_cons hvar, hresult], fun k => ?_⟩
    rw [hget, Members.get?_insert, lastVar?, lastVar?, List.reverse_cons, List.find?_append]
    by_cases hk : varName var = k
    · cases vars.reverse.find? (varName · = k) <;> simp [hk]
    · simp [hk, Ne.symm hk]

/-- The file of inputs holds an object, or there is none. -/
def FileHolds (a : RunArguments) (files : Files) : Option Members → Prop
  | none => a.varsFile = none
  | some members => ∃ path text, a.varsFile = some path ∧ files.read path = .ok text
      ∧ Value.read? text.toList = some (.object members)

/-- The value that a command line gives to an input: a `--var` overrides the file. -/
def given? (a : RunArguments) (file : Option Members) (k : String) : Option Value :=
  (lastVar? a.vars k).or (file.bind (Members.get? k))

theorem exists_inputs {a : RunArguments} {files : Files} {file : Option Members}
    (hfile : a.FileHolds files file) (hvars : ∀ var ∈ a.vars, '=' ∈ var.toList) :
    ∃ inputs, a.inputs files = .ok inputs ∧ ∀ k, inputs.get? k = a.given? file k := by
  cases file with
  | none =>
    obtain ⟨inputs, hadd, hget⟩ := exists_addVars hvars []
    refine ⟨inputs, ?_, hget⟩
    rw [RunArguments.inputs, show a.varsFile = none from hfile]
    exact hadd
  | some members =>
    obtain ⟨path, text, hpath, hread, hvalue⟩ := hfile
    obtain ⟨inputs, hadd, hget⟩ := exists_addVars hvars members
    refine ⟨inputs, ?_, hget⟩
    have hstart : readFile files path = .ok members := by rw [readFile, hread]; simp only [hvalue]
    rw [RunArguments.inputs, hpath]
    simp only [hstart]
    exact hadd

end RunArguments

/-! ## Declared inputs -/

/-- The values of a declared type. A type with any other name has all values. -/
def OfType (v : Value) : (type : String) → Prop
  | "string" => ∃ s, v = .string s
  | "number" => ∃ n, v = .number n
  | "integer" => ∃ i, v = .number (.integer i)
  | "bool" | "boolean" => ∃ b, v = .bool b
  | "array" => ∃ items, v = .array items
  | "object" => ∃ members, v = .object members
  | _ => True

theorem hasType_iff {v : Value} {type : String} : hasType v type = true ↔ OfType v type := by
  unfold OfType
  split
  case h_8 =>
    have hunknown : type ∉ knownTypes := by simp_all [knownTypes]
    cases v with
    | number n => cases n <;> simp [hasType, hasType.accepts, hunknown]
    | _ => simp [hasType, hasType.accepts, hunknown]
  all_goals
    cases v with
    | number n => cases n <;> simp [hasType, hasType.accepts, knownTypes]
    | _ => simp [hasType, hasType.accepts, knownTypes]

/-- A declaration accepts a value of the type it names, if it names one, and accepts that there is no
value unless it says that one is required. -/
def Accepts (input : Value) : Option Value → Prop
  | some v => ∀ type, input.get? "type" = some (.string type) → OfType v type
  | none => input.get? "required" ≠ some (.bool true)

/-- The error for an input whose declaration does not accept the value it has or has not. -/
inductive Refuses (name : String) (input : Value) : Option Value → RunError → Prop where
  | missing (h : input.get? "required" = some (.bool true)) :
      Refuses name input none (.missingInput name)
  | wrongType {v : Value} {type : String} (h : input.get? "type" = some (.string type))
      (hv : ¬ OfType v type) : Refuses name input (some v) (.inputType name type v)

theorem Refuses.not_accepts {name : String} {input : Value} {v? : Option Value} {e : RunError}
    (h : Refuses name input v? e) : ¬ Accepts input v? := by
  cases h with
  | missing h => exact fun haccepts => haccepts h
  | wrongType h hv => exact fun haccepts => hv (haccepts _ h)

/-! ## Settling inputs -/

section Settling

variable {vars : Members} {name : String} {input v : Value}

/-- An input that has a value is only checked. -/
theorem settleInput_of_get? (h : vars.get? name = some v) :
    (Accepts input (some v) ∧ settleInput vars name input = .ok vars)
      ∨ ∃ e, Refuses name input (some v) e ∧ settleInput vars name input = .error e := by
  by_cases hnamed : ∃ type, input.get? "type" = some (.string type)
  · obtain ⟨type, htype⟩ := hnamed
    have hcheck : settleInput vars name input
        = if hasType v type then .ok vars else .error (.inputType name type v) := by
      simp only [settleInput, h, htype, pure_bind]
      rfl
    rw [hcheck]
    by_cases hv : OfType v type
    · refine Or.inl ⟨fun other hother => ?_, by rw [if_pos (hasType_iff.mpr hv)]⟩
      rw [htype] at hother
      cases hother
      exact hv
    · refine Or.inr ⟨_, .wrongType htype hv, ?_⟩
      rw [if_neg (mt hasType_iff.mp hv)]
  · -- A type that is no name of one is not looked at.
    refine Or.inl ⟨fun type htype => absurd ⟨type, htype⟩ hnamed, ?_⟩
    simp only [settleInput, h, pure_bind]
    split
    · next htype _ => exact absurd ⟨_, htype⟩ hnamed
    · rfl

/-- A default is settled like a value that was given. -/
theorem settleInput_of_default (h : vars.get? name = none) (hdefault : input.get? "default" = some v) :
    settleInput vars name input = settleInput (vars.insert name v) name input := by
  have hinserted : (vars.insert name v).get? name = some v := by rw [Members.get?_insert, if_pos rfl]
  simp only [settleInput, h, hdefault, hinserted]

/-- An input without a value and without a default is passed over unless it is required. -/
theorem settleInput_of_absent (h : vars.get? name = none) (hdefault : input.get? "default" = none) :
    (Accepts input none ∧ settleInput vars name input = .ok vars)
      ∨ ∃ e, Refuses name input none e ∧ settleInput vars name input = .error e := by
  by_cases hrequired : input.get? "required" = some (.bool true)
  · refine Or.inr ⟨_, .missing hrequired, ?_⟩
    simp only [settleInput, h, hdefault, hrequired]
    rfl
  · refine Or.inl ⟨hrequired, ?_⟩
    simp only [settleInput, h, hdefault, pure_bind]
    split
    · next heq => cases heq
    · rfl

/-- One declared input: its value is what it was given or its default, and no other input changes. -/
theorem settleInput_spec (vars : Members) (name : String) (input : Value) :
    (Accepts input ((vars.get? name).or (input.get? "default"))
      ∧ ∃ vars', settleInput vars name input = .ok vars'
        ∧ ∀ k, vars'.get? k
          = (vars.get? k).or (if k = name then input.get? "default" else none))
    ∨ ∃ e, Refuses name input ((vars.get? name).or (input.get? "default")) e
      ∧ settleInput vars name input = .error e := by
  cases hgiven : vars.get? name with
  | some v =>
    refine (settleInput_of_get? hgiven).imp_left fun ⟨haccepts, hok⟩ => ⟨haccepts, vars, hok, ?_⟩
    intro k
    by_cases hk : k = name
    · rw [hk, hgiven]; rfl
    · simp [hk]
  | none =>
    cases hdefault : input.get? "default" with
    | some d =>
      have hinserted : (vars.insert name d).get? name = some d := by
        rw [Members.get?_insert, if_pos rfl]
      rw [settleInput_of_default hgiven hdefault]
      refine (settleInput_of_get? hinserted).imp_left fun ⟨haccepts, hok⟩ => ⟨haccepts, _, hok, ?_⟩
      intro k
      rw [Members.get?_insert]
      by_cases hk : k = name
      · simp [hk, hgiven]
      · simp [hk]
    | none =>
      refine (settleInput_of_absent hgiven hdefault).imp_left
        fun ⟨haccepts, hok⟩ => ⟨haccepts, vars, hok, ?_⟩
      intro k
      simp

/-- An input with an accepted value, or with none and no default, is left as it is. -/
theorem settleInput_of_settled (haccepts : Accepts input (vars.get? name))
    (hdefault : vars.get? name = none → input.get? "default" = none) :
    settleInput vars name input = .ok vars := by
  cases hgiven : vars.get? name with
  | some v =>
    rw [hgiven] at haccepts
    exact ((settleInput_of_get? hgiven).resolve_right
      fun ⟨_, hrefuses, _⟩ => hrefuses.not_accepts haccepts).2
  | none =>
    rw [hgiven] at haccepts
    exact ((settleInput_of_absent hgiven (hdefault hgiven)).resolve_right
      fun ⟨_, hrefuses, _⟩ => hrefuses.not_accepts haccepts).2

end Settling

/-- The value of an input: what it was given, or else its declared default. -/
def orDefault (given? : String → Option Value) (inputs : Members) (k : String) : Option Value :=
  (given? k).or ((inputs.get? k).bind (Value.get? "default"))

theorem Members.get?_cons (m : String × Value) (rest : Members) (k : String) :
    get? k (m :: rest) = if k = m.1 then some m.2 else get? k rest := by
  obtain ⟨j, v⟩ := m
  by_cases hk : k = j
  · simp [get?, hk]
  · simp [get?, List.lookup_cons, hk, beq_eq_false_iff_ne.mpr hk]

theorem Members.get?_of_mem {members : Members} (h : members.Ordered) {m : String × Value}
    (hm : m ∈ members) : members.get? m.1 = some m.2 := by
  induction members with
  | nil => cases hm
  | cons first rest ih =>
    obtain ⟨hfirst, hrest⟩ := List.pairwise_cons.mp h
    rcases List.mem_cons.mp hm with rfl | hm
    · rw [get?_cons, if_pos rfl]
    · rw [get?_cons, if_neg (ne_of_gt (hfirst m hm)), ih hrest hm]

/-- Settling the first declared input leaves the values of all inputs what they are. -/
theorem orDefault_settled {vars vars' rest : Members} {name : String} {input : Value}
    (hfirst : ∀ m ∈ rest, name < m.1)
    (hget : ∀ k, vars'.get? k = (vars.get? k).or (if k = name then input.get? "default" else none)) :
    orDefault (Members.get? · vars') rest = orDefault (Members.get? · vars) ((name, input) :: rest) := by
  funext k
  have habsent : Members.get? name rest = none := by
    rw [Members.get?, List.lookup_eq_none_iff]
    intro m hm
    exact bne_iff_ne.mpr (ne_of_lt (hfirst m hm))
  rw [orDefault, orDefault, hget, Members.get?_cons]
  by_cases hk : k = name
  · simp [hk, habsent]
  · simp [hk]

/-- All declared inputs: each has what it was given or its default, and either all are accepted or
settling stops at the first that is not. -/
theorem settleInputs_spec {inputs : Members} (hordered : inputs.Ordered) (vars : Members) :
    let value := orDefault (Members.get? · vars) inputs
    (∃ vars', settleInputs vars inputs = .ok vars' ∧ (∀ k, vars'.get? k = value k)
      ∧ ∀ m ∈ inputs, Accepts m.2 (value m.1))
    ∨ ∃ front m back e, inputs = front ++ m :: back ∧ settleInputs vars inputs = .error e
      ∧ Refuses m.1 m.2 (value m.1) e ∧ ∀ m' ∈ front, Accepts m'.2 (value m'.1) := by
  intro value
  induction inputs generalizing vars with
  | nil => exact Or.inl ⟨vars, rfl, fun k => by simp [value, orDefault, Members.get?], by simp⟩
  | cons first rest ih =>
    obtain ⟨name, input⟩ := first
    obtain ⟨hfirst, hrest⟩ := List.pairwise_cons.mp hordered
    have hvalue : value name = (vars.get? name).or (input.get? "default") := by
      simp [value, orDefault, Members.get?_cons]
    rcases settleInput_spec vars name input with ⟨haccepts, vars₁, hok, hget⟩ | ⟨e, hrefuses, herror⟩
    · have hsame := orDefault_settled hfirst hget
      have hstep : settleInputs vars ((name, input) :: rest) = settleInputs vars₁ rest := by
        rw [settleInputs, hok]
        rfl
      rw [← hvalue] at haccepts
      rw [hstep]
      rcases ih hrest vars₁ with ⟨vars', hvars', hget', hall⟩ | ⟨front, m, back, e, rfl, he, hm, hfront⟩
      · rw [hsame] at hget' hall
        exact Or.inl ⟨vars', hvars', hget', List.forall_mem_cons.mpr ⟨haccepts, hall⟩⟩
      · rw [hsame] at hm hfront
        exact Or.inr ⟨_ :: front, m, back, e, rfl, he, hm, List.forall_mem_cons.mpr ⟨haccepts, hfront⟩⟩
    · rw [← hvalue] at hrefuses
      refine Or.inr ⟨[], (name, input), rest, e, rfl, ?_, hrefuses, by simp⟩
      rw [settleInputs, herror]
      rfl

theorem settleInputs_of_settled {vars inputs : Members}
    (h : ∀ m ∈ inputs, Accepts m.2 (vars.get? m.1)
      ∧ (vars.get? m.1 = none → m.2.get? "default" = none)) :
    settleInputs vars inputs = .ok vars := by
  induction inputs with
  | nil => rfl
  | cons first rest ih =>
    obtain ⟨⟨haccepts, hdefault⟩, hrest⟩ := List.forall_mem_cons.mp h
    rw [settleInputs, settleInput_of_settled haccepts hdefault]
    exact ih hrest

/-- Inputs that were settled and accepted stay as they are when they are settled once more. -/
theorem settleInputs_again {vars inputs : Members} {given : String → Option Value}
    (hordered : inputs.Ordered) (hget : ∀ k, vars.get? k = orDefault given inputs k)
    (haccepts : ∀ m ∈ inputs, Accepts m.2 (orDefault given inputs m.1)) :
    settleInputs vars inputs = .ok vars := by
  refine settleInputs_of_settled fun m hm => ⟨hget m.1 ▸ haccepts m hm, fun hnone => ?_⟩
  rw [hget, orDefault, Members.get?_of_mem hordered hm] at hnone
  exact (Option.or_eq_none_iff.mp hnone).2

/-- The names in front of a member are the smaller ones. -/
theorem Members.Ordered.le_of_notMem {front back : Members} {m m' : String × Value}
    (h : Members.Ordered (front ++ m :: back)) (hm' : m' ∈ front ++ m :: back) (hfront : m' ∉ front) :
    m.1 ≤ m'.1 := by
  rcases List.mem_append.mp hm' with hm' | hm'
  · exact absurd hm' hfront
  · rcases List.mem_cons.mp hm' with rfl | hm'
    · exact le_refl _
    · exact le_of_lt ((List.pairwise_cons.mp (List.pairwise_append.mp h).2.1).1 m' hm')

namespace Playbook

variable {World : Type}

/-- The value of an input: the last `--var` that names it, or else what the file of inputs holds, or
else the declared default. -/
def inputValue (p : Playbook World) (a : RunArguments) (file : Option Members) :
    String → Option Value :=
  orDefault (a.given? file) p.inputs

/-- The context in which a run starts holds every input by precedence, and nothing else. There is one
if and only if every declared input is accepted; otherwise the error is about the least name whose
input is not. Settling the inputs of a context once more changes nothing. The declared inputs are in
the order of their names, as the members of an object are. -/
theorem context_follows_precedence (p : Playbook World) (a : RunArguments) (files : Files)
    (file : Option Members) (hfile : a.FileHolds files file)
    (hvars : ∀ var ∈ a.vars, '=' ∈ var.toList) (hordered : p.inputs.Ordered) :
    let start : Except RunError Context := do p.context (← a.inputs files)
    let value := p.inputValue a file
    (∀ context, start = .ok context →
      (∀ k, context.vars.get? k = value k) ∧ context.state = []
        ∧ p.context context.vars = .ok context)
    ∧ ((∃ context, start = .ok context) ↔ ∀ k input, (k, input) ∈ p.inputs → Accepts input (value k))
    ∧ ∀ e, start = .error e →
      ∃ k input, (k, input) ∈ p.inputs ∧ Refuses k input (value k) e ∧ ¬ Accepts input (value k)
        ∧ ∀ k' input', (k', input') ∈ p.inputs → ¬ Accepts input' (value k') → k ≤ k' := by
  intro start value
  obtain ⟨inputs, hinputs, hget⟩ := RunArguments.exists_inputs hfile hvars
  have hvalue : orDefault (Members.get? · inputs) p.inputs = value := by
    rw [funext hget]
    rfl
  have hstart : start = (settleInputs inputs p.inputs).map fun vars => { vars } := by
    simp only [start, hinputs]
    rfl
  have hspec := settleInputs_spec hordered inputs
  simp only [hvalue] at hspec
  rcases hspec with ⟨vars, hok, hvars, haccepts⟩ | ⟨front, m, back, e, hsplit, herror, hrefuses, hfront⟩
  · rw [hok] at hstart
    have hagain : p.context vars = .ok { vars } := by
      rw [Playbook.context, settleInputs_again hordered hvars haccepts]
      rfl
    refine ⟨?_, iff_of_true ⟨_, hstart⟩ fun k input hm => haccepts (k, input) hm, ?_⟩
    · intro context hcontext
      rw [hstart] at hcontext
      cases hcontext
      exact ⟨hvars, rfl, hagain⟩
    · intro e he
      rw [hstart] at he
      cases he
  · rw [herror] at hstart
    have hm : (m.1, m.2) ∈ p.inputs := by simp [hsplit]
    refine ⟨?_, iff_of_false ?_ fun hall => hrefuses.not_accepts (hall m.1 m.2 hm), ?_⟩
    · intro context hcontext
      rw [hstart] at hcontext
      cases hcontext
    · rintro ⟨context, hcontext⟩
      rw [hstart] at hcontext
      cases hcontext
    · intro e' he'
      rw [hstart] at he'
      cases he'
      refine ⟨m.1, m.2, hm, hrefuses, hrefuses.not_accepts, fun k' input' hm' hnot => ?_⟩
      rw [hsplit] at hm' hordered
      exact hordered.le_of_notMem hm' fun hbefore => hnot (hfront (k', input') hbefore)

end Playbook

/-- A playbook that needs a token and has a default for the environment. -/
def deployPlaybook : Playbook Console where
  attributes := .object [("inputs", .object [
    ("env", .object [("default", .string "dev"), ("type", .string "string")]),
    ("region", .object [("default", .string "north")]),
    ("token", .object [("required", .bool true), ("type", .string "string")])])]
  jobs := []

/-- A file with two of its inputs. -/
def deployFiles : Files where
  entries := [(["vars.json"], .text "\x7b\"env\": \"test\", \"token\": \"t\"\x7d")]

/-- The last `--var` overrides the first one and the file, and an input that is nowhere given has its
default. -/
theorem context_follows_precedence_deploy :
    let a : RunArguments := { vars := ["env=stage", "env=prod"], varsFile := some "vars.json" }
    ∃ context, (do deployPlaybook.context (← a.inputs deployFiles)) = .ok context
      ∧ context.vars.get? "env" = some (.string "prod")
      ∧ context.vars.get? "region" = some (.string "north")
      ∧ context.vars.get? "token" = some (.string "t")
      ∧ deployPlaybook.context context.vars = .ok context := by
  intro a
  have hread : deployFiles.read "vars.json" = .ok _ := rfl
  have hfile : a.FileHolds deployFiles (some [("env", .string "test"), ("token", .string "t")]) :=
    ⟨"vars.json", _, rfl, hread, rfl⟩
  have hordered : deployPlaybook.inputs.Ordered := by
    simp only [Members.Ordered]
    decide +kernel
  obtain ⟨hvalues, hstarts, -⟩ := deployPlaybook.context_follows_precedence a deployFiles _ hfile
    (by decide) hordered
  obtain ⟨context, hcontext⟩ := hstarts.mpr fun k input hm => by
    simp only [Playbook.inputs, deployPlaybook, Value.get?, Members.get?, List.lookup_cons_self,
      List.mem_cons, Prod.mk.injEq, List.not_mem_nil, or_false] at hm
    rcases hm with ⟨rfl, rfl⟩ | ⟨rfl, rfl⟩ | ⟨rfl, rfl⟩
    · rintro type ⟨⟩
      exact ⟨"prod", rfl⟩
    · rintro type ⟨⟩
    · rintro type ⟨⟩
      exact ⟨"t", rfl⟩
  obtain ⟨hget, -, hagain⟩ := hvalues context hcontext
  exact ⟨context, hcontext, (hget "env").trans rfl, (hget "region").trans rfl,
    (hget "token").trans rfl, hagain⟩

end Playbooks
