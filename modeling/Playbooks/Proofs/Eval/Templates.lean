import Playbooks.Proofs.Eval.Strings

/-!
# Templates

A template is a text with placeholders. Formatting cuts it at them and puts the texts of the
arguments between the pieces. Said without pieces: the first placeholder gives way to the text of
the first argument, and what stands after it is a template for the other arguments.

## Main definitions

* `Text.IsFirst`: the first occurrence of a pattern.
* `Text.Substitutes`: a template with its placeholders replaced one after another.

## Main results

* `Function.fill_eq_some_iff`: joining pieces with the texts of values is filling the template.
* `Function.format_fills_template`: the function of the language.
-/
namespace Playbooks

namespace Text

variable {hole text out : List Char} {args : List (List Char)}

/-- No occurrence of the pattern begins before the one that follows the piece. -/
def IsFirst (pat piece rest : List Char) : Prop :=
  ∀ before after, piece ++ pat ++ rest = before ++ pat ++ after → piece.length ≤ before.length

/-- The first placeholder is replaced by the first text, and what stands after it is filled with the
other texts. What was put in is not searched again, and texts that are left over are not used. -/
inductive Substitutes (hole : List Char) :
    List Char → List (List Char) → List Char → Prop where
  | whole {text : List Char} {args : List (List Char)} (h : ¬ hole <:+: text) :
      Substitutes hole text args text
  | fill {piece rest arg out : List Char} {args : List (List Char)}
      (hfirst : IsFirst hole piece rest) (h : Substitutes hole rest args out) :
      Substitutes hole (piece ++ hole ++ rest) (arg :: args) (piece ++ arg ++ out)

/-- A text has only one first occurrence. -/
theorem IsFirst.unique {piece rest piece' rest' : List Char} (hfirst : IsFirst hole piece rest)
    (hfirst' : IsFirst hole piece' rest') (heq : piece ++ hole ++ rest = piece' ++ hole ++ rest') :
    piece = piece' ∧ rest = rest' := by
  have hle := hfirst piece' rest' heq
  have hge := hfirst' piece rest heq.symm
  have hlength : piece.length = piece'.length := by omega
  simp only [List.append_assoc] at heq
  obtain ⟨hpiece, htail⟩ := List.append_inj heq hlength
  exact ⟨hpiece, List.append_cancel_left htail⟩

/-- A template without placeholders stays as it is. -/
theorem substitutes_iff_of_not_infix (h : ¬ hole <:+: text) :
    Substitutes hole text args out ↔ out = text := by
  constructor
  · intro hfills
    cases hfills with
    | whole _ => rfl
    | fill _ _ => exact absurd (List.infix_append ..) h
  · rintro rfl
    exact .whole h

/-- The first placeholder takes the first text. -/
theorem IsFirst.substitutes_iff {piece rest : List Char} (hfirst : IsFirst hole piece rest) :
    Substitutes hole (piece ++ hole ++ rest) args out ↔
      ∃ arg args' out', args = arg :: args' ∧ Substitutes hole rest args' out'
        ∧ out = piece ++ arg ++ out' := by
  constructor
  · intro hfills
    generalize htext : piece ++ hole ++ rest = text at hfills
    cases hfills with
    | whole hnone => exact absurd (htext ▸ List.infix_append ..) hnone
    | @fill piece' rest' arg out' args' hfirst' hrest =>
      obtain ⟨rfl, rfl⟩ := hfirst.unique hfirst' htext
      exact ⟨arg, args', out', rfl, hrest, rfl⟩
  · rintro ⟨arg, args', out', rfl, hrest, rfl⟩
    exact .fill hfirst hrest

end Text

namespace Function

/-- The texts of values, as they are spliced into strings. -/
def texts (xs : List Value) : List (List Char) :=
  xs.map fun v => v.plainText.toList

variable {hole text out : List Char} {pieces : List (List Char)} {xs : List Value}

/-! ## Filling -/

theorem fill_singleton (piece : List Char) (xs : List Value) : fill [piece] xs = some piece := by
  cases xs <;> rfl

theorem fill_cons_nil (piece : List Char) (h : pieces ≠ []) : fill (piece :: pieces) [] = none := by
  cases pieces with
  | nil => exact absurd rfl h
  | cons next pieces => rfl

theorem fill_cons_cons (piece : List Char) (h : pieces ≠ []) (x : Value) (xs : List Value) :
    fill (piece :: pieces) (x :: xs)
      = (fill pieces xs).map fun rest => piece ++ x.plainText.toList ++ rest := by
  cases pieces with
  | nil => exact absurd rfl h
  | cons next pieces => rfl

theorem ne_nil_of_cuts (h : Text.Cuts hole text pieces) : pieces ≠ [] := by
  cases h <;> simp

/-- Joining the pieces of a template with the texts of values is filling the template. -/
theorem fill_eq_some_iff (h : Text.Cuts hole text pieces) :
    fill pieces xs = some out ↔ Text.Substitutes hole text (texts xs) out := by
  induction h generalizing xs out with
  | whole hnone =>
    rw [fill_singleton, Text.substitutes_iff_of_not_infix hnone, Option.some.injEq, eq_comm]
  | @cut piece rest pieces hfirst hrest ih =>
    have hne := ne_nil_of_cuts hrest
    rw [Text.IsFirst.substitutes_iff hfirst]
    cases xs with
    | nil => simp [fill_cons_nil piece hne, texts]
    | cons x xs =>
      rw [fill_cons_cons piece hne, Option.map_eq_some_iff]
      constructor
      · rintro ⟨out', hout', rfl⟩
        exact ⟨_, _, out', rfl, ih.mp hout', rfl⟩
      · rintro ⟨arg, args, out', hargs, hout', rfl⟩
        obtain ⟨rfl, rfl⟩ := List.cons.inj hargs
        exact ⟨out', ih.mpr hout', rfl⟩

/-- There is a value for each placeholder, or the template is not filled at all. -/
theorem fill_eq_none_iff {first : List Char} :
    fill (first :: pieces) xs = none ↔ xs.length < pieces.length := by
  induction pieces generalizing first xs with
  | nil => simp [fill_singleton]
  | cons next pieces ih =>
    cases xs with
    | nil => simp [fill_cons_nil]
    | cons x xs => simp [fill_cons_cons, ih]

/-- Values of one text fill a template as a separator joins its pieces. -/
theorem fill_eq_join {w : List Char} (hw : ∀ x ∈ xs, x.plainText.toList = w)
    (h : fill pieces xs = some out) : out = Text.join w pieces := by
  induction pieces generalizing xs out with
  | nil =>
    cases h
    rfl
  | cons piece pieces ih =>
    by_cases hne : pieces = []
    · subst hne
      rw [fill_singleton] at h
      exact (Option.some.inj h).symm
    · cases xs with
      | nil =>
        rw [fill_cons_nil piece hne] at h
        cases h
      | cons x xs =>
        rw [fill_cons_cons piece hne] at h
        obtain ⟨out', hout', rfl⟩ := Option.map_eq_some_iff.mp h
        rw [Text.join_cons w piece hne, ih (fun y hy => hw y (List.mem_cons_of_mem x hy)) hout',
          hw x List.mem_cons_self]

/-! ## The function -/

/-- The mark that stands for an argument. -/
def placeholder : String := "\x7b\x7d"

theorem toList_placeholder : placeholder.toList = ['\x7b', '\x7d'] := by
  decide

/-- The arguments of `format`: a template and values. -/
def formatArguments (template : String) (xs : List Value) : List Arg :=
  textArgument template :: xs.map .ok

theorem values_formatArguments (template : String) (xs : List Value) :
    values (formatArguments template xs) = .ok (.string template :: xs) :=
  values_map_ok (.string template :: xs)

theorem call_format_of_some (ctx : Context) {template : String} {filled : List Char}
    (h : fill (Text.split placeholder.toList template.toList) xs = some filled) :
    call "format" ctx (formatArguments template xs) = .ok (textValue filled) := by
  rw [toList_placeholder] at h
  refine (call_name .format ctx _).trans ?_
  rw [apply, values_formatArguments]
  simp only [textArg, bind, Except.bind, h]
  rfl

theorem call_format_of_none (ctx : Context) {template : String}
    (h : fill (Text.split placeholder.toList template.toList) xs = none) :
    call "format" ctx (formatArguments template xs)
      = .error (.arity "format" "one per placeholder" 0) := by
  rw [toList_placeholder] at h
  refine (call_name .format ctx _).trans ?_
  rw [apply, values_formatArguments]
  simp only [textArg, bind, Except.bind, h]
  rfl

/-- Formatting fills the placeholders of a template from the left, each with the text of its own
argument. It succeeds exactly if there is an argument for each placeholder; surplus arguments do not
matter. With too few arguments it is an error of arity, whatever could have been filled. Arguments
of one text are put in as if this text replaced the placeholders. -/
theorem format_fills_template (ctx : Context) (template : String) (xs : List Value) :
    ∃ first others, Text.Cuts placeholder.toList template.toList (first :: others)
      ∧ (∀ v, call "format" ctx (formatArguments template xs) = .ok v ↔
          ∃ out, v = .string out
            ∧ Text.Substitutes placeholder.toList template.toList (texts xs) out.toList)
      ∧ ((∃ v, call "format" ctx (formatArguments template xs) = .ok v) ↔
          others.length ≤ xs.length)
      ∧ (call "format" ctx (formatArguments template xs)
            = .error (.arity "format" "one per placeholder" 0) ↔
          xs.length < others.length)
      ∧ ∀ w, others.length ≤ xs.length → (∀ x ∈ xs, x.plainText = w) →
          call "format" ctx (formatArguments template xs)
            = call "replace" ctx
                [textArgument template, textArgument placeholder, textArgument w] := by
  have hcuts := Text.cuts_split (show placeholder.toList ≠ [] by decide) template.toList
  obtain ⟨first, others, hpieces⟩ := List.exists_cons_of_ne_nil (ne_nil_of_cuts hcuts)
  rw [hpieces] at hcuts
  refine ⟨first, others, hcuts, ?_⟩
  rcases hfill : fill (first :: others) xs with _ | filled
  · have hfew := fill_eq_none_iff.mp hfill
    rw [call_format_of_none ctx (hpieces ▸ hfill)]
    refine ⟨fun v => ?_, ?_, ?_, fun w henough _ => ?_⟩
    · refine iff_of_false (fun h => by cases h) ?_
      rintro ⟨out, -, hout⟩
      rw [← fill_eq_some_iff hcuts, hfill] at hout
      cases hout
    · refine iff_of_false ?_ (Nat.not_le.mpr hfew)
      rintro ⟨v, hv⟩
      cases hv
    · exact iff_of_true rfl hfew
    · exact absurd hfew (Nat.not_lt.mpr henough)
  · have henough : ¬ xs.length < others.length := by
      rw [← fill_eq_none_iff, hfill]
      exact Option.some_ne_none filled
    rw [call_format_of_some ctx (hpieces ▸ hfill)]
    refine ⟨fun v => ?_, ?_, ?_, fun w _ hw => ?_⟩
    · have hout (out : String) :
          Text.Substitutes placeholder.toList template.toList (texts xs) out.toList ↔
            filled = out.toList := by
        rw [← fill_eq_some_iff hcuts, hfill, Option.some.injEq]
      simp only [hout]
      constructor
      · rintro ⟨⟩
        exact ⟨_, rfl, String.toList_ofList.symm⟩
      · rintro ⟨out, rfl, rfl⟩
        rw [textValue, String.ofList_toList]
    · exact iff_of_true ⟨_, rfl⟩ (Nat.not_lt.mp henough)
    · exact iff_of_false (fun h => by cases h) henough
    · have hplain : ∀ x ∈ xs, x.plainText.toList = w.toList := fun x hx => by rw [hw x hx]
      rw [call_replace, Text.replace_eq_join, hpieces, fill_eq_join hplain hfill]

end Function

end Playbooks
