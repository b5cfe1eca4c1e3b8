import Playbooks.Proofs.Eval.Failures

/-!
# Cutting and joining strings

Splitting, replacing and searching go through a text by themselves, each with its own scan. They
find the same occurrences of a pattern, since each scan does one of three things: it ends with the
text, goes on after an occurrence, or goes on after a character at which no occurrence begins.

## Main definitions

* `Text.Cuts`: the pieces of a text between the occurrences of a separator, from the left and
  without overlaps.

## Main results

* `Text.scan_induction`: what holds in the three cases of a scan holds of every text.
* `Text.cuts_split`, `Text.replace_eq_join`, `Text.occursIn_eq`: the three scans.
* `Function.string_functions_agree`: the functions of the language on strings.
-/
namespace Playbooks

namespace Text

variable {pat sep cs : List Char} {c : Char}

/-! ## One step of each scan -/

theorem piecesFrom_eq_drop (sep : List Char) (skip : Nat) (cs : List Char) :
    piecesFrom sep skip cs = piecesFrom sep 0 (cs.drop skip) := by
  induction cs generalizing skip with
  | nil => simp [piecesFrom]
  | cons c cs ih =>
    cases skip with
    | zero => rfl
    | succ skip => simp [piecesFrom, ih skip]

theorem replaceFrom_eq_drop (pat new : List Char) (skip : Nat) (cs : List Char) :
    replaceFrom pat new skip cs = replaceFrom pat new 0 (cs.drop skip) := by
  induction cs generalizing skip with
  | nil => simp [replaceFrom]
  | cons c cs ih =>
    cases skip with
    | zero => rfl
    | succ skip => simp [replaceFrom, ih skip]

theorem split_of_ne_nil (h : sep ≠ []) (cs : List Char) : split sep cs = piecesFrom sep 0 cs := by
  cases sep with
  | nil => exact absurd rfl h
  | cons x sep => rfl

theorem replace_of_ne_nil (h : pat ≠ []) (new cs : List Char) :
    replace pat new cs = replaceFrom pat new 0 cs := by
  cases pat with
  | nil => exact absurd rfl h
  | cons x pat => rfl

theorem ne_nil_of_not_prefix (h : ¬ sep <+: cs) : sep ≠ [] := by
  rintro rfl
  exact h List.nil_prefix

theorem split_nil (h : sep ≠ []) : split sep [] = [[]] := by
  rw [split_of_ne_nil h, piecesFrom]

/-- An occurrence ends a piece. -/
theorem split_append (h : sep ≠ []) (rest : List Char) :
    split sep (sep ++ rest) = [] :: split sep rest := by
  rw [split_of_ne_nil h, split_of_ne_nil h]
  cases sep with
  | nil => exact absurd rfl h
  | cons x sep =>
    rw [List.cons_append, piecesFrom, if_pos (by simp), piecesFrom_eq_drop]
    simp

theorem split_cons (h : ¬ sep <+: c :: cs) :
    split sep (c :: cs) = pushFront c (split sep cs) := by
  have hne := ne_nil_of_not_prefix h
  rw [split_of_ne_nil hne, split_of_ne_nil hne, piecesFrom, if_neg (by simpa using h)]

theorem replace_nil (h : pat ≠ []) (new : List Char) : replace pat new [] = [] := by
  rw [replace_of_ne_nil h, replaceFrom]

theorem replace_append (h : pat ≠ []) (new rest : List Char) :
    replace pat new (pat ++ rest) = new ++ replace pat new rest := by
  rw [replace_of_ne_nil h, replace_of_ne_nil h]
  cases pat with
  | nil => exact absurd rfl h
  | cons x pat =>
    rw [List.cons_append, replaceFrom, if_pos (by simp), replaceFrom_eq_drop]
    simp

theorem replace_cons (h : ¬ pat <+: c :: cs) (new : List Char) :
    replace pat new (c :: cs) = c :: replace pat new cs := by
  have hne := ne_nil_of_not_prefix h
  rw [replace_of_ne_nil hne, replace_of_ne_nil hne, replaceFrom, if_neg (by simpa using h)]

/-- A pattern occurs if it stands somewhere in the text. -/
theorem occursIn_iff : occursIn pat cs = true ↔ pat <:+: cs := by
  induction cs with
  | nil => simp [occursIn]
  | cons c cs ih => simp [occursIn, ih, List.infix_cons_iff]

/-- What holds at the end of the text, after an occurrence of the separator, and after a character
at which none begins, holds of every text. -/
@[elab_as_elim]
theorem scan_induction {motive : List Char → Prop} (hsep : sep ≠ []) (nil : motive [])
    (found : ∀ rest, motive rest → motive (sep ++ rest))
    (cons : ∀ c cs, ¬ sep <+: c :: cs → motive cs → motive (c :: cs)) (cs : List Char) :
    motive cs := by
  -- An occurrence takes away more than one character at once, so the length is what goes down.
  induction hn : cs.length using Nat.strongRecOn generalizing cs with
  | ind n ih =>
    subst hn
    cases cs with
    | nil => exact nil
    | cons c cs =>
      by_cases h : sep <+: c :: cs
      · obtain ⟨rest, hrest⟩ := h
        rw [← hrest]
        have hpos : 0 < sep.length := List.length_pos_iff.mpr hsep
        refine found rest (ih rest.length ?_ rest rfl)
        rw [← hrest, List.length_append]
        omega
      · exact cons c cs h (ih cs.length (Nat.lt_succ_self _) cs rfl)

/-! ## Pieces -/

theorem pushFront_ne_nil (c : Char) (pieces : List (List Char)) : pushFront c pieces ≠ [] := by
  cases pieces <;> simp [pushFront]

theorem length_pushFront {pieces : List (List Char)} (h : pieces ≠ []) (c : Char) :
    (pushFront c pieces).length = pieces.length := by
  cases pieces with
  | nil => exact absurd rfl h
  | cons piece pieces => rfl

theorem split_ne_nil (sep cs : List Char) : split sep cs ≠ [] := by
  by_cases hsep : sep = []
  · simp [hsep, split]
  · induction cs using scan_induction hsep with
    | nil => simp [split_nil hsep]
    | found rest _ => simp [split_append hsep]
    | cons c cs h _ =>
      rw [split_cons h]
      exact pushFront_ne_nil c _

theorem join_cons (sep piece : List Char) {pieces : List (List Char)} (h : pieces ≠ []) :
    join sep (piece :: pieces) = piece ++ sep ++ join sep pieces := by
  cases pieces with
  | nil => exact absurd rfl h
  | cons next pieces => rfl

theorem join_pushFront (sep : List Char) (c : Char) (pieces : List (List Char)) :
    join sep (pushFront c pieces) = c :: join sep pieces := by
  cases pieces with
  | nil => rfl
  | cons piece pieces =>
    cases pieces with
    | nil => rfl
    | cons next pieces => simp [pushFront, join]

/-- Joining single characters, and the empty piece at the end, puts the separator after each. -/
theorem join_characters (sep cs : List Char) :
    join sep (cs.map ([·]) ++ [[]]) = cs.flatMap fun c => c :: sep := by
  induction cs with
  | nil => rfl
  | cons c cs ih =>
    rw [List.map_cons, List.cons_append, join_cons sep [c] (by simp), ih]
    simp

/-- Replacing a pattern is joining the pieces between its occurrences with something else. -/
theorem replace_eq_join (pat new cs : List Char) :
    replace pat new cs = join new (split pat cs) := by
  by_cases hpat : pat = []
  · subst hpat
    rw [split, List.cons_append, join_cons new [] (by simp), join_characters]
    rfl
  · induction cs using scan_induction hpat with
    | nil => simp [replace_nil hpat, split_nil hpat, join]
    | found rest ih =>
      rw [replace_append hpat, split_append hpat, join_cons new [] (split_ne_nil pat rest), ih]
      rfl
    | cons c cs h ih => rw [replace_cons h, split_cons h, join_pushFront, ih]

theorem replace_self (pat cs : List Char) : replace pat pat cs = cs := by
  by_cases hpat : pat = []
  · subst hpat
    simp [replace]
  · induction cs using scan_induction hpat with
    | nil => exact replace_nil hpat pat
    | found rest ih => rw [replace_append hpat, ih]
    | cons c cs h ih => rw [replace_cons h, ih]

theorem join_split (sep cs : List Char) : join sep (split sep cs) = cs := by
  rw [← replace_eq_join, replace_self]

/-- A pattern occurs exactly if there is a piece before and a piece after an occurrence. -/
theorem occursIn_eq (pat cs : List Char) :
    occursIn pat cs = decide (2 ≤ (split pat cs).length) := by
  rw [Bool.eq_iff_iff, occursIn_iff, decide_eq_true_iff]
  by_cases hpat : pat = []
  · subst hpat
    simp [split]
  · induction cs using scan_induction hpat with
    | nil => simp [split_nil hpat, hpat]
    | found rest _ =>
      have hpos : 0 < (split pat rest).length := List.length_pos_iff.mpr (split_ne_nil pat rest)
      rw [split_append hpat, List.length_cons]
      exact iff_of_true (List.prefix_append pat rest).isInfix (by omega)
    | cons c cs h ih =>
      rw [split_cons h, length_pushFront (split_ne_nil pat cs), ← ih, List.infix_cons_iff]
      simp [h]

/-- The text is cut at the first occurrence of the separator, and what follows is cut likewise. -/
inductive Cuts (sep : List Char) : List Char → List (List Char) → Prop where
  | whole {text : List Char} (h : ¬ sep <:+: text) : Cuts sep text [text]
  | cut {piece rest : List Char} {pieces : List (List Char)}
      (hfirst : ∀ before after, piece ++ sep ++ rest = before ++ sep ++ after →
        piece.length ≤ before.length)
      (h : Cuts sep rest pieces) : Cuts sep (piece ++ sep ++ rest) (piece :: pieces)

/-- A character at which no occurrence begins belongs to the first piece. -/
theorem Cuts.cons {pieces : List (List Char)} (h : ¬ sep <+: c :: cs) (hcuts : Cuts sep cs pieces) :
    Cuts sep (c :: cs) (pushFront c pieces) := by
  cases hcuts with
  | whole hnone =>
    refine .whole ?_
    rw [List.infix_cons_iff]
    simp [h, hnone]
  | @cut piece rest pieces hfirst hrest =>
    refine @Cuts.cut sep (c :: piece) rest pieces ?_ hrest
    intro before after heq
    -- An occurrence further to the left would be at the very beginning, and there is none.
    cases before with
    | nil =>
      refine absurd ?_ h
      simp only [List.cons_append] at heq
      rw [heq]
      exact ⟨after, by simp⟩
    | cons d before =>
      simp only [List.cons_append, List.cons.injEq] at heq
      have hlength := hfirst before after heq.2
      simp only [List.length_cons]
      omega

theorem cuts_split (h : sep ≠ []) (cs : List Char) : Cuts sep cs (split sep cs) := by
  induction cs using scan_induction h with
  | nil =>
    rw [split_nil h]
    exact .whole (by simpa using h)
  | found rest ih =>
    rw [split_append h]
    exact @Cuts.cut sep [] rest _ (by simp) ih
  | cons c cs hcs ih =>
    rw [split_cons hcs]
    exact ih.cons hcs

end Text

/-! ## The functions -/

namespace Function

/-- A string as an argument. -/
def textArgument (s : String) : Arg :=
  .ok (.string s)

theorem call_split (ctx : Context) (s sep : String) :
    call "split" ctx [textArgument s, textArgument sep]
      = .ok (.array ((Text.split sep.toList s.toList).map textValue)) :=
  call_name .split ctx _

theorem call_replace (ctx : Context) (s pat new : String) :
    call "replace" ctx [textArgument s, textArgument pat, textArgument new]
      = .ok (textValue (Text.replace pat.toList new.toList s.toList)) :=
  call_name .replace ctx _

theorem call_contains (ctx : Context) (s pat : String) :
    call "contains" ctx [textArgument s, textArgument pat]
      = .ok (.bool (Text.occursIn pat.toList s.toList)) :=
  call_name .contains ctx _

/-- Texts in an array are joined as they are. -/
theorem call_join (ctx : Context) (pieces : List (List Char)) (sep : String) :
    call "join" ctx [.ok (.array (pieces.map textValue)), textArgument sep]
      = .ok (textValue (Text.join sep.toList pieces)) := by
  have hplain : (pieces.map textValue).map (fun v => v.plainText.toList) = pieces := by
    simp [textValue, Value.plainText, Function.comp_def]
  refine (call_name .join ctx _).trans ?_
  change Except.ok (textValue (Text.join sep.toList _)) = _
  rw [hplain]

/-- The functions on strings agree with one another, for every text and every separator. Splitting
and joining again gives the text; joining with something else gives the text with every separator
replaced; and the separator occurs exactly if there are two pieces at least. The pieces are those
between the occurrences of the separator from the left; an empty separator occurs around every
character. -/
theorem string_functions_agree (ctx : Context) (s sep : String) :
    call "join" ctx [call "split" ctx [textArgument s, textArgument sep], textArgument sep]
        = textArgument s
      ∧ (∀ new, ∃ text, call "replace" ctx [textArgument s, textArgument sep, textArgument new]
          = textArgument text
        ∧ call "join" ctx [call "split" ctx [textArgument s, textArgument sep], textArgument new]
          = textArgument text)
      ∧ ∃ pieces : List String,
        call "split" ctx [textArgument s, textArgument sep] = .ok (.array (pieces.map .string))
          ∧ call "contains" ctx [textArgument s, textArgument sep]
            = .ok (.bool (decide (2 ≤ pieces.length)))
          ∧ (2 ≤ pieces.length ↔ sep.toList <:+: s.toList)
          ∧ (sep ≠ "" → Text.Cuts sep.toList s.toList (pieces.map String.toList))
          ∧ (sep = "" → pieces = "" :: s.toList.map String.singleton ++ [""]) := by
  rw [call_split]
  refine ⟨?_, fun new => ?_, (Text.split sep.toList s.toList).map String.ofList, ?_, ?_, ?_, ?_, ?_⟩
  · rw [call_join, Text.join_split, textValue, String.ofList_toList, textArgument]
  · rw [call_replace, call_join, Text.replace_eq_join]
    exact ⟨_, rfl, rfl⟩
  · rw [List.map_map]
    rfl
  · rw [call_contains, Text.occursIn_eq, List.length_map]
  · rw [List.length_map, ← Text.occursIn_iff, Text.occursIn_eq, decide_eq_true_iff]
  · intro hsep
    have hne : sep.toList ≠ [] := by simpa using hsep
    have hpieces := Text.cuts_split hne s.toList
    simpa [Function.comp_def] using hpieces
  · rintro rfl
    simp [Text.split, Function.comp_def]

end Function

end Playbooks
