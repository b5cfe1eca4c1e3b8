import Playbooks.Proofs.Program.Tokens

/-!
# Comments in program text

Comments of the emitted language nest: an opening inside a comment calls for a closing of its own.
The printer sets apart the closings in the text of a comment, but not the openings. So the comment
ends at the closing that the printer writes exactly if its text opens none. Otherwise that closing
ends an inner comment, and the outer one goes on in the program.

## Main definitions

* `setApart`: a text with a blank in each closing.
* `openings`: how often a text opens a comment.
* `Swallows`: a comment goes on after the closing that was written for it.

## Main results

* `commentTail_setApart`: reading over the text of a comment only counts its openings.
* `lex_commentHead`, `swallows_of_openings`: what becomes of a comment.
* `Term.comment_ends_at_closing_iff`: both for the terms that carry comments.
-/
namespace Playbooks

/-! ## Closings and openings -/

/-- The text with a blank in each closing of a comment. -/
def setApart (cs : List Char) : List Char :=
  Text.replaceFrom ['*', '/'] ['*', ' ', '/'] 0 cs

/-- How often the text opens a comment. -/
def openings (cs : List Char) : Nat :=
  Text.countFrom ['/', '*'] 0 cs

theorem isPrefixOf_pair {a b c : Char} {cs : List Char} :
    [a, b].isPrefixOf (c :: cs) = true ↔ c = a ∧ cs.head? = some b := by
  cases cs with
  | nil => simp [List.isPrefixOf]
  | cons d cs =>
    simp only [List.isPrefixOf, Bool.and_true, Bool.and_eq_true, beq_iff_eq, List.head?_cons,
      Option.some.injEq]
    exact and_congr eq_comm eq_comm

theorem setApart_close (cs : List Char) :
    setApart ('*' :: '/' :: cs) = '*' :: ' ' :: setApart ('/' :: cs) := by
  simp [setApart, Text.replaceFrom]

theorem setApart_cons {c : Char} {cs : List Char} (h : ¬ (c = '*' ∧ cs.head? = some '/')) :
    setApart (c :: cs) = c :: setApart cs := by
  rw [setApart, Text.replaceFrom, if_neg (mt isPrefixOf_pair.mp h)]
  rfl

/-- Setting closings apart does not change how a text starts. -/
theorem head?_setApart (cs : List Char) : (setApart cs).head? = cs.head? := by
  cases cs with
  | nil => rfl
  | cons c cs =>
    by_cases hclose : c = '*' ∧ cs.head? = some '/'
    · obtain ⟨rfl, hslash⟩ := hclose
      obtain ⟨rest, rfl⟩ := List.head?_eq_some_iff.mp hslash
      rw [setApart_close]
      rfl
    · rw [setApart_cons hclose]
      rfl

theorem openings_open (cs : List Char) : openings ('/' :: '*' :: cs) = openings cs + 1 := by
  simp [openings, Text.countFrom]

theorem openings_cons {c : Char} {cs : List Char} (h : ¬ (c = '/' ∧ cs.head? = some '*')) :
    openings (c :: cs) = openings cs := by
  rw [openings, Text.countFrom, if_neg (mt isPrefixOf_pair.mp h)]
  rfl

theorem openings_eq_zero_iff {cs : List Char} :
    openings cs = 0 ↔ Text.occursIn ['/', '*'] cs = false := by
  induction cs with
  | nil => exact iff_of_true rfl rfl
  | cons c cs ih =>
    by_cases hopen : c = '/' ∧ cs.head? = some '*'
    · have hoccurs : Text.occursIn ['/', '*'] (c :: cs) = true := by
        rw [Text.occursIn, isPrefixOf_pair.mpr hopen, Bool.true_or]
      obtain ⟨rfl, hstar⟩ := hopen
      obtain ⟨rest, rfl⟩ := List.head?_eq_some_iff.mp hstar
      simp [openings_open, hoccurs]
    · have hprefix := Bool.eq_false_iff.mpr (mt isPrefixOf_pair.mp hopen)
      rw [openings_cons hopen, ih, Text.occursIn, hprefix, Bool.false_or]

/-! ## Reading over a comment -/

theorem commentTail_cons {c : Char} {cs : List Char} (depth : Nat)
    (hclose : c = '*' → cs.head? ≠ some '/') (hopen : c = '/' → cs.head? ≠ some '*') :
    commentTail depth (c :: cs)
      = (commentTail depth cs).map fun (text, rest) => (c :: text, rest) := by
  rw [commentTail]
  · rintro ds rfl rfl
    exact hopen rfl rfl
  · rintro ds - rfl rfl
    exact hclose rfl rfl
  · rintro n ds - rfl rfl
    exact hclose rfl rfl

theorem commentTail_open (depth : Nat) (cs : List Char) : commentTail depth ('/' :: '*' :: cs)
    = (commentTail (depth + 1) cs).map fun (text, rest) => ('/' :: '*' :: text, rest) := by
  rw [commentTail]

theorem commentTail_space (depth : Nat) (cs : List Char) : commentTail depth (' ' :: cs)
    = (commentTail depth cs).map fun (text, rest) => (' ' :: text, rest) :=
  commentTail_cons depth (by simp) (by simp)

/-- Once its closings are set apart, a text is read over to its end, and each of its openings leaves
one more comment to be closed. -/
theorem commentTail_setApart (depth : Nat) (cs r : List Char) :
    commentTail depth (setApart cs ++ ' ' :: r) = (commentTail (depth + openings cs) (' ' :: r)).map
      fun (text, rest) => (setApart cs ++ text, rest) := by
  induction hlength : cs.length using Nat.strongRecOn generalizing depth cs with
  | ind n ih =>
    cases cs with
    | nil => simp [setApart, openings, Text.replaceFrom, Text.countFrom]
    | cons c cs =>
      rw [List.length_cons] at hlength
      by_cases hclose : c = '*' ∧ cs.head? = some '/'
      · obtain ⟨rfl, hslash⟩ := hclose
        obtain ⟨rest, rfl⟩ := List.head?_eq_some_iff.mp hslash
        have hrest := ih _ (by omega) depth ('/' :: rest) rfl
        rw [setApart_close, openings_cons (by simp), List.cons_append, List.cons_append,
          commentTail_cons depth (by simp) (by simp), commentTail_space, hrest, Option.map_map,
          Option.map_map]
        rfl
      by_cases hopen : c = '/' ∧ cs.head? = some '*'
      · obtain ⟨rfl, hstar⟩ := hopen
        obtain ⟨rest, rfl⟩ := List.head?_eq_some_iff.mp hstar
        have hdepth : depth + (openings rest + 1) = depth + 1 + openings rest := by omega
        rw [List.length_cons] at hlength
        have hrest := ih _ (by omega) (depth + 1) rest rfl
        rw [setApart_cons hclose, openings_open, hdepth]
        -- The star after the slash opens a comment, even if it was the start of a closing.
        by_cases hslash : rest.head? = some '/'
        · obtain ⟨rest, rfl⟩ := List.head?_eq_some_iff.mp hslash
          rw [setApart_close, List.cons_append, List.cons_append, List.cons_append,
            commentTail_open, commentTail_space, hrest, Option.map_map, Option.map_map]
          rfl
        · rw [setApart_cons (fun h => hslash h.2), List.cons_append, List.cons_append,
            commentTail_open, hrest, Option.map_map]
          rfl
      · have hrest := ih _ (by omega) depth cs rfl
        have hhead (x : Char) (hx : x ≠ ' ') (h : (setApart cs ++ ' ' :: r).head? = some x) :
            cs.head? = some x := by
          rw [List.head?_append, head?_setApart] at h
          cases cs with
          | nil => exact absurd (Option.some.inj h).symm hx
          | cons d cs => exact h
        rw [setApart_cons hclose, openings_cons hopen, List.cons_append, commentTail_cons depth
          (fun hc h => hclose ⟨hc, hhead '/' (by decide) h⟩)
          (fun hc h => hopen ⟨hc, hhead '*' (by decide) h⟩), hrest, Option.map_map]
        rfl

/-! ## Comments as tokens -/

theorem slashFrom_of_commentTail {cs text rest : List Char}
    (h : commentTail 0 cs = some (text, rest)) :
    slashFrom ('*' :: cs) = (.comment ('/' :: '*' :: text), rest) := by
  rw [slashFrom, h]

theorem slashFrom_of_none {cs : List Char} (h : commentTail 0 cs = none) :
    slashFrom ('*' :: cs) = (.stray ('/' :: '*' :: cs), []) := by
  rw [slashFrom, h]

theorem lex_slash (cs : List Char) : lex ('/' :: cs) = (slashFrom cs).1 :: lex (slashFrom cs).2 :=
  lex_token cs (by decide)

namespace Term

/-- The comment of a term, from its opening to the closing that is written for it. -/
def commentBlock (comment : String) : List Char :=
  ['/', '*', ' '] ++ commentText comment ++ [' ', '*', '/']

theorem commentHead_eq (comment : String) :
    commentHead comment = commentBlock comment ++ [' '] := by
  simp [commentHead, commentBlock]

theorem commentHead_append (comment : String) (r : List Char) : commentHead comment ++ r
    = '/' :: '*' :: ' ' :: (setApart comment.toList ++ ' ' :: '*' :: '/' :: ' ' :: r) := by
  have htext : commentText comment = setApart comment.toList := rfl
  simp [commentHead, htext]

/-- The comment that is opened inside last is the one that the closing ends. -/
theorem commentTail_commentHead (comment : String) (r : List Char) :
    commentTail 0 (' ' :: (setApart comment.toList ++ ' ' :: '*' :: '/' :: ' ' :: r))
      = (commentTail (openings comment.toList) (' ' :: '*' :: '/' :: ' ' :: r)).map
        fun (text, rest) => (' ' :: setApart comment.toList ++ text, rest) := by
  rw [commentTail_space, commentTail_setApart, Option.map_map, Nat.zero_add]
  rfl

/-- A comment that opens no other one is one token. -/
theorem lex_commentHead {comment : String} (h : Text.occursIn ['/', '*'] comment.toList = false)
    (r : List Char) :
    lex (commentHead comment ++ r) = .comment (commentBlock comment) :: lex r := by
  have htail := commentTail_commentHead comment r
  have hclosing : commentTail 0 (' ' :: '*' :: '/' :: ' ' :: r)
      = some ([' ', '*', '/'], ' ' :: r) := by
    rw [commentTail_space, commentTail]
    rfl
  rw [openings_eq_zero_iff.mpr h, hclosing, Option.map_some] at htail
  rw [commentHead_append, lex_slash, slashFrom_of_commentTail htail, lex_space _ (by decide)]
  rfl

end Term

/-- The token that starts with the head of a comment goes on in the text after it, up to a later
closing or to the end. -/
def Swallows (head r : List Char) : Prop :=
  ∃ text rest, text ++ rest = r
    ∧ (lex (head ++ r) = .comment (head ++ text) :: lex rest
      ∨ rest = [] ∧ lex (head ++ r) = [.stray (head ++ text)])

namespace Term

/-- A comment that opens another one is not ended by its own closing. -/
theorem swallows_of_openings {comment : String}
    (h : Text.occursIn ['/', '*'] comment.toList = true) (r : List Char) :
    Swallows (commentHead comment) r := by
  have htail := commentTail_commentHead comment r
  obtain ⟨depth, hdepth⟩ : ∃ depth, openings comment.toList = depth + 1 := by
    refine Nat.exists_eq_succ_of_ne_zero fun hzero => ?_
    rw [openings_eq_zero_iff.mp hzero] at h
    cases h
  have hclosing : commentTail (depth + 1) (' ' :: '*' :: '/' :: ' ' :: r)
      = (commentTail depth r).map fun (text, rest) => (' ' :: '*' :: '/' :: ' ' :: text, rest) := by
    rw [commentTail_space, commentTail, commentTail_space, Option.map_map, Option.map_map]
    rfl
  rw [hdepth, hclosing, Option.map_map] at htail
  cases hrest : commentTail depth r with
  | none =>
    rw [hrest, Option.map_none] at htail
    refine ⟨r, [], List.append_nil r, Or.inr ⟨rfl, ?_⟩⟩
    rw [commentHead_append, lex_slash, slashFrom_of_none htail, lex_nil]
  | some found =>
    obtain ⟨text, rest⟩ := found
    rw [hrest, Option.map_some] at htail
    refine ⟨text, rest, append_of_commentTail hrest, Or.inl ?_⟩
    rw [commentHead_append, commentHead_append, lex_slash, slashFrom_of_commentTail htail]
    simp

end Term

/-- A comment that goes on after its closing is another token than the comment up to there. -/
theorem Swallows.lex_ne {block r : List Char} (h : Swallows (block ++ [' ']) r)
    (after : List Token) : lex (block ++ [' '] ++ r) ≠ .comment block :: after := by
  obtain ⟨text, rest, -, hlex | ⟨-, hlex⟩⟩ := h
  · rw [hlex]
    intro heq
    injection heq with htoken
    injection htoken with htext
    simp at htext
  · rw [hlex]
    intro heq
    cases heq

namespace Term

theorem layout_of_fits {t : Term} {level lead : Nat} (h : t.fits level lead = true) :
    t.layout level lead = t.flat := by
  cases t with
  | path | lit => rw [layout]
  | record name fields rest => cases rest <;> rw [layout, if_pos h]
  | _ => rw [layout, if_pos h]

theorem flat_commented (comment : String) (t : Term) :
    (commented comment t).flat = commentHead comment ++ t.flat := by
  rw [flat]

/-- The comment stands before the term, which is laid out in the columns that are left. -/
theorem layout_commented (level lead : Nat) (comment : String) (t : Term) :
    (commented comment t).layout level lead
      = commentHead comment ++ t.layout level (lead + Text.byteSize (commentHead comment)) := by
  have hfits : (commented comment t).fits level lead
      = t.fits level (lead + Text.byteSize (commentHead comment)) := by
    rw [fits, fits, flat_commented, Text.byteSize_append, ← Nat.add_assoc, ← Nat.add_assoc]
  rw [layout, hfits]
  split
  · next h => rw [flat_commented, layout_of_fits h]
  · rfl

/-- On one line and broken, a term with a comment is read as the comment and the tokens of the term
exactly if the comment does not open another one. If it does, the token that starts with the comment
goes on in the text of the term. -/
theorem comment_ends_at_closing_iff (comment : String) (t : Term) (level lead : Nat)
    (rest : List Char) :
    (lex ((commented comment t).flat ++ rest)
          = .comment (commentBlock comment) :: lex (t.flat ++ rest)
        ↔ Text.occursIn ['/', '*'] comment.toList = false)
      ∧ (lex ((commented comment t).layout level lead ++ rest)
          = .comment (commentBlock comment)
            :: lex (t.layout level (lead + Text.byteSize (commentHead comment)) ++ rest)
        ↔ Text.occursIn ['/', '*'] comment.toList = false)
      ∧ (Text.occursIn ['/', '*'] comment.toList = true →
        Swallows (commentHead comment) (t.flat ++ rest)
          ∧ Swallows (commentHead comment)
            (t.layout level (lead + Text.byteSize (commentHead comment)) ++ rest)) := by
  have hends (r : List Char) :
      lex (commentHead comment ++ r) = .comment (commentBlock comment) :: lex r
        ↔ Text.occursIn ['/', '*'] comment.toList = false := by
    refine ⟨fun hlex => ?_, fun h => lex_commentHead h r⟩
    by_contra hopens
    have hswallows := swallows_of_openings (Bool.of_not_eq_false hopens) r
    rw [commentHead_eq] at hswallows hlex
    exact hswallows.lex_ne _ hlex
  refine ⟨?_, ?_, fun h => ⟨swallows_of_openings h _, swallows_of_openings h _⟩⟩
  · rw [flat_commented, List.append_assoc]
    exact hends _
  · rw [layout_commented, List.append_assoc]
    exact hends _

/-- The name of a function that is not known can open a comment. Nothing is left of the sentinel
then, on one line or broken. -/
theorem comment_ends_at_closing_opened :
    lex (invalid "unknown function `a/*b`").flat
        = [.stray "/* unknown function `a/*b` */ __bosun_invalid_identifier__".toList]
      ∧ lex ((invalid "unknown function `a/*b`").layout 1 100)
        = [.stray "/* unknown function `a/*b` */ __bosun_invalid_identifier__".toList] := by
  rw [invalid, layout_commented, layout, flat, flat]
  decide +kernel

end Term

end Playbooks
