import Mathlib.Algebra.Ring.Parity
import Playbooks.Number.Radix
import Playbooks.Proofs.Program.Tokens

/-!
# String literals

A string of the emitted program stands between double quotes, and whatever the string is, the text
ends at the last quote and is read back as the string. The argument does not depend on which
characters are shown as themselves and which by their code points.

## Main definitions

* `Text.unquote`: the characters that a literal stands for.
* `Text.Guarded`: every quote in a text is escaped, and so is no quote after it.
* `Text.LiteralOf`: a text is one literal, and stands for some characters.

## Main results

* `Text.unescape_escapeBy`: each character is read back from its own escape.
* `Text.literalOf_quotedBy`: quoted text is a literal of the text.
* `Literal.string_reads_back`: the strings of emitted programs.
-/
namespace Playbooks

namespace Text

/-! ## Reading literals -/

theorem cut?_eq_some_iff {c : Char} {cs before after : List Char} :
    cut? c cs = some (before, after) ↔ c ∉ before ∧ cs = before ++ c :: after := by
  induction cs generalizing before with
  | nil => simp [cut?]
  | cons d cs ih =>
    rw [cut?]
    by_cases hd : d = c
    · cases before with
      | nil => simp [hd]
      | cons x before =>
        simp only [hd, if_true, List.cons_append, List.mem_cons, not_or, List.cons.injEq]
        refine iff_of_false (by simp) ?_
        rintro ⟨⟨hx, -⟩, rfl, -⟩
        exact hx rfl
    · cases before with
      | nil => simp [hd]
      | cons x before =>
        rw [if_neg hd, Option.map_eq_some_iff]
        constructor
        · rintro ⟨⟨a, b⟩, hcut, heq⟩
          cases heq
          obtain ⟨hmem, rfl⟩ := ih.mp hcut
          exact ⟨by simp [hmem, Ne.symm hd], rfl⟩
        · rintro ⟨hmem, heq⟩
          cases heq
          exact ⟨(before, after), ih.mpr ⟨fun h => hmem (List.mem_cons_of_mem _ h), rfl⟩, rfl⟩

/-- The character of an escape after its backslash, and what follows it. A code point has at most
six digits. -/
def readEscape : List Char → Option (Char × List Char)
  | 'u' :: '\x7b' :: cs => (cut? '\x7d' cs).bind fun (digits, rest) =>
    if digits.length ≤ 6 then (charOfHex? digits).map (·, rest) else none
  | letter :: cs => (letterEscapes.lookup letter).map (·, cs)
  | [] => none

theorem length_of_readEscape {cs rest : List Char} {c : Char} (h : readEscape cs = some (c, rest)) :
    rest.length < cs.length := by
  unfold readEscape at h
  split at h
  · obtain ⟨⟨digits, after⟩, hcut, hread⟩ := Option.bind_eq_some_iff.mp h
    obtain ⟨-, rfl⟩ := cut?_eq_some_iff.mp hcut
    by_cases hlength : digits.length ≤ 6
    · obtain ⟨x, -, heq⟩ := Option.map_eq_some_iff.mp ((if_pos hlength).symm.trans hread)
      cases heq
      simp only [List.length_cons, List.length_append]
      omega
    · cases (if_neg hlength).symm.trans hread
  · obtain ⟨x, -, heq⟩ := Option.map_eq_some_iff.mp h
    cases heq
    exact Nat.lt_succ_self _
  · cases h

/-- The characters that the text between the quotes of a literal stands for. A quote that is not
part of an escape does not belong there. -/
def unescape : List Char → Option (List Char)
  | [] => some []
  | c :: cs =>
    if c = '\\' then
      match _h : readEscape cs with
      | some (x, rest) => (unescape rest).map (x :: ·)
      | none => none
    else if c = doubleQuote then none
    else (unescape cs).map (c :: ·)
termination_by cs => cs.length
decreasing_by
  · exact Nat.lt_succ_of_lt (length_of_readEscape _h)
  · exact Nat.lt_succ_self _

/-- The characters that a literal stands for. -/
def unquote : List Char → Option (List Char)
  | [] => none
  | c :: cs =>
    if c = doubleQuote ∧ cs.getLast? = some doubleQuote then unescape cs.dropLast else none

/-! ## Escapes are read back -/

/-- Digits are read as the number that they were written for. -/
theorem natOfBase?_toDigits (n : Nat) : natOfBase? 16 (Nat.toDigits 16 n) = some n := by
  have hdigit : ∀ d < 16, digitValue? (Nat.digitChar d) = some d := by decide
  rw [natOfBase?, if_neg (by simp)]
  induction n using Nat.strongRecOn with
  | ind n ih =>
    rw [Nat.toDigits_eq_if (by decide)]
    by_cases hlt : n < 16
    · simp [hlt, hdigit n hlt]
    · have hlast : n % 16 < 16 := Nat.mod_lt n (by decide)
      rw [if_neg hlt, List.foldlM_append, ih (n / 16) (by omega)]
      simp [hdigit _ hlast, hlast, Nat.div_add_mod]

theorem charOfHex?_toDigits (c : Char) : charOfHex? (Nat.toDigits 16 c.toNat) = some c := by
  have hvalid : c.toNat.isValidChar := c.valid
  simp [charOfHex?, natOfBase?_toDigits, hvalid]

theorem readEscape_codePoint (c : Char) (rest : List Char) :
    readEscape ('u' :: '\x7b' :: (Nat.toDigits 16 c.toNat ++ '\x7d' :: rest)) = some (c, rest) := by
  have hbrace : '\x7d' ∉ Nat.toDigits 16 c.toNat := by
    intro hmem
    obtain ⟨d, hd, heq⟩ := exists_of_mem_toDigits (by decide) hmem
    have hdigitChar : ∀ d < 16, '\x7d' ≠ Nat.digitChar d := by decide
    exact hdigitChar d hd heq
  have hlength : (Nat.toDigits 16 c.toNat).length ≤ 6 := by
    rw [Nat.length_toDigits_le_iff (by decide) (by decide)]
    rcases c.valid with hlow | ⟨-, hhigh⟩
    · exact Nat.lt_trans hlow (by decide)
    · exact Nat.lt_trans hhigh (by decide)
  rw [readEscape, cut?_eq_some_iff.mpr ⟨hbrace, rfl⟩]
  simp [hlength, charOfHex?_toDigits]

theorem readEscape_letter {letter c : Char} (h : (letter, c) ∈ letterEscapes) (rest : List Char) :
    readEscape (letter :: rest) = some (c, rest) := by
  simp only [letterEscapes, List.mem_cons, Prod.mk.injEq, List.not_mem_nil, or_false] at h
  rcases h with ⟨rfl, rfl⟩ | ⟨rfl, rfl⟩ | ⟨rfl, rfl⟩ | ⟨rfl, rfl⟩ | ⟨rfl, rfl⟩ | ⟨rfl, rfl⟩ <;> rfl

theorem unescape_backslash {cs rest : List Char} {c : Char} (h : readEscape cs = some (c, rest)) :
    unescape ('\\' :: cs) = (unescape rest).map (c :: ·) := by
  rw [unescape, if_pos rfl]
  split
  · next heq =>
    cases h.symm.trans heq
    rfl
  · next heq => cases h.symm.trans heq

theorem unescape_escapeBy (shown : Char → Bool) (c : Char) (rest : List Char) :
    unescape (escapeBy shown doubleQuote c ++ rest) = (unescape rest).map (c :: ·) := by
  obtain ⟨letter, hmem, heq⟩ | ⟨hplain, heq | heq⟩ := escapeBy_cases shown c
  · rw [heq]
    exact unescape_backslash (readEscape_letter hmem rest)
  · have hslash : c ≠ '\\' := by
      rintro rfl
      exact hplain (by decide)
    have hquote : c ≠ doubleQuote := by
      rintro rfl
      exact hplain (by decide)
    rw [heq, List.singleton_append, unescape, if_neg hslash, if_neg hquote]
  · rw [heq, codePointEscape]
    simpa using unescape_backslash (readEscape_codePoint c rest)

theorem unescape_escaped (shown : Char → Bool) (cs : List Char) :
    unescape (cs.flatMap (escapeBy shown doubleQuote)) = some cs := by
  induction cs with
  | nil => rw [List.flatMap_nil, unescape]
  | cons c cs ih => rw [List.flatMap_cons, unescape_escapeBy, ih, Option.map_some]

theorem unquote_quotedBy (shown : Char → Bool) (cs : List Char) :
    unquote (quotedBy shown cs) = some cs := by
  rw [quotedBy, List.cons_append, unquote, if_pos ⟨rfl, List.getLast?_concat⟩, List.dropLast_concat,
    unescape_escaped]

/-! ## Quotes inside a literal -/

/-- The number of backslashes at the end of a text. -/
def backslashes (cs : List Char) : Nat :=
  (cs.reverse.takeWhile (· == '\\')).length

/-- Every quote in the text follows an odd number of backslashes, the last of which escapes it. The
text itself ends with an even number of them, so that a quote after it is not escaped. -/
structure Guarded (cs : List Char) : Prop where
  quotes : ∀ before after, cs = before ++ doubleQuote :: after → Odd (backslashes before)
  closing : Even (backslashes cs)

/-- An even number of backslashes before a text does not matter for it. -/
theorem even_backslashes_append {cs ds : List Char} (h : Even (backslashes cs)) :
    Even (backslashes (cs ++ ds)) ↔ Even (backslashes ds) := by
  simp only [backslashes, List.reverse_append, List.takeWhile_append]
  split
  · next hall =>
    rw [List.length_append, ← hall, Nat.even_add]
    exact iff_true_right h
  · rfl

theorem guarded_nil : Guarded [] where
  quotes := by simp
  closing := ⟨0, rfl⟩

theorem Guarded.append {cs ds : List Char} (hcs : Guarded cs) (hds : Guarded ds) :
    Guarded (cs ++ ds) where
  quotes before after heq := by
    rcases List.append_eq_append_iff.mp heq with ⟨mid, rfl, hmid⟩ | ⟨mid, hmid, hquote⟩
    · -- The quote stands in the second text.
      rw [← Nat.not_even_iff_odd, even_backslashes_append hcs.closing, Nat.not_even_iff_odd]
      exact hds.quotes mid after hmid
    · cases mid with
      | nil =>
        have hodd := hds.quotes [] after (by simpa using hquote.symm)
        exact absurd hodd (by decide)
      | cons x mid =>
        cases hquote
        exact hcs.quotes before mid hmid
  closing := (even_backslashes_append hcs.closing).mpr hds.closing

/-- A text without quotes that does not end with a backslash. -/
theorem guarded_of_notMem {cs : List Char} (hquote : doubleQuote ∉ cs)
    (hlast : cs.getLast? ≠ some '\\') : Guarded cs where
  quotes := by
    rintro before after rfl
    simp at hquote
  closing := by
    have hnone : cs.reverse.takeWhile (· == '\\') = [] := by
      rw [List.getLast?_eq_head?_reverse] at hlast
      cases hreverse : cs.reverse with
      | nil => rfl
      | cons c rest => simp_all
    rw [backslashes, hnone]
    exact ⟨0, rfl⟩

/-- A backslash and the character that it escapes. -/
theorem guarded_pair (x : Char) : Guarded ['\\', x] where
  quotes before after heq := by
    cases before with
    | nil => cases heq
    | cons y before =>
      cases before with
      | nil =>
        cases heq
        decide
      | cons z before => simp at heq
  closing := by
    by_cases hx : x = '\\'
    · subst hx
      decide
    · have hnone : backslashes ['\\', x] = 0 := by simp [backslashes, hx]
      rw [hnone]
      exact ⟨0, rfl⟩

theorem guarded_escapeBy (shown : Char → Bool) (c : Char) :
    Guarded (escapeBy shown doubleQuote c) := by
  obtain ⟨letter, -, heq⟩ | ⟨hplain, heq | heq⟩ := escapeBy_cases shown c
  · rw [heq]
    exact guarded_pair letter
  · rw [heq]
    refine guarded_of_notMem ?_ ?_
    · intro hmem
      obtain rfl : doubleQuote = c := List.mem_singleton.mp hmem
      exact hplain (by decide)
    · intro hlast
      obtain rfl : c = '\\' := Option.some.inj hlast
      exact hplain (by decide)
  · have hpair := guarded_pair 'u'
    have hrest : Guarded ('\x7b' :: Nat.toDigits 16 c.toNat ++ ['\x7d']) :=
      guarded_of_notMem (notMem_codePoint c (by decide)) (by rw [List.getLast?_concat]; decide)
    rw [heq, codePointEscape]
    simpa using hpair.append hrest

theorem guarded_escaped (shown : Char → Bool) (cs : List Char) :
    Guarded (cs.flatMap (escapeBy shown doubleQuote)) := by
  induction cs with
  | nil => exact guarded_nil
  | cons c cs ih => exact (guarded_escapeBy shown c).append ih

/-! ## Literals -/

/-- A character with a letter of its own does not occur in escapes, unless they are made of it. -/
theorem notMem_escapeBy (shown : Char → Bool) (c : Char) {x : Char}
    (hown : x ∈ letterEscapes.map Prod.snd)
    (hletter : x ∉ '\\' :: 'u' :: letterEscapes.map Prod.fst)
    (hdigit : x ∉ '\x7b' :: '\x7d' :: (List.range 16).map Nat.digitChar) :
    x ∉ escapeBy shown doubleQuote c := by
  simp only [List.mem_cons, not_or] at hletter
  obtain ⟨hslash, hu, hletter⟩ := hletter
  intro hx
  obtain ⟨letter, hmem, heq⟩ | ⟨hplain, heq | heq⟩ := escapeBy_cases shown c
  · rw [heq] at hx
    simp only [List.mem_cons, hslash, List.not_mem_nil, or_false, false_or] at hx
    exact hletter (hx ▸ List.mem_map_of_mem hmem)
  · rw [heq, List.mem_singleton] at hx
    exact hplain (hx ▸ hown)
  · have hpoint := notMem_codePoint c hdigit
    rw [heq, codePointEscape] at hx
    simp only [List.cons_append, List.nil_append, List.mem_cons, hslash, hu, false_or] at hx hpoint
    exact hpoint hx

theorem notMem_quotedBy (shown : Char → Bool) (cs : List Char) {x : Char}
    (hown : x ∈ letterEscapes.map Prod.snd)
    (hletter : x ∉ '\\' :: 'u' :: letterEscapes.map Prod.fst)
    (hdigit : x ∉ '\x7b' :: '\x7d' :: (List.range 16).map Nat.digitChar) :
    x ∉ quotedBy shown cs := by
  have hquote : x ≠ doubleQuote := by
    rintro rfl
    exact hletter (by decide)
  have hbody : x ∉ cs.flatMap (escapeBy shown doubleQuote) := by
    intro hx
    obtain ⟨c, -, hx⟩ := List.mem_flatMap.mp hx
    exact notMem_escapeBy shown c hown hletter hdigit hx
  simp [quotedBy, hquote, hbody]

/-- The text is one string literal of a program, and stands for the characters. -/
structure LiteralOf (cs text : List Char) : Prop where
  delimited : ∃ body, text = doubleQuote :: body ++ [doubleQuote] ∧ Guarded body
  unbroken : '\n' ∉ text ∧ '\r' ∉ text ∧ '\x00' ∉ text
  token : ∀ rest, lex (text ++ rest) = .string text :: lex rest
  reads : unquote text = some cs

theorem literalOf_quotedBy (shown : Char → Bool) (cs : List Char) :
    LiteralOf cs (quotedBy shown cs) where
  delimited := ⟨_, rfl, guarded_escaped shown cs⟩
  unbroken := ⟨notMem_quotedBy shown cs (by decide) (by decide) (by decide),
    notMem_quotedBy shown cs (by decide) (by decide) (by decide),
    notMem_quotedBy shown cs (by decide) (by decide) (by decide)⟩
  token := lex_quotedBy shown cs
  reads := unquote_quotedBy shown cs

/-- One text is no literal of two strings. -/
theorem LiteralOf.unique {cs ds text : List Char} (hcs : LiteralOf cs text)
    (hds : LiteralOf ds text) : cs = ds :=
  Option.some.inj (hcs.reads.symm.trans hds.reads)

end Text

/-- A string of an emitted program is one literal that is read back as the string, so that different
strings have different texts. The same holds if other characters than the printable ones are shown
as themselves. -/
theorem Literal.string_reads_back :
    (∀ s : String, Text.LiteralOf s.toList (Literal.string s).chars)
      ∧ (fun s => (Literal.string s).chars).Injective
      ∧ ∀ shown, (∀ cs, Text.LiteralOf cs (Text.quotedBy shown cs))
        ∧ (Text.quotedBy shown).Injective := by
  have hliteral (s : String) : Text.LiteralOf s.toList (Literal.string s).chars :=
    Text.literalOf_quotedBy Text.isPrintable s.toList
  refine ⟨hliteral, fun s t heq => ?_, fun shown => ⟨Text.literalOf_quotedBy shown, ?_⟩⟩
  · have htext : (Literal.string s).chars = (Literal.string t).chars := heq
    exact String.toList_inj.mp ((hliteral s).unique (htext ▸ hliteral t))
  · intro cs ds heq
    exact (Text.literalOf_quotedBy shown cs).unique (heq ▸ Text.literalOf_quotedBy shown ds)

/-- A quote and a backslash are not taken for parts of the literal, nor a brace after a code point
for a part of the escape. -/
example : (Literal.string "\x22\u0301\x7b\\").chars
    = "\x22\\\x22\\u\x7b301\x7d\x7b\\\\\x22".toList := by
  decide +kernel

end Playbooks
