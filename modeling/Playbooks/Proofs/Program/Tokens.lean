import Playbooks.Proofs.Number.Decimals
import Playbooks.Proofs.Syntax.Reading
import Playbooks.Program.Printer

/-!
# Tokens of program text

The text of an emitted program, cut into tokens by the rules of its language as far as printed terms
need them: words, numbers, string literals, comments, which nest, and marks, of which the longest is
taken. Blanks separate tokens and are dropped. Signed exponents, suffixes of strings, raw strings,
characters and lifetimes never occur in a printed term and have no rule of their own.

## Main definitions

* `lex`: the tokens of a text.
* `Separates`: texts that end the token before them.

## Main results

* `splits_tokenFrom`: a token and what follows it make up the text.
* `lex_append_of_nameChars`, `lex_decimal`: names and numbers are read without what follows them.
* `lex_quotedBy`: a quoted text is one token.
-/
namespace Playbooks

inductive Token where
  | word (text : List Char)
  | number (text : List Char)
  | string (text : List Char)
  | comment (text : List Char)
  | mark (text : List Char)
  /-- A string or a comment without an end. -/
  | stray (text : List Char)
deriving DecidableEq

/-- The characters of a token. -/
def Token.text : Token → List Char
  | word text | number text | string text | comment text | mark text | stray text => text

/-! ## The lexer -/

/-- Blanks of the emitted language. -/
def isSpace (c : Char) : Bool :=
  c ∈ ['\t', '\n', '\x0b', '\x0c', '\r', ' ', '\u0085', '\u200e', '\u200f', '\u2028', '\u2029']

def isWordStart (c : Char) : Bool :=
  c.isAlpha || c == '_'

def isWordChar (c : Char) : Bool :=
  c.isAlphanum || c == '_'

/-- A word in raw form has a sign between its first letter and the rest. -/
def isRaw (c : Char) (cs : List Char) : Bool :=
  c == 'r' && cs.head? == some '#' && (cs.drop 1).head?.any isWordStart

/-- A word that starts with the character, and what follows it. -/
def wordFrom (c : Char) (cs : List Char) : Token × List Char :=
  if isRaw c cs then
    (.word (c :: '#' :: (cs.drop 1).takeWhile isWordChar), (cs.drop 1).dropWhile isWordChar)
  else (.word (c :: cs.takeWhile isWordChar), cs.dropWhile isWordChar)

/-- A point after digits belongs to the number unless a word or another point follows. -/
def isFraction (cs : List Char) : Bool :=
  cs.head? == some '.' && !(cs.drop 1).head?.any fun d => d == '.' || isWordStart d

/-- A number that starts with the digit, and what follows it. -/
def numberFrom (c : Char) (cs : List Char) : Token × List Char :=
  let whole := c :: cs.takeWhile isWordChar
  let rest := cs.dropWhile isWordChar
  if isFraction rest then
    (.number (whole ++ '.' :: (rest.drop 1).takeWhile isWordChar),
      (rest.drop 1).dropWhile isWordChar)
  else (.number whole, rest)

/-- The text of a string literal after its opening quote, and what follows it. -/
def stringTail : List Char → Option (List Char × List Char)
  | [] => none
  | '\x22' :: cs => some (['\x22'], cs)
  | '\\' :: c :: cs => (stringTail cs).map fun (text, rest) => ('\\' :: c :: text, rest)
  | c :: cs => (stringTail cs).map fun (text, rest) => (c :: text, rest)

/-- The text of a comment after its opening, and what follows it. `depth` comments are open inside. -/
def commentTail : (depth : Nat) → List Char → Option (List Char × List Char)
  | _, [] => none
  | 0, '*' :: '/' :: cs => some (['*', '/'], cs)
  | depth + 1, '*' :: '/' :: cs =>
    (commentTail depth cs).map fun (text, rest) => ('*' :: '/' :: text, rest)
  | depth, '/' :: '*' :: cs =>
    (commentTail (depth + 1) cs).map fun (text, rest) => ('/' :: '*' :: text, rest)
  | depth, c :: cs => (commentTail depth cs).map fun (text, rest) => (c :: text, rest)

/-- Marks of several characters, the longer ones first. -/
def longMarks : List (List Char) :=
  ["<<=", ">>=", "...", "..=", "::", "..", "||", "&&", "->", "=>", "==", "!=", "<=", ">=", "+=", "-=",
    "*=", "/=", "%=", "^=", "&=", "|=", "<<", ">>"].map String.toList

def markFrom (c : Char) (cs : List Char) : Token × List Char :=
  match longMarks.find? (·.isPrefixOf (c :: cs)) with
  | some text => (.mark text, cs.drop (text.length - 1))
  | none => (.mark [c], cs)

/-- What starts with a slash: a comment, to the end of its line or to its own end, or a mark. -/
def slashFrom : List Char → Token × List Char
  | '*' :: cs =>
    match commentTail 0 cs with
    | some (text, rest) => (.comment ('/' :: '*' :: text), rest)
    | none => (.stray ('/' :: '*' :: cs), [])
  | '/' :: cs => (.comment ('/' :: '/' :: cs.takeWhile (· ≠ '\n')), cs.dropWhile (· ≠ '\n'))
  | cs => markFrom '/' cs

/-- The token that starts with the character, which is no blank, and what follows it. -/
def tokenFrom (c : Char) (cs : List Char) : Token × List Char :=
  if isWordStart c then wordFrom c cs
  else if c.isDigit then numberFrom c cs
  else if c = '\x22' then
    match stringTail cs with
    | some (text, rest) => (.string ('\x22' :: text), rest)
    | none => (.stray ('\x22' :: cs), [])
  else if c = '/' then slashFrom cs
  else markFrom c cs

/-! ## Tokens are pieces of the text -/

theorem append_of_stringTail {cs text rest : List Char} (h : stringTail cs = some (text, rest)) :
    text ++ rest = cs := by
  fun_induction stringTail cs generalizing text with
  | case1 => cases h
  | case2 cs =>
    cases h
    rfl
  | case3 c cs ih =>
    obtain ⟨⟨text', rest'⟩, h', heq⟩ := Option.map_eq_some_iff.mp h
    cases heq
    exact congrArg ('\\' :: c :: ·) (ih h')
  | case4 c cs _ _ ih =>
    obtain ⟨⟨text', rest'⟩, h', heq⟩ := Option.map_eq_some_iff.mp h
    cases heq
    exact congrArg (c :: ·) (ih h')

theorem append_of_commentTail {depth : Nat} {cs text rest : List Char}
    (h : commentTail depth cs = some (text, rest)) : text ++ rest = cs := by
  fun_induction commentTail depth cs generalizing text with
  | case1 => cases h
  | case2 cs =>
    cases h
    rfl
  | case3 depth cs ih =>
    obtain ⟨⟨text', rest'⟩, h', heq⟩ := Option.map_eq_some_iff.mp h
    cases heq
    exact congrArg ('*' :: '/' :: ·) (ih h')
  | case4 depth cs ih =>
    obtain ⟨⟨text', rest'⟩, h', heq⟩ := Option.map_eq_some_iff.mp h
    cases heq
    exact congrArg ('/' :: '*' :: ·) (ih h')
  | case5 depth c cs _ _ _ ih =>
    obtain ⟨⟨text', rest'⟩, h', heq⟩ := Option.map_eq_some_iff.mp h
    cases heq
    exact congrArg (c :: ·) (ih h')

/-- A token that starts with the character, and what is left of the text after it. -/
def Splits (c : Char) (cs : List Char) (found : Token × List Char) : Prop :=
  ∃ text, found.1.text = c :: text ∧ text ++ found.2 = cs

theorem splits_wordFrom (c : Char) (cs : List Char) : Splits c cs (wordFrom c cs) := by
  rw [wordFrom]
  split
  · next hraw =>
    cases cs with
    | nil => simp [isRaw] at hraw
    | cons d ds =>
      obtain rfl : d = '#' := by
        simp only [isRaw, List.head?_cons, Bool.and_eq_true, beq_iff_eq, Option.some.injEq] at hraw
        exact hraw.1.2
      exact ⟨_, rfl, congrArg ('#' :: ·) List.takeWhile_append_dropWhile⟩
  · exact ⟨_, rfl, List.takeWhile_append_dropWhile⟩

theorem splits_numberFrom (c : Char) (cs : List Char) : Splits c cs (numberFrom c cs) := by
  have hsplit : cs.takeWhile isWordChar ++ cs.dropWhile isWordChar = cs :=
    List.takeWhile_append_dropWhile
  simp only [numberFrom]
  split
  · next hfraction =>
    cases hrest : cs.dropWhile isWordChar with
    | nil => simp [isFraction, hrest] at hfraction
    | cons d ds =>
      obtain rfl : d = '.' := by
        simp only [isFraction, hrest, List.head?_cons, Bool.and_eq_true, beq_iff_eq,
          Option.some.injEq] at hfraction
        exact hfraction.1
      refine ⟨cs.takeWhile isWordChar ++ '.' :: ds.takeWhile isWordChar, rfl, ?_⟩
      simpa [hrest] using hsplit
  · exact ⟨_, rfl, hsplit⟩

theorem length_of_mem_longMarks : ∀ m ∈ longMarks, 2 ≤ m.length := by
  decide

theorem splits_markFrom (c : Char) (cs : List Char) : Splits c cs (markFrom c cs) := by
  rw [markFrom]
  split
  · next m hfound =>
    have hlength := length_of_mem_longMarks m (List.mem_of_find?_eq_some hfound)
    have hstarts := List.find?_some hfound
    obtain ⟨rest, heq⟩ := List.isPrefixOf_iff_prefix.mp hstarts
    cases m with
    | nil => simp at hlength
    | cons d m =>
      cases heq
      exact ⟨m, rfl, by simp⟩
  · exact ⟨[], rfl, rfl⟩

theorem splits_slashFrom (cs : List Char) : Splits '/' cs (slashFrom cs) := by
  fun_cases slashFrom cs with
  | case1 cs text rest h => exact ⟨_, rfl, congrArg ('*' :: ·) (append_of_commentTail h)⟩
  | case2 => exact ⟨_, rfl, List.append_nil _⟩
  | case3 => exact ⟨_, rfl, congrArg ('/' :: ·) List.takeWhile_append_dropWhile⟩
  | case4 => exact splits_markFrom _ _

theorem splits_tokenFrom (c : Char) (cs : List Char) : Splits c cs (tokenFrom c cs) := by
  fun_cases tokenFrom c cs with
  | case1 => exact splits_wordFrom c cs
  | case2 => exact splits_numberFrom c cs
  | case3 _ _ hquote text rest h => exact ⟨_, by rw [hquote]; rfl, append_of_stringTail h⟩
  | case4 _ _ hquote => exact ⟨_, by rw [hquote]; rfl, List.append_nil _⟩
  | case5 _ _ _ hslash => exact hslash ▸ splits_slashFrom cs
  | case6 => exact splits_markFrom c cs

theorem suffix_of_tokenFrom (c : Char) (cs : List Char) : (tokenFrom c cs).2 <:+ cs := by
  obtain ⟨text, -, hsplit⟩ := splits_tokenFrom c cs
  exact ⟨text, hsplit⟩

/-- The tokens of a text. -/
def lex : List Char → List Token
  | [] => []
  | c :: cs => if isSpace c then lex cs else (tokenFrom c cs).1 :: lex (tokenFrom c cs).2
termination_by cs => cs.length
decreasing_by
  · exact Nat.lt_succ_self _
  · exact Nat.lt_succ_of_le (suffix_of_tokenFrom c cs).length_le

theorem lex_nil : lex [] = [] := by
  rw [lex]

theorem lex_space {c : Char} (cs : List Char) (h : isSpace c = true) : lex (c :: cs) = lex cs := by
  rw [lex, if_pos h]

theorem lex_token {c : Char} (cs : List Char) (h : isSpace c = false) :
    lex (c :: cs) = (tokenFrom c cs).1 :: lex (tokenFrom c cs).2 := by
  rw [lex, if_neg (by simp [h])]

/-- The characters of tokens are characters of the text. -/
theorem mem_of_mem_lex {cs : List Char} {t : Token} (ht : t ∈ lex cs) {x : Char} (hx : x ∈ t.text) :
    x ∈ cs := by
  fun_induction lex cs with
  | case1 => cases ht
  | case2 c cs hspace ih => exact List.mem_cons_of_mem _ (ih ht)
  | case3 c cs hspace ih =>
    obtain ⟨text, htext, hsplit⟩ := splits_tokenFrom c cs
    rcases List.mem_cons.mp ht with rfl | ht
    · rw [htext] at hx
      exact List.cons_subset_cons c (hsplit ▸ List.subset_append_left _ _) hx
    · exact List.mem_cons_of_mem _ (hsplit ▸ List.mem_append_right _ (ih ht))

/-! ## Marks -/

/-- Characters that start marks only. -/
def isMarkStart (c : Char) : Bool :=
  !isSpace c && !isWordStart c && !c.isDigit && c != '\x22' && c != '/'

/-- Some mark of several characters starts with these two. -/
def joinsMark (c d : Char) : Bool :=
  longMarks.any (·.take 2 = [c, d])

theorem tokenFrom_of_isMarkStart {c : Char} (cs : List Char) (h : isMarkStart c = true) :
    isSpace c = false ∧ tokenFrom c cs = markFrom c cs := by
  simp only [isMarkStart, Bool.and_eq_true, Bool.not_eq_true', bne_iff_ne] at h
  obtain ⟨⟨⟨⟨hspace, hword⟩, hdigit⟩, hquote⟩, hslash⟩ := h
  exact ⟨hspace, by simp [tokenFrom, hword, hdigit, hquote, hslash]⟩

/-- A mark is one character where no longer mark starts. -/
theorem markFrom_single {c : Char} {cs : List Char} (h : cs.head?.any (joinsMark c) = false) :
    markFrom c cs = (.mark [c], cs) := by
  have hnone : longMarks.find? (·.isPrefixOf (c :: cs)) = none := by
    refine List.find?_eq_none.mpr fun m hm => ?_
    match m, hm, length_of_mem_longMarks m hm with
    | a :: b :: m, hm, _ =>
      intro hstarts
      obtain ⟨rest, heq⟩ := List.isPrefixOf_iff_prefix.mp hstarts
      cases heq
      have hjoins : joinsMark c b = true := List.any_eq_true.mpr ⟨_, hm, by simp⟩
      simp [hjoins] at h
  rw [markFrom, hnone]

theorem lex_mark {c : Char} {cs : List Char} (h : isMarkStart c = true)
    (hnext : cs.head?.any (joinsMark c) = false) : lex (c :: cs) = .mark [c] :: lex cs := by
  obtain ⟨hspace, htoken⟩ := tokenFrom_of_isMarkStart cs h
  rw [lex_token cs hspace, htoken, markFrom_single hnext]

/-- No longer mark goes on with a character of a word or a blank. -/
theorem joinsMark_eq_false (c : Char) {d : Char} (h : d ∉ ['<', '>', '=', '.', ':', '|', '&']) :
    joinsMark c d = false := by
  refine List.any_eq_false.mpr fun m hm hjoins => ?_
  have hseconds : (longMarks.all fun m => (m.take 2).getLast?.all
      fun x => x ∈ ['<', '>', '=', '.', ':', '|', '&']) = true := by
    rfl
  have hsecond := List.all_eq_true.mp hseconds m hm
  rw [of_decide_eq_true hjoins] at hsecond
  exact h (of_decide_eq_true hsecond)

/-- A character of a class is in no list without characters of the class. -/
theorem notMem_of_all {P : Char → Bool} {cs : List Char} (h : (cs.all fun x => !P x) = true) {c : Char}
    (hc : P c = true) : c ∉ cs := by
  intro hmem
  have hnot := List.all_eq_true.mp h c hmem
  simp [hc] at hnot

theorem joinsMark_of_isWordChar (c : Char) {d : Char} (h : isWordChar d = true) :
    joinsMark c d = false :=
  joinsMark_eq_false c (notMem_of_all (by rfl) h)

theorem lex_mark_cons {c d : Char} (hc : isMarkStart c = true) (hd : joinsMark c d = false)
    (cs : List Char) : lex (c :: d :: cs) = .mark [c] :: lex (d :: cs) := by
  refine lex_mark hc ?_
  rw [List.head?_cons, Option.any_some, hd]

/-- A mark before a word or a number. -/
theorem lex_mark_word {c d : Char} (hc : isMarkStart c = true) (hd : isWordChar d = true)
    (cs : List Char) : lex (c :: d :: cs) = .mark [c] :: lex (d :: cs) :=
  lex_mark_cons hc (joinsMark_of_isWordChar c hd) cs

/-- Delimiters and commas stand for themselves, whatever follows. -/
theorem lex_delimiter {c : Char} (h : c ∈ ['(', ')', '[', ']', '\x7b', '\x7d', ',']) (cs : List Char) :
    lex (c :: cs) = .mark [c] :: lex cs := by
  have hdelimiters : (['(', ')', '[', ']', '\x7b', '\x7d', ','].all fun c =>
      isMarkStart c && longMarks.all fun m => m.head? != some c) = true := by
    rfl
  have hdelimiter := List.all_eq_true.mp hdelimiters c h
  rw [Bool.and_eq_true] at hdelimiter
  have hjoins (d : Char) : joinsMark c d = false := by
    refine List.any_eq_false.mpr fun m hm hjoins => ?_
    have hfirst := List.all_eq_true.mp hdelimiter.2 m hm
    cases m with
    | nil => simp at hjoins
    | cons x m => simp_all
  refine lex_mark hdelimiter.1 ?_
  cases cs with
  | nil => rfl
  | cons d ds => exact hjoins d

/-- Two points are one mark, unless a third one or an equals sign follows. -/
theorem lex_points {cs : List Char} (h : cs.head?.any (fun d => d == '.' || d == '=') = false) :
    lex ('.' :: '.' :: cs) = .mark ['.', '.'] :: lex cs := by
  have htoken : tokenFrom '.' ('.' :: cs) = (.mark ['.', '.'], cs) := by
    cases cs with
    | nil => rfl
    | cons d ds =>
      simp only [List.head?_cons, Option.any_some, Bool.or_eq_false_iff, beq_eq_false_iff_ne] at h
      have hfound : longMarks.find? (·.isPrefixOf ('.' :: '.' :: d :: ds)) = some ['.', '.'] := by
        simp [longMarks, h.1.symm, h.2.symm]
      rw [(tokenFrom_of_isMarkStart _ (by decide)).2, markFrom, hfound]
      rfl
  rw [lex_token _ (by decide), htoken]

theorem lex_bars (cs : List Char) : lex ('|' :: '|' :: cs) = .mark ['|', '|'] :: lex cs := by
  have htoken : tokenFrom '|' ('|' :: cs) = (.mark ['|', '|'], cs) := by
    rfl
  rw [lex_token _ (by decide), htoken]

/-! ## What ends a token -/

/-- Characters of names: paths are made of words and double colons. -/
def isNameChar (c : Char) : Bool :=
  isWordChar c || c == ':' || c == '#'

/-- Texts that start with a blank, with a delimiter, or with the call of a method. The token before
such a text ends there. -/
def Separates : List Char → Prop
  | [] => True
  | c :: cs =>
    c ∈ [' ', '\n', '(', ')', ']', '\x7d', ',', '|'] ∨ c = '.' ∧ cs.head?.any isWordStart = true

theorem Separates.head {c : Char} {cs : List Char} (h : Separates (c :: cs)) :
    isNameChar c = false ∧ (c = '.' → cs.head?.any isWordStart = true) := by
  rcases h with hc | ⟨rfl, hcs⟩
  · have hothers : ([' ', '\n', '(', ')', ']', '\x7d', ',', '|'].all
        fun c => !isNameChar c && c != '.') = true := by
      rfl
    have hother := List.all_eq_true.mp hothers c hc
    simp only [Bool.and_eq_true, Bool.not_eq_true', bne_iff_ne] at hother
    exact ⟨hother.1, fun heq => absurd heq hother.2⟩
  · exact ⟨by decide, fun _ => hcs⟩

theorem Separates.any_eq_false {cs : List Char} (h : Separates cs) {P : Char → Bool}
    (hP : ∀ c, P c = true → isNameChar c = true) : cs.head?.any P = false := by
  cases cs with
  | nil => rfl
  | cons c cs =>
    refine Bool.eq_false_iff.mpr fun hc => ?_
    have hname := hP c hc
    rw [h.head.1] at hname
    cases hname

theorem Separates.head?_ne {cs : List Char} (h : Separates cs) {c : Char} (hc : isNameChar c = true) :
    cs.head? ≠ some c := by
  intro heq
  have hnone := h.any_eq_false fun _ hname => hname
  rw [heq, Option.any_some, hc] at hnone
  cases hnone

theorem isNameChar_of_isWordChar (c : Char) (h : isWordChar c = true) : isNameChar c = true := by
  simp [isNameChar, h]

theorem isWordChar_of_isWordStart (c : Char) (h : isWordStart c = true) : isWordChar c = true := by
  simp only [isWordStart, isWordChar, Char.isAlphanum, Bool.or_eq_true] at h ⊢
  exact h.imp_left Or.inl

variable {c : Char} {w r : List Char}

theorem isRaw_append (hr : Separates r) : isRaw c (w ++ r) = isRaw c w := by
  have hword := hr.any_eq_false fun d hd =>
    isNameChar_of_isWordChar d (isWordChar_of_isWordStart d hd)
  match w with
  | [] => simp [isRaw, hr.head?_ne (c := '#') (by decide)]
  | [x] => simp [isRaw, hword]
  | x :: y :: w => rfl

theorem wordFrom_append (hr : Separates r) :
    wordFrom c (w ++ r) = ((wordFrom c w).1, (wordFrom c w).2 ++ r) := by
  have hstop := hr.any_eq_false isNameChar_of_isWordChar
  rw [wordFrom, wordFrom, isRaw_append hr]
  split
  · next hraw =>
    cases w with
    | nil => simp [isRaw] at hraw
    | cons x w =>
      simp only [List.cons_append, List.drop_succ_cons, List.drop_zero, takeWhile_append_stop hstop]
  · simp only [takeWhile_append_stop hstop]

theorem isFraction_of_separates (hr : Separates r) : isFraction r = false := by
  cases r with
  | nil => rfl
  | cons d ds =>
    by_cases hd : d = '.'
    · have hword := hr.head.2 hd
      cases ds with
      | nil => cases hword
      | cons x ds =>
        have hx : isWordStart x = true := by simpa using hword
        simp [isFraction, hx]
    · simp [isFraction, hd]

theorem numberFrom_append (hw : ∀ x ∈ w, isNameChar x = true) (hr : Separates r) :
    numberFrom c (w ++ r) = ((numberFrom c w).1, (numberFrom c w).2 ++ r) := by
  have hstop := hr.any_eq_false isNameChar_of_isWordChar
  simp only [numberFrom, takeWhile_append_stop hstop]
  have hrest : isFraction (w.dropWhile isWordChar ++ r) = false
      ∧ isFraction (w.dropWhile isWordChar) = false := by
    cases hdrop : w.dropWhile isWordChar with
    | nil => exact ⟨isFraction_of_separates hr, rfl⟩
    | cons x rest =>
      have hx : x ≠ '.' := by
        rintro rfl
        have hname := hw '.' ((List.dropWhile_suffix _).subset (hdrop ▸ List.mem_cons_self))
        cases hname
      simp [isFraction, hx]
  simp only [hrest]
  rfl

theorem markFrom_append_colon (hr : Separates r) :
    markFrom ':' (w ++ r) = ((markFrom ':' w).1, (markFrom ':' w).2 ++ r) := by
  have hjoins (d : Char) : joinsMark ':' d = decide (d = ':') := by
    simp [joinsMark, longMarks, eq_comm]
  have hsingle {cs : List Char} (h : cs.head? ≠ some ':') : markFrom ':' cs = (.mark [':'], cs) := by
    refine markFrom_single ?_
    cases cs <;> simp_all
  cases w with
  | nil =>
    rw [List.nil_append, hsingle (hr.head?_ne (by decide)), hsingle (by simp)]
    rfl
  | cons x w =>
    by_cases hx : x = ':'
    · subst hx
      rfl
    · rw [List.cons_append, hsingle (by simpa using hx), hsingle (by simpa using hx)]
      rfl

theorem tokenFrom_append (hc : isNameChar c = true) (hw : ∀ x ∈ w, isNameChar x = true)
    (hr : Separates r) : tokenFrom c (w ++ r) = ((tokenFrom c w).1, (tokenFrom c w).2 ++ r) := by
  by_cases hword : isWordStart c = true
  · simp only [tokenFrom, hword, if_true, wordFrom_append hr]
  · by_cases hdigit : c.isDigit = true
    · simp only [tokenFrom, hword, hdigit, Bool.false_eq_true, if_true, if_false,
        numberFrom_append hw hr]
    · obtain rfl | rfl : c = ':' ∨ c = '#' := by
        simp_all [isNameChar, isWordChar, isWordStart, Char.isAlphanum]
      · exact markFrom_append_colon hr
      · have hsingle (cs : List Char) : tokenFrom '#' cs = (.mark ['#'], cs) := by
          refine (tokenFrom_of_isMarkStart cs (by decide)).2.trans (markFrom_single ?_)
          cases cs <;> simp [joinsMark, longMarks]
        rw [hsingle, hsingle]

theorem isSpace_of_isNameChar (hc : isNameChar c = true) : isSpace c = false :=
  decide_eq_false (notMem_of_all (by rfl) hc)

/-- Names and integers are read without what follows them. -/
theorem lex_append_of_nameChars (hw : ∀ x ∈ w, isNameChar x = true) (hr : Separates r) :
    lex (w ++ r) = lex w ++ lex r := by
  induction hlength : w.length using Nat.strongRecOn generalizing w with
  | ind n ih =>
    cases w with
    | nil => rw [lex_nil, List.nil_append, List.nil_append]
    | cons c w =>
      obtain ⟨hc, hw⟩ := List.forall_mem_cons.mp hw
      have hrest := suffix_of_tokenFrom c w
      have hspace := isSpace_of_isNameChar hc
      rw [List.cons_append, lex_token _ hspace, lex_token _ hspace, tokenFrom_append hc hw hr,
        List.cons_append, ih _ ?_ (fun x hx => hw x (hrest.subset hx)) rfl]
      rw [← hlength]
      exact Nat.lt_succ_of_le hrest.length_le

/-! ## Numbers -/

theorem isWordChar_of_isDigit (c : Char) (h : c.isDigit = true) : isWordChar c = true := by
  simp [isWordChar, Char.isAlphanum, h]

theorem isWordStart_of_isDigit (h : c.isDigit = true) : isWordStart c = false := by
  have hletter : c.isAlpha = false := Grammar.isLetter_of_isDigit h
  have hscore : c ≠ '_' := by
    rintro rfl
    cases h
  simp [isWordStart, hletter, hscore]

/-- A decimal is one token. -/
theorem lex_decimal {cs : List Char} (h : IsDecimal cs) (hr : Separates r) :
    lex (cs ++ r) = .number cs :: lex r := by
  obtain ⟨ds, fs, hds, hfs, rfl⟩ := h
  obtain ⟨-, hdigits⟩ := Grammar.isDigits_iff.mp hds
  obtain ⟨hne, hdigits'⟩ := Grammar.isDigits_iff.mp hfs
  cases ds with
  | nil => cases hds
  | cons d ds =>
    obtain ⟨hd, hdigits⟩ := List.forall_mem_cons.mp hdigits
    have hwhole : (ds ++ '.' :: (fs ++ r)).takeWhile isWordChar = ds
        ∧ (ds ++ '.' :: (fs ++ r)).dropWhile isWordChar = '.' :: (fs ++ r) :=
      takeWhile_append_of_stop (fun x hx => isWordChar_of_isDigit x (hdigits x hx)) rfl
    have hfraction : (fs ++ r).takeWhile isWordChar = fs ∧ (fs ++ r).dropWhile isWordChar = r :=
      takeWhile_append_of_stop (fun x hx => isWordChar_of_isDigit x (hdigits' x hx))
        (hr.any_eq_false isNameChar_of_isWordChar)
    have hpoint : isFraction ('.' :: (fs ++ r)) = true := by
      cases fs with
      | nil => exact absurd rfl hne
      | cons f fs =>
        have hf := hdigits' f List.mem_cons_self
        have hdot : f ≠ '.' := by
          rintro rfl
          cases hf
        simp [isFraction, isWordStart_of_isDigit hf, hdot]
    have htoken : tokenFrom d (ds ++ '.' :: (fs ++ r)) = (.number (d :: ds ++ '.' :: fs), r) := by
      rw [tokenFrom, if_neg (by simp [isWordStart_of_isDigit hd]), if_pos hd]
      simp only [numberFrom, hwhole, hpoint, if_true, List.drop_succ_cons, List.drop_zero, hfraction]
    have hspace := isSpace_of_isNameChar (isNameChar_of_isWordChar d (isWordChar_of_isDigit d hd))
    rw [List.append_assoc, List.cons_append, List.cons_append, lex_token _ hspace, htoken]

/-! ## Quoted text -/

theorem exists_of_mem_toDigits {b n : Nat} (hb : 1 < b) {x : Char} (hx : x ∈ Nat.toDigits b n) :
    ∃ d < b, x = Nat.digitChar d := by
  induction n using Nat.strongRecOn with
  | ind n ih =>
    rw [Nat.toDigits_eq_if hb] at hx
    split at hx
    · next hlt => exact ⟨n, hlt, List.mem_singleton.mp hx⟩
    · next hge =>
      rcases List.mem_append.mp hx with hx | hx
      · exact ih (n / b) (Nat.div_lt_self (by omega) hb) hx
      · exact ⟨n % b, Nat.mod_lt _ (by omega), List.mem_singleton.mp hx⟩

/-- Characters other than quotes and backslashes are passed over. -/
theorem stringTail_append {w : List Char} (hw : ∀ x ∈ w, x ≠ '\x22' ∧ x ≠ '\\')
    (cs : List Char) :
    stringTail (w ++ cs) = (stringTail cs).map fun (text, rest) => (w ++ text, rest) := by
  induction w with
  | nil => simp
  | cons x w ih =>
    obtain ⟨hx, hw⟩ := List.forall_mem_cons.mp hw
    rw [List.cons_append, stringTail, ih hw, Option.map_map]
    · rfl
    · simp [hx.1]
    · simp [hx.2]

/-- The characters with an escape of their own between double quotes, each after its letter. -/
def Text.letterEscapes : List (Char × Char) :=
  [('0', '\x00'), ('t', '\t'), ('r', '\r'), ('n', '\n'), ('\\', '\\'), ('\x22', '\x22')]

/-- A character is written by its letter, if it has one, and else as itself or by its code point. -/
theorem Text.escapeBy_cases (shown : Char → Bool) (c : Char) :
    (∃ letter, (letter, c) ∈ letterEscapes ∧ escapeBy shown doubleQuote c = ['\\', letter])
      ∨ c ∉ letterEscapes.map Prod.snd
        ∧ (escapeBy shown doubleQuote c = [c] ∨ escapeBy shown doubleQuote c = codePointEscape c) := by
  by_cases hletter : c ∈ letterEscapes.map Prod.snd
  · obtain ⟨⟨letter, c⟩, hmem, rfl⟩ := List.mem_map.mp hletter
    refine Or.inl ⟨letter, hmem, ?_⟩
    simp only [letterEscapes, List.mem_cons, Prod.mk.injEq, List.not_mem_nil, or_false] at hmem
    rcases hmem with ⟨rfl, rfl⟩ | ⟨rfl, rfl⟩ | ⟨rfl, rfl⟩ | ⟨rfl, rfl⟩ | ⟨rfl, rfl⟩ | ⟨rfl, rfl⟩ <;> rfl
  · refine Or.inr ⟨hletter, ?_⟩
    simp only [letterEscapes, List.map_cons, List.map_nil, List.mem_cons, List.not_mem_nil, or_false,
      not_or] at hletter
    simp only [escapeBy, doubleQuote, hletter, if_false]
    exact ite_eq_or_eq _ _ _

/-- A code point is written in digits and braces after the backslash and the letter. -/
theorem Text.notMem_codePoint (c : Char) {x : Char}
    (hx : x ∉ '\x7b' :: '\x7d' :: (List.range 16).map Nat.digitChar) :
    x ∉ '\x7b' :: Nat.toDigits 16 c.toNat ++ ['\x7d'] := by
  intro hmem
  simp only [List.cons_append, List.mem_cons, List.mem_append, List.not_mem_nil, or_false] at hmem
  rcases hmem with rfl | hdigit | rfl
  · simp at hx
  · obtain ⟨d, hd, rfl⟩ := exists_of_mem_toDigits (by decide) hdigit
    have hrange : Nat.digitChar d ∈ (List.range 16).map Nat.digitChar :=
      List.mem_map_of_mem (List.mem_range.mpr hd)
    exact hx (List.mem_cons_of_mem _ (List.mem_cons_of_mem _ hrange))
  · simp at hx

theorem stringTail_escapeBy (shown : Char → Bool) (c : Char) (cs : List Char) :
    stringTail (Text.escapeBy shown Text.doubleQuote c ++ cs) = (stringTail cs).map
      fun (text, rest) => (Text.escapeBy shown Text.doubleQuote c ++ text, rest) := by
  have hescape (x : Char) (cs : List Char) : stringTail ('\\' :: x :: cs)
      = (stringTail cs).map fun (text, rest) => ('\\' :: x :: text, rest) := by
    rw [stringTail]
  obtain ⟨letter, -, heq⟩ | ⟨hplain, heq | heq⟩ := Text.escapeBy_cases shown c
  · rw [heq]
    exact hescape letter cs
  · have hne : c ≠ '\x22' ∧ c ≠ '\\' := by
      constructor <;> rintro rfl <;> exact hplain (by decide)
    rw [heq]
    exact stringTail_append (by simpa using hne) cs
  · have hquote : '\x22' ∉ _ := Text.notMem_codePoint c (by decide)
    have hslash : '\\' ∉ _ := Text.notMem_codePoint c (by decide)
    have hrest := stringTail_append
      (fun x hx => ⟨fun h => hquote (h ▸ hx), fun h => hslash (h ▸ hx)⟩) cs
    rw [heq, Text.codePointEscape]
    simp only [List.cons_append, List.nil_append] at hrest ⊢
    rw [hescape, hrest, Option.map_map]
    rfl

theorem stringTail_escaped (shown : Char → Bool) (cs r : List Char) :
    stringTail (cs.flatMap (Text.escapeBy shown Text.doubleQuote) ++ Text.doubleQuote :: r)
      = some (cs.flatMap (Text.escapeBy shown Text.doubleQuote) ++ [Text.doubleQuote], r) := by
  induction cs with
  | nil => rfl
  | cons c cs ih =>
    rw [List.flatMap_cons, List.append_assoc, stringTail_escapeBy, ih, Option.map_some,
      List.append_assoc]

/-- A quoted text is one token, whichever characters it shows as themselves. -/
theorem lex_quotedBy (shown : Char → Bool) (cs r : List Char) :
    lex (Text.quotedBy shown cs ++ r) = .string (Text.quotedBy shown cs) :: lex r := by
  have htoken : tokenFrom '\x22' (cs.flatMap (Text.escapeBy shown Text.doubleQuote)
      ++ Text.doubleQuote :: r) = (.string (Text.quotedBy shown cs), r) := by
    show (match stringTail _ with | some (text, rest) => _ | none => _) = _
    rw [stringTail_escaped]
    rfl
  have htext : Text.quotedBy shown cs ++ r = '\x22' :: (cs.flatMap
      (Text.escapeBy shown Text.doubleQuote) ++ Text.doubleQuote :: r) := by
    simp [Text.quotedBy, Text.doubleQuote]
  rw [htext, lex_token _ (by decide), htoken]

end Playbooks
