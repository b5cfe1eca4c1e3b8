import Mathlib.Data.List.Forall2
import Playbooks.Proofs.Program.Comments

/-!
# Layout keeps the tokens

A term on one line and the same term broken over several lines have the same tokens, except for the
commas that are written after the last item of a broken list. Neither the level of indentation nor
the columns written before the term play a part.

## Main definitions

* `tidy`: tokens without the commas before closing delimiters.
* `Term.Spelled`: paths and identifiers are names, and no comment opens another one.
* `Term.tokens`: the tokens of a term, said without its text.
* `Lays`: a text lays out tokens, wherever the text stands.

## Main results

* `Term.lays_flat`, `Term.lays_layout`: the text on one line and every other one lay out the tokens.
* `Term.layout_keeps_tokens`: no layout changes the program.
-/
namespace Playbooks

/-! ## Commas -/

namespace Token

def comma : Token := .mark [',']

def isCloser : Token → Bool
  | mark text => text ∈ [[')'], [']'], ['\x7d']]
  | _ => false

end Token

/-- Tokens without the commas that stand directly before a closing delimiter. -/
def tidy : List Token → List Token
  | [] => []
  | t :: ts => if t = .comma ∧ ts.head?.any Token.isCloser then tidy ts else t :: tidy ts

section Tidy

variable {t : Token} {ts : List Token}

theorem tidy_cons (h : t ≠ .comma) : tidy (t :: ts) = t :: tidy ts := by
  rw [tidy, if_neg fun hcomma => h hcomma.1]

theorem tidy_append {xs : List Token} (h : .comma ∉ xs) : tidy (xs ++ ts) = xs ++ tidy ts := by
  induction xs with
  | nil => rfl
  | cons x xs ih =>
    rw [List.mem_cons, not_or] at h
    rw [List.cons_append, tidy_cons (Ne.symm h.1), ih h.2, List.cons_append]

theorem tidy_comma (h : ts.head?.any Token.isCloser = false) :
    tidy (.comma :: ts) = .comma :: tidy ts := by
  rw [tidy, if_neg (by simp [h])]

theorem tidy_trailing_comma (h : ts.head?.any Token.isCloser = true) :
    tidy (.comma :: ts) = tidy ts := by
  rw [tidy, if_pos ⟨rfl, h⟩]

end Tidy

/-- Lists of tokens with commas between them. -/
def commaSeparated : List (List Token) → List Token
  | [] => []
  | [x] => x
  | x :: xs => x ++ .comma :: commaSeparated xs

theorem commaSeparated_cons (x : List Token) {xs : List (List Token)} (h : xs ≠ []) :
    commaSeparated (x :: xs) = x ++ .comma :: commaSeparated xs := by
  cases xs with
  | nil => exact absurd rfl h
  | cons y ys => rfl

/-- Items between delimiters. -/
def enclosed (start stop : Char) (items : List (List Token)) : List Token :=
  .mark [start] :: commaSeparated items ++ [.mark [stop]]

/-! ## Tokens of terms -/

/-- A word, or several words with colons between them. -/
def isName : List Char → Bool
  | [] => false
  | c :: cs => isWordStart c && cs.all isNameChar

theorem exists_of_isName {cs : List Char} (h : isName cs = true) :
    ∃ c rest, cs = c :: rest ∧ isWordStart c = true ∧ ∀ x ∈ rest, isNameChar x = true := by
  cases cs with
  | nil => cases h
  | cons c rest =>
    rw [isName, Bool.and_eq_true, List.all_eq_true] at h
    exact ⟨c, rest, rfl, h⟩

def Literal.tokens : Literal → List Token
  | string s => [.string (Text.quoted s.toList)]
  | l => lex l.chars

namespace Term

mutual

/-- Paths and identifiers are names, and no comment opens another one. -/
def Spelled : Term → Prop
  | path name => isName name.toList = true
  | lit _ => True
  | call callee args => callee.Spelled ∧ SpelledAll args
  | method receiver name args =>
    receiver.Spelled ∧ isName name.text.toList = true ∧ SpelledAll args
  | record name fields rest => isName name.toList = true ∧ SpelledFields fields ∧ SpelledRest rest
  | closure params body => (∀ p ∈ params, isName p.text.toList = true) ∧ body.Spelled
  | vector items => SpelledAll items
  | tuple items => SpelledAll items
  | commented comment t => Text.occursIn ['/', '*'] comment.toList = false ∧ t.Spelled

def SpelledAll : List Term → Prop
  | [] => True
  | t :: ts => t.Spelled ∧ SpelledAll ts

def SpelledFields : List (Ident × Term) → Prop
  | [] => True
  | (name, t) :: rest => isName name.text.toList = true ∧ t.Spelled ∧ SpelledFields rest

def SpelledRest : Option Term → Prop
  | none => True
  | some t => t.Spelled

end

/-- The tokens of the parameters of a closure; two bars with nothing between them are one mark. -/
def paramTokens : List Ident → List Token
  | [] => [.mark ['|', '|']]
  | params => .mark ['|'] :: commaSeparated (params.map fun p => lex p.text.toList) ++ [.mark ['|']]

mutual

/-- The tokens of a term. -/
def tokens : Term → List Token
  | path name => lex name.toList
  | lit l => l.tokens
  | call callee args => callee.tokens ++ enclosed '(' ')' (tokensAll args)
  | method receiver name args =>
    receiver.tokens ++ .mark ['.'] :: lex name.text.toList ++ enclosed '(' ')' (tokensAll args)
  | record name fields rest =>
    lex name.toList ++ enclosed '\x7b' '\x7d' (tokensFields fields ++ tokensRest rest)
  | closure params body => paramTokens params ++ body.tokens
  | vector items => .word ['v', 'e', 'c'] :: .mark ['!'] :: enclosed '[' ']' (tokensAll items)
  | tuple items => enclosed '(' ')' (tokensAll items)
  | commented comment t =>
    .comment (['/', '*', ' '] ++ commentText comment ++ [' ', '*', '/']) :: t.tokens

def tokensAll : List Term → List (List Token)
  | [] => []
  | t :: ts => t.tokens :: tokensAll ts

/-- A colon belongs to the name before it. -/
def tokensFields : List (Ident × Term) → List (List Token)
  | [] => []
  | (name, t) :: rest => (lex (name.text.toList ++ [':']) ++ t.tokens) :: tokensFields rest

def tokensRest : Option Term → List (List Token)
  | none => []
  | some t => [.mark ['.', '.'] :: t.tokens]

end

end Term

/-! ## Texts that lay out tokens -/

/-- Characters that can start a term. -/
def isOpening (c : Char) : Bool :=
  !isSpace c && c ∉ [')', ']', '\x7d', '.', '=']

/-- The text has these tokens before anything that separates tokens. -/
def Tidies (cs : List Char) (ts : List Token) : Prop :=
  ∀ r, Separates r → tidy (lex (cs ++ r)) = ts ++ tidy (lex r)

/-- The text has these tokens before a closing delimiter. -/
def Fills (cs : List Char) (ts : List Token) : Prop :=
  ∀ c r, c ∈ [')', ']', '\x7d'] → tidy (lex (cs ++ c :: r)) = ts ++ tidy (lex (c :: r))

/-- The text of an item of a list: a comma before it stays. -/
structure Itemizes (cs : List Char) (ts : List Token) : Prop where
  opens : ∀ r, (lex (cs ++ r)).head?.any Token.isCloser = false
  tidies : Tidies cs ts

/-- The text of a term. -/
structure Lays (cs : List Char) (ts : List Token) : Prop where
  starts : cs.head?.any isOpening = true
  tidies : Tidies cs ts

variable {cs cs' : List Char} {ts ts' : List Token}

theorem any_head?_append (h : cs.head?.any isOpening = true) (r : List Char) :
    (cs ++ r).head?.any isOpening = true := by
  cases cs with
  | nil => cases h
  | cons c cs => exact h

theorem Lays.exists_cons (h : Lays cs ts) :
    ∃ c rest, cs = c :: rest ∧ isSpace c = false ∧ c ∉ [')', ']', '\x7d', '.', '='] := by
  have hstarts := h.starts
  cases cs with
  | nil => cases hstarts
  | cons c rest =>
    have hopening : isOpening c = true := hstarts
    rw [isOpening, Bool.and_eq_true, Bool.not_eq_true', decide_eq_true_eq] at hopening
    exact ⟨c, rest, rfl, hopening⟩

theorem Lays.itemizes (h : Lays cs ts) : Itemizes cs ts := by
  refine ⟨fun r => ?_, h.tidies⟩
  obtain ⟨c, cs, rfl, hspace, hc⟩ := h.exists_cons
  obtain ⟨text, htext, -⟩ := splits_tokenFrom c (cs ++ r)
  rw [List.cons_append, lex_token _ hspace, List.head?_cons, Option.any_some]
  -- A closing delimiter would start with a character that starts no term.
  cases htoken : (tokenFrom c (cs ++ r)).1 with
  | mark m =>
    rw [htoken] at htext
    obtain rfl : m = c :: text := htext
    refine decide_eq_false fun hcloser => hc ?_
    simp only [List.mem_cons, List.cons.injEq, List.not_mem_nil, or_false] at hcloser ⊢
    rcases hcloser with ⟨rfl, -⟩ | ⟨rfl, -⟩ | ⟨rfl, -⟩ <;> simp
  | _ => rfl

theorem Tidies.append (h : Tidies cs ts) (h' : Tidies cs' ts')
    (hseparates : ∀ r, Separates (cs' ++ r)) : Tidies (cs ++ cs') (ts ++ ts') := by
  intro r hr
  rw [List.append_assoc, h _ (hseparates r), h' r hr, List.append_assoc]

theorem Tidies.fills (h : Tidies cs ts) : Fills cs ts := by
  intro c r hc
  refine h _ (Or.inl ?_)
  simp only [List.mem_cons, List.not_mem_nil, or_false] at hc
  rcases hc with rfl | rfl | rfl <;> simp

theorem lex_indent (level : Nat) (cs : List Char) : lex (indent level ++ cs) = lex cs := by
  rw [indent]
  induction indentWidth * level with
  | zero => rfl
  | succ n ih => rw [List.replicate_succ, List.cons_append, lex_space _ (by decide), ih]

/-- Blanks around a text play no part. -/
theorem Fills.space {c : Char} (hc : isSpace c = true) (h : Fills cs ts) : Fills (c :: cs) ts := by
  intro d r hd
  rw [List.cons_append, lex_space _ hc, h d r hd]

theorem tidy_lex_delimiter {c : Char} (hc : c ∈ ['(', ')', '[', ']', '\x7b', '\x7d'])
    (cs : List Char) : tidy (lex (c :: cs)) = .mark [c] :: tidy (lex cs) := by
  have hcomma : Token.mark [c] ≠ .comma := by
    intro heq
    cases heq
    simp at hc
  rw [lex_delimiter (List.mem_append_left [','] hc), tidy_cons hcomma]

theorem head_lex_closer {c : Char} (hc : c ∈ [')', ']', '\x7d']) (cs : List Char) :
    (lex (c :: cs)).head?.any Token.isCloser = true := by
  simp only [List.mem_cons, List.not_mem_nil, or_false] at hc
  rcases hc with rfl | rfl | rfl <;> rw [lex_delimiter (by simp)] <;> rfl

theorem Fills.enclose {items : List (List Token)} (h : Fills cs (commaSeparated items))
    (start stop : Char) (hstart : start ∈ ['(', '[', '\x7b'])
    (hstop : stop ∈ [')', ']', '\x7d']) :
    Tidies (start :: cs ++ [stop]) (enclosed start stop items) := by
  have hdelimiters : start ∈ ['(', ')', '[', ']', '\x7b', '\x7d']
      ∧ stop ∈ ['(', ')', '[', ']', '\x7b', '\x7d'] := by
    simp only [List.mem_cons, List.not_mem_nil, or_false] at hstart hstop ⊢
    rcases hstart with rfl | rfl | rfl <;> rcases hstop with rfl | rfl | rfl <;> simp
  intro r hr
  calc tidy (lex (start :: cs ++ [stop] ++ r))
      = tidy (lex (start :: (cs ++ stop :: r))) := by simp
    _ = .mark [start] :: (commaSeparated items ++ .mark [stop] :: tidy (lex r)) := by
      rw [tidy_lex_delimiter hdelimiters.1, h stop r hstop, tidy_lex_delimiter hdelimiters.2]
    _ = enclosed start stop items ++ tidy (lex r) := by simp [enclosed]

/-! ## Lists -/

theorem Itemizes.comma (h : Itemizes cs ts) (h' : Itemizes cs' ts') :
    Itemizes (cs ++ ',' :: ' ' :: cs') (ts ++ .comma :: ts') where
  opens := by
    intro r
    rw [List.append_assoc]
    exact h.opens _
  tidies := by
    intro r hr
    have hseparates : Separates (',' :: ' ' :: (cs' ++ r)) := Or.inl (by simp)
    calc tidy (lex (cs ++ ',' :: ' ' :: cs' ++ r))
        = ts ++ tidy (lex (',' :: ' ' :: (cs' ++ r))) := by
          rw [← h.tidies _ hseparates]
          simp
      _ = ts ++ tidy (.comma :: lex (cs' ++ r)) := by
          rw [lex_delimiter (by simp), lex_space _ (by decide)]
          rfl
      _ = ts ++ .comma :: ts' ++ tidy (lex r) := by
          rw [tidy_comma (h'.opens r), h'.tidies r hr]
          simp

section Items

variable {texts : List (List Char)} {items : List (List Token)}

/-- Items on one line. -/
theorem itemizes_join (h : List.Forall₂ Itemizes texts items) (hne : texts ≠ []) :
    Itemizes (Text.join [',', ' '] texts) (commaSeparated items) := by
  induction h with
  | nil => exact absurd rfl hne
  | cons hitem hitems ih =>
    cases hitems with
    | nil => exact hitem
    | cons hnext hrest =>
      have htail := ih (List.cons_ne_nil _ _)
      simpa [Text.join, commaSeparated] using hitem.comma htail

theorem fills_join (h : List.Forall₂ Itemizes texts items) :
    Fills (Text.join [',', ' '] texts) (commaSeparated items) := by
  cases h with
  | nil => exact fun _ _ _ => rfl
  | cons hitem hitems =>
    exact (itemizes_join (.cons hitem hitems) (List.cons_ne_nil _ _)).tidies.fills

/-- Items on lines of their own, each with a comma after it. -/
def itemLines (level : Nat) (texts : List (List Char)) : List Char :=
  texts.flatMap fun text => indent level ++ text ++ [',', '\n']

theorem itemLines_cons (level : Nat) (text : List Char) (texts : List (List Char))
    (rest : List Char) : itemLines level (text :: texts) ++ rest
      = indent level ++ (text ++ ',' :: '\n' :: (itemLines level texts ++ rest)) := by
  simp [itemLines]

theorem Itemizes.tidy_lex_line (h : Itemizes cs ts) (level : Nat) (rest : List Char) :
    tidy (lex (indent level ++ (cs ++ ',' :: '\n' :: rest))) = ts ++ tidy (.comma :: lex rest) := by
  have hseparates : Separates (',' :: '\n' :: rest) := Or.inl (by simp)
  rw [lex_indent, h.tidies _ hseparates, lex_delimiter (by simp), lex_space _ (by decide)]
  rfl

theorem Itemizes.opens_itemLines (h : Itemizes cs ts) (level : Nat) (texts : List (List Char))
    (rest : List Char) :
    (lex (itemLines level (cs :: texts) ++ rest)).head?.any Token.isCloser = false := by
  rw [itemLines_cons, lex_indent]
  exact h.opens _

/-- The comma of the last line is dropped, and the others stay. -/
theorem fills_itemLines (h : List.Forall₂ Itemizes texts items) (level outer : Nat) :
    Fills (itemLines level texts ++ indent outer) (commaSeparated items) := by
  intro c r hc
  rw [List.append_assoc]
  induction h with
  | nil =>
    rw [itemLines, List.flatMap_nil, List.nil_append, lex_indent]
    rfl
  | cons hitem hitems ih =>
    rw [itemLines_cons, hitem.tidy_lex_line]
    cases hitems with
    | nil =>
      rw [itemLines, List.flatMap_nil, List.nil_append, lex_indent,
        tidy_trailing_comma (head_lex_closer hc r)]
      rfl
    | cons hnext hrest =>
      rw [tidy_comma (hnext.opens_itemLines level _ _), ih,
        commaSeparated_cons _ (List.cons_ne_nil _ _), List.append_assoc]
      rfl

/-- A last item without a comma after it. -/
theorem fills_itemLines_last (h : List.Forall₂ Itemizes texts items) {text : List Char}
    {item : List Token} (hlast : Itemizes text item) (level outer : Nat) :
    Fills (itemLines level texts ++ (indent level ++ (text ++ '\n' :: indent outer)))
      (commaSeparated (items ++ [item])) := by
  intro c r hc
  have htail : tidy (lex (indent level ++ (text ++ '\n' :: (indent outer ++ c :: r))))
      = item ++ tidy (lex (c :: r)) := by
    have hseparates : Separates ('\n' :: (indent outer ++ c :: r)) := Or.inl (by simp)
    rw [lex_indent, hlast.tidies _ hseparates, lex_space _ (by decide), lex_indent]
  have hopens : (lex (indent level ++ (text ++ '\n' :: (indent outer ++ c :: r)))).head?.any
      Token.isCloser = false := by
    rw [lex_indent]
    exact hlast.opens _
  simp only [List.append_assoc, List.cons_append]
  induction h with
  | nil => exact htail
  | cons hitem hitems ih =>
    rw [itemLines_cons, hitem.tidy_lex_line, List.cons_append, commaSeparated_cons _ (by simp),
      tidy_comma, ih, List.append_assoc]
    · rfl
    · cases hitems with
      | nil => exact hopens
      | cons hnext hrest => exact hnext.opens_itemLines level _ _

end Items

/-- A broken list is empty or has lines of its own. -/
theorem Fills.broken {level : Nat} (h : Fills (cs ++ indent level) ts) :
    Fills (Term.broken level cs) ts := by
  cases cs with
  | nil =>
    intro c r hc
    have hfills := h c r hc
    rwa [List.nil_append, lex_indent] at hfills
  | cons c cs => exact h.space (by decide)

/-! ## Names and literals -/

/-- A text that is read without what follows it, and that has no comma. -/
theorem lays_lex (hstarts : cs.head?.any isOpening = true) (hcomma : ',' ∉ cs)
    (hreads : ∀ r, Separates r → lex (cs ++ r) = lex cs ++ lex r) : Lays cs (lex cs) where
  starts := hstarts
  tidies := by
    intro r hr
    have hnone : Token.comma ∉ lex cs := by
      intro hmem
      exact hcomma (mem_of_mem_lex hmem List.mem_cons_self)
    rw [hreads r hr, tidy_append hnone]

theorem isOpening_of_isWordChar {c : Char} (h : isWordChar c = true) : isOpening c = true := by
  have hc : c ∉ [')', ']', '\x7d', '.', '='] := notMem_of_all (by rfl) h
  simp [isOpening, isSpace_of_isNameChar (isNameChar_of_isWordChar c h), hc]

theorem lays_nameChars {c : Char} (hc : isWordChar c = true)
    (h : ∀ x ∈ cs, isNameChar x = true) : Lays (c :: cs) (lex (c :: cs)) := by
  have hall : ∀ x ∈ c :: cs, isNameChar x = true :=
    List.forall_mem_cons.mpr ⟨isNameChar_of_isWordChar c hc, h⟩
  refine lays_lex (isOpening_of_isWordChar hc) ?_ fun r hr => lex_append_of_nameChars hall hr
  intro hmem
  cases hall ',' hmem

theorem lays_name (h : isName cs = true) : Lays cs (lex cs) := by
  obtain ⟨c, rest, rfl, hc, hrest⟩ := exists_of_isName h
  exact lays_nameChars (isWordChar_of_isWordStart c hc) hrest

/-- A minus is a token of its own before a number or a word. -/
theorem Lays.minus (h : Lays cs (lex cs)) (hhead : cs.head?.any isWordChar = true) :
    Lays ('-' :: cs) (lex ('-' :: cs)) := by
  have hminus (r : List Char) : lex ('-' :: (cs ++ r)) = .mark ['-'] :: lex (cs ++ r) := by
    cases cs with
    | nil => cases hhead
    | cons c cs => exact lex_mark_word (by decide) hhead _
  refine ⟨rfl, fun r hr => ?_⟩
  have hsigned : lex ('-' :: cs) = .mark ['-'] :: lex cs := by simpa using hminus []
  rw [List.cons_append, hminus, hsigned, tidy_cons (by decide), h.tidies r hr, List.cons_append]

theorem lays_digits {n : Nat} {suffix : List Char} (hsuffix : ∀ x ∈ suffix, isNameChar x = true) :
    Lays (Nat.toDigits 10 n ++ suffix) (lex (Nat.toDigits 10 n ++ suffix))
      ∧ (Nat.toDigits 10 n ++ suffix).head?.any isWordChar = true := by
  obtain ⟨hne, hdigits⟩ := Grammar.isDigits_iff.mp (isDigits_toDigits n)
  cases hds : Nat.toDigits 10 n with
  | nil => exact absurd hds hne
  | cons d ds =>
    rw [hds] at hdigits
    obtain ⟨hd, hdigits⟩ := List.forall_mem_cons.mp hdigits
    have hword := isWordChar_of_isDigit d hd
    refine ⟨lays_nameChars hword fun x hx => ?_, hword⟩
    rcases List.mem_append.mp hx with hx | hx
    · exact isNameChar_of_isWordChar x (isWordChar_of_isDigit x (hdigits x hx))
    · exact hsuffix x hx

theorem lays_decimal (h : IsDecimal cs) : Lays cs (lex cs) ∧ cs.head?.any isWordChar = true := by
  have hlex : lex cs = [.number cs] := by
    have hall := lex_decimal (r := []) h trivial
    rwa [List.append_nil, lex_nil] at hall
  have hreads (r : List Char) (hr : Separates r) : lex (cs ++ r) = lex cs ++ lex r := by
    rw [lex_decimal h hr, hlex]
    rfl
  obtain ⟨ds, fs, hds, hfs, rfl⟩ := h
  have hdigits := (Grammar.isDigits_iff.mp hds).2
  have hcomma : ',' ∉ ds ++ '.' :: fs := by
    intro hmem
    rcases List.mem_append.mp hmem with hmem | hmem
    · cases hdigits ',' hmem
    · cases (Grammar.isDigits_iff.mp hfs).2 ',' (by simpa using hmem)
  cases ds with
  | nil => cases hds
  | cons d ds =>
    have hword := isWordChar_of_isDigit d (hdigits d List.mem_cons_self)
    exact ⟨lays_lex (isOpening_of_isWordChar hword) hcomma hreads, hword⟩

/-- A number that is not finite is written as a word, a point and a zero. -/
theorem lays_notFinite (name : List Char) (h : name ∈ [['N', 'a', 'N'], ['i', 'n', 'f']]) :
    Lays (name ++ ['.', '0']) (lex (name ++ ['.', '0'])) := by
  have hzero (r : List Char) (hr : Separates r) :
      lex ('.' :: '0' :: r) = .mark ['.'] :: (lex ['0'] ++ lex r) := by
    rw [lex_mark_word (by decide) (by decide)]
    exact congrArg _ (lex_append_of_nameChars (w := ['0']) (List.all_eq_true.mp rfl) hr)
  have hword (r : List Char) : lex (name ++ '.' :: '0' :: r) = .word name :: lex ('.' :: '0' :: r) := by
    simp only [List.mem_cons, List.not_mem_nil, or_false] at h
    rcases h with rfl | rfl
    · exact lex_token ('a' :: 'N' :: '.' :: '0' :: r) (by decide)
    · exact lex_token ('n' :: 'f' :: '.' :: '0' :: r) (by decide)
  refine lays_lex ?_ ?_ fun r hr => ?_
  · simp only [List.mem_cons, List.not_mem_nil, or_false] at h
    rcases h with rfl | rfl <;> rfl
  · simp only [List.mem_cons, List.not_mem_nil, or_false] at h
    rcases h with rfl | rfl <;> simp
  · rw [List.append_assoc, List.cons_append, List.cons_append, List.nil_append, hword, hword,
      hzero r hr, hzero [] trivial, lex_nil, List.append_nil]
    rfl

theorem lays_float (x : Float) :
    Lays (Float64.sourceText x).toList (lex (Float64.sourceText x).toList) := by
  rcases Float64.sourceText_cases x with hnamed | ⟨magnitude, hdecimal, heq⟩
  · simp only [List.mem_cons, List.not_mem_nil, or_false] at hnamed
    rcases hnamed with heq | heq | heq
    · rw [heq]
      exact lays_notFinite ['N', 'a', 'N'] (by simp)
    · rw [heq]
      exact lays_notFinite ['i', 'n', 'f'] (by simp)
    · rw [heq]
      exact (lays_notFinite ['i', 'n', 'f'] (by simp)).minus rfl
  · obtain ⟨hlays, hhead⟩ := lays_decimal hdecimal
    rw [heq, Float64.signed]
    split
    · exact hlays.minus hhead
    · exact hlays

theorem lays_int (i : Int64) : Lays (Literal.int i).chars (lex (Literal.int i).chars) := by
  have hsuffix : ∀ x ∈ (if fitsInt32 i then [] else "_i64".toList), isNameChar x = true := by
    split
    · simp
    · exact List.all_eq_true.mp rfl
  obtain ⟨hlays, hhead⟩ := lays_digits (n := i.toInt.natAbs) hsuffix
  change Lays ((toString i.toInt).toList ++ _) (lex ((toString i.toInt).toList ++ _))
  rw [toList_toString_int]
  split
  · exact hlays.minus hhead
  · exact hlays

theorem lays_literal (l : Literal) : Lays l.chars l.tokens := by
  cases l with
  | string s =>
    refine ⟨rfl, fun r _ => ?_⟩
    change tidy (lex (Text.quotedBy _ s.toList ++ r)) = _
    rw [lex_quotedBy, tidy_cons (by simp [Token.comma])]
    rfl
  | int i => exact lays_int i
  | float x => exact lays_float x
  | bool b => cases b <;> exact lays_nameChars (by decide) (List.all_eq_true.mp rfl)

/-! ## Forms of terms -/

section Forms

variable {name : List Char} {items : List (List Token)}

theorem Lays.append (h : Lays cs ts) (h' : Tidies cs' ts')
    (hseparates : ∀ r, Separates (cs' ++ r)) : Lays (cs ++ cs') (ts ++ ts') :=
  ⟨any_head?_append h.starts _, h.tidies.append h' hseparates⟩

theorem Lays.call (h : Lays cs ts) (hargs : Fills cs' (commaSeparated items)) :
    Lays (cs ++ '(' :: cs' ++ [')']) (ts ++ enclosed '(' ')' items) := by
  rw [List.append_assoc]
  exact h.append (hargs.enclose '(' ')' (by simp) (by simp)) fun r => Or.inl (by simp)

/-- The call of a method, from its point on. -/
theorem tidies_method (hname : isName name = true) (hargs : Fills cs' (commaSeparated items)) :
    Tidies ('.' :: (name ++ '(' :: cs' ++ [')']))
      (.mark ['.'] :: (lex name ++ enclosed '(' ')' items)) := by
  intro r hr
  have hpoint (rest : List Char) :
      lex ('.' :: (name ++ rest)) = .mark ['.'] :: lex (name ++ rest) := by
    obtain ⟨c, cs, rfl, hc, -⟩ := exists_of_isName hname
    exact lex_mark_word (by decide) (isWordChar_of_isWordStart c hc) _
  have hcall := ((lays_name hname).call hargs).tidies r hr
  simp only [List.append_assoc, List.cons_append] at hcall ⊢
  rw [hpoint, tidy_cons (by decide), hcall]

/-- A method on the line of its receiver. -/
theorem Lays.method (h : Lays cs ts) (hname : isName name = true)
    (hargs : Fills cs' (commaSeparated items)) :
    Lays (cs ++ '.' :: (name ++ '(' :: cs' ++ [')']))
      (ts ++ .mark ['.'] :: (lex name ++ enclosed '(' ')' items)) := by
  refine h.append (tidies_method hname hargs) fun r => Or.inr ⟨rfl, ?_⟩
  obtain ⟨c, cs, rfl, hc, -⟩ := exists_of_isName hname
  exact hc

/-- A method on a line of its own. -/
theorem Lays.method_newline (h : Lays cs ts) (hname : isName name = true)
    (hargs : Fills cs' (commaSeparated items)) (level : Nat) :
    Lays (cs ++ '\n' :: (indent level ++ '.' :: (name ++ '(' :: cs' ++ [')'])))
      (ts ++ .mark ['.'] :: (lex name ++ enclosed '(' ')' items)) := by
  refine h.append (fun r hr => ?_) fun r => Or.inl (by simp)
  rw [List.cons_append, lex_space _ (by decide), List.append_assoc, lex_indent]
  exact tidies_method hname hargs r hr

theorem lays_record (hname : isName name = true) (hfields : Fills cs (commaSeparated items)) :
    Lays (name ++ ' ' :: ('\x7b' :: cs ++ ['\x7d']))
      (lex name ++ enclosed '\x7b' '\x7d' items) := by
  refine (lays_name hname).append (fun r hr => ?_) fun r => Or.inl (by simp)
  rw [List.cons_append, lex_space _ (by decide)]
  exact hfields.enclose '\x7b' '\x7d' (by simp) (by simp) r hr

theorem lays_vector (h : Fills cs (commaSeparated items)) :
    Lays ('v' :: 'e' :: 'c' :: '!' :: ('[' :: cs ++ [']']))
      (.word ['v', 'e', 'c'] :: .mark ['!'] :: enclosed '[' ']' items) := by
  refine ⟨rfl, fun r hr => ?_⟩
  have hword (rest : List Char) : lex ('v' :: 'e' :: 'c' :: '!' :: '[' :: rest)
      = .word ['v', 'e', 'c'] :: lex ('!' :: '[' :: rest) :=
    lex_token ('e' :: 'c' :: '!' :: '[' :: rest) (by decide)
  have hmark (rest : List Char) : lex ('!' :: '[' :: rest) = .mark ['!'] :: lex ('[' :: rest) :=
    lex_mark_cons (by decide) (joinsMark_eq_false '!' (by decide)) rest
  have hitems := h.enclose '[' ']' (by simp) (by simp) r hr
  simp only [List.cons_append] at hitems ⊢
  rw [hword, hmark, tidy_cons (by decide), tidy_cons (by decide), hitems]

theorem lays_tuple (h : Fills cs (commaSeparated items)) :
    Lays ('(' :: cs ++ [')']) (enclosed '(' ')' items) :=
  ⟨rfl, h.enclose '(' ')' (by simp) (by simp)⟩

theorem Lays.commented {comment : String}
    (hcomment : Text.occursIn ['/', '*'] comment.toList = false) (h : Lays cs ts) :
    Lays (Term.commentHead comment ++ cs)
      (.comment (['/', '*', ' '] ++ Term.commentText comment ++ [' ', '*', '/']) :: ts) := by
  refine ⟨rfl, fun r hr => ?_⟩
  rw [List.append_assoc, Term.lex_commentHead hcomment, tidy_cons (by simp [Token.comma]),
    h.tidies r hr]
  rfl

theorem tidy_lex_bar {c : Char} (h : joinsMark '|' c = false) (rest : List Char) :
    tidy (lex ('|' :: c :: rest)) = .mark ['|'] :: tidy (lex (c :: rest)) := by
  rw [lex_mark_cons (by decide) h, tidy_cons (by decide)]

/-- Joined pieces start with the first one. -/
theorem exists_join_eq (sep piece : List Char) (pieces : List (List Char)) :
    ∃ more, Text.join sep (piece :: pieces) = piece ++ more := by
  cases pieces with
  | nil => exact ⟨[], (List.append_nil _).symm⟩
  | cons next pieces => exact ⟨sep ++ Text.join sep (next :: pieces), List.append_assoc ..⟩

theorem itemizes_names {params : List Ident}
    (h : ∀ p ∈ params, isName p.text.toList = true) : List.Forall₂ Itemizes
      (params.map (·.text.toList)) (params.map fun p => lex p.text.toList) := by
  induction params with
  | nil => exact .nil
  | cons p params ih =>
    obtain ⟨hp, hparams⟩ := List.forall_mem_cons.mp h
    exact .cons (lays_name hp).itemizes (ih hparams)

theorem tidies_closureHead {params : List Ident}
    (hparams : ∀ p ∈ params, isName p.text.toList = true) (rest : List Char) :
    tidy (lex (Term.closureHead params ++ rest)) = Term.paramTokens params ++ tidy (lex rest) := by
  cases params with
  | nil =>
    show tidy (lex ('|' :: '|' :: ' ' :: rest)) = _
    rw [lex_bars, tidy_cons (by decide), lex_space _ (by decide)]
    rfl
  | cons p params =>
    have hnames := itemizes_join (itemizes_names hparams) (List.cons_ne_nil _ _)
    have hclose : Separates ('|' :: ' ' :: rest) := Or.inl (by simp)
    have hopen (rest : List Char) :
        tidy (lex ('|' :: (Text.join [',', ' '] ((p :: params).map (·.text.toList)) ++ rest)))
          = .mark ['|'] :: tidy (lex (Text.join [',', ' '] ((p :: params).map (·.text.toList))
            ++ rest)) := by
      obtain ⟨more, hjoin⟩ := exists_join_eq [',', ' '] p.text.toList (params.map (·.text.toList))
      obtain ⟨c, cs, hcs, hc, -⟩ := exists_of_isName (hparams p List.mem_cons_self)
      rw [List.map_cons, hjoin, hcs]
      exact tidy_lex_bar (joinsMark_of_isWordChar '|' (isWordChar_of_isWordStart c hc)) _
    calc tidy (lex (Term.closureHead (p :: params) ++ rest))
        = tidy (lex ('|' :: (Text.join [',', ' '] ((p :: params).map (·.text.toList))
            ++ '|' :: ' ' :: rest))) := by
          simp [Term.closureHead]
      _ = .mark ['|'] :: (commaSeparated ((p :: params).map fun p => lex p.text.toList)
            ++ tidy (lex ('|' :: ' ' :: rest))) := by
          rw [hopen, hnames.tidies _ hclose]
      _ = Term.paramTokens (p :: params) ++ tidy (lex rest) := by
          rw [tidy_lex_bar (joinsMark_eq_false '|' (by decide)), lex_space _ (by decide)]
          simp [Term.paramTokens]

theorem Lays.closure {params : List Ident} (hparams : ∀ p ∈ params, isName p.text.toList = true)
    (h : Lays cs ts) : Lays (Term.closureHead params ++ cs) (Term.paramTokens params ++ ts) := by
  refine ⟨rfl, fun r hr => ?_⟩
  rw [List.append_assoc, tidies_closureHead hparams, h.tidies r hr, List.append_assoc]

theorem Lays.field {name : Ident} (hname : isName name.text.toList = true) (h : Lays cs ts) :
    Lays (Term.fieldHead name ++ cs) (lex (name.text.toList ++ [':']) ++ ts) := by
  have hhead : Lays (name.text.toList ++ [':']) (lex (name.text.toList ++ [':'])) := by
    obtain ⟨c, cs, hcs, hc, hrest⟩ := exists_of_isName hname
    refine lays_name ?_
    rw [hcs, List.cons_append, isName, hc, Bool.true_and, List.all_append,
      List.all_eq_true.mpr hrest]
    rfl
  have htext : Term.fieldHead name ++ cs = (name.text.toList ++ [':']) ++ ' ' :: cs := by
    simp [Term.fieldHead]
  rw [htext]
  refine hhead.append (fun r hr => ?_) fun r => Or.inl (by simp)
  rw [List.cons_append, lex_space _ (by decide)]
  exact h.tidies r hr

/-- What follows the fields of a record. -/
theorem Lays.rest (h : Lays cs ts) : Itemizes ('.' :: '.' :: cs) (.mark ['.', '.'] :: ts) := by
  have hpoints (r : List Char) :
      lex ('.' :: '.' :: cs ++ r) = .mark ['.', '.'] :: lex (cs ++ r) := by
    obtain ⟨c, rest, rfl, -, hc⟩ := h.exists_cons
    simp only [List.mem_cons, not_or] at hc
    exact lex_points (by simp [hc])
  refine ⟨fun r => ?_, fun r hr => ?_⟩
  · rw [hpoints]
    rfl
  · rw [hpoints, tidy_cons (by decide), h.tidies r hr, List.cons_append]

end Forms

/-! ## Records on one line -/

theorem Itemizes.ne_nil (h : Itemizes cs ts) : cs ≠ [] := by
  rintro rfl
  have hopens := h.opens [')']
  rw [List.nil_append, head_lex_closer (by simp)] at hopens
  cases hopens

/-- Blanks inside delimiters. -/
theorem Tidies.fills_spaced (h : Tidies cs ts) : Fills (' ' :: (cs ++ [' '])) ts := by
  refine Fills.space (by decide) fun c r hc => ?_
  have hseparates : Separates (' ' :: c :: r) := Or.inl (by simp)
  rw [List.append_assoc, List.singleton_append, h _ hseparates, lex_space _ (by decide)]

theorem commaSeparated_append {items items' : List (List Token)} (h : items ≠ []) (h' : items' ≠ []) :
    commaSeparated (items ++ items') = commaSeparated items ++ .comma :: commaSeparated items' := by
  induction items with
  | nil => exact absurd rfl h
  | cons item items ih =>
    cases items with
    | nil => exact commaSeparated_cons item h'
    | cons next items =>
      rw [List.cons_append, commaSeparated_cons _ (by simp), ih (List.cons_ne_nil _ _),
        commaSeparated_cons _ (List.cons_ne_nil _ _), List.append_assoc]
      rfl

/-- The fields of a record and what follows them, between braces on one line. -/
theorem exists_braced {texts texts' : List (List Char)} {items items' : List (List Token)}
    (h : List.Forall₂ Itemizes texts items) (h' : List.Forall₂ Itemizes texts' items') :
    ∃ inner, Term.braced (Text.join [',', ' '] texts) (Text.join [',', ' '] texts')
        = ' ' :: ('\x7b' :: inner ++ ['\x7d'])
      ∧ Fills inner (commaSeparated (items ++ items')) := by
  cases h with
  | nil =>
    cases h' with
    | nil => exact ⟨[], rfl, fun _ _ _ => rfl⟩
    | cons hitem hitems =>
      have hjoined := itemizes_join (.cons hitem hitems) (List.cons_ne_nil _ _)
      refine ⟨_, ?_, hjoined.tidies.fills_spaced⟩
      obtain ⟨c, cs, hcs⟩ := List.exists_cons_of_ne_nil hjoined.ne_nil
      rw [hcs]
      simp [Term.braced, Text.join]
  | cons hitem hitems =>
    have hjoined := itemizes_join (.cons hitem hitems) (List.cons_ne_nil _ _)
    obtain ⟨c, cs, hcs⟩ := List.exists_cons_of_ne_nil hjoined.ne_nil
    cases h' with
    | nil =>
      rw [List.append_nil]
      refine ⟨_, ?_, hjoined.tidies.fills_spaced⟩
      rw [hcs]
      simp [Term.braced, Text.join]
    | cons hitem' hitems' =>
      have hjoined' := itemizes_join (.cons hitem' hitems') (List.cons_ne_nil _ _)
      obtain ⟨c', cs', hcs'⟩ := List.exists_cons_of_ne_nil hjoined'.ne_nil
      rw [commaSeparated_append (List.cons_ne_nil _ _) (List.cons_ne_nil _ _)]
      refine ⟨_, ?_, (hjoined.comma hjoined').tidies.fills_spaced⟩
      rw [hcs, hcs']
      simp [Term.braced]

/-! ## Terms -/

namespace Term

theorem flatItems_eq (ts : List Term) : flatItems ts = Text.join [',', ' '] (ts.map flat) := by
  induction ts with
  | nil => rfl
  | cons t ts ih =>
    cases ts with
    | nil => simp [flatItems, Text.join]
    | cons t' ts => simpa [flatItems, Text.join] using ih

theorem flatFields_eq (fields : List (Ident × Term)) : flatFields fields
    = Text.join [',', ' '] (fields.map fun f => fieldHead f.1 ++ f.2.flat) := by
  induction fields with
  | nil => rfl
  | cons f fields ih =>
    cases fields with
    | nil => simp [flatFields, Text.join]
    | cons f' fields => simpa [flatFields, Text.join] using ih

theorem flat_record (name : String) (fields : List (Ident × Term)) (rest : Option Term) :
    (record name fields rest).flat = name.toList
      ++ braced (Text.join [',', ' '] (fields.map fun f => fieldHead f.1 ++ f.2.flat))
        (Text.join [',', ' '] (rest.toList.map fun t => '.' :: '.' :: t.flat)) := by
  rw [← flatFields_eq]
  cases rest with
  | none => simp [flat, Text.join]
  | some t => simp [flat, Text.join]

theorem layoutItems_eq (level : Nat) (ts : List Term) :
    layoutItems level ts = itemLines level (ts.map (layout level 0)) := by
  induction ts with
  | nil => rfl
  | cons t ts ih => simp [layoutItems, itemLines, ih]

theorem layoutFields_eq (level : Nat) (fields : List (Ident × Term)) :
    layoutFields level fields = itemLines level (fields.map fun f =>
      fieldHead f.1 ++ f.2.layout level (Text.byteSize (fieldHead f.1))) := by
  induction fields with
  | nil => rfl
  | cons f fields ih => simp [layoutFields, itemLines, ih]

mutual

/-- A term on one line. -/
theorem lays_flat : (t : Term) → t.Spelled → Lays t.flat t.tokens
  | path name, h => by
    rw [flat, tokens]
    exact lays_name h
  | lit l, _ => by
    rw [flat, tokens]
    exact lays_literal l
  | call callee args, h => by
    rw [flat, tokens, flatItems_eq]
    exact (lays_flat callee h.1).call (fills_join (itemizes_flat args h.2))
  | method receiver name args, h => by
    rw [flat, tokens, flatItems_eq]
    obtain ⟨hreceiver, hname, hargs⟩ := h
    simpa using (lays_flat receiver hreceiver).method hname (fills_join (itemizes_flat args hargs))
  | record name fields rest, h => by
    obtain ⟨hname, hfields, hrest⟩ := h
    obtain ⟨inner, hinner, hfills⟩ :=
      exists_braced (itemizes_flatFields fields hfields) (itemizes_flatRest rest hrest)
    rw [flat_record, tokens, hinner]
    exact lays_record hname hfills
  | closure params body, h => by
    rw [flat, tokens]
    exact (lays_flat body h.2).closure h.1
  | vector items, h => by
    rw [flat, tokens, flatItems_eq]
    exact lays_vector (fills_join (itemizes_flat items h))
  | tuple items, h => by
    rw [flat, tokens, flatItems_eq]
    exact lays_tuple (fills_join (itemizes_flat items h))
  | commented comment t, h => by
    rw [flat, tokens]
    exact (lays_flat t h.2).commented h.1

theorem itemizes_flat : (ts : List Term) → SpelledAll ts →
    List.Forall₂ Itemizes (ts.map flat) (tokensAll ts)
  | [], _ => .nil
  | t :: ts, h => .cons (lays_flat t h.1).itemizes (itemizes_flat ts h.2)

theorem itemizes_flatFields : (fields : List (Ident × Term)) → SpelledFields fields →
    List.Forall₂ Itemizes (fields.map fun f => fieldHead f.1 ++ f.2.flat) (tokensFields fields)
  | [], _ => .nil
  | (_, t) :: rest, h =>
    .cons ((lays_flat t h.2.1).field h.1).itemizes (itemizes_flatFields rest h.2.2)

theorem itemizes_flatRest : (rest : Option Term) → SpelledRest rest →
    List.Forall₂ Itemizes (rest.toList.map fun t => '.' :: '.' :: t.flat) (tokensRest rest)
  | none, _ => .nil
  | some t, h => .cons (lays_flat t h).rest .nil

end

theorem fills_brokenItems {level : Nat} {texts : List (List Char)} {items : List (List Token)}
    (h : List.Forall₂ Itemizes texts items) :
    Fills (broken level (itemLines (level + 1) texts)) (commaSeparated items) :=
  (fills_itemLines h (level + 1) level).broken

theorem lays_ite {p : Prop} [Decidable p] (h : Lays cs ts) (h' : Lays cs' ts) :
    Lays (if p then cs else cs') ts := by
  split
  · exact h
  · exact h'

mutual

/-- A term at any level, after any number of columns. The choice to break is made again at each
part, and both choices have the tokens of the part. -/
theorem lays_layout (level lead : Nat) : (t : Term) → t.Spelled → Lays (t.layout level lead) t.tokens
  | path name, h => by
    rw [layout]
    exact lays_flat _ h
  | lit l, h => by
    rw [layout]
    exact lays_flat _ h
  | call callee args, h => by
    rw [layout]
    refine lays_ite (lays_flat _ h) ?_
    rw [tokens, layoutItems_eq]
    exact (lays_layout level lead callee h.1).call
      (fills_brokenItems (itemizes_layout (level + 1) args h.2))
  | method receiver name args, h => by
    rw [layout]
    refine lays_ite (lays_flat _ h) ?_
    obtain ⟨hreceiver, hname, hargs⟩ := h
    rw [tokens, layoutItems_eq]
    simpa using (lays_layout level lead receiver hreceiver).method_newline hname
      (fills_brokenItems (itemizes_layout (level + 1) args hargs)) level
  | record name fields none, h => by
    rw [layout]
    refine lays_ite (lays_flat _ h) ?_
    obtain ⟨hname, hfields, -⟩ := h
    have hlines := fills_itemLines (itemizes_layoutFields (level + 1) fields hfields) (level + 1) level
    rw [tokens, layoutFields_eq, tokensRest, List.append_nil]
    simpa using lays_record hname (hlines.space (c := '\n') (by decide))
  | record name fields (some r), h => by
    rw [layout]
    refine lays_ite (lays_flat _ h) ?_
    obtain ⟨hname, hfields, hrest⟩ := h
    have hlines := fills_itemLines_last (itemizes_layoutFields (level + 1) fields hfields)
      (lays_layout (level + 1) 2 r hrest).rest (level + 1) level
    rw [tokens, layoutFields_eq, tokensRest]
    simpa using lays_record hname (hlines.space (c := '\n') (by decide))
  | closure params body, h => by
    rw [layout]
    refine lays_ite (lays_flat _ h) ?_
    rw [tokens]
    exact (lays_layout level _ body h.2).closure h.1
  | vector items, h => by
    rw [layout]
    refine lays_ite (lays_flat _ h) ?_
    rw [tokens, layoutItems_eq]
    exact lays_vector (fills_brokenItems (itemizes_layout (level + 1) items h))
  | tuple items, h => by
    rw [layout]
    refine lays_ite (lays_flat _ h) ?_
    rw [tokens, layoutItems_eq]
    exact lays_tuple (fills_brokenItems (itemizes_layout (level + 1) items h))
  | commented comment t, h => by
    rw [layout]
    refine lays_ite (lays_flat _ h) ?_
    rw [tokens]
    exact (lays_layout level _ t h.2).commented h.1

theorem itemizes_layout (level : Nat) : (ts : List Term) → SpelledAll ts →
    List.Forall₂ Itemizes (ts.map (layout level 0)) (tokensAll ts)
  | [], _ => .nil
  | t :: ts, h => .cons (lays_layout level 0 t h.1).itemizes (itemizes_layout level ts h.2)

theorem itemizes_layoutFields (level : Nat) : (fields : List (Ident × Term)) → SpelledFields fields →
    List.Forall₂ Itemizes (fields.map fun f =>
      fieldHead f.1 ++ f.2.layout level (Text.byteSize (fieldHead f.1))) (tokensFields fields)
  | [], _ => .nil
  | (_, t) :: rest, h =>
    .cons ((lays_layout level _ t h.2.1).field h.1).itemizes (itemizes_layoutFields level rest h.2.2)

end

end Term

theorem Lays.tidy_lex (h : Lays cs ts) : tidy (lex cs) = ts := by
  have htidies := h.tidies [] trivial
  rwa [List.append_nil, lex_nil, tidy, List.append_nil] at htidies

/-- Whatever the level of indentation and the columns written before, a term has the same tokens as
on one line, apart from commas before closing delimiters. These are the tokens that the term
stands for. -/
theorem Term.layout_keeps_tokens (t : Term) (h : t.Spelled) (level lead : Nat) :
    tidy (lex (t.layout level lead)) = tidy (lex t.flat) ∧ tidy (lex t.flat) = t.tokens := by
  have hflat := (t.lays_flat h).tidy_lex
  exact ⟨(t.lays_layout level lead h).tidy_lex.trans hflat.symm, hflat⟩

/-- A call of a method with a closure and a record; the comment has the end of a comment in it, and
the string has a comma before a bracket. -/
def commentedCall : Term :=
  .method (.apply "r#fn::task" [.string "a,)"]) ⟨"with"⟩
    [.closure [⟨"ctx"⟩] (.commented "up */ to" (.vector [.path "ctx", .lit (.int (-7))])),
      .record "std::Debug" [(⟨"msg"⟩, .tuple [.lit (.bool true)])] (some (.path "rest"))]

/-- After a full line the call is broken, and its text is another one. -/
theorem Term.layout_keeps_tokens_commentedCall :
    commentedCall.Spelled ∧ commentedCall.layout 1 100 ≠ commentedCall.flat
      ∧ tidy (lex (commentedCall.layout 1 100)) = tidy (lex commentedCall.flat)
      ∧ tidy (lex commentedCall.flat) = commentedCall.tokens := by
  have hspelled : commentedCall.Spelled := by
    simp only [commentedCall, apply, string, Spelled, SpelledAll, SpelledFields, SpelledRest, and_true,
      List.forall_mem_singleton]
    decide
  exact ⟨hspelled, by decide +kernel, commentedCall.layout_keeps_tokens hspelled 1 100⟩

end Playbooks
