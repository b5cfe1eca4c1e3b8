import Playbooks.Proofs.Syntax.Outcome
import Playbooks.Syntax.Grammar

/-!
# Layout and words

The texts that layout and the words of the grammar stand for, said without the parsers, and what
each parser does in front of such a text.

## Main definitions

* `Layout`: blanks and comments that end with a line break.
* `isIdent`, `isSentence`, `IsNumeral`, `IsQuotable`: the texts of words.
-/
namespace Playbooks.Grammar

open Playbooks.Parser

variable {α : Type} {p : Parser α} {c c' c'' : Cursor} {a : α} {rest : List Char}

/-! ## First characters -/

/-- The text starts with a character of a class. -/
def Starts (P : Char → Bool) (text : List Char) : Prop :=
  ∃ x more, text = x :: more ∧ P x = true

section FirstCharacters

variable {P : Char → Bool} {x : Char} {text more : List Char}

/-- The first character of a text that stands at the cursor. -/
theorem head?_of_took (h : c.Took (x :: more) c') : c.rest.head? = some x := by
  rw [h.rest_eq]
  rfl

theorem any_head_of_took (h : c.Took (x :: more) c') (b : Bool) (hx : P x = b) :
    c.rest.head?.any P = b := by
  rw [head?_of_took h]
  exact hx

theorem Starts.any_head (h : Starts P text) (htook : c.Took text c')
    (hQ : ∀ x, P x = true → Q x = false) : c.rest.head?.any Q = false := by
  obtain ⟨x, more, rfl, hx⟩ := h
  exact any_head_of_took htook false (hQ x hx)

theorem Starts.head?_ne (h : Starts P text) (htook : c.Took text c') (hx : P x = false) :
    c.rest.head? ≠ some x := by
  obtain ⟨y, more, rfl, hy⟩ := h
  rw [head?_of_took htook]
  rintro ⟨⟩
  rw [hx] at hy
  cases hy

theorem Starts.ne_nil (h : Starts P text) : text ≠ [] := by
  obtain ⟨x, more, rfl, -⟩ := h
  simp

theorem Starts.append (h : Starts P text) (more : List Char) : Starts P (text ++ more) := by
  obtain ⟨x, rest, rfl, hx⟩ := h
  exact ⟨x, rest ++ more, rfl, hx⟩

theorem Starts.mono (h : Starts P text) (hPQ : ∀ x, P x = true → Q x = true) : Starts Q text := by
  obtain ⟨x, more, heq, hx⟩ := h
  exact ⟨x, more, heq, hPQ x hx⟩

end FirstCharacters

/-! ## Layout -/

/-- Blanks and comments, each comment with the line break after it. -/
inductive Layout : List Char → Prop
  | nil : Layout []
  | blank {x : Char} {cs : List Char} : Text.isBlank x = true → Layout cs → Layout (x :: cs)
  | comment {note cs : List Char} : '\n' ∉ note → Layout cs → Layout ('#' :: note ++ '\n' :: cs)

/-- Characters that layout starts with. -/
def startsLayout (x : Char) : Bool :=
  Text.isBlank x || x == '#'

theorem took_skipLayout (inComment : Bool) (cs : List Char) (offset : Nat) :
    ∃ taken, Cursor.Took ⟨cs, offset⟩ taken (skipLayout inComment cs offset) := by
  induction cs generalizing inComment offset with
  | nil => exact ⟨[], Cursor.Took.refl _⟩
  | cons x cs ih =>
      have hskip (inComment' : Bool) :
          ∃ taken, Cursor.Took ⟨x :: cs, offset⟩ taken
            (skipLayout inComment' cs (offset + x.utf8Size)) := by
        obtain ⟨taken, htook⟩ := ih inComment' (offset + x.utf8Size)
        exact ⟨[x] ++ taken, Cursor.Took.trans ⟨rfl, by simp⟩ htook⟩
      rw [skipLayout]
      split
      · exact hskip true
      · split
        · exact hskip false
        · split
          · exact hskip true
          · exact ⟨[], Cursor.Took.refl _⟩

theorem skipLayout_comment {note : List Char} (hnote : '\n' ∉ note) (cs : List Char)
    (offset : Nat) :
    skipLayout true (note ++ '\n' :: cs) offset
      = skipLayout false cs (offset + Text.byteSize (note ++ ['\n'])) := by
  induction note generalizing offset with
  | nil => rfl
  | cons x note ih =>
      obtain ⟨hx, hnote⟩ : '\n' ≠ x ∧ '\n' ∉ note := by simpa using hnote
      rw [List.cons_append, skipLayout, if_pos (by simp [Ne.symm hx]), ih hnote]
      simp [Nat.add_assoc]

/-- A gap of layout is passed over as a whole. -/
theorem skipLayout_append {gap : List Char} (hgap : Layout gap) (rest : List Char)
    (offset : Nat) :
    skipLayout false (gap ++ rest) offset
      = skipLayout false rest (offset + Text.byteSize gap) := by
  induction hgap generalizing offset with
  | nil => rfl
  | blank hx _ ih =>
      rw [List.cons_append, skipLayout, if_neg (by simp), if_pos hx, ih, Text.byteSize_cons,
        Nat.add_assoc]
  | @comment note cs hnote _ ih =>
      have hsharp : Text.isBlank '#' = false := by decide
      rw [List.cons_append, List.cons_append, skipLayout, if_neg (by simp),
        if_neg (by simp [hsharp]), if_pos (by simp), List.append_assoc, List.cons_append,
        skipLayout_comment hnote, ih]
      simp [Nat.add_assoc, Nat.add_comm, Nat.add_left_comm]

theorem skipLayout_of_stop (hrest : rest.head?.any startsLayout = false) (offset : Nat) :
    skipLayout false rest offset = ⟨rest, offset⟩ := by
  cases rest with
  | nil => rfl
  | cons x rest =>
      have hx : startsLayout x = false := hrest
      rw [startsLayout, Bool.or_eq_false_iff] at hx
      rw [skipLayout, if_neg (by simp), if_neg (by simp [hx.1]), if_neg (by simp [hx.2])]

theorem ensures_layout (c : Cursor) : layout.Ensures c fun _ c' => c ≤ c' := by
  intro t _ c' h
  cases h
  exact took_skipLayout false c.rest c.offset

theorem reads_layout {gap : List Char} (h : c.Took gap c') (hgap : Layout gap)
    (hstop : c'.rest.head?.any startsLayout = false) : layout.Reads c () c' := by
  intro t
  rw [layout, h.rest_eq, skipLayout_append hgap, skipLayout_of_stop hstop, ← h.offset_eq]

theorem reads_lexeme {gap : List Char} (hp : p.Reads c a c') (h : c'.Took gap c'')
    (hgap : Layout gap) (hstop : c''.rest.head?.any startsLayout = false) :
    (lexeme p).Reads c a c'' :=
  hp.bind ((reads_layout h hgap hstop).bind (reads_pure a _))

theorem fails_lexeme (h : p.Fails c) : (lexeme p).Fails c :=
  h.bind

theorem ensures_lexeme {P Q : α → Cursor → Prop} (hp : p.Ensures c P)
    (h : ∀ a c' c'', P a c' → c' ≤ c'' → Q a c'') : (lexeme p).Ensures c Q := by
  refine hp.bind fun a c' hP => (ensures_layout c').bind ?_
  intro _ c'' hle
  exact ensures_pure (h a c' c'' hP hle)

/-! ## Keywords -/

theorem reads_keyword {word : String} (h : c.Took word.toList c')
    (hstop : c'.rest.head?.any isIdentChar = false) : (keyword word).Reads c () c' :=
  ((reads_text h).bind (reads_notAhead hstop)).expect _

theorem ensures_keyword (word : String) (c : Cursor) :
    (keyword word).Ensures c fun _ c' =>
      c.Took word.toList c' ∧ c'.rest.head?.any isIdentChar = false := by
  refine ((ensures_text word.toList c).bind fun _ c' htook => ?_).expect _
  refine (ensures_notAhead isIdentChar c').mono ?_
  rintro _ c'' ⟨rfl, hstop⟩
  exact ⟨htook, hstop⟩

/-- A keyword is not read from the front of another word. -/
theorem fails_keyword {word : String} {name : List Char}
    (hword : ∀ x ∈ word.toList, isIdentChar x = true) (h : c.Took name c')
    (hname : ∀ x ∈ name, isIdentChar x = true) (hstop : c'.rest.head?.any isIdentChar = false)
    (hne : name ≠ word.toList) : (keyword word).Fails c := by
  refine Fails.expect ?_ _
  by_cases hprefix : word.toList <+: c.rest
  · obtain ⟨tail, htail⟩ := hprefix
    refine (reads_text (Cursor.took_advance htail.symm)).bind_fails (fails_notAhead ?_)
    -- Both words are the longest run of their characters, unless the keyword runs on.
    cases hends : tail.head?.any isIdentChar with
    | true => exact hends
    | false =>
        have hrun := (takeWhile_append_of_stop hname hstop).1
        have hrun' := (takeWhile_append_of_stop hword hends).1
        rw [htail, h.rest_eq, hrun] at hrun'
        exact absurd hrun' hne
  · exact (fails_text hprefix).bind

/-! ## Identifiers -/

/-- A letter, then letters, digits and hyphens. -/
def isIdent : List Char → Bool
  | [] => false
  | x :: cs => isLetter x && cs.all isIdentChar

theorem isIdentChar_of_isLetter {x : Char} (h : isLetter x = true) : isIdentChar x = true := by
  simp only [isLetter] at h
  simp [isIdentChar, Char.isAlphanum, h]

theorem isIdentChar_of_isIdent {name : List Char} (h : isIdent name = true) :
    ∀ x ∈ name, isIdentChar x = true := by
  cases name with
  | nil => simp
  | cons x cs =>
      rw [isIdent, Bool.and_eq_true, List.all_eq_true] at h
      intro y hy
      rcases List.mem_cons.mp hy with rfl | hy
      · exact isIdentChar_of_isLetter h.1
      · exact h.2 y hy

theorem starts_of_isIdent {text : List Char} (h : isIdent text = true) : Starts isLetter text := by
  cases text with
  | nil => cases h
  | cons x more =>
      rw [isIdent, Bool.and_eq_true] at h
      exact ⟨x, more, rfl, h.1⟩

theorem reads_ident {name : List Char} (h : c.Took name c') (hname : isIdent name = true)
    (hstop : c'.rest.head?.any isIdentChar = false) :
    ident.Reads c (.leaf .ident c.offset c'.offset) c' := by
  cases name with
  | nil => cases hname
  | cons x cs =>
      rw [isIdent, Bool.and_eq_true, List.all_eq_true] at hname
      obtain ⟨c₁, hletter, hothers⟩ := h.uncons
      exact (((reads_satisfy hletter hname.1).bind (reads_run hothers hname.2 hstop)).expect _).leaf

theorem fails_ident (h : c.rest.head?.any isLetter = false) : ident.Fails c :=
  ((fails_satisfy h).bind.expect _).leaf

theorem ensures_ident (c : Cursor) :
    ident.Ensures c fun m c' => m = .leaf .ident c.offset c'.offset
      ∧ ∃ name, c.Took name c' ∧ isIdent name = true ∧ c'.rest.head?.any isIdentChar = false := by
  refine Ensures.leaf (((ensures_satisfy isLetter c).bind ?_).expect _)
  rintro x c' ⟨hx, htook⟩
  refine (ensures_run isIdentChar c').mono ?_
  rintro cs c'' ⟨htook', hall, hstop⟩
  refine ⟨rfl, x :: cs, htook.trans htook', ?_, hstop⟩
  rw [isIdent, hx, Bool.true_and, List.all_eq_true]
  exact hall

/-! ## Strings -/

/-- Characters that may stand between quotes. -/
def isQuotable (x : Char) : Bool :=
  x != '\x27' && x != '\n'

theorem reads_string {cs : List Char} (h : c.Took ('\x27' :: cs ++ ['\x27']) c')
    (hcs : ∀ x ∈ cs, isQuotable x = true) :
    string.Reads c (.leaf .string c.offset c'.offset) c' := by
  obtain ⟨c₁, hopen, h⟩ := h.uncons
  obtain ⟨c₂, hinner, hclose⟩ := h.split
  refine (((reads_satisfy hopen rfl).expect _).bind ((reads_run hinner hcs ?_).bind
    ((reads_satisfy hclose rfl).expect _))).leaf
  rw [hclose.rest_eq]
  rfl

theorem fails_string (h : c.rest.head? ≠ some '\x27') : string.Fails c := by
  refine (((fails_satisfy ?_).expect _).bind).leaf
  cases hrest : c.rest.head? with
  | none => rfl
  | some y =>
      rw [hrest] at h
      simpa using h

theorem ensures_string (c : Cursor) :
    string.Ensures c fun m c' => m = .leaf .string c.offset c'.offset
      ∧ ∃ cs, c.Took ('\x27' :: cs ++ ['\x27']) c' ∧ ∀ x ∈ cs, isQuotable x = true := by
  refine Ensures.leaf (((ensures_satisfy _ c).expect _).bind ?_)
  rintro x c₁ ⟨hx, hopen⟩
  refine (ensures_run isQuotable c₁).bind ?_
  rintro cs c₂ ⟨hinner, hall, -⟩
  refine ((ensures_satisfy _ c₂).expect _).mono ?_
  rintro y c₃ ⟨hy, hclose⟩
  rw [beq_iff_eq] at hx hy
  subst hx hy
  exact ⟨rfl, cs, (hopen.trans hinner).trans hclose, hall⟩

/-! ## Numbers -/

/-- One or more digits. -/
def isDigits (cs : List Char) : Bool :=
  !cs.isEmpty && cs.all Char.isDigit

/-- Digits with an optional fraction. -/
inductive IsMagnitude : List Char → Prop
  | whole {ds : List Char} : isDigits ds = true → IsMagnitude ds
  | decimal {ds fs : List Char} : isDigits ds = true → isDigits fs = true →
      IsMagnitude (ds ++ '.' :: fs)

/-- A magnitude with an optional minus. -/
inductive IsNumeral : List Char → Prop
  | plain {cs : List Char} : IsMagnitude cs → IsNumeral cs
  | minus {cs : List Char} : IsMagnitude cs → IsNumeral ('-' :: cs)

/-- Characters that a number runs on with. -/
def extendsNumber (x : Char) : Bool :=
  x.isAlphanum || x == '_' || x == '.'

theorem isDigits_iff {cs : List Char} :
    isDigits cs = true ↔ cs ≠ [] ∧ ∀ x ∈ cs, x.isDigit = true := by
  simp [isDigits, List.all_eq_true]

theorem starts_of_isMagnitude {cs : List Char} (h : IsMagnitude cs) : Starts Char.isDigit cs := by
  have hdigits {ds : List Char} (hds : isDigits ds = true) : Starts Char.isDigit ds := by
    cases ds with
    | nil => cases hds
    | cons d ds => exact ⟨d, ds, rfl, (isDigits_iff.mp hds).2 d List.mem_cons_self⟩
  cases h with
  | whole hds => exact hdigits hds
  | decimal hds _ => exact (hdigits hds).append _

theorem not_minus_of_isDigit (x : Char) (h : x.isDigit = true) : (x == '-') = false := by
  rw [beq_eq_false_iff_ne]
  rintro rfl
  cases h

theorem starts_of_isNumeral {cs : List Char} (h : IsNumeral cs) :
    Starts (fun x => x.isDigit || x == '-') cs := by
  cases h with
  | plain h => exact (starts_of_isMagnitude h).mono fun x hx => by simp [hx]
  | minus _ => exact ⟨'-', _, rfl, by decide⟩

/-- What a number reads after its sign. -/
def magnitude : Parser Unit := do
  let _ ← expect .number (run1 Char.isDigit)
  let _ ← option do
    let _ ← satisfy (· == '.')
    run1 Char.isDigit
  notAhead fun c => c.isAlphanum || c == '_'

theorem number_eq :
    number = leaf .number (option (satisfy (· == '-')) >>= fun _ => magnitude) :=
  rfl

private theorem stops_of_extendsNumber (h : c.rest.head?.any extendsNumber = false) :
    c.rest.head?.any Char.isDigit = false ∧ c.rest.head?.any (· == '.') = false
      ∧ c.rest.head?.any (fun x => x.isAlphanum || x == '_') = false := by
  cases hrest : c.rest.head? with
  | none => exact ⟨rfl, rfl, rfl⟩
  | some x =>
      rw [hrest] at h
      simp only [Option.any_some, extendsNumber, Char.isAlphanum, Bool.or_eq_false_iff] at h ⊢
      exact ⟨h.1.1.2, h.2, h.1⟩

theorem reads_magnitude {cs : List Char} (h : c.Took cs c') (hcs : IsMagnitude cs)
    (hstop : c'.rest.head?.any extendsNumber = false) : magnitude.Reads c () c' := by
  obtain ⟨hdigit, hpoint, hword⟩ := stops_of_extendsNumber hstop
  cases hcs with
  | whole hds =>
      obtain ⟨hne, hall⟩ := isDigits_iff.mp hds
      have hfraction := (fails_satisfy hpoint).bind (f := fun _ => run1 Char.isDigit)
      exact ((reads_run1 h hne hall hdigit).expect _).bind
        (hfraction.option.bind (reads_notAhead hword))
  | decimal hds hfs =>
      obtain ⟨hne, hall⟩ := isDigits_iff.mp hds
      obtain ⟨hne', hall'⟩ := isDigits_iff.mp hfs
      obtain ⟨c₁, hwhole, h⟩ := h.split
      obtain ⟨c₂, hdot, hfraction⟩ := h.uncons
      have hends : c₁.rest.head?.any Char.isDigit = false := by
        rw [hdot.rest_eq]
        rfl
      exact ((reads_run1 hwhole hne hall hends).expect _).bind
        (((reads_satisfy hdot rfl).bind (reads_run1 hfraction hne' hall' hdigit)).option.bind
          (reads_notAhead hword))

theorem fails_magnitude (h : c.rest.head?.any Char.isDigit = false) : magnitude.Fails c :=
  ((fails_run1 h).expect _).bind

theorem ensures_magnitude (c : Cursor) :
    magnitude.Ensures c fun _ c' => ∃ cs, c.Took cs c' ∧ IsMagnitude cs := by
  refine ((ensures_run1 Char.isDigit c).expect _).bind ?_
  rintro ds c₁ ⟨hwhole, hne, hall, -⟩
  have hds : isDigits ds = true := isDigits_iff.mpr ⟨hne, hall⟩
  have hfraction : (option (satisfy (· == '.') >>= fun _ => run1 Char.isDigit)).Ensures c₁
      fun _ c' => ∃ cs, c.Took cs c' ∧ IsMagnitude cs := by
    refine Ensures.option ((ensures_satisfy _ c₁).bind ?_) ⟨ds, hwhole, .whole hds⟩
    rintro x c₂ ⟨hx, hdot⟩
    rw [beq_iff_eq] at hx
    subst hx
    refine (ensures_run1 Char.isDigit c₂).mono ?_
    rintro fs c₃ ⟨hfs, hne', hall', -⟩
    have hcs := hwhole.trans (hdot.trans hfs)
    exact ⟨_, hcs, .decimal hds (isDigits_iff.mpr ⟨hne', hall'⟩)⟩
  refine hfraction.bind fun _ c₂ hcs => (ensures_notAhead _ c₂).mono ?_
  rintro _ c₃ ⟨rfl, -⟩
  exact hcs

theorem reads_number {cs : List Char} (h : c.Took cs c') (hcs : IsNumeral cs)
    (hstop : c'.rest.head?.any extendsNumber = false) :
    number.Reads c (.leaf .number c.offset c'.offset) c' := by
  rw [number_eq]
  cases hcs with
  | plain hcs =>
      have hsign := fails_satisfy ((starts_of_isMagnitude hcs).any_head h not_minus_of_isDigit)
      exact (hsign.option.bind (reads_magnitude h hcs hstop)).leaf
  | minus hcs =>
      obtain ⟨c₁, hsign, h⟩ := h.uncons
      exact ((reads_satisfy hsign rfl).option.bind (reads_magnitude h hcs hstop)).leaf

/-- A number starts with a digit or a minus. -/
theorem fails_number (h : c.rest.head?.any (fun x => x.isDigit || x == '-') = false) :
    number.Fails c := by
  have hstops : c.rest.head?.any Char.isDigit = false ∧ c.rest.head?.any (· == '-') = false := by
    cases hrest : c.rest.head? with
    | none => exact ⟨rfl, rfl⟩
    | some x =>
        rw [hrest] at h
        simpa using h
  rw [number_eq]
  exact ((fails_satisfy hstops.2).option.bind_fails (fails_magnitude hstops.1)).leaf

theorem ensures_number (c : Cursor) :
    number.Ensures c fun m c' => m = .leaf .number c.offset c'.offset
      ∧ ∃ cs, c.Took cs c' ∧ IsNumeral cs := by
  rw [number_eq]
  refine Ensures.leaf (Ensures.bind (P := fun sign c₁ => c₁ = c ∧ sign = none ∨ c.Took ['-'] c₁)
    ?_ ?_)
  · refine Ensures.option ((ensures_satisfy _ c).mono ?_) (Or.inl ⟨rfl, rfl⟩)
    rintro x c₁ ⟨hx, hsign⟩
    rw [beq_iff_eq] at hx
    exact Or.inr (hx ▸ hsign)
  · rintro sign c₁ hsign
    refine (ensures_magnitude c₁).mono ?_
    rintro _ c₂ ⟨cs, hcs, hmagnitude⟩
    refine ⟨rfl, ?_⟩
    rcases hsign with ⟨rfl, -⟩ | hsign
    · exact ⟨cs, hcs, .plain hmagnitude⟩
    · exact ⟨'-' :: cs, hsign.trans hcs, .minus hmagnitude⟩

/-! ## Truth values -/

def boolWord : Bool → String
  | true => "true"
  | false => "false"

theorem isIdent_boolWord (b : Bool) : isIdent (boolWord b).toList = true := by
  cases b <;> decide

theorem reads_bool {b : Bool} (h : c.Took (boolWord b).toList c')
    (hstop : c'.rest.head?.any isIdentChar = false) :
    bool.Reads c (.leaf .bool c.offset c'.offset) c' := by
  cases b with
  | true => exact (reads_keyword h hstop).orElse.leaf
  | false =>
      have hother : (keyword "true").Fails c :=
        fails_keyword (isIdentChar_of_isIdent (isIdent_boolWord true)) h
          (isIdentChar_of_isIdent (isIdent_boolWord false)) hstop (by decide)
      exact (hother.orElse_reads (reads_keyword h hstop)).leaf

/-- A truth value is not read from the front of another word. -/
theorem fails_bool {name : List Char} (h : c.Took name c')
    (hname : ∀ x ∈ name, isIdentChar x = true) (hstop : c'.rest.head?.any isIdentChar = false)
    (hne : ∀ b, name ≠ (boolWord b).toList) : bool.Fails c := by
  have hword (b : Bool) : (keyword (boolWord b)).Fails c :=
    fails_keyword (isIdentChar_of_isIdent (isIdent_boolWord b)) h hname hstop (hne b)
  exact ((hword true).orElse (hword false)).leaf

theorem ensures_bool (c : Cursor) :
    bool.Ensures c fun m c' => m = .leaf .bool c.offset c'.offset
      ∧ ∃ b, c.Took (boolWord b).toList c' ∧ c'.rest.head?.any isIdentChar = false := by
  refine Ensures.leaf (((ensures_keyword "true" c).mono ?_).orElse
    ((ensures_keyword "false" c).mono ?_))
  · exact fun _ c' h => ⟨rfl, true, h⟩
  · exact fun _ c' h => ⟨rfl, false, h⟩

/-! ## Sentences -/

/-- A text in brackets: not empty, without the characters that end it or blanks at its ends. -/
def isSentence (cs : List Char) : Bool :=
  !cs.isEmpty && cs.all isSentenceChar && Text.isTrimmed cs

theorem isSentence_iff {cs : List Char} : isSentence cs = true ↔
    cs ≠ [] ∧ (∀ x ∈ cs, isSentenceChar x = true) ∧ Text.isTrimmed cs = true := by
  simp [isSentence, List.all_eq_true, and_assoc]

theorem reads_sentence {cs : List Char} (h : c.Took cs c') (hcs : isSentence cs = true)
    (hstop : c'.rest.head?.any isSentenceChar = false) :
    sentence.Reads c (.leaf .sentence c.offset c'.offset) c' := by
  obtain ⟨hne, hall, htrimmed⟩ := isSentence_iff.mp hcs
  have hends : (if Text.isTrimmed cs then pure () else fail : Parser Unit).Reads c' () c' := by
    rw [if_pos htrimmed]
    exact reads_pure () c'
  exact (((reads_run1 h hne hall hstop).bind hends).expect _).leaf

theorem ensures_sentence (c : Cursor) :
    sentence.Ensures c fun m c' => m = .leaf .sentence c.offset c'.offset
      ∧ ∃ cs, c.Took cs c' ∧ isSentence cs = true := by
  refine Ensures.leaf (((ensures_run1 isSentenceChar c).bind ?_).expect _)
  rintro cs c' ⟨htook, hne, hall, -⟩
  by_cases htrimmed : Text.isTrimmed cs = true
  · rw [if_pos htrimmed]
    exact ensures_pure ⟨rfl, cs, htook, isSentence_iff.mpr ⟨hne, hall, htrimmed⟩⟩
  · rw [if_neg htrimmed]
    exact (fails_fail c').ensures

/-! ## The end -/

theorem reads_endOfInput (h : c.rest = []) : endOfInput.Reads c () c := by
  intro t
  simp [endOfInput, h]

theorem fails_endOfInput (h : c.rest ≠ []) : endOfInput.Fails c := by
  intro t
  simp [endOfInput, h, refuse]

theorem ensures_endOfInput (c : Cursor) :
    endOfInput.Ensures c fun _ c' => c' = c ∧ c.rest = [] := by
  by_cases h : c.rest = []
  · exact (reads_endOfInput h).ensures ⟨rfl, h⟩
  · exact (fails_endOfInput h).ensures

end Playbooks.Grammar
