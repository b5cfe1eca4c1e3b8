import Playbooks.Proofs.Syntax.Expressions
import Playbooks.Proofs.Syntax.Trees

/-!
# The grammar of playbooks as parsing expressions

Every rule of the grammar with its parsing expression. The parser of a rule has the outcomes of its
expression, so what is told from the expressions holds of the parsers that run.

## Main definitions

* `Grammar.Nonterminal`, `Grammar.productions`: the rules and their expressions.
* `Grammar.ruleOutcome`: the outcome of the parser of a rule.

## Main results

* `Grammar.runs_iff`: the run of an expression ends with the outcome of the parser.
-/
namespace Playbooks

namespace Grammar

open Playbooks.Parser

/-- The rules of the grammar. -/
inductive Nonterminal where
  | comment
  | layout
  | ident
  | string
  | digits
  | number
  | bool
  | sentence
  | value
  | values
  | array
  | object
  | call
  | dotSegment
  | bracketSegment
  | index
  | productSign
  | sumSign
  | atom
  | product
  | sum
  | pair
  | block
  | simpleBlock
  | blocks
  | rescue
  | always
  | compoundBlock
  | statement
  | endOfInput
  | entry
  | loneValue
deriving DecidableEq

/-! ## Expressions -/

namespace Nonterminal

/-- Expressions of the grammar. -/
abbrev Body : Type :=
  Peg Nonterminal

def marked (x : Char) : Body :=
  .expect (.mark x) (.one (· == x))

def keyworded (word : String) : Body :=
  .expect (.word word) (.seq (.word word.toList) (.notAhead isIdentChar))

/-- The expression, then layout. -/
def spaced (e : Body) : Body :=
  .seq e (.rule layout)

/-- Further elements, each after a comma. -/
def moreOf (e : Body) : Body :=
  .star (.seq (spaced (marked ',')) (spaced e))

/-- One or more repetitions. -/
def plus (e : Body) : Body :=
  .seq e (.star e)

/-- Operands with signs between them. -/
def chained (sign : Nonterminal) (operand : Body) : Body :=
  .seq operand (.star (.seq (.seq (.rule layout) (.seq (.rule sign) (.rule layout))) operand))

def clause (word : String) : Body :=
  .seq (spaced (keyworded word)) <| .seq (spaced (marked '\x7b')) <|
    .seq (.rule blocks) (marked '\x7d')

/-- The expression of a rule. -/
def body : Nonterminal → Body
  | comment => .seq (.one (· == '#')) (.run (· != '\n'))
  | layout => .star (.alt (.testedRun Text.isBlank fun _ => true) (.rule comment))
  | ident => .expect .ident (.seq (.one isLetter) (.run isIdentChar))
  | string =>
    .seq (.expect .string (.one (· == '\x27'))) <|
      .seq (.run fun c => c != '\x27' && c != '\n') (.expect .closingQuote (.one (· == '\x27')))
  | digits => .testedRun Char.isDigit fun _ => true
  | number =>
    .seq (.opt (.one (· == '-'))) <| .seq (.expect .number (.rule digits)) <|
      .seq (.opt (.seq (.one (· == '.')) (.rule digits))) <|
        .notAhead fun c => c.isAlphanum || c == '_'
  | bool => .alt (keyworded "true") (keyworded "false")
  | sentence => .expect .sentence (.testedRun isSentenceChar Text.isTrimmed)
  | value =>
    .alt (.rule array) <| .alt (.rule bool) <| .alt (.rule sum) <|
      .alt (.rule object) (.rule string)
  | values => .opt (.seq (spaced (.rule value)) (moreOf (.rule value)))
  | array =>
    .seq (spaced (marked '[')) <| .seq (.rule values) <| .seq (spaced (marked ',')) (marked ']')
  | object =>
    .seq (spaced (marked '\x7b')) <|
      .seq (.opt (.seq (spaced (.rule pair)) <|
          .seq (moreOf (.rule pair)) (.opt (spaced (marked ','))))) <|
        marked '\x7d'
  | call =>
    .seq (.rule ident) <| .seq (spaced (marked '(')) <| .seq (.rule values) <|
      .seq (spaced (marked ',')) (marked ')')
  | dotSegment =>
    .seq (marked '.') (.expect .indexSegment (.testedRun isSegmentChar fun _ => true))
  | bracketSegment => .seq (marked '[') <| .seq (.rule sentence) (marked ']')
  | index => .seq (.rule ident) (plus (.alt (.rule dotSegment) (.rule bracketSegment)))
  | productSign => .one fun c => c == '*' || c == '/'
  | sumSign => .one fun c => c == '+' || c == '-'
  | atom =>
    .alt (.rule number) <|
      .alt (.seq (spaced (marked '(')) <| .seq (.rule sum) <| .seq (.rule layout) (marked ')')) <|
        .alt (.rule call) (.rule index)
  | product => chained productSign (.rule atom)
  | sum => chained sumSign (.rule product)
  | pair =>
    .seq (.alt (.rule ident) (.rule string)) <| .seq (.rule layout) <|
      .seq (spaced (marked ':')) (.rule value)
  | block => .alt (.rule simpleBlock) (.rule compoundBlock)
  | simpleBlock =>
    .seq (.rule ident) <| .seq (.rule layout) <| .seq (marked '[') <| .seq (.rule sentence) <|
      .seq (spaced (marked ']')) <| .seq (spaced (marked '\x7b')) <|
        .seq (plus (spaced (.rule pair))) (marked '\x7d')
  | blocks => plus (spaced (.rule block))
  | rescue => clause "rescue"
  | always => clause "always"
  | compoundBlock =>
    .seq (spaced (keyworded "block")) <| .seq (spaced (marked '\x7b')) <|
      .seq (.star (spaced (.rule pair))) <| .seq (.rule blocks) <| .seq (marked '\x7d') <|
        .seq (.opt (.seq (.rule layout) (.rule rescue))) (.opt (.seq (.rule layout) (.rule always)))
  | statement => .alt (.rule pair) (.rule block)
  | endOfInput => .expect .endOfInput (.notAhead fun _ => true)
  | entry =>
    .seq (.rule layout) <| .seq (.star (spaced (.rule statement))) (.rule endOfInput)
  | loneValue => .seq (.rule layout) <| .seq (spaced (.rule value)) (.rule endOfInput)

/-- Values, sums and blocks spend a level of nesting. -/
def nests : Nonterminal → Bool
  | value | sum | block => true
  | _ => false

/-- The rules that may succeed without reading. -/
def null : Nonterminal → Bool
  | layout | values | endOfInput | entry => true
  | _ => false

/-- Rules come after those that they may ask first, up to a level of nesting. -/
def rank : Nonterminal → Nat
  | layout | number | call | index | pair | simpleBlock => 1
  | value | sum | block | atom => 2
  | values | product | blocks | statement | loneValue => 3
  | entry => 4
  | _ => 0

end Nonterminal

/-- The grammar of playbooks. -/
def productions : Productions Nonterminal where
  body := Nonterminal.body
  nests := Nonterminal.nests

theorem covers_null : productions.Covers Nonterminal.null := by
  intro r
  cases r <;> decide

theorem ranked_rank : productions.Ranked Nonterminal.null Nonterminal.rank := by
  intro r
  cases r <;> decide

theorem repeated_reads (r : Nonterminal) :
    ∀ e ∈ (productions.body r).repeated, e.nullable Nonterminal.null = false := by
  cases r <;> decide

/-! ## Layout -/

/-- A comment, up to the line break that ends it. -/
def comment : Parser Unit := do
  let _ ← satisfy (· == '#')
  let _ ← run (· != '\n')
  pure ()

/-- Blanks or a comment. -/
def gap : Parser Unit :=
  (do
    let _ ← run1 Text.isBlank
    pure ()) <|> comment

variable {α : Type} {n : Nat} {c c' : Cursor} {t : Tracker}

theorem implements_comment : Implements productions n (.rule .comment) comment :=
  .flat rfl ((Implements.satisfy _).bind fun _ => (Implements.run _).map _)

theorem implements_gap : Implements productions n
    (.alt (.testedRun Text.isBlank fun _ => true) (.rule .comment)) gap :=
  ((Implements.run1 _).map _).orElse implements_comment

theorem skipLayout_note (cs : List Char) (offset : Nat) :
    skipLayout true cs offset = skipLayout false (cs.dropWhile (· != '\n'))
      (offset + Text.byteSize (cs.takeWhile (· != '\n'))) := by
  induction cs generalizing offset with
  | nil => rfl
  | cons x cs ih =>
    by_cases hx : x = '\n'
    · simp [skipLayout, hx]
    · rw [skipLayout, if_pos (by simp [hx]), ih, List.dropWhile_cons_of_pos (by simp [hx]),
        List.takeWhile_cons_of_pos (by simp [hx]), Text.byteSize_cons, Nat.add_assoc]

theorem skipLayout_blanks (cs : List Char) (offset : Nat) :
    skipLayout false cs offset = skipLayout false (cs.dropWhile Text.isBlank)
      (offset + Text.byteSize (cs.takeWhile Text.isBlank)) := by
  induction cs generalizing offset with
  | nil => rfl
  | cons x cs ih =>
    by_cases hx : Text.isBlank x = true
    · rw [skipLayout, if_neg (by simp), if_pos hx, ih, List.dropWhile_cons_of_pos hx,
        List.takeWhile_cons_of_pos hx, Text.byteSize_cons, Nat.add_assoc]
    · rw [List.dropWhile_cons_of_neg hx, List.takeWhile_cons_of_neg hx]
      rfl

/-- The parser of a gap reads something, and layout goes on behind it. -/
def PassesGap (c : Cursor) (t : Tracker) : Prop :=
  ∃ c', gap c t = (some ((), c'), t) ∧ c < c' ∧ layout c t = layout c' t

theorem passesGap_of_blank {x : Char} (hx : Text.isBlank x = true) (cs : List Char) (offset : Nat)
    (t : Tracker) : PassesGap ⟨x :: cs, offset⟩ t := by
  let taken := (x :: cs).takeWhile Text.isBlank
  let c' := Cursor.advance ⟨x :: cs, offset⟩ taken ((x :: cs).dropWhile Text.isBlank)
  have htaken : taken = x :: cs.takeWhile Text.isBlank := List.takeWhile_cons_of_pos hx
  have htook : Cursor.Took ⟨x :: cs, offset⟩ taken c' :=
    Cursor.took_advance List.takeWhile_append_dropWhile.symm
  have hrun : run1 Text.isBlank ⟨x :: cs, offset⟩ t = (some (taken, c'), t) := by
    rw [run1, bind_apply, run]
    simp [taken, c', hx]
    rfl
  refine ⟨c', ?_, htook.lt (by simp [htaken]), ?_⟩
  · rw [gap, orElse_apply, bind_apply, hrun]
    rfl
  · exact congrArg (fun c => (some ((), c), t)) (skipLayout_blanks (x :: cs) offset)

theorem gap_of_not_blank {x : Char} (hx : ¬ Text.isBlank x = true) (cs : List Char) (offset : Nat)
    (t : Tracker) : gap ⟨x :: cs, offset⟩ t = comment ⟨x :: cs, offset⟩ t := by
  have hrun : run1 Text.isBlank ⟨x :: cs, offset⟩ t = (none, t) := by
    rw [run1, bind_apply, run]
    simp [hx]
    rfl
  rw [gap, orElse_apply, bind_apply, hrun]

theorem passesGap_of_sharp (cs : List Char) (offset : Nat) (t : Tracker) :
    PassesGap ⟨'#' :: cs, offset⟩ t := by
  have hsharp : ¬ Text.isBlank '#' = true := by decide
  let taken := '#' :: cs.takeWhile (· != '\n')
  let c' := Cursor.advance ⟨'#' :: cs, offset⟩ taken (cs.dropWhile (· != '\n'))
  have htook : Cursor.Took ⟨'#' :: cs, offset⟩ taken c' := Cursor.took_advance (by simp [taken])
  refine ⟨c', ?_, htook.lt (by simp [taken]), congrArg (fun c => (some ((), c), t)) ?_⟩
  · rw [gap_of_not_blank hsharp]
    simp [comment, bind_apply, satisfy, run, Cursor.advance, c', taken, Nat.add_assoc]
    rfl
  · rw [skipLayout, if_neg (by simp), if_neg hsharp, if_pos (by simp), skipLayout_note,
      Nat.add_assoc]
    rfl

/-- Passing over layout is passing over what stands here, and going on. -/
theorem layout_step (c : Cursor) (t : Tracker) :
    gap c t = (none, t) ∧ layout c t = (some ((), c), t) ∨ PassesGap c t := by
  obtain ⟨cs, offset⟩ := c
  cases cs with
  | nil => exact .inl ⟨rfl, rfl⟩
  | cons x cs =>
    by_cases hblank : Text.isBlank x = true
    · exact .inr (passesGap_of_blank hblank cs offset t)
    by_cases hx : x = '#'
    · exact .inr (hx ▸ passesGap_of_sharp cs offset t)
    refine .inl ⟨?_, ?_⟩
    · rw [gap_of_not_blank hblank, comment, bind_apply, satisfy]
      simp [hx]
    · refine congrArg (fun c => (some ((), c), t)) (skipLayout_of_stop ?_ offset)
      simp [startsLayout, hblank, hx]

theorem implements_layout : Implements productions n (.rule .layout) layout := by
  refine .flat rfl fun c t => ?_
  -- Each step leaves less of the source, and the last one reads nothing.
  induction hlength : c.rest.length using Nat.strongRecOn generalizing c with
  | ind length ih =>
    have hrun := implements_gap (n := n) c t
    rcases layout_step c t with ⟨hgap, hlayout⟩ | ⟨c', hgap, hlt, hlayout⟩
    · rw [outcome_of_none hgap] at hrun
      rw [outcome_of_some hlayout]
      exact .star_none hrun
    · rw [outcome_of_some hgap] at hrun
      rw [outcome, hlayout]
      exact .star_some hrun (ih _ (hlength ▸ Cursor.length_lt_of_lt hlt) c' rfl)

/-! ## Words -/

open Nonterminal (Body marked keyworded spaced moreOf plus chained)

section Words

variable {p : Parser α} {e : Body}

theorem implements_mark (x : Char) : Implements productions n (marked x) (mark x) :=
  ((Implements.satisfy _).map _).expect _

theorem implements_keyword (word : String) :
    Implements productions n (keyworded word) (keyword word) :=
  ((Implements.text _).bind fun _ => Implements.notAhead _).expect _

theorem implements_lexeme (hp : Implements productions n e p) :
    Implements productions n (spaced e) (lexeme p) :=
  hp.bind fun a => implements_layout.map fun _ => a

theorem implements_comma : Implements productions n (spaced (marked ',')) comma :=
  implements_lexeme (implements_mark ',')

theorem implements_many (hp : Implements productions n e p)
    (he : e.nullable Nonterminal.null = false) : Implements productions n (.star e) (many p) :=
  hp.many covers_null he

theorem implements_many1 (hp : Implements productions n e p)
    (he : e.nullable Nonterminal.null = false) : Implements productions n (plus e) (many1 p) :=
  hp.many1 covers_null he

theorem implements_ident : Implements productions n (.rule .ident) ident :=
  .flat rfl ((((Implements.satisfy _).bind fun _ => Implements.run _).expect _).leaf _)

theorem implements_string : Implements productions n (.rule .string) string :=
  .flat rfl (Implements.leaf (((Implements.satisfy _).expect _).bind fun _ =>
    (Implements.run _).bind fun _ => (Implements.satisfy _).expect _) _)

theorem implements_digits : Implements productions n (.rule .digits) (run1 Char.isDigit) :=
  .flat rfl (Implements.run1 _)

theorem implements_number : Implements productions n (.rule .number) number := by
  refine .flat rfl (Implements.leaf ((Implements.satisfy _).option.bind fun _ => ?_) _)
  refine (implements_digits.expect _).bind fun _ => ?_
  exact ((Implements.satisfy _).bind fun _ => implements_digits).option.bind fun _ =>
    Implements.notAhead _

theorem implements_bool : Implements productions n (.rule .bool) bool :=
  .flat rfl (((implements_keyword _).orElse (implements_keyword _)).leaf _)

theorem implements_sentence : Implements productions n (.rule .sentence) sentence :=
  .flat rfl (((Implements.testedRun _ _).expect _).leaf _)

end Words

/-! ## Values -/

section Values

variable {p v s : Parser Match} {e : Body}

/-- What follows an element that was found never fails, so the element is never given back. -/
theorem implements_option_bind {β : Type} {q : Option Match → Parser β} {f : Body}
    (hp : Implements productions n e p) (hnone : ∀ c t, (q none).outcome c t = (some c, t))
    (hsome : ∀ m, Implements productions n f (q (some m))) (hf : f.total = true) :
    Implements productions n (.opt (.seq e f)) (option p >>= q) := by
  intro c t
  have hrun := hp c t
  rcases hpt : p c t with ⟨_ | ⟨m, c'⟩, t'⟩
  · rw [outcome_of_none hpt] at hrun
    have hsame : (option p >>= q).outcome c t = (q none).outcome c t' := by
      rw [outcome, bind_apply, option, hpt]
      rfl
    rw [hsame, hnone]
    exact .opt_none (.seq_none hrun)
  · rw [outcome_of_some hpt] at hrun
    have hsame : (option p >>= q).outcome c t = (q (some m)).outcome c' t' := by
      rw [outcome, bind_apply, option, hpt]
      rfl
    have hmore := hsome m c' t'
    rcases hq : q (some m) c' t' with ⟨_ | ⟨b, c''⟩, t''⟩
    · rw [outcome_of_none hq] at hmore
      exact absurd rfl (hmore.ne_none_of_total hf)
    · rw [outcome_of_some hq] at hmore
      rw [hsame, outcome_of_some hq]
      exact .opt_some (.seq_some hrun hmore)

theorem implements_moreOf (hp : Implements productions n e p) :
    Implements productions n (moreOf e) (many (comma >>= fun _ => lexeme p)) :=
  implements_many (implements_comma.bind fun _ => implements_lexeme hp) rfl

theorem implements_separated (hp : Implements productions n e p) :
    Implements productions n (.opt (.seq (spaced e) (moreOf e))) (separated p) :=
  implements_option_bind (implements_lexeme hp) (fun _ _ => rfl)
    (fun first => (implements_moreOf hp).map (first :: ·)) rfl

theorem implements_listUpTo (close : Char) (hv : Implements productions n (.rule .value) v) :
    Implements productions n (.seq (.rule .values) (.seq (spaced (marked ',')) (marked close)))
      (listUpTo close v) :=
  Implements.bind (.flat rfl (implements_separated hv)) fun items =>
    implements_comma.bind fun _ => (implements_mark close).map fun _ => items

theorem implements_array (hv : Implements productions n (.rule .value) v) :
    Implements productions n (.rule .array) (array v) :=
  .flat rfl (((implements_lexeme (implements_mark '[')).bind fun _ =>
    implements_listUpTo ']' hv).node _)

theorem implements_call (hv : Implements productions n (.rule .value) v) :
    Implements productions n (.rule .call) (call v) := by
  refine .flat rfl ((implements_ident.bind fun name =>
    (implements_lexeme (implements_mark '(')).bind fun _ => ?_).node _)
  exact (implements_listUpTo ')' hv).map (name :: ·)

theorem implements_pair (hv : Implements productions n (.rule .value) v) :
    Implements productions n (.rule .pair) (pair v) := by
  refine .flat rfl (((implements_ident.orElse implements_string).bind fun key => ?_).node _)
  refine implements_layout.bind fun _ => (implements_lexeme (implements_mark ':')).bind fun _ => ?_
  exact hv.map fun content => [key, content]

/-- Elements as in an object: after the last one, if there is any, a comma may follow. -/
def listed (p : Parser Match) : Parser (List Match) := do
  match ← option (lexeme p) with
  | none => pure []
  | some first =>
    let others ← many do
      comma
      lexeme p
    let _ ← option comma
    pure (first :: others)

theorem separated_closePairs (p : Parser Match) :
    separated p >>= closePairs = listed p >>= fun ms => mark '\x7d' >>= fun _ => pure ms := by
  rw [separated, listed, bind_assoc, bind_assoc]
  refine congrArg (option (lexeme p) >>= ·) (funext fun first => ?_)
  cases first with
  | none => rfl
  | some first =>
    simp only [bind_assoc]
    rfl

theorem implements_object (hv : Implements productions n (.rule .value) v) :
    Implements productions n (.rule .object) (object v) := by
  have hpair := implements_pair hv
  have hlisted : Implements productions n
      (.opt (.seq (spaced (.rule .pair)) <|
        .seq (moreOf (.rule .pair)) (.opt (spaced (marked ',')))))
      (listed (pair v)) :=
    implements_option_bind (implements_lexeme hpair) (fun _ _ => rfl)
      (fun first => (implements_moreOf hpair).bind fun others =>
        implements_comma.option.map fun _ => first :: others) rfl
  rw [object_eq, separated_closePairs]
  exact .flat rfl (((implements_lexeme (implements_mark '\x7b')).bind fun _ =>
    hlisted.bind fun ms => (implements_mark '\x7d').map fun _ => ms).node _)

theorem implements_dotSegment : Implements productions n (.rule .dotSegment) dotSegment :=
  .flat rfl ((implements_mark '.').bind fun _ => ((Implements.run1 _).expect _).leaf _)

theorem implements_bracketSegment :
    Implements productions n (.rule .bracketSegment) bracketSegment :=
  .flat rfl ((implements_mark '[').bind fun _ => implements_sentence.bind fun segment =>
    (implements_mark ']').map fun _ => segment)

theorem implements_index : Implements productions n (.rule .index) index := by
  have hsegment := implements_dotSegment.orElse (implements_bracketSegment (n := n))
  exact .flat rfl ((implements_ident.bind fun head =>
    (implements_many1 hsegment rfl).map (head :: ·)).node _)

theorem implements_chain {isOperator : Char → Bool} {sign : Nonterminal} (rule : Rule)
    (hsign : Implements productions n (.rule sign) (leaf .operator (satisfy isOperator)))
    (hread : sign.null = false) (hp : Implements productions n e p) :
    Implements productions n (chained sign e) (chain rule isOperator p) := by
  have hoperator : Implements productions n
      (.seq (.rule .layout) (.seq (.rule sign) (.rule .layout))) (operator isOperator) :=
    implements_layout.bind fun _ => hsign.bind fun s => implements_layout.map fun _ => s
  have hothers := implements_many
    (hoperator.bind fun sign => hp.map fun next => [sign, next])
    (by simp [Peg.nullable, hread])
  refine Implements.offset_bind fun _ => hp.bind fun first => hothers.bind_silent ?_
  intro others c t
  change Parser.outcome (if others.isEmpty then _ else _) c t = _
  split <;> rfl

theorem implements_productSign : Implements productions n (.rule .productSign)
    (leaf .operator (satisfy fun c => c == '*' || c == '/')) :=
  .flat rfl ((Implements.satisfy _).leaf _)

theorem implements_sumSign : Implements productions n (.rule .sumSign)
    (leaf .operator (satisfy fun c => c == '+' || c == '-')) :=
  .flat rfl ((Implements.satisfy _).leaf _)

theorem implements_atom (hv : Implements productions n (.rule .value) v)
    (hs : Implements productions n (.rule .sum) s) :
    Implements productions n (.rule .atom) (atom v s) := by
  have hgroup : Implements productions n (.seq (spaced (marked '(')) <| .seq (.rule .sum) <|
      .seq (.rule .layout) (marked ')')) (group s) :=
    (implements_lexeme (implements_mark '(')).bind fun _ => hs.bind fun inner =>
      implements_layout.bind fun _ => (implements_mark ')').map fun _ => inner
  exact .flat rfl (implements_number.orElse (hgroup.orElse
    ((implements_call hv).orElse implements_index)))

theorem implements_product (hv : Implements productions n (.rule .value) v)
    (hs : Implements productions n (.rule .sum) s) :
    Implements productions n (.rule .product) (product v s) :=
  .flat rfl (implements_chain _ implements_productSign rfl (implements_atom hv hs))

theorem implements_value_and_sum (n : Nat) : Implements productions n (.rule .value) (value n)
    ∧ Implements productions n (.rule .sum) (sum n) := by
  induction n with
  | zero => exact ⟨.spent rfl, .spent rfl⟩
  | succ n ih =>
    obtain ⟨hvalue, hsum⟩ := ih
    refine ⟨.nested rfl ?_, .nested rfl ?_⟩
    · exact (implements_array hvalue).orElse (implements_bool.orElse (hsum.orElse
        ((implements_object hvalue).orElse implements_string)))
    · exact implements_chain _ implements_sumSign rfl (implements_product hvalue hsum)

theorem implements_value (n : Nat) : Implements productions n (.rule .value) (value n) :=
  (implements_value_and_sum n).1

end Values

/-! ## Blocks -/

section Blocks

variable {v b : Parser Match}

theorem implements_simpleBlock (hv : Implements productions n (.rule .value) v) :
    Implements productions n (.rule .simpleBlock) (simpleBlock v) := by
  refine .flat rfl ((implements_ident.bind fun label => implements_layout.bind fun _ => ?_).node _)
  refine (implements_mark '[').bind fun _ => implements_sentence.bind fun description => ?_
  refine (implements_lexeme (implements_mark ']')).bind fun _ =>
    (implements_lexeme (implements_mark '\x7b')).bind fun _ => ?_
  exact (implements_many1 (implements_lexeme (implements_pair hv)) rfl).bind fun pairs =>
    (implements_mark '\x7d').map fun _ => label :: description :: pairs

theorem implements_blocks (hb : Implements productions n (.rule .block) b) :
    Implements productions n (.rule .blocks) (many1 (lexeme b)) :=
  .flat rfl (implements_many1 (implements_lexeme hb) rfl)

theorem implements_body (hb : Implements productions n (.rule .block) b) :
    Implements productions n (.rule .blocks) (body b) :=
  Implements.offset_bind fun _ => (implements_blocks hb).map _

theorem implements_clause (rule : Rule) (word : String)
    (hb : Implements productions n (.rule .block) b) :
    Implements productions n (Nonterminal.clause word) (clause rule word b) := by
  refine ((implements_lexeme (implements_keyword word)).bind fun _ =>
    (implements_lexeme (implements_mark '\x7b')).bind fun _ => ?_).node _
  exact (implements_blocks hb).bind fun blocks => (implements_mark '\x7d').map fun _ => blocks

theorem implements_compoundBlock (hv : Implements productions n (.rule .value) v)
    (hb : Implements productions n (.rule .block) b) :
    Implements productions n (.rule .compoundBlock) (compoundBlock v b) := by
  have hrescue : Implements productions n (.rule .rescue) (clause .rescue "rescue" b) :=
    .flat rfl (implements_clause _ _ hb)
  have halways : Implements productions n (.rule .always) (clause .always "always" b) :=
    .flat rfl (implements_clause _ _ hb)
  refine .flat rfl (((implements_lexeme (implements_keyword "block")).bind fun _ =>
    (implements_lexeme (implements_mark '\x7b')).bind fun _ => ?_).node _)
  refine (implements_many (implements_lexeme (implements_pair hv)) rfl).bind fun pairs =>
    (implements_body hb).bind fun inner => (implements_mark '\x7d').bind fun _ => ?_
  exact (implements_layout.bind fun _ => hrescue).option.bind fun rescue =>
    (implements_layout.bind fun _ => halways).option.map fun always =>
      pairs ++ inner :: rescue.toList ++ always.toList

theorem implements_block (n : Nat) : Implements productions n (.rule .block) (block n) := by
  induction n with
  | zero => exact .spent rfl
  | succ n ih =>
    exact .nested rfl ((implements_simpleBlock (implements_value n)).orElse
      (implements_compoundBlock (implements_value n) ih))

end Blocks

/-! ## Whole sources -/

theorem implements_endOfInput : Implements productions n (.rule .endOfInput) endOfInput := by
  refine .flat rfl (((Implements.notAhead _).expect _).of_outcome_eq fun c t => ?_)
  rw [outcome, outcome, endOfInput, expect, notAhead]
  cases c.rest <;> rfl

/-- A statement, with levels of nesting left. -/
def statementAt (n : Nat) : Parser Match :=
  pair (value n) <|> block n

/-- A playbook, with levels of nesting left. -/
def entryAt (n : Nat) : Parser Match :=
  node .entry do
    layout
    let statements ← many (lexeme (statementAt n))
    endOfInput
    pure statements

/-- A single value, with levels of nesting left. -/
def loneValueAt (n : Nat) : Parser Match := do
  layout
  let content ← lexeme (value n)
  endOfInput
  pure content

theorem entry_eq : entry = entryAt maxNesting := rfl

theorem loneValue_eq : loneValue = loneValueAt maxNesting := rfl

theorem implements_statement (n : Nat) :
    Implements productions n (.rule .statement) (statementAt n) :=
  .flat rfl ((implements_pair (implements_value n)).orElse (implements_block n))

theorem implements_entry (n : Nat) : Implements productions n (.rule .entry) (entryAt n) := by
  have hstatements := implements_many (implements_lexeme (implements_statement n)) rfl
  exact .flat rfl ((implements_layout.bind fun _ => hstatements.bind fun statements =>
    implements_endOfInput.map fun _ => statements).node _)

theorem implements_loneValue (n : Nat) :
    Implements productions n (.rule .loneValue) (loneValueAt n) :=
  .flat rfl (implements_layout.bind fun _ => (implements_lexeme (implements_value n)).bind
    fun content => implements_endOfInput.map fun _ => content)

/-! ## Outcomes of rules -/

/-- The outcome of the parser of a rule, with levels of nesting left. -/
def ruleOutcome (n : Nat) : Nonterminal → Cursor → Tracker → Option Cursor × Tracker
  | .comment => comment.outcome
  | .layout => layout.outcome
  | .ident => ident.outcome
  | .string => string.outcome
  | .digits => (run1 Char.isDigit).outcome
  | .number => number.outcome
  | .bool => bool.outcome
  | .sentence => sentence.outcome
  | .value => (value n).outcome
  | .values => (separated (value n)).outcome
  | .array => (array (value n)).outcome
  | .object => (object (value n)).outcome
  | .call => (call (value n)).outcome
  | .dotSegment => dotSegment.outcome
  | .bracketSegment => bracketSegment.outcome
  | .index => index.outcome
  | .productSign => (leaf .operator (satisfy fun c => c == '*' || c == '/')).outcome
  | .sumSign => (leaf .operator (satisfy fun c => c == '+' || c == '-')).outcome
  | .atom => (atom (value n) (sum n)).outcome
  | .product => (product (value n) (sum n)).outcome
  | .sum => (sum n).outcome
  | .pair => (pair (value n)).outcome
  | .block => (block n).outcome
  | .simpleBlock => (simpleBlock (value n)).outcome
  | .blocks => (body (block n)).outcome
  | .rescue => (clause .rescue "rescue" (block n)).outcome
  | .always => (clause .always "always" (block n)).outcome
  | .compoundBlock => (compoundBlock (value n) (block n)).outcome
  | .statement => (statementAt n).outcome
  | .endOfInput => endOfInput.outcome
  | .entry => (entryAt n).outcome
  | .loneValue => (loneValueAt n).outcome

theorem runs_outcome (r : Nonterminal) (n : Nat) (c : Cursor) (t : Tracker) :
    Runs productions n (.rule r) c t (ruleOutcome n r c t) := by
  have hvalue := implements_value n
  have hsum := (implements_value_and_sum n).2
  have hblock := implements_block n
  cases r with
  | comment => exact implements_comment c t
  | layout => exact implements_layout c t
  | ident => exact implements_ident c t
  | string => exact implements_string c t
  | digits => exact implements_digits c t
  | number => exact implements_number c t
  | bool => exact implements_bool c t
  | sentence => exact implements_sentence c t
  | value => exact hvalue c t
  | values => exact .flat rfl (implements_separated hvalue c t)
  | array => exact implements_array hvalue c t
  | object => exact implements_object hvalue c t
  | call => exact implements_call hvalue c t
  | dotSegment => exact implements_dotSegment c t
  | bracketSegment => exact implements_bracketSegment c t
  | index => exact implements_index c t
  | productSign => exact implements_productSign c t
  | sumSign => exact implements_sumSign c t
  | atom => exact implements_atom hvalue hsum c t
  | product => exact implements_product hvalue hsum c t
  | sum => exact hsum c t
  | pair => exact implements_pair hvalue c t
  | block => exact hblock c t
  | simpleBlock => exact implements_simpleBlock hvalue c t
  | blocks => exact implements_body hblock c t
  | rescue => exact .flat rfl (implements_clause _ _ hblock c t)
  | always => exact .flat rfl (implements_clause _ _ hblock c t)
  | compoundBlock => exact implements_compoundBlock hvalue hblock c t
  | statement => exact implements_statement n c t
  | endOfInput => exact implements_endOfInput c t
  | entry => exact implements_entry n c t
  | loneValue => exact implements_loneValue n c t

/-- The run of a rule ends, and it ends with the outcome of the parser. -/
theorem runs_iff {r : Nonterminal} {o : Option Cursor × Tracker} :
    Runs productions n (.rule r) c t o ↔ o = ruleOutcome n r c t := by
  constructor
  · intro h
    exact h.unique (runs_outcome r n c t)
  · rintro rfl
    exact runs_outcome r n c t

end Grammar

end Playbooks
