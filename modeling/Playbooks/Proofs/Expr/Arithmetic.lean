import Playbooks.Proofs.Expr.RoundTrip
import Playbooks.Proofs.Number.Denotation

/-!
# Arithmetic

A text of arithmetic has operators between operands, and parentheses where the usual precedence and
left associativity need them. `Writes` gives its rules by rank: left of an operator stands something
of the rank of the operator, right of it something that binds tighter, and parentheses make an
operand of anything.

The grammar reads a flat chain of operands instead, and the chain is applied from the left. In an
induction on how a text is written the chain grows at its end, so `ChainReads` says what was read
before an operator whatever the chain goes on with.

## Main definitions

* `Writes`: the texts of an expression, by rank and within levels of nesting.
* `Grammar.ChainReads`: what was read of a chain, and the expression of it.

## Main results

* `Grammar.reads_of_writes`: each text of an expression is read as this expression.
* `Expr.ofSource_of_writes`: so is a source that is such a text.
-/
namespace Playbooks

open Playbooks.Parser Grammar

/-! ## Texts -/

/-- How tightly the parts of a text hold together. -/
inductive Rank where
  | operand
  | product
  | sum
  | value

inductive Operator where
  | add
  | sub
  | mul
  | div

namespace Operator

/-- The function that the operator stands for. -/
def name : Operator → String
  | add => "add"
  | sub => "sub"
  | mul => "mul"
  | div => "div"

def sign : Operator → Char
  | add => '+'
  | sub => '-'
  | mul => '*'
  | div => '/'

/-- The rank of an operation, and of what stands left of its sign. -/
def rank : Operator → Rank
  | add | sub => .sum
  | mul | div => .product

/-- The rank of what stands right of the sign. -/
def rightRank : Operator → Rank
  | add | sub => .product
  | mul | div => .operand

end Operator

mutual

/-- The text is a way to write the expression, within a number of levels of nesting, of which
parentheses take one and arguments two. Layout may stand around an operator, and before a minus it
must, since a word goes on with it. -/
inductive Writes : Rank → Nat → Expr → List Char → Prop
  | integer {n : Nat} {i : Int64} {text : List Char} (hnumeral : IsNumeral text)
      (hwhole : '.' ∉ text) (hvalue : numeralValue text = i.toInt) :
      Writes .operand n (.number (.int i)) text
  | float {n : Nat} {x : Float} {text : List Char} (hnumeral : IsNumeral text)
      (hread : Number.read? text = some (.float x)) : Writes .operand n (.number (.float x)) text
  | call {n : Nat} {name inner : List Char} {args : List Expr} {texts : List (List Char)}
      (hname : IsHead name) (hargs : WritesItems n args texts) (hlisted : Listed texts inner) :
      Writes .operand n (.call (String.ofList name) args) (name ++ '(' :: inner ++ [')'])
  | index {n : Nat} {head : List Char} {segments : List Segment} (hhead : IsHead head)
      (hne : segments ≠ []) (hsegments : ∀ s ∈ segments, s.Legal) :
      Writes .operand n (.call (String.ofList head) (segments.map segmentExpr))
        (head ++ segments.flatMap Segment.chars)
  | group {n : Nat} {e : Expr} {text gap gap' : List Char} (h : Writes .sum n e text)
      (hgap : Layout gap) (hgap' : Layout gap') :
      Writes .operand (n + 1) e ('(' :: gap ++ text ++ gap' ++ [')'])
  | product {n : Nat} {e : Expr} {text : List Char} (h : Writes .operand n e text) :
      Writes .product n e text
  | sum {n : Nat} {e : Expr} {text : List Char} (h : Writes .product n e text) :
      Writes .sum n e text
  | operation {n : Nat} {op : Operator} {l r : Expr} {left right gap gap' : List Char}
      (hl : Writes op.rank n l left) (hr : Writes op.rightRank n r right) (hgap : Layout gap)
      (hminus : op = .sub → gap ≠ []) (hgap' : Layout gap') :
      Writes op.rank n (.call op.name [l, r]) (left ++ gap ++ op.sign :: gap' ++ right)
  | value {n : Nat} {e : Expr} {text : List Char} (h : Writes .sum n e text) :
      Writes .value (n + 2) e text
  | string {n : Nat} {text : List Char} (h : ∀ x ∈ text, isQuotable x = true) :
      Writes .value (n + 1) (.string (String.ofList text)) (quotedKey text)
  | bool {n : Nat} (b : Bool) : Writes .value (n + 1) (.bool b) (boolWord b).toList
  | array {n : Nat} {items : List Expr} {texts : List (List Char)} {inner : List Char}
      (hitems : WritesItems n items texts) (hlisted : Listed texts inner) :
      Writes .value (n + 1) (.array items) ('[' :: inner ++ [']'])
  | object {n : Nat} {entries : List (String × Expr)} {texts : List (List Char)}
      {inner : List Char} (hpairs : WritesPairs n entries texts) (hbraced : Braced texts inner) :
      Writes .value (n + 1) (.object (Table.ofList entries)) ('\x7b' :: inner ++ ['\x7d'])

/-- The texts are ways to write the values. -/
inductive WritesItems : Nat → List Expr → List (List Char) → Prop
  | nil {n : Nat} : WritesItems n [] []
  | cons {n : Nat} {e : Expr} {es : List Expr} {text : List Char} {texts : List (List Char)}
      (h : Writes .value n e text) (hes : WritesItems n es texts) :
      WritesItems n (e :: es) (text :: texts)

/-- The texts are ways to write the pairs. -/
inductive WritesPairs : Nat → List (String × Expr) → List (List Char) → Prop
  | nil {n : Nat} : WritesPairs n [] []
  | cons {n : Nat} {key : Key} {e : Expr} {entries : List (String × Expr)}
      {value text : List Char} {texts : List (List Char)} (hkey : key.Legal)
      (h : Writes .value n e value) (hpair : PairText key value text)
      (hentries : WritesPairs n entries texts) :
      WritesPairs n ((String.ofList key.name, e) :: entries) (text :: texts)

end

namespace Grammar

variable {source text left right gap gap' : List Char} {n : Nat} {e l r : Expr} {op : Operator}
  {c c₁ c' : Cursor}

/-! ## Chains -/

def isAdditive (x : Char) : Bool :=
  x == '+' || x == '-'

def isMultiplicative (x : Char) : Bool :=
  x == '*' || x == '/'

theorem isMultiplicative_of_isAdditive {x : Char} (h : isAdditive x = true) :
    isMultiplicative x = false := by
  rw [isAdditive, Bool.or_eq_true, beq_iff_eq, beq_iff_eq] at h
  rcases h with rfl | rfl <;> decide

/-- An operator and its right operand. -/
def operation (isOperator : Char → Bool) (operand : Parser Match) : Parser (List Match) := do
  let sign ← operator isOperator
  let next ← operand
  pure [sign, next]

theorem chain_eq (rule : Rule) (isOperator : Char → Bool) (operand : Parser Match) :
    chain rule isOperator operand = offset >>= fun start => operand >>= fun first =>
      many (operation isOperator operand) >>= fun others => offset >>= fun stop =>
        if others.isEmpty then pure first
        else pure (.node rule start stop (first :: others.flatten)) :=
  rfl

section Chains

variable {isOperator : Char → Bool} {operand : Parser Match} {m : Match}

/-- A chain was read from the first cursor to the second, where it may go on. The operations read so
far make the expression of their operands. -/
def ChainReads (source : List Char) (isOperator : Char → Bool) (operand : Parser Match)
    (c : Cursor) (e : Expr) (c' : Cursor) : Prop :=
  ∃ first c₁ steps start, operand.Reads c first c₁ ∧ Means source start first
    ∧ (∀ others c'', (many (operation isOperator operand)).Reads c' others c'' →
      (many (operation isOperator operand)).Reads c₁ (steps ++ others) c'')
    ∧ ∀ whole rest, Match.operations source whole start (steps.flatten ++ rest)
      = Match.operations source whole e rest

theorem chainReads_of_reads (h : operand.Reads c m c') (hmeans : Means source e m) :
    ChainReads source isOperator operand c e c' :=
  ⟨m, c', [], e, h, hmeans, fun _ _ hothers => hothers, fun _ _ => rfl⟩

theorem startsLayout_sign (op : Operator) : startsLayout op.sign = false := by
  cases op <;> decide

/-- Of the signs, words have the minus only. -/
theorem runsOn_sign (h : op ≠ .sub) : runsOn op.sign = false := by
  cases op with
  | sub => exact absurd rfl h
  | _ => decide

theorem operatorName?_sign (op : Operator) : Match.operatorName? [op.sign] = some op.name := by
  cases op <;> rfl

/-- One more operation is applied to all that was read before. -/
theorem ChainReads.operation (h : ChainReads source isOperator operand c l c₁) (hc : c₁.In source)
    (htook : c₁.Took (gap ++ op.sign :: gap' ++ right) c') (hgap : Layout gap)
    (hgap' : Layout gap') (hop : isOperator op.sign = true) (hstarts : Starts startsOperand right)
    (hright : ∀ c₂, c₂.In source → c₂.Took right c' →
      ∃ m, operand.Reads c₂ m c' ∧ Means source r m) :
    ChainReads source isOperator operand c (.call op.name [l, r]) c' := by
  obtain ⟨c₄, htook₄, hrightTook⟩ := htook.split
  obtain ⟨c₂, hgapTook, hsignTook⟩ := htook₄.split
  obtain ⟨c₃, hsign, hgapTook'⟩ := hsignTook.uncons
  obtain ⟨next, hnext, hmeans⟩ := hright c₄ (hc.of_le htook₄.le) hrightTook
  let sign : Match := .leaf .operator c₂.offset c₃.offset
  have hoperator : (operator isOperator).Reads c₁ sign c₄ :=
    (reads_layout hgapTook hgap (any_head_of_took hsign false (startsLayout_sign op))).bind
      ((reads_satisfy hsign hop).leaf.bind ((reads_layout hgapTook' hgap'
        ((hstarts.mono fun _ => startsValue_of_startsOperand).stops hrightTook)).bind
          (reads_pure sign c₄)))
  have hstep : (Grammar.operation isOperator operand).Reads c₁ [sign, next] c' :=
    hoperator.bind (hnext.bind (reads_pure _ c'))
  have hname : Match.operatorName? (sign.text source) = some op.name := by
    rw [text_leaf (hc.of_le hgapTook.le) hsign, operatorName?_sign]
  obtain ⟨first, c₀, steps, start, hfirst, hstart, hmany, hoperations⟩ := h
  refine ⟨first, c₀, steps ++ [[sign, next]], start, hfirst, hstart, ?_, ?_⟩
  · intro others c'' hothers
    rw [List.append_assoc]
    exact hmany _ c'' (hstep.many_cons htook (by simp) hothers)
  · intro whole rest
    rw [List.flatten_append, List.append_assoc, hoperations]
    simp only [List.flatten_cons, List.flatten_nil, List.append_nil, List.cons_append,
      List.nil_append, Match.operations, hname]
    rw [hmeans]
    rfl

/-- A chain that does not go on is read as a whole. -/
theorem ChainReads.chain {rule : Rule} (h : ChainReads source isOperator operand c e c')
    (hrule : rule = .sum ∨ rule = .product) (hend : (operator isOperator).Fails c') :
    ∃ m, (chain rule isOperator operand).Reads c m c' ∧ Means source e m := by
  obtain ⟨first, c₁, steps, start, hfirst, hstart, hmany, hoperations⟩ := h
  have hothers : (many (Grammar.operation isOperator operand)).Reads c₁ steps c' := by
    simpa using hmany [] c' hend.bind.many
  have happlied (whole : Match) : Match.operations source whole start steps.flatten = .ok e := by
    simpa [Match.operations] using hoperations whole []
  by_cases hsteps : steps = []
  · subst hsteps
    have heq : start = e := by simpa [Match.operations] using happlied first
    refine ⟨first, ?_, heq ▸ hstart⟩
    rw [chain_eq]
    exact (reads_offset c).bind (hfirst.bind (hothers.bind ((reads_offset c').bind
      (reads_pure first c'))))
  · let whole : Match := .node rule c.offset c'.offset (first :: steps.flatten)
    have hwhole : (if steps.isEmpty then pure first else pure whole : Parser Match).Reads c'
        whole c' := by
      rw [if_neg (by simpa using hsteps)]
      exact reads_pure whole c'
    refine ⟨whole, ?_, ?_⟩
    · rw [chain_eq]
      exact (reads_offset c).bind (hfirst.bind (hothers.bind ((reads_offset c').bind hwhole)))
    · rw [Means, expr_node]
      rcases hrule with rfl | rfl
      · rw [Match.expr, hstart]
        exact happlied _
      · rw [Match.expr, hstart]
        exact happlied _

end Chains

/-! ## Ranks -/

/-- Wherever the text stands in the source, if no word goes on after it, it is read as a chain of
factors. No truth value is read in its place. -/
structure ReadsProduct (source : List Char) (n : Nat) (e : Expr) (text : List Char) : Prop where
  starts : Starts startsOperand text
  reads (c c' : Cursor) : c.In source → c.Took text c' → c'.rest.head?.any runsOn = false →
    bool.Fails c ∧ ChainReads source isMultiplicative (atom (value n) (sum n)) c e c'

/-- Wherever the text stands in the source, if neither a word nor a product goes on after it, it is
read as a chain of terms. No truth value is read in its place. -/
structure ReadsSum (source : List Char) (n : Nat) (e : Expr) (text : List Char) : Prop where
  starts : Starts startsOperand text
  reads (c c' : Cursor) : c.In source → c.Took text c' → c'.rest.head?.any runsOn = false →
    (operator isMultiplicative).Fails c' →
    bool.Fails c ∧ ChainReads source isAdditive (product (value n) (sum n)) c e c'

theorem ReadsOperand.readsProduct (h : ReadsOperand source n e text) :
    ReadsProduct source n e text := by
  refine ⟨h.starts, fun c c' hc htook hword => ?_⟩
  obtain ⟨hbool, m, hm, hmeans⟩ := h.reads c c' hc htook hword
  exact ⟨hbool, chainReads_of_reads hm hmeans⟩

theorem ReadsProduct.exists_reads (h : ReadsProduct source n e text) (hc : c.In source)
    (htook : c.Took text c') (hword : c'.rest.head?.any runsOn = false)
    (hend : (operator isMultiplicative).Fails c') :
    bool.Fails c ∧ ∃ m, (product (value n) (sum n)).Reads c m c' ∧ Means source e m := by
  obtain ⟨hbool, hchain⟩ := h.reads c c' hc htook hword
  exact ⟨hbool, hchain.chain (Or.inr rfl) hend⟩

theorem ReadsProduct.readsSum (h : ReadsProduct source n e text) : ReadsSum source n e text := by
  refine ⟨h.starts, fun c c' hc htook hword hend => ?_⟩
  obtain ⟨hbool, m, hm, hmeans⟩ := h.exists_reads hc htook hword hend
  exact ⟨hbool, chainReads_of_reads hm hmeans⟩

/-- No word goes on with the sign of an operator, or with the layout before it. -/
theorem runsOn_before_sign (hgap : Layout gap) (hminus : op = .sub → gap ≠ [])
    (htook : c.Took (gap ++ op.sign :: gap' ++ right) c') : c.rest.head?.any runsOn = false := by
  rw [htook.rest_eq, List.append_assoc, List.append_assoc]
  refine runsOn_of_gap hgap ?_
  by_cases hsub : op = .sub
  · exact .inl (hminus hsub)
  · rw [List.cons_append, List.head?_cons, Option.any_some]
    exact .inr (runsOn_sign hsub)

theorem ReadsProduct.operation (hl : ReadsProduct source n l left)
    (hr : ReadsOperand source n r right) (hgap : Layout gap) (hminus : op = .sub → gap ≠ [])
    (hgap' : Layout gap') (hop : isMultiplicative op.sign = true) :
    ReadsProduct source n (.call op.name [l, r]) (left ++ gap ++ op.sign :: gap' ++ right) := by
  refine ⟨((hl.starts.append _).append _).append _, fun c c' hc htook hword => ?_⟩
  rw [List.append_assoc, List.append_assoc, ← List.append_assoc gap] at htook
  obtain ⟨c₁, hleftTook, hrestTook⟩ := htook.split
  obtain ⟨hbool, hchain⟩ :=
    hl.reads c c₁ hc hleftTook (runsOn_before_sign hgap hminus hrestTook)
  refine ⟨hbool, hchain.operation (hc.of_le hleftTook.le) hrestTook hgap hgap' hop hr.starts ?_⟩
  intro c₂ hc₂ hrightTook
  exact (hr.reads c₂ c' hc₂ hrightTook hword).2

theorem ReadsSum.operation (hl : ReadsSum source n l left) (hr : ReadsProduct source n r right)
    (hgap : Layout gap) (hminus : op = .sub → gap ≠ []) (hgap' : Layout gap')
    (hop : isAdditive op.sign = true) :
    ReadsSum source n (.call op.name [l, r]) (left ++ gap ++ op.sign :: gap' ++ right) := by
  refine ⟨((hl.starts.append _).append _).append _, fun c c' hc htook hword hend => ?_⟩
  rw [List.append_assoc, List.append_assoc, ← List.append_assoc gap] at htook
  obtain ⟨c₁, hleftTook, hrestTook⟩ := htook.split
  -- The product on the left does not go on, since the sign after the layout is not one of its own.
  have hstop : (operator isMultiplicative).Fails c₁ := by
    obtain ⟨c₃, htook₃, -⟩ := hrestTook.split
    obtain ⟨c₂, hgapTook, hsignTook⟩ := htook₃.split
    exact fails_operator_of_gap hgapTook hgap
      (any_head_of_took hsignTook false (startsLayout_sign op))
      (any_head_of_took hsignTook false (isMultiplicative_of_isAdditive hop))
  obtain ⟨hbool, hchain⟩ :=
    hl.reads c c₁ hc hleftTook (runsOn_before_sign hgap hminus hrestTook) hstop
  refine ⟨hbool, hchain.operation (hc.of_le hleftTook.le) hrestTook hgap hgap' hop hr.starts ?_⟩
  intro c₂ hc₂ hrightTook
  exact (hr.exists_reads hc₂ hrightTook hword hend).2

/-- Where nothing extends a value, arithmetic is read up to the end of its text. -/
theorem ReadsSum.exists_reads (h : ReadsSum source n e text) (hc : c.In source)
    (htook : c.Took text c') (hends : Ends c'.rest) :
    bool.Fails c ∧ ∃ m, (sum (n + 1)).Reads c m c' ∧ Means source e m := by
  obtain ⟨hbool, hchain⟩ := h.reads c c' hc htook hends.word
    (fails_operator hends isSign_of_multiplicative)
  exact ⟨hbool, hchain.chain (Or.inl rfl) (fails_operator hends isSign_of_additive)⟩

theorem ReadsSum.group (h : ReadsSum source n e text) (hgap : Layout gap) (hgap' : Layout gap') :
    ReadsOperand source (n + 1) e ('(' :: gap ++ text ++ gap' ++ [')']) := by
  refine ⟨⟨'(', _, rfl, by decide⟩, fun c c' hc htook _ => ?_⟩
  have hhead : c.rest.head? = some '(' := head?_of_took htook
  have hbool : bool.Fails c := fails_bool_of_head (any_head_of_took htook false (by decide))
  have hnumber : number.Fails c := fails_number (any_head_of_took htook false (by decide))
  obtain ⟨c₄, htook₄, hclose⟩ := htook.split
  obtain ⟨c₃, htook₃, hgapTook'⟩ := htook₄.split
  obtain ⟨c₂, htook₂, htextTook⟩ := htook₃.split
  obtain ⟨c₁, hopen, hgapTook⟩ := htook₂.uncons
  have hends : Ends c₃.rest := by
    rw [hgapTook'.rest_eq]
    exact ends_of_closes hgap' (any_head_of_took hclose false (by decide))
  obtain ⟨-, m, hm, hmeans⟩ := h.exists_reads (hc.of_le htook₂.le) htextTook hends
  have hstop : c₂.rest.head?.any startsLayout = false :=
    (h.starts.mono fun _ => startsValue_of_startsOperand).stops htextTook
  have hgroup : (Grammar.group (sum (n + 1))).Reads c m c' :=
    (reads_markGap hopen hgapTook hgap hstop).bind (hm.bind
      ((reads_layout hgapTook' hgap' (any_head_of_took hclose false (by decide))).bind
        ((reads_mark hclose).bind (reads_pure m c'))))
  exact ⟨hbool, m, hnumber.orElse_reads hgroup.orElse, hmeans⟩

theorem ReadsSum.readsText (h : ReadsSum source n e text) :
    ReadsText source (value (n + 2)) (Means source e) text := by
  refine ⟨h.starts.mono fun _ => startsValue_of_startsOperand, fun c c' hc htook hends => ?_⟩
  obtain ⟨hbool, m, hm, hmeans⟩ := h.exists_reads hc htook hends
  exact ⟨m, reads_value_of_sum (h.starts.head?_ne htook (by decide)) hbool hm, hmeans⟩

/-- What reading a text of a rank means. -/
def ReadsAs (source : List Char) : Rank → Nat → Expr → List Char → Prop
  | .operand => ReadsOperand source
  | .product => ReadsProduct source
  | .sum => ReadsSum source
  | .value => fun n e => ReadsText source (value n) (Means source e)

/-- An operation is read if its operands are. -/
theorem readsAs_operation (hl : ReadsAs source op.rank n l left)
    (hr : ReadsAs source op.rightRank n r right) (hgap : Layout gap)
    (hminus : op = .sub → gap ≠ []) (hgap' : Layout gap') :
    ReadsAs source op.rank n (.call op.name [l, r]) (left ++ gap ++ op.sign :: gap' ++ right) := by
  cases op with
  | add => exact ReadsSum.operation hl hr hgap hminus hgap' rfl
  | sub => exact ReadsSum.operation hl hr hgap hminus hgap' rfl
  | mul => exact ReadsProduct.operation hl hr hgap hminus hgap' rfl
  | div => exact ReadsProduct.operation hl hr hgap hminus hgap' rfl

mutual

/-- Each text of an expression is read as this expression. -/
theorem reads_of_writes {rank : Rank} {n : Nat} {e : Expr} {text : List Char} :
    Writes rank n e text → ReadsAs source rank n e text
  | .integer hnumeral hwhole hvalue =>
    readsOperand_number hnumeral ((Number.read?_eq_int_iff hnumeral _).mpr ⟨hwhole, hvalue⟩)
  | .float hnumeral hread => readsOperand_number hnumeral hread
  | .call hname hargs hlisted => readsOperand_call hname hlisted (reads_of_writesItems hargs)
  | .index hhead hne hsegments => readsOperand_index hhead hne hsegments
  | .group h hgap hgap' => ReadsSum.group (reads_of_writes h) hgap hgap'
  | .product h => ReadsOperand.readsProduct (reads_of_writes h)
  | .sum h => ReadsProduct.readsSum (reads_of_writes h)
  | .operation hl hr hgap hminus hgap' =>
    readsAs_operation (reads_of_writes hl) (reads_of_writes hr) hgap hminus hgap'
  | .value h => ReadsSum.readsText (reads_of_writes h)
  | .string h => readsText_string h
  | .bool b => readsText_bool b
  | .array hitems hlisted => readsText_array hlisted (reads_of_writesItems hitems)
  | .object hpairs hbraced => readsText_object hbraced (reads_of_writesPairs hpairs)

theorem reads_of_writesItems {n : Nat} {es : List Expr} {texts : List (List Char)} :
    WritesItems n es texts →
    List.Forall₂ (fun text e => ReadsText source (value n) (Means source e) text) texts es
  | .nil => .nil
  | .cons h hes => .cons (reads_of_writes h) (reads_of_writesItems hes)

theorem reads_of_writesPairs {n : Nat} {entries : List (String × Expr)}
    {texts : List (List Char)} : WritesPairs n entries texts →
    List.Forall₂ (fun text entry =>
      ReadsText source (pair (value n)) (MeansPair source entry) text) texts entries
  | .nil => .nil
  | .cons hkey h hpair hentries =>
    .cons (readsText_pair hkey (reads_of_writes h) hpair) (reads_of_writesPairs hentries)

end

end Grammar

/-- A source that is a text of an expression, with layout around it, is read as this expression:
operators have the usual precedence and associate to the left. -/
theorem Expr.ofSource_of_writes {e : Expr} {text gap gap' : List Char}
    (h : Writes .value maxNesting e text) (hgap : Layout gap) (hgap' : Layout gap') :
    Expr.ofSource (gap ++ text ++ gap') = .ok e := by
  obtain ⟨m, c, hm, hmeans⟩ := ReadsText.loneValue (reads_of_writes h) hgap hgap' rfl
  exact ofSource_of_reads hm hmeans

/-- Two differences, the second of them after a comment, of which the right operand is a product of
a group and a call with differences in its argument. -/
theorem Expr.ofSource_of_writes_differences :
    let e : Expr := .call "sub" [.call "sub" [.number (.int 8), .call "a" [.string "b"]],
      .call "mul" [.call "add" [.number (.int 2), .number (.int (-3))],
        .call "f" [.call "sub" [.call "sub" [.number (.int 1), .number (.int 1)],
          .number (.int 1)]]]]
    let text := "8 - a.b #\n- (2 + -3 ) * f(1 - 1 - 1,)".toList
    Writes .value maxNesting e text ∧ Expr.ofSource ([] ++ text ++ []) = .ok e := by
  intro e text
  have hblank : Layout [' '] := .blank (by decide) .nil
  have hnote : Layout [' ', '#', '\n'] := .blank (by decide) (.comment List.not_mem_nil .nil)
  have hone : Writes .operand 60 (.number (.int 1)) ['1'] :=
    .integer (.plain (.whole rfl)) (by decide) (by decide +kernel)
  have hones := @Writes.operation _ .sub _ _ _ _ _ _ hone.product.sum hone.product hblank
    (by simp) hblank
  have harg := (@Writes.operation _ .sub _ _ _ _ _ _ hones hone.product hblank
    (by simp) hblank).value
  have hf : IsHead ['f'] := ⟨by decide, by decide⟩
  have hcall := Writes.call hf (.cons harg .nil) (.intro .nil (.cons .nil .nil) .nil)
  have htwo : Writes .operand 61 (.number (.int 2)) ['2'] :=
    .integer (.plain (.whole rfl)) (by decide) (by decide +kernel)
  have hthree : Writes .operand 61 (.number (.int (-3))) ['-', '3'] :=
    .integer (.minus (.whole rfl)) (by decide) (by decide +kernel)
  have hgroup := (@Writes.operation _ .add _ _ _ _ _ _ htwo.product.sum hthree.product hblank
    (by simp) hblank).group .nil hblank
  have hproduct := @Writes.operation _ .mul _ _ _ _ _ _ hgroup.product hcall hblank
    (by simp) hblank
  have height : Writes .operand 62 (.number (.int 8)) ['8'] :=
    .integer (.plain (.whole rfl)) (by decide) (by decide +kernel)
  have ha : IsHead ['a'] := ⟨by decide, by decide⟩
  have hindex := @Writes.index 62 _ [.dot ['b']] ha (by simp)
    (by simp [Segment.Legal, isSegmentChar])
  have hleft := @Writes.operation _ .sub _ _ _ _ _ _ height.product.sum hindex.product hblank
    (by simp) hblank
  have hwrites : Writes .value maxNesting e text :=
    (@Writes.operation _ .sub _ _ _ _ _ _ hleft hproduct hnote (by simp) hblank).value
  exact ⟨hwrites, ofSource_of_writes hwrites .nil .nil⟩

end Playbooks
