import Playbooks.Proofs.Expr.Agreement
import Playbooks.Proofs.Plan.Lowering

/-!
# Reading back what is written

An expression is read back from its text exactly if it is spellable and its text does not nest too
deeply. That it is read back follows from reading phrases. For the other direction, `Attempts` says
how far a parser gets with the text of an expression that cannot be read back: it fails, or it stops
before a character that starts a value, and then nothing around it can go on.

## Main results

* `Expr.ofSource_render_iff`: which expressions are read back.
-/
namespace Playbooks

open Playbooks.Parser

namespace Grammar

variable {source : List Char} {c c' c₁ : Cursor} {x : Char}

/-! ## Attempts -/

/-- Nothing stands here, or a comma. -/
def Closed (rest : List Char) : Prop :=
  rest.head?.any (· != ',') = false

theorem extendsValue_of_closed {rest : List Char} (h : Closed rest) :
    rest.head?.any extendsValue = false := by
  refine any_false_mono h fun x hx => ?_
  rw [bne_iff_ne]
  rintro rfl
  cases hx

theorem ends_of_closed {rest : List Char} (h : Closed rest) : Ends rest :=
  ends_of_closes .nil (extendsValue_of_closed h)

theorem head?_ne_of_starts {P : Char → Bool} (h : Starts P c.rest) (hx : P x = false) :
    c.rest.head? ≠ some x :=
  h.head?_ne (Cursor.took_advance (List.append_nil _).symm) hx

theorem stops_of_starts (h : Starts startsValue c.rest) : c.rest.head?.any startsLayout = false :=
  h.stops (Cursor.took_advance (List.append_nil _).symm)

/-- Wherever the text stands before a comma or the end, the parser reads no more of it than what is
before a value, unless it is done: then it reads all of it. -/
structure Attempts (source : List Char) (p : Parser Match) (done : Prop) (text : List Char) :
    Prop where
  starts : Starts startsValue text
  ensures (c c' : Cursor) : c.In source → c.Took text c' → Closed c'.rest →
    p.Ensures c fun _ c₁ => (done ∧ c₁ = c') ∨ Starts startsValue c₁.rest

section Attempts

variable {p : Parser Match} {done : Prop} {text : List Char}

theorem ReadsText.attempts {Q : Match → Prop} (h : ReadsText source p Q text) (hdone : done) :
    Attempts source p done text := by
  refine ⟨h.starts, fun c c' hc htook hclosed => ?_⟩
  obtain ⟨m, hm, -⟩ := h.reads c c' hc htook (ends_of_closed hclosed)
  exact hm.ensures (Or.inl ⟨hdone, rfl⟩)

theorem Attempts.imp {done' : Prop} (h : Attempts source p done text) (himp : done → done') :
    Attempts source p done' text :=
  ⟨h.starts, fun c c' hc htook hclosed => (h.ensures c c' hc htook hclosed).mono
    fun _ _ hstop => hstop.imp_left fun hdone => ⟨himp hdone.1, hdone.2⟩⟩

/-- No layout stands where an attempt stops. -/
theorem Attempts.lexeme (h : Attempts source p done text) (hc : c.In source)
    (htook : c.Took text c') (hclosed : Closed c'.rest) :
    (lexeme p).Ensures c fun _ c₁ => (done ∧ c₁ = c') ∨ Starts startsValue c₁.rest := by
  refine (h.ensures c c' hc htook hclosed).bind fun m c₁ hstop => ?_
  have hlayout : c₁.rest.head?.any startsLayout = false := by
    rcases hstop with ⟨-, rfl⟩ | hstarts
    · exact stops_of_closes (extendsValue_of_closed hclosed)
    · exact stops_of_starts hstarts
  exact (reads_layout (Cursor.Took.refl c₁) .nil hlayout).ensures_bind (ensures_pure hstop)

end Attempts

/-! ## Lists -/

section Lists

variable {p : Parser Match} {α : Type} {G : α → Prop} {text : List Char}
  {texts : List (List Char)} {xs : List α}

theorem fails_comma (h : Starts startsValue c.rest) : comma.Fails c :=
  fails_lexeme (fails_mark (head?_ne_of_starts h (by decide)))

theorem reads_commaBlank (htook : c.Took [',', ' '] c₁) (h : Starts startsValue c₁.rest) :
    comma.Reads c () c₁ := by
  obtain ⟨c₂, hcomma, hblank⟩ := htook.uncons
  exact reads_markGap hcomma hblank (.blank (by decide) .nil) (stops_of_starts h)

/-- A list neither goes on nor ends here: a value follows, or a comma and a value. -/
def Blocked (c : Cursor) : Prop :=
  Starts startsValue c.rest ∨ ∃ c₁, c.Took [',', ' '] c₁ ∧ Starts startsValue c₁.rest

theorem fails_close_of_blocked {β : Type} {f : Unit → Parser β} (h : Blocked c)
    (hx : startsValue x = false) : (comma >>= fun _ => mark x >>= f).Fails c := by
  rcases h with h | ⟨c₁, htook, h⟩
  · exact (fails_comma h).bind
  · exact (reads_commaBlank htook h).bind_fails (fails_mark (head?_ne_of_starts h hx)).bind

theorem fails_closePairs_of_blocked (h : Blocked c) (ms : List Match) :
    (closePairs ms).Fails c := by
  have hhead : c.rest.head? ≠ some '\x7d' := by
    rcases h with h | ⟨c₁, htook, -⟩
    · exact head?_ne_of_starts h (by decide)
    · rw [head?_of_took htook]
      decide
  rw [closePairs]
  split
  · rcases h with h | ⟨c₁, htook, h⟩
    · exact (fails_comma h).option.bind_fails (fails_mark hhead).bind
    · exact (reads_commaBlank htook h).option.bind_fails
        (fails_mark (head?_ne_of_starts h (by decide))).bind
  · exact (fails_mark hhead).bind

/-- The loop over the texts after the first one ends before the last comma, or it is blocked. -/
theorem ensures_trail
    (hread : List.Forall₂ (fun text x => Attempts source p (G x) text) texts xs)
    (hfails : ∀ c, c.rest.head?.any startsValue = false → p.Fails c)
    (hlayout : c'.rest.head?.any startsLayout = false)
    (hvalue : c'.rest.head?.any startsValue = false) (hc : c.In source)
    (htook : c.Took (',' :: trail texts) c') (n : Nat) :
    (manyUpTo (comma >>= fun _ => lexeme p) n).Ensures c fun _ c₁ =>
      ((∀ x ∈ xs, G x) ∧ c₁.Took [','] c') ∨ Blocked c₁ := by
  induction hread generalizing c n with
  | nil =>
      have hcomma : comma.Reads c () c' := reads_markGap htook (Cursor.Took.refl c') .nil hlayout
      have hend : (comma >>= fun _ => lexeme p).Fails c :=
        hcomma.bind_fails (fails_lexeme (hfails c' hvalue))
      exact hend.ensures_manyUpTo (Or.inl ⟨by simp, htook⟩) n
  | @cons text x texts xs htext _ ih =>
      cases n with
      | zero => exact (fails_manyUpTo_zero _ c).ensures
      | succ n =>
          obtain ⟨c₁, hcommaTook, htook⟩ := htook.uncons
          obtain ⟨c₂, hblankTook, htook⟩ := htook.uncons
          obtain ⟨c₃, htextTook, hrestTook⟩ := htook.split
          have hstarts : Starts startsValue c₂.rest := by
            rw [htextTook.rest_eq]
            exact htext.starts.append _
          have hcommaBlank : c.Took [',', ' '] c₂ := hcommaTook.trans hblankTook
          have hclosed : Closed c₃.rest := any_head_of_took hrestTook false (by decide)
          refine ensures_manyUpTo_succ (Or.inr (Or.inr ⟨c₂, hcommaBlank, hstarts⟩)) ?_
          refine (reads_commaBlank hcommaBlank hstarts).ensures_bind ?_
          refine (htext.lexeme (hc.of_le hcommaBlank.le) htextTook hclosed).mono ?_
          rintro m c₄ (⟨hx, rfl⟩ | hstarts)
          · refine (ih (hc.of_le (le_trans hcommaBlank.le htextTook.le)) hrestTook n).mono ?_
            intro ms c₅ hstop
            refine hstop.imp_left fun hall => ⟨?_, hall.2⟩
            simpa using ⟨hx, hall.1⟩
          · exact (fails_comma hstarts).bind.ensures_manyUpTo (Or.inr (Or.inl hstarts)) n

/-- A list is read up to its last comma, or reading it is blocked. -/
theorem ensures_separated
    (hread : List.Forall₂ (fun text x => Attempts source p (G x) text) (text :: texts) xs)
    (hfails : ∀ c, c.rest.head?.any startsValue = false → p.Fails c)
    (hlayout : c'.rest.head?.any startsLayout = false)
    (hvalue : c'.rest.head?.any startsValue = false) (hc : c.In source)
    (htook : c.Took (text ++ ',' :: trail texts) c') :
    (separated p).Ensures c fun _ c₁ => ((∀ x ∈ xs, G x) ∧ c₁.Took [','] c') ∨ Blocked c₁ := by
  cases hread with
  | @cons _ x _ xs htext hrest =>
      obtain ⟨c₁, htextTook, hrestTook⟩ := htook.split
      have hclosed : Closed c₁.rest := any_head_of_took hrestTook false (by decide)
      have hstarts : Starts startsValue c.rest := by
        rw [htextTook.rest_eq]
        exact htext.starts.append _
      have hfirst : (option (lexeme p)).Ensures c fun first c₂ =>
          (first.isSome = true ∧ G x ∧ c₂ = c₁) ∨ Starts startsValue c₂.rest := by
        refine Ensures.option ((htext.lexeme hc htextTook hclosed).mono ?_) (Or.inr hstarts)
        intro m c₂ hstop
        exact hstop.imp_left fun hdone => ⟨rfl, hdone⟩
      refine hfirst.bind fun first c₂ hstop => ?_
      cases first with
      | none =>
          refine ensures_pure (Or.inr (Or.inl ?_))
          simpa using hstop
      | some m =>
          refine Ensures.bind ?_ fun ms c₃ hstop => ensures_pure hstop
          rcases hstop with ⟨-, hx, rfl⟩ | hstarts
          · have hc₂ := hc.of_le htextTook.le
            refine (ensures_trail hrest hfails hlayout hvalue hc₂ hrestTook _).mono ?_
            intro ms c₃ hstop
            refine hstop.imp_left fun hall => ⟨?_, hall.2⟩
            simpa using ⟨hx, hall.1⟩
          · exact (fails_comma hstarts).bind.ensures_manyUpTo (Or.inr (Or.inl hstarts)) _

theorem ensures_listUpTo {close : Char}
    (hread : List.Forall₂ (fun text x => Attempts source p (G x) text) (text :: texts) xs)
    (hfails : ∀ c, c.rest.head?.any startsValue = false → p.Fails c)
    (hlayout : startsLayout close = false) (hvalue : startsValue close = false) (hc : c.In source)
    (htook : c.Took (text ++ ',' :: trail texts ++ [close]) c') :
    (listUpTo close p).Ensures c fun _ c₁ => (∀ x ∈ xs, G x) ∧ c₁ = c' := by
  obtain ⟨c₂, hinnerTook, hcloseTook⟩ := htook.split
  have hlayout₂ : c₂.rest.head?.any startsLayout = false :=
    any_head_of_took hcloseTook false hlayout
  have hvalue₂ : c₂.rest.head?.any startsValue = false := any_head_of_took hcloseTook false hvalue
  refine (ensures_separated hread hfails hlayout₂ hvalue₂ hc hinnerTook).bind fun ms c₁ hstop => ?_
  rcases hstop with ⟨hall, hcommaTook⟩ | hblocked
  · have hcomma : comma.Reads c₁ () c₂ :=
      reads_markGap hcommaTook (Cursor.Took.refl c₂) .nil hlayout₂
    exact hcomma.ensures_bind ((reads_mark hcloseTook).ensures_bind (ensures_pure ⟨hall, rfl⟩))
  · exact (fails_close_of_blocked hblocked hvalue).ensures

theorem ensures_pairs
    (hread : List.Forall₂ (fun text x => Attempts source p (G x) text) (text :: texts) xs)
    (hfails : ∀ c, c.rest.head?.any startsValue = false → p.Fails c) (hc : c.In source)
    (htook : c.Took (text ++ ',' :: trail texts ++ ['\x7d']) c') :
    (separated p >>= closePairs).Ensures c fun _ c₁ => (∀ x ∈ xs, G x) ∧ c₁ = c' := by
  obtain ⟨c₂, hinnerTook, hcloseTook⟩ := htook.split
  have hlayout₂ : c₂.rest.head?.any startsLayout = false :=
    any_head_of_took hcloseTook false (by decide)
  have hvalue₂ : c₂.rest.head?.any startsValue = false :=
    any_head_of_took hcloseTook false (by decide)
  refine (ensures_separated hread hfails hlayout₂ hvalue₂ hc hinnerTook).bind fun ms c₁ hstop => ?_
  rcases hstop with ⟨hall, hcommaTook⟩ | hblocked
  · have hcomma : comma.Reads c₁ () c₂ :=
      reads_markGap hcommaTook (Cursor.Took.refl c₂) .nil hlayout₂
    rw [closePairs]
    split
    · exact hcomma.option.ensures_bind
        ((reads_mark hcloseTook).ensures_bind (ensures_pure ⟨hall, rfl⟩))
    · have hclose : (mark '\x7d').Fails c₁ := fails_mark (by rw [head?_of_took hcommaTook]; decide)
      exact hclose.bind.ensures
  · exact (fails_closePairs_of_blocked hblocked ms).ensures

theorem attempts_pair {key : String} {done : Prop} (hkey : ∀ x ∈ key.toList, isQuotable x = true)
    (hvalue : Attempts source p done text) :
    Attempts source (pair p) done (keyChars key ++ ':' :: ' ' :: text) := by
  have hlegal : (Key.ofString key).Legal := Key.legal_ofString hkey
  rw [← Key.chars_ofString]
  refine ⟨(starts_of_legal hlegal).append _, fun c c' hc htook hclosed => ?_⟩
  obtain ⟨c₁, hkeyTook, htook⟩ := htook.split
  obtain ⟨c₂, hcolon, htook⟩ := htook.uncons
  obtain ⟨c₃, hblank, htextTook⟩ := htook.uncons
  have hstop : c₁.rest.head?.any isIdentChar = false := any_head_of_took hcolon false (by decide)
  obtain ⟨km, hkm, -⟩ := reads_key hlegal hc hkeyTook hstop
  have hlayout : layout.Reads c₁ () c₁ :=
    reads_layout (Cursor.Took.refl c₁) .nil (any_head_of_took hcolon false (by decide))
  have hcolonReads : (lexeme (mark ':')).Reads c₁ () c₃ :=
    reads_markGap hcolon hblank (.blank (by decide) .nil) (hvalue.starts.stops htextTook)
  have hc₃ : c₃.In source := hc.of_le (le_trans hkeyTook.le (le_trans hcolon.le hblank.le))
  refine Ensures.node (hkm.ensures_bind (hlayout.ensures_bind (hcolonReads.ensures_bind ?_)))
  exact (hvalue.ensures c₃ c' hc₃ htextTook hclosed).bind fun m c₄ hstop => ensures_pure hstop

end Lists

/-! ## Values -/

section Values

variable {n : Nat} {done : Prop} {text : List Char}

theorem attempts_zero (hstarts : Starts startsValue text) : Attempts source (value 0) done text :=
  ⟨hstarts, fun c _ _ _ _ => (fails_refuse _ c).ensures⟩

/-- Where an operand of arithmetic starts, there is no value but a truth value or arithmetic. -/
theorem fails_value_of_sum (hstarts : Starts startsOperand text) (htook : c.Took text c')
    (hbool : bool.Fails c) (hsum : (sum n).Fails c) : (value (n + 1)).Fails c :=
  (fails_array (hstarts.head?_ne htook (by decide))).orElse (hbool.orElse (hsum.orElse
    ((fails_object (hstarts.head?_ne htook (by decide))).orElse
      (fails_string (hstarts.head?_ne htook (by decide))))))

/-- A single operand that is read up to the end, or not at all. -/
theorem ensures_chain {p : Parser Match} {rule : Rule} {isOperator : Char → Bool}
    (hsign : ∀ x, isOperator x = true → isSign x = true) (hends : Ends c'.rest)
    (h : p.Ensures c fun _ c₁ => done ∧ c₁ = c') :
    (chain rule isOperator p).Ensures c fun _ c₁ => done ∧ c₁ = c' := by
  refine (reads_offset c).ensures_bind (h.bind ?_)
  rintro m c₁ ⟨hdone, rfl⟩
  have hothers := (Fails.bind (fails_operator hends hsign)
    (f := fun sign => p >>= fun next => pure [sign, next])).many
  exact hothers.ensures_bind ((reads_offset c₁).ensures_bind (ensures_pure ⟨hdone, rfl⟩))

theorem ensures_sum (hends : Ends c'.rest)
    (h : (atom (value n) (sum n)).Ensures c fun _ c₁ => done ∧ c₁ = c') :
    (sum (n + 1)).Ensures c fun _ c₁ => done ∧ c₁ = c' :=
  ensures_chain isSign_of_additive hends (ensures_chain isSign_of_multiplicative hends h)

/-! ### Words that are no values -/

/-- A word on its own is neither a call nor an index expression. -/
theorem fails_value_of_word (hword : IsHead text) (htook : c.Took text c')
    (hclosed : Closed c'.rest) : (value n).Fails c := by
  cases n with
  | zero => exact fails_refuse _ c
  | succ n =>
      have hends := ends_of_closed hclosed
      have hstarts := starts_of_isIdent hword.1
      have hstop := isIdentChar_of_ends hends
      have hbool : bool.Fails c := fails_bool htook (isIdentChar_of_isIdent hword.1) hstop hword.2
      refine fails_value_of_sum (hstarts.mono fun _ => startsOperand_of_isLetter) htook hbool ?_
      cases n with
      | zero => exact fails_refuse _ c
      | succ n =>
          have hident := reads_ident htook hword.1 hstop
          have hparen : c'.rest.head? ≠ some '(' := ne_some_of_any_false hclosed (by decide)
          have hcall : (call (value n)).Fails c :=
            (hident.bind_fails (fails_lexeme (fails_mark hparen)).bind).node
          have hdot : dotSegment.Fails c' :=
            (fails_mark (ne_some_of_any_false hclosed (by decide))).bind
          have hbracket : bracketSegment.Fails c' :=
            (fails_mark (ne_some_of_any_false hclosed (by decide))).bind
          have hindex : index.Fails c := (hident.bind_fails (hdot.orElse hbracket).bind.bind).node
          obtain ⟨hnumber, hgroup⟩ := fails_number_and_group (p := sum n) hstarts htook
          exact fails_chain (fails_chain (hnumber.orElse (hgroup.orElse (hcall.orElse hindex))))

theorem fails_value_of_minusInf (htook : c.Took "-inf".toList c') : (value n).Fails c := by
  cases n with
  | zero => exact fails_refuse _ c
  | succ n =>
      have hletter : c.rest.head?.any isLetter = false := any_head_of_took htook false (by decide)
      have hstarts : Starts startsOperand "-inf".toList := ⟨'-', _, rfl, by decide⟩
      refine fails_value_of_sum hstarts htook (fails_bool_of_head hletter) ?_
      cases n with
      | zero => exact fails_refuse _ c
      | succ n =>
          obtain ⟨c₁, hminus, hinf⟩ := htook.uncons
          have hnumber : number.Fails c := by
            rw [number_eq]
            exact ((reads_satisfy hminus rfl).option.bind_fails
              (fails_magnitude (any_head_of_took hinf false (by decide)))).leaf
          have hgroup : (group (sum n)).Fails c :=
            fails_group (by rw [head?_of_took hminus]; decide)
          exact fails_chain (fails_chain (hnumber.orElse (hgroup.orElse
            ((fails_call hletter).orElse (fails_index hletter)))))

theorem fails_value_one_of_isNumeral (h : IsNumeral text) (htook : c.Took text c') :
    (value 1).Fails c := by
  have hstarts := starts_of_isNumeral h
  have hbool : bool.Fails c :=
    fails_bool_of_head (hstarts.any_head htook fun _ => isLetter_of_startsNumber)
  exact fails_value_of_sum (hstarts.mono fun _ => startsOperand_of_startsNumber) htook hbool
    (fails_refuse _ c)

/-- A float that is not finite is written as a word, or as a minus and a word. -/
theorem attempts_not_finite {x : Float} (h : x.isFinite = false) (n : Nat) :
    Attempts source (value n) done (Float64.literalText x).toList := by
  rcases Float64.literalText_of_not_finite h with h | h | h
  · have hword : IsHead "NaN".toList := ⟨by decide, by decide⟩
    rw [h]
    exact ⟨⟨'N', _, rfl, by decide⟩, fun _ _ _ htook hclosed =>
      (fails_value_of_word hword htook hclosed).ensures⟩
  · have hword : IsHead "inf".toList := ⟨by decide, by decide⟩
    rw [h]
    exact ⟨⟨'i', _, rfl, by decide⟩, fun _ _ _ htook hclosed =>
      (fails_value_of_word hword htook hclosed).ensures⟩
  · rw [h]
    exact ⟨⟨'-', _, rfl, by decide⟩, fun _ _ _ htook _ => (fails_value_of_minusInf htook).ensures⟩

theorem attempts_numeral (h : IsNumeral text) (n : Nat) :
    Attempts source (value n) (2 ≤ n) text := by
  obtain ⟨r, hr⟩ := Number.exists_read? h
  have hreads (n : Nat) : ReadsText source (value (n + 2)) (Means source (.number r)) text :=
    readsText_number h hr
  match n with
  | 0 => exact attempts_zero (hreads 0).starts
  | 1 =>
      exact ⟨(hreads 0).starts, fun _ _ _ htook _ => (fails_value_one_of_isNumeral h htook).ensures⟩
  | n + 2 => exact (hreads n).attempts (by omega)

theorem attempts_number {k : Number} (hfloat : (Expr.number k).FloatReadsBack) (n : Nat) :
    Attempts source (value n) ((Expr.number k).Spelled ∧ 2 ≤ n) k.render.toList := by
  by_cases hspelled : (Expr.number k).Spelled
  · exact (attempts_numeral (Number.isNumeral_render hspelled hfloat) n).imp fun h => ⟨hspelled, h⟩
  · cases k with
    | int i => exact absurd trivial hspelled
    | float x => exact attempts_not_finite (by simpa [Expr.Spelled] using hspelled) n

/-! ### Arrays, objects and calls -/

theorem reads_opening (hopen : c.Took [x] c₁) (h : Starts startsValue c₁.rest) :
    (lexeme (mark x)).Reads c () c₁ :=
  reads_markGap hopen (Cursor.Took.refl c₁) .nil (stops_of_starts h)

section Composite

variable {es : List Expr} {fields : List (String × Expr)} {G : Expr → Prop}
  {F : String × Expr → Prop}

theorem attempts_array
    (hread : List.Forall₂ (fun text e => Attempts source (value n) (G e) text)
      (es.map Expr.chars) es) :
    Attempts source (value (n + 1)) (∀ e ∈ es, G e) (Expr.array es).chars := by
  cases es with
  | nil => exact (readsText_array (Expr.listed_listChars []) .nil).attempts (by simp)
  | cons e es =>
      rw [Expr.chars_array, Expr.listChars_cons]
      refine ⟨⟨'[', _, rfl, by decide⟩, fun c c' hc htook _ => ?_⟩
      obtain ⟨c₁, hopen, hlistTook⟩ := htook.uncons
      have hstarts : Starts startsValue c₁.rest := by
        rw [hlistTook.rest_eq]
        cases hread with
        | cons htext _ => exact ((htext.starts.append _).append _).append _
      have harray : (array (value n)).Ensures c fun _ c₂ => (∀ e' ∈ e :: es, G e') ∧ c₂ = c' :=
        Ensures.node ((reads_opening hopen hstarts).ensures_bind (ensures_listUpTo hread
          (fun _ => fails_value n) (by decide) (by decide) (hc.of_le hopen.le) hlistTook))
      have hhead : c.rest.head? = some '[' := head?_of_took htook
      have hbool : bool.Fails c := fails_bool_of_head (any_head_of_took htook false (by decide))
      have hsum : (sum n).Fails c := fails_sum n (any_head_of_took htook false (by decide))
      have hobject : (object (value n)).Fails c := fails_object (by rw [hhead]; decide)
      have hstring : string.Fails c := fails_string (by rw [hhead]; decide)
      exact (harray.mono fun _ _ hdone => Or.inl hdone).orElse
        (hbool.orElse (hsum.orElse (hobject.orElse hstring))).ensures

theorem attempts_object
    (hread : List.Forall₂ (fun text f => Attempts source (pair (value n)) (F f) text)
      (fields.map Expr.pairChars) fields) :
    Attempts source (value (n + 1)) (∀ f ∈ fields, F f) (Expr.object fields).chars := by
  cases fields with
  | nil => exact (readsText_object (Expr.braced_fieldChars []) .nil).attempts (by simp)
  | cons f fields =>
      rw [Expr.chars_object, Expr.fieldChars_cons]
      refine ⟨⟨'\x7b', _, rfl, by decide⟩, fun c c' hc htook _ => ?_⟩
      obtain ⟨c₁, hopen, hpairsTook⟩ := htook.uncons
      have hstarts : Starts startsValue c₁.rest := by
        rw [hpairsTook.rest_eq]
        cases hread with
        | cons htext _ => exact ((htext.starts.append _).append _).append _
      have hobject : (object (value n)).Ensures c fun _ c₂ =>
          (∀ f' ∈ f :: fields, F f') ∧ c₂ = c' := by
        rw [object_eq]
        exact Ensures.node ((reads_opening hopen hstarts).ensures_bind (ensures_pairs hread
          (fun _ => fails_pair_of_startsValue) (hc.of_le hopen.le) hpairsTook))
      have hhead : c.rest.head? = some '\x7b' := head?_of_took htook
      have harray : (array (value n)).Fails c := fails_array (by rw [hhead]; decide)
      have hbool : bool.Fails c := fails_bool_of_head (any_head_of_took htook false (by decide))
      have hsum : (sum n).Fails c := fails_sum n (any_head_of_took htook false (by decide))
      have hstring : string.Fails c := fails_string (by rw [hhead]; decide)
      refine harray.orElse_ensures (hbool.orElse_ensures (hsum.orElse_ensures ?_))
      exact (hobject.mono fun _ _ hdone => Or.inl hdone).orElse hstring.ensures

/-- A truth value is read, and what would be its arguments is left. -/
theorem attempts_boolCall (b : Bool) (rest : List Char) (n : Nat) :
    Attempts source (value n) done ((boolWord b).toList ++ '(' :: rest) := by
  have hstarts : Starts isLetter (boolWord b).toList := starts_of_isIdent (isIdent_boolWord b)
  have hvalue : Starts startsValue ((boolWord b).toList ++ '(' :: rest) :=
    (hstarts.append _).mono fun _ => startsValue_of_isLetter
  cases n with
  | zero => exact attempts_zero hvalue
  | succ n =>
      refine ⟨hvalue, fun c c' hc htook _ => ?_⟩
      obtain ⟨c₁, hwordTook, hrestTook⟩ := htook.split
      have harray : (array (value n)).Fails c :=
        fails_array (hstarts.head?_ne hwordTook (by decide))
      have hbool := reads_bool hwordTook (any_head_of_took hrestTook false (by decide))
      refine (harray.orElse_reads hbool.orElse).ensures (Or.inr ?_)
      rw [hrestTook.rest_eq]
      exact ⟨'(', _, rfl, by decide⟩

section Calls

variable {name : String}

theorem starts_call (hname : isIdent name.toList = true) (es : List Expr) :
    Starts isLetter (Expr.call name es).chars := by
  rw [Expr.chars_call]
  exact ((starts_of_isIdent hname).append _).append _

/-- The name of a call is no truth value, and not followed by a segment. -/
theorem fails_bool_and_index (hname : IsHead name.toList) {rest : List Char}
    (htook : c.Took name.toList c₁) (hrest : c₁.Took ('(' :: rest) c') :
    bool.Fails c ∧ index.Fails c := by
  have hstop : c₁.rest.head?.any isIdentChar = false := any_head_of_took hrest false (by decide)
  have hhead : c₁.rest.head? = some '(' := head?_of_took hrest
  have hdot : dotSegment.Fails c₁ := (fails_mark (by rw [hhead]; decide)).bind
  have hbracket : bracketSegment.Fails c₁ := (fails_mark (by rw [hhead]; decide)).bind
  have hsegments : (many1 (dotSegment <|> bracketSegment)).Fails c₁ := (hdot.orElse hbracket).bind
  exact ⟨fails_bool htook (isIdentChar_of_isIdent hname.1) hstop hname.2,
    ((reads_ident htook hname.1 hstop).bind_fails hsegments.bind).node⟩

/-- A call nests at least twice. -/
theorem attempts_call_one (hname : IsHead name.toList) :
    Attempts source (value 1) done (Expr.call name es).chars := by
  have hstarts := starts_call hname.1 es
  refine ⟨hstarts.mono fun _ => startsValue_of_isLetter, fun c c' _ htook _ => ?_⟩
  have htook' := htook
  rw [Expr.chars_call, List.append_assoc] at htook'
  obtain ⟨c₁, hnameTook, hrestTook⟩ := htook'.split
  obtain ⟨hbool, -⟩ := fails_bool_and_index hname hnameTook hrestTook
  have hsum : (sum 0).Fails c := fails_refuse _ c
  exact (fails_value_of_sum (hstarts.mono fun _ => startsOperand_of_isLetter) htook hbool
    hsum).ensures

theorem attempts_call (hname : IsHead name.toList)
    (hread : List.Forall₂ (fun text e => Attempts source (value n) (G e) text)
      (es.map Expr.chars) es) :
    Attempts source (value (n + 2)) (∀ e ∈ es, G e) (Expr.call name es).chars := by
  cases es with
  | nil => exact (readsText_call hname (Expr.listed_listChars []) .nil).attempts (by simp)
  | cons e es =>
      refine ⟨(starts_call hname.1 _).mono fun _ => startsValue_of_isLetter, ?_⟩
      rw [Expr.chars_call, Expr.listChars_cons]
      intro c c' hc htook hclosed
      rw [List.append_assoc] at htook
      obtain ⟨c₁, hnameTook, htook⟩ := htook.split
      obtain ⟨c₂, hopen, hlistTook⟩ := htook.uncons
      have hc₂ : c₂.In source := hc.of_le (le_trans hnameTook.le hopen.le)
      have hstarts₂ : Starts startsValue c₂.rest := by
        rw [hlistTook.rest_eq]
        cases hread with
        | cons htext _ => exact ((htext.starts.append _).append _).append _
      have hident := reads_ident hnameTook hname.1 (any_head_of_took hopen false (by decide))
      have hargs : (listUpTo ')' (value n)).Ensures c₂ fun _ c₃ =>
          (∀ e' ∈ e :: es, G e') ∧ c₃ = c' :=
        ensures_listUpTo hread (fun _ => fails_value n) (by decide) (by decide) hc₂ hlistTook
      have hcall : (call (value n)).Ensures c fun _ c₃ => (∀ e' ∈ e :: es, G e') ∧ c₃ = c' :=
        Ensures.node (hident.ensures_bind ((reads_opening hopen hstarts₂).ensures_bind
          (hargs.bind fun _ _ hdone => ensures_pure hdone)))
      have hstarts := starts_of_isIdent hname.1
      obtain ⟨hbool, hindex⟩ := fails_bool_and_index hname hnameTook htook
      obtain ⟨hnumber, hgroup⟩ := fails_number_and_group (p := sum n) hstarts hnameTook
      have hsum := ensures_sum (ends_of_closed hclosed)
        (hnumber.orElse_ensures (hgroup.orElse_ensures (hcall.orElse hindex.ensures)))
      have hobject : (object (value (n + 1))).Fails c :=
        fails_object (hstarts.head?_ne hnameTook (by decide))
      have hstring : string.Fails c := fails_string (hstarts.head?_ne hnameTook (by decide))
      refine (fails_array (hstarts.head?_ne hnameTook (by decide))).orElse_ensures
        (hbool.orElse_ensures ?_)
      exact (hsum.mono fun _ _ hdone => Or.inl hdone).orElse (hobject.orElse hstring).ensures

end Calls

end Composite

end Values

end Grammar

/-! ## Expressions -/

namespace Expr

open Grammar

theorem itemsNeed_le_iff {n : Nat} {es : List Expr} : itemsNeed es ≤ n ↔ ∀ e ∈ es, e.need ≤ n := by
  induction es with
  | nil => simp [itemsNeed]
  | cons e es ih => rw [itemsNeed, Nat.max_le, ih, List.forall_mem_cons]

theorem fieldsNeed_le_iff {n : Nat} {fields : List (String × Expr)} :
    fieldsNeed fields ≤ n ↔ ∀ f ∈ fields, f.2.need ≤ n := by
  induction fields with
  | nil => simp [fieldsNeed]
  | cons f fields ih => rw [fieldsNeed, Nat.max_le, ih, List.forall_mem_cons]

variable {source : List Char}

mutual

/-- The text of an expression is read to its end only if the expression is spellable and there are
enough levels of nesting. -/
theorem attempts_chars : (e : Expr) → e.Throughout Legible → e.Throughout Plain →
    e.Throughout FloatReadsBack → (n : Nat) →
    Attempts source (value n) (e.Spellable ∧ e.need ≤ n) e.chars
  | array items, hlegible, hplain, hfloats, n => by
    cases n with
    | zero => exact attempts_zero ⟨'[', _, rfl, by decide⟩
    | succ n =>
        refine (attempts_array (attempts_items items hlegible.2 hplain.2 hfloats.2 n)).imp ?_
        intro hall
        refine ⟨⟨trivial, throughoutItems_iff.mpr fun e he => (hall e he).1⟩, ?_⟩
        have hneed := itemsNeed_le_iff.mpr fun e he => (hall e he).2
        rw [need]
        omega
  | bool b, _, _, _, n => by
    rw [chars_bool]
    cases n with
    | zero =>
        exact attempts_zero
          ((starts_of_isIdent (isIdent_boolWord b)).mono fun _ => startsValue_of_isLetter)
    | succ n => exact (readsText_bool b).attempts ⟨trivial, Nat.le_add_left 1 n⟩
  | call name args, hlegible, hplain, hfloats, n => by
    by_cases hword : ∃ b, name.toList = (boolWord b).toList
    · obtain ⟨b, hword⟩ := hword
      rw [chars_call, hword, List.append_assoc, List.cons_append]
      exact attempts_boolCall b _ n
    · have hname : IsHead name.toList := ⟨hlegible.1, fun b hb => hword ⟨b, hb⟩⟩
      match n with
      | 0 => exact attempts_zero ((starts_call hname.1 args).mono fun _ => startsValue_of_isLetter)
      | 1 => exact attempts_call_one hname
      | n + 2 =>
          refine (attempts_call hname (attempts_items args hlegible.2 hplain.2 hfloats.2 n)).imp ?_
          intro hall
          refine ⟨⟨hname, throughoutItems_iff.mpr fun e he => (hall e he).1⟩, ?_⟩
          have hneed := itemsNeed_le_iff.mpr fun e he => (hall e he).2
          rw [need]
          omega
  | number k, _, _, hfloats, n => attempts_number hfloats n
  | object fields, hlegible, hplain, hfloats, n => by
    cases n with
    | zero => exact attempts_zero ⟨'\x7b', _, rfl, by decide⟩
    | succ n =>
        have hquotable := hlegible.1.2
        refine (attempts_object
          (attempts_fields fields hquotable hlegible.2 hplain.2 hfloats.2 n)).imp ?_
        intro hall
        refine ⟨⟨hquotable, throughoutFields_iff.mpr fun f hf => (hall f hf).1⟩, ?_⟩
        have hneed := fieldsNeed_le_iff.mpr fun f hf => (hall f hf).2
        rw [need]
        omega
  | string s, hlegible, hplain, _, n => by
    have hquotable : ∀ x ∈ s.toList, isQuotable x = true := by
      intro x hx
      have hquote : x ≠ '\x27' := fun heq => hplain (heq ▸ hx)
      have hbreak : x ≠ '\n' := fun heq => hlegible (heq ▸ hx)
      simp [isQuotable, hquote, hbreak]
    cases n with
    | zero => exact attempts_zero ⟨'\x27', _, rfl, by decide⟩
    | succ n => exact (readsText_string hquotable).attempts ⟨hquotable, Nat.le_add_left 1 n⟩
  | unknown, hlegible, _, _, _ => hlegible.elim

theorem attempts_items : (es : List Expr) → ThroughoutItems Legible es → ThroughoutItems Plain es →
    ThroughoutItems FloatReadsBack es → (n : Nat) →
    List.Forall₂ (fun text e => Attempts source (value n) (Spellable e ∧ e.need ≤ n) text)
      (es.map chars) es
  | [], _, _, _, _ => .nil
  | e :: es, hlegible, hplain, hfloats, n =>
    .cons (attempts_chars e hlegible.1 hplain.1 hfloats.1 n)
      (attempts_items es hlegible.2 hplain.2 hfloats.2 n)

theorem attempts_fields : (fields : List (String × Expr)) →
    (∀ f ∈ fields, ∀ x ∈ f.1.toList, isQuotable x = true) → ThroughoutFields Legible fields →
    ThroughoutFields Plain fields → ThroughoutFields FloatReadsBack fields → (n : Nat) →
    List.Forall₂ (fun text f =>
      Attempts source (pair (value n)) (Spellable f.2 ∧ f.2.need ≤ n) text)
      (fields.map pairChars) fields
  | [], _, _, _, _, _ => .nil
  | (key, e) :: fields, hquotable, hlegible, hplain, hfloats, n =>
    .cons (attempts_pair (hquotable (key, e) List.mem_cons_self)
        (attempts_chars e hlegible.1 hplain.1 hfloats.1 n))
      (attempts_fields fields (fun f hf => hquotable f (List.mem_cons_of_mem _ hf)) hlegible.2
        hplain.2 hfloats.2 n)

end

/-- Only spellable expressions of little nesting are read as a whole from their texts. -/
theorem ensures_loneValue {e : Expr} (hlegible : e.Throughout Legible) (hplain : e.Throughout Plain)
    (hfloats : e.Throughout FloatReadsBack) :
    loneValue.Ensures ⟨e.chars, 0⟩ fun _ _ => e.Spellable ∧ e.need ≤ maxNesting := by
  have hattempts : Attempts e.chars (value maxNesting) _ e.chars :=
    attempts_chars e hlegible hplain hfloats maxNesting
  have htook := Cursor.took_atEnd e.chars
  have hlayout : layout.Reads ⟨e.chars, 0⟩ () ⟨e.chars, 0⟩ :=
    reads_layout (Cursor.Took.refl _) .nil (hattempts.starts.stops htook)
  refine hlayout.ensures_bind ((hattempts.lexeme (Cursor.in_start _) htook rfl).bind ?_)
  rintro m c (⟨hdone, -⟩ | hstarts)
  · exact (ensures_endOfInput c).bind fun _ _ _ => ensures_pure hdone
  · exact (fails_endOfInput hstarts.ne_nil).bind.ensures

/-- The phrase that spells an expression is read from the text of the expression. -/
theorem reads_loneValue {e : Expr} {v : Phrase} (h : Spelling e v) (hneed : e.need ≤ maxNesting) :
    ∃ m c, loneValue.Reads ⟨e.chars, 0⟩ m c ∧ Means e.chars v.expr m := by
  have hreads : ReadsText e.chars (value maxNesting) (Means e.chars v.expr) e.chars :=
    reads_phrase v h.legal (h.need_eq ▸ hneed) h.written
  exact hreads.loneValue .nil .nil (by simp)

theorem ofSource_of_reads {m : Match} {c : Cursor} {e : Expr}
    (h : loneValue.Reads ⟨source, 0⟩ m c) (hmeans : Means source e m) :
    ofSource source = .ok e := by
  have hprune : m.prune = m := h.of_ensures (prune_loneValue _)
  have hparse : parseValue source = .ok m := by
    rw [parseValue, h.runRuleOrReject, hprune]
  rw [ofSource, hparse]
  show (m.expr source).mapError _ = _
  rw [hmeans]
  rfl

/-- What holds of every value that is read holds of the value of an accepted source. -/
theorem exists_of_ofSource {e : Expr} {Q : Match → Cursor → Prop}
    (hQ : loneValue.Ensures ⟨source, 0⟩ Q) (h : ofSource source = .ok e) :
    ∃ m c, Q m c ∧ Means source e m := by
  rw [ofSource] at h
  cases hparse : parseValue source with
  | error r =>
      rw [hparse] at h
      cases h
  | ok tree =>
      rw [hparse] at h
      obtain ⟨m, c, ⟨hQ, hprune⟩, htree⟩ :=
        runRuleOrReject_ok (hQ.and (prune_loneValue _)) hparse
      obtain rfl : m = tree := hprune.symm.trans htree
      refine ⟨m, c, hQ, ?_⟩
      have hmapped : (m.expr source).mapError _ = .ok e := h
      cases hexpr : m.expr source with
      | error r =>
          rw [hexpr] at hmapped
          cases hmapped
      | ok e' =>
          rw [hexpr] at hmapped
          cases hmapped
          exact hexpr

/-- An expression whose objects have different keys is read back from its text exactly if it is
spellable and its text nests at most 64 levels deep, given that the literals of its floats read
back. -/
theorem ofSource_render_iff (e : Expr) (hkeys : e.Throughout Keyed)
    (hfloats : e.Throughout FloatReadsBack) :
    (∃ e', ofSource e.render.toList = .ok e' ∧ (e' == e) = true) ↔ e.Spellable ∧ e.need ≤ 64 := by
  rw [render, String.toList_ofList]
  constructor
  · rintro ⟨e', hread, hagree⟩
    obtain ⟨m, c, hlowers, hmeans⟩ := exists_of_ofSource (lowers_loneValue e.chars _) hread
    obtain ⟨e₁, hexpr, hlegible', hclosers⟩ := hlowers.expr (Cursor.in_start _)
    obtain rfl : e' = e₁ := Except.ok.inj (hmeans.symm.trans hexpr)
    obtain ⟨hlegible, heq⟩ := legible_of_beq e' e hagree hlegible'
    -- The text has all closing brackets of what was read, so no string holds a quote.
    have hbrackets : e.closers ≤ e.chars.count ']' := by
      rw [heq]
      exact Nat.le_trans (Nat.le_add_right _ _) hclosers
    have hplain := (plain_of_closers_le e hlegible hfloats).2 hbrackets
    obtain ⟨_, _, hdone, -⟩ := exists_of_ofSource (ensures_loneValue hlegible hplain hfloats) hread
    exact hdone
  · rintro ⟨hspellable, hneed⟩
    obtain ⟨v, hv⟩ :=
      exists_spelling e (Throughout.and e hspellable (Throughout.and e hkeys hfloats))
    obtain ⟨m, c, hm, hmeans⟩ := reads_loneValue hv hneed
    exact ⟨v.expr, ofSource_of_reads hm hmeans, hv.expr_beq⟩

/-- An object with a reserved word as its key, a float, a call and an empty array. -/
def nested : Expr :=
  .object [("block", .array [.number (.float 2.5), .call "f" [.bool true, .string "a b"]]),
    ("b", .array [.number (.int (-3)), .array []])]

theorem floatReadsBack_nested : nested.Throughout FloatReadsBack := by
  have htext : (Float64.literalText 2.5).toList = ['2'] ++ '.' :: ['5'] := by decide +kernel
  have hnumeral : IsNumeral (Float64.literalText 2.5).toList := by
    rw [htext]
    exact .plain (.decimal rfl rfl)
  have hread : ∃ y, Float64.read (Float64.literalText 2.5).toList = some y ∧ (y == 2.5) = true := by
    rw [htext]
    exact ⟨2.5, rfl, by decide +kernel⟩
  have hback : Float64.ReadsBack 2.5 := ⟨hnumeral, by rw [htext]; decide, hread⟩
  simp [nested, Throughout, ThroughoutItems, ThroughoutFields, FloatReadsBack, hback]

/-- The nested expression is read back. -/
theorem ofSource_render_nested : nested.Throughout Keyed ∧ nested.Throughout FloatReadsBack
    ∧ ∃ e, ofSource nested.render.toList = .ok e ∧ (e == nested) = true := by
  have hkeys : nested.Throughout Keyed := by
    simp [nested, Throughout, ThroughoutItems, ThroughoutFields, Keyed]
  have hfinite : (2.5 : Float).isFinite = true := by decide +kernel
  have hname : IsHead ['f'] := ⟨by decide, by decide⟩
  have hspellable : nested.Spellable := by
    simp [nested, Spellable, Throughout, ThroughoutItems, ThroughoutFields, Spelled, isQuotable,
      hfinite, hname]
  exact ⟨hkeys, floatReadsBack_nested,
    (ofSource_render_iff nested hkeys floatReadsBack_nested).mpr ⟨hspellable, by decide⟩⟩

end Expr

end Playbooks
