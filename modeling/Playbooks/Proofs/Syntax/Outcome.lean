import Mathlib.Order.Defs.PartialOrder
import Playbooks.Proofs.Data
import Playbooks.Syntax.Parser

/-!
# Outcomes of parsers

What a parser does at a cursor, whatever failures were reported before. The three judgements have
one rule for each combinator, so a grammar rule is analysed along its own text.

## Main definitions

* `Cursor.Took`: the text between two cursors; cursors are ordered by what can be read.
* `Cursor.In`: a cursor into a source.
* `Parser.Reads`, `Parser.Fails`: the outcome is known.
* `Parser.Ensures`: what holds of the outcome if the parser succeeds.
* `Parser.Quiet`: a parser that has nothing to do with reports.
-/
namespace Playbooks

namespace Text

theorem byteSize_pos {cs : List Char} (h : cs ≠ []) : 0 < byteSize cs := by
  cases cs with
  | nil => exact absurd rfl h
  | cons c cs =>
      have := c.utf8Size_pos
      rw [byteSize_cons]
      omega

@[simp] theorem dropBytes_zero (cs : List Char) : dropBytes 0 cs = some cs := by
  cases cs <;> rfl

@[simp] theorem takeBytes_zero (cs : List Char) : takeBytes 0 cs = some [] := by
  cases cs <;> rfl

theorem dropBytes_add (c : Char) (cs : List Char) (n : Nat) :
    dropBytes (c.utf8Size + n) (c :: cs) = dropBytes n cs := by
  obtain ⟨k, hk⟩ := Nat.exists_eq_succ_of_ne_zero (Nat.ne_of_gt c.utf8Size_pos)
  rw [show c.utf8Size + n = (k + n) + 1 by omega, dropBytes, if_pos (by omega)]
  congr 1
  omega

theorem takeBytes_add (c : Char) (cs : List Char) (n : Nat) :
    takeBytes (c.utf8Size + n) (c :: cs) = (takeBytes n cs).map (c :: ·) := by
  obtain ⟨k, hk⟩ := Nat.exists_eq_succ_of_ne_zero (Nat.ne_of_gt c.utf8Size_pos)
  rw [show c.utf8Size + n = (k + n) + 1 by omega, takeBytes, if_pos (by omega)]
  congr 2
  omega

theorem dropBytes_append (before rest : List Char) :
    dropBytes (byteSize before) (before ++ rest) = some rest := by
  induction before with
  | nil => simp
  | cons c cs ih => rw [byteSize_cons, List.cons_append, dropBytes_add, ih]

theorem takeBytes_append (taken rest : List Char) :
    takeBytes (byteSize taken) (taken ++ rest) = some taken := by
  induction taken with
  | nil => simp
  | cons c cs ih =>
      rw [byteSize_cons, List.cons_append, takeBytes_add, ih]
      rfl

/-- The slice between the ends of a part of a text is this part. -/
theorem slice?_append (before taken rest : List Char) :
    slice? (before ++ (taken ++ rest)) (byteSize before) (byteSize before + byteSize taken)
      = some taken := by
  rw [slice?, dropBytes_append, Nat.add_sub_cancel_left]
  exact takeBytes_append taken rest

end Text

namespace Cursor

/-- The text `taken` lies between the two cursors. -/
structure Took (c : Cursor) (taken : List Char) (c' : Cursor) : Prop where
  rest_eq : c.rest = taken ++ c'.rest
  offset_eq : c'.offset = c.offset + Text.byteSize taken

variable {c c' c'' : Cursor} {taken more rest source : List Char}

theorem Took.refl (c : Cursor) : c.Took [] c :=
  ⟨rfl, rfl⟩

theorem Took.trans (h : c.Took taken c') (h' : c'.Took more c'') : c.Took (taken ++ more) c'' where
  rest_eq := by rw [h.rest_eq, h'.rest_eq, List.append_assoc]
  offset_eq := by rw [h'.offset_eq, h.offset_eq, Text.byteSize_append, Nat.add_assoc]

theorem took_advance (h : c.rest = taken ++ rest) : c.Took taken (c.advance taken rest) :=
  ⟨h, rfl⟩

theorem Took.advance_eq (h : c.Took taken c') : c.advance taken c'.rest = c' := by
  rw [advance, ← h.offset_eq]

theorem Took.eq_of_nil (h : c.Took [] c') : c' = c := by
  obtain ⟨hrest, hoffset⟩ := h
  cases c
  cases c'
  simp_all

/-- There is a cursor between two parts of a text. -/
theorem Took.split (h : c.Took (taken ++ more) c'') :
    ∃ c', c.Took taken c' ∧ c'.Took more c'' := by
  refine ⟨c.advance taken (more ++ c''.rest), took_advance ?_, rfl, ?_⟩
  · rw [h.rest_eq, List.append_assoc]
  · rw [h.offset_eq, Text.byteSize_append, ← Nat.add_assoc]
    rfl

theorem Took.uncons {x : Char} (h : c.Took (x :: more) c'') :
    ∃ c', c.Took [x] c' ∧ c'.Took more c'' := by
  rw [← List.singleton_append] at h
  exact h.split

theorem Took.offset_lt (h : c.Took taken c') (htaken : taken ≠ []) : c.offset < c'.offset := by
  have := Text.byteSize_pos htaken
  have := h.offset_eq
  omega

theorem Took.offset_le (h : c.Took taken c') : c.offset ≤ c'.offset := by
  have := h.offset_eq
  omega

theorem Took.length_lt (h : c.Took taken c') (htaken : taken ≠ []) :
    c'.rest.length < c.rest.length := by
  have := List.length_pos_iff.mpr htaken
  rw [h.rest_eq, List.length_append]
  omega

/-- A cursor comes before those that are reached from it by reading. -/
instance : Preorder Cursor where
  le c c' := ∃ taken, c.Took taken c'
  le_refl c := ⟨[], Took.refl c⟩
  le_trans := by
    rintro c c' c'' ⟨taken, h⟩ ⟨more, h'⟩
    exact ⟨taken ++ more, h.trans h'⟩

theorem Took.le (h : c.Took taken c') : c ≤ c' :=
  ⟨taken, h⟩

theorem Took.lt (h : c.Took taken c') (htaken : taken ≠ []) : c < c' := by
  refine lt_of_le_not_ge h.le ?_
  rintro ⟨more, h'⟩
  have := h.offset_lt htaken
  have := h'.offset_le
  omega

theorem offset_le_of_le (h : c ≤ c') : c.offset ≤ c'.offset := by
  obtain ⟨taken, h⟩ := h
  exact h.offset_le

theorem offset_lt_of_lt (h : c < c') : c.offset < c'.offset := by
  obtain ⟨taken, htook⟩ := le_of_lt h
  refine htook.offset_lt ?_
  rintro rfl
  exact lt_irrefl c (htook.eq_of_nil ▸ h)

theorem length_lt_of_lt (h : c < c') : c'.rest.length < c.rest.length := by
  obtain ⟨taken, htook⟩ := le_of_lt h
  refine htook.length_lt ?_
  rintro rfl
  exact lt_irrefl c (htook.eq_of_nil ▸ h)

/-- The cursor is a place of the source. -/
def In (c : Cursor) (source : List Char) : Prop :=
  ⟨source, 0⟩ ≤ c

theorem in_start (source : List Char) : In ⟨source, 0⟩ source :=
  le_refl _

/-- The end of a source. -/
def atEnd (source : List Char) : Cursor :=
  advance ⟨source, 0⟩ source []

theorem took_atEnd (source : List Char) : Took ⟨source, 0⟩ source (atEnd source) :=
  took_advance (List.append_nil source).symm

theorem In.of_le (hc : c.In source) (h : c ≤ c') : c'.In source :=
  le_trans hc h

theorem In.offset_eq (hc : c.In source) (hrest : c.rest = []) :
    c.offset = Text.byteSize source := by
  obtain ⟨before, hsource, hoffset⟩ := hc
  simp only [hrest, List.append_nil, Nat.zero_add] at hsource hoffset
  rw [hoffset, hsource]

/-- The span between two cursors of a source has the text between them. -/
theorem In.text_ofBounds (hc : c.In source) (h : c.Took taken c') :
    (Span.ofBounds c.offset c'.offset).text source = taken := by
  obtain ⟨before, hsource, hoffset⟩ := hc
  simp only [Nat.zero_add] at hsource hoffset
  have hle := h.offset_le
  rw [Span.text, Span.start_ofBounds, Span.stop_ofBounds, Nat.max_eq_right hle, h.offset_eq,
    hoffset, hsource, h.rest_eq, Text.slice?_append]
  rfl

end Cursor

/-- Reports go forwards. -/
theorem Tracker.furthest_fail (t : Tracker) (offset : Nat) (what : Expected) :
    (t.fail offset what).furthest = max t.furthest offset := by
  rw [Tracker.fail]
  split
  · exact (Nat.max_eq_right (Nat.le_of_lt ‹_›)).symm
  · split
    · exact (Nat.max_eq_left (Nat.le_of_not_lt ‹_›)).symm
    · exact (Nat.max_eq_left (Nat.le_of_not_lt ‹_›)).symm

namespace Parser

variable {α β : Type} {p q : Parser α} {f : α → Parser β} {c c' c'' : Cursor} {a : α} {b : β}

/-- The parser reads `a` from `c` and stops at `c'`. -/
def Reads (p : Parser α) (c : Cursor) (a : α) (c' : Cursor) : Prop :=
  ∀ t, (p c t).1 = some (a, c')

/-- The parser reads nothing from `c`. -/
def Fails (p : Parser α) (c : Cursor) : Prop :=
  ∀ t, (p c t).1 = none

/-- Whatever the parser reads from `c`, and wherever it stops, the postcondition holds. -/
def Ensures (p : Parser α) (c : Cursor) (Q : α → Cursor → Prop) : Prop :=
  ∀ t a c', (p c t).1 = some (a, c') → Q a c'

theorem Reads.apply_eq (h : p.Reads c a c') (t : Tracker) :
    p c t = (some (a, c'), (p c t).2) :=
  Prod.ext (h t) rfl

theorem Fails.apply_eq (h : p.Fails c) (t : Tracker) : p c t = (none, (p c t).2) :=
  Prod.ext (h t) rfl

/-! ## Consequence -/

theorem Reads.ensures {Q : α → Cursor → Prop} (h : p.Reads c a c') (hQ : Q a c') :
    p.Ensures c Q := by
  intro t a₁ c₁ h₁
  rw [h t] at h₁
  cases h₁
  exact hQ

theorem Fails.ensures {Q : α → Cursor → Prop} (h : p.Fails c) : p.Ensures c Q := by
  intro t a₁ c₁ h₁
  rw [h t] at h₁
  cases h₁

theorem Reads.of_ensures {Q : α → Cursor → Prop} (h : p.Reads c a c') (hQ : p.Ensures c Q) :
    Q a c' :=
  hQ {} a c' (h {})

theorem Ensures.mono {P Q : α → Cursor → Prop} (h : p.Ensures c P)
    (hPQ : ∀ a c', P a c' → Q a c') : p.Ensures c Q :=
  fun t a c' h' => hPQ a c' (h t a c' h')

theorem Ensures.and {P Q : α → Cursor → Prop} (hP : p.Ensures c P) (hQ : p.Ensures c Q) :
    p.Ensures c fun a c' => P a c' ∧ Q a c' :=
  fun t a c' h' => ⟨hP t a c' h', hQ t a c' h'⟩

/-! ## Sequences -/

theorem reads_pure (a : α) (c : Cursor) : (pure a : Parser α).Reads c a c :=
  fun _ => rfl

theorem ensures_pure {Q : α → Cursor → Prop} (h : Q a c) : (pure a : Parser α).Ensures c Q :=
  (reads_pure a c).ensures h

theorem bind_apply (p : Parser α) (f : α → Parser β) (c : Cursor) (t : Tracker) :
    (p >>= f) c t = match p c t with
      | (some (a, c'), t') => f a c' t'
      | (none, t') => (none, t') :=
  rfl

theorem bind_assoc {γ : Type} (p : Parser α) (f : α → Parser β) (g : β → Parser γ) :
    p >>= f >>= g = p >>= fun a => f a >>= g := by
  funext c t
  simp only [bind_apply]
  rcases p c t with ⟨_ | ⟨a, c'⟩, t'⟩ <;> rfl

theorem Reads.bind (hp : p.Reads c a c') (hf : (f a).Reads c' b c'') :
    (p >>= f).Reads c b c'' := by
  intro t
  rw [bind_apply, hp.apply_eq t]
  exact hf _

theorem Reads.bind_fails (hp : p.Reads c a c') (hf : (f a).Fails c') : (p >>= f).Fails c := by
  intro t
  rw [bind_apply, hp.apply_eq t]
  exact hf _

theorem Fails.bind (hp : p.Fails c) : (p >>= f).Fails c := by
  intro t
  rw [bind_apply, hp.apply_eq t]

theorem Ensures.bind {P : α → Cursor → Prop} {Q : β → Cursor → Prop} (hp : p.Ensures c P)
    (hf : ∀ a c', P a c' → (f a).Ensures c' Q) : (p >>= f).Ensures c Q := by
  intro t b c'' h
  rw [bind_apply] at h
  rcases hpt : p c t with ⟨_ | ⟨a, c'⟩, t'⟩
  · rw [hpt] at h
    cases h
  · rw [hpt] at h
    exact hf a c' (hp t a c' (by rw [hpt])) t' b c'' h

theorem Reads.ensures_bind {Q : β → Cursor → Prop} (hp : p.Reads c a c')
    (hf : (f a).Ensures c' Q) : (p >>= f).Ensures c Q := by
  intro t b c'' h
  rw [bind_apply, hp.apply_eq t] at h
  exact hf _ b c'' h

/-! ## Choices -/

theorem orElse_apply (p q : Parser α) (c : Cursor) (t : Tracker) :
    (p <|> q) c t = match p c t with
      | (none, t') => q c t'
      | found => found :=
  rfl

theorem Reads.orElse (hp : p.Reads c a c') : (p <|> q).Reads c a c' := by
  intro t
  rw [orElse_apply, hp.apply_eq t]

theorem Fails.orElse_reads (hp : p.Fails c) (hq : q.Reads c a c') : (p <|> q).Reads c a c' := by
  intro t
  rw [orElse_apply, hp.apply_eq t]
  exact hq _

theorem Fails.orElse (hp : p.Fails c) (hq : q.Fails c) : (p <|> q).Fails c := by
  intro t
  rw [orElse_apply, hp.apply_eq t]
  exact hq _

theorem Ensures.orElse {Q : α → Cursor → Prop} (hp : p.Ensures c Q) (hq : q.Ensures c Q) :
    (p <|> q).Ensures c Q := by
  intro t a c' h
  rw [orElse_apply] at h
  rcases hpt : p c t with ⟨_ | ⟨a₁, c₁⟩, t'⟩
  · rw [hpt] at h
    exact hq t' a c' h
  · rw [hpt] at h
    cases h
    exact hp t a c' (by rw [hpt])

/-- An alternative after one that fails. -/
theorem Fails.orElse_ensures {Q : α → Cursor → Prop} (hp : p.Fails c) (hq : q.Ensures c Q) :
    (p <|> q).Ensures c Q :=
  hp.ensures.orElse hq

/-! ## Reports and refusals -/

theorem fails_fail (c : Cursor) : (fail : Parser α).Fails c :=
  fun _ => rfl

theorem fails_refuse (what : Expected) (c : Cursor) : (refuse what : Parser α).Fails c :=
  fun _ => rfl

/-- Reports do not change outcomes. -/
theorem expect_fst (what : Expected) (p : Parser α) (c : Cursor) (t : Tracker) :
    (expect what p c t).1 = (p c t).1 := by
  rw [expect]
  rcases p c t with ⟨_ | _, t'⟩ <;> rfl

theorem Reads.expect (h : p.Reads c a c') (what : Expected) : (expect what p).Reads c a c' :=
  fun t => (expect_fst what p c t).trans (h t)

theorem Fails.expect (h : p.Fails c) (what : Expected) : (Parser.expect what p).Fails c :=
  fun t => (expect_fst what p c t).trans (h t)

theorem Ensures.expect {Q : α → Cursor → Prop} (h : p.Ensures c Q) (what : Expected) :
    (Parser.expect what p).Ensures c Q :=
  fun t a c' h' => h t a c' ((expect_fst what p c t).symm.trans h')

theorem reads_offset (c : Cursor) : offset.Reads c c.offset c :=
  fun _ => rfl

/-! ## Characters -/

section Characters

variable {P : Char → Bool} {x : Char} {taken word rest : List Char}

theorem reads_satisfy (h : c.Took [x] c') (hx : P x = true) : (satisfy P).Reads c x c' := by
  intro t
  rw [satisfy, h.rest_eq]
  simp [hx, h.advance_eq]

theorem fails_satisfy (h : c.rest.head?.any P = false) : (satisfy P).Fails c := by
  intro t
  rw [satisfy]
  cases hrest : c.rest with
  | nil => rfl
  | cons y rest =>
      rw [hrest] at h
      have hy : P y = false := h
      simp [hy]

theorem ensures_satisfy (P : Char → Bool) (c : Cursor) :
    (satisfy P).Ensures c fun x c' => P x = true ∧ c.Took [x] c' := by
  cases hrest : c.rest with
  | nil => exact (fails_satisfy (by rw [hrest]; rfl)).ensures
  | cons y rest =>
      cases hy : P y with
      | false => exact (fails_satisfy (by rw [hrest]; exact hy)).ensures
      | true =>
          have htook : c.Took [y] (c.advance [y] rest) := Cursor.took_advance hrest
          exact (reads_satisfy htook hy).ensures ⟨hy, htook⟩

theorem reads_notAhead (h : c.rest.head?.any P = false) : (notAhead P).Reads c () c := by
  intro t
  simp [notAhead, h]

theorem fails_notAhead (h : c.rest.head?.any P = true) : (notAhead P).Fails c := by
  intro t
  simp [notAhead, h]

theorem ensures_notAhead (P : Char → Bool) (c : Cursor) :
    (notAhead P).Ensures c fun _ c' => c' = c ∧ c.rest.head?.any P = false := by
  cases h : c.rest.head?.any P with
  | false => exact (reads_notAhead h).ensures ⟨rfl, rfl⟩
  | true => exact (fails_notAhead h).ensures

theorem reads_run (h : c.Took taken c') (htaken : ∀ x ∈ taken, P x = true)
    (hstop : c'.rest.head?.any P = false) : (run P).Reads c taken c' := by
  intro t
  have hsplit := takeWhile_append_of_stop htaken hstop
  rw [run, h.rest_eq, hsplit.1, hsplit.2, h.advance_eq]

theorem ensures_run (P : Char → Bool) (c : Cursor) :
    (run P).Ensures c fun taken c' => c.Took taken c' ∧ (∀ x ∈ taken, P x = true)
      ∧ c'.rest.head?.any P = false := by
  intro t taken c' h
  cases h
  refine ⟨⟨List.takeWhile_append_dropWhile.symm, rfl⟩, ?_, ?_⟩
  · intro x hx
    exact List.all_eq_true.mp List.all_takeWhile x hx
  · have hstop := List.head?_dropWhile_not P c.rest
    show (c.rest.dropWhile P).head?.any P = false
    revert hstop
    cases (c.rest.dropWhile P).head? with
    | none => exact fun _ => rfl
    | some y => exact fun hy => by simpa using hy

theorem reads_run1 (h : c.Took taken c') (hne : taken ≠ []) (htaken : ∀ x ∈ taken, P x = true)
    (hstop : c'.rest.head?.any P = false) : (run1 P).Reads c taken c' := by
  refine (reads_run h htaken hstop).bind ?_
  rw [if_neg (by simpa using hne)]
  exact reads_pure _ _

theorem fails_run1 (h : c.rest.head?.any P = false) : (run1 P).Fails c :=
  (reads_run (Cursor.Took.refl c) (by simp) h).bind_fails (fails_fail _)

theorem ensures_run1 (P : Char → Bool) (c : Cursor) :
    (run1 P).Ensures c fun taken c' => c.Took taken c' ∧ taken ≠ [] ∧ (∀ x ∈ taken, P x = true)
      ∧ c'.rest.head?.any P = false := by
  refine (ensures_run P c).bind ?_
  rintro taken c' ⟨htook, hall, hstop⟩
  by_cases hempty : taken.isEmpty
  · rw [if_pos hempty]
    exact (fails_fail _).ensures
  · rw [if_neg hempty]
    exact ensures_pure ⟨htook, by simpa using hempty, hall, hstop⟩

theorem reads_text (h : c.Took word c') : (text word).Reads c () c' := by
  intro t
  have hprefix : word.isPrefixOf c.rest = true := by
    rw [h.rest_eq, List.isPrefixOf_iff_prefix]
    exact List.prefix_append _ _
  rw [text, if_pos hprefix, h.rest_eq, List.drop_left, h.advance_eq]

theorem fails_text (h : ¬ word <+: c.rest) : (text word).Fails c := by
  intro t
  rw [text, if_neg (by rwa [List.isPrefixOf_iff_prefix])]

theorem ensures_text (word : List Char) (c : Cursor) :
    (text word).Ensures c fun _ c' => c.Took word c' := by
  by_cases h : word <+: c.rest
  · obtain ⟨rest, hrest⟩ := h
    have htook := Cursor.took_advance hrest.symm
    exact (reads_text htook).ensures htook
  · exact (fails_text h).ensures

theorem reads_mark (h : c.Took [x] c') : (mark x).Reads c () c' :=
  ((reads_satisfy (P := (· == x)) h (beq_self_eq_true x)).bind (reads_pure () _)).expect _

theorem fails_mark (h : c.rest.head? ≠ some x) : (mark x).Fails c := by
  refine (fails_satisfy ?_).bind.expect _
  cases hrest : c.rest.head? with
  | none => rfl
  | some y =>
      rw [hrest] at h
      simpa using h

theorem ensures_mark (x : Char) (c : Cursor) : (mark x).Ensures c fun _ c' => c.Took [x] c' := by
  refine ((ensures_satisfy _ c).bind ?_).expect _
  rintro y c' ⟨hy, htook⟩
  rw [beq_iff_eq] at hy
  exact ensures_pure (hy ▸ htook)

end Characters

/-! ## Parsers without reports -/

/-- The parser neither reports nor looks at what was reported. -/
def Quiet (p : Parser α) : Prop :=
  ∀ c t t', p c t' = ((p c t).1, t')

theorem Quiet.agree (hp : p.Quiet) (c : Cursor) (t t' : Tracker) : (p c t).1 = (p c t').1 :=
  (congrArg Prod.fst (hp c t t')).symm

theorem Quiet.snd_eq (hp : p.Quiet) (c : Cursor) (t : Tracker) : (p c t).2 = t :=
  congrArg Prod.snd (hp c t t)

theorem Quiet.bind (hp : p.Quiet) (hf : ∀ a, (f a).Quiet) : (p >>= f).Quiet := by
  intro c t t'
  rw [bind_apply, bind_apply, hp c t t', hp c t t]
  cases (p c t).1 with
  | none => rfl
  | some r => exact hf r.1 r.2 t t'

theorem quiet_pure (a : α) : (pure a : Parser α).Quiet :=
  fun _ _ _ => rfl

theorem quiet_fail : (fail : Parser α).Quiet :=
  fun _ _ _ => rfl

theorem quiet_offset : offset.Quiet :=
  fun _ _ _ => rfl

theorem quiet_satisfy (P : Char → Bool) : (satisfy P).Quiet := by
  intro c t t'
  rw [satisfy, satisfy]
  split
  · split <;> rfl
  · rfl

theorem quiet_notAhead (P : Char → Bool) : (notAhead P).Quiet := by
  intro c t t'
  rw [notAhead, notAhead]
  split <;> rfl

theorem quiet_run (P : Char → Bool) : (run P).Quiet :=
  fun _ _ _ => rfl

theorem quiet_run1 (P : Char → Bool) : (run1 P).Quiet := by
  refine (quiet_run P).bind fun taken => ?_
  split
  · exact quiet_fail
  · exact quiet_pure taken

theorem quiet_text (word : List Char) : (text word).Quiet := by
  intro c t t'
  rw [text, text]
  split <;> rfl

/-! ## Options and repetitions -/

theorem Reads.option (h : p.Reads c a c') : (option p).Reads c (some a) c' := by
  intro t
  rw [Parser.option, h.apply_eq t]

theorem Fails.option (h : p.Fails c) : (Parser.option p).Reads c none c := by
  intro t
  rw [Parser.option, h.apply_eq t]

theorem Ensures.option {Q : Option α → Cursor → Prop}
    (h : p.Ensures c fun a c' => Q (some a) c') (hnone : Q none c) :
    (Parser.option p).Ensures c Q := by
  intro t r c' hr
  rw [Parser.option] at hr
  rcases hpt : p c t with ⟨_ | ⟨a, c₁⟩, t'⟩
  · rw [hpt] at hr
    cases hr
    exact hnone
  · rw [hpt] at hr
    cases hr
    exact h t a c' (by rw [hpt])

/-- More fuel does not change a finished repetition. -/
theorem manyUpTo_mono (p : Parser α) {n m : Nat} {t : Tracker} {r : List α × Cursor}
    (h : (manyUpTo p n c t).1 = some r) (hnm : n ≤ m) : manyUpTo p m c t = manyUpTo p n c t := by
  induction n generalizing m c t r with
  | zero => cases h
  | succ n ih =>
      obtain ⟨m, rfl⟩ := Nat.exists_eq_succ_of_ne_zero (show m ≠ 0 by omega)
      simp only [manyUpTo] at h ⊢
      rcases hpt : p c t with ⟨_ | ⟨a, c'⟩, t'⟩
      · rfl
      · rw [hpt] at h
        simp only at h ⊢
        by_cases hguard : c'.offset ≤ c.offset
        · rw [if_pos hguard, if_pos hguard]
        · rw [if_neg hguard] at h ⊢
          rw [if_neg hguard]
          rcases hrest : manyUpTo p n c' t' with ⟨_ | ⟨as, c''⟩, t''⟩
          · rw [hrest] at h
            cases h
          · rw [ih (r := (as, c'')) (by rw [hrest]) (by omega), hrest]

theorem Fails.many (h : p.Fails c) : (many p).Reads c [] c := by
  intro t
  rw [Parser.many, manyUpTo, h.apply_eq t]

theorem Reads.many_cons {as : List α} {taken : List Char} (h : p.Reads c a c')
    (htook : c.Took taken c') (htaken : taken ≠ []) (hmany : (many p).Reads c' as c'') :
    (many p).Reads c (a :: as) c'' := by
  intro t
  have hguard : ¬ c'.offset ≤ c.offset := Nat.not_le.mpr (htook.offset_lt htaken)
  have hfuel : c'.rest.length + 1 ≤ c.rest.length := htook.length_lt htaken
  have hrest := hmany (p c t).2
  rw [Parser.many] at hrest
  rw [Parser.many, manyUpTo, h.apply_eq t]
  simp only [if_neg hguard, manyUpTo_mono p hrest hfuel]
  generalize manyUpTo p (c'.rest.length + 1) c' (p c t).2 = outcome at hrest
  obtain ⟨r, t'⟩ := outcome
  cases hrest
  rfl

/-- One repetition more: either it reads nothing and the loop ends here, or the loop goes on where
it stopped. -/
theorem ensures_manyUpTo_succ {n : Nat} {Q : List α → Cursor → Prop} (hnil : Q [] c)
    (hcons : p.Ensures c fun a c' => (manyUpTo p n).Ensures c' fun as c'' => Q (a :: as) c'') :
    (manyUpTo p (n + 1)).Ensures c Q := by
  intro t as c'' h
  rw [manyUpTo] at h
  rcases hpt : p c t with ⟨_ | ⟨a, c'⟩, t'⟩
  · rw [hpt] at h
    cases h
    exact hnil
  · rw [hpt] at h
    simp only at h
    by_cases hguard : c'.offset ≤ c.offset
    · rw [if_pos hguard] at h
      cases h
    · rw [if_neg hguard] at h
      rcases hrest : manyUpTo p n c' t' with ⟨_ | ⟨as₁, c₁⟩, t''⟩
      · rw [hrest] at h
        cases h
      · rw [hrest] at h
        cases h
        exact hcons t a c' (by rw [hpt]) t' as₁ c'' (by rw [hrest])

theorem fails_manyUpTo_zero (p : Parser α) (c : Cursor) : (manyUpTo p 0).Fails c :=
  fun _ => rfl

theorem Fails.ensures_manyUpTo {Q : List α → Cursor → Prop} (h : p.Fails c) (hnil : Q [] c)
    (n : Nat) : (manyUpTo p n).Ensures c Q := by
  cases n with
  | zero => exact (fails_manyUpTo_zero p c).ensures
  | succ n => exact ensures_manyUpTo_succ hnil h.ensures

/-- What each repetition keeps, the whole loop keeps. -/
theorem ensures_many {R : Cursor → α → Cursor → Prop} {Q : Cursor → List α → Cursor → Prop}
    (hp : ∀ c, p.Ensures c (R c)) (hnil : ∀ c, Q c [] c)
    (hcons : ∀ c a c' as c'', R c a c' → Q c' as c'' → Q c (a :: as) c'') (c : Cursor) :
    (many p).Ensures c (Q c) := by
  suffices h : ∀ n c, (manyUpTo p n).Ensures c (Q c) from h _ c
  intro n
  induction n with
  | zero => exact fun c => (fails_manyUpTo_zero p c).ensures
  | succ n ih =>
      intro c
      refine ensures_manyUpTo_succ (hnil c) ((hp c).mono ?_)
      intro a c' hR
      exact (ih c').mono fun as c'' hQ => hcons c a c' as c'' hR hQ

/-! ## Matches -/

section Matches

variable {rule : Rule} {ms : List Match} {r : Parser (List Match)}

theorem Reads.leaf (h : p.Reads c a c') :
    (leaf rule p).Reads c (.leaf rule c.offset c'.offset) c' :=
  (reads_offset c).bind (h.bind ((reads_offset c').bind (reads_pure _ _)))

theorem Fails.leaf (h : p.Fails c) : (Parser.leaf rule p).Fails c :=
  (reads_offset c).bind_fails h.bind

theorem Ensures.leaf {Q : Match → Cursor → Prop}
    (h : p.Ensures c fun _ c' => Q (.leaf rule c.offset c'.offset) c') :
    (Parser.leaf rule p).Ensures c Q := by
  intro t m c' hm
  refine Ensures.bind (P := fun _ c' => Q (.leaf rule c.offset c'.offset) c') h ?_ t m c' hm
  exact fun _ c' hQ => (reads_pure _ _).ensures hQ

theorem Reads.node (h : r.Reads c ms c') :
    (node rule r).Reads c (.node rule c.offset c'.offset ms) c' :=
  (reads_offset c).bind (h.bind ((reads_offset c').bind (reads_pure _ _)))

theorem Fails.node (h : r.Fails c) : (Parser.node rule r).Fails c :=
  (reads_offset c).bind_fails h.bind

theorem Ensures.node {Q : Match → Cursor → Prop}
    (h : r.Ensures c fun ms c' => Q (.node rule c.offset c'.offset ms) c') :
    (Parser.node rule r).Ensures c Q := by
  intro t m c' hm
  refine Ensures.bind (P := fun ms c' => Q (.node rule c.offset c'.offset ms) c') h ?_ t m c' hm
  exact fun _ c' hQ => (reads_pure _ _).ensures hQ

end Matches

end Parser

end Playbooks
