import CreateTable.Proofs.Grammar.Progress
import CreateTable.Proofs.Grammar.Significant

/-!
# The cursor of a session

Whatever rules a session runs, and whether they succeed or not, it stays on its text: the cursor
stands among the tokens of that text, never on trivia, and never goes back. What a step answers
tells how the cursor moved: a part that was read cost tokens, and a part that is missing left the
cursor where it was. The one exception is the keyword `DEFAULT` without a value, which is taken
although there is nothing to answer.

## Main definitions

* `Session.position`, `Session.index`: the place of the cursor among all tokens of the text, and
  among its significant tokens.
* `Session.after`: the session behind a row of steps.
* `Session.IsOn`: the invariant of the sessions on a text.
* `Outcome.Moves`: what an answer tells about the cursor.

## Main statements

* `Session.getElem?_steps`: the answers of a row of steps are those of the sessions on the way.
* `Session.IsOn.step_moves`: what one step does.
* `Session.after_isOn_and_moves`: what every step behind every row of steps does.
-/

namespace CreateTable

namespace Session

/-- The number of tokens of the text behind which the cursor stands. -/
def position (s : Session) : Nat :=
  s.source.lexed.tokens.length - s.cursor.length

/-- The number of significant tokens of the text behind which the cursor stands. -/
def index (s : Session) : Nat :=
  (Cursor.significant (s.source.lexed.tokens.take s.position)).length

/-- The session behind a row of steps. -/
def after (s : Session) (row : List Step) : Session :=
  row.foldl (fun s step => (s.step step).2) s

/-- Each answer of a row is that of the session behind the steps before it. -/
theorem getElem?_steps (s : Session) (row : List Step) (n : Nat) :
    (s.steps row)[n]? = row[n]?.map (s.after (row.take n)).step := by
  induction row generalizing s n with
  | nil => rfl
  | cons step row ih =>
      cases n with
      | zero => rfl
      | succ n => exact ih _ n

/-- A session **is on** a text when it carries the tokens of that text and the options it was
opened with, and its cursor is what is left of the tokens behind its position, where no trivia
stands. -/
structure IsOn (s : Session) (text : String) (options : Options) : Prop where
  source_eq : s.source = Source.ofText text
  options_eq : s.options = options
  position_le : s.position ≤ s.source.lexed.tokens.length
  cursor_eq : s.cursor = s.source.lexed.tokens.drop s.position
  isTrivia_eq : ∀ t, s.source.lexed.tokens[s.position]? = some t → t.isTrivia = false

/-- The session `s'` is **reached** from `s` by taking at least `k` tokens. -/
structure Reaches (k : Nat) (s s' : Session) : Prop where
  source_eq : s'.source = s.source
  options_eq : s'.options = s.options
  cursor : Cursor.Reaches k s.cursor s'.cursor

variable {s s' : Session} {text : String} {options : Options} {j k : Nat}

namespace IsOn

/-- A session with a rest of the tokens of a text, without leading trivia, is on the text. -/
theorem of_suffix (hsource : s.source = Source.ofText text) (hoptions : s.options = options)
    (hsuffix : s.cursor <:+ s.source.lexed.tokens) (htrimmed : s.cursor.skipTrivia = s.cursor) :
    s.IsOn text options := by
  have hcursor : s.cursor = s.source.lexed.tokens.drop s.position :=
    List.suffix_iff_eq_drop.1 hsuffix
  refine ⟨hsource, hoptions, Nat.sub_le _ _, hcursor, fun t ht => ?_⟩
  rw [← List.head?_drop, ← hcursor] at ht
  rcases Cursor.eq_nil_or_cons htrimmed with hnil | ⟨u, rest, hcons, hu⟩
  · rw [hnil] at ht
    cases ht
  · rw [hcons] at ht
    cases ht
    exact hu

/-- A session starts on its text. -/
theorem ofText (text : String) (options : Options) : (ofText text options).IsOn text options :=
  of_suffix rfl rfl (List.dropWhile_suffix _) (ofText_cursor_trimmed text options)

variable (h : s.IsOn text options)
include h

/-- The cursor of a session on a text is a rest of its tokens. -/
theorem suffix : s.cursor <:+ s.source.lexed.tokens := by
  rw [h.cursor_eq]
  exact List.drop_suffix _ _

/-- The cursor of a session on a text stands on no trivia. -/
theorem trimmed : s.cursor.skipTrivia = s.cursor := by
  refine Cursor.trimmed_of_head? fun t ht => h.isTrivia_eq t ?_
  rwa [← List.head?_drop, ← h.cursor_eq]

/-- What is reached from a session on a text is on the text. -/
theorem of_reaches (hreaches : s.Reaches k s') : s'.IsOn text options := by
  refine of_suffix (hreaches.source_eq.trans h.source_eq)
    (hreaches.options_eq.trans h.options_eq) ?_ hreaches.cursor.trimmed
  rw [hreaches.source_eq]
  exact hreaches.cursor.suffix.trans h.suffix

/-- The tokens that were taken lie between the two positions. -/
theorem position_add_le (hreaches : s.Reaches k s') : s.position + k ≤ s'.position := by
  have hlength := h.suffix.length_le
  have hk := hreaches.cursor.length_add_le
  rw [position, position, hreaches.source_eq]
  omega

/-- The significant tokens before the cursor and those behind it are all of them. -/
theorem index_add_length : s.index + s.cursor.significant.length
    = (Cursor.significant s.source.lexed.tokens).length := by
  have hsplit : s.source.lexed.tokens.take s.position ++ s.cursor = s.source.lexed.tokens :=
    (congrArg (_ ++ ·) h.cursor_eq).trans (List.take_append_drop _ _)
  rw [index, ← List.length_append, Cursor.significant, Cursor.significant, ← List.filter_append,
    hsplit, Cursor.significant]

end IsOn

/-! ### What an answer tells -/

/-- A required part that is there moves the cursor forward. One that is missing does not move it
back, but what was read of it before the failure stays taken. -/
def RequiredMoves {α : Type} (s s' : Session) : Except Error α → Prop
  | .ok _ => s.position < s'.position
  | .error _ => s.position ≤ s'.position

/-- An optional part that is there moves the cursor forward, and one that is missing leaves the
session as it was. -/
def AllowedMoves {α : Type} (s s' : Session) : Option α → Prop
  | some _ => s.position < s'.position
  | none => s' = s

/-- The clause of a default value gives no answer when it is missing, and also when the keyword
stands alone; then this one token is taken. -/
def DefaultMoves (s s' : Session) : Option Value → Prop
  | some _ => s.position < s'.position
  | none =>
    if s.cursor.atWord 0 "default" then
      s' = { s with cursor := s.cursor.advance } ∧ s'.index = s.index + 1
    else
      s' = s

end Session

/-- What an answer tells about the cursor of the session `s` before the step and the session `s'`
behind it. -/
def Outcome.Moves (s s' : Session) : Outcome → Prop
  | .dataType result => s.RequiredMoves s' result
  | .attribute result => s.AllowedMoves s' result
  | .attributes result => s.AllowedMoves s' result.head?
  | .defaultValue result => s.DefaultMoves s' result
  | .columnComment result => s.AllowedMoves s' result
  | .column result => s.RequiredMoves s' result
  | .key result => s.RequiredMoves s' result
  | .table result => s.RequiredMoves s' result

/-! ### One step -/

/-- A clause is there exactly if its keyword is, and without a value it is the keyword alone. -/
theorem Value.run_clause (keyword : String) (c : Cursor) :
    (clause keyword).run c =
      if c.atWord 0 keyword then (optional matcher).run c.advance else none := by
  rw [clause, Matcher.run_bind, Matcher.run_word]
  split <;> rfl

/-- A clause is missing exactly if its keyword is not next. -/
theorem Value.run_clause_eq_none_iff {keyword : String} {c : Cursor} :
    (clause keyword).run c = none ↔ c.atWord 0 keyword = false := by
  rw [run_clause, optional, Matcher.run_orElse]
  split <;> simp [*]

/-- Of a clause without a value the keyword is taken. -/
theorem Value.eq_advance_of_run_clause {keyword : String} {c rest : Cursor}
    (h : (clause keyword).run c = some (none, rest)) :
    c.atWord 0 keyword = true ∧ rest = c.advance := by
  rw [run_clause] at h
  split at h
  · next hword =>
    rcases Matcher.run_optional_eq_some_iff.1 h with ⟨-, -, hrest⟩ | ⟨v, hv, -⟩
    · exact ⟨hword, hrest⟩
    · cases hv
  · cases h

namespace Session

variable {s s' : Session} {text : String} {options : Options} {j k : Nat} {α : Type}

/-- A session reaches itself. -/
theorem Reaches.refl (hs : s.cursor.skipTrivia = s.cursor) : s.Reaches 0 s :=
  ⟨rfl, rfl, .refl hs⟩

/-- A session that is reached by some number of tokens is reached by any smaller number. -/
theorem Reaches.mono (h : s.Reaches k s') (hjk : j ≤ k) : s.Reaches j s' :=
  ⟨h.source_eq, h.options_eq, h.cursor.mono hjk⟩

/-- A statement is read as its rule reads it; only the comment comes from elsewhere. -/
theorem table_eq (s : Session) :
    s.table = ((s.run Table.rule).1.map fun p => { p.1 with comment := s.commentBehind p.2 },
      (s.run Table.rule).2) := by
  rw [table]
  rcases s.run Table.rule with ⟨_ | ⟨t, close⟩, next⟩ <;> rfl

namespace IsOn

variable (h : s.IsOn text options)
include h

/-- A rule that takes a token when it is satisfied. -/
theorem run_moves {rule : Rule α} (hrule : rule.Takes 1) :
    s.Reaches 0 (s.run rule).2 ∧ s.RequiredMoves (s.run rule).2 (s.run rule).1 := by
  rw [run]
  split
  · next a c hrun =>
    have hreaches : s.Reaches 1 { s with cursor := c } := ⟨rfl, rfl, hrule.ok h.trimmed hrun⟩
    exact ⟨hreaches.mono (Nat.zero_le _), h.position_add_le hreaches⟩
  · next e c hrun =>
    have hreaches : s.Reaches 0 { s with cursor := c } := ⟨rfl, rfl, hrule.error h.trimmed hrun⟩
    exact ⟨hreaches, h.position_add_le hreaches⟩

/-- The step that reads a statement takes a token when it is satisfied. -/
theorem table_moves : s.Reaches 0 s.table.2 ∧ s.RequiredMoves s.table.2 s.table.1 := by
  have hrule := h.run_moves (Table.rule_takes.mono (j := 1) (by decide))
  rw [table_eq]
  refine ⟨hrule.1, ?_⟩
  revert hrule
  rcases s.run Table.rule with ⟨_ | p, next⟩ <;> exact And.right

/-- An optional part that takes a token when it is there. -/
theorem allow_moves {m : Matcher α} (hm : m.Takes 1) :
    s.Reaches 0 (s.allow m).2 ∧ s.AllowedMoves (s.allow m).2 (s.allow m).1 := by
  rw [allow]
  split
  · next a c hrun =>
    have hreaches : s.Reaches 1 { s with cursor := c } := ⟨rfl, rfl, hm h.trimmed hrun⟩
    exact ⟨hreaches.mono (Nat.zero_le _), h.position_add_le hreaches⟩
  · exact ⟨.refl h.trimmed, rfl⟩

/-- An optional part that is read as often as it comes. -/
theorem many_moves {m : Matcher α} (hm : m.Takes 1) :
    s.Reaches 0 (s.many m).2 ∧ s.AllowedMoves (s.many m).2 (s.many m).1.head? := by
  have hreaches : s.Reaches (1 * (m.many s.cursor).1.length) (s.many m).2 :=
    ⟨rfl, rfl, hm.many h.trimmed⟩
  refine ⟨hreaches.mono (Nat.zero_le _), ?_⟩
  have hanswer : (s.many m).1 = (m.many s.cursor).1 := rfl
  rw [hanswer]
  cases has : (m.many s.cursor).1 with
  | nil =>
      have hcursor := Matcher.many_snd_of_fst_eq_nil has
      exact congrArg (fun c => { s with cursor := c }) hcursor
  | cons a as =>
      rw [has] at hreaches
      exact h.position_add_le (hreaches.mono (j := 1) (by simp))

/-- A significant token that is taken counts once. -/
theorem index_advance {t : Token} (ht : s.cursor.peek 0 = some t) :
    index { s with cursor := s.cursor.advance } = s.index + 1 := by
  have hreaches : s.Reaches 1 { s with cursor := s.cursor.advance } :=
    ⟨rfl, rfl, Cursor.reaches_advance ht⟩
  -- both sums are the number of all significant tokens, and one token less is left
  have hbefore := h.index_add_length
  have hbehind := (h.of_reaches hreaches).index_add_length
  rw [Cursor.significant_advance_eq h.trimmed, List.length_tail] at hbehind
  rw [Cursor.peek_eq] at ht
  have hpos : 0 < s.cursor.significant.length := (List.getElem?_eq_some_iff.1 ht).1
  simp only at hbehind
  omega

/-- The clause of a default value, whose answer does not tell whether the keyword was there. -/
theorem default_moves :
    s.Reaches 0 (s.allow Column.defaultClause).2 ∧
      s.DefaultMoves (s.allow Column.defaultClause).2 (s.allow Column.defaultClause).1.join := by
  refine ⟨(h.allow_moves (Value.clause_takes "default")).1, ?_⟩
  rw [Column.defaultClause, allow]
  split
  · next value rest hrun =>
    cases value with
    | some v =>
        have hreaches : s.Reaches 1 { s with cursor := rest } :=
          ⟨rfl, rfl, Value.clause_takes "default" h.trimmed hrun⟩
        exact h.position_add_le hreaches
    | none =>
        -- the keyword stands alone and is taken all the same
        obtain ⟨hword, rfl⟩ := Value.eq_advance_of_run_clause hrun
        have hpeek := hword
        rw [Cursor.atWord_eq_any, Option.any_eq_true] at hpeek
        obtain ⟨t, ht, -⟩ := hpeek
        rw [Option.join_some, DefaultMoves, if_pos hword]
        exact ⟨rfl, h.index_advance ht⟩
  · next hrun =>
    have hword := Value.run_clause_eq_none_iff.1 hrun
    simp [DefaultMoves, hword]

/-- What one step does to a session on a text. -/
theorem step_moves : ∀ step : Step,
    s.Reaches 0 (s.step step).2 ∧ (s.step step).1.Moves s (s.step step).2
  | .dataType => h.run_moves DataType.rule_takes
  | .attribute => h.allow_moves Attribute.matcher_takes
  | .attributes => h.many_moves Attribute.matcher_takes
  | .defaultValue => h.default_moves
  | .columnComment => h.allow_moves Column.commentClause_takes
  | .column => h.run_moves (Column.rule_takes.mono (by decide))
  | .key => h.run_moves Key.rule_takes
  | .table => h.table_moves

/-- Every row of steps leaves the session on its text. -/
theorem after (row : List Step) : (s.after row).IsOn text options := by
  induction row generalizing s with
  | nil => exact h
  | cons step row ih => exact ih (h.of_reaches (h.step_moves step).1)

end IsOn

/-- **The discipline of the cursor.** Behind every row of steps, failed ones included, the session
is on its text; the next step does not move the cursor back, and its answer tells how it moved. -/
theorem after_isOn_and_moves (text : String) (options : Options) (row : List Step) (step : Step) :
    let s := (ofText text options).after row
    s.IsOn text options ∧ s.position ≤ (s.step step).2.position ∧
      (s.step step).1.Moves s (s.step step).2 := by
  intro s
  have hs : s.IsOn text options := (IsOn.ofText text options).after row
  obtain ⟨hreaches, hmoves⟩ := hs.step_moves step
  exact ⟨hs, hs.position_add_le hreaches, hmoves⟩

end Session

end CreateTable
