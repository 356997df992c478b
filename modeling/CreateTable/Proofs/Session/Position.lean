import CreateTable.Proofs.Session.Progress
import CreateTable.Proofs.Token.Lexer

/-!
# The place of an error

An error of a session names the place where the rule stopped. That is the place of the next
significant token, or the end of the text when no token is left; and where the tokens end because
the text breaks off, it is the place where it does. Byte offset, line and column of the place all
count the same part of the text, whatever characters it has.

## Main definitions

* `Position.IsBehind`: the position behind a first part of a text.
* `Error.PointsAt`: an error names the place at which a session stands.
* `Outcome.error?`: the error of an answer.

## Main statements

* `Source.position_isBehind`: a byte offset at the border of two characters is a position.
* `Error.PointsAt.exists_brokenToken_iff`: when an error is about a broken token.
* `Session.IsOn.errorAt_pointsAt`: the errors that a session on a text can make.
* `Error.pointsAt_stop`: every error of a session, of a table and of a column names the place
  where the reading stopped.
-/

namespace CreateTable

/-- The position `p` is the place **behind** the text `before`: its bytes, the line feeds in it and
the characters behind the last line feed are counted. -/
structure Position.IsBehind (p : Position) (before : List Char) : Prop where
  offset_eq : p.offset = Text.byteLength before
  line_eq : p.location.line = 1 + before.count '\n'
  column_eq : p.location.column = 1 + (before.rtakeWhile (· ≠ '\n')).length

/-- The error **points at** the place where the session `s` on `text` stands. -/
inductive Error.PointsAt (text : String) (s : Session) : Error → Prop
  /-- A token is next. It is shown, and the position is the one behind the text before it. -/
  | token {p : Position} {expected : Expectation} {t : Token} {rest : List Token}
      {before after : List Char} :
      s.cursor = t :: rest → t.isTrivia = false → t :: rest <:+ (lex text).tokens →
      text.toList = before ++ after →
      lexFrom (.afterAll .start before) after = ⟨t :: rest, (lex text).breakdown⟩ →
      p.offset = s.offset → p.IsBehind before →
      PointsAt text s (.mismatch p expected t.kind.shown)
  /-- No token is left of a text that could be read to its end. -/
  | endOfInput {p : Position} {expected : Expectation} :
      s.cursor = [] → (lex text).breakdown = none →
      p.offset = s.offset → p.IsBehind text.toList →
      PointsAt text s (.mismatch p expected "end of input")
  /-- No token is left of a text that breaks off. -/
  | breakdown {p : Position} {b : Breakdown} {before after : List Char} :
      s.cursor = [] → (lex text).breakdown = some b →
      text.toList = before ++ after → b.location = .afterAll .start before →
      p.location = b.location → p.IsBehind before →
      PointsAt text s (.brokenToken p b.fault)

/-- An error that points at the place of a session is about the broken token exactly if the session
is at the end of the tokens of a text that breaks off. -/
theorem Error.PointsAt.exists_brokenToken_iff {text : String} {s : Session} {e : Error}
    (h : e.PointsAt text s) :
    (∃ p fault, e = .brokenToken p fault) ↔
      s.cursor = [] ∧ (lex text).breakdown.isSome = true := by
  cases h with
  | token hcursor => simp [hcursor]
  | endOfInput hcursor hlex => simp [hlex]
  | breakdown hcursor hlex => simp [hcursor, hlex]

/-- The error of a result, if it is one. -/
def Error.of? {α : Type} : Except Error α → Option Error
  | .error e => some e
  | .ok _ => none

/-- A result is an error exactly if it has one. -/
theorem Error.of?_eq_some_iff {α : Type} {result : Except Error α} {e : Error} :
    Error.of? result = some e ↔ result = .error e := by
  cases result <;> simp [Error.of?]

/-- The error of an answer, if it has one. Optional parts have none. -/
def Outcome.error? : Outcome → Option Error
  | .dataType result => Error.of? result
  | .column result => Error.of? result
  | .key result => Error.of? result
  | .table result => Error.of? result
  | .attribute _ | .attributes _ | .defaultValue _ | .columnComment _ => none

/-! ### Places -/

namespace Source

variable {source : Source} {before after : List Char} (e : Expectation)

/-- Where a token is next, the error names its place and shows it. -/
theorem errorAt_cons {t : Token} (rest : List Token) (ht : t.isTrivia = false) :
    source.errorAt (t :: rest) e
      = .mismatch (source.position (t.start.offset source.chars)) e t.kind.shown := by
  rw [errorAt, shownAt, Cursor.peek_cons rest ht]
  rfl

/-- At the end of a text that could be read the error is at its last place. -/
theorem errorAt_nil_of_none (h : source.lexed.breakdown = none) :
    source.errorAt [] e
      = .mismatch (source.position (Text.byteLength source.chars)) e "end of input" := by
  rw [errorAt, h]
  rfl

/-- At the end of a text that breaks off the error is about the broken token. -/
theorem errorAt_nil_of_some {b : Breakdown} (h : source.lexed.breakdown = some b) :
    source.errorAt [] e
      = .brokenToken (source.position (b.location.offset source.chars)) b.fault := by
  rw [errorAt, h]
  rfl

/-- The location behind the first part of a text has its place there. -/
theorem offset_eq_of_start_eq {l : Text.Location} (htext : source.chars = before ++ after)
    (hl : l = .afterAll .start before) : l.offset source.chars = Text.byteLength before := by
  rw [hl, htext, Text.Location.offset_afterAll]

/-- The place of a byte offset has the location to which the text before it leads. -/
theorem location_position (htext : source.chars = before ++ after) :
    (source.position (Text.byteLength before)).location = .afterAll .start before := by
  rw [position, htext]
  exact Text.Location.ofOffset_byteLength before after

/-- A byte offset at the border of two parts is the position behind the first one. -/
theorem position_isBehind (htext : source.chars = before ++ after) :
    (source.position (Text.byteLength before)).IsBehind before := by
  have hlocation := location_position htext
  rw [Text.Location.afterAll_eq] at hlocation
  exact ⟨rfl, by rw [hlocation], by rw [hlocation]⟩

end Source

/-! ### Errors of a session -/

namespace Session

variable {s s' : Session} {text : String} {options : Options} {α : Type}

/-- A session on a text carries the tokens of the text. -/
theorem IsOn.lexed_eq (h : s.IsOn text options) : s.source.lexed = lex text := by
  rw [h.source_eq, Source.ofText]

/-- A session on a text carries the characters of the text. -/
theorem IsOn.chars_eq (h : s.IsOn text options) : s.source.chars = text.toList := by
  rw [h.source_eq, Source.ofText, Source.chars]

/-- Whatever a rule required where a session on a text stands, the error points there. -/
theorem IsOn.errorAt_pointsAt (h : s.IsOn text options) (e : Expectation) :
    (s.source.errorAt s.cursor e).PointsAt text s := by
  have hsuffix := h.suffix
  rw [h.lexed_eq] at hsuffix
  rcases Cursor.eq_nil_or_cons h.trimmed with hnil | ⟨t, rest, hcons, ht⟩
  · -- no token is left, because the text ends or because it breaks off
    cases hb : (lex text).breakdown with
    | none =>
        rw [hnil, Source.errorAt_nil_of_none e (h.lexed_eq ▸ hb), h.chars_eq]
        refine .endOfInput hnil hb ?_ ?_
        · rw [offset, hnil, ← h.chars_eq]
          rfl
        · exact Source.position_isBehind (h.chars_eq.trans (List.append_nil _).symm)
    | some b =>
        obtain ⟨before, after, htext, hlocation⟩ := exists_cut_of_breakdown hb
        have hchars := h.chars_eq.trans htext
        rw [hnil, Source.errorAt_nil_of_some e (h.lexed_eq ▸ hb),
          Source.offset_eq_of_start_eq hchars hlocation]
        refine .breakdown hnil hb htext hlocation ?_ (Source.position_isBehind hchars)
        rw [hlocation, Source.location_position hchars]
  · -- the tokens that are left are those of the rest of the text, which starts at the next one
    rw [hcons] at hsuffix
    obtain ⟨before, after, htext, hlex⟩ := exists_cut_of_suffix hsuffix
    have hchars := h.chars_eq.trans htext
    have hstart : t.start = .afterAll .start before := start_eq_of_lexFrom (congrArg _ hlex)
    have hoffset := Source.offset_eq_of_start_eq hchars hstart
    rw [hcons, Source.errorAt_cons e rest ht, hoffset]
    refine .token hcons ht hsuffix htext hlex ?_ (Source.position_isBehind hchars)
    rw [offset, hcons]
    exact hoffset.symm

/-- A rule fails with an error about the place where it stopped. -/
theorem exists_errorAt_of_run {rule : Rule α} {e : Error} (h : (s.run rule).1 = .error e) :
    ∃ x, e = (s.run rule).2.source.errorAt (s.run rule).2.cursor x := by
  rw [run] at h ⊢
  split at h
  · cases h
  · next x c hrun =>
    exact ⟨x, (Except.error.inj h).symm⟩

/-- A statement fails as its rule does. -/
theorem exists_errorAt_of_table {e : Error} (h : s.table.1 = .error e) :
    ∃ x, e = s.table.2.source.errorAt s.table.2.cursor x := by
  rw [table_eq] at h ⊢
  cases hrun : (s.run Table.rule).1 with
  | error f =>
      rw [hrun] at h
      cases h
      exact exists_errorAt_of_run hrun
  | ok p =>
      rw [hrun] at h
      cases h

/-- A step fails with an error about the place where it stopped. -/
theorem exists_errorAt_of_step {e : Error} : ∀ {step : Step}, (s.step step).1.error? = some e →
    ∃ x, e = (s.step step).2.source.errorAt (s.step step).2.cursor x
  | .dataType, h => exists_errorAt_of_run (Error.of?_eq_some_iff.1 h)
  | .column, h => exists_errorAt_of_run (Error.of?_eq_some_iff.1 h)
  | .key, h => exists_errorAt_of_run (Error.of?_eq_some_iff.1 h)
  | .table, h => exists_errorAt_of_table (Error.of?_eq_some_iff.1 h)

end Session

/-- **Errors point at the place where reading stopped**: those of a session, whatever rules it ran
before, those of a table and those of a column. -/
theorem Error.pointsAt_stop (text : String) (options : Options) :
    (∀ row step e, let answer := ((Session.ofText text options).after row).step step
      answer.1.error? = some e → e.PointsAt text answer.2) ∧
    (∀ e, Table.ofText text options = .error e →
      e.PointsAt text (Session.ofText text options).table.2) ∧
    (∀ e, Column.ofText text = .error e →
      e.PointsAt text ((Session.ofText text {}).run Column.wholeRule).2) := by
  refine ⟨fun row step e => ?_, fun e h => ?_, fun e h => ?_⟩
  · have hs := (Session.IsOn.ofText text options).after row
    intro answer h
    obtain ⟨x, rfl⟩ := Session.exists_errorAt_of_step h
    exact (hs.of_reaches (hs.step_moves step).1).errorAt_pointsAt x
  · have hs := Session.IsOn.ofText text options
    obtain ⟨x, rfl⟩ := Session.exists_errorAt_of_table h
    exact (hs.of_reaches hs.table_moves.1).errorAt_pointsAt x
  · have hs := Session.IsOn.ofText text {}
    obtain ⟨x, rfl⟩ := Session.exists_errorAt_of_run h
    have hmoves := hs.run_moves (Column.wholeRule_takes.mono (j := 1) (by decide))
    exact (hs.of_reaches hmoves.1).errorAt_pointsAt x

/-- A key clause that is sought behind a column and a line break, where the text breaks off; a text
that is no statement; and a column with something behind it. -/
theorem Error.pointsAt_stop_second_line :
    let answer := ((Session.ofText "é int\n'" {}).after [.column]).step .key
    answer.1.error? = some (.brokenToken ⟨7, 2, 1⟩ .unterminatedString) ∧
    (Error.brokenToken ⟨7, 2, 1⟩ .unterminatedString).PointsAt "é int\n'" answer.2 ∧
    Table.ofText "/*é*/\n é" {} = .error (.mismatch ⟨8, 2, 2⟩ .createTable "é") ∧
    (Error.mismatch ⟨8, 2, 2⟩ .createTable "é").PointsAt "/*é*/\n é"
      (Session.ofText "/*é*/\n é" {}).table.2 ∧
    Column.ofText "é int 1 2" = .error (.mismatch ⟨7, 1, 7⟩ .endOfColumn "1") ∧
    (Error.mismatch ⟨7, 1, 7⟩ .endOfColumn "1").PointsAt "é int 1 2"
      ((Session.ofText "é int 1 2" {}).run Column.wholeRule).2 := by
  have hstep : (((Session.ofText "é int\n'" {}).after [.column]).step .key).1.error?
      = some (.brokenToken ⟨7, 2, 1⟩ .unterminatedString) := by
    decide +kernel
  have htable : Table.ofText "/*é*/\n é" {} = .error (.mismatch ⟨8, 2, 2⟩ .createTable "é") := by
    decide +kernel
  have hcolumn : Column.ofText "é int 1 2" = .error (.mismatch ⟨7, 1, 7⟩ .endOfColumn "1") := by
    decide +kernel
  exact ⟨hstep, (pointsAt_stop "é int\n'" {}).1 [.column] .key _ hstep, htable,
    (pointsAt_stop "/*é*/\n é" {}).2.1 _ htable, hcolumn,
    (pointsAt_stop "é int 1 2" {}).2.2 _ hcolumn⟩

end CreateTable
