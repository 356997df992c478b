import CreateTable.Proofs.Grammar.Index
import CreateTable.Proofs.Session.Position
import CreateTable.Proofs.Statement.Closing
import CreateTable.Proofs.Statement.Comment

/-!
# The slices of a session

A reader of a text slices it and its tokens at places that it counted elsewhere: the tokens at its
position, the text at the start of a line, at the offset of an error, behind the closing parenthesis
of a statement, and at the words and quotes around a comment. All of them are in range and at
borders of characters, whatever the text is and whatever rules were run before.

## Main definitions

* `Session.SlicesInRange`: the slices that a session takes succeed.

## Main statements

* `Session.IsOn.exists_closing`: a statement that a session reads is closed by a parenthesis of the
  text.
* `Session.slicesInRange`: no slice fails.
-/

namespace CreateTable

open Text

namespace Session

/-- The slices that the session `s` on `text` takes **are in range** and at borders of characters,
whatever rule is next. -/
structure SlicesInRange (text : String) (s : Session) : Prop where
  /-- The session stands where taking tokens from the start leads to. -/
  cursor : ∃ n, Cursor.from? (lex text).tokens
    (Move.runAll (lex text).tokens 0 (.skip :: List.replicate n .advance)) = some s.cursor
  /-- The tokens can be sliced wherever a rule goes from there, be it back and forth. -/
  tokens : ∀ moves, (Cursor.from? (lex text).tokens
    (Move.runAll (lex text).tokens s.position moves)).isSome = true
  /-- The offset of a token or a fault, whatever its location is, is found by slices and is a border
  of characters. -/
  offset : ∀ l : Location, l.offsetBySlices? text.toList = some (l.offset text.toList) ∧
    IsBorder text.toList (l.offset text.toList)
  /-- The location of an error at such an offset, or at the end of the text, is found by slices. -/
  location : ∀ offset, ((∃ l : Location, offset = l.offset text.toList) ∨
      offset = byteLength text.toList) →
    Location.ofOffsetBySlices? text.toList offset = some (Location.ofOffset text.toList offset)
  /-- A statement that is read from here ends with a parenthesis of the text, one byte behind which
  the text can be sliced. -/
  closing : ∀ table close rest, Table.rule.runFrom s.cursor = (.ok (table, close), rest) →
    ∃ before after, text.toList = before ++ ')' :: after ∧
      close.start.offset text.toList = byteLength before ∧
      dropBytes? (close.start.offset text.toList + 1) text.toList = some after

variable {s : Session} {text : String} {options : Options}

/-- A statement that a session reads, wherever it stands, is closed by a parenthesis of the text. -/
theorem IsOn.exists_closing (h : s.IsOn text options) {table : Table} {close : Token}
    {rest : Cursor} (hread : Table.rule.runFrom s.cursor = (.ok (table, close), rest)) :
    ∃ before after, text.toList = before ++ ')' :: after ∧
      close.start = Location.start.afterAll before := by
  have hrule := Table.rule_significant h.trimmed
  rw [hread] at hrule
  obtain ⟨d, hd, hkind, -⟩ :=
    Table.exists_runFrom_of_layout (Cursor.isBare_significant s.cursor) hrule
  obtain ⟨before, behind, hcursor, -, -⟩ := Cursor.exists_of_significant_eq hd
  obtain ⟨taken, htokens⟩ := h.suffix
  rw [h.lexed_eq, hcursor, ← List.append_assoc] at htokens
  obtain ⟨p, tail, htext, hstart, -⟩ := exists_paren_of_lexFrom htokens.symm hkind
  exact ⟨p, tail, htext, hstart⟩

/-- The slices of a session on a text are in range. -/
theorem IsOn.inRange (h : s.IsOn text options) : s.SlicesInRange text where
  cursor := by
    have hsuffix := h.suffix
    rw [h.lexed_eq] at hsuffix
    obtain ⟨n, hn⟩ := Cursor.exists_advances (Cursor.suffix_skipTrivia hsuffix h.trimmed) h.trimmed
    refine ⟨n, ?_⟩
    rw [hn]
    exact Move.from?_advances
      (Cursor.from?_skipFrom (Cursor.from?_eq_some_iff.2 ⟨Nat.zero_le _, rfl⟩)) n
  tokens := by
    intro moves
    have hle := h.position_le
    rw [h.lexed_eq] at hle
    exact Cursor.from?_isSome_iff.2 (Move.runAll_le moves hle)
  offset l := ⟨l.offsetBySlices?_eq _, l.isBorder_offset _⟩
  location := by
    rintro offset (⟨l, rfl⟩ | rfl)
    · exact Location.ofOffsetBySlices?_eq (l.isBorder_offset _)
    · exact Location.ofOffsetBySlices?_eq ⟨text.toList, [], (List.append_nil _).symm, rfl⟩
  closing := by
    intro table close rest hread
    obtain ⟨before, after, htext, hclose⟩ := h.exists_closing hread
    have hoffset : close.start.offset text.toList = byteLength before := by
      rw [hclose, htext, Location.offset_afterAll]
    refine ⟨before, after, htext, hoffset, ?_⟩
    rw [hoffset, htext]
    exact dropBytes?_append_cons rfl before after

/-- **No slice fails**: neither those of a session, whatever rules it ran before, nor those of the
search for a comment in any text. -/
theorem slicesInRange (text : String) (options : Options) (row : List Step) :
    ((ofText text options).after row).SlicesInRange text ∧
      ∀ tail, Table.commentBySlices? tail = some ((Table.commentIn? tail).getD []) :=
  ⟨((IsOn.ofText text options).after row).inRange, Table.commentBySlices?_eq⟩

end Session

end CreateTable
