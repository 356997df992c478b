import CreateTable.Proofs.Statement.Layout
import CreateTable.Proofs.Text.Location
import CreateTable.Proofs.Token.Lexer

/-!
# The end of a statement

A statement ends at the parenthesis that closes its body. What stands behind it, be it text that
cannot be cut into tokens, can only change the comment; and no text that ends before the
parenthesis, be it in the middle of a token, is a statement.

## Main definitions

* `Table.closingOffset?`: the byte offset of the parenthesis.

## Main statements

* `Table.exists_closing`: the parenthesis in the text, and the statement with another text behind
  it.
* `Table.ofText_closed`: a statement is decided at its closing parenthesis.
-/

namespace CreateTable.Table

open Text

/-- The byte offset of the parenthesis that closes the statement at the start of `text`. -/
def closingOffset? (text : String) : Option Nat :=
  match Table.rule.runFrom (Session.ofText text {}).cursor with
  | (.ok (_, close), _) => some (close.start.offset text.toList)
  | (.error _, _) => none

/-- The closing parenthesis is looked for at the offset where it stands. -/
theorem closingOffset?_eq {text : String} {t : Table} {close : Token} {rest : Cursor}
    (h : Table.rule.runFrom (significantTokens text) = (.ok (t, close), rest)) :
    closingOffset? text = some (close.start.offset text.toList) := by
  have hrule := Table.rule_significant (Session.ofText_cursor_trimmed text {})
  rw [Session.ofText_cursor_significant, h] at hrule
  have hanswer : (Table.rule.runFrom (Session.ofText text {}).cursor).1 = .ok (t, close) :=
    (Prod.mk.inj hrule).1.symm
  rw [closingOffset?]
  generalize Table.rule.runFrom (Session.ofText text {}).cursor = answer at hanswer
  obtain ⟨result, stop⟩ := answer
  obtain rfl : result = .ok (t, close) := hanswer
  rfl

/-- The statement of a layout is read whatever tokens stand behind its closing parenthesis. -/
theorem exists_runFrom_of_layout {c : Cursor} {t : Table} {close : Token} {rest : Cursor}
    (hc : c.IsBare) (h : Table.rule.runFrom c = (.ok (t, close), rest)) :
    ∃ d, c = d ++ close :: rest ∧ close.kind = .rightParen ∧
      ∀ rest', Cursor.IsBare rest' →
        Table.rule.runFrom (d ++ close :: rest') = (.ok (t, close), rest') := by
  obtain ⟨l, items, rfl, rfl, hall, rfl⟩ := (runFrom_eq_ok_iff hc).1 h
  obtain ⟨opening, guard, naming, paren, body, close, rest, name, rfl, hopens, hguards, hspells,
    hkind, hbalanced, hclosekind⟩ := l
  refine ⟨opening ++ (guard ++ (naming ++ paren :: body)), by simp, hclosekind, ?_⟩
  intro rest' hrest'
  have hc' : Cursor.IsBare (opening ++ (guard ++ (naming ++ paren :: body)) ++ close :: rest') := by
    simp only [Cursor.isBare_append, Cursor.isBare_cons] at hc ⊢
    tauto
  exact (runFrom_eq_ok_iff hc').2 ⟨⟨opening, guard, naming, paren, body, close, rest', name,
    by simp, hopens, hguards, hspells, hkind, hbalanced, hclosekind⟩, items, rfl, rfl, hall, rfl⟩

/-- The closing parenthesis stands in the text, and the statement is read from every text that
agrees up to it. -/
theorem exists_closing {text : String} {t : Table} {close : Token} {rest : Cursor}
    (h : Table.rule.runFrom (significantTokens text) = (.ok (t, close), rest)) :
    ∃ p tail, text.toList = p ++ ')' :: tail ∧ close.start = Location.start.afterAll p ∧
      ∀ tail', ∃ rest', Table.rule.runFrom (significantTokens (String.ofList (p ++ ')' :: tail')))
        = (.ok (t, close), rest') := by
  obtain ⟨d, hd, hkind, hread⟩ := exists_runFrom_of_layout (isBare_significantTokens text) h
  obtain ⟨ts, post, htokens, hts, -⟩ := Cursor.exists_of_significant_eq hd
  obtain ⟨p, tail, htext, hstart, hlex⟩ := exists_paren_of_lexFrom htokens hkind
  refine ⟨p, tail, htext, hstart, fun tail' => ?_⟩
  have hsignificant : significantTokens (String.ofList (p ++ ')' :: tail'))
      = d ++ close :: Cursor.significant (lexFrom (close.start.after ')') tail').tokens := by
    rw [significantTokens, lex, String.toList_ofList, hlex, ← hts]
    have hclose : close.isTrivia = false := by simp [Token.isTrivia, hkind, Kind.isTrivia]
    simp [Cursor.significant, hclose]
  rw [hsignificant]
  exact ⟨_, hread _ (Cursor.isBare_significant _)⟩

/-- The comment of a statement comes from the text behind its closing parenthesis. -/
theorem commentBehind_eq {p tail : List Char} {close : Token}
    (hstart : close.start = Location.start.afterAll p) (options : Options) :
    (Session.ofText (String.ofList (p ++ ')' :: tail)) options).commentBehind close
      = if options.tableComment then commentOf (String.ofList tail) else "" := by
  have hoffset : close.start.offset (p ++ ')' :: tail) = byteLength p := by
    rw [hstart, Location.offset_afterAll]
  have hdrop : dropBytes? (byteLength p + 1) (p ++ ')' :: tail) = some tail := by
    have hlength : byteLength (p ++ [')']) = byteLength p + 1 := byteLength_append p [')']
    rw [← hlength, List.append_cons p ')' tail, dropBytes?_append]
  simp only [Session.commentBehind, Session.ofText, Source.textBehind?, Source.ofText,
    Source.chars, String.toList_ofList, hoffset, hdrop, Option.map_some, Option.getD_some]

/-- A statement is read from its text up to the closing parenthesis, with any text behind it. -/
theorem ofText_append {p tail : List Char} {t : Table} {close : Token} {rest : Cursor}
    (hstart : close.start = Location.start.afterAll p)
    (h : Table.rule.runFrom (significantTokens (String.ofList (p ++ ')' :: tail)))
      = (.ok (t, close), rest)) (options : Options) :
    Table.ofText (String.ofList (p ++ ')' :: tail)) options
      = .ok { t with comment :=
          if options.tableComment then commentOf (String.ofList tail) else "" } :=
  ofText_eq_ok_iff_rule.2 ⟨t, close, rest, h, by rw [commentBehind_eq hstart]⟩

/-- A statement is **decided at its closing parenthesis**. The text up to there, with any text
behind it, is the same table with the comment of the new text; and no shorter part of the text is
a statement. -/
theorem ofText_closed {text : String} {options : Options} {t : Table}
    (h : Table.ofText text options = .ok t) :
    ∃ offset head, closingOffset? text = some offset ∧
      takeBytes? (offset + 1) text.toList = some head ∧
      (∀ (tail : String) (options' : Options),
        Table.ofText (String.ofList head ++ tail) options'
          = .ok { t with comment := if options'.tableComment then commentOf tail else "" }) ∧
      ∀ n cut, n ≤ offset → takeBytes? n text.toList = some cut →
        ∀ options', ∃ e, Table.ofText (String.ofList cut) options' = .error e := by
  obtain ⟨u, close, rest, hrule, rfl⟩ := ofText_eq_ok_iff_rule.1 h
  obtain ⟨p, tail, htext, hstart, hread⟩ := exists_closing hrule
  have hoffset : closingOffset? text = some (byteLength p) := by
    rw [closingOffset?_eq hrule, htext, hstart, Location.offset_afterAll]
  refine ⟨byteLength p, p ++ [')'], hoffset, ?_, fun tail' options' => ?_, ?_⟩
  · have hsplit : text.toList = p ++ [')'] ++ tail := by rw [htext, List.append_cons]
    exact takeBytes?_eq_some_iff.2 ⟨tail, hsplit, byteLength_append p [')']⟩
  · have happend :
        String.ofList (p ++ [')']) ++ tail' = String.ofList (p ++ ')' :: tail'.toList) := by
      refine String.toList_injective ?_
      rw [String.toList_append, String.toList_ofList, String.toList_ofList, List.append_assoc]
      rfl
    obtain ⟨rest', hrule'⟩ := hread tail'.toList
    rw [happend, ofText_append hstart hrule', String.ofList_toList]
  · intro n cut hn hcut options'
    cases hresult : Table.ofText (String.ofList cut) options' with
    | error e => exact ⟨e, rfl⟩
    | ok v =>
        -- a parenthesis that closed the part would close the text
        obtain ⟨more, hmore, rfl⟩ := takeBytes?_eq_some_iff.1 hcut
        obtain ⟨v, close', rest', hrule', rfl⟩ := ofText_eq_ok_iff_rule.1 hresult
        obtain ⟨q, tail', hcut', hstart', hread'⟩ := exists_closing hrule'
        rw [String.toList_ofList] at hcut'
        have hwhole : text = String.ofList (q ++ ')' :: (tail' ++ more)) := by
          rw [← String.ofList_toList (s := text), hmore, hcut', List.append_assoc, List.cons_append]
        obtain ⟨rest'', hrule''⟩ := hread' (tail' ++ more)
        rw [← hwhole] at hrule''
        have hoffset' : closingOffset? text = some (byteLength q) := by
          rw [closingOffset?_eq hrule'', hwhole, String.toList_ofList, hstart',
            Location.offset_afterAll]
        have heq : byteLength p = byteLength q := Option.some.inj (hoffset.symm.trans hoffset')
        rw [hcut', byteLength_append, byteLength, ← heq] at hn
        have := Char.utf8Size_pos ')'
        omega

/-- A statement behind whose closing parenthesis the text breaks off inside a string. -/
theorem ofText_closed_before_open_quote :
    Table.ofText "CREATE TABLE t (a int) 'x" {}
        = .ok ⟨⟨none, "t"⟩, [⟨"a", ⟨.int, none, none⟩, [], none, ""⟩], [], ""⟩ ∧
      ∃ offset head, closingOffset? "CREATE TABLE t (a int) 'x" = some offset ∧
        takeBytes? (offset + 1) "CREATE TABLE t (a int) 'x".toList = some head ∧
        (∀ (tail : String) (options' : Options),
          Table.ofText (String.ofList head ++ tail) options'
            = .ok ⟨⟨none, "t"⟩, [⟨"a", ⟨.int, none, none⟩, [], none, ""⟩], [],
                if options'.tableComment then commentOf tail else ""⟩) ∧
        ∀ n cut, n ≤ offset → takeBytes? n "CREATE TABLE t (a int) 'x".toList = some cut →
          ∀ options', ∃ e, Table.ofText (String.ofList cut) options' = .error e := by
  have h : Table.ofText "CREATE TABLE t (a int) 'x" {}
      = .ok ⟨⟨none, "t"⟩, [⟨"a", ⟨.int, none, none⟩, [], none, ""⟩], [], ""⟩ := by
    decide +kernel
  exact ⟨h, ofText_closed h⟩

end CreateTable.Table
