import CreateTable.Proofs.Grammar.Bare
import CreateTable.Proofs.Grammar.RuleSimulation
import CreateTable.Reading

/-!
# Reading the significant tokens only

A rule gives the same result on a cursor and on the significant tokens of that cursor, and it
stops in front of the same significant token. This is the simulation between two cursors whose
significant tokens are alike one by one; for equal tokens it removes the trivia. So reading a text
depends on the significant tokens of the text only, as far as these could be read; and for a table
also on the text behind its closing parenthesis.

## Main definitions

* `Cursor.SameTokens`: two cursors without leading trivia whose significant tokens are alike.
* `Simulation.ofLikeness`: the simulation of such cursors.
* `significantTokens`: the significant tokens of a text.

## Main statements

* `Rule.runFrom_significant`: what a rule gives on the significant tokens of a cursor.
* `Table.rule_significant`, `DataType.rule_significant`, `Column.rule_significant`,
  `Key.rule_significant`: the rules of statements, types, columns and key clauses.
* `Table.ofText_eq_ok_iff_rule`: when a text describes a table.
* `Column.ofText_eq_ok_iff_rule`: when a text describes a column.
-/

namespace CreateTable

namespace Cursor

/-- Behind the leading trivia there are no leading trivia. -/
theorem skipTrivia_skipTrivia (c : Cursor) : c.skipTrivia.skipTrivia = c.skipTrivia := by
  rcases skipTrivia_eq_cons_or_nil c with h | ⟨t, rest, h, ht⟩
  · rw [h]
    rfl
  · rw [h]
    simp [skipTrivia, ht]

/-- Taking a token leaves a rest of the tokens. -/
theorem advance_suffix (c : Cursor) : c.advance <:+ c :=
  (List.dropWhile_suffix _).trans (List.tail_suffix c)

/-- A cursor that does not begin with trivia has no leading trivia. -/
theorem trimmed_of_head? {c : Cursor} (h : ∀ t ∈ c.head?, t.isTrivia = false) :
    c.skipTrivia = c := by
  cases c with
  | nil => rfl
  | cons t c => simp [skipTrivia, h t rfl]

/-- A cursor without leading trivia is empty or starts with a significant token. -/
theorem eq_nil_or_cons {c : Cursor} (h : c.skipTrivia = c) :
    c = [] ∨ ∃ t rest, c = t :: rest ∧ t.isTrivia = false := by
  rw [← h]
  exact skipTrivia_eq_cons_or_nil c

/-- A cursor without leading trivia has no significant token only at the end. -/
theorem significant_eq_nil_iff {c : Cursor} (h : c.skipTrivia = c) :
    c.significant = [] ↔ c = [] := by
  rcases eq_nil_or_cons h with rfl | ⟨t, rest, rfl, ht⟩
  · simp [significant]
  · simp [significant, ht]

/-- A significant token stands in the text between what stands before and behind it. -/
theorem exists_of_significant_eq {c d e : Cursor} {t : Token} (h : c.significant = d ++ t :: e) :
    ∃ c₁ c₂ : Cursor, c = c₁ ++ t :: c₂ ∧ c₁.significant = d ∧ c₂.significant = e := by
  obtain ⟨c₁, c', rfl, hd, htail⟩ := List.filter_eq_append_iff.1 h
  obtain ⟨trivia, c₂, rfl, htrivia, -, he⟩ := List.filter_eq_cons_iff.1 htail
  refine ⟨c₁ ++ trivia, c₂, by rw [List.append_assoc], ?_, he⟩
  have hnil : significant trivia = [] := List.filter_eq_nil_iff.2 htrivia
  rw [significant, List.filter_append, hd]
  rw [significant] at hnil
  rw [hnil, List.append_nil]

/-- Taking a token of a cursor without leading trivia takes one significant token. -/
theorem significant_advance_eq {c : Cursor} (h : c.skipTrivia = c) :
    c.advance.significant = c.significant.tail := by
  rcases eq_nil_or_cons h with rfl | ⟨t, rest, rfl, ht⟩
  · rfl
  · exact significant_advance ht

/-- A rest of the tokens has no more significant tokens than they have. -/
theorem significant_length_mono {c d : Cursor} (h : c <:+ d) :
    c.significant.length ≤ d.significant.length := by
  obtain ⟨e, rfl⟩ := h
  simp [significant]

/-- A cursor behind one without leading trivia is shorter exactly if it has less significant
tokens. -/
theorem length_lt_iff_significant {c d e : Cursor} (hc : c.skipTrivia = c) (hce : c <:+ e)
    (hde : d <:+ e) : d.length < c.length ↔ d.significant.length < c.significant.length := by
  constructor
  · intro hlt
    obtain ⟨f, rfl⟩ := List.suffix_of_suffix_length_le hde hce (Nat.le_of_lt hlt)
    rcases eq_nil_or_cons hc with h | ⟨t, rest, h, ht⟩
    · simp [h] at hlt
    · cases f with
      | nil => simp at hlt
      | cons u f =>
          obtain rfl : u = t := (List.cons.inj h).1
          rw [List.cons_append, significant, significant, List.filter_cons_of_pos (by simp [ht]),
            List.filter_append, List.length_cons, List.length_append]
          omega
  · intro hlt
    by_contra hle
    have := significant_length_mono (List.suffix_of_suffix_length_le hce hde (Nat.not_lt.1 hle))
    omega

/-- Of the cursors behind a given one, without leading trivia, each has significant tokens of its
own. -/
theorem eq_of_significant_eq {c d e : Cursor} (hc : c.skipTrivia = c) (hd : d.skipTrivia = d)
    (hce : c <:+ e) (hde : d <:+ e) (h : c.significant = d.significant) : c = d := by
  have hlength := congrArg List.length h
  have hcd := length_lt_iff_significant hc hce hde
  have hdc := length_lt_iff_significant hd hde hce
  have hle : c.length ≤ d.length := by omega
  exact (List.suffix_of_suffix_length_le hce hde hle).eq_of_length (by omega)

/-- Two cursors behind `c₀` and `d₀`, without leading trivia, whose significant tokens stand for
each other. -/
structure SameTokens (L : Likeness) (c₀ d₀ c d : Cursor) : Prop where
  left : c <:+ c₀
  right : d <:+ d₀
  trimmed : c.skipTrivia = c
  trimmed' : d.skipTrivia = d
  tokens : List.Forall₂ L.token c.significant d.significant

namespace SameTokens

variable {L : Likeness} {c₀ d₀ c d : Cursor}

/-- Both cursors are at the end, or both stand on tokens that are alike. -/
theorem nil_or_cons (h : SameTokens L c₀ d₀ c d) :
    (c = [] ∧ d = []) ∨ ∃ t rest u rest', c = t :: rest ∧ d = u :: rest' ∧
      t.isTrivia = false ∧ u.isTrivia = false ∧ L.token t u := by
  have htokens := h.tokens
  rcases eq_nil_or_cons h.trimmed with rfl | ⟨t, rest, rfl, ht⟩
  · refine .inl ⟨rfl, (significant_eq_nil_iff h.trimmed').1 ?_⟩
    exact List.forall₂_nil_left_iff.1 htokens
  · rcases eq_nil_or_cons h.trimmed' with rfl | ⟨u, rest', rfl, hu⟩
    · simp [significant, ht] at htokens
    · simp only [significant, ht, hu, Bool.not_false, List.filter_cons_of_pos,
        List.forall₂_cons] at htokens
      exact .inr ⟨t, rest, u, rest', rfl, rfl, ht, hu, htokens.1⟩

/-- The cursors behind the next tokens have the same tokens again. -/
theorem advance (h : SameTokens L c₀ d₀ c d) : SameTokens L c₀ d₀ c.advance d.advance where
  left := (advance_suffix c).trans h.left
  right := (advance_suffix d).trans h.right
  trimmed := skipTrivia_skipTrivia _
  trimmed' := skipTrivia_skipTrivia _
  tokens := by
    rw [significant_advance_eq h.trimmed, significant_advance_eq h.trimmed']
    have htokens := h.tokens
    revert htokens
    generalize c.significant = l
    generalize d.significant = l'
    rintro (_ | ⟨-, h⟩)
    exacts [.nil, h]

end SameTokens

end Cursor

/-- The simulation of cursors whose significant tokens are alike. It does not look at the depth
of parentheses. -/
def Simulation.ofLikeness (L : Likeness) (c₀ d₀ : Cursor) : Simulation where
  toLikeness := L
  rel _ := Cursor.SameTokens L c₀ d₀
  stop := Cursor.SameTokens L c₀ d₀
  stop_of_rel h := h
  trimmed h := ⟨h.trimmed, h.trimmed'⟩
  next := by
    intro n c d h
    rcases h.nil_or_cons with ⟨rfl, rfl⟩ | ⟨t, rest, u, rest', rfl, rfl, ht, hu, htu⟩
    · exact .inr ⟨nofun, nofun⟩
    · exact .inl ⟨t, u, Cursor.peek_cons rest ht, Cursor.peek_cons rest' hu, htu,
        fun _ _ => h.advance⟩
  length_lt_iff := by
    intro n m c d c' d' h h'
    rw [Cursor.length_lt_iff_significant h.trimmed h.left h'.left,
      Cursor.length_lt_iff_significant h.trimmed' h.right h'.right, h.tokens.length_eq,
      h'.tokens.length_eq]

/-- A rule that keeps the simulation of equal tokens gives the same on the significant tokens of
a cursor, and stops in front of the same one; it never goes back. -/
theorem Rule.runFrom_significant {α : Type} {A : α → α → Prop} {r : Rule α} {c : Cursor}
    (hr : (Simulation.ofLikeness .exact c c.significant).Obeys 0 0 A r r)
    (hA : ∀ a b, A a b → a = b) (hc : c.skipTrivia = c) :
    r.runFrom c.significant = ((r.runFrom c).1, (r.runFrom c).2.significant) ∧
      (r.runFrom c).2.skipTrivia = (r.runFrom c).2 := by
  have hbare := c.isBare_significant
  have hstart : Cursor.SameTokens .exact c c.significant c c.significant := by
    refine ⟨List.suffix_refl _, List.suffix_refl _, hc, hbare.trimmed, ?_⟩
    rw [hbare.significant_eq]
    exact List.forall₂_same.2 fun _ _ => rfl
  have hsame : ∀ {e f}, Cursor.SameTokens .exact c c.significant e f → f = e.significant := by
    intro e f h
    rw [← (hbare.of_suffix h.right).significant_eq]
    exact (forall₂_eq (fun _ _ => id) h.tokens).symm
  match r.runFrom c, r.runFrom c.significant, hr hstart with
  | _, _, .ok h hrel => exact ⟨by rw [hA _ _ h, hsame hrel], hrel.trimmed⟩
  | _, _, .error hstop => exact ⟨by rw [hsame hstop], hstop.trimmed⟩

/-- A statement is read from its significant tokens. -/
theorem Table.rule_significant {c : Cursor} (hc : c.skipTrivia = c) :
    Table.rule.runFrom c.significant
      = ((Table.rule.runFrom c).1, (Table.rule.runFrom c).2.significant) :=
  (Rule.runFrom_significant (Simulation.obeys_table _)
    (fun _ _ h => Prod.ext h.1.eq h.2) hc).1

/-- A type is read from its significant tokens. -/
theorem DataType.rule_significant {c : Cursor} (hc : c.skipTrivia = c) :
    DataType.rule.runFrom c.significant
        = ((DataType.rule.runFrom c).1, (DataType.rule.runFrom c).2.significant) ∧
      (DataType.rule.runFrom c).2.skipTrivia = (DataType.rule.runFrom c).2 :=
  Rule.runFrom_significant (Simulation.obeys_dataType _) (fun _ _ => id) hc

/-- A column is read from its significant tokens. -/
theorem Column.rule_significant {c : Cursor} (hc : c.skipTrivia = c) :
    Column.rule.runFrom c.significant
        = ((Column.rule.runFrom c).1, (Column.rule.runFrom c).2.significant) ∧
      (Column.rule.runFrom c).2.skipTrivia = (Column.rule.runFrom c).2 :=
  Rule.runFrom_significant (Simulation.obeys_column _) (fun _ _ => Column.Alike.eq) hc

/-- A key is read from its significant tokens. -/
theorem Key.rule_significant {c : Cursor} (hc : c.skipTrivia = c) :
    Key.rule.runFrom c.significant
        = ((Key.rule.runFrom c).1, (Key.rule.runFrom c).2.significant) ∧
      (Key.rule.runFrom c).2.skipTrivia = (Key.rule.runFrom c).2 :=
  Rule.runFrom_significant (Simulation.obeys_key _) (fun _ _ => Key.Alike.eq) hc

/-! ### Texts and their significant tokens -/

/-- The significant tokens of a text, as far as they could be read. -/
def significantTokens (text : String) : Cursor :=
  Cursor.significant (lex text).tokens

/-- The significant tokens of a text are a bare cursor. -/
theorem isBare_significantTokens (text : String) : (significantTokens text).IsBare :=
  Cursor.isBare_significant _

namespace Session

variable {α : Type} (text : String) (options : Options)

/-- A session starts without leading trivia. -/
theorem ofText_cursor_trimmed : (ofText text options).cursor.skipTrivia
    = (ofText text options).cursor :=
  Cursor.skipTrivia_skipTrivia _

/-- A session starts in front of all significant tokens of its text. -/
theorem ofText_cursor_significant : (ofText text options).cursor.significant
    = significantTokens text :=
  Cursor.significant_skipTrivia _

/-- A session answers with the result of a rule if the rule gives it at the cursor. -/
theorem run_eq_ok_iff {rule : Rule α} {s : Session} {a : α} :
    (s.run rule).1 = .ok a ↔ ∃ rest, rule.runFrom s.cursor = (.ok a, rest) := by
  rw [run]
  rcases rule.runFrom s.cursor with ⟨_ | b, rest⟩ <;> simp

end Session

/-- A text describes a table exactly if its significant tokens begin with the statement; the
comment is taken from the text behind the closing parenthesis. -/
theorem Table.ofText_eq_ok_iff_rule {text : String} {options : Options} {t : Table} :
    Table.ofText text options = .ok t ↔
      ∃ u close rest, Table.rule.runFrom (significantTokens text) = (.ok (u, close), rest) ∧
        t = { u with comment := (Session.ofText text options).commentBehind close } := by
  have hrule := Table.rule_significant (Session.ofText_cursor_trimmed text options)
  rw [Session.ofText_cursor_significant] at hrule
  rw [Table.ofText, Session.table, Session.run]
  rw [hrule]
  rcases Table.rule.runFrom (Session.ofText text options).cursor with ⟨e | ⟨u, close⟩, rest⟩
  · simp
  · simp [eq_comm]

/-- A text describes a column exactly if its significant tokens are a column definition. -/
theorem Column.ofText_eq_ok_iff_rule {text : String} {c : Column} :
    Column.ofText text = .ok c ↔
      Column.rule.runFrom (significantTokens text) = (.ok c, []) := by
  obtain ⟨hrule, htrimmed⟩ := Column.rule_significant (Session.ofText_cursor_trimmed text {})
  rw [Session.ofText_cursor_significant] at hrule
  rw [Column.ofText, Session.run_eq_ok_iff, hrule]
  simp only [Column.wholeRule, Rule.runFrom_bind_eq_ok_iff, Rule.runFrom_require_eq_ok_iff,
    Rule.runFrom_pure_eq_ok_iff]
  generalize Column.rule.runFrom (Session.ofText text {}).cursor = answer at htrimmed ⊢
  obtain ⟨e | d, stop⟩ := answer
  · simp
  simp only [Prod.mk.injEq, Except.ok.injEq, Cursor.significant_eq_nil_iff htrimmed,
    Matcher.run_atEnd_eq_some_iff]
  constructor
  · rintro ⟨rest, _, _, ⟨rfl, rfl⟩, -, _, ⟨hstop, rfl⟩, rfl, -⟩
    exact ⟨rfl, hstop⟩
  · rintro ⟨rfl, rfl⟩
    exact ⟨[], d, [], ⟨rfl, rfl⟩, (), [], ⟨rfl, rfl⟩, rfl, rfl⟩

end CreateTable
