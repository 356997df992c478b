import CreateTable.Proofs.Grammar.Index
import CreateTable.Session

/-!
# Looking ahead and taking

A phrase can be read in two ways: look ahead at all of its words and then take as many tokens, or
take one word after the other and go back if one is missing. Both give the same, since the token
that is so many places ahead is the next one when so many tokens were taken, wherever trivia stand
between them.

## Main definitions

* `Cursor.IsBehind`: the cursor behind a number of significant tokens.
* `Cursor.atPhrase`: the words of a phrase are ahead.

## Main statements

* `Cursor.peek_iterate_advance`: looking ahead is looking at the next token later on.
* `Cursor.isBehind_iterate_advance`: what is taken with a number of tokens.
* `Cursor.atPhrase_iff_spells`: a phrase is ahead when the next significant tokens spell it.
* `Matcher.run_phrase_eq_ite`: a phrase is read by looking ahead.
* `Session.lookahead_agrees_with_taking`: all this for the position of a session among any tokens.
-/

namespace CreateTable

namespace Cursor

variable {c : Cursor}

/-- The cursor `rest` is **behind** the first `k` significant tokens of `c`, all if there are less,
and behind the trivia that follow them. -/
structure IsBehind (k : Nat) (c rest : Cursor) : Prop where
  exists_taken : ∃ taken, c = taken ++ rest ∧ taken.significant = c.significant.take k
  trimmed : rest.skipTrivia = rest

/-- The words `ws` are ahead, each at its place. -/
def atPhrase (c : Cursor) (ws : List String) : Bool :=
  ws.zipIdx.all fun (w, i) => c.atWord i w

/-! ### Taking tokens -/

/-- The significant tokens of two rows are those of the one and then those of the other. -/
theorem significant_append (c d : Cursor) :
    significant (c ++ d) = c.significant ++ d.significant :=
  List.filter_append ..

/-- No number of steps leaves the cursor in front of trivia. -/
theorem iterate_advance_trimmed (h : c.skipTrivia = c) (k : Nat) :
    skipTrivia (advance^[k] c) = advance^[k] c := by
  cases k with
  | zero => exact h
  | succ k =>
      rw [Function.iterate_succ_apply']
      exact skipTrivia_skipTrivia _

/-- With every step one significant token is taken. -/
theorem significant_iterate_advance (h : c.skipTrivia = c) (k : Nat) :
    significant (advance^[k] c) = c.significant.drop k := by
  induction k with
  | zero => rfl
  | succ k ih =>
      rw [Function.iterate_succ_apply', significant_advance_eq (iterate_advance_trimmed h k), ih,
        List.tail_drop]

/-- Behind some tokens, looking ahead is looking further ahead in front of them. -/
theorem peek_iterate_advance (h : c.skipTrivia = c) (k n : Nat) :
    peek (advance^[k] c) n = c.peek (k + n) := by
  rw [peek_eq, peek_eq, significant_iterate_advance h, List.getElem?_drop]

/-- A cursor that stands on no trivia stands on the next significant token. -/
theorem head?_eq_peek (h : c.skipTrivia = c) : c.head? = c.peek 0 := by
  rw [peek, h]

/-- Steps lead to a rest of the tokens. -/
theorem iterate_advance_suffix (k : Nat) (c : Cursor) : advance^[k] c <:+ c := by
  induction k generalizing c with
  | zero => exact List.suffix_refl c
  | succ k ih => exact (ih c.advance).trans (advance_suffix c)

/-- With `k` tokens just the trivia behind them are taken. -/
theorem isBehind_iterate_advance (h : c.skipTrivia = c) (k : Nat) :
    IsBehind k c (advance^[k] c) := by
  refine ⟨?_, iterate_advance_trimmed h k⟩
  obtain ⟨taken, htaken⟩ := iterate_advance_suffix k c
  refine ⟨taken, htaken.symm, ?_⟩
  have hsplit : c.significant = significant taken ++ c.significant.drop k := by
    rw [← significant_iterate_advance h, ← significant_append, htaken]
  rw [← List.append_left_inj (c.significant.drop k), ← hsplit, List.take_append_drop]

/-- A cursor that is behind `k` significant tokens is the one behind `k` steps. -/
theorem eq_iterate_advance {d : Cursor} {k : Nat} (hc : c.skipTrivia = c) (hd : d.skipTrivia = d)
    (hdc : d <:+ c) (h : d.significant = c.significant.drop k) : d = advance^[k] c := by
  rw [← significant_iterate_advance hc] at h
  exact eq_of_significant_eq hd (iterate_advance_trimmed hc k) hdc (iterate_advance_suffix k c) h

/-! ### Phrases -/

/-- The phrase without words is always ahead. -/
@[simp]
theorem atPhrase_nil (c : Cursor) : c.atPhrase [] = true := rfl

/-- Looking further ahead for a keyword is looking for it behind the next token. -/
theorem atWord_succ (h : c.skipTrivia = c) (n : Nat) (w : String) :
    c.atWord (n + 1) w = c.advance.atWord n w := by
  rw [atWord, atWord, peekWord_succ h]

/-- The words of a phrase are ahead if the first one is next and the others are behind it. -/
theorem atPhrase_cons (h : c.skipTrivia = c) (w : String) (ws : List String) :
    c.atPhrase (w :: ws) = (c.atWord 0 w && c.advance.atPhrase ws) := by
  simp only [atPhrase, List.zipIdx_cons, List.all_cons, List.zipIdx_succ, List.all_map,
    Function.comp_def, Nat.zero_add, atWord_succ h]

/-- A phrase is ahead exactly if the next significant tokens spell it. -/
theorem atPhrase_iff_spells (h : c.skipTrivia = c) (ws : List String) :
    c.atPhrase ws = true ↔ Spells ws (c.significant.take ws.length) := by
  induction ws generalizing c with
  | nil => simp [Spells]
  | cons w ws ih =>
      have hnext : c.advance.skipTrivia = c.advance := skipTrivia_skipTrivia _
      rw [atPhrase_cons h, Bool.and_eq_true, ih hnext, significant_advance_eq h, atWord_eq_any,
        peek_eq, Spells, Spells]
      cases c.significant with
      | nil => simp
      | cons t ts => simp

end Cursor

namespace Matcher

/-- A phrase is read exactly if all of its words are ahead, and then as many tokens are taken. -/
theorem run_phrase_eq_ite {c : Cursor} (h : c.skipTrivia = c) (ws : List String) :
    (phrase ws).run c
      = if c.atPhrase ws then some ((), Cursor.advance^[ws.length] c) else none := by
  induction ws generalizing c with
  | nil => rfl
  | cons w ws ih =>
      rw [phrase, run_bind, run_word, Cursor.atPhrase_cons h]
      cases hword : c.atWord 0 w with
      | false => rfl
      | true => exact ih (Cursor.skipTrivia_skipTrivia _)

end Matcher

namespace Session

variable {s : Session}

/-- **Looking ahead agrees with taking tokens.** Let a session stand at a position of a row of any
tokens, but not on trivia. Behind the next token it sees one place ahead what it saw two places
ahead before, and so on; with each token it takes, it moves to the next significant one or to the
end; and it reads a phrase exactly if the significant tokens that come next are its words, takes
just these tokens and the trivia behind them then, and stays as it was otherwise. -/
theorem lookahead_agrees_with_taking {tokens : List Token} {position : Nat}
    (hcursor : Cursor.from? tokens position = some s.cursor)
    (htrimmed : ∀ t, tokens[position]? = some t → t.isTrivia = false) :
    (∀ n, s.cursor.advance.peek n = s.cursor.peek (n + 1)) ∧
    (∀ k, let target := Move.runAll tokens position (.replicate k .advance)
      Cursor.from? tokens target = some (Cursor.advance^[k] s.cursor) ∧
      Cursor.IsBehind k s.cursor (Cursor.advance^[k] s.cursor) ∧
      tokens[target]? = s.cursor.peek k) ∧
    (∀ ws, (s.cursor.atPhrase ws = true ↔
        Cursor.Spells ws (s.cursor.significant.take ws.length)) ∧
      s.allow (Matcher.phrase ws) = if s.cursor.atPhrase ws
        then (some (), { s with cursor := Cursor.advance^[ws.length] s.cursor })
        else (none, s)) := by
  obtain ⟨hle, hdrop⟩ := Cursor.from?_eq_some_iff.1 hcursor
  have hstands : s.cursor.skipTrivia = s.cursor := by
    refine Cursor.trimmed_of_head? fun t ht => htrimmed t ?_
    rw [← List.head?_drop, ← hdrop]
    exact ht
  refine ⟨fun n => (Cursor.peek_succ hstands n).symm, fun k => ?_, fun ws => ⟨?_, ?_⟩⟩
  · have htarget := Move.from?_advances hcursor k
    refine ⟨htarget, Cursor.isBehind_iterate_advance hstands k, ?_⟩
    have hrest := (Cursor.from?_eq_some_iff.1 htarget).2
    rw [← List.head?_drop, ← hrest, Cursor.head?_eq_peek (Cursor.iterate_advance_trimmed hstands k),
      Cursor.peek_iterate_advance hstands, Nat.add_zero]
  · exact Cursor.atPhrase_iff_spells hstands ws
  · rw [allow, Matcher.run_phrase_eq_ite hstands]
    cases s.cursor.atPhrase ws <;> rfl

/-- A phrase in other letter case with a comment between its words, in front of a comma. -/
theorem lookahead_agrees_with_taking_comment :
    let tokens : List Token := [⟨.comment, ⟨1, 1⟩⟩, ⟨.word "Not", ⟨1, 5⟩⟩, ⟨.blank, ⟨1, 8⟩⟩,
      ⟨.comment, ⟨1, 9⟩⟩, ⟨.word "NULL", ⟨1, 13⟩⟩, ⟨.blank, ⟨1, 17⟩⟩, ⟨.comma, ⟨1, 18⟩⟩]
    let s : Session := ⟨⟨"", ⟨tokens, none⟩⟩, {}, tokens.drop 1⟩
    Cursor.from? tokens 1 = some s.cursor ∧
    (∀ t, tokens[1]? = some t → t.isTrivia = false) ∧
    s.cursor.advance.peek 1 = s.cursor.peek 2 ∧
    tokens[Move.runAll tokens 1 (.replicate 2 .advance)]? = some ⟨.comma, ⟨1, 18⟩⟩ ∧
    s.allow (Matcher.phrase ["not", "null"]) = (some (), { s with cursor := tokens.drop 6 }) ∧
    s.allow (Matcher.phrase ["not", "null", "null"]) = (none, s) := by
  intro tokens s
  have hcursor : Cursor.from? tokens 1 = some s.cursor := rfl
  have htrimmed : ∀ t, tokens[1]? = some t → t.isTrivia = false := by
    rintro _ ⟨⟩
    rfl
  obtain ⟨hahead, htaking, hphrase⟩ := lookahead_agrees_with_taking hcursor htrimmed
  refine ⟨hcursor, htrimmed, hahead 1, ?_, ?_, ?_⟩
  · exact (htaking 2).2.2
  · rw [(hphrase ["not", "null"]).2]
    decide
  · rw [(hphrase ["not", "null", "null"]).2]
    decide

end Session

end CreateTable
