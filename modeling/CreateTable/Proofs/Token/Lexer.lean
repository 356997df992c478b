import CreateTable.Proofs.Text.Location
import CreateTable.Proofs.Token.Rest
import CreateTable.Proofs.Token.Scan

/-!
# Tokens and their places in the text

The tokens of a text follow each other in the text, each at its location, up to the place where
the text breaks off. A closing parenthesis among them is a character of the text, and the tokens
before it are those of every text that agrees up to there.

## Main statements

* `lexFrom_cons`: the tokens of a text from its first one.
* `lex_eq_of_scan`: a text that is one token.
* `exists_cut_of_suffix`: the last tokens of a text are the tokens of its last part.
* `exists_cut_of_breakdown`: the place where a text breaks off.
* `exists_front_of_lexFrom`: the part of a text that its tokens cover.
* `exists_paren_of_lexFrom`: a closing parenthesis cuts the text and its tokens.
-/

namespace CreateTable

open Text

/-- Behind its first token a text is cut from the location that this token leads to. -/
theorem lexFrom_cons {l : Location} {c : Char} {cs : List Char} {k : Kind} {n : Nat}
    (h : scan c cs = .ok (k, n)) :
    lexFrom l (c :: cs)
      = ⟨⟨k, l⟩ :: (lexFrom (l.afterAll (c :: cs.take (n - 1))) (cs.drop (n - 1))).tokens,
          (lexFrom (l.afterAll (c :: cs.take (n - 1))) (cs.drop (n - 1))).breakdown⟩ := by
  rw [lexFrom]
  simp only [h]

/-- A text that one token takes to its end is that token. -/
theorem lex_eq_of_scan {text : String} {c : Char} {cs : List Char} {k : Kind}
    (htext : text.toList = c :: cs) (h : scan c cs = .ok (k, cs.length + 1)) :
    lex text = ⟨[⟨k, .start⟩], none⟩ := by
  rw [lex, htext, lexFrom_cons h, Nat.add_sub_cancel, List.drop_length, lexFrom]

/-- The first token of a text starts where the text does. -/
theorem start_eq_of_lexFrom {l : Location} {cs : List Char} {t : Token} {ts : List Token}
    (h : (lexFrom l cs).tokens = t :: ts) : t.start = l := by
  fun_cases lexFrom l cs with
  | case1 | case2 => simp [lexFrom, *] at h
  | case3 c cs k n hscan =>
      rw [lexFrom_cons hscan] at h
      rw [← (List.cons.inj h).1]

/-- The last tokens of a text are the tokens of its last part, which breaks off where the text
does. -/
theorem exists_cut_of_suffix {l : Location} {cs : List Char} {ts : List Token}
    (h : ts <:+ (lexFrom l cs).tokens) :
    ∃ before after, cs = before ++ after ∧
      lexFrom (l.afterAll before) after = ⟨ts, (lexFrom l cs).breakdown⟩ := by
  fun_induction lexFrom l cs with
  | case1 l =>
      obtain rfl := List.suffix_nil.1 h
      exact ⟨[], [], rfl, by simp [lexFrom, Location.afterAll]⟩
  | case2 l c cs fault n hscan =>
      obtain rfl := List.suffix_nil.1 h
      exact ⟨[], c :: cs, rfl, by simp [lexFrom, Location.afterAll, hscan]⟩
  | case3 l c cs k n hscan rest ih =>
      -- the cut lies before the first token or behind it
      rcases List.suffix_cons_iff.1 h with rfl | h
      · exact ⟨[], c :: cs, rfl, lexFrom_cons hscan⟩
      · obtain ⟨before, after, hcs, hafter⟩ := ih h
        refine ⟨c :: cs.take (n - 1) ++ before, after, ?_, ?_⟩
        · rw [List.append_assoc, ← hcs, List.cons_append, List.take_append_drop]
        · rw [Location.afterAll_append, hafter]

/-- A text breaks off at a place in the text. -/
theorem exists_cut_of_breakdown {l : Location} {cs : List Char} {b : Breakdown}
    (h : (lexFrom l cs).breakdown = some b) :
    ∃ before after, cs = before ++ after ∧ b.location = l.afterAll before := by
  fun_induction lexFrom l cs with
  | case1 => cases h
  | case2 l c cs fault n hscan =>
      cases h
      exact ⟨(c :: cs).take n, (c :: cs).drop n, (List.take_append_drop _ _).symm, rfl⟩
  | case3 l c cs k n hscan rest ih =>
      obtain ⟨before, after, hcs, hlocation⟩ := ih h
      refine ⟨c :: cs.take (n - 1) ++ before, after, ?_, ?_⟩
      · rw [List.append_assoc, ← hcs, List.cons_append, List.take_append_drop]
      · rw [Location.afterAll_append, hlocation]

/-- A text that is cut off behind a token keeps the token and what is left behind it. -/
theorem take_drop_append {cs front behind : List Char} {n : Nat} (h : cs.drop n = front ++ behind) :
    (cs.take n ++ front).take n = cs.take n ∧ (cs.take n ++ front).drop n = front := by
  rcases Nat.lt_or_ge cs.length n with hlt | hge
  · rw [List.drop_eq_nil_of_le hlt.le] at h
    obtain ⟨rfl, rfl⟩ := List.append_eq_nil_iff.1 h.symm
    rw [List.append_nil, List.take_of_length_le hlt.le]
    exact ⟨List.take_of_length_le hlt.le, List.drop_eq_nil_of_le hlt.le⟩
  · have hlength : (cs.take n).length = n := List.length_take_of_le hge
    exact ⟨List.take_left' hlength, List.drop_left' hlength⟩

/-- A token in front of others is read alike when the text is cut off behind them. -/
theorem scan_take_append {c : Char} {cs front behind : List Char} {k : Kind} {n : Nat}
    (h : scan c cs = .ok (k, n)) (hcs : cs.drop (n - 1) = front ++ behind) :
    scan c (cs.take (n - 1) ++ front) = .ok (k, n) := by
  have hsplit : cs = (cs.take (n - 1) ++ front) ++ behind := by
    rw [List.append_assoc, ← hcs, List.take_append_drop]
  rcases Nat.lt_or_ge cs.length (n - 1) with hlt | hge
  · -- the token would reach over the end of the text
    rw [List.drop_eq_nil_of_le hlt.le] at hcs
    obtain ⟨rfl, rfl⟩ := List.append_eq_nil_iff.1 hcs.symm
    rwa [List.append_nil, List.take_of_length_le hlt.le]
  · rw [hsplit] at h
    refine scan_of_append h ?_
    rw [List.length_append, List.length_take]
    omega

/-- The tokens of a text cover a part of it, which is cut into them to its end; behind it a text
that breaks off begins with the broken token. -/
theorem exists_front_of_lexFrom (l : Location) (cs : List Char) :
    ∃ front behind, cs = front ++ behind ∧ lexFrom l front = ⟨(lexFrom l cs).tokens, none⟩ ∧
      (∀ l', (lexFrom l' behind).tokens = []) ∧
      (behind = [] ↔ (lexFrom l cs).breakdown = none) := by
  fun_induction lexFrom l cs with
  | case1 => exact ⟨[], [], rfl, by rw [lexFrom], fun l' => by rw [lexFrom], by simp⟩
  | case2 l c cs fault n hscan =>
      refine ⟨[], c :: cs, rfl, by rw [lexFrom], fun l' => ?_, by simp⟩
      rw [lexFrom]
      simp only [hscan]
  | case3 l c cs k n hscan rest ih =>
      obtain ⟨front, behind, hcs, hfront, hbehind, hend⟩ := ih
      refine ⟨c :: (cs.take (n - 1) ++ front), behind, ?_, ?_, hbehind, hend⟩
      · rw [List.cons_append, List.append_assoc, ← hcs, List.take_append_drop]
      · obtain ⟨htake, hdrop⟩ := take_drop_append hcs
        rw [lexFrom_cons (scan_take_append hscan hcs), htake, hdrop, hfront]

/-- The parenthesis is a token of its own. -/
theorem lexFrom_rightParen (l : Location) (tail : List Char) :
    (lexFrom l (')' :: tail)).tokens = ⟨.rightParen, l⟩ :: (lexFrom (l.after ')') tail).tokens := by
  have hscan : scan ')' tail = .ok (.rightParen, 1) := scan_mark (by simp) tail
  rw [lexFrom_cons hscan]
  rfl

/-- A token before a parenthesis is read alike whatever stands behind the parenthesis. -/
theorem lexFrom_token_append {l : Location} {c : Char} {cs p tail : List Char} {k : Kind} {n : Nat}
    (h : scan c cs = .ok (k, n)) (hcs : cs.drop (n - 1) = p ++ ')' :: tail) (tail' : List Char) :
    (lexFrom l (c :: (cs.take (n - 1) ++ (p ++ ')' :: tail')))).tokens
      = ⟨k, l⟩ :: (lexFrom (l.afterAll (c :: cs.take (n - 1))) (p ++ ')' :: tail')).tokens := by
  have hsplit : cs = (cs.take (n - 1) ++ p) ++ ')' :: tail := by
    rw [List.append_assoc, ← hcs, List.take_append_drop]
  have hlength : (cs.take (n - 1)).length = n - 1 := by
    have hdrop := congrArg List.length hcs
    rw [List.length_drop, List.length_append, List.length_cons] at hdrop
    rw [List.length_take]
    omega
  have hle : n ≤ (cs.take (n - 1) ++ p).length + 1 := by
    rw [List.length_append]
    omega
  rw [hsplit] at h
  have hscan : scan c (cs.take (n - 1) ++ p ++ ')' :: tail') = .ok (k, n) :=
    scan_stable h hle tail'
  rw [List.append_assoc] at hscan
  rw [lexFrom_cons hscan, List.take_left' hlength, List.drop_left' hlength]

/-- A closing parenthesis among the tokens of a text stands in the text, and the tokens before it
are those of every text that agrees up to the parenthesis. -/
theorem exists_paren_of_lexFrom {l : Location} {cs : List Char} {ts post : List Token}
    {close : Token} (h : (lexFrom l cs).tokens = ts ++ close :: post)
    (hclose : close.kind = .rightParen) :
    ∃ p tail, cs = p ++ ')' :: tail ∧ close.start = l.afterAll p ∧
      ∀ tail', (lexFrom l (p ++ ')' :: tail')).tokens
        = ts ++ close :: (lexFrom (close.start.after ')') tail').tokens := by
  fun_induction lexFrom l cs generalizing ts with
  | case1 => simp at h
  | case2 => simp at h
  | case3 l c cs k n hscan rest =>
      rename_i ih
      cases ts with
      | nil =>
          obtain ⟨rfl, -⟩ := List.cons.inj h
          obtain rfl : k = .rightParen := hclose
          obtain ⟨rfl, rfl⟩ := eq_of_scan_eq_rightParen hscan
          exact ⟨[], cs, rfl, rfl, lexFrom_rightParen l⟩
      | cons t ts =>
          obtain ⟨rfl, hrest⟩ := List.cons.inj h
          obtain ⟨p, tail, hcs, hstart, htail⟩ := ih hrest
          refine ⟨c :: (cs.take (n - 1) ++ p), tail, ?_, ?_, fun tail' => ?_⟩
          · rw [List.cons_append, List.append_assoc, ← hcs, List.take_append_drop]
          · rw [hstart, ← Location.afterAll_append, List.cons_append]
          · rw [List.cons_append, List.append_assoc, lexFrom_token_append hscan hcs, htail,
              List.cons_append]

end CreateTable
