import CreateTable.Proofs.Token.Number
import CreateTable.Token.Lexer
import Mathlib.Data.List.Find

/-!
# Characters that end a token

Words, placeholders and operators go on as long as a character fits. A character that fits none of
them, nor a number, ends each of them, and a text that begins with such a character, or that is
empty, has no say in the token in front of it.

In the statements on tokens the text is `p ++ r`, what is read of it lies within `p`, and `s` takes
the place of `r`.

## Main definitions

* `EndsToken`: the characters that go on with no word, no number, no placeholder and no operator.
* `StandsApart`: the texts that go on with no token.

## Main statements

* `endsToken_rightParen`, `endsToken_lineFeed`: two such characters.
* `StandsApart.scanWord_replace`, `StandsApart.scanPlaceholder_replace`,
  `StandsApart.scanPlain_replace`: tokens that end where no character fits any more.
-/

namespace CreateTable

/-- A character that **ends a token**: it ends every number and every word, it is no digit of a
placeholder, and it stands in no operator but perhaps itself. -/
structure EndsToken (d : Char) : Prop extends EndsNumber d where
  not_isNumeric : Text.isNumeric d = false
  operators : ∀ s ∈ operators, d ∉ s.1.toList ∨ s.1.toList = [d]

/-- A closing parenthesis ends every token. -/
theorem endsToken_rightParen : EndsToken ')' where
  not_isWordPart := by
    rw [isWordPart_of_ascii (by decide)]
    rfl
  ne_sign := by decide
  not_isNumeric := by decide
  operators := by decide

/-- A line feed ends every token. -/
theorem endsToken_lineFeed : EndsToken '\n' where
  not_isWordPart := by
    rw [isWordPart_of_ascii (by decide)]
    rfl
  ne_sign := by decide
  not_isNumeric := by decide
  operators := by decide

/-- A text **stands apart** from a token in front of it: it begins with no character that could go
on with the token or make another token of its last character. -/
def StandsApart (s : List Char) : Prop :=
  ∀ d ∈ s.head?, EndsToken d ∧ d ∉ ['\'', '"', '\x60', '-', '*']

/-- The end of a text stands apart. -/
theorem standsApart_nil : StandsApart [] :=
  nofun

/-- A text that begins with a closing parenthesis stands apart. -/
theorem standsApart_rightParen (tail : List Char) : StandsApart (')' :: tail) := by
  rintro d ⟨⟩
  exact ⟨endsToken_rightParen, by decide⟩

/-- A text that begins with a line feed stands apart. -/
theorem standsApart_lineFeed (tail : List Char) : StandsApart ('\n' :: tail) := by
  rintro d ⟨⟩
  exact ⟨endsToken_lineFeed, by decide⟩

variable {p r s : List Char} {k : Kind} {n : Nat}

namespace StandsApart

variable (hs : StandsApart s)
include hs

/-- A text that stands apart begins with no character that makes a token with the one before. -/
theorem head?_ne {e : Char} (he : e ∈ ['\'', '"', '\x60', '-', '*']) : s.head? ≠ some e :=
  fun hhead => (hs e hhead).2 he

/-- A text that stands apart ends every number. -/
theorem endsNumber : ∀ d ∈ s.head?, EndsNumber d :=
  fun d hd => (hs d hd).1.toEndsNumber

/-- A character that makes a token with the one in front of it is one of `p`. -/
theorem exists_cons {e : Char} {cs : List Char} (he : e ∈ ['\'', '"', '\x60', '-', '*'])
    (h : p ++ s = e :: cs) : ∃ q, p = e :: q ∧ cs = q ++ s := by
  cases p with
  | nil => exact absurd (congrArg List.head? h) (hs.head?_ne he)
  | cons c q =>
      obtain ⟨rfl, rfl⟩ := List.cons.inj h
      exact ⟨q, rfl, rfl⟩

/-- A word that ends within `p` is the same with another text behind `p`. -/
theorem scanWord_replace {lead : List Char} (h : scanWord lead (p ++ r) = .ok (k, n))
    (hn : n ≤ lead.length + p.length) : scanWord lead (p ++ s) = .ok (k, n) := by
  have hparts : wordParts (p ++ s) = wordParts (p ++ r) := by
    refine takeWhile_replace (fun d hd => (hs d hd).1.not_isWordPart) ?_
    obtain ⟨-, rfl⟩ := Prod.mk.inj (Except.ok.inj h)
    exact Nat.add_le_add_iff_left.1 hn
  rw [scanWord, hparts]
  exact h

/-- A placeholder that ends within `p` is the same with another text behind `p`. -/
theorem scanPlaceholder_replace (h : scanPlaceholder (p ++ r) = .ok (k, n))
    (hn : n ≤ p.length + 1) : scanPlaceholder (p ++ s) = .ok (k, n) := by
  have hdigits : (p ++ s).takeWhile Text.isNumeric = (p ++ r).takeWhile Text.isNumeric := by
    refine takeWhile_replace (fun d hd => (hs d hd).1.not_isNumeric) ?_
    obtain ⟨-, rfl⟩ := Prod.mk.inj (Except.ok.inj h)
    exact Nat.add_le_add_iff_right.1 hn
  rw [scanPlaceholder, hdigits]
  exact h

/-- An operator that begins a text begins its first part, if that has a character at all. -/
theorem isPrefixOf_operator {o : String × Kind} (ho : o ∈ operators) {c : Char}
    (h : o.1.toList.isPrefixOf (c :: (p ++ s)) = true) : o.1.toList <+: c :: p := by
  rw [List.isPrefixOf_iff_prefix, ← List.cons_append] at h
  rcases List.prefix_or_prefix_of_prefix h (List.prefix_append _ s) with hpart | ⟨t, hlist⟩
  · exact hpart
  · rw [← hlist, List.prefix_append_right_inj] at h
    cases t with
    | nil => exact ⟨[], by rw [← hlist, List.append_nil, List.append_nil]⟩
    | cons d t =>
        -- the next character is part of no operator but the one that it is alone
        obtain ⟨tail, rfl⟩ := h
        rcases (hs d rfl).1.operators o ho with hd | hd
        · exact absurd (by simp [← hlist]) hd
        · simp [← hlist] at hd

/-- An operator that begins `p` and a text that stands apart begins `p` and any text. -/
theorem isPrefixOf_replace {o : String × Kind} (ho : o ∈ operators) {c : Char}
    (h : o.1.toList.isPrefixOf (c :: (p ++ s)) = true) :
    o.1.toList.isPrefixOf (c :: (p ++ r)) = true := by
  rw [List.isPrefixOf_iff_prefix, ← List.cons_append]
  exact (hs.isPrefixOf_operator ho h).trans (List.prefix_append _ _)

/-- An operator that lies within `p` is the same with another text behind `p`. -/
theorem operator?_replace {c : Char} (h : operator? (c :: (p ++ r)) = some (k, n))
    (hn : n ≤ p.length + 1) : operator? (c :: (p ++ s)) = some (k, n) := by
  obtain ⟨o, hfind, heq⟩ := Option.map_eq_some_iff.1 h
  obtain ⟨ho, before, after, hoperators, hbefore⟩ := List.find?_eq_some_iff_append.1 hfind
  obtain ⟨-, rfl⟩ := Prod.mk.inj heq
  refine Option.map_eq_some_iff.2 ⟨o, List.find?_eq_some_iff_append.2 ⟨?_, before, after,
    hoperators, fun e he => ?_⟩, heq⟩
  · rw [List.isPrefixOf_iff_prefix, ← List.cons_append] at ho ⊢
    have hpart : o.1.toList <+: c :: p := by
      refine List.prefix_of_prefix_length_le ho (List.prefix_append _ r) ?_
      rwa [String.length_toList]
    exact hpart.trans (List.prefix_append _ _)
  · -- an earlier one would fit the other text, too
    have hother := hbefore e he
    rw [Bool.not_eq_true', ← Bool.not_eq_true] at hother ⊢
    have hmem : e ∈ operators := hoperators ▸ List.mem_append_left _ he
    exact fun hfit => hother (hs.isPrefixOf_replace hmem hfit)

/-- Where no operator begins, none begins with another text behind `p`, either. -/
theorem operator?_eq_none_replace {c : Char} (h : operator? (c :: (p ++ r)) = none) :
    operator? (c :: (p ++ s)) = none := by
  rw [operator?, Option.map_eq_none_iff, List.find?_eq_none] at h ⊢
  exact fun e he hfit => h e he (hs.isPrefixOf_replace he hfit)

/-- A word, an operator or a character alone is the same with another text behind `p`. -/
theorem scanPlain_replace {c : Char} (h : scanPlain c (p ++ r) = .ok (k, n))
    (hn : n ≤ p.length + 1) : scanPlain c (p ++ s) = .ok (k, n) := by
  rw [scanPlain] at h ⊢
  split at h
  · next hc =>
    rw [if_pos hc]
    exact hs.scanWord_replace h (by simpa [Nat.add_comm] using hn)
  · next hc =>
    rw [if_neg hc, ← h]
    cases hoperator : operator? (c :: (p ++ r)) with
    | none => rw [hs.operator?_eq_none_replace hoperator]
    | some x =>
        rw [hoperator, Option.getD_some] at h
        obtain rfl := Except.ok.inj h
        rw [hs.operator?_replace hoperator hn]

end StandsApart

end CreateTable
