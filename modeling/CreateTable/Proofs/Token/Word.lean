import CreateTable.Token.Lexer

/-!
# Runs of characters and words

A run of characters ends before a character that does not belong to it, so a text behind the run
can be replaced by another one that does not go on with it. For the words the characters above
U+FFFF take no part in the question whether an ASCII character belongs to one.

## Main statements

* `takeWhile_replace`, `takeWhile_take_replace`: a run and the text behind it.
* `isWordStart_of_ascii`, `isWordPart_of_ascii`: the ASCII characters that belong to words.
-/

namespace CreateTable

/-! ### Runs of characters -/

/-- A run of characters lies within its text. -/
theorem length_takeWhile_le (P : Char → Bool) (cs : List Char) :
    (cs.takeWhile P).length ≤ cs.length :=
  (List.takeWhile_prefix P).length_le

/-- A run among the next characters lies within its text. -/
theorem length_takeWhile_take_le (P : Char → Bool) (n : Nat) (cs : List Char) :
    ((cs.take n).takeWhile P).length ≤ cs.length :=
  Nat.le_trans (length_takeWhile_le P _) (List.length_take_le' n cs)

section

variable {P : Char → Bool} {p r s : List Char} (hs : ∀ d ∈ s.head?, P d = false)
include hs

/-- Where no character fits there is no run. -/
theorem takeWhile_eq_nil : s.takeWhile P = [] := by
  cases s with
  | nil => rfl
  | cons d tail => rw [List.takeWhile_cons, if_neg (by simp [hs d rfl])]

/-- A run that ends within `p` does not depend on the text behind `p`, as long as it does not go on
there. -/
theorem takeWhile_replace (h : ((p ++ r).takeWhile P).length ≤ p.length) :
    (p ++ s).takeWhile P = (p ++ r).takeWhile P := by
  induction p with
  | nil =>
      have hr : r.takeWhile P = [] := List.length_eq_zero_iff.1 (Nat.le_zero.1 h)
      rw [List.nil_append, List.nil_append, hr, takeWhile_eq_nil hs]
  | cons c p ih =>
      rw [List.cons_append, List.takeWhile_cons] at h
      rw [List.cons_append, List.cons_append, List.takeWhile_cons, List.takeWhile_cons]
      split
      · next hc =>
        rw [if_pos hc, List.length_cons, List.length_cons, Nat.add_le_add_iff_right] at h
        rw [ih h]
      · rfl

/-- Where no character fits, none fits among the next characters. -/
theorem forall_head?_take (m : Nat) : ∀ d ∈ (s.take m).head?, P d = false := by
  intro d hd
  rw [List.head?_take] at hd
  split at hd
  · cases hd
  · exact hs d hd

/-- A run among the next `m` characters does not depend on it, either. -/
theorem takeWhile_take_replace {m : Nat} (h : (((p ++ r).take m).takeWhile P).length ≤ p.length) :
    ((p ++ s).take m).takeWhile P = ((p ++ r).take m).takeWhile P := by
  have hle : (((p ++ r).take m).takeWhile P).length ≤ m :=
    Nat.le_trans (length_takeWhile_le P _) (List.length_take_le m _)
  rw [List.take_append] at h hle
  rw [List.take_append, List.take_append]
  refine takeWhile_replace (forall_head?_take hs _) ?_
  rw [List.length_take]
  omega

end

/-! ### Words -/

/-- Up to U+FFFF there is no character of the supplementary planes. -/
theorem Text.isSupplementaryAlphabetic_eq_false {c : Char} (h : c.toNat < 0x10000) :
    isSupplementaryAlphabetic c = false := by
  have hranges : ∀ range ∈ supplementaryAlphabetic, 0x10000 ≤ range.1 := by
    decide +kernel
  refine List.any_eq_false.2 fun range hrange => ?_
  have := hranges range hrange
  simp
  omega

/-- The ASCII characters that begin a word. -/
theorem isWordStart_of_ascii {c : Char} (h : c.toNat < 0x80) :
    isWordStart c = (c.isAlpha || c = '_' || c = '$' || c = '@') := by
  have hplane : Text.isSupplementaryAlphabetic c = false :=
    Text.isSupplementaryAlphabetic_eq_false (by omega)
  have hlow : decide (0x80 ≤ c.toNat) = false := decide_eq_false (by omega)
  rw [isWordStart, hplane, hlow, Bool.false_and, Bool.or_false, Bool.or_false]

/-- The ASCII characters that go on with a word. -/
theorem isWordPart_of_ascii {c : Char} (h : c.toNat < 0x80) :
    isWordPart c = (c.isAlpha || c = '_' || c = '$' || c = '@' || c.isDigit) := by
  rw [isWordPart, isWordStart_of_ascii h]

/-! ### Texts with which no word goes on -/

section

variable {rest : List Char} (hrest : ∀ d ∈ rest.head?, isWordPart d = false)
include hrest

/-- A text with which no word goes on begins with no character of a word. -/
theorem head?_ne_of_isWordPart {c : Char} (hc : isWordPart c = true) : rest.head? ≠ some c := by
  intro hhead
  rw [hrest c hhead] at hc
  cases hc

/-- A text with which no word goes on begins with no characters of a word at all. -/
theorem wordParts_eq_nil : wordParts rest = [] :=
  takeWhile_eq_nil hrest

end

end CreateTable
