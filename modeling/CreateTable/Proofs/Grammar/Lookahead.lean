import CreateTable.DataType

/-!
# Looking ahead

The checks of the grammar that look at a token without taking it are properties of its kind.

## Main definitions

* `Kind.word?`, `Kind.name?`: the text of an unquoted word, of any word.
* `Kind.isWord`, `Kind.isTypeName`: a given keyword, the name of a type.

## Main statements

* `Cursor.atWord_eq_any`, `Cursor.typeName_eq_any`: the checks as properties of a kind.
* `Cursor.peek_succ`: looking further ahead is looking behind the next token.
* `Matcher.run_word`: a keyword is read if it is next.
-/

namespace CreateTable

namespace Kind

/-- The text of an unquoted word. -/
def word? : Kind → Option String
  | .word v => some v
  | _ => none

/-- The text of a word with or without backticks, which can be a name. -/
def name? : Kind → Option String
  | .word v | .quotedWord v => some v
  | _ => none

/-- A name is a significant token. -/
theorem not_isTrivia_of_name? {k : Kind} {name : String} (h : k.name? = some name) :
    k.isTrivia = false := by
  cases k <;> first | rfl | cases h

/-- A name is no number. -/
theorem not_isNumber_of_name? {k : Kind} {name : String} (h : k.name? = some name) :
    k.isNumber = false := by
  cases k <;> first | rfl | cases h

/-- The kind is the unquoted word `w`, in any letter case. -/
def isWord (w : String) : Kind → Bool
  | .word v => Text.sameWord w v
  | _ => false

/-- A keyword is a significant token. -/
theorem not_isTrivia_of_isWord {k : Kind} {w : String} (h : k.isWord w = true) :
    k.isTrivia = false := by
  cases k <;> first | rfl | cases h

/-- The kind is an unquoted word that names a type. -/
def isTypeName : Kind → Bool
  | .word v => (TypeName.ofKeyword? v).isSome
  | _ => false

end Kind

namespace Cursor

/-- On a cursor that stands on no trivia, looking further ahead is looking behind the next
token. -/
theorem peek_succ {c : Cursor} (h : c.skipTrivia = c) (n : Nat) :
    c.peek (n + 1) = c.advance.peek n := by
  rw [peek, h, advance, peek_eq, peek_eq, significant_skipTrivia]

/-- The word that is ahead is the word of the token that is ahead. -/
theorem peekWord_eq_bind (c : Cursor) (n : Nat) :
    c.peekWord n = (c.peek n).bind (·.kind.word?) := by
  rw [peekWord]
  rcases c.peek n with _ | ⟨k, l⟩
  · rfl
  · cases k <;> rfl

/-- Whether a keyword is ahead is a matter of the kind of the token that is ahead. -/
theorem atWord_eq_any (c : Cursor) (n : Nat) (w : String) :
    c.atWord n w = (c.peek n).any (·.kind.isWord w) := by
  rw [atWord, peekWord_eq_bind]
  rcases c.peek n with _ | ⟨k, l⟩
  · rfl
  · cases k <;> rfl

/-- Whether the name of a type is ahead is a matter of the kind of the token that is ahead. -/
theorem typeName_eq_any (c : Cursor) (n : Nat) :
    ((c.peekWord n).bind TypeName.ofKeyword?).isSome = (c.peek n).any (·.kind.isTypeName) := by
  rw [peekWord_eq_bind]
  rcases c.peek n with _ | ⟨k, l⟩
  · rfl
  · cases k <;> rfl

/-- Looking further ahead for a word is looking for it behind the next token. -/
theorem peekWord_succ {c : Cursor} (h : c.skipTrivia = c) (n : Nat) :
    c.peekWord (n + 1) = c.advance.peekWord n := by
  rw [peekWord_eq_bind, peekWord_eq_bind, peek_succ h]

/-- Looking further ahead for a mark is looking for it behind the next token. -/
theorem atKind_succ {c : Cursor} (h : c.skipTrivia = c) (n : Nat) (k : Kind) :
    c.atKind (n + 1) k = c.advance.atKind n k := by
  rw [atKind, atKind, peek_succ h]

end Cursor

/-- A keyword is read exactly if it is next. -/
theorem Matcher.run_word (w : String) (c : Cursor) :
    (word w).run c = if c.atWord 0 w then some ((), c.advance) else none := by
  rw [word, run_map, writtenWord, run_token, Cursor.atWord_eq_any]
  rcases c.peek 0 with _ | ⟨kind, start⟩
  · rfl
  · cases kind with
    | word v =>
        by_cases hv : Text.sameWord w v = true <;> simp [Kind.isWord, hv]
    | _ => rfl

end CreateTable
