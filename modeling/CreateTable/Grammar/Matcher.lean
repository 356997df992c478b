import CreateTable.Text.AsciiCase
import CreateTable.Token.Basic

/-!
# Cursors and matchers

A cursor is what is left of the tokens of a text. It stands on a significant token or at the end:
whoever takes a token also takes the trivia behind it, so that no rule of the grammar meets
trivia.

A matcher reads an optional part of a statement: it either takes the part and gives what it read,
or takes nothing. Alternatives start from the same token, and a sequence that fails half-way
gives back what it took.

## Main definitions

* `Cursor.ofTokens`: the cursor at the first significant token.
* `Cursor.significant`: the significant tokens that are left.
* `Cursor.peek`: the significant token a number of places ahead.
* `Cursor.advance`: the cursor behind the next token and the trivia that follow it.
* `Matcher`: partial functions from a cursor to a result and the cursor behind it.
* `Matcher.word`, `Matcher.phrase`, `Matcher.mark`: fixed words and marks.
* `Matcher.identifier`, `Matcher.digits`, `Matcher.numeral`, `Matcher.stringLiteral`: the tokens
  that carry a text.
* `Matcher.many`: a part as often as it comes.

## Main statements

* `Cursor.peek_eq`: looking ahead reads the list of the significant tokens.
* `Cursor.significant_advance`: taking a token takes one significant token.
* `Matcher.run_bind`, `Matcher.run_orElse`: sequences and alternatives of matchers.
* `Matcher.run_token`, `Matcher.run_exactly`: the matchers of one token.
-/

namespace CreateTable

/-! ### Cursors -/

/-- The tokens that are left to read. -/
abbrev Cursor := List Token

namespace Cursor

/-- The cursor behind the trivia at its start. -/
def skipTrivia (c : Cursor) : Cursor :=
  c.dropWhile Token.isTrivia

/-- The cursor at the first significant token of `tokens`. -/
def ofTokens (tokens : List Token) : Cursor :=
  skipTrivia tokens

/-- The significant tokens that are left. -/
def significant (c : Cursor) : List Token :=
  c.filter (!·.isTrivia)

/-- The significant token `n` places ahead; the next one is zero places ahead. -/
def peek (c : Cursor) : Nat → Option Token
  | 0 => (skipTrivia c).head?
  | n + 1 => peek (skipTrivia c).tail n

/-- The cursor behind the next token and the trivia that follow it. At the end it stays. -/
def advance (c : Cursor) : Cursor :=
  skipTrivia c.tail

/-- The unquoted word `n` places ahead, if a word is there. -/
def peekWord (c : Cursor) (n : Nat) : Option String :=
  match c.peek n with
  | some ⟨.word value, _⟩ => some value
  | _ => none

/-- The token `n` places ahead is the unquoted word `w`, in any letter case. -/
def atWord (c : Cursor) (n : Nat) (w : String) : Bool :=
  (c.peekWord n).any (Text.sameWord w)

/-- The token `n` places ahead is of kind `k`. -/
def atKind (c : Cursor) (n : Nat) (k : Kind) : Bool :=
  (c.peek n).any (·.kind == k)

/-- Skipping trivia takes no significant token. -/
theorem significant_skipTrivia (c : Cursor) : (skipTrivia c).significant = c.significant := by
  induction c with
  | nil => rfl
  | cons t c ih =>
    by_cases h : t.isTrivia
    · simpa [skipTrivia, significant, List.dropWhile_cons, h] using ih
    · simp [skipTrivia, h]

/-- Behind the leading trivia stands the first significant token. -/
theorem skipTrivia_eq_cons_or_nil (c : Cursor) :
    skipTrivia c = [] ∨ ∃ t rest, skipTrivia c = t :: rest ∧ t.isTrivia = false := by
  induction c with
  | nil => exact .inl rfl
  | cons t c ih =>
    by_cases h : t.isTrivia
    · simpa [skipTrivia, List.dropWhile_cons, h] using ih
    · exact .inr ⟨t, c, by simp [skipTrivia, h], by simpa using h⟩

/-- Looking ahead reads the list of the significant tokens. -/
theorem peek_eq (c : Cursor) (n : Nat) : c.peek n = c.significant[n]? := by
  induction n generalizing c with
  | zero =>
    rw [peek, ← significant_skipTrivia]
    rcases skipTrivia_eq_cons_or_nil c with h | ⟨t, rest, h, ht⟩
    · simp [h, significant]
    · simp [h, significant, ht]
  | succ n ih =>
    rw [peek, ih, ← significant_skipTrivia c]
    rcases skipTrivia_eq_cons_or_nil c with h | ⟨t, rest, h, ht⟩
    · simp [h, significant]
    · simp [h, significant, ht]

/-- Taking a token from a cursor that stands on no trivia takes one significant token. -/
theorem significant_advance {t : Token} {c : Cursor} (h : t.isTrivia = false) :
    (advance (t :: c)).significant = (significant (t :: c)).tail := by
  rw [advance, significant_skipTrivia]
  simp [significant, h]

end Cursor

/-! ### Matchers -/

/-- A reader of an optional part. -/
abbrev Matcher := StateT Cursor Option

namespace Matcher

/-- The next token, if `read` gives a result for its kind. -/
def token {α : Type} (read : Kind → Option α) : Matcher α := fun c => do
  let t ← c.peek 0
  let a ← read t.kind
  some (a, c.advance)

/-- The next token as it stands, if it is of kind `k`. -/
def exactly (k : Kind) : Matcher Token := fun c => do
  let t ← c.peek 0
  if t.kind = k then some (t, c.advance) else none

/-- A mark such as a parenthesis or a comma. -/
def mark (k : Kind) : Matcher Unit :=
  (fun _ => ()) <$> exactly k

/-- The unquoted word `w` in any letter case, given as it is written. -/
def writtenWord (w : String) : Matcher String :=
  token fun
    | .word value => if Text.sameWord w value then some value else none
    | _ => none

/-- The unquoted word `w` in any letter case. -/
def word (w : String) : Matcher Unit :=
  (fun _ => ()) <$> writtenWord w

/-- The words `ws` one after the other, all or none. -/
def phrase : List String → Matcher Unit
  | [] => pure ()
  | w :: ws => do word w; phrase ws

/-- A name: a word with or without backticks. -/
def identifier : Matcher String :=
  token fun
    | .word value | .quotedWord value => some value
    | _ => none

/-- A row of decimal digits as written. -/
def digits : Matcher String :=
  token fun
    | .number value _ =>
      if !value.toList.isEmpty && value.toList.all Char.isDigit then some value else none
    | _ => none

/-- A number without its sign. -/
def unsignedNumeral : Matcher String :=
  token fun
    | .number value _ => some value
    | _ => none

/-- A number that may have a minus sign before it. -/
def numeral : Matcher String :=
  (do mark .minus; return "-" ++ (← unsignedNumeral)) <|> unsignedNumeral

/-- The raw text of a string in single quotes. -/
def stringLiteral : Matcher String :=
  token fun
    | .quoted .single body => some body
    | _ => none

/-- The end of the tokens. -/
def atEnd : Matcher Unit := fun c =>
  if c.isEmpty then some ((), c) else none

/-- What `m` reads as often as it matches, and the cursor behind the last match. A match that
takes no token ends the row as well. -/
def many {α : Type} (m : Matcher α) (c : Cursor) : List α × Cursor :=
  match m.run c with
  | none => ([], c)
  | some (a, rest) =>
    if rest.length < c.length then
      let (as, last) := many m rest
      (a :: as, last)
    else
      ([], c)
termination_by c.length

/-! ### Running a matcher -/

/-- A given result takes no token. -/
@[simp]
theorem run_pure {α : Type} (a : α) (c : Cursor) : (pure a : Matcher α).run c = some (a, c) := rfl

/-- The second matcher of a sequence runs where the first one stopped. -/
theorem run_bind {α β : Type} (m : Matcher α) (next : α → Matcher β) (c : Cursor) :
    (m >>= next).run c = (m.run c).bind fun p => (next p.1).run p.2 := rfl

/-- A function of the result changes nothing about the tokens that are taken. -/
theorem run_map {α β : Type} (f : α → β) (m : Matcher α) (c : Cursor) :
    (f <$> m).run c = (m.run c).map fun p => (f p.1, p.2) := by
  cases h : m.run c <;> simp [StateT.run_map, h]

/-- The second alternative runs where the first one did, if that one does not match. -/
theorem run_orElse {α : Type} (m n : Matcher α) (c : Cursor) :
    (m <|> n).run c = (m.run c).or (n.run c) := by
  change (m.run c).orElse (fun _ => n.run c) = _
  cases m.run c <;> rfl

/-- The matcher of one token looks at the next significant token and steps behind it. -/
theorem run_token {α : Type} (read : Kind → Option α) (c : Cursor) :
    (token read).run c = ((c.peek 0).bind fun t => read t.kind).map fun a => (a, c.advance) := by
  change ((c.peek 0).bind fun t => (read t.kind).bind fun a => some (a, c.advance)) = _
  cases c.peek 0 with
  | none => rfl
  | some t =>
    rw [Option.bind_some, Option.bind_some]
    cases read t.kind <;> rfl

/-- The matcher of one kind gives the next significant token if it is of that kind. -/
theorem run_exactly (k : Kind) (c : Cursor) :
    (exactly k).run c = ((c.peek 0).filter (·.kind = k)).map fun t => (t, c.advance) := by
  change ((c.peek 0).bind fun t => if t.kind = k then some (t, c.advance) else none) = _
  cases c.peek 0 with
  | none => rfl
  | some t => by_cases h : t.kind = k <;> simp [Option.filter, h]

end Matcher

end CreateTable
