import CreateTable.Proofs.Grammar.Progress
import Mathlib.Logic.Function.Iterate

/-!
# Cursors as positions

A cursor can be kept as a position among all tokens of a text. Then each look at the tokens slices
them at the position, and that fails when the position lies behind their end. A reader moves its
position in three ways only: behind the next token, behind trivia, and back to a position that it
saved. None of them leaves the tokens, whatever position is saved, so no slice fails.

## Main definitions

* `Cursor.from?`: the tokens from a position on.
* `Move`, `Move.run`, `Move.runAll`: the ways to move a position.

## Main statements

* `Cursor.from?_isSome_iff`: when a slice succeeds.
* `Move.runAll_le`: no row of moves leaves the tokens.
* `Cursor.from?_skipFrom`, `Move.from?_advance`: the moves of a position are those of its cursor.
* `Cursor.exists_advances`: a cursor further on is reached by taking tokens.
-/

namespace CreateTable

variable {tokens : List Token} {position : Nat} {c : Cursor}

/-- The tokens from a position on, or `none` when it lies behind their end. -/
def Cursor.from? (tokens : List Token) (position : Nat) : Option Cursor :=
  if position ≤ tokens.length then some (tokens.drop position) else none

/-- A slice succeeds up to the end of the tokens. -/
theorem Cursor.from?_isSome_iff :
    (from? tokens position).isSome = true ↔ position ≤ tokens.length := by
  rw [from?]
  split <;> simp [*]

/-- A slice that succeeds gives the tokens from the position on. -/
theorem Cursor.from?_eq_some_iff :
    from? tokens position = some c ↔ position ≤ tokens.length ∧ c = tokens.drop position := by
  rw [from?, Option.ite_none_right_eq_some, Option.some.injEq, eq_comm (a := c)]

/-- The position of the first significant token at or behind `position`. -/
def skipFrom (tokens : List Token) (position : Nat) : Nat :=
  match h : tokens[position]? with
  | some t => if t.isTrivia then skipFrom tokens (position + 1) else position
  | none => position
termination_by tokens.length - position
decreasing_by
  have := (List.getElem?_eq_some_iff.1 h).1
  omega

/-- The ways to move a position. -/
inductive Move where
  /-- Behind the next token, if there is one, and the trivia that follow it. -/
  | advance
  /-- Behind the trivia at the position. -/
  | skip
  /-- To a given position, or to the end when it lies behind that. -/
  | goTo (position : Nat)
deriving DecidableEq, Repr

namespace Move

/-- The position behind a move. -/
def run (tokens : List Token) (position : Nat) : Move → Nat
  | advance => skipFrom tokens (if position < tokens.length then position + 1 else position)
  | skip => skipFrom tokens position
  | goTo target => min target tokens.length

/-- The position behind a row of moves. -/
def runAll (tokens : List Token) (position : Nat) (moves : List Move) : Nat :=
  moves.foldl (run tokens) position

end Move

/-- Trivia are skipped within the tokens. -/
theorem skipFrom_le (h : position ≤ tokens.length) : skipFrom tokens position ≤ tokens.length := by
  fun_induction skipFrom tokens position with
  | case1 position t ht _ ih => exact ih (List.getElem?_eq_some_iff.1 ht).1
  | case2 => exact h
  | case3 => exact h

/-- No move leaves the tokens. -/
theorem Move.run_le (move : Move) (h : position ≤ tokens.length) :
    move.run tokens position ≤ tokens.length := by
  cases move with
  | advance =>
      refine skipFrom_le ?_
      split
      · next hlt => exact hlt
      · exact h
  | skip => exact skipFrom_le h
  | goTo target => exact Nat.min_le_right _ _

/-- No row of moves leaves the tokens. -/
theorem Move.runAll_le (moves : List Move) (h : position ≤ tokens.length) :
    runAll tokens position moves ≤ tokens.length := by
  induction moves generalizing position with
  | nil => exact h
  | cons move moves ih => exact ih (move.run_le h)

/-! ### Positions and cursors -/

/-- Skipping trivia at a position is skipping them in the cursor. -/
theorem Cursor.from?_skipFrom (h : from? tokens position = some c) :
    from? tokens (skipFrom tokens position) = some c.skipTrivia := by
  obtain ⟨hle, rfl⟩ := from?_eq_some_iff.1 h
  refine from?_eq_some_iff.2 ⟨skipFrom_le hle, ?_⟩
  clear h
  fun_induction skipFrom tokens position with
  | case1 position t ht htrivia ih =>
      obtain ⟨hlt, heq⟩ := List.getElem?_eq_some_iff.1 ht
      rw [← ih hlt, List.drop_eq_getElem_cons hlt, heq]
      simp [skipTrivia, htrivia]
  | case2 position t ht htrivia =>
      obtain ⟨hlt, heq⟩ := List.getElem?_eq_some_iff.1 ht
      rw [List.drop_eq_getElem_cons hlt, heq]
      simp [skipTrivia, htrivia]
  | case3 position hnone =>
      rw [List.drop_eq_nil_of_le (List.getElem?_eq_none_iff.1 hnone)]
      rfl

/-- Taking a token at a position is taking it from the cursor. -/
theorem Move.from?_advance (h : Cursor.from? tokens position = some c) :
    Cursor.from? tokens (advance.run tokens position) = some c.advance := by
  obtain ⟨hle, rfl⟩ := Cursor.from?_eq_some_iff.1 h
  rw [run, Cursor.advance, List.tail_drop]
  refine Cursor.from?_skipFrom (Cursor.from?_eq_some_iff.2 ?_)
  split
  · next hlt => exact ⟨hlt, rfl⟩
  · next hge =>
    have heq : position = tokens.length := by omega
    subst heq
    simp

/-- Taking tokens at a position is taking them from the cursor. -/
theorem Move.from?_advances (h : Cursor.from? tokens position = some c) (n : Nat) :
    Cursor.from? tokens (runAll tokens position (List.replicate n advance))
      = some (Cursor.advance^[n] c) := by
  induction n generalizing position c with
  | zero => exact h
  | succ n ih => exact ih (from?_advance h)

/-- What stands behind some tokens and on no trivia stands behind the trivia at their start. -/
theorem Cursor.suffix_skipTrivia {d : Cursor} (h : d <:+ c) (hd : d.skipTrivia = d) :
    d <:+ c.skipTrivia := by
  induction c with
  | nil => exact h
  | cons t c ih =>
      rcases List.suffix_cons_iff.1 h with rfl | h
      · exact ⟨[], hd.symm⟩
      · by_cases ht : t.isTrivia = true
        · rw [skipTrivia, List.dropWhile_cons_of_pos ht]
          exact ih h
        · rw [skipTrivia, List.dropWhile_cons_of_neg ht]
          exact h.trans (List.suffix_cons t c)

/-- A cursor further on is reached by taking tokens. -/
theorem Cursor.exists_advances {d : Cursor} (h : d <:+ c) (hd : d.skipTrivia = d) :
    ∃ n, d = Cursor.advance^[n] c := by
  induction hlength : c.length using Nat.strongRecOn generalizing c with
  | _ length ih =>
  cases c with
  | nil => exact ⟨0, List.suffix_nil.1 h⟩
  | cons t c =>
      rcases List.suffix_cons_iff.1 h with rfl | h
      · exact ⟨0, rfl⟩
      · have hlt : (advance (t :: c)).length < length := by
          rw [← hlength]
          exact Nat.lt_succ_of_le (List.dropWhile_suffix (l := c) _).length_le
        obtain ⟨n, hn⟩ := ih _ hlt (suffix_skipTrivia h hd) rfl
        exact ⟨n + 1, hn⟩

end CreateTable
