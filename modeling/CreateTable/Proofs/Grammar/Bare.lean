import CreateTable.Grammar.Rule
import CreateTable.Proofs.Grammar.Lookahead
import Mathlib.Data.List.Forall2

/-!
# Reading bare cursors

On a cursor without trivia, taking a token is taking the head of a list. The statements here
say for the basic matchers and rules when exactly they succeed on such a cursor, so that longer
rules are opened by rewriting.

## Main definitions

* `Cursor.IsBare`: no token of the cursor is trivia.
* `Cursor.IsToken`: one token of some kind.
* `Cursor.Spells`: tokens that spell a row of keywords.

## Main statements

* `Matcher.run_token_eq_some_iff`, `Matcher.run_exactly_eq_some_iff`,
  `Matcher.run_phrase_eq_some_iff`: the matchers of tokens.
* `Rule.runFrom_bind_eq_ok_iff`, `Rule.runFrom_require_eq_ok_iff`,
  `Rule.runFrom_allow_eq_ok_iff`: the basic rules.
-/

namespace CreateTable

namespace Cursor

/-- A cursor is **bare** when it has no trivia at all. -/
def IsBare (c : Cursor) : Prop :=
  ∀ t ∈ c, t.isTrivia = false

/-- The end of the tokens is bare. -/
theorem isBare_nil : IsBare [] := by
  simp [IsBare]

/-- A cursor is bare if its first token and all tokens behind it are significant. -/
@[simp] theorem isBare_cons {t : Token} {c : Cursor} :
    IsBare (t :: c) ↔ t.isTrivia = false ∧ IsBare c :=
  List.forall_mem_cons

/-- Two rows of tokens are bare together if each of them is. -/
@[simp] theorem isBare_append {c d : Cursor} : IsBare (c ++ d) ↔ IsBare c ∧ IsBare d :=
  List.forall_mem_append

/-- What is left of a cursor without its trivia is bare. -/
theorem isBare_significant (c : Cursor) : IsBare c.significant := by
  intro t ht
  simpa using (List.mem_filter.1 ht).2

/-- The end of a bare cursor is bare. -/
theorem IsBare.of_suffix {c d : Cursor} (h : d.IsBare) (hcd : c <:+ d) : c.IsBare :=
  fun t ht => h t (hcd.mem ht)

/-- All tokens of a bare cursor are significant. -/
theorem IsBare.significant_eq {c : Cursor} (h : c.IsBare) : c.significant = c :=
  List.filter_eq_self.2 fun t ht => by simp [h t ht]

/-- Looking ahead on a bare cursor reads the row of its tokens. -/
theorem IsBare.peek_eq {ts : Cursor} (h : ts.IsBare) (n : Nat) : ts.peek n = ts[n]? := by
  rw [Cursor.peek_eq, h.significant_eq]

/-- Whether a bare cursor stands at a keyword is a matter of its first token. -/
theorem IsBare.atWord_eq {c : Cursor} (h : c.IsBare) (w : String) :
    c.atWord 0 w = c.head?.any (·.kind.isWord w) := by
  rw [atWord_eq_any, h.peek_eq, ← List.head?_eq_getElem?]

/-- Whether a bare cursor stands at a mark is a matter of its first token. -/
theorem IsBare.atKind_eq {c : Cursor} (h : c.IsBare) (k : Kind) :
    c.atKind 0 k = c.head?.any (·.kind == k) := by
  rw [atKind, h.peek_eq, ← List.head?_eq_getElem?]

/-- A bare cursor has no leading trivia. -/
theorem IsBare.trimmed {c : Cursor} (h : c.IsBare) : c.skipTrivia = c := by
  cases c with
  | nil => rfl
  | cons t c => simp [skipTrivia, h t List.mem_cons_self]

/-- Behind bare tokens, the leading trivia of a row are those of the row's end. -/
theorem trimmed_append {c d : Cursor} (hc : c.IsBare) (hd : d.skipTrivia = d) :
    skipTrivia (c ++ d) = c ++ d := by
  cases c with
  | nil => exact hd
  | cons t c => simp [skipTrivia, hc t List.mem_cons_self]

/-- On a cursor that starts with a significant token, that token is next. -/
theorem peek_cons {t : Token} (c : Cursor) (h : t.isTrivia = false) : peek (t :: c) 0 = some t := by
  simp [peek, skipTrivia, h]

/-- Taking a token of a cursor leaves what stands behind it, if no trivia follow. -/
theorem advance_cons {t : Token} {c : Cursor} (h : c.skipTrivia = c) : advance (t :: c) = c := h

/-- There is one token, and `p` holds of its kind. -/
def IsToken (p : Kind → Prop) (c : Cursor) : Prop :=
  ∃ t : Token, c = [t] ∧ p t.kind

/-- Tokens that **spell** the keywords `ws`, one word each and in any letter case. -/
def Spells (ws : List String) (c : Cursor) : Prop :=
  List.Forall₂ (fun w t => t.kind.isWord w = true) ws c

end Cursor

namespace Matcher

variable {α : Type} {c rest : Cursor}

/-! ### Matchers on bare cursors -/

/-- On a bare cursor, a matcher of one token takes the first token, if it reads its kind. -/
theorem run_token_eq_some_iff {read : Kind → Option α} {a : α} (hc : c.IsBare) :
    (token read).run c = some (a, rest) ↔ ∃ t, c = t :: rest ∧ read t.kind = some a := by
  rw [run_token]
  cases c with
  | nil => simp [Cursor.peek, Cursor.skipTrivia]
  | cons t c =>
      obtain ⟨ht, hc⟩ := Cursor.isBare_cons.1 hc
      rw [Cursor.peek_cons c ht, Cursor.advance_cons hc.trimmed]
      simp only [Option.bind_some, Option.map_eq_some_iff, Prod.mk.injEq, List.cons.injEq]
      constructor
      · rintro ⟨b, hb, rfl, rfl⟩
        exact ⟨t, ⟨rfl, rfl⟩, hb⟩
      · rintro ⟨u, ⟨rfl, rfl⟩, hb⟩
        exact ⟨a, hb, rfl, rfl⟩

/-- On a bare cursor that is not empty, a matcher of one token is what it reads of the first. -/
theorem run_token_cons {read : Kind → Option α} {t : Token} (hc : Cursor.IsBare (t :: c)) :
    (token read).run (t :: c) = (read t.kind).map (·, c) := by
  obtain ⟨ht, hc⟩ := Cursor.isBare_cons.1 hc
  rw [run_token, Cursor.peek_cons c ht, Cursor.advance_cons hc.trimmed, Option.bind_some]

/-- On a bare cursor, the matcher of one kind gives the first token. -/
theorem run_exactly_eq_some_iff {k : Kind} {t : Token} (hc : c.IsBare) :
    (exactly k).run c = some (t, rest) ↔ c = t :: rest ∧ t.kind = k := by
  rw [run_exactly]
  cases c with
  | nil => simp [Cursor.peek, Cursor.skipTrivia]
  | cons u c =>
      obtain ⟨hu, hc⟩ := Cursor.isBare_cons.1 hc
      rw [Cursor.peek_cons c hu, Cursor.advance_cons hc.trimmed]
      simp only [Option.map_eq_some_iff, Option.filter_eq_some_iff, Option.some.injEq,
        decide_eq_true_eq, Prod.mk.injEq, List.cons.injEq]
      constructor
      · rintro ⟨_, ⟨rfl, hk⟩, rfl, rfl⟩
        exact ⟨⟨rfl, rfl⟩, hk⟩
      · rintro ⟨⟨rfl, rfl⟩, hk⟩
        exact ⟨_, ⟨rfl, hk⟩, rfl, rfl⟩

/-- A function of the result is applied to what the matcher gives. -/
theorem run_map_eq_some_iff {β : Type} {f : α → β} {m : Matcher α} {b : β} :
    (f <$> m).run c = some (b, rest) ↔ ∃ a, m.run c = some (a, rest) ∧ f a = b := by
  rw [run_map, Option.map_eq_some_iff]
  constructor
  · rintro ⟨⟨a, d⟩, h, heq⟩
    obtain ⟨rfl, rfl⟩ := Prod.mk.inj heq
    exact ⟨a, h, rfl⟩
  · rintro ⟨a, h, rfl⟩
    exact ⟨(a, rest), h, rfl⟩

/-- A sequence matches if its second part matches where its first one stopped. -/
theorem run_bind_eq_some_iff {β : Type} {m : Matcher α} {f : α → Matcher β} {b : β} :
    (m >>= f).run c = some (b, rest) ↔
      ∃ a mid, m.run c = some (a, mid) ∧ (f a).run mid = some (b, rest) := by
  rw [run_bind, Option.bind_eq_some_iff, Prod.exists]

/-- A given result always matches and takes no token. -/
theorem run_pure_eq_some_iff {a b : α} :
    (pure a : Matcher α).run c = some (b, rest) ↔ a = b ∧ c = rest := by
  rw [run_pure, Option.some.injEq, Prod.mk.injEq]

/-- The second alternative matches only where the first one does not. -/
theorem run_orElse_eq_some_iff {m n : Matcher α} {a : α} :
    (m <|> n).run c = some (a, rest) ↔
      m.run c = some (a, rest) ∨ m.run c = none ∧ n.run c = some (a, rest) := by
  rw [run_orElse, Option.or_eq_some_iff]

/-- Two alternatives fail together if each of them does. -/
theorem run_orElse_eq_none_iff {m n : Matcher α} :
    (m <|> n).run c = none ↔ m.run c = none ∧ n.run c = none := by
  rw [run_orElse, Option.or_eq_none_iff]

/-- The second of two parts gives the result, and runs where the first one stopped. -/
theorem run_seqRight {β : Type} (m : Matcher α) (n : Matcher β) (c : Cursor) :
    (m *> n).run c = (m.run c).bind fun p => n.run p.2 := rfl

/-- Two parts match if the second one matches where the first one stopped. -/
theorem run_seqRight_eq_some_iff {β : Type} {m : Matcher α} {n : Matcher β} {b : β} :
    (m *> n).run c = some (b, rest) ↔
      ∃ a mid, m.run c = some (a, mid) ∧ n.run mid = some (b, rest) :=
  run_bind_eq_some_iff

/-- An optional part always matches; without it no token is taken. -/
theorem run_optional_eq_some_iff {m : Matcher α} {x : Option α} :
    (optional m).run c = some (x, rest) ↔
      (x = none ∧ m.run c = none ∧ rest = c) ∨ ∃ a, x = some a ∧ m.run c = some (a, rest) := by
  rw [optional, run_orElse_eq_some_iff, run_map_eq_some_iff, run_pure_eq_some_iff, run_map,
    Option.map_eq_none_iff]
  constructor
  · rintro (⟨a, h, rfl⟩ | ⟨h, rfl, rfl⟩)
    · exact .inr ⟨a, rfl, h⟩
    · exact .inl ⟨rfl, h, rfl⟩
  · rintro (⟨rfl, h, rfl⟩ | ⟨a, rfl, h⟩)
    · exact .inr ⟨h, rfl, rfl⟩
    · exact .inl ⟨a, h, rfl⟩

/-- On a bare cursor, a mark is read from the first token, if it is that mark. -/
theorem run_mark_eq_some_iff {k : Kind} {u : Unit} (hc : c.IsBare) :
    (mark k).run c = some (u, rest) ↔ ∃ t, c = t :: rest ∧ t.kind = k := by
  simp only [mark, run_map_eq_some_iff, run_exactly_eq_some_iff hc, and_true]

/-- On a bare cursor, a keyword is read from the first token and given as it is written. -/
theorem run_writtenWord_eq_some_iff {w v : String} (hc : c.IsBare) :
    (writtenWord w).run c = some (v, rest) ↔
      ∃ t, c = t :: rest ∧ t.kind = .word v ∧ Text.sameWord w v = true := by
  rw [writtenWord, run_token_eq_some_iff hc]
  refine exists_congr fun t => and_congr_right fun _ => ?_
  cases t.kind <;> simp
  constructor
  · rintro ⟨h, rfl⟩
    exact ⟨rfl, h⟩
  · rintro ⟨rfl, h⟩
    exact ⟨h, rfl⟩

/-- On a bare cursor, a keyword is read from the first token, if it is that word. -/
theorem run_word_eq_some_iff {w : String} {u : Unit} (hc : c.IsBare) :
    (word w).run c = some (u, rest) ↔ ∃ t, c = t :: rest ∧ t.kind.isWord w = true := by
  rw [word, run_map_eq_some_iff]
  simp only [run_writtenWord_eq_some_iff hc, and_true]
  constructor
  · rintro ⟨v, t, rfl, hk, hv⟩
    exact ⟨t, rfl, by rw [hk]; exact hv⟩
  · rintro ⟨⟨k, l⟩, rfl, hk⟩
    cases k with
    | word v => exact ⟨v, _, rfl, rfl, hk⟩
    | _ => simp [Kind.isWord] at hk

/-- On a bare cursor that is not empty, a mark is a decision by the first token. -/
theorem run_mark_cons {k : Kind} {t : Token} (hc : Cursor.IsBare (t :: c)) :
    (mark k).run (t :: c) = if t.kind = k then some ((), c) else none := by
  split
  · next h => exact (run_mark_eq_some_iff hc).2 ⟨t, rfl, h⟩
  · next h =>
    refine Option.eq_none_iff_forall_ne_some.2 fun ⟨u, mid⟩ hrun => h ?_
    obtain ⟨v, hv, hkind⟩ := (run_mark_eq_some_iff hc).1 hrun
    rwa [(List.cons.inj hv).1]

/-- On a bare cursor that is not empty, a keyword is a decision by the first token. -/
theorem run_word_cons {w : String} {t : Token} (hc : Cursor.IsBare (t :: c)) :
    (word w).run (t :: c) = if t.kind.isWord w then some ((), c) else none := by
  split
  · next h => exact (run_word_eq_some_iff hc).2 ⟨t, rfl, h⟩
  · next h =>
    refine Option.eq_none_iff_forall_ne_some.2 fun ⟨u, mid⟩ hrun => h ?_
    obtain ⟨v, hv, hkind⟩ := (run_word_eq_some_iff hc).1 hrun
    rwa [(List.cons.inj hv).1]

/-- There is no keyword where the next token is not that word. -/
theorem run_word_eq_none {w : String} (hc : c.IsBare)
    (h : ∀ t ∈ c.head?, t.kind.isWord w = false) : (word w).run c = none := by
  refine Option.eq_none_iff_forall_ne_some.2 fun ⟨u, mid⟩ hrun => ?_
  obtain ⟨t, rfl, ht⟩ := (run_word_eq_some_iff hc).1 hrun
  exact absurd ht (by simp [h t rfl])

/-- A phrase is read from the tokens that spell it. -/
theorem run_phrase_eq_some_iff {ws : List String} {u : Unit} (hc : c.IsBare) :
    (phrase ws).run c = some (u, rest) ↔ ∃ d, c = d ++ rest ∧ d.Spells ws := by
  induction ws generalizing c with
  | nil =>
      rw [phrase, run_pure_eq_some_iff]
      constructor
      · rintro ⟨-, rfl⟩
        exact ⟨[], rfl, .nil⟩
      · rintro ⟨_, rfl, ⟨⟩⟩
        exact ⟨rfl, rfl⟩
  | cons w ws ih =>
      rw [phrase, run_bind_eq_some_iff]
      constructor
      · rintro ⟨_, mid, hword, hrest⟩
        obtain ⟨t, rfl, ht⟩ := (run_word_eq_some_iff hc).1 hword
        obtain ⟨d, rfl, hd⟩ := (ih (Cursor.isBare_cons.1 hc).2).1 hrest
        exact ⟨t :: d, rfl, .cons ht hd⟩
      · rintro ⟨_, rfl, ⟨⟩⟩
        rename_i t d ht hd
        refine ⟨(), d ++ rest, (run_word_eq_some_iff hc).2 ⟨t, rfl, ht⟩, ?_⟩
        exact (ih (Cursor.isBare_cons.1 hc).2).2 ⟨d, rfl, hd⟩

/-- On a bare cursor, a name is read from the first token, if it is a word of either form. -/
theorem run_identifier_eq_some_iff {v : String} (hc : c.IsBare) :
    identifier.run c = some (v, rest) ↔ ∃ t, c = t :: rest ∧ t.kind.name? = some v := by
  rw [identifier, run_token_eq_some_iff hc]
  refine exists_congr fun t => and_congr_right fun _ => ?_
  cases t.kind <;> rfl

/-- The end matches where no token is left. -/
theorem run_atEnd_eq_some_iff {u : Unit} : atEnd.run c = some (u, rest) ↔ c = [] ∧ c = rest := by
  change (if c.isEmpty then some ((), c) else none) = _ ↔ _
  simp

end Matcher

namespace Rule

variable {α β : Type} {c rest : Cursor}

/-! ### Rules on cursors of any kind -/

/-- A sequence succeeds if its second rule does where its first one stopped. -/
theorem runFrom_bind_eq_ok_iff {r : Rule α} {f : α → Rule β} {b : β} :
    (r >>= f).runFrom c = (.ok b, rest) ↔
      ∃ a mid, r.runFrom c = (.ok a, mid) ∧ (f a).runFrom mid = (.ok b, rest) := by
  rw [runFrom_bind]
  rcases r.runFrom c with ⟨_ | a, mid⟩
  · simp
  · simp

/-- Behind a rule that succeeded the second rule runs. -/
theorem runFrom_bind_of_ok {r : Rule α} {f : α → Rule β} {a : α}
    (h : r.runFrom c = (.ok a, rest)) : (r >>= f).runFrom c = (f a).runFrom rest := by
  rw [runFrom_bind, h]

/-- Behind a rule that failed nothing runs. -/
theorem runFrom_bind_of_error {r : Rule α} {f : α → Rule β} {e : Expectation}
    (h : r.runFrom c = (.error e, rest)) : (r >>= f).runFrom c = (.error e, rest) := by
  rw [runFrom_bind, h]

/-- A function of the result is applied to what the rule gives. -/
theorem runFrom_map_eq_ok_iff {r : Rule α} {f : α → β} {b : β} :
    (f <$> r).runFrom c = (.ok b, rest) ↔ ∃ a, r.runFrom c = (.ok a, rest) ∧ f a = b := by
  rw [runFrom_map]
  rcases r.runFrom c with ⟨_ | a, mid⟩
  · simp
  · simp [and_comm]

/-- A given result succeeds and takes no token. -/
theorem runFrom_pure_eq_ok_iff {a b : α} :
    (pure a : Rule α).runFrom c = (.ok b, rest) ↔ a = b ∧ c = rest := by
  rw [runFrom_pure, Prod.mk.injEq, Except.ok.injEq]

/-- A required part succeeds where its matcher does. -/
theorem runFrom_require_eq_ok_iff {m : Matcher α} {e : Expectation} {a : α} :
    (require m e).runFrom c = (.ok a, rest) ↔ m.run c = some (a, rest) := by
  rw [runFrom_require]
  rcases m.run c with _ | ⟨b, mid⟩ <;> simp

/-- A required part that does not match is an error, and no token is taken. -/
theorem runFrom_require_of_none {m : Matcher α} {e : Expectation} (h : m.run c = none) :
    (require m e).runFrom c = (.error e, c) := by
  rw [runFrom_require, h]

/-- An optional part that does not match takes no token. -/
theorem runFrom_allow_of_none {m : Matcher α} (h : m.run c = none) :
    (allow m).runFrom c = (.ok none, c) := by
  rw [runFrom_allow, h]

/-- An optional part gives what its matcher reads, or nothing where that does not match. -/
theorem runFrom_allow_eq_ok_iff {m : Matcher α} {x : Option α} :
    (allow m).runFrom c = (.ok x, rest) ↔
      (x = none ∧ m.run c = none ∧ rest = c) ∨ ∃ a, x = some a ∧ m.run c = some (a, rest) := by
  rw [runFrom_allow]
  rcases m.run c with _ | ⟨b, mid⟩
  · simp [eq_comm]
  · simp only [Prod.mk.injEq, Except.ok.injEq, reduceCtorEq, false_and, and_false, false_or,
      Option.some.injEq]
    constructor
    · rintro ⟨rfl, rfl⟩
      exact ⟨b, rfl, rfl, rfl⟩
    · rintro ⟨a, rfl, rfl, rfl⟩
      exact ⟨rfl, rfl⟩

/-- A function of an optional part is applied to the part if it is there. -/
theorem runFrom_allow_map_eq_ok_iff {m : Matcher α} {f : α → β} {y : Option β} :
    (allow (f <$> m)).runFrom c = (.ok y, rest) ↔
      ∃ x, (allow m).runFrom c = (.ok x, rest) ∧ x.map f = y := by
  rw [runFrom_allow, runFrom_allow, Matcher.run_map]
  rcases m.run c with _ | ⟨a, mid⟩
  · simp [and_comm]
  · simp [and_comm]

/-- A repeated part gives the row that its matcher reads. -/
theorem runFrom_many_eq_ok_iff {m : Matcher α} {as : List α} :
    (many m).runFrom c = (.ok as, rest) ↔ m.many c = (as, rest) := by
  rw [runFrom_many, Prod.mk.injEq, Except.ok.injEq, Prod.ext_iff]

/-- A decision succeeds with its outcome and takes no token. -/
theorem runFrom_look_eq_ok_iff {f : Cursor → α} {a : α} :
    (look f).runFrom c = (.ok a, rest) ↔ f c = a ∧ c = rest := by
  rw [runFrom_look, Prod.mk.injEq, Except.ok.injEq]

end Rule

end CreateTable
