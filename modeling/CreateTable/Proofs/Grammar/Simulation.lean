import CreateTable.Grammar.Rule
import Mathlib.Data.List.Forall2

/-!
# Simulations between cursors

Many laws of the grammar compare two runs of the same rule: with and without the trivia, with
and without the text behind an item, with keywords in another letter case. This module states
once what such a comparison needs. A `Simulation` relates two cursors at a depth of nested
parentheses; its fields say that the two runs see the same next token, or both stand at the end
of what a rule at this depth may read. The combinators of matchers and rules keep every
simulation, so a rule of the grammar is treated once for all comparisons.

## Main definitions

* `Kind.depth?`: the depth of parentheses behind a token, when a comma or a parenthesis that
  belongs to the outside stops the count.
* `Kind.Alike`: kinds that agree up to the spelling of unquoted words.
* `Likeness`: the tokens and the words that stand for each other.
* `Simulation`: a family of relations between cursors that reading respects.
* `Simulation.Matches`, `Simulation.Obeys`: two matchers, two rules, that answer alike from
  related cursors.

## Main statements

* `Simulation.Matches.bind`, `Simulation.Matches.orElse`, `Simulation.Matches.many`: the
  combinators of matchers.
* `Simulation.Matches.token`, `Simulation.Matches.exactly`: the matchers of one token.
* `Simulation.Obeys.bind`, `Simulation.Obeys.separated`, `Simulation.Obeys.follow`: the
  combinators of rules.
-/

namespace CreateTable

/-- The depth of nested parentheses behind a significant token that stands at depth `n`. There
is none behind a comma or a closing parenthesis at depth zero, where the text that `n` counts
from has ended, and trivia have none either. -/
def Kind.depth? : Kind → Nat → Option Nat
  | .leftParen, n => some (n + 1)
  | .rightParen, n + 1 => some n
  | .rightParen, 0 => none
  | .comma, n + 1 => some (n + 1)
  | .comma, 0 => none
  | .blank, _ | .comment, _ => none
  | .word _, n | .quotedWord _, n | .number _ _, n | .quoted _ _, n => some n
  | .period, n | .minus, n | .symbol _, n => some n

/-- A kind is **level** when its tokens leave the depth as it is, at every depth. -/
def Kind.IsLevel (k : Kind) : Prop :=
  ∀ n, k.depth? n = some n

/-- Two kinds that agree, except that unquoted words only have to be related by `W`. -/
inductive Kind.Alike (W : String → String → Prop) : Kind → Kind → Prop
  | word {v w : String} : W v w → Alike W (.word v) (.word w)
  | same (k : Kind) : Alike W k k

/-- Words aside, a token is of the same kind as one that it is alike to. -/
theorem Kind.Alike.eq_iff {W : String → String → Prop} {k l l' : Kind} (h : Kind.Alike W l l')
    (hk : ∀ w, k ≠ .word w) : l = k ↔ l' = k := by
  cases h with
  | word => exact ⟨fun h => absurd h.symm (hk _), fun h => absurd h.symm (hk _)⟩
  | same => exact Iff.rfl

/-- A cursor at depth `n` is at its **border** when no token is left, or when the next token is
a comma or a closing parenthesis at depth zero. -/
def Cursor.AtBorder (n : Nat) (c : Cursor) : Prop :=
  ∀ t, c.peek 0 = some t → n = 0 ∧ (t.kind = .comma ∨ t.kind = .rightParen)

/-- A **likeness**: which tokens and which words stand for each other when two texts are
compared. -/
structure Likeness where
  /-- The tokens that stand for each other. -/
  token : Token → Token → Prop
  /-- The words that stand for each other. -/
  word : String → String → Prop
  word_refl : ∀ v, word v v
  word_append : ∀ {v w v' w'}, word v w → word v' w' → word (v ++ v') (w ++ w')
  foldCase_eq : ∀ {v w}, word v w → Text.foldCase v.toList = Text.foldCase w.toList
  kind_alike : ∀ {t u}, token t u → Kind.Alike word t.kind u.kind

/-- Equal tokens and equal words. -/
def Likeness.exact : Likeness where
  token := Eq
  word := Eq
  word_refl _ := rfl
  word_append := by rintro _ _ _ _ rfl rfl; rfl
  foldCase_eq := by rintro _ _ rfl; rfl
  kind_alike := by rintro t _ rfl; exact .same _

/-- A **simulation**: relations between cursors, one for each depth of parentheses, that reading
a token respects. -/
structure Simulation extends Likeness where
  /-- The cursors that are related at a depth. -/
  rel : Nat → Cursor → Cursor → Prop
  /-- The cursors at which two related runs may fail. -/
  stop : Cursor → Cursor → Prop
  stop_of_rel : ∀ {n c d}, rel n c d → stop c d
  trimmed : ∀ {n c d}, rel n c d → c.skipTrivia = c ∧ d.skipTrivia = d
  /-- Either a token is next in both, and the cursors behind it are related at the depth behind
  it, or both are at their border. -/
  next : ∀ {n c d}, rel n c d →
    (∃ t u, c.peek 0 = some t ∧ d.peek 0 = some u ∧ token t u ∧
      ∀ m, t.kind.depth? n = some m → rel m c.advance d.advance) ∨
    (c.AtBorder n ∧ d.AtBorder n)
  /-- Progress in one run is progress in the other. -/
  length_lt_iff : ∀ {n m c d c' d'}, rel n c d → rel m c' d' →
    (c'.length < c.length ↔ d'.length < d.length)

namespace Simulation

variable (S : Simulation) {α β γ δ : Type} {n m k : Nat}

/-- Two matchers **match alike** from depth `n` to depth `m` when, from related cursors, both
fail or both succeed with results related by `A` and related cursors behind. -/
def Matches (n m : Nat) (A : α → β → Prop) (p : Matcher α) (q : Matcher β) : Prop :=
  ∀ ⦃c d⦄, S.rel n c d → Option.Rel (fun x y => A x.1 y.1 ∧ S.rel m x.2 y.2) (p.run c) (q.run d)

/-- Two answers of rules agree: results related by `A`, or the same expectation. -/
inductive Answers (m : Nat) (A : α → β → Prop) :
    Except Expectation α × Cursor → Except Expectation β × Cursor → Prop
  | ok {a b c d} : A a b → S.rel m c d → Answers m A (.ok a, c) (.ok b, d)
  | error {e c d} : S.stop c d → Answers m A (.error e, c) (.error e, d)

/-- Two rules **answer alike** from depth `n` to depth `m`. -/
def Obeys (n m : Nat) (A : α → β → Prop) (r : Rule α) (s : Rule β) : Prop :=
  ∀ ⦃c d⦄, S.rel n c d → S.Answers m A (r.runFrom c) (s.runFrom d)

variable {S} {A : α → β → Prop} {B : γ → δ → Prop}

/-! ### Matchers -/

namespace Matches

/-- Related results match alike. -/
theorem pure {a : α} {b : β} (h : A a b) : S.Matches n n A (pure a) (pure b) :=
  fun _ _ hcd => .some ⟨h, hcd⟩

/-- Two matchers that always fail match alike. -/
theorem failure : S.Matches n m A failure failure :=
  fun _ _ _ => .none

/-- Sequences match alike if their first parts do, and their second parts do for related results. -/
theorem bind {p : Matcher α} {q : Matcher β} {f : α → Matcher γ} {g : β → Matcher δ}
    (hp : S.Matches n m A p q) (hf : ∀ a b, A a b → S.Matches m k B (f a) (g b)) :
    S.Matches n k B (p >>= f) (q >>= g) := by
  intro c d hcd
  rw [Matcher.run_bind, Matcher.run_bind]
  match p.run c, q.run d, hp hcd with
  | _, _, .none => exact .none
  | _, _, .some h => exact hf _ _ h.1 h.2

/-- Functions of the results may change the relation between these. -/
theorem map {p : Matcher α} {q : Matcher β} {f : α → γ} {g : β → δ}
    (hp : S.Matches n m A p q) (hf : ∀ a b, A a b → B (f a) (g b)) :
    S.Matches n m B (f <$> p) (g <$> q) := by
  intro c d hcd
  rw [Matcher.run_map, Matcher.run_map]
  match p.run c, q.run d, hp hcd with
  | _, _, .none => exact .none
  | _, _, .some h => exact .some ⟨hf _ _ h.1, h.2⟩

/-- A sequence of which only the second result counts. -/
theorem seqRight {p : Matcher α} {q : Matcher β} {p' : Matcher γ} {q' : Matcher δ}
    (hp : S.Matches n m A p q) (hp' : S.Matches m k B p' q') :
    S.Matches n k B (p *> p') (q *> q') :=
  bind hp fun _ _ _ => hp'

/-- Alternatives match alike one by one. -/
theorem orElse {p p' : Matcher α} {q q' : Matcher β} (hp : S.Matches n m A p q)
    (hp' : S.Matches n m A p' q') : S.Matches n m A (p <|> p') (q <|> q') := by
  intro c d hcd
  rw [Matcher.run_orElse, Matcher.run_orElse]
  match p.run c, q.run d, hp hcd with
  | _, _, .none => exact hp' hcd
  | _, _, .some h => exact .some h

/-- Optional parts match alike. -/
theorem optional {p : Matcher α} {q : Matcher β} (hp : S.Matches n n A p q) :
    S.Matches n n (Option.Rel A) (optional p) (optional q) :=
  orElse (map hp fun _ _ => .some) (pure .none)

/-- The first of a row of alternatives that matches. -/
theorem firstM {ι : Type} {f : ι → Matcher α} {g : ι → Matcher β} (l : List ι)
    (h : ∀ i ∈ l, S.Matches n m A (f i) (g i)) :
    S.Matches n m A (l.firstM f) (l.firstM g) := by
  induction l with
  | nil => exact failure
  | cons i l ih =>
      exact orElse (h i List.mem_cons_self) (ih fun j hj => h j (List.mem_cons_of_mem i hj))

/-- A token that is read for the text it carries. No comma and no parenthesis is read so, hence
the depth stays and nothing is read at the border. -/
theorem token {read : Kind → Option α} {read' : Kind → Option β}
    (hlevel : ∀ k, ¬ k.IsLevel → read k = none ∧ read' k = none)
    (hread : ∀ k l, Kind.Alike S.word k l → Option.Rel A (read k) (read' l)) :
    S.Matches n n A (Matcher.token read) (Matcher.token read') := by
  intro c d hcd
  rw [Matcher.run_token, Matcher.run_token]
  have hborder : ∀ k : Kind, k = .comma ∨ k = .rightParen → ¬ k.IsLevel := by
    rintro k (rfl | rfl) hk <;> exact absurd (hk 0) (by simp [Kind.depth?])
  rcases S.next hcd with ⟨t, u, ht, hu, htu, hnext⟩ | ⟨hc, hd⟩
  · rw [ht, hu, Option.bind_some, Option.bind_some]
    have hrel := hread _ _ (S.kind_alike htu)
    by_cases hk : t.kind.IsLevel
    · match read t.kind, read' u.kind, hrel with
      | _, _, .none => exact .none
      | _, _, .some h => exact .some ⟨h, hnext n (hk n)⟩
    · rw [(hlevel _ hk).1] at hrel ⊢
      match read' u.kind, hrel with
      | _, .none => exact .none
  · have hnone : (c.peek 0).bind (fun t => read t.kind) = none := by
      refine Option.bind_eq_none_iff.2 fun t ht => ?_
      exact (hlevel _ (hborder _ (hc t ht).2)).1
    have hnone' : (d.peek 0).bind (fun t => read' t.kind) = none := by
      refine Option.bind_eq_none_iff.2 fun t ht => ?_
      exact (hlevel _ (hborder _ (hd t ht).2)).2
    rw [hnone, hnone']
    exact .none

/-- A token of a given kind, with the depth behind it. -/
theorem exactly {k : Kind} (hk : ∀ w, k ≠ .word w) (hdepth : k.depth? n = some m) :
    S.Matches n m S.token (Matcher.exactly k) (Matcher.exactly k) := by
  intro c d hcd
  rw [Matcher.run_exactly, Matcher.run_exactly]
  rcases S.next hcd with ⟨t, u, ht, hu, htu, hnext⟩ | ⟨hc, hd⟩
  · rw [ht, hu]
    have hiff := (S.kind_alike htu).eq_iff hk
    by_cases h : t.kind = k
    · have hrel := hnext m (h ▸ hdepth)
      simpa [Option.filter, h, hiff.1 h] using ⟨htu, hrel⟩
    · simp [Option.filter, h, mt hiff.2 h]
  · have hborder : ∀ c : Cursor, c.AtBorder n → (c.peek 0).filter (·.kind = k) = none := by
      intro c hc
      refine Option.filter_eq_none_iff.2 fun t ht hkind => ?_
      obtain ⟨rfl, h⟩ := hc t ht
      have hkind : t.kind = k := by simpa using hkind
      rw [← hkind] at hdepth
      rcases h with h | h <;> simp [h, Kind.depth?] at hdepth
    rw [hborder c hc, hborder d hd]
    exact .none

/-- A mark matches alike; the depth changes as it does behind the mark. -/
theorem mark {k : Kind} (hk : ∀ w, k ≠ .word w) (hdepth : k.depth? n = some m) :
    S.Matches n m Eq (Matcher.mark k) (Matcher.mark k) :=
  map (exactly hk hdepth) fun _ _ _ => rfl

/-- What is read as often as it matches, and the cursors behind the last match. -/
theorem many {p : Matcher α} {q : Matcher β} (hp : S.Matches n n A p q) {c d : Cursor}
    (hcd : S.rel n c d) :
    List.Forall₂ A (p.many c).1 (q.many d).1 ∧ S.rel n (p.many c).2 (q.many d).2 := by
  fun_induction Matcher.many p c generalizing d with
  | case1 c hc =>
      rw [Matcher.many]
      match p.run c, q.run d, hp hcd, hc with
      | _, _, .none, _ => exact ⟨.nil, hcd⟩
  | case2 c a rest hc hlt as last hlast ih =>
      rw [Matcher.many]
      match p.run c, q.run d, hp hcd, hc with
      | _, _, .some (b := (b, rest')) h, rfl =>
        have ih := ih h.2
        rw [hlast] at ih
        simpa [(S.length_lt_iff hcd h.2).1 hlt] using ⟨⟨h.1, ih.1⟩, ih.2⟩
  | case3 c a rest hc hlt =>
      rw [Matcher.many]
      match p.run c, q.run d, hp hcd, hc with
      | _, _, .some (b := (b, rest')) h, rfl =>
        simpa [mt (S.length_lt_iff hcd h.2).2 hlt] using hcd

end Matches

/-! ### Rules -/

namespace Obeys

/-- Related results answer alike. -/
theorem pure {a : α} {b : β} (h : A a b) : S.Obeys n n A (pure a) (pure b) :=
  fun _ _ hcd => .ok h hcd

/-- Sequences answer alike if their first parts do, and their second parts do for related
results. -/
theorem bind {r : Rule α} {s : Rule β} {f : α → Rule γ} {g : β → Rule δ}
    (hr : S.Obeys n m A r s) (hf : ∀ a b, A a b → S.Obeys m k B (f a) (g b)) :
    S.Obeys n k B (r >>= f) (s >>= g) := by
  intro c d hcd
  rw [Rule.runFrom_bind, Rule.runFrom_bind]
  match r.runFrom c, s.runFrom d, hr hcd with
  | _, _, .ok h hrel => exact hf _ _ h hrel
  | _, _, .error hstop => exact .error hstop

/-- Functions of the results may change the relation between these. -/
theorem map {r : Rule α} {s : Rule β} {f : α → γ} {g : β → δ} (hr : S.Obeys n m A r s)
    (hf : ∀ a b, A a b → B (f a) (g b)) : S.Obeys n m B (f <$> r) (g <$> s) := by
  intro c d hcd
  rw [Rule.runFrom_map, Rule.runFrom_map]
  match r.runFrom c, s.runFrom d, hr hcd with
  | _, _, .ok h hrel => exact .ok (hf _ _ h) hrel
  | _, _, .error hstop => exact .error hstop

/-- A required part answers alike: where it is missing, both runs may stop. -/
theorem require {p : Matcher α} {q : Matcher β} (hp : S.Matches n m A p q) (e : Expectation) :
    S.Obeys n m A (Rule.require p e) (Rule.require q e) := by
  intro c d hcd
  rw [Rule.runFrom_require, Rule.runFrom_require]
  match p.run c, q.run d, hp hcd with
  | _, _, .none => exact .error (S.stop_of_rel hcd)
  | _, _, .some h => exact .ok h.1 h.2

/-- An optional part answers alike. -/
theorem allow {p : Matcher α} {q : Matcher β} (hp : S.Matches n n A p q) :
    S.Obeys n n (Option.Rel A) (Rule.allow p) (Rule.allow q) := by
  intro c d hcd
  rw [Rule.runFrom_allow, Rule.runFrom_allow]
  match p.run c, q.run d, hp hcd with
  | _, _, .none => exact .ok .none hcd
  | _, _, .some h => exact .ok (.some h.1) h.2

/-- A repeated part answers alike, with rows of related results. -/
theorem many {p : Matcher α} {q : Matcher β} (hp : S.Matches n n A p q) :
    S.Obeys n n (List.Forall₂ A) (Rule.many p) (Rule.many q) := by
  intro c d hcd
  rw [Rule.runFrom_many, Rule.runFrom_many]
  obtain ⟨h, hrel⟩ := hp.many hcd
  exact .ok h hrel

/-- A decision answers alike if it comes out alike on related cursors. -/
theorem look {f g : Cursor → α} (h : ∀ c d, S.rel n c d → f c = g d) :
    S.Obeys n n Eq (Rule.look f) (Rule.look g) := by
  intro c d hcd
  rw [Rule.runFrom_look, Rule.runFrom_look, h c d hcd]
  exact .ok rfl hcd

/-- A row of items with separators: an item, and behind a separator again a row. -/
theorem separated {sep sep' : Matcher Unit} {r : Rule α} {s : Rule β}
    (hsep : S.Matches n n Eq sep sep') (hr : S.Obeys n n A r s) :
    S.Obeys n n (List.Forall₂ A) (Rule.separated sep r) (Rule.separated sep' s) := by
  intro c d hcd
  rw [Rule.separated, Rule.separated, Rule.runFrom_ofFunction, Rule.runFrom_ofFunction]
  induction hlen : c.length using Nat.strongRecOn generalizing c d with
  | _ len ih =>
  rw [Rule.separatedFrom, Rule.separatedFrom]
  have hitem := hr hcd
  generalize r.runFrom c = item, s.runFrom d = item' at hitem ⊢
  cases hitem with
  | error hstop => exact .error hstop
  | @ok a b behind behind' h hrel =>
    have hmark := hsep hrel
    simp only
    generalize sep.run behind = mark, sep'.run behind' = mark' at hmark ⊢
    cases hmark with
    | none => exact .ok (.cons h .nil) hrel
    | @some x y hnext =>
      simp only [S.length_lt_iff hcd hnext.2]
      by_cases hlt : y.2.length < d.length
      · rw [if_pos hlt, if_pos hlt]
        have hlt' := (S.length_lt_iff hcd hnext.2).2 hlt
        have hitems := ih _ (hlen ▸ hlt') hnext.2 rfl
        generalize Rule.separatedFrom sep r x.2 = items,
          Rule.separatedFrom sep' s y.2 = items' at hitems ⊢
        cases hitems with
        | error hstop => exact .error hstop
        | ok hs hrel' => exact .ok (.cons h hs) hrel'
      · rw [if_neg hlt, if_neg hlt]
        exact .ok (.cons h .nil) hrel

/-- A part behind each lead, as long as leads come. -/
theorem follow {lead lead' : Matcher Unit} {r s : Rule Unit}
    (hlead : S.Matches n n Eq lead lead') (hr : S.Obeys n n Eq r s) :
    S.Obeys n n Eq (Rule.follow lead r) (Rule.follow lead' s) := by
  intro c d hcd
  rw [Rule.follow, Rule.follow, Rule.runFrom_ofFunction, Rule.runFrom_ofFunction]
  induction hlen : c.length using Nat.strongRecOn generalizing c d with
  | _ len ih =>
  rw [Rule.followFrom, Rule.followFrom]
  have hmark := hlead hcd
  generalize lead.run c = mark, lead'.run d = mark' at hmark ⊢
  cases hmark with
  | none => exact .ok rfl hcd
  | @some x y h =>
    have hpart := hr h.2
    simp only
    generalize r.runFrom x.2 = part, s.runFrom y.2 = part' at hpart ⊢
    cases hpart with
    | error hstop => exact .error hstop
    | @ok _ _ next next' _ hrel =>
      simp only [S.length_lt_iff hcd hrel]
      by_cases hlt : next'.length < d.length
      · rw [if_pos hlt, if_pos hlt]
        exact ih _ (hlen ▸ (S.length_lt_iff hcd hrel).2 hlt) hrel rfl
      · rw [if_neg hlt, if_neg hlt]
        exact .ok rfl hrel

end Obeys

end Simulation

end CreateTable
