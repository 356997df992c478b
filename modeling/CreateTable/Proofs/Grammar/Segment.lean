import CreateTable.Proofs.Grammar.Significant

/-!
# Segments

A segment is a row of significant tokens in which every parenthesis has its partner and no comma
stands outside of parentheses. An item of a statement that is read completely is a segment, and
what stands behind the segment has no say in how it is read: a rule never looks past the comma
or the closing parenthesis that ends its item.

Both facts are simulations: of a cursor by itself, counting the parentheses, and of a segment
with a rest behind it by the segment alone.

## Main definitions

* `Cursor.depthAfter?`, `Cursor.IsSegment`: the count of parentheses over a row of tokens.
* `Simulation.counting`, `Simulation.border`: the two simulations.

## Main statements

* `Rule.exists_prefix`: what a rule reads at depth zero is a segment.
* `Rule.runFrom_append`: a rule reads a segment alike with and without a rest behind it.
* `Rule.runFrom_eq_ok_iff`, `Item.runFrom_eq_ok_iff`: both together, for a rule and for the items
  of a statement.
-/

namespace CreateTable

namespace Cursor

/-- The depth of parentheses behind the tokens `c`, the first of which stands at depth `n`. -/
def depthAfter? (n : Nat) (c : Cursor) : Option Nat :=
  c.foldlM (fun n t => t.kind.depth? n) n

/-- A row of significant tokens is a **segment** when every parenthesis in it has its partner in
it and no comma stands outside of parentheses. -/
def IsSegment (c : Cursor) : Prop :=
  c.depthAfter? 0 = some 0

/-- Behind no tokens the depth is the same. -/
@[simp] theorem depthAfter?_nil (n : Nat) : depthAfter? n [] = some n := rfl

/-- The first token is counted first, and the rest goes on from there. -/
@[simp] theorem depthAfter?_cons (n : Nat) (t : Token) (c : Cursor) :
    depthAfter? n (t :: c) = (t.kind.depth? n).bind fun m => depthAfter? m c := rfl

/-- The second of two rows is counted from where the first one ended. -/
theorem depthAfter?_append (n : Nat) (c d : Cursor) :
    depthAfter? n (c ++ d) = (depthAfter? n c).bind fun m => depthAfter? m d := by
  simp [depthAfter?, List.foldlM_append]

/-- Only a significant token has a depth behind it. -/
theorem not_isTrivia_of_depth? {t : Token} {n m : Nat} (h : t.kind.depth? n = some m) :
    t.isTrivia = false := by
  rw [Token.isTrivia]
  cases hk : t.kind <;> simp_all [Kind.isTrivia, Kind.depth?]

/-- Only significant tokens are counted. -/
theorem isBare_of_depthAfter? {c : Cursor} {n m : Nat} (h : c.depthAfter? n = some m) :
    c.IsBare := by
  induction c generalizing n with
  | nil => simp [IsBare]
  | cons t c ih =>
      rw [depthAfter?_cons, Option.bind_eq_some_iff] at h
      obtain ⟨k, hk, h⟩ := h
      rw [IsBare, List.forall_mem_cons]
      exact ⟨not_isTrivia_of_depth? hk, ih h⟩

/-- What may stand behind a segment: nothing, or a comma or a closing parenthesis first. -/
structure IsBorder (c : Cursor) : Prop where
  trimmed : c.skipTrivia = c
  atBorder : c.AtBorder 0

/-- The end of the tokens is a border. -/
theorem isBorder_nil : IsBorder [] :=
  ⟨rfl, by simp [AtBorder, peek, skipTrivia]⟩

/-- A comma or a closing parenthesis is a border, whatever stands behind it. -/
theorem isBorder_cons {t : Token} (c : Cursor) (h : t.kind = .comma ∨ t.kind = .rightParen) :
    IsBorder (t :: c) := by
  have ht : t.isTrivia = false := by
    rcases h with h | h <;> simp [Token.isTrivia, h, Kind.isTrivia]
  have htrim : skipTrivia (t :: c) = t :: c := by simp [skipTrivia, ht]
  refine ⟨htrim, fun u hu => ⟨rfl, ?_⟩⟩
  rw [peek, htrim, List.head?_cons, Option.some.injEq] at hu
  exact hu ▸ h

end Cursor

/-! ### What a rule reads is a segment -/

/-- The cursors behind `c₀` related to themselves, at the depth that the tokens before them lead
to when the first stands at depth `n₀`. -/
structure Cursor.Counted (n₀ : Nat) (c₀ : Cursor) (n : Nat) (c d : Cursor) : Prop where
  eq : c = d
  counted : ∃ e, c₀ = e ++ c ∧ e.depthAfter? n₀ = some n

/-- The simulation of a bare cursor by itself, which counts parentheses. -/
def Simulation.counting (n₀ : Nat) (c₀ : Cursor) (h₀ : c₀.IsBare) : Simulation where
  toLikeness := .exact
  rel := Cursor.Counted n₀ c₀
  stop _ _ := True
  stop_of_rel _ := trivial
  trimmed := by
    rintro n c _ ⟨rfl, e, he, -⟩
    have hc := (h₀.of_suffix ⟨e, he.symm⟩).trimmed
    exact ⟨hc, hc⟩
  next := by
    rintro n c _ ⟨rfl, e, he, hcount⟩
    have hbare := h₀.of_suffix ⟨e, he.symm⟩
    cases c with
    | nil => exact .inr (by simp [Cursor.AtBorder, Cursor.peek, Cursor.skipTrivia])
    | cons t c =>
        have ht := Cursor.peek_cons c (hbare t List.mem_cons_self)
        refine .inl ⟨t, t, ht, ht, rfl, fun m hm => ?_⟩
        rw [Cursor.advance_cons (hbare.of_suffix (List.suffix_cons t c)).trimmed]
        refine ⟨rfl, e ++ [t], by simp [he], ?_⟩
        simp [Cursor.depthAfter?_append, hcount, hm]
  length_lt_iff := by
    rintro n m c _ c' _ ⟨rfl, -⟩ ⟨rfl, -⟩
    exact Iff.rfl

/-- What a rule reads that keeps all simulations from depth `n` to depth `m` leads from the one
depth to the other; at depth zero it is a segment. -/
theorem Rule.exists_prefix {α : Type} {A : α → α → Prop} {r : Rule α} {c rest : Cursor} {a : α}
    {n m : Nat} (hc : c.IsBare) (hr : (Simulation.counting n c hc).Obeys n m A r r)
    (h : r.runFrom c = (.ok a, rest)) : ∃ s, c = s ++ rest ∧ s.depthAfter? n = some m := by
  have hanswer := hr ⟨rfl, [], rfl, rfl⟩
  rw [h] at hanswer
  cases hanswer with
  | ok _ hrel => exact hrel.counted

/-! ### What stands behind a segment has no say -/

/-- A cursor with `x` behind it, related to the cursor alone. -/
structure Cursor.Extends (x : Cursor) (n : Nat) (c d : Cursor) : Prop where
  eq : c = d ++ x
  depth : d.depthAfter? n = some 0

/-- The simulation of a segment, or the rest of one, with `x` behind it by that alone. -/
def Simulation.border (x : Cursor) (hx : x.IsBorder) : Simulation where
  toLikeness := .exact
  rel := Cursor.Extends x
  stop c d := c = d ++ x
  stop_of_rel h := h.eq
  trimmed := by
    rintro n _ d ⟨rfl, h⟩
    refine ⟨?_, (Cursor.isBare_of_depthAfter? h).trimmed⟩
    exact Cursor.trimmed_append (Cursor.isBare_of_depthAfter? h) hx.trimmed
  next := by
    rintro n _ d ⟨rfl, h⟩
    cases d with
    | nil =>
        obtain rfl : n = 0 := by simpa using h
        exact .inr ⟨hx.atBorder, Cursor.isBorder_nil.atBorder⟩
    | cons t d =>
        rw [Cursor.depthAfter?_cons, Option.bind_eq_some_iff] at h
        obtain ⟨k, hk, h⟩ := h
        have ht := Cursor.not_isTrivia_of_depth? hk
        have hd := Cursor.isBare_of_depthAfter? h
        refine .inl ⟨t, t, Cursor.peek_cons _ ht, Cursor.peek_cons _ ht, rfl, fun m hm => ?_⟩
        obtain rfl : k = m := Option.some.inj (hk.symm.trans hm)
        rw [List.cons_append, Cursor.advance_cons hd.trimmed,
          Cursor.advance_cons (Cursor.trimmed_append hd hx.trimmed)]
        exact ⟨rfl, h⟩
  length_lt_iff := by
    rintro n m _ d _ d' ⟨rfl, -⟩ ⟨rfl, -⟩
    simp

/-- A rule that keeps all simulations reads a segment as if nothing stood behind it. -/
theorem Rule.runFrom_append {α : Type} {A : α → α → Prop} {r : Rule α} {s x : Cursor}
    (hx : x.IsBorder) (hr : (Simulation.border x hx).Obeys 0 0 A r r)
    (hA : ∀ a b, A a b → a = b) (hs : s.IsSegment) :
    r.runFrom (s ++ x) = ((r.runFrom s).1, (r.runFrom s).2 ++ x) := by
  match r.runFrom (s ++ x), r.runFrom s, hr ⟨rfl, hs⟩ with
  | _, _, .ok h hrel => rw [hA _ _ h, hrel.eq]
  | _, _, .error hstop => rw [show _ = _ from hstop]

/-- A rule stops at a border exactly if what stands before the border is a segment that the rule
reads completely by itself. -/
theorem Rule.runFrom_eq_ok_iff {α : Type} {A : (String → String → Prop) → α → α → Prop}
    {r : Rule α} (hr : ∀ S : Simulation, S.Obeys 0 0 (A S.word) r r)
    (hA : ∀ a b, A Eq a b → a = b) {c rest : Cursor} {a : α} (hc : c.IsBare)
    (hrest : rest.IsBorder) :
    r.runFrom c = (.ok a, rest) ↔
      ∃ s, c = s ++ rest ∧ s.IsSegment ∧ r.runFrom s = (.ok a, []) := by
  constructor
  · intro h
    obtain ⟨s, rfl, hs⟩ := Rule.exists_prefix hc (hr _) h
    rw [Rule.runFrom_append hrest (hr _) hA hs, Prod.mk.injEq] at h
    have hstop : (r.runFrom s).2 = [] := by simpa using h.2
    exact ⟨s, rfl, hs, Prod.ext h.1 hstop⟩
  · rintro ⟨s, rfl, hs, h⟩
    rw [Rule.runFrom_append hrest (hr _) hA hs, h, List.nil_append]

/-- An item is read up to a border exactly if the tokens before the border are a segment that is
the item. -/
theorem Item.runFrom_eq_ok_iff {c rest : Cursor} {i : Item} (hc : c.IsBare)
    (hrest : rest.IsBorder) :
    Item.rule.runFrom c = (.ok i, rest) ↔
      ∃ s, c = s ++ rest ∧ s.IsSegment ∧ Item.rule.runFrom s = (.ok i, []) :=
  Rule.runFrom_eq_ok_iff (fun S => S.obeys_item) (fun _ _ => Item.Alike.eq) hc hrest

end CreateTable
