import CreateTable.Proofs.Grammar.Pieces

/-!
# The first group in parentheses

A key clause has its columns in its first group in parentheses, a column has the parameters of its
type there, and everything before the group is flat. So the group can be found without reading the
clause.

## Main definitions

* `Cursor.IsFlat`: tokens without parentheses.
* `Cursor.groupHead?`: the token behind the first opening parenthesis.
* `Cursor.behindGroup`: the tokens behind the first group in parentheses.

## Main statements

* `Cursor.Spells.isFlat`: keywords are flat.
* `Cursor.IsFlat.groupHead?_append`, `Cursor.IsFlat.behindGroup_append`: flat tokens are passed
  over.
* `Cursor.IsBalanced.behindGroup`: a group ends with the partner of its first parenthesis.
-/

namespace CreateTable

/-- A keyword is no parenthesis. -/
theorem Kind.not_paren_of_isWord {k : Kind} {w : String} (h : k.isWord w = true) :
    k ∉ [Kind.leftParen, .rightParen] := by
  intro hk
  rcases List.mem_pair.1 hk with rfl | rfl <;> cases h

/-- A name is no parenthesis. -/
theorem Kind.not_paren_of_name? {k : Kind} {name : String} (h : k.name? = some name) :
    k ∉ [Kind.leftParen, .rightParen] := by
  intro hk
  rcases List.mem_pair.1 hk with rfl | rfl <;> cases h

namespace Cursor

/-- Tokens are **flat** when no parenthesis is among them. -/
def IsFlat (c : Cursor) : Prop :=
  ∀ t ∈ c, t.kind ∉ [Kind.leftParen, .rightParen]

/-- The end of the tokens is flat. -/
@[simp] theorem isFlat_nil : IsFlat [] :=
  nofun

/-- A row of tokens is flat if its first token is no parenthesis and the rest is flat. -/
@[simp] theorem isFlat_cons {t : Token} {c : Cursor} :
    IsFlat (t :: c) ↔ t.kind ∉ [Kind.leftParen, .rightParen] ∧ IsFlat c :=
  List.forall_mem_cons

/-- Two rows of tokens are flat together if each of them is. -/
@[simp] theorem isFlat_append {c d : Cursor} : IsFlat (c ++ d) ↔ IsFlat c ∧ IsFlat d :=
  List.forall_mem_append

/-- Keywords are flat. -/
theorem Spells.isFlat {ws : List String} {ts : Cursor} (h : ts.Spells ws) : ts.IsFlat := by
  induction h with
  | nil => exact isFlat_nil
  | cons ht _ ih => exact isFlat_cons.2 ⟨Kind.not_paren_of_isWord ht, ih⟩

/-- The token behind the first opening parenthesis. -/
def groupHead? (c : Cursor) : Option Token :=
  (c.dropWhile (·.kind ≠ .leftParen))[1]?

/-- The tokens behind the first group in parentheses, when `n` parentheses are open before the first
token. -/
def behindGroup : Nat → Cursor → Cursor
  | _, [] => []
  | n, t :: c =>
    match t.kind with
    | .leftParen => behindGroup (n + 1) c
    | .rightParen => if n ≤ 1 then c else behindGroup (n - 1) c
    | _ => behindGroup n c

namespace IsFlat

variable {c : Cursor}

/-- Flat tokens do not begin with a parenthesis. -/
theorem head?_append_ne (h : c.IsFlat) {d : Cursor} (hd : ∀ t ∈ d.head?, t.kind ≠ .leftParen) :
    ∀ t ∈ (c ++ d).head?, t.kind ≠ .leftParen := by
  cases c with
  | nil => exact hd
  | cons t c =>
      rintro _ ⟨⟩ ht
      simp [ht] at h

/-- The first group behind flat tokens is the first group of all. -/
theorem groupHead?_append (h : c.IsFlat) (d : Cursor) : (c ++ d).groupHead? = d.groupHead? := by
  have hopen : ∀ t ∈ c, decide (t.kind ≠ .leftParen) = true := fun t ht =>
    decide_eq_true fun hkind => h t ht (by simp [hkind])
  rw [groupHead?, List.dropWhile_append_of_pos hopen, groupHead?]

/-- Flat tokens have no group. -/
theorem groupHead?_eq_none (h : c.IsFlat) : c.groupHead? = none := by
  rw [← List.append_nil c, h.groupHead?_append]
  rfl

/-- Flat tokens in front of a group do not change what stands behind it. -/
theorem behindGroup_append (h : c.IsFlat) (n : Nat) (d : Cursor) :
    behindGroup n (c ++ d) = behindGroup n d := by
  induction c with
  | nil => rfl
  | cons t c ih =>
      obtain ⟨ht, hc⟩ := isFlat_cons.1 h
      rw [List.cons_append, behindGroup]
      split
      · next hkind => simp [hkind] at ht
      · next hkind => simp [hkind] at ht
      · exact ih hc

end IsFlat

/-- The first token inside a group is the one behind its parenthesis. -/
theorem groupHead?_cons_cons {l t : Token} (hl : l.kind = .leftParen) (c : Cursor) :
    groupHead? (l :: t :: c) = some t := by
  simp [groupHead?, hl]

/-- Tokens that close all parentheses but one are passed over, up to the one that is closed behind
them. -/
theorem behindGroup_of_nestingAfter? {c : Cursor} {n : Nat} {r : Token}
    (h : c.nestingAfter? n = some 0) (hr : r.kind = .rightParen) (d : Cursor) :
    behindGroup (n + 1) (c ++ r :: d) = d := by
  induction c generalizing n with
  | nil =>
      obtain rfl : n = 0 := by simpa using h
      rw [List.nil_append, behindGroup, hr]
      rfl
  | cons t c ih =>
      rw [nestingAfter?_cons, Option.bind_eq_some_iff] at h
      obtain ⟨m, hm, h⟩ := h
      rw [List.cons_append, behindGroup]
      split
      · next hkind =>
        obtain rfl : n + 1 = m := by simpa [hkind, Kind.nesting?] using hm
        exact ih h
      · next hkind =>
        cases n with
        | zero => simp [hkind, Kind.nesting?] at hm
        | succ n =>
            obtain rfl : n = m := by simpa [hkind, Kind.nesting?] using hm
            rw [if_neg (by omega), Nat.add_sub_cancel]
            exact ih h
      · next hleft hright =>
        obtain rfl : n = m := by
          cases hk : t.kind <;> simp_all [Kind.nesting?]
        exact ih h

/-- A group ends with the partner of its first parenthesis. -/
theorem IsBalanced.behindGroup {b : Cursor} (h : b.IsBalanced) {l r : Token}
    (hl : l.kind = .leftParen) (hr : r.kind = .rightParen) (d : Cursor) :
    behindGroup 0 (l :: (b ++ r :: d)) = d := by
  rw [Cursor.behindGroup, hl]
  exact behindGroup_of_nestingAfter? h hr d

end Cursor

end CreateTable
