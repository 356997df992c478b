import CreateTable.Proofs.Grammar.Group
import CreateTable.Proofs.Key.Clause

/-!
# The columns of a key clause

The columns of a key clause are its first group in parentheses, for everything before them is flat:
the names, the kind and the options of the key. What stands behind the columns can therefore be
found, and a key clause be told from other tokens, without reading the clause.

## Main definitions

* `Key.IsOpening`: what is known of the tokens before the columns.
* `Cursor.namesType`: tokens that look like those of a column.

## Main statements

* `Key.IsSpelledBy.exists_columns`: a key clause, cut at its columns.
* `Key.IsSpelledBy.groupHead?`: the first parenthesis of a key clause is followed by a name.
* `Key.IsSpelledBy.opensAt_eq`: which key clauses are told from columns by their first tokens.
-/

namespace CreateTable

open Text

/-! ### Flat tokens -/

/-- A row of parts without parentheses has no parenthesis. -/
theorem Cursor.Row.isFlat {p : Cursor → Prop} {ts : Cursor} (h : Row p ts)
    (hp : ∀ us, p us → us.IsFlat) : ts.IsFlat := by
  induction h with
  | nil => exact isFlat_nil
  | cons hts _ ih => exact isFlat_append.2 ⟨hp _ hts, ih⟩

namespace Key

/-- An option has no parenthesis. -/
theorem IsOption.isFlat {ts : Cursor} (h : IsOption ts) : ts.IsFlat := by
  cases h with
  | type hw ht => simp [Kind.not_paren_of_isWord hw, Kind.not_paren_of_name? ht]
  | comment hw ht => simp [Kind.not_paren_of_isWord hw, ht]

/-- A constraint in front of a key has no parenthesis. -/
theorem IsConstraint.isFlat {kind : KeyKind} {constraint : Option String} {ts : Cursor}
    (h : IsConstraint kind constraint ts) : ts.IsFlat := by
  cases h with
  | absent => exact Cursor.isFlat_nil
  | unnamed _ ht => simp [Kind.not_paren_of_isWord ht]
  | named ht hn =>
      simp [Kind.not_paren_of_isWord ht, Kind.not_paren_of_name? hn.1]

/-- The name of an index has no parenthesis. -/
theorem IsIndexName.isFlat {kind : KeyKind} {ws : List String} {index : Option String}
    {ts : Cursor} (h : IsIndexName kind ws index ts) : ts.IsFlat := by
  cases h with
  | absent => exact Cursor.isFlat_nil
  | named _ ht => simp [Kind.not_paren_of_name? ht.1]

/-! ### The columns -/

/-- A column row is one group, so what is behind the group is what is behind the row. -/
theorem IsColumnRow.behindGroup {names : List String} {ts : Cursor} (h : IsColumnRow names ts)
    (d : Cursor) : Cursor.behindGroup 0 (ts ++ d) = d := by
  obtain ⟨hl, hjoined, hall, hr⟩ := h
  rename_i l r b ss
  have hsegments : ∀ s ∈ ss, s.IsSegment := by
    intro s hs
    obtain ⟨name, -, hcolumn⟩ := exists_of_forall₂ hall s hs
    exact hcolumn.isSegment
  rw [List.cons_append, List.append_assoc, List.singleton_append]
  exact (hjoined.isBalanced hsegments).behindGroup hl hr d

/-- The tokens before the columns of a key clause are flat, and the first one is an opening word. -/
structure IsOpening (hs : Cursor) : Prop where
  flat : hs.IsFlat
  opens : ∃ t ∈ hs.head?, ∃ w ∈ openingWords, t.kind.isWord w = true

/-- The words that lead a kind of key are among the words that open a clause. -/
theorem leads_subset_openingWords (kind : KeyKind) : kind.leads ⊆ openingWords := by
  cases kind <;> decide

/-- A key clause is its opening, its columns, the target of a foreign key, and options. -/
theorem IsSpelledBy.exists_columns {key : Key} {ts : Cursor} (h : key.IsSpelledBy ts) :
    ∃ hs bs rs us, ts = hs ++ (bs ++ (rs ++ us)) ∧ IsOpening hs ∧ IsColumnRow key.columns bs ∧
      IsTarget key.kind key.references rs ∧ Cursor.Row IsOption us := by
  obtain ⟨hcs, hws, hks, his, hos, -, hbs, hrs, hus⟩ := h
  rename_i kind constraint index columns references ws cs ks is os bs rs us
  refine ⟨cs ++ (ks ++ (is ++ os)), bs, rs, us, by simp only [List.append_assoc], ⟨?_, ?_⟩, hbs,
    hrs, hus⟩
  · have hoptions := hos.isFlat fun _ => IsOption.isFlat
    simp [hcs.isFlat, hks.isFlat, his.isFlat, hoptions]
  · obtain ⟨u, ks', rfl, v, hv, hu⟩ := KeyKind.exists_cons_of_spells hws hks
    cases hcs with
    | absent => exact ⟨u, rfl, v, leads_subset_openingWords kind hv, hu⟩
    | unnamed _ ht => exact ⟨_, rfl, "constraint", by decide, ht⟩
    | named ht _ => exact ⟨_, rfl, "constraint", by decide, ht⟩

/-- The first parenthesis of a key clause is followed by a name. -/
theorem IsSpelledBy.groupHead? {key : Key} {ts : Cursor} (h : key.IsSpelledBy ts) :
    ∃ t name, ts.groupHead? = some t ∧ t.kind.name? = some name := by
  obtain ⟨hs, bs, rs, us, rfl, hopening, hbs, -⟩ := h.exists_columns
  obtain ⟨l, t, d, name, rfl, hl, ht⟩ := hbs.exists_cons_cons
  refine ⟨t, name, ?_, ht⟩
  rw [hopening.flat.groupHead?_append, List.cons_append, List.cons_append,
    Cursor.groupHead?_cons_cons hl]

end Key

/-! ### Telling a key clause from a column -/

/-- The second token is the unquoted name of a type, and the third one opens no parenthesis. -/
def Cursor.namesType (c : Cursor) : Bool :=
  (c.peek 1).any (·.kind.isTypeName) && !c.atKind 2 .leftParen

/-- Looking ahead does not see the tokens that are left out. -/
theorem Cursor.peek_significant (c : Cursor) (n : Nat) : peek c.significant n = c.peek n := by
  rw [peek_eq, peek_eq, (isBare_significant c).significant_eq]

/-- Whether a type is named behind a word does not depend on the tokens that are left out. -/
theorem Cursor.namesType_significant (c : Cursor) : namesType c.significant = c.namesType := by
  simp only [namesType, atKind, peek_significant]

/-- No type is named where the second token is no type name or a parenthesis follows it. -/
theorem Cursor.namesType_eq_false {t u : Token} {c : Cursor} (hc : IsBare (t :: u :: c))
    (h : u.kind.isTypeName = false ∨ ∃ l ∈ c.head?, l.kind = .leftParen) :
    namesType (t :: u :: c) = false := by
  rw [namesType, atKind, hc.peek_eq, hc.peek_eq]
  rcases h with hu | ⟨l, hl, hparen⟩
  · simp [hu]
  · obtain ⟨d, rfl⟩ := List.head?_eq_some_iff.1 hl
    simp [hparen]

namespace Key

/-- A clause opens at one of its words, unless a type with its parameters follows the word. -/
theorem opensAt_eq_and (c : Cursor) :
    opensAt c = (openingWords.any (c.atWord 0) && (!(c.peek 1).any (·.kind.isTypeName)
      || (c.atKind 2 .leftParen && !(c.peek 3).any (·.kind.isNumber)))) := by
  have htype : ((c.peekWord 1).bind TypeName.ofKeyword?).isNone
      = !(c.peek 1).any (·.kind.isTypeName) := by
    rw [← Cursor.typeName_eq_any]
    cases (c.peekWord 1).bind TypeName.ofKeyword? <;> rfl
  rw [opensAt, htype]

/-- Trivia have no say in what the first tokens tell. -/
theorem opensAt_significant (c : Cursor) : opensAt c.significant = opensAt c := by
  have hword : Cursor.atWord c.significant 0 = Cursor.atWord c 0 := by
    funext w
    rw [Cursor.atWord_eq_any, Cursor.atWord_eq_any, Cursor.peek_significant]
  simp only [opensAt_eq_and, hword, Cursor.atKind, Cursor.peek_significant]

/-- In front of its columns a key clause has no parenthesis, and the first parenthesis is followed
by a name; so of the tokens that are looked at only the second and the third matter. -/
theorem IsSpelledBy.opensAt_eq {key : Key} {ts rest : Cursor} (h : key.IsSpelledBy ts)
    (hc : Cursor.IsBare (ts ++ rest)) : opensAt (ts ++ rest) = !Cursor.namesType (ts ++ rest) := by
  obtain ⟨hs, bs, rs, us, rfl, hopening, hbs, -⟩ := h.exists_columns
  obtain ⟨l, n, d, name, rfl, hl, hn⟩ := hbs.exists_cons_cons
  obtain ⟨t, ht, w, hw, hword⟩ := hopening.opens
  obtain ⟨hs, rfl⟩ := List.head?_eq_some_iff.1 ht
  have hfirst : openingWords.any
      (Cursor.atWord (t :: hs ++ (l :: n :: d ++ (rs ++ us)) ++ rest) 0) = true := by
    refine List.any_eq_true.2 ⟨w, hw, ?_⟩
    rw [hc.atWord_eq]
    exact hword
  rw [opensAt_eq_and, hfirst, Cursor.namesType, Cursor.atKind, hc.peek_eq, hc.peek_eq, hc.peek_eq]
  have hflat := (Cursor.isFlat_cons.1 hopening.flat).2
  -- the opening is the opening word alone, that word and one more, or longer
  cases hs with
  | nil => simp [hl, Kind.isTypeName]
  | cons u hs =>
      cases hs with
      | nil => simp [hl, Kind.not_isNumber_of_name? hn]
      | cons v hs =>
          have hv : (v.kind == .leftParen) = false :=
            beq_false_of_ne fun hv => by simp [hv] at hflat
          simp [hv]

end Key

end CreateTable
