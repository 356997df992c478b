import CreateTable.Proofs.Column.Grammar
import CreateTable.Proofs.Grammar.Group

/-!
# The parameters of a column

The only parentheses of a column are those around the parameters of its type, which are numbers.
That tells a column from a key clause, where a name stands behind the first parenthesis.

## Main definitions

* `Kind.IsClausal`: the kinds of the tokens behind the parameters.

## Main statements

* `Column.IsSpelledBy.groupHead?`: the first parenthesis of a column is followed by a number.
* `Column.IsSpelledBy.opensAt_append`: no column is taken for a key clause.
-/

namespace CreateTable

/-! ### The tokens behind the parameters -/

/-- The kinds of the tokens behind the type and the parameters of a column: words, numbers, strings
in single quotes, and minus signs. -/
def Kind.IsClausal : Kind → Prop
  | .word _ | .number _ _ | .quoted .single _ | .minus => True
  | _ => False

/-- A keyword can stand behind the parameters of a column. -/
theorem Kind.isClausal_of_isWord {k : Kind} {w : String} (h : k.isWord w = true) :
    k.IsClausal := by
  obtain ⟨v, rfl⟩ := Kind.exists_of_isWord h
  trivial

/-- No parenthesis stands behind the parameters of a column. -/
theorem Kind.IsClausal.not_paren {k : Kind} (h : k.IsClausal) :
    k ∉ [Kind.leftParen, .rightParen] := by
  intro hk
  simp only [List.mem_cons, List.not_mem_nil, or_false] at hk
  rcases hk with rfl | rfl
  · exact h
  · exact h

/-- Keywords can stand behind the parameters of a column. -/
theorem Cursor.Spells.isClausal {ws : List String} {ts : Cursor} (h : ts.Spells ws) :
    ∀ t ∈ ts, t.kind.IsClausal := by
  induction h with
  | nil => nofun
  | cons ht _ ih => exact List.forall_mem_cons.2 ⟨Kind.isClausal_of_isWord ht, ih⟩

/-- Words about the current time can stand behind the parameters of a column. -/
theorem Value.SomeOf.isClausal {ts : Cursor} {ws : List String} (h : SomeOf ts ws) :
    ∀ t ∈ ts, t.kind.IsClausal := by
  induction h with
  | nil => nofun
  | cons ht _ ih => exact List.forall_mem_cons.2 ⟨Kind.isClausal_of_isWord ht, ih⟩
  | cons_right _ ih => exact ih

/-- A value can stand behind the parameters of a column. -/
theorem Value.IsSpelledBy.isClausal {v : Value} {ts : Cursor} (h : v.IsSpelledBy ts) :
    ∀ t ∈ ts, t.kind.IsClausal := by
  cases h with
  | null ht => simpa using Kind.isClausal_of_isWord ht
  | literal ht | numeric ht => simp [ht, Kind.IsClausal]
  | negative hm ht => simp [hm, ht, Kind.IsClausal]
  | expression _ h => exact h.isClausal

/-- Modifiers can stand behind the parameters of a column. -/
theorem Attribute.AreSpelledBy.isClausal {as : List Attribute} {ts : Cursor}
    (h : AreSpelledBy as ts) : ∀ t ∈ ts, t.kind.IsClausal := by
  induction h with
  | nil => nofun
  | cons hwords _ ih => exact List.forall_mem_append.2 ⟨hwords.isClausal, ih⟩

namespace Column

variable {column : Column} {ts rest : Cursor}

/-- A clause can stand behind the parameters of a column. -/
theorem HasClause.isClausal {keyword : String} {v : Option Value}
    (h : HasClause keyword v ts) : ∀ t ∈ ts, t.kind.IsClausal := by
  cases h with
  | absent => nofun
  | present h =>
      cases h with
      | bare ht => simpa using Kind.isClausal_of_isWord ht
      | value ht hv => exact List.forall_mem_cons.2 ⟨Kind.isClausal_of_isWord ht, hv.isClausal⟩

/-- Behind the parameters of a column stands no parenthesis. -/
theorem isFlat_behindParameters {attributes default comment : Cursor} {as : List Attribute}
    {w w' : String} {v v' : Option Value} (hattributes : Attribute.AreSpelledBy as attributes)
    (hdefault : HasClause w v default) (hcomment : HasClause w' v' comment) :
    Cursor.IsFlat (attributes ++ (default ++ comment)) := by
  rw [Cursor.isFlat_append, Cursor.isFlat_append]
  exact ⟨fun t ht => (hattributes.isClausal t ht).not_paren,
    fun t ht => (hdefault.isClausal t ht).not_paren,
    fun t ht => (hcomment.isClausal t ht).not_paren⟩

/-! ### Parameters -/

/-- The first token between parentheses, if there are any, is a number. -/
theorem groupHead?_parameters {parameters c : Cursor} {length scale : Option String}
    (hparameters : DataType.HasParameters length scale parameters) (hc : c.IsFlat) :
    ∀ t ∈ (parameters ++ c).groupHead?, t.kind.isNumber = true := by
  intro t ht
  cases hparameters with
  | absent =>
      rw [List.nil_append, hc.groupHead?_eq_none] at ht
      cases ht
  | one hl hd _ | two hl hd _ _ _ =>
      rw [List.cons_append, List.cons_append, Cursor.groupHead?_cons_cons hl] at ht
      obtain rfl := Option.some.inj ht
      obtain ⟨long, hd, -⟩ := hd
      rw [hd]
      rfl

/-- If a column has a parenthesis, the first one is followed by a number. -/
theorem IsSpelledBy.groupHead? (h : column.IsSpelledBy ts) :
    ∀ t ∈ ts.groupHead?, t.kind.isNumber = true := by
  obtain ⟨hn, hu, hparameters, hattributes, hdefault, hcomment, -⟩ := h
  rename_i name type parameters attributes default comment text
  have hopening : Cursor.IsFlat [name, type] := by
    simp [Kind.not_paren_of_name? hn, Kind.not_paren_of_isWord hu]
  have hbehind := isFlat_behindParameters hattributes hdefault hcomment
  have hgroup := hopening.groupHead?_append (parameters ++ (attributes ++ (default ++ comment)))
  rw [List.cons_append, List.singleton_append] at hgroup
  rw [hgroup]
  exact groupHead?_parameters hparameters hbehind

/-- In a parenthesis behind the name of a type stands a number. -/
theorem opensName_eq_false {n u : Token} {parameters c : Cursor} {length scale : Option String}
    (hparameters : DataType.HasParameters length scale parameters)
    (hc : ∀ t ∈ c.head?, t.kind ≠ .leftParen)
    (hbare : Cursor.IsBare (n :: u :: (parameters ++ c))) :
    (Cursor.atKind (n :: u :: (parameters ++ c)) 2 .leftParen
      && !(Cursor.peek (n :: u :: (parameters ++ c)) 3).any (·.kind.isNumber)) = false := by
  rw [Cursor.atKind, hbare.peek_eq, hbare.peek_eq]
  cases hparameters with
  | absent =>
      cases c with
      | nil => rfl
      | cons t c => simp [hc t rfl]
  | one _ hd _ | two _ hd _ _ _ =>
      obtain ⟨_, hd, -⟩ := hd
      simp [hd, Kind.isNumber]

/-- No column is taken for a key clause: behind its name stands the name of a type, which is not
that of an index. -/
theorem IsSpelledBy.opensAt_append (h : column.IsSpelledBy ts) (hc : Cursor.IsBare (ts ++ rest))
    (hrest : ∀ t ∈ rest.head?, t.kind ≠ .leftParen) : Key.opensAt (ts ++ rest) = false := by
  obtain ⟨-, hu, hparameters, hattributes, hdefault, hcomment, -⟩ := h
  rename_i name type parameters attributes default comment text
  have hbehind := (isFlat_behindParameters hattributes hdefault hcomment).head?_append_ne hrest
  rw [List.cons_append, List.cons_append, List.append_assoc] at hc ⊢
  have htype : (Cursor.peekWord (name :: type ::
      (parameters ++ (attributes ++ (default ++ comment) ++ rest))) 1).bind TypeName.ofKeyword?
        = some column.type.name := by
    obtain ⟨v, hv⟩ := Kind.exists_of_isWord hu
    rw [hv] at hu
    rw [Cursor.peekWord_eq_bind, hc.peek_eq]
    simpa [hv, Kind.word?] using TypeName.ofKeyword?_eq_some_iff.2 hu
  rw [Key.opensAt, htype, opensName_eq_false hparameters hbehind hc]
  simp

/-- No column is taken for a key clause. -/
theorem IsSpelledBy.opensAt (h : column.IsSpelledBy ts) (hts : ts.IsBare) :
    Key.opensAt ts = false := by
  have hopens : Key.opensAt (ts ++ []) = false :=
    h.opensAt_append (by rwa [List.append_nil]) nofun
  rwa [List.append_nil] at hopens

end Column

end CreateTable
