import CreateTable.Proofs.Printing.Key

/-!
# The target of a printed foreign key

The table that a foreign key refers to may be named with its schema. The key keeps both as one text,
with a period between them, and this text is printed as one name. So the target of a printed key is
read as a name without a schema: as the same target exactly if that had no schema, and alike for two
targets exactly if schema and name make the same text.

## Main definitions

* `Reference.nameRule`, `Key.target?`: the name that is read as the target of a clause.
* `Key.IsForeignAt`: the clauses of foreign keys that are accepted.
* `Key.printedTarget?`: the name of the target as it is printed.

## Main statements

* `Reference.rule_eq`: the target is read by that rule.
* `Key.IsForeignAt.exists_target`: every foreign key that was read has a target.
* `Key.target?_render`: the target of a printed key.
* `Key.target_of_printed`: both together, and for two clauses.
-/

namespace CreateTable

open Identifier Matcher Rule

/-! ### The name of the target -/

namespace Reference

/-- How the name of the table that a foreign key refers to is read. -/
def nameRule : Rule QualifiedName := do
  require (word "references") .references
  QualifiedName.rule .referencedTable

/-- The target of a foreign key begins with its name. -/
theorem rule_eq : Reference.rule = (do
    let table ← nameRule
    let columns ← Key.columnListRule
    follow (word "on") actionClause
    return ⟨table.joined, columns⟩) := by
  simp only [Reference.rule, nameRule, bind_assoc]

/-- Behind the word for references the tokens that spell a name are read as that name. -/
theorem runFrom_nameRule {w : Token} {q : QualifiedName} {ns c : Cursor}
    (hw : w.kind.isWord "references" = true) (hns : q.IsSpelledBy ns)
    (hc : Cursor.IsBare (w :: (ns ++ c))) (hbehind : ∀ t ∈ c.head?, t.kind ≠ .period) :
    nameRule.runFrom (w :: (ns ++ c)) = (.ok q, c) := by
  simp only [nameRule, runFrom_bind_eq_ok_iff, runFrom_require_eq_ok_iff, run_word_eq_some_iff hc]
  exact ⟨(), _, ⟨w, rfl, hw⟩, hns.runFrom (Cursor.isBare_cons.1 hc).2 hbehind⟩

end Reference

namespace Key

/-- The target of a foreign key whose clause begins with the tokens `c`: the name that is read
behind its columns. -/
def target? (c : Cursor) : Option QualifiedName :=
  (Reference.nameRule.runFrom (c.behindGroup 0)).1.toOption

/-- The target of a foreign key is the name behind its column row. -/
theorem target?_eq_some {hs bs ns c : Cursor} {columns : List String} {w : Token}
    {q : QualifiedName} (hhs : hs.IsFlat) (hbs : IsColumnRow columns bs)
    (hw : w.kind.isWord "references" = true) (hns : q.IsSpelledBy ns)
    (hc : Cursor.IsBare (w :: (ns ++ c))) (hbehind : ∀ t ∈ c.head?, t.kind ≠ .period) :
    target? (hs ++ (bs ++ w :: (ns ++ c))) = some q := by
  rw [target?, hhs.behindGroup_append, hbs.behindGroup,
    Reference.runFrom_nameRule hw hns hc hbehind]
  rfl

/-- The columns of a target do not go on with its name. -/
theorem IsColumnRow.head?_ne_period {columns : List String} {bs : Cursor}
    (h : IsColumnRow columns bs) (c : Cursor) : ∀ t ∈ (bs ++ c).head?, t.kind ≠ .period := by
  obtain ⟨l, us, rfl, hl⟩ := h.exists_cons
  rintro _ ⟨⟩
  simp [hl]

/-- The target of a key clause is found behind its columns. -/
theorem IsSpelledBy.exists_target {key : Key} {r : Reference} {ts rest : Cursor}
    (h : key.IsSpelledBy ts) (hr : key.references = some r) (hc : Cursor.IsBare (ts ++ rest)) :
    ∃ q, target? (ts ++ rest) = some q ∧ r.table = q.joined := by
  obtain ⟨hs, bs, rs, us, rfl, hopening, hbs, hrs, -⟩ := h.exists_columns
  rw [hr] at hrs
  cases hrs with
  | present _ hspelled =>
  obtain ⟨hw, hns, hcs, -⟩ := hspelled
  rename_i w q columns ns cs as
  refine ⟨q, ?_, rfl⟩
  simp only [List.append_assoc, List.cons_append] at hc ⊢
  have hbehind := (Cursor.isBare_append.1 (Cursor.isBare_append.1 hc).2).2
  exact target?_eq_some hopening.flat hbs hw hns hbehind (hcs.head?_ne_period _)

/-! ### Printed keys -/

/-- The front of a printed key has no parenthesis. -/
theorem IsHeading.isFlat {kind : KeyKind} {name : Option String} {ts : Cursor}
    (h : IsHeading kind name ts) : ts.IsFlat := by
  cases h with
  | unnamed hts => exact hts.isFlat
  | index _ _ hts ht => simp [hts.isFlat, Kind.not_paren_of_name? ht]
  | constraint hc ht hts =>
      simp [hts.isFlat, Kind.not_paren_of_isWord hc, Kind.not_paren_of_name? ht]

/-- The target of a printed key is one word. -/
theorem IsPrintedAs.target? {key : Key} {r : Reference} {ts : Cursor} (h : key.IsPrintedAs ts)
    (hr : key.references = some r) (hts : ts.IsBare) : Key.target? ts = some ⟨none, r.table⟩ := by
  obtain ⟨hheading, hcolumns, hreference⟩ := h
  rw [hr] at hreference
  cases hreference with
  | @present _ w t d hw ht hlist =>
  have hname : QualifiedName.IsSpelledBy ⟨none, r.table⟩ [t] := .bare ht
  have hbehind : Cursor.IsBare (w :: ([t] ++ d)) :=
    (Cursor.isBare_append.1 (Cursor.isBare_append.1 hts).2).2
  have hperiod := hlist.isColumnRow.head?_ne_period []
  rw [List.append_nil] at hperiod
  have htarget := target?_eq_some hheading.isFlat hcolumns.isColumnRow hw hname hbehind hperiod
  exact htarget

/-- Whatever names a foreign key has, its printed target is read as the name of a table without a
schema, with every backtick doubled. -/
theorem target?_render {key : Key} {r : Reference} (hcomplete : key.IsComplete)
    (hr : key.references = some r) :
    target? (significantTokens key.render) = some ⟨none, Identifier.doubled r.table⟩ := by
  have hdoubled : key.printed.doubled.references
      = some ⟨Identifier.doubled r.table, r.columns.map Identifier.doubled⟩ := by
    simp only [doubled, printed, hr, Option.map_some]
  exact (isPrintedAs_significantTokens hcomplete).target? hdoubled (isBare_significantTokens _)

/-! ### Foreign keys that were read -/

/-- A clause at `c` is accepted as the foreign key `key`. -/
structure IsForeignAt (c : Cursor) (key : Key) : Prop where
  trimmed : c.skipTrivia = c
  read : ∃ rest, Key.rule.runFrom c = (.ok key, rest)
  kind : key.kind = .foreign

/-- A foreign key that is accepted has at least one column and a target. -/
theorem IsForeignAt.isComplete {c : Cursor} {key : Key} (h : IsForeignAt c key) :
    key.IsComplete := by
  obtain ⟨rest, hread⟩ := h.read
  exact isComplete_of_runFrom hread

/-- A foreign key that was read has a target, which it keeps with the schema joined to the name. -/
theorem IsForeignAt.exists_target {c : Cursor} {key : Key} (h : IsForeignAt c key) :
    ∃ r q, key.references = some r ∧ target? c.significant = some q ∧ r.table = q.joined := by
  obtain ⟨rest, hread⟩ := h.read
  have hcomplete := h.isComplete.references
  rw [if_pos h.kind] at hcomplete
  obtain ⟨r, hr, -⟩ := hcomplete
  have hrule := (Key.rule_significant h.trimmed).1
  rw [hread] at hrule
  have hbare := Cursor.isBare_significant c
  obtain ⟨ts, hts, hspelled⟩ := exists_isSpelledBy hbare hrule
  rw [hts] at hbare ⊢
  obtain ⟨q, htarget, htable⟩ := hspelled.exists_target hr hbare
  exact ⟨r, q, hr, htarget, htable⟩

/-- The name of the target as it is printed. -/
def printedTarget? (key : Key) : Option String :=
  key.references.map fun r => quote r.table

/-- A joined name has no backtick if its parts have none. -/
theorem not_mem_joined {q : QualifiedName} (hschema : ∀ schema ∈ q.schema, '\x60' ∉ schema.toList)
    (hname : '\x60' ∉ q.name.toList) : '\x60' ∉ q.joined.toList := by
  obtain ⟨schema, name⟩ := q
  cases schema with
  | none => exact hname
  | some schema => simp [QualifiedName.joined, hschema schema rfl, hname]

/-- **The target of a printed foreign key.** A foreign key that is accepted has a target. If this
has no backticks, the target of the printed key is read as schema and name in one, which is the same
target exactly if there is no schema. And the targets of two foreign keys are printed alike, and
read alike where they are printed, exactly if their schemas and names make the same text. -/
theorem target_of_printed {c c' : Cursor} {key key' : Key} (h : IsForeignAt c key)
    (h' : IsForeignAt c' key') :
    ∃ q q', target? c.significant = some q ∧ target? c'.significant = some q' ∧
      ((∀ schema ∈ q.schema, '\x60' ∉ schema.toList) → '\x60' ∉ q.name.toList →
        target? (significantTokens key.render) = some ⟨none, q.joined⟩ ∧
        (target? (significantTokens key.render) = some q ↔ q.schema = none)) ∧
      (key.printedTarget? = key'.printedTarget? ↔ q.joined = q'.joined) ∧
      (target? (significantTokens key.render) = target? (significantTokens key'.render) ↔
        q.joined = q'.joined) := by
  obtain ⟨r, q, hr, htarget, htable⟩ := h.exists_target
  obtain ⟨r', q', hr', htarget', htable'⟩ := h'.exists_target
  have hread := target?_render h.isComplete hr
  have hread' := target?_render h'.isComplete hr'
  rw [htable] at hread
  rw [htable'] at hread'
  refine ⟨q, q', htarget, htarget', fun hschema hname => ?_, ?_, ?_⟩
  · rw [doubled_eq_self_iff.2 (not_mem_joined hschema hname)] at hread
    refine ⟨hread, ?_⟩
    obtain ⟨schema, name⟩ := q
    rw [hread, Option.some.injEq, QualifiedName.mk.injEq]
    constructor
    · exact fun h => h.1.symm
    · rintro rfl
      exact ⟨rfl, rfl⟩
  · rw [printedTarget?, printedTarget?, hr, hr', Option.map_some, Option.map_some,
      Option.some.injEq, htable, htable']
    exact ⟨quote_injective, congrArg quote⟩
  · rw [hread, hread', Option.some.injEq, QualifiedName.mk.injEq]
    exact ⟨fun h => doubled_injective h.2, fun h => ⟨rfl, congrArg Identifier.doubled h⟩⟩

/-- A target with a schema, and a target whose name has a period. -/
theorem target_of_printed_schema :
    let key : Key := ⟨.foreign, none, ["a"], some ⟨"s.t", ["b"]⟩⟩
    let c := (Session.ofText "foreign key (a) references s.t (b)" {}).cursor
    let c' := (Session.ofText "foreign key (a) references \x60s.t\x60 (b)" {}).cursor
    IsForeignAt c key ∧ IsForeignAt c' key ∧ target? c.significant = some ⟨some "s", "t"⟩ ∧
      target? (significantTokens key.render) = some ⟨none, "s.t"⟩ := by
  intro key c c'
  have h : IsForeignAt c key := ⟨Session.ofText_cursor_trimmed _ _, ⟨[], by decide +kernel⟩, rfl⟩
  have h' : IsForeignAt c' key := ⟨Session.ofText_cursor_trimmed _ _, ⟨[], by decide +kernel⟩, rfl⟩
  have hq : target? c.significant = some ⟨some "s", "t"⟩ := by decide +kernel
  obtain ⟨q, q', htarget, -, hprinted, -, -⟩ := target_of_printed h h'
  obtain rfl : q = ⟨some "s", "t"⟩ := Option.some.inj (htarget.symm.trans hq)
  exact ⟨h, h', hq, (hprinted (by decide) (by decide)).1⟩

/-- Two foreign keys whose targets differ are the same key, and the printed target is that of the
second one. -/
theorem target_ne_of_schema :
    let key : Key := ⟨.foreign, none, ["a"], some ⟨"s.t", ["b"]⟩⟩
    let c := (Session.ofText "foreign key (a) references s.t (b)" {}).cursor
    let c' := (Session.ofText "foreign key (a) references \x60s.t\x60 (b)" {}).cursor
    Key.rule.runFrom c = (.ok key, []) ∧ Key.rule.runFrom c' = (.ok key, []) ∧
      target? c.significant = some ⟨some "s", "t"⟩ ∧ target? c'.significant = some ⟨none, "s.t"⟩ ∧
      target? (significantTokens key.render) ≠ some ⟨some "s", "t"⟩ := by
  decide +kernel

end Key

end CreateTable
