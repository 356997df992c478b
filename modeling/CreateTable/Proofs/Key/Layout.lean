import CreateTable.Proofs.Key.Columns

/-!
# The layout of a printed key

A printed key is a key clause with few of its optional parts: it is its opening words with the name,
its columns in parentheses, and the target of a foreign key. Tokens that are laid out so are told
from a column and are read as the key, if the name of the key can be told from the words around it.

## Main definitions

* `KeyKind.words`: the words of a kind of keys as they are printed.
* `Key.IsColumnList`, `Key.IsHeading`, `Key.IsReference`: the parts of a printed key.
* `Key.IsPrintedAs`: the tokens of a printed key.
* `Key.IsLegible`: the keys whose name is not taken for a keyword.
* `Key.IsTellable`: the keys whose name is not taken for something else, and is printed.
* `Key.IsComplete`: what every key that was read has.

## Main statements

* `Key.isComplete_of_runFrom`: a key that was read is complete.
* `Key.IsPrintedAs.isSpelledBy`: a printed key is a key clause that spells the key.
* `Key.IsPrintedAs.opensAt`: a printed key is told from a column.
-/

namespace CreateTable

open Text

/-! ### Words that open a key clause -/

/-- A name is not a keyword that is another word. -/
theorem Kind.isWord_eq_false_of_name? {k : Kind} {name w : String} (h : k.name? = some name)
    (hw : sameWord w name = false) : k.isWord w = false := by
  cases k with
  | word v =>
      obtain rfl : v = name := Option.some.inj h
      exact hw
  | _ => rfl

/-- The words of a kind of keys as they are printed. -/
def KeyKind.words : KeyKind → List String
  | primary => ["primary", "key"]
  | unique => ["unique", "key"]
  | index => ["key"]
  | fulltext => ["fulltext", "key"]
  | foreign => ["foreign", "key"]

/-- The words a kind is printed with are one of its spellings. -/
theorem KeyKind.words_mem_spellings (kind : KeyKind) : kind.words ∈ kind.spellings := by
  cases kind <;> decide

/-! ### The columns of a key -/

namespace Key

/-- The tokens of a row of names in parentheses, with commas between them. -/
inductive IsColumnList : List String → Cursor → Prop
  | mk {l r : Token} {b : Cursor} {ss : List Cursor} {names : List String} :
    l.kind = .leftParen → b.Joined ss →
    List.Forall₂ (fun name s => Cursor.IsToken (·.name? = some name) s) names ss →
    r.kind = .rightParen → IsColumnList names (l :: (b ++ [r]))

/-- A row of names is a row of columns without prefix lengths and directions. -/
theorem IsColumnList.isColumnRow {names : List String} {d : Cursor} (h : IsColumnList names d) :
    IsColumnRow names d := by
  obtain ⟨hl, hjoined, hall, hr⟩ := h
  refine .mk hl hjoined (hall.imp fun name s hs => ?_) hr
  obtain ⟨t, rfl, ht⟩ := hs
  exact .mk ht .absent .absent

/-! ### The parts of a printed key -/

/-- The tokens of the words that open a key clause, and of its name. -/
inductive IsHeading : KeyKind → Option String → Cursor → Prop
  | unnamed {kind : KeyKind} {ts : Cursor} : ts.Spells kind.words → IsHeading kind none ts
  | index {kind : KeyKind} {ts : Cursor} {t : Token} {name : String} :
    kind ≠ .primary → kind ≠ .foreign → ts.Spells kind.words → t.kind.name? = some name →
      IsHeading kind (some name) (ts ++ [t])
  | constraint {ts : Cursor} {c t : Token} {name : String} : c.kind.isWord "constraint" = true →
    t.kind.name? = some name → ts.Spells KeyKind.foreign.words →
      IsHeading .foreign (some name) (c :: t :: ts)

/-- The tokens of the target of a foreign key. -/
inductive IsReference : Option Reference → Cursor → Prop
  | absent : IsReference none []
  | present {r : Reference} {w t : Token} {d : Cursor} : w.kind.isWord "references" = true →
    t.kind.name? = some r.table → IsColumnList r.columns d → IsReference (some r) (w :: t :: d)

/-- Tokens that are laid out as a key is printed. -/
inductive IsPrintedAs : Key → Cursor → Prop
  | mk {key : Key} {heading columns references : Cursor} :
    IsHeading key.kind key.name heading → IsColumnList key.columns columns →
    IsReference key.references references → IsPrintedAs key (heading ++ (columns ++ references))

/-! ### A printed key is a key clause -/

/-- The name of a key can be told from the words around it when the key is printed: a primary key
has none, that of an index is not taken for an option, and that of a foreign key neither for the
words behind it nor for the type of a column. -/
structure IsTellable (key : Key) : Prop where
  primary : key.kind = .primary → key.name = none
  index : key.kind ∈ [KeyKind.unique, .index, .fulltext] →
    ∀ name ∈ key.name, sameWord "using" name = false
  foreign : key.kind = .foreign → ∀ name ∈ key.name, TypeName.ofKeyword? name = none ∧
    ∀ w ∈ ["primary", "unique", "foreign"], sameWord w name = false

/-- The name of a key is not taken for a keyword at the place where it is printed: that of an index
not for an option, and that of a foreign key not for the words behind it. -/
structure IsLegible (key : Key) : Prop where
  index : key.kind ∈ [KeyKind.unique, .index, .fulltext] →
    ∀ name ∈ key.name, sameWord "using" name = false
  foreign : key.kind = .foreign → ∀ name ∈ key.name,
    ∀ w ∈ ["primary", "unique", "foreign"], sameWord w name = false

/-- A key whose columns are told apart is legible. -/
theorem IsTellable.isLegible {key : Key} (h : key.IsTellable) : key.IsLegible :=
  ⟨h.index, fun hkind name hname => (h.foreign hkind name hname).2⟩

/-- What follows the opening words of a key that was read: at least one column, and a target with
at least one column for foreign keys and no other. -/
structure IsComplete (key : Key) : Prop where
  columns_ne_nil : key.columns ≠ []
  references : if key.kind = .foreign then ∃ r, key.references = some r ∧ r.columns ≠ []
    else key.references = none

/-- The heading of a printed key is the names of a key clause around its kind. -/
theorem IsHeading.exists_parts {key : Key} {ts : Cursor} (h : IsHeading key.kind key.name ts)
    (hkey : key.IsLegible) :
    ∃ constraint index, (constraint <|> index) = key.name ∧
      ∃ cs ks is, ts = cs ++ (ks ++ is) ∧ IsConstraint key.kind constraint cs ∧
        ks.Spells key.kind.words ∧ IsIndexName key.kind key.kind.words index is := by
  obtain ⟨kind, keyName, columns, references⟩ := key
  cases h with
  | unnamed hts =>
      exact ⟨none, none, rfl, [], ts, [], by simp, .absent, hts, .absent⟩
  | @index _ ts t name hprimary hforeign hts ht =>
      have husing : sameWord "using" name = false := by
        refine hkey.index ?_ name rfl
        cases kind <;> simp at hprimary hforeign ⊢
      have hwords : KeyKind.continuations kind.words = [] := by
        cases kind <;> rfl
      refine ⟨none, some name, rfl, [], ts, [t], rfl, .absent, hts, .named hprimary ⟨ht, ?_⟩⟩
      rw [hwords]
      exact List.forall_mem_singleton.2 (Kind.isWord_eq_false_of_name? ht husing)
  | @constraint ts c t name hc ht hts =>
      have hname := hkey.foreign rfl name rfl
      refine ⟨some name, none, rfl, [c, t], ts, [], by simp, .named hc ⟨ht, ?_⟩, hts, .absent⟩
      exact fun w hw => Kind.isWord_eq_false_of_name? ht (hname w hw)

/-- The target of a printed foreign key has no schema of its own and no referential actions. -/
theorem IsReference.isTarget {key : Key} {c : Cursor} (h : IsReference key.references c)
    (hcomplete : key.IsComplete) : IsTarget key.kind key.references c := by
  obtain ⟨kind, name, columns, references⟩ := key
  have htarget := hcomplete.references
  cases h with
  | absent =>
      have hforeign : kind ≠ .foreign := by simpa using htarget
      exact .absent hforeign
  | @present r w t d hw ht hd =>
      have hforeign : kind = .foreign := by
        by_contra hforeign
        simp [hforeign] at htarget
      refine .present hforeign ?_
      have hspelled := Reference.IsSpelledBy.mk hw (.bare ht) hd.isColumnRow .nil
      rwa [List.append_nil] at hspelled

/-- A printed key is a key clause without options. -/
theorem IsPrintedAs.isSpelledBy {key : Key} {ts : Cursor} (h : key.IsPrintedAs ts)
    (hkey : key.IsLegible) (hcomplete : key.IsComplete) : key.IsSpelledBy ts := by
  obtain ⟨hheading, hcolumns, hreferences⟩ := h
  obtain ⟨constraint, index, hname, cs, ks, is, rfl, hcs, hks, his⟩ := hheading.exists_parts hkey
  have hspelled := IsSpelledBy.mk hcs (KeyKind.words_mem_spellings _) hks his .nil
    (fun _ _ => .nil) hcolumns.isColumnRow (hreferences.isTarget hcomplete) .nil
  rw [hname] at hspelled
  simpa using hspelled

/-- A key is read from the tokens it is printed to. -/
theorem IsPrintedAs.runFrom {key : Key} {ts : Cursor} (h : key.IsPrintedAs ts)
    (hkey : key.IsLegible) (hcomplete : key.IsComplete) (hts : ts.IsBare) :
    Key.rule.runFrom ts = (.ok key, []) :=
  (h.isSpelledBy hkey hcomplete).runFrom hts

/-! ### Telling a printed key from a column -/

/-- A keyword that is not that of a type names none. -/
theorem isTypeName_of_isWord {w : String} {t : Token} (ht : t.kind.isWord w = true)
    (hw : ∀ type ∈ TypeName.all, sameWord type.keyword w = false) :
    t.kind.isTypeName = false := by
  obtain ⟨v, hv⟩ := Kind.exists_of_isWord ht
  have hnone : TypeName.ofKeyword? v = none := by
    refine List.find?_eq_none.2 fun type htype hsame => ?_
    have hkeyword : Kind.isWord type.keyword t.kind = true := by rw [hv]; exact hsame
    have hsame := Kind.sameWord_of_isWord hkeyword ht
    rw [hw type htype] at hsame
    cases hsame
  rw [hv, Kind.isTypeName, hnone]
  rfl

/-- A printed key is told from a column by its opening words, even if it is an index with the name
of a type. -/
theorem IsPrintedAs.opensAt {key : Key} {ts : Cursor} (h : key.IsPrintedAs ts)
    (hkey : key.IsTellable) (hcomplete : key.IsComplete) (hts : ts.IsBare) :
    Key.opensAt ts = true := by
  have hopens : Key.opensAt (ts ++ []) = !Cursor.namesType (ts ++ []) :=
    (h.isSpelledBy hkey.isLegible hcomplete).opensAt_eq (by rwa [List.append_nil])
  rw [List.append_nil] at hopens
  suffices hnames : ts.namesType = false by rw [hopens, hnames]; rfl
  obtain ⟨hheading, hcolumns, -⟩ := h
  obtain ⟨l, t, d, _, rfl, hl, -⟩ := hcolumns.isColumnRow.exists_cons_cons
  obtain ⟨kind, keyName, columns, references⟩ := key
  have hparen : l.kind.isTypeName = false := by
    rw [hl]
    rfl
  cases hheading with
  | unnamed hspells =>
      cases kind with
      | index =>
          obtain ⟨u, _, -, hnil, rfl⟩ := List.forall₂_cons_left_iff.1 hspells
          obtain rfl := List.forall₂_nil_left_iff.1 hnil
          exact Cursor.namesType_eq_false hts (.inl hparen)
      | _ =>
          obtain ⟨u, _, -, htail, rfl⟩ := List.forall₂_cons_left_iff.1 hspells
          obtain ⟨v, _, hv, -, rfl⟩ := List.forall₂_cons_left_iff.1 htail
          exact Cursor.namesType_eq_false hts (.inl (isTypeName_of_isWord hv (by decide)))
  | @index _ us n name _ _ hspells hn =>
      cases kind with
      | index =>
          obtain ⟨u, _, -, hnil, rfl⟩ := List.forall₂_cons_left_iff.1 hspells
          obtain rfl := List.forall₂_nil_left_iff.1 hnil
          exact Cursor.namesType_eq_false hts (.inr ⟨l, rfl, hl⟩)
      | _ =>
          obtain ⟨u, _, -, htail, rfl⟩ := List.forall₂_cons_left_iff.1 hspells
          obtain ⟨v, _, hv, -, rfl⟩ := List.forall₂_cons_left_iff.1 htail
          exact Cursor.namesType_eq_false hts (.inl (isTypeName_of_isWord hv (by decide)))
  | @constraint us c n name hc hn hspells =>
      refine Cursor.namesType_eq_false hts (.inl ?_)
      have hname := (hkey.foreign rfl name rfl).1
      cases hk : n.kind with
      | word v =>
          rw [hk] at hn
          obtain rfl : v = name := Option.some.inj hn
          rw [Kind.isTypeName, hname]
          rfl
      | _ => rfl

/-! ### The parts of a key that was read -/

/-- A row has at least one part. -/
theorem ne_nil_of_separatedFrom {α : Type} {sep : Matcher Unit} {item : Rule α} {c stop : Cursor}
    {as : List α} (h : Rule.separatedFrom sep item c = (.ok as, stop)) : as ≠ [] := by
  rw [Rule.separatedFrom] at h
  split at h
  · cases h
  split at h
  · cases h
    exact List.cons_ne_nil _ _
  split at h
  · split at h
    · cases h
    · cases h
      exact List.cons_ne_nil _ _
  · cases h
    exact List.cons_ne_nil _ _

/-- A column list that is read has a column. -/
theorem ne_nil_of_columnListRule {c rest : Cursor} {names : List String}
    (h : columnListRule.runFrom c = (.ok names, rest)) : names ≠ [] := by
  simp only [columnListRule, Rule.runFrom_bind_eq_ok_iff, Rule.runFrom_pure_eq_ok_iff] at h
  obtain ⟨-, _, -, _, _, hrow, -, _, -, rfl, -⟩ := h
  exact ne_nil_of_separatedFrom hrow

/-- A key that was read is complete. -/
theorem isComplete_of_runFrom {c rest : Cursor} {key : Key}
    (h : Key.rule.runFrom c = (.ok key, rest)) : key.IsComplete := by
  simp only [Key.rule, Rule.runFrom_bind_eq_ok_iff] at h
  obtain ⟨_, _, -, kind, _, -, _, _, -, -, _, -, columns, mid, hcolumns, h⟩ := h
  have hne := ne_nil_of_columnListRule hcolumns
  split at h
  · next hkind =>
    simp only [Rule.runFrom_bind_eq_ok_iff, Rule.runFrom_map_eq_ok_iff,
      Rule.runFrom_pure_eq_ok_iff] at h
    obtain ⟨_, _, ⟨r, hr, rfl⟩, -, _, -, rfl, -⟩ := h
    refine ⟨hne, ?_⟩
    rw [if_pos hkind]
    simp only [Reference.rule, Rule.runFrom_bind_eq_ok_iff, Rule.runFrom_pure_eq_ok_iff] at hr
    obtain ⟨-, _, -, _, _, -, _, _, hlist, -, _, -, rfl, -⟩ := hr
    exact ⟨_, rfl, ne_nil_of_columnListRule hlist⟩
  · next hkind =>
    simp only [Rule.runFrom_bind_eq_ok_iff, Rule.runFrom_pure_eq_ok_iff] at h
    obtain ⟨_, _, ⟨rfl, -⟩, -, _, -, rfl, -⟩ := h
    refine ⟨hne, ?_⟩
    rw [if_neg hkind]

end Key

end CreateTable
