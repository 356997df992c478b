import CreateTable.Key
import CreateTable.Proofs.Key.Layout
import CreateTable.Proofs.Printing.Name

/-!
# Printed keys

The text of a key is cut into the tokens of its layout, with the backticks in its names doubled. The
name of a primary key is not printed.

## Main definitions

* `Key.names`: the names that a key contains.
* `Key.printed`: what of a key is printed.
* `Key.doubled`: a key with every backtick in its names doubled.

## Main statements

* `Key.lexesTo_heading`, `Key.lexesTo_columnChars`, `Key.lexesTo_referenceChars`: the parts of a
  key.
* `Key.lexesTo_render`: the tokens of a printed key.
* `Key.lexesTo_render_self`: a printed key without backticks is laid out as the key.
-/

namespace CreateTable

open Text Identifier

namespace Key

/-- The names that a key contains. -/
def names (key : Key) : List String :=
  key.name.toList ++ key.columns ++ ((key.references.map fun r => r.table :: r.columns).getD [])

/-- What of a key is printed: all but the name of a primary key. -/
def printed (key : Key) : Key :=
  { key with name := if key.kind = .primary then none else key.name }

/-- A key with every backtick in its names doubled. -/
def doubled (key : Key) : Key :=
  ⟨key.kind, key.name.map Identifier.doubled, key.columns.map Identifier.doubled,
    key.references.map fun r => ⟨Identifier.doubled r.table, r.columns.map Identifier.doubled⟩⟩

/-- A key that is no primary key keeps its name when it is printed. -/
theorem printed_of_kind_ne {key : Key} (h : key.kind ≠ .primary) : key.printed = key := by
  rw [printed, if_neg h]

/-- A key that is no primary key with a name keeps everything when it is printed. -/
theorem printed_of_name_eq_none {key : Key} (h : key.kind = .primary → key.name = none) :
    key.printed = key := by
  by_cases hkind : key.kind = .primary
  · rw [printed, if_pos hkind, ← h hkind]
  · exact printed_of_kind_ne hkind

/-- What is printed of a key is printed to the same text. -/
theorem render_printed (key : Key) : key.printed.render = key.render := by
  obtain ⟨kind, name, columns, references⟩ := key
  cases kind <;> rfl

/-- Doubling the backticks changes no row of names without backticks. -/
theorem map_doubled_eq_self {names : List String} (h : ∀ name ∈ names, '\x60' ∉ name.toList) :
    names.map Identifier.doubled = names :=
  (List.map_congr_left fun name hname => doubled_eq_self_iff.2 (h name hname)).trans
    (List.map_id names)

/-- A key without backticks is not changed. -/
theorem doubled_eq_self {key : Key} (h : ∀ name ∈ key.names, '\x60' ∉ name.toList) :
    key.doubled = key := by
  obtain ⟨kind, name, columns, references⟩ := key
  simp only [names, List.forall_mem_append] at h
  obtain ⟨⟨hname, hcolumns⟩, hreferences⟩ := h
  have hname' : name.map Identifier.doubled = name := by
    cases name with
    | none => rfl
    | some name => exact congrArg some (doubled_eq_self_iff.2 (hname name (by simp)))
  have hreferences' : references.map (fun r : Reference =>
      ⟨Identifier.doubled r.table, r.columns.map Identifier.doubled⟩) = references := by
    cases references with
    | none => rfl
    | some r =>
        obtain ⟨htable, hcolumns⟩ := List.forall_mem_cons.1 hreferences
        rw [Option.map_some, doubled_eq_self_iff.2 htable, map_doubled_eq_self hcolumns]
  rw [doubled, hname', map_doubled_eq_self hcolumns, hreferences']

/-- A row of names in parentheses behind a blank. -/
def columnChars (names : List String) : List Char :=
  ' ' :: '(' :: ((quoteAll names).toList ++ [')'])

/-- A printed name is read as the name with its backticks doubled. -/
theorem lexesTo_name (name : String) {rest : List Char} (hrest : Delimited rest) :
    LexesTo (Cursor.IsToken (·.name? = some (Identifier.doubled name))) (quote name).toList
      rest := by
  obtain ⟨d, tail, rfl, hd, -⟩ := hrest.exists_endsWord
  exact lexesTo_quote name (hd.stopsWord tail)

/-- Printed column names are read as a list of these names with their backticks doubled. -/
theorem lexesTo_columnChars {names : List String} (hne : names ≠ []) (rest : List Char) :
    LexesTo (IsColumnList (names.map Identifier.doubled)) (columnChars names) rest := by
  have hrow : LexesTo _ (quoteAll names).toList ([')'] ++ rest) :=
    lexesTo_row hne rfl (.inl rfl) (fun name _ _ => lexesTo_name name)
      (delimited_cons (by simp) rest)
  have hlist := (lexesTo_leftParen _).append (hrow.append (lexesTo_rightParen rest))
  refine (hlist.blank (.inl rfl)).imp fun ts _ hts => ?_
  obtain ⟨_, _, rfl, ⟨l, rfl, hl⟩, b, _, rfl, ⟨ss, hjoined, hall⟩, r, rfl, hr⟩ := hts
  exact .mk hl hjoined (List.forall₂_map_left_iff.2 hall) hr

/-- The printed words of a kind are read as these words. -/
theorem lexesTo_kind (kind : KeyKind) {rest : List Char} (hrest : Delimited rest) :
    LexesTo (Cursor.Spells kind.words) kind.keyword.toList rest := by
  have hplain : ∀ w ∈ kind.words, isPlain w = true := by cases kind <;> decide
  obtain ⟨vs, hkeyword, hvs⟩ : ∃ vs, kind.keyword = " ".intercalate vs ∧
      List.Forall₂ (fun w v => sameWord w v = true) kind.words vs := by
    cases kind with
    | primary => exact ⟨["PRIMARY", "KEY"], rfl, .cons rfl (.cons rfl .nil)⟩
    | unique => exact ⟨["UNIQUE", "KEY"], rfl, .cons rfl (.cons rfl .nil)⟩
    | index => exact ⟨["KEY"], rfl, .cons rfl .nil⟩
    | fulltext => exact ⟨["FULLTEXT", "KEY"], rfl, .cons rfl (.cons rfl .nil)⟩
    | foreign => exact ⟨["FOREIGN", "KEY"], rfl, .cons rfl (.cons rfl .nil)⟩
  rw [hkeyword]
  exact lexesTo_phrase hplain hvs hrest

/-- The printed front of a key is read as its kind and its name. -/
theorem lexesTo_heading (key : Key) {rest : List Char} (hrest : Delimited rest) :
    LexesTo (IsHeading key.kind (key.printed.name.map Identifier.doubled)) key.heading.toList
      rest := by
  obtain ⟨kind, keyName, columns, references⟩ := key
  have hblank (tail : List Char) : Delimited (' ' :: tail) := delimited_cons (by simp) tail
  cases keyName with
  | none =>
      have hheading : (Key.mk kind none columns references).heading = kind.keyword := by
        cases kind <;> rfl
      have hname : (Key.mk kind none columns references).printed.name = none := ite_self none
      rw [hheading, hname]
      exact (lexesTo_kind kind hrest).imp fun ts _ hts => .unnamed hts
  | some name =>
      by_cases hprimary : kind = .primary
      · subst hprimary
        exact (lexesTo_kind .primary hrest).imp fun ts _ hts => .unnamed hts
      rw [printed_of_kind_ne hprimary]
      by_cases hforeign : kind = .foreign
      · subst hforeign
        have hprinted : (Key.mk .foreign (some name) columns references).heading.toList
            = "CONSTRAINT".toList ++ ' ' :: ((quote name).toList
              ++ ' ' :: KeyKind.foreign.keyword.toList) := by
          simp only [heading, String.toList_append, List.append_assoc]
          rfl
        rw [hprinted]
        have hword := lexesTo_word (w := "CONSTRAINT") rfl (endsWord_of_mem (d := ' ') (by simp))
        have hwords := (lexesTo_kind .foreign hrest).blank (.inl rfl)
        have hrow := ((lexesTo_name name (hblank _)).append hwords).blank (.inl rfl)
        refine ((hword _).append hrow).imp fun ts _ hts => ?_
        obtain ⟨_, _, rfl, ⟨c, rfl, hc⟩, _, us, rfl, ⟨t, rfl, ht⟩, hus⟩ := hts
        exact .constraint (by rw [hc]; rfl) ht hus
      · have hprinted : (Key.mk kind (some name) columns references).heading.toList
            = kind.keyword.toList ++ ' ' :: (quote name).toList := by
          have hheading : (Key.mk kind (some name) columns references).heading
              = kind.keyword ++ " " ++ quote name := by
            cases kind <;> first | rfl | contradiction
          rw [hheading, String.toList_append, String.toList_append, List.append_assoc]
          rfl
        rw [hprinted]
        have hwords := (lexesTo_name name hrest).blank (.inl rfl)
        refine ((lexesTo_kind kind (hblank _)).append hwords).imp fun ts _ hts => ?_
        obtain ⟨us, _, rfl, hus, t, rfl, ht⟩ := hts
        exact .index hprimary hforeign hus ht

/-- The target of a foreign key as it is printed. -/
def referenceChars : Option Reference → List Char
  | some r =>
      ' ' :: ("REFERENCES".toList ++ ' ' :: ((quote r.table).toList ++ columnChars r.columns))
  | none => []

/-- A printed key is its front, its columns and its reference. -/
theorem toList_render (key : Key) :
    key.render.toList
      = key.heading.toList ++ (columnChars key.columns ++ referenceChars key.references) := by
  obtain ⟨kind, name, columns, references⟩ := key
  cases references with
  | none => simp [render, columnChars, referenceChars]
  | some r => simp [render, Reference.render, columnChars, referenceChars]

/-- A printed reference is read as the reference with the backticks in its names doubled. -/
theorem lexesTo_referenceChars {key : Key} (hne : ∀ r ∈ key.references, r.columns ≠ [])
    (rest : List Char) :
    LexesTo (IsReference key.doubled.references) (referenceChars key.references) rest := by
  obtain ⟨kind, name, columns, references⟩ := key
  cases references with
  | none => exact .nil .absent
  | some r =>
      have hword := lexesTo_word (w := "REFERENCES") rfl (endsWord_of_mem (d := ' ') (by simp))
      have hcolumns := lexesTo_columnChars (hne r rfl) rest
      have hname := (lexesTo_name r.table (delimited_cons (by simp) _)).append hcolumns
      refine ((hword _).append (hname.blank (.inl rfl)) |>.blank (.inl rfl)).imp fun ts _ hts => ?_
      obtain ⟨_, _, rfl, ⟨w, rfl, hw⟩, _, us, rfl, ⟨t, rfl, ht⟩, hus⟩ := hts
      exact .present (by rw [hw]; rfl) ht hus

/-- A target that belongs to a complete key has columns. -/
theorem IsComplete.target_columns_ne_nil {key : Key} (h : key.IsComplete) :
    ∀ r ∈ key.references, r.columns ≠ [] := by
  intro r hr
  have htarget := h.references
  split at htarget
  · obtain ⟨s, hs, hne⟩ := htarget
    obtain rfl : s = r := Option.some.inj (hs.symm.trans hr)
    exact hne
  · rw [htarget] at hr
    cases hr

/-- A complete key is printed to tokens that are laid out as what of it is printed, with every
backtick doubled. -/
theorem lexesTo_render {key : Key} (hcomplete : key.IsComplete) (rest : List Char) :
    LexesTo key.printed.doubled.IsPrintedAs key.render.toList rest := by
  rw [toList_render]
  have htail := lexesTo_referenceChars hcomplete.target_columns_ne_nil rest
  have hrow := (lexesTo_columnChars hcomplete.columns_ne_nil _).append htail
  have hheading (tail : List Char) :=
    lexesTo_heading key (delimited_cons (d := ' ') (by simp) tail)
  refine ((hheading _).append hrow).imp fun ts _ hts => ?_
  obtain ⟨_, _, rfl, hh, _, _, rfl, hc, hr⟩ := hts
  exact .mk hh hc hr

/-- The tokens of a printed key that is a whole text. -/
theorem isPrintedAs_significantTokens {key : Key} (hcomplete : key.IsComplete) :
    key.printed.doubled.IsPrintedAs (significantTokens key.render) :=
  (lexesTo_render hcomplete []).significantTokens

/-- A complete key whose name is printed and that has no backticks is printed to tokens that are
laid out as the key. -/
theorem lexesTo_render_self {key : Key} (hprimary : key.kind = .primary → key.name = none)
    (hcomplete : key.IsComplete) (hnames : ∀ name ∈ key.names, '\x60' ∉ name.toList)
    (rest : List Char) : LexesTo key.IsPrintedAs key.render.toList rest := by
  have h := lexesTo_render hcomplete rest
  rwa [printed_of_name_eq_none hprimary, doubled_eq_self hnames] at h

end Key

end CreateTable
