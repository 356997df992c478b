import CreateTable.Proofs.Key.Layout
import CreateTable.Proofs.Printing.Column
import CreateTable.Proofs.Statement.Closing
import CreateTable.Proofs.Statement.Comment

/-!
# Tables that were read are well formed

The description of a table holds plain texts. What a text can be is settled by the rule that reads
it: lengths and scales are digits, strings and comments can be put between quotes as they are,
numbers are numbers, and what sets a column to the current time is a row of the words for that. A
key has columns, and a foreign key and no other has a target. None of this depends on the statement
that was read.

## Main definitions

* `IsOneToken`: a text that is one token.
* `DataType.IsWellFormed`, `Value.IsWellFormed`, `Column.IsWellFormed`, `Key.IsWellFormed`,
  `Table.IsWellFormed`: the descriptions that rules can give.

## Main statements

* `Column.IsSpelledBy.isWellFormed`, `Key.IsComplete.isWellFormed`: columns and keys.
* `Table.isPlainComment_commentBehind`: the comment of a table.
* `Table.isWellFormed_of_ofText`: tables.
-/

namespace CreateTable

open Text

/-- The text is **one token** of kind `k`, with nothing before or behind it. -/
def IsOneToken (k : Kind) (text : String) : Prop :=
  lex text = ⟨[⟨k, .start⟩], none⟩

instance (k : Kind) (text : String) : Decidable (IsOneToken k text) :=
  inferInstanceAs (Decidable (lex text = _))

/-- Decimal digits, at least one. -/
def IsDigitRow (digits : String) : Prop :=
  digits ≠ "" ∧ ∀ c ∈ digits.toList, c.isDigit = true

/-- A raw text that is one string in single quotes when it is put between them, with itself as the
raw text of the string. -/
def IsRawText (text : String) : Prop :=
  IsOneToken (.quoted .single text) ("'" ++ text ++ "'")

instance (text : String) : Decidable (IsRawText text) :=
  inferInstanceAs (Decidable (IsOneToken _ _))

/-- There is a scale only where there is a length, and both are rows of digits. -/
structure DataType.IsWellFormed (t : DataType) : Prop where
  length_isSome : t.scale.isSome = true → t.length.isSome = true
  length : ∀ digits ∈ t.length, IsDigitRow digits
  scale : ∀ digits ∈ t.scale, IsDigitRow digits

/-- The values that can be read: strings that can be put between quotes again, numbers that may
have a minus sign before them, and rows of the words about the current time. -/
inductive Value.IsWellFormed : Value → Prop
  | null : IsWellFormed .null
  | literal {text : String} : IsRawText text → IsWellFormed (.literal text)
  | numeric {text : String} : IsOneToken (.number text false) text → IsWellFormed (.numeric text)
  | negative {text : String} : IsOneToken (.number text false) text →
    IsWellFormed (.numeric ("-" ++ text))
  | expression {words : List String} : words ≠ [] →
    List.SublistForall₂ (fun v w => sameWord w v = true) words timestampWords →
    IsWellFormed (.expression (" ".intercalate words))

/-- A column with a type and a default value that can be read, and a comment that can be put
between quotes. -/
structure Column.IsWellFormed (column : Column) : Prop where
  type : column.type.IsWellFormed
  defaultValue : ∀ v ∈ column.defaultValue, v.IsWellFormed
  comment : IsRawText column.comment

/-- A key of at least one column, which refers to at least one column exactly if it is foreign. -/
structure Key.IsWellFormed (key : Key) : Prop where
  columns_ne_nil : key.columns ≠ []
  references_isSome_iff : key.references.isSome = true ↔ key.kind = .foreign
  target_ne_nil : ∀ r ∈ key.references, r.columns ≠ []

/-- A comment without quotes, closing parentheses and the word `comment`. -/
structure Table.IsPlainComment (comment : String) : Prop where
  not_mem_quote : '\'' ∉ comment.toList
  not_mem_paren : ')' ∉ comment.toList
  foldCase_ne : ∀ w, w <:+: comment.toList → foldCase w ≠ foldCase "comment".toList

/-- A table of columns and keys that can be read, with a comment that can be found. -/
structure Table.IsWellFormed (table : Table) : Prop where
  columns : ∀ c ∈ table.columns, c.IsWellFormed
  keys : ∀ k ∈ table.keys, k.IsWellFormed
  comment : Table.IsPlainComment table.comment

/-! ### Columns -/

/-- What may stand between quotes is read between them. -/
theorem isRawText_of_isQuotedBody {text : String} (h : IsQuotedBody '\'' true text.toList) :
    IsRawText text := by
  have htext : ("'" ++ text ++ "'").toList = '\'' :: (text.toList ++ ['\'']) := by
    simp
  refine lex_eq_of_scan htext ?_
  rw [scan_literal h (by simp)]
  simp

/-- A numeral is one number. -/
theorem isOneToken_of_isNumeral {text : String} (h : IsNumeral text.toList) :
    IsOneToken (.number text false) text := by
  obtain ⟨c, cs, htext, hc⟩ := h.head
  have hnumber := h.number_eq
  rw [String.ofList_toList, htext] at hnumber
  refine lex_eq_of_scan htext ?_
  rw [scan_number hc, hnumber]
  rfl

/-- A type with the parameters that its tokens spell is well-formed. -/
theorem DataType.HasParameters.isWellFormed {t : DataType} {ps : Cursor}
    (h : HasParameters t.length t.scale ps) : t.IsWellFormed := by
  have hrow {k : Kind} {digits : String} (h : k.IsDigits digits) : IsDigitRow digits := by
    obtain ⟨_, -, hdigits⟩ := h
    exact hdigits
  obtain ⟨name, length, scale⟩ := t
  cases h with
  | absent => exact ⟨nofun, nofun, nofun⟩
  | one _ hlength _ => exact ⟨nofun, by rintro _ ⟨⟩; exact hrow hlength, nofun⟩
  | two _ hlength _ hscale _ =>
      exact ⟨fun _ => rfl, by rintro _ ⟨⟩; exact hrow hlength, by rintro _ ⟨⟩; exact hrow hscale⟩

/-- The words of some tokens are some of the words. -/
theorem Value.SomeOf.sublistForall₂ {ts : Cursor} {ws : List String} (h : SomeOf ts ws) :
    List.SublistForall₂ (fun v w => sameWord w v = true) (ts.filterMap (·.kind.word?)) ws := by
  induction h with
  | nil => exact .nil
  | @cons t w ts ws ht _ ih =>
      obtain ⟨v, hv⟩ := Kind.exists_of_isWord ht
      rw [hv] at ht
      simp only [List.filterMap_cons, hv, Kind.word?]
      exact .cons ht ih
  | cons_right _ ih => exact .cons_right ih

/-- A value that was read is well formed. -/
theorem Value.IsSpelledBy.isWellFormed {v : Value} {ts : Cursor} (h : v.IsSpelledBy ts)
    (hts : ∀ t ∈ ts, t.kind.IsWritten) : v.IsWellFormed := by
  cases h with
  | null => exact .null
  | @literal t body ht =>
      have hbody : t.kind.IsWritten := hts t List.mem_cons_self
      rw [ht] at hbody
      exact .literal (isRawText_of_isQuotedBody hbody)
  | @numeric t text long ht =>
      have hnumeral : t.kind.IsWritten := hts t List.mem_cons_self
      rw [ht] at hnumeral
      exact .numeric (isOneToken_of_isNumeral hnumeral)
  | @negative m t text long hm ht =>
      have hnumeral : t.kind.IsWritten := hts t (by simp)
      rw [ht] at hnumeral
      exact .negative (isOneToken_of_isNumeral hnumeral)
  | expression hne hsome => exact .expression (hsome.words_ne_nil hne) hsome.sublistForall₂

/-- A column that was read is well formed. -/
theorem Column.IsSpelledBy.isWellFormed {column : Column} {ts : Cursor}
    (h : column.IsSpelledBy ts) (hts : ∀ t ∈ ts, t.kind.IsWritten) : column.IsWellFormed := by
  obtain ⟨-, -, hparameters, -, hdefault, hcomment, htext⟩ := h
  simp only [List.forall_mem_cons, List.forall_mem_append] at hts
  obtain ⟨-, -, -, -, hdefaultWritten, hcommentWritten⟩ := hts
  refine ⟨hparameters.isWellFormed, fun v hv => ?_, ?_⟩
  · rw [hv] at hdefault
    obtain _ | ⟨_ | ⟨_, hspelled⟩⟩ := hdefault
    exact hspelled.isWellFormed fun t ht => hdefaultWritten t (List.mem_cons_of_mem _ ht)
  · refine isRawText_of_isQuotedBody ?_
    rw [htext]
    exact hcomment.isQuotedBody_text hcommentWritten

/-! ### Keys and comments -/

/-- A key that was read is well formed. -/
theorem Key.IsComplete.isWellFormed {key : Key} (h : key.IsComplete) : key.IsWellFormed := by
  have hreferences := h.references
  by_cases hkind : key.kind = .foreign
  · rw [if_pos hkind] at hreferences
    obtain ⟨r, hr, hne⟩ := hreferences
    refine ⟨h.columns_ne_nil, by simp [hr, hkind], ?_⟩
    rw [hr]
    rintro _ ⟨⟩
    exact hne
  · rw [if_neg hkind] at hreferences
    exact ⟨h.columns_ne_nil, by simp [hreferences, hkind], by simp [hreferences]⟩

namespace Table

/-- The empty comment has nothing that would end the search elsewhere. -/
theorem isPlainComment_empty : IsPlainComment "" := by
  refine ⟨by simp, by simp, fun w hw => ?_⟩
  obtain rfl := List.infix_nil.1 hw
  decide

/-- A comment that was found has nothing that would end the search elsewhere. -/
theorem isPlainComment_commentOf (tail : String) : IsPlainComment (commentOf tail) := by
  rw [commentOf]
  cases h : commentIn? tail.toList with
  | none => exact isPlainComment_empty
  | some text =>
      obtain ⟨hquote, hparen, hnone⟩ := plain_of_commentIn? h
      rw [Option.getD_some]
      refine ⟨by simpa using hquote, by simpa using hparen, ?_⟩
      rw [String.toList_ofList]
      rintro w ⟨p, rest, heq⟩
      refine (lastIndex?_eq_none_iff (by decide)).1 hnone p w rest ?_
      rw [← heq, List.append_assoc]

/-- The comment behind a closing parenthesis has nothing that would end the search elsewhere. -/
theorem isPlainComment_commentBehind (s : Session) (close : Token) :
    IsPlainComment (s.commentBehind close) := by
  rw [Session.commentBehind]
  split
  · cases s.source.textBehind? close with
    | none => exact isPlainComment_empty
    | some tail => exact isPlainComment_commentOf tail
  · exact isPlainComment_empty

/-- **Every table that was read is well formed.** -/
theorem isWellFormed_of_ofText {text : String} {options : Options} {t : Table}
    (h : Table.ofText text options = .ok t) : t.IsWellFormed := by
  obtain ⟨u, close, rest, hrule, rfl⟩ := ofText_eq_ok_iff_rule.1 h
  obtain ⟨l, items, -, -, hall, rfl⟩ :=
    (runFrom_eq_ok_iff (isBare_significantTokens text)).1 hrule
  refine ⟨fun c hc => ?_, fun k hk => ?_, isPlainComment_commentBehind _ close⟩
  · obtain ⟨i, hi, hcolumn⟩ := List.mem_filterMap.1 hc
    obtain ⟨s, hs, hread⟩ := exists_of_forall₂ hall i hi
    have hmem : ∀ t ∈ s, t ∈ significantTokens text := fun t => l.mem_of_mem_pieces hs
    cases hread with
    | key => cases hcolumn
    | column _ hread =>
        cases hcolumn
        have hbare : s.IsBare := fun t ht => isBare_significantTokens text t (hmem t ht)
        obtain ⟨ts, rfl, hspelled⟩ := Column.exists_isSpelledBy hbare hread
        refine hspelled.isWellFormed fun t ht => isWritten_of_mem_significantTokens (hmem t ?_)
        exact List.mem_append_left _ ht
  · obtain ⟨i, hi, hkey⟩ := List.mem_filterMap.1 hk
    obtain ⟨s, -, hread⟩ := exists_of_forall₂ hall i hi
    cases hread with
    | column => cases hkey
    | key _ hread =>
        cases hkey
        exact (Key.isComplete_of_runFrom hread).isWellFormed

/-- A table with a scale, a negative number, a foreign key and a comment. -/
theorem isWellFormed_of_ofText_foreign :
    Table.ofText
        "create table o(n decimal(9,2)default -.5,foreign key(n)references p(q))comment'c'" {}
      = .ok ⟨⟨none, "o"⟩, [⟨"n", ⟨.decimal, some "9", some "2"⟩, [], some (.numeric "-.5"), ""⟩],
        [⟨.foreign, none, ["n"], some ⟨"p", ["q"]⟩⟩], "c"⟩ ∧
    IsWellFormed ⟨⟨none, "o"⟩,
      [⟨"n", ⟨.decimal, some "9", some "2"⟩, [], some (.numeric "-.5"), ""⟩],
      [⟨.foreign, none, ["n"], some ⟨"p", ["q"]⟩⟩], "c"⟩ := by
  have h : Table.ofText
      "create table o(n decimal(9,2)default -.5,foreign key(n)references p(q))comment'c'" {}
      = .ok ⟨⟨none, "o"⟩, [⟨"n", ⟨.decimal, some "9", some "2"⟩, [], some (.numeric "-.5"), ""⟩],
        [⟨.foreign, none, ["n"], some ⟨"p", ["q"]⟩⟩], "c"⟩ := by
    decide +kernel
  exact ⟨h, isWellFormed_of_ofText h⟩

end Table

end CreateTable
