import CreateTable.Proofs.Column.Parameters
import CreateTable.Proofs.Printing.Name

/-!
# Printed columns

A column that was read is printed to tokens that spell it. They need not be the tokens it was read
from: letter case, blanks, the order of clauses that are not there, and a comment that was no
string are lost.

## Main statements

* `Value.IsSpelledBy.lexesTo_render`, `DataType.HasParameters.lexesTo_render`,
  `Attribute.lexesTo_render`: the parts of a column.
* `Column.IsSpelledBy.lexesTo_render`: a printed column spells the column.
-/

namespace CreateTable

open Text Identifier

/-! ### Values -/

namespace Value

variable {v : Value} {ts us : Cursor} {ws : List String} {rest : List Char}

/-- Whether tokens are some of the words is a question of their kinds. -/
theorem someOf_iff_kinds : SomeOf ts ws ↔
    ∃ l, List.Forall₂ (fun k w => k.isWord w = true) (ts.map Token.kind) l ∧ l.Sublist ws := by
  simp only [SomeOf, List.sublistForall₂_iff, List.forall₂_map_left_iff]

/-- Some of the words are words. -/
theorem SomeOf.kinds_eq (h : SomeOf ts ws) :
    ts.map Token.kind = (ts.filterMap (·.kind.word?)).map .word := by
  induction h with
  | nil => rfl
  | cons ht _ ih =>
      obtain ⟨v, hv⟩ := Kind.exists_of_isWord ht
      simp [hv, Kind.word?, ih]
  | cons_right _ ih => exact ih

/-- The words as they were written are plain. -/
theorem SomeOf.isPlain (h : SomeOf ts ws) (hws : ∀ w ∈ ws, Identifier.isPlain w = true) :
    ∀ v ∈ ts.filterMap (·.kind.word?), Identifier.isPlain v = true := by
  induction h with
  | nil => simp
  | @cons t w ts ws ht _ ih =>
      rw [List.forall_mem_cons] at hws
      obtain ⟨v, hv⟩ := Kind.exists_of_isWord ht
      rw [hv] at ht
      have hplain := (isPlain_eq_of_sameWord ht).symm.trans hws.1
      simpa [hv, Kind.word?, hplain] using ih hws.2
  | cons_right _ ih => exact ih (List.forall_mem_cons.1 hws).2

/-- Whether tokens spell the words about the current time is a question of their kinds. -/
theorem IsSpelledBy.expression_of_kinds (hne : ts ≠ []) (h : SomeOf ts timestampWords)
    (hkinds : us.map Token.kind = ts.map Token.kind) :
    (Value.expression (" ".intercalate (ts.filterMap (·.kind.word?)))).IsSpelledBy us := by
  have hwords : us.filterMap (·.kind.word?) = ts.filterMap (·.kind.word?) := by
    have hmap := congrArg (List.filterMap Kind.word?) hkinds
    rwa [List.filterMap_map, List.filterMap_map] at hmap
  have hsome : SomeOf us timestampWords := by
    rw [someOf_iff_kinds, hkinds]
    exact someOf_iff_kinds.1 h
  have hne' : us ≠ [] := by
    rintro rfl
    exact hne (List.map_eq_nil_iff.1 hkinds.symm)
  rw [← hwords]
  exact .expression hne' hsome

/-- A value that was read is printed to tokens that spell it. -/
theorem IsSpelledBy.lexesTo_render (h : v.IsSpelledBy ts) (hts : ∀ t ∈ ts, t.kind.IsWritten)
    (hrest : Delimited rest) : LexesTo v.IsSpelledBy v.render.toList rest := by
  obtain ⟨d, tail, rfl, hword, hnumber⟩ := hrest.exists_endsWord
  cases h with
  | null =>
      exact (lexesTo_word (w := "NULL") rfl hword tail).imp_token fun u hu =>
        .null (by simp only [hu]; rfl)
  | @literal t body ht =>
      have hbody : t.kind.IsWritten := hts t List.mem_cons_self
      rw [ht] at hbody
      have hprinted : (Value.literal body).render.toList = '\'' :: (body.toList ++ ['\'']) := by
        simp only [render, String.toList_append]
        rfl
      rw [hprinted]
      exact (lexesTo_literal hbody hword tail).imp_token fun u hu => .literal hu
  | @numeric t text long ht =>
      have hnumeral : t.kind.IsWritten := hts t List.mem_cons_self
      rw [ht] at hnumeral
      exact (lexesTo_numeral hnumeral hnumber tail).imp_token fun u hu => .numeric hu
  | @negative m t text long hm ht =>
      have hnumeral : t.kind.IsWritten := hts t (by simp)
      rw [ht] at hnumeral
      have hprinted : (Value.numeric ("-" ++ text)).render.toList = ['-'] ++ text.toList := by
        simp only [render, String.toList_append]
        rfl
      have hminus : LexesTo (Cursor.IsToken (· = .minus)) ['-'] (text.toList ++ d :: tail) := by
        obtain ⟨c, cs, hlist, hc⟩ := hnumeral.head
        have hfirst : ∀ e ∈ ['-', '>'], ¬ (e.isDigit = true ∨ e = '.') := by simp
        have hne : c ∉ ['-', '>'] := fun h => hfirst c h hc
        simp only [List.mem_cons, List.not_mem_nil, or_false, not_or] at hne
        rw [hlist]
        exact lexesTo_of_scan rfl (scan_minus hne.1 hne.2 (cs ++ d :: tail))
      rw [hprinted]
      refine (hminus.append (lexesTo_numeral hnumeral hnumber tail)).imp fun us _ hus => ?_
      obtain ⟨_, _, rfl, ⟨u, rfl, hu⟩, w, rfl, hw⟩ := hus
      exact .negative hu hw
  | expression hne hsome =>
      have hplain := hsome.isPlain (by decide)
      refine (lexesTo_words hplain hword tail).imp fun us _ hus => ?_
      exact .expression_of_kinds hne hsome (hus.trans hsome.kinds_eq.symm)

/-- The characters of plain words with blanks between them. -/
theorem mem_intercalate {vs : List String} (hvs : ∀ v ∈ vs, Identifier.isPlain v = true) :
    ∀ c ∈ (" ".intercalate vs).toList, c = ' ' ∨ isPlainChar c = true := by
  induction vs with
  | nil => simp
  | cons v vs ih =>
      rw [List.forall_mem_cons] at hvs
      have hv : ∀ c ∈ v.toList, c = ' ' ∨ isPlainChar c = true := by
        obtain ⟨e, es, hlist, -, hes⟩ := exists_of_isPlain hvs.1
        rw [hlist]
        exact fun c hc => .inr (hes c hc)
      cases vs with
      | nil => simpa using hv
      | cons w vs =>
          rw [String.intercalate_cons_cons, String.toList_append, String.toList_append]
          intro c hc
          rcases List.mem_append.1 hc with hc | hc
          · rcases List.mem_append.1 hc with hc | hc
            · exact hv c hc
            · exact .inl (List.mem_singleton.1 hc)
          · exact ih hvs.2 c hc

/-- A numeral may stand between quotes. -/
theorem isQuotedBody_of_isNumeral {cs : List Char} (h : IsNumeral cs) :
    IsQuotedBody '\'' true cs :=
  isQuotedBody_of_plain fun c hc => ⟨(h.plain c hc).1, fun hescape => (h.plain c hc).2 hescape.2⟩

/-- The plain text of a value that was read may stand between quotes. -/
theorem IsSpelledBy.isQuotedBody_text (h : v.IsSpelledBy ts) (hts : ∀ t ∈ ts, t.kind.IsWritten) :
    IsQuotedBody '\'' true v.text.toList := by
  cases h with
  | null => exact isQuotedBody_of_plain (by simp [Value.text])
  | @literal t body ht =>
      have hbody : t.kind.IsWritten := hts t List.mem_cons_self
      rwa [ht] at hbody
  | @numeric t text long ht =>
      have hnumeral : t.kind.IsWritten := hts t List.mem_cons_self
      rw [ht] at hnumeral
      exact isQuotedBody_of_isNumeral hnumeral
  | @negative m t text long hm ht =>
      have hnumeral : t.kind.IsWritten := hts t (by simp)
      rw [ht] at hnumeral
      have htext : (Value.numeric ("-" ++ text)).text.toList = '-' :: text.toList := by
        simp only [Value.text, String.toList_append]
        rfl
      rw [htext]
      exact .plain (by decide) (by decide) (isQuotedBody_of_isNumeral hnumeral)
  | expression hne hsome =>
      refine isQuotedBody_of_plain fun c hc => ?_
      rcases mem_intercalate (hsome.isPlain (by decide)) c hc with rfl | hplain
      · decide
      · have hquote := not_mem_of_isPlainChar (l := ['\'', '\\']) hplain rfl
        simpa using hquote

end Value

/-! ### Types -/

namespace DataType

variable {t : DataType} {ps : Cursor} {rest : List Char}

/-- A row of digits is the text of a number. -/
theorem isNumeral_of_isDigits {k : Kind} {digits : String} (h : k.IsDigits digits) :
    IsNumeral digits.toList := by
  obtain ⟨_, -, hne, hdigits⟩ := h
  have hnil : digits.toList ≠ [] := by simpa using hne
  have hpoint : digits.toList ≠ ['.'] := by
    intro heq
    have hdigit := hdigits '.' (by simp [heq])
    cases hdigit
  have hparts := isNumeral_of_parts hdigits .nil .nil (by simpa using hpoint) (by simpa using hnil)
  rwa [List.append_nil, List.append_nil] at hparts

/-- A row of digits that was read is read again. -/
theorem lexesTo_digits {k : Kind} {digits : String} {d : Char} (h : k.IsDigits digits)
    (hd : EndsNumber d) (tail : List Char) :
    LexesTo (Cursor.IsToken (·.IsDigits digits)) digits.toList (d :: tail) := by
  refine (lexesTo_numeral (isNumeral_of_isDigits h) hd tail).imp_token fun t ht => ?_
  obtain ⟨_, -, hdigits⟩ := h
  exact ⟨t, rfl, false, ht, hdigits⟩

/-- The keyword of a type needs no backticks. -/
theorem isPlain_keyword (t : TypeName) : isPlain t.keyword = true := by
  cases t <;> decide

/-- The keyword of a type is read as that keyword. -/
theorem lexesTo_keyword (t : TypeName) (hrest : Delimited rest) :
    LexesTo (Cursor.IsToken (·.isWord t.keyword = true)) t.keyword.toList rest := by
  obtain ⟨d, tail, rfl, hword, -⟩ := hrest.exists_endsWord
  refine (lexesTo_word (isPlain_keyword t) hword tail).imp_token fun u hu => ⟨u, rfl, ?_⟩
  rw [hu]
  exact sameWord_refl t.keyword

/-- The parameters of a type as they are printed. -/
def parameterChars : Option String → Option String → List Char
  | some length, some scale => '(' :: (length.toList ++ ',' :: (scale.toList ++ [')']))
  | some length, none => '(' :: (length.toList ++ [')'])
  | none, _ => []

/-- A printed type is its keyword with the printed parameters behind it. -/
theorem toList_render (t : DataType) :
    t.render.toList = t.name.keyword.toList ++ parameterChars t.length t.scale := by
  obtain ⟨name, length, scale⟩ := t
  cases length with
  | none => simp [render, parameterChars]
  | some length => cases scale <;> simp [render, parameterChars]

/-- Whether there are parameters or not, a blank, a comma or a parenthesis comes next. -/
theorem delimited_parameterChars (length scale : Option String) (hrest : Delimited rest) :
    Delimited (parameterChars length scale ++ rest) := by
  refine hrest.append fun d hd => ?_
  cases length with
  | none => cases hd
  | some length =>
      cases scale <;>
      · obtain rfl : '(' = d := Option.some.inj hd
        simp

/-- Printed parameters are read as the parameters they were printed from. -/
theorem HasParameters.lexesTo {length scale : Option String} (h : HasParameters length scale ps)
    (rest : List Char) :
    LexesTo (HasParameters length scale) (parameterChars length scale) rest := by
  have hcomma : EndsNumber ',' := ⟨(endsWord_of_mem (by simp)).not_isWordPart, by decide⟩
  have hclose : EndsNumber ')' := ⟨(endsWord_of_mem (by simp)).not_isWordPart, by decide⟩
  cases h with
  | absent => exact .nil .absent
  | one _ hlength _ =>
      have hrest := (lexesTo_digits hlength hclose rest).append (lexesTo_rightParen rest)
      refine ((lexesTo_leftParen _).append hrest).imp fun ts _ hts => ?_
      obtain ⟨_, _, rfl, ⟨l, rfl, hl⟩, _, _, rfl, ⟨d, rfl, hd⟩, r, rfl, hr⟩ := hts
      exact .one hl hd hr
  | two _ hlength _ hscale _ =>
      have hrest := (lexesTo_digits hscale hclose rest).append (lexesTo_rightParen rest)
      have hsecond := (lexesTo_comma _).append hrest
      refine ((lexesTo_leftParen _).append ((lexesTo_digits hlength hcomma _).append hsecond)).imp
        fun ts _ hts => ?_
      obtain ⟨_, _, rfl, ⟨l, rfl, hl⟩, _, _, rfl, ⟨d, rfl, hd⟩, _, _, rfl, ⟨m, rfl, hm⟩, _, _, rfl,
        ⟨e, rfl, he⟩, r, rfl, hr⟩ := hts
      exact .two hl hd hm he hr

/-- A type that was read is printed to its keyword and its parameters. -/
theorem HasParameters.lexesTo_render (h : HasParameters t.length t.scale ps)
    (hrest : Delimited rest) :
    LexesTo (Cursor.Splits (Cursor.IsToken (·.isWord t.name.keyword = true))
      (HasParameters t.length t.scale)) t.render.toList rest := by
  rw [toList_render]
  have hkeyword := lexesTo_keyword t.name (delimited_parameterChars t.length t.scale hrest)
  exact hkeyword.append (h.lexesTo rest)

end DataType

/-! ### Modifiers -/

namespace Attribute

variable {rest : List Char}

/-- Upper case passes over the blanks between words. -/
theorem toUpper_intercalate (ws : List String) :
    (" ".intercalate ws).toUpper = " ".intercalate (ws.map String.toUpper) := by
  have happend (v w : String) : (v ++ w).toUpper = v.toUpper ++ w.toUpper := by
    refine String.toList_injective ?_
    simp only [String.toUpper, String.toList_map, String.toList_append, List.map_append]
  have hblank : " ".toUpper = " " := by
    refine String.toList_injective ?_
    rw [String.toUpper, String.toList_map]
    rfl
  induction ws with
  | nil => simp [String.toUpper]
  | cons w ws ih =>
      cases ws with
      | nil => simp
      | cons v ws =>
          rw [List.map_cons, List.map_cons, String.intercalate_cons_cons,
            String.intercalate_cons_cons, happend, happend, hblank, ih, List.map_cons]

/-- A printed modifier is its words. -/
theorem lexesTo_render (a : Attribute) (hrest : Delimited rest) :
    LexesTo (Cursor.Spells a.words) a.render.toList rest := by
  have hplain : ∀ w ∈ a.words, isPlain w = true := by cases a <;> decide
  have hsame : List.Forall₂ (fun w v => sameWord w v = true) a.words
      (a.words.map String.toUpper) :=
    List.forall₂_map_right_iff.2 (List.forall₂_same.2 fun w _ => sameWord_toUpper w)
  rw [render, keyword, toUpper_intercalate]
  exact lexesTo_phrase hplain hsame hrest

/-- Whether there are modifiers or not, a blank, a comma or a parenthesis comes next. -/
theorem delimited_join (as : List Attribute) (hrest : Delimited rest) :
    Delimited ((String.join (as.map (" " ++ ·.render))).toList ++ rest) := by
  refine hrest.append fun d hd => ?_
  cases as with
  | nil => simp at hd
  | cons a as =>
      rw [List.map_cons, String.join_cons, String.toList_append, String.toList_append] at hd
      obtain rfl : ' ' = d := Option.some.inj hd
      simp

/-- Printed modifiers, each behind a blank. -/
theorem lexesTo_join (as : List Attribute) (hrest : Delimited rest) :
    LexesTo (AreSpelledBy as) (String.join (as.map (" " ++ ·.render))).toList rest := by
  induction as with
  | nil => exact .nil .nil
  | cons a as ih =>
      rw [List.map_cons, String.join_cons, String.toList_append, String.toList_append]
      have hwords := (lexesTo_render a (delimited_join as hrest)).blank (.inl rfl)
      refine (hwords.append ih).imp fun ts _ hts => ?_
      obtain ⟨_, _, rfl, hwords, has⟩ := hts
      exact .cons hwords has

end Attribute

/-! ### Clauses and columns -/

namespace Column

variable {column : Column} {ts : Cursor} {rest : List Char}

/-- The clause of a default value as it is printed. -/
def defaultChars : Option Value → List Char
  | some value => ' ' :: ("DEFAULT".toList ++ ' ' :: value.render.toList)
  | none => []

/-- The clause of a comment as it is printed. -/
def commentChars (comment : String) : List Char :=
  if comment = "" then []
  else ' ' :: ("COMMENT".toList ++ ' ' :: '\'' :: (comment.toList ++ ['\'']))

/-- A printed column is its name, its type, its modifiers and its two clauses. -/
theorem toList_render (column : Column) :
    column.render.toList = (quote column.name).toList ++ (' ' :: column.type.render.toList
      ++ ((String.join (column.attributes.map (" " ++ ·.render))).toList
        ++ (defaultChars column.defaultValue ++ commentChars column.comment))) := by
  obtain ⟨name, type, attributes, defaultValue, comment⟩ := column
  have hcomment : (if comment = "" then "" else " COMMENT '" ++ comment ++ "'").toList
      = commentChars comment := by
    rw [commentChars]
    split <;> simp
  cases defaultValue with
  | none =>
      simp only [render, String.toList_append, hcomment, List.append_assoc]
      rfl
  | some value =>
      simp only [render, String.toList_append, hcomment, List.append_assoc]
      rfl

/-- Whether there is a comment or not, a blank, a comma or a parenthesis comes next. -/
theorem delimited_commentChars (comment : String) (hrest : Delimited rest) :
    Delimited (commentChars comment ++ rest) := by
  refine hrest.append fun d hd => ?_
  rw [commentChars] at hd
  split at hd
  · cases hd
  · obtain rfl : ' ' = d := Option.some.inj hd
    simp

/-- Whether there is a default value or not, a blank, a comma or a parenthesis comes next. -/
theorem delimited_defaultChars (v : Option Value) (hrest : Delimited rest) :
    Delimited (defaultChars v ++ rest) := by
  refine hrest.append fun d hd => ?_
  cases v with
  | none => cases hd
  | some v =>
      obtain rfl : ' ' = d := Option.some.inj hd
      simp

/-- The keyword of a clause behind a blank. -/
theorem lexesTo_keyword {w v : String} (hw : isPlain w = true) (h : sameWord w v = true)
    (tail : List Char) :
    LexesTo (Cursor.IsToken (·.isWord w = true)) (' ' :: v.toList) (' ' :: tail) := by
  have hv : isPlain v = true := (isPlain_eq_of_sameWord h).symm.trans hw
  have hblank : EndsWord ' ' := endsWord_of_mem (by simp)
  refine ((lexesTo_word hv hblank tail).imp_token fun t ht => ?_).blank (.inl rfl)
  exact ⟨t, rfl, by rw [ht]; exact h⟩

/-- The clause of a default value that was read is printed to tokens that spell it. -/
theorem HasClause.lexesTo_default {v : Option Value} (h : HasClause "default" v ts)
    (hts : ∀ t ∈ ts, t.kind.IsWritten) (hrest : Delimited rest) :
    LexesTo (HasClause "default" v) (defaultChars v) rest := by
  cases v with
  | none => exact .nil .absent
  | some v =>
      obtain ⟨vs, hvs, hwritten⟩ : ∃ vs, v.IsSpelledBy vs ∧ ∀ t ∈ vs, t.kind.IsWritten := by
        cases h with
        | present h =>
            cases h with
            | value _ hvs => exact ⟨_, hvs, fun t ht => hts t (List.mem_cons_of_mem _ ht)⟩
      have hkeyword := lexesTo_keyword (w := "default") (v := "DEFAULT") rfl rfl
        (v.render.toList ++ rest)
      have hvalue := (hvs.lexesTo_render hwritten hrest).blank (.inl rfl)
      refine (hkeyword.append hvalue).imp fun ts _ hts => ?_
      obtain ⟨_, us, rfl, ⟨t, rfl, ht⟩, hus⟩ := hts
      exact .present (.value ht hus)

/-- A comment that may stand between quotes is printed to a clause with a string. -/
theorem lexesTo_comment {comment : String} (h : IsQuotedBody '\'' true comment.toList)
    (hrest : Delimited rest) :
    LexesTo (fun ts => ∃ text, HasClause "comment" text ts ∧
      comment = (text.map Value.text).getD "") (commentChars comment) rest := by
  rw [commentChars]
  split
  · next hempty => exact .nil ⟨none, .absent, hempty⟩
  · obtain ⟨d, tail, rfl, hd, -⟩ := hrest.exists_endsWord
    have hkeyword := lexesTo_keyword (w := "comment") (v := "COMMENT") rfl rfl
      ('\'' :: (comment.toList ++ ['\'']) ++ d :: tail)
    have hvalue := (lexesTo_literal h hd tail).blank (.inl rfl)
    refine (hkeyword.append hvalue).imp fun ts _ hts => ?_
    obtain ⟨_, _, rfl, ⟨t, rfl, ht⟩, u, rfl, hu⟩ := hts
    exact ⟨some (.literal comment), .present (.value ht (.literal hu)), rfl⟩

/-- The text of a clause that was read may stand between single quotes. -/
theorem HasClause.isQuotedBody_text {keyword : String} {v : Option Value}
    (h : HasClause keyword v ts) (hts : ∀ t ∈ ts, t.kind.IsWritten) :
    IsQuotedBody '\'' true ((v.map Value.text).getD "").toList := by
  cases h with
  | absent => exact .nil
  | present h =>
      cases h with
      | bare => exact .nil
      | value _ hvs =>
          exact hvs.isQuotedBody_text fun t ht => hts t (List.mem_cons_of_mem _ ht)

/-- A column that was read is printed to tokens that spell it. -/
theorem IsSpelledBy.lexesTo_render (h : column.IsSpelledBy ts) (hts : ∀ t ∈ ts, t.kind.IsWritten)
    (hname : '\x60' ∉ column.name.toList) (hrest : Delimited rest) :
    LexesTo column.IsSpelledBy column.render.toList rest := by
  obtain ⟨-, -, hparameters, -, hdefault, hcomment, htext⟩ := h
  rename_i name type parameters attributes default comment text
  simp only [List.forall_mem_cons, List.forall_mem_append] at hts
  obtain ⟨-, -, -, -, hdefaultWritten, hcommentWritten⟩ := hts
  have hbody : IsQuotedBody '\'' true column.comment.toList := by
    rw [htext]
    exact hcomment.isQuotedBody_text hcommentWritten
  -- every part ends at what stands behind it
  have hrest₄ := delimited_commentChars column.comment hrest
  have hrest₃ :
      Delimited (defaultChars column.defaultValue ++ commentChars column.comment ++ rest) := by
    rw [List.append_assoc]
    exact delimited_defaultChars column.defaultValue hrest₄
  have hclauses := (hdefault.lexesTo_default hdefaultWritten hrest₄).append
    (lexesTo_comment hbody hrest)
  have hattributes := (Attribute.lexesTo_join column.attributes hrest₃).append hclauses
  have hrest₂ := Attribute.delimited_join column.attributes hrest₃
  rw [← List.append_assoc] at hrest₂
  have htype := ((hparameters.lexesTo_render hrest₂).append hattributes).blank (.inl rfl)
  rw [toList_render]
  have hblank : EndsWord ' ' := endsWord_of_mem (by simp)
  refine ((lexesTo_quote_self hname hblank _).append htype).imp fun ts _ hts => ?_
  obtain ⟨_, _, rfl, ⟨n, rfl, hn⟩, _, _, rfl, ⟨_, ps, rfl, ⟨u, rfl, hu⟩, hps⟩, as, _, rfl, has, d,
    c, rfl, hd, text', hc, htext'⟩ := hts
  exact .mk hn hu hps has hd hc htext'

end Column

end CreateTable
