import CreateTable.Proofs.Column.Attribute
import CreateTable.Proofs.Grammar.Significant
import Mathlib.Data.List.Nodup

/-!
# The grammar of columns

A column definition is a name, a type with its parameters, modifiers, and the clauses of the
default value and the comment. Every part but the name begins with a keyword or a parenthesis
that no later part begins with; that is why a rule that takes each part greedily reads all column
definitions and nothing else.

## Main definitions

* `Kind.IsDigits`, `DataType.HasParameters`: the tokens of the parameters of a type.
* `Column.IsSpelledBy`: the tokens of a column definition.

## Main statements

* `Column.exists_isSpelledBy`: what is read as a column is one.
* `Column.IsSpelledBy.runFrom_append`, `Column.IsSpelledBy.runFrom`: a column definition is read
  completely.
* `Column.ofText_eq_ok_iff_isSpelledBy`: the texts that describe a column.
-/

namespace CreateTable

/-! ### Types -/

/-- The keywords of two types are different words. -/
theorem TypeName.eq_of_sameWord {t u : TypeName}
    (h : Text.sameWord t.keyword u.keyword = true) : t = u := by
  have hnodup : (all.map fun t => Text.foldCase t.keyword.toList).Nodup := by decide
  exact List.inj_on_of_nodup_map hnodup (mem_all t) (mem_all u) (Text.sameWord_iff.1 h)

/-- A word names the type whose keyword it is. -/
theorem TypeName.ofKeyword?_eq_some_iff {word : String} {t : TypeName} :
    ofKeyword? word = some t ↔ Text.sameWord t.keyword word = true := by
  constructor
  · intro h
    exact List.find?_some (p := fun t : TypeName => Text.sameWord t.keyword word) h
  · intro h
    obtain ⟨u, hu⟩ : ∃ u, ofKeyword? word = some u :=
      Option.isSome_iff_exists.1 (List.find?_isSome.2 ⟨t, mem_all t, h⟩)
    have hword := List.find?_some (p := fun t : TypeName => Text.sameWord t.keyword word) hu
    have hsame := (Text.sameWord_iff.1 hword).trans (Text.sameWord_iff.1 h).symm
    rw [hu, eq_of_sameWord (Text.sameWord_iff.2 hsame)]

/-- The name of a type is read where its keyword stands. -/
theorem TypeName.run_eq_some_iff {c rest : Cursor} {t : TypeName} (hc : c.IsBare) :
    TypeName.matcher.run c = some (t, rest) ↔
      ∃ u, c = u :: rest ∧ u.kind.isWord t.keyword = true := by
  rw [TypeName.matcher, Matcher.run_token_eq_some_iff hc]
  refine exists_congr fun u => and_congr_right fun _ => ?_
  cases u.kind <;> simp [Kind.isWord, TypeName.ofKeyword?_eq_some_iff]

/-- The token is a row of decimal digits, at least one. -/
def Kind.IsDigits (k : Kind) (digits : String) : Prop :=
  ∃ long, k = .number digits long ∧ digits ≠ "" ∧ ∀ c ∈ digits.toList, c.isDigit = true

/-- Digits are read where a number of digits alone stands. -/
theorem Matcher.run_digits_eq_some_iff {c rest : Cursor} {digits : String} (hc : c.IsBare) :
    Matcher.digits.run c = some (digits, rest) ↔
      ∃ t, c = t :: rest ∧ t.kind.IsDigits digits := by
  rw [Matcher.digits, Matcher.run_token_eq_some_iff hc]
  refine exists_congr fun t => and_congr_right fun _ => ?_
  cases t.kind <;> simp [Kind.IsDigits]
  constructor
  · rintro ⟨h, rfl⟩
    exact ⟨rfl, h⟩
  · rintro ⟨rfl, h⟩
    exact ⟨h, rfl⟩

namespace DataType

variable {c rest : Cursor}

/-- The tokens of the parameters of a type: none, or the length, or the length and the scale in
parentheses. -/
inductive HasParameters : Option String → Option String → Cursor → Prop
  | absent : HasParameters none none []
  | one {l d r : Token} {length : String} : l.kind = .leftParen → d.kind.IsDigits length →
    r.kind = .rightParen → HasParameters (some length) none [l, d, r]
  | two {l d m e r : Token} {length scale : String} : l.kind = .leftParen →
    d.kind.IsDigits length → m.kind = .comma → e.kind.IsDigits scale → r.kind = .rightParen →
      HasParameters (some length) (some scale) [l, d, m, e, r]

/-- A length alone is digits between parentheses. -/
theorem run_lengthOnly_eq_some_iff {length : String} {scale : Option String} (hc : c.IsBare) :
    lengthOnly.run c = some ((length, scale), rest) ↔
      ∃ l d r : Token, c = l :: d :: r :: rest ∧ scale = none ∧ l.kind = .leftParen ∧
        d.kind.IsDigits length ∧ r.kind = .rightParen := by
  simp only [lengthOnly, Matcher.run_bind_eq_some_iff, Matcher.run_mark_eq_some_iff hc]
  constructor
  · rintro ⟨_, c₁, ⟨l, rfl, hl⟩, _, c₂, hdigits, _, c₃, hclose, hpure⟩
    have hc₁ := (Cursor.isBare_cons.1 hc).2
    obtain ⟨d, rfl, hd⟩ := (Matcher.run_digits_eq_some_iff hc₁).1 hdigits
    obtain ⟨r, rfl, hr⟩ := (Matcher.run_mark_eq_some_iff (Cursor.isBare_cons.1 hc₁).2).1 hclose
    obtain ⟨heq, rfl⟩ := Matcher.run_pure_eq_some_iff.1 hpure
    obtain ⟨rfl, rfl⟩ := Prod.mk.inj heq
    exact ⟨l, d, r, rfl, rfl, hl, hd, hr⟩
  · rintro ⟨l, d, r, rfl, rfl, hl, hd, hr⟩
    have hc₁ := (Cursor.isBare_cons.1 hc).2
    have hdigits := (Matcher.run_digits_eq_some_iff hc₁).2 ⟨d, rfl, hd⟩
    have hc₂ := (Cursor.isBare_cons.1 hc₁).2
    have hclose := (Matcher.run_mark_eq_some_iff (u := ()) hc₂).2 ⟨r, rfl, hr⟩
    exact ⟨(), _, ⟨l, rfl, hl⟩, length, _, hdigits, (), rest, hclose, rfl⟩

/-- A length and a scale are digits with a comma between them, in parentheses. -/
theorem run_lengthAndScale_eq_some_iff {length : String} {scale : Option String} (hc : c.IsBare) :
    lengthAndScale.run c = some ((length, scale), rest) ↔
      ∃ (l d m e r : Token) (digits : String), c = l :: d :: m :: e :: r :: rest ∧
        scale = some digits ∧ l.kind = .leftParen ∧ d.kind.IsDigits length ∧ m.kind = .comma ∧
        e.kind.IsDigits digits ∧ r.kind = .rightParen := by
  simp only [lengthAndScale, Matcher.run_bind_eq_some_iff, Matcher.run_mark_eq_some_iff hc]
  constructor
  · rintro ⟨_, c₁, ⟨l, rfl, hl⟩, _, c₂, hlength, _, c₃, hcomma, digits, c₄, hscale, _, c₅, hclose,
      hpure⟩
    have hc₁ := (Cursor.isBare_cons.1 hc).2
    obtain ⟨d, rfl, hd⟩ := (Matcher.run_digits_eq_some_iff hc₁).1 hlength
    have hc₂ := (Cursor.isBare_cons.1 hc₁).2
    obtain ⟨m, rfl, hm⟩ := (Matcher.run_mark_eq_some_iff hc₂).1 hcomma
    have hc₃ := (Cursor.isBare_cons.1 hc₂).2
    obtain ⟨e, rfl, he⟩ := (Matcher.run_digits_eq_some_iff hc₃).1 hscale
    obtain ⟨r, rfl, hr⟩ := (Matcher.run_mark_eq_some_iff (Cursor.isBare_cons.1 hc₃).2).1 hclose
    obtain ⟨heq, rfl⟩ := Matcher.run_pure_eq_some_iff.1 hpure
    obtain ⟨rfl, rfl⟩ := Prod.mk.inj heq
    exact ⟨l, d, m, e, r, digits, rfl, rfl, hl, hd, hm, he, hr⟩
  · rintro ⟨l, d, m, e, r, digits, rfl, rfl, hl, hd, hm, he, hr⟩
    have hc₁ := (Cursor.isBare_cons.1 hc).2
    have hc₂ := (Cursor.isBare_cons.1 hc₁).2
    have hc₃ := (Cursor.isBare_cons.1 hc₂).2
    have hlength := (Matcher.run_digits_eq_some_iff hc₁).2 ⟨d, rfl, hd⟩
    have hcomma := (Matcher.run_mark_eq_some_iff (u := ()) hc₂).2 ⟨m, rfl, hm⟩
    have hscale := (Matcher.run_digits_eq_some_iff hc₃).2 ⟨e, rfl, he⟩
    have hc₄ := (Cursor.isBare_cons.1 hc₃).2
    have hclose := (Matcher.run_mark_eq_some_iff (u := ()) hc₄).2 ⟨r, rfl, hr⟩
    exact ⟨(), _, ⟨l, rfl, hl⟩, length, _, hlength, (), _, hcomma, digits, _, hscale, (), rest,
      hclose, rfl⟩

/-- What is read behind the name of a type are its parameters. -/
theorem exists_hasParameters {length : String} {scale : Option String} (hc : c.IsBare)
    (h : (lengthOnly <|> lengthAndScale).run c = some ((length, scale), rest)) :
    ∃ ps, c = ps ++ rest ∧ HasParameters (some length) scale ps := by
  rcases Matcher.run_orElse_eq_some_iff.1 h with hone | ⟨-, htwo⟩
  · obtain ⟨l, d, r, rfl, rfl, hl, hd, hr⟩ := (run_lengthOnly_eq_some_iff hc).1 hone
    exact ⟨[l, d, r], rfl, .one hl hd hr⟩
  · obtain ⟨l, d, m, e, r, digits, rfl, rfl, hl, hd, hm, he, hr⟩ :=
      (run_lengthAndScale_eq_some_iff hc).1 htwo
    exact ⟨[l, d, m, e, r], rfl, .two hl hd hm he hr⟩

/-- At a keyword there are no parameters. -/
theorem run_parameters_of_leadsWith {ws : List String} (hc : c.IsBare) (h : c.LeadsWith ws) :
    (lengthOnly <|> lengthAndScale).run c = none := by
  have hopen := h.run_mark hc (k := .leftParen) (by simp)
  refine Matcher.run_orElse_eq_none_iff.2 ⟨?_, ?_⟩
  · rw [lengthOnly, Matcher.run_bind, hopen, Option.bind_none]
  · rw [lengthAndScale, Matcher.run_bind, hopen, Option.bind_none]

/-- The parameters of a type are read completely. -/
theorem HasParameters.run {length : String} {scale : Option String} {ps : Cursor}
    (h : HasParameters (some length) scale ps) (hc : Cursor.IsBare (ps ++ rest)) :
    (lengthOnly <|> lengthAndScale).run (ps ++ rest) = some ((length, scale), rest) := by
  rw [Matcher.run_orElse_eq_some_iff]
  cases h with
  | @one l d r _ hl hd hr =>
      exact .inl ((run_lengthOnly_eq_some_iff hc).2 ⟨l, d, r, rfl, rfl, hl, hd, hr⟩)
  | @two l d m e r _ scale hl hd hm he hr =>
      refine .inr ⟨?_, ?_⟩
      · -- one parameter would be closed where the comma stands
        refine Option.eq_none_iff_forall_ne_some.2 fun ⟨⟨x, y⟩, stop⟩ hrun => ?_
        obtain ⟨_, _, r', heq, -, -, -, hr'⟩ := (run_lengthOnly_eq_some_iff hc).1 hrun
        have hmr : m = r' := (List.cons.inj (List.cons.inj (List.cons.inj heq).2).2).1
        rw [← hmr, hm] at hr'
        cases hr'
      · exact (run_lengthAndScale_eq_some_iff hc).2
          ⟨l, d, m, e, r, scale, rfl, rfl, hl, hd, hm, he, hr⟩

/-- Parameters that may be missing are read completely; if they are missing, in front of something
that is none. -/
theorem HasParameters.runFrom {length scale : Option String} {ps : Cursor}
    (h : HasParameters length scale ps) (hc : Cursor.IsBare (ps ++ rest))
    (hrest : length = none → (lengthOnly <|> lengthAndScale).run rest = none) :
    (Rule.allow (lengthOnly <|> lengthAndScale)).runFrom (ps ++ rest)
      = (.ok (length.map (·, scale)), rest) := by
  rw [Rule.runFrom_allow_eq_ok_iff]
  cases length with
  | none =>
      cases h
      exact .inl ⟨rfl, hrest rfl, rfl⟩
  | some length => exact .inr ⟨(length, scale), rfl, h.run hc⟩

/-- A type that is read is a keyword of the catalog and its parameters. -/
theorem exists_isSpelledBy {t : DataType} (hc : c.IsBare)
    (h : DataType.rule.runFrom c = (.ok t, rest)) :
    ∃ u ps, c = u :: (ps ++ rest) ∧ u.kind.isWord t.name.keyword = true ∧
      HasParameters t.length t.scale ps := by
  simp only [DataType.rule, Rule.runFrom_bind_eq_ok_iff, Rule.runFrom_require_eq_ok_iff,
    TypeName.run_eq_some_iff hc, Rule.runFrom_allow_eq_ok_iff] at h
  obtain ⟨name, mid, ⟨u, rfl, hu⟩, x, behind, hparameters, h⟩ := h
  have hmid := (Cursor.isBare_cons.1 hc).2
  obtain ⟨rfl, -, rfl⟩ | ⟨⟨length, scale⟩, rfl, hrun⟩ := hparameters
  · obtain ⟨rfl, rfl⟩ := Rule.runFrom_pure_eq_ok_iff.1 h
    exact ⟨u, [], rfl, hu, .absent⟩
  · obtain ⟨rfl, rfl⟩ := Rule.runFrom_pure_eq_ok_iff.1 h
    obtain ⟨ps, rfl, hps⟩ := exists_hasParameters hmid hrun
    exact ⟨u, ps, rfl, hu, hps⟩

/-- A type is read completely; without parameters, in front of something that is none. -/
theorem HasParameters.runFrom_rule {name : TypeName} {length scale : Option String} {u : Token}
    {ps : Cursor} (h : HasParameters length scale ps)
    (hu : u.kind.isWord name.keyword = true) (hc : Cursor.IsBare (u :: (ps ++ rest)))
    (hrest : length = none → (lengthOnly <|> lengthAndScale).run rest = none) :
    DataType.rule.runFrom (u :: (ps ++ rest)) = (.ok ⟨name, length, scale⟩, rest) := by
  simp only [DataType.rule, Rule.runFrom_bind_eq_ok_iff, Rule.runFrom_require_eq_ok_iff,
    TypeName.run_eq_some_iff hc]
  refine ⟨name, _, ⟨u, rfl, hu⟩, _, rest, h.runFrom (Cursor.isBare_cons.1 hc).2 hrest, ?_⟩
  cases h <;> rfl

end DataType

/-! ### Columns -/

namespace Column

variable {c rest : Cursor}

/-- The tokens of a clause that may be missing, with the value it gives. -/
inductive HasClause (keyword : String) : Option Value → Cursor → Prop
  | absent : HasClause keyword none []
  | present {v : Option Value} {ts : Cursor} : Value.IsClause keyword v ts →
    HasClause keyword v ts

/-- The tokens that **spell** a column: a word as its name, the keyword of a type, parameters,
modifiers in any order and number, and the clauses of the default value and the comment. -/
inductive IsSpelledBy : Column → Cursor → Prop
  | mk {name type : Token} {parameters attributes default comment : Cursor} {column : Column}
      {text : Option Value} :
    name.kind.name? = some column.name → type.kind.isWord column.type.name.keyword = true →
    DataType.HasParameters column.type.length column.type.scale parameters →
    Attribute.AreSpelledBy column.attributes attributes →
    HasClause "default" column.defaultValue default →
    HasClause "comment" text comment → column.comment = (text.map Value.text).getD "" →
    IsSpelledBy column (name :: type :: (parameters ++ (attributes ++ (default ++ comment))))

/-- What is read as a clause that may be missing. -/
theorem exists_hasClause {keyword : String} {x : Option (Option Value)} (hc : c.IsBare)
    (h : (Rule.allow (Value.clause keyword)).runFrom c = (.ok x, rest)) :
    ∃ ts, c = ts ++ rest ∧ HasClause keyword x.join ts := by
  rcases Rule.runFrom_allow_eq_ok_iff.1 h with ⟨rfl, -, rfl⟩ | ⟨v, rfl, hclause⟩
  · exact ⟨[], rfl, .absent⟩
  · obtain ⟨ts, rfl, hts⟩ := Value.exists_isClause hc hclause
    exact ⟨ts, rfl, .present hts⟩

/-- A clause, if there is one, leads with its keyword. -/
theorem HasClause.leadsWith {keyword : String} {v : Option Value} {ts : Cursor}
    (h : HasClause keyword v ts) : ts.LeadsWith [keyword] := by
  cases h with
  | absent => exact .nil
  | present h => exact h.leadsWith

/-- A clause that may be missing is read completely, in front of something that neither goes on
with it nor is such a clause. -/
theorem HasClause.runFrom {keyword : String} {v : Option Value} {ts : Cursor}
    (h : HasClause keyword v ts) (hc : Cursor.IsBare (ts ++ rest))
    (hclause : (Value.clause keyword).run rest = none) (hvalue : Value.matcher.run rest = none) :
    ∃ x, (Rule.allow (Value.clause keyword)).runFrom (ts ++ rest) = (.ok x, rest) ∧
      x.join = v := by
  simp only [Rule.runFrom_allow_eq_ok_iff]
  cases h with
  | absent => exact ⟨none, .inl ⟨rfl, hclause, rfl⟩, rfl⟩
  | present h => exact ⟨some v, .inr ⟨v, rfl, h.run hc hvalue⟩, rfl⟩

/-- A column that is read is spelled by the tokens that were taken. -/
theorem exists_isSpelledBy {column : Column} (hc : c.IsBare)
    (h : Column.rule.runFrom c = (.ok column, rest)) :
    ∃ ts, c = ts ++ rest ∧ column.IsSpelledBy ts := by
  simp only [Column.rule, commentClause, Rule.runFrom_bind_eq_ok_iff,
    Rule.runFrom_require_eq_ok_iff, Matcher.run_identifier_eq_some_iff hc,
    Rule.runFrom_many_eq_ok_iff, Rule.runFrom_allow_map_eq_ok_iff,
    Rule.runFrom_pure_eq_ok_iff] at h
  obtain ⟨name, c₁, ⟨n, rfl, hn⟩, type, c₂, htype, as, c₃, hmany, x, c₄, hrunDefault, _, c₅,
    ⟨y, hrunComment, rfl⟩, rfl, rfl⟩ := h
  have hc₁ := (Cursor.isBare_cons.1 hc).2
  obtain ⟨u, parameters, rfl, hu, hparameters⟩ := DataType.exists_isSpelledBy hc₁ htype
  have hc₂ := (Cursor.isBare_append.1 (Cursor.isBare_cons.1 hc₁).2).2
  obtain ⟨attributes, heq, hattributes⟩ := Attribute.exists_areSpelledBy hc₂
  rw [hmany] at heq hattributes
  subst heq
  have hc₃ := (Cursor.isBare_append.1 hc₂).2
  obtain ⟨default, rfl, hdefault⟩ := exists_hasClause hc₃ hrunDefault
  have hc₄ := (Cursor.isBare_append.1 hc₃).2
  obtain ⟨comment, rfl, hcomment⟩ := exists_hasClause hc₄ hrunComment
  refine ⟨n :: u :: (parameters ++ (attributes ++ (default ++ comment))), by simp, ?_⟩
  refine .mk hn hu hparameters hattributes hdefault hcomment ?_
  rcases y with _ | v <;> rfl

/-- Tokens with which no column **goes on**: they begin neither with parameters nor with a modifier,
a clause or a value. -/
structure EndsAt (rest : Cursor) : Prop where
  parameters : (DataType.lengthOnly <|> DataType.lengthAndScale).run rest = none
  modifier : Attribute.matcher.run rest = none
  defaultClause : (Value.clause "default").run rest = none
  commentClause : (Value.clause "comment").run rest = none
  value : Value.matcher.run rest = none

/-- At the end of the tokens no column goes on. -/
theorem endsAt_nil : EndsAt [] :=
  ⟨rfl, rfl, rfl, rfl, rfl⟩

/-- The tokens that spell a column are read as it, in front of tokens with which it does not go
on. -/
theorem IsSpelledBy.runFrom_append {column : Column} (h : column.IsSpelledBy c)
    (hc : Cursor.IsBare (c ++ rest)) (hrest : EndsAt rest) :
    Column.rule.runFrom (c ++ rest) = (.ok column, rest) := by
  obtain ⟨hn, hu, hparameters, hattributes, hdefault, hcomment, htext⟩ := h
  rename_i name type parameters attributes default comment text
  simp only [List.cons_append, List.append_assoc] at hc ⊢
  have hc₁ := (Cursor.isBare_cons.1 hc).2
  have hc₂ := (Cursor.isBare_append.1 (Cursor.isBare_cons.1 hc₁).2).2
  have hc₃ := (Cursor.isBare_append.1 hc₂).2
  have hc₄ := (Cursor.isBare_append.1 hc₃).2
  -- no part goes on with what stands behind it
  have hclause₄ := hcomment.leadsWith.run_append_eq_none
    (fun hlead => Value.run_clause_eq_none hc₄ hlead (by decide)) hrest.defaultClause
  have hvalue₄ := hcomment.leadsWith.run_append_eq_none
    (fun hlead => Value.run_matcher_of_leadsWith_other hc₄ hlead (by decide)) hrest.value
  have hnone₄ := hcomment.leadsWith.run_append_eq_none
    (fun hlead => Attribute.run_of_leadsWith hc₄ hlead (by decide)) hrest.modifier
  have hnone₃ := hdefault.leadsWith.run_append_eq_none
    (fun hlead => Attribute.run_of_leadsWith hc₃ hlead (by decide)) hnone₄
  have hopen₄ := hcomment.leadsWith.run_append_eq_none
    (fun hlead => DataType.run_parameters_of_leadsWith hc₄ hlead) hrest.parameters
  have hopen₃ := hdefault.leadsWith.run_append_eq_none
    (fun hlead => DataType.run_parameters_of_leadsWith hc₃ hlead) hopen₄
  have hopen₂ := hattributes.leadsWith.run_append_eq_none
    (fun hlead => DataType.run_parameters_of_leadsWith hc₂ hlead) hopen₃
  have htype := hparameters.runFrom_rule hu hc₁ fun _ => hopen₂
  have hmany := hattributes.many hc₂ hnone₃
  obtain ⟨x, hdefault, hx⟩ := hdefault.runFrom hc₃ hclause₄ hvalue₄
  obtain ⟨y, hcomment, hy⟩ := hcomment.runFrom hc₄ hrest.commentClause hrest.value
  simp only [Column.rule, commentClause, Rule.runFrom_bind_eq_ok_iff,
    Rule.runFrom_require_eq_ok_iff, Matcher.run_identifier_eq_some_iff hc,
    Rule.runFrom_many_eq_ok_iff, Rule.runFrom_allow_map_eq_ok_iff,
    Rule.runFrom_pure_eq_ok_iff]
  refine ⟨column.name, _, ⟨name, rfl, hn⟩, _, _, htype, _, _, hmany, x, _, hdefault, _, rest,
    ⟨y, hcomment, rfl⟩, ?_, rfl⟩
  obtain ⟨_, _, _, _, _⟩ := column
  simp only at hx htext
  subst hx hy htext
  rcases y with _ | v <;> rfl

/-- The tokens that spell a column are read as it, to their end. -/
theorem IsSpelledBy.runFrom {column : Column} (h : column.IsSpelledBy c) (hc : c.IsBare) :
    Column.rule.runFrom c = (.ok column, []) := by
  have hbare : Cursor.IsBare (c ++ []) := by rwa [List.append_nil]
  have hread := h.runFrom_append hbare endsAt_nil
  rwa [List.append_nil] at hread

/-- A text describes a column exactly if its significant tokens spell the column. -/
theorem ofText_eq_ok_iff_isSpelledBy {text : String} {column : Column} :
    Column.ofText text = .ok column ↔ column.IsSpelledBy (significantTokens text) := by
  rw [Column.ofText_eq_ok_iff_rule]
  have hbare := isBare_significantTokens text
  constructor
  · intro h
    obtain ⟨ts, hts, hspelled⟩ := exists_isSpelledBy hbare h
    rwa [hts, List.append_nil]
  · intro h
    exact h.runFrom hbare

end Column

end CreateTable
