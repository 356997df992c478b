import CreateTable.Proofs.Column.Grammar
import CreateTable.Proofs.Grammar.Stop
import CreateTable.Proofs.Token.Lexer

/-!
# Columns that are cut off

What is left of a column when its last tokens are missing is a column again, if it has a name and a
type, with or without the beginning of one more part behind it. Parts of several tokens are the
parameters of the type, the modifiers of two words and the negative numbers. The beginning of such
a part is not taken, so that the column ends in front of it.

The end of a column definition is the end of the tokens that could be read. So nothing is left over
of these tokens, but a text that breaks off behind them is a column, too: what is read is the part
of the text that its tokens cover, and the broken token is not missed.

## Main definitions

* `Column.BeginsPart`: the beginnings of the parts of several tokens.
* `Column.IsTorn`: a column with the beginning of a part behind it.

## Main statements

* `Column.BeginsPart.endsAt`: no column goes on with the beginning of a part.
* `Column.IsTorn.exists_runFrom`: the column ends in front of the beginning.
* `Column.IsSpelledBy.stop_or_isTorn`: a column that is cut off is read to the end of its tokens or
  ends with the beginning of a part.
* `Column.ofText_front`: a text describes the column that the part covered by its tokens describes.
-/

namespace CreateTable

/-! ### Values -/

namespace Value

variable {c q x : Cursor}

/-- The first of some of the words are some of the words. -/
theorem SomeOf.of_append {ws : List String} (h : SomeOf (q ++ x) ws) : SomeOf q ws := by
  obtain ⟨vs, hall, hsub⟩ := List.sublistForall₂_iff.1 h
  have htake := List.forall₂_take q.length hall
  rw [List.take_left] at htake
  exact List.sublistForall₂_iff.2 ⟨vs.take q.length, htake, (List.take_sublist _ vs).trans hsub⟩

/-- A value begins with a word, a string or a number, or with the sign in front of a number. -/
theorem run_matcher_cons_eq_none {t : Token} (hc : Cursor.IsBare (t :: c))
    (hword : ∀ w, t.kind.isWord w = false) (hquoted : ∀ body, t.kind ≠ .quoted .single body)
    (hnumber : ∀ text long, t.kind ≠ .number text long) (hminus : t.kind = .minus → c = []) :
    matcher.run (t :: c) = none := by
  refine Option.eq_none_iff_forall_ne_some.2 fun ⟨v, rest⟩ hrun => ?_
  obtain ⟨ts, hts, hv⟩ := exists_isSpelledBy hc hrun
  cases hv with
  | null ht =>
      obtain rfl := (List.cons.inj hts).1
      simp [hword] at ht
  | literal ht =>
      obtain rfl := (List.cons.inj hts).1
      exact hquoted _ ht
  | numeric ht =>
      obtain rfl := (List.cons.inj hts).1
      exact hnumber _ _ ht
  | negative hm _ =>
      obtain ⟨rfl, hbehind⟩ := List.cons.inj hts
      rw [hminus hm] at hbehind
      cases hbehind
  | @expression ts hne hts' =>
      obtain ⟨u, us, rfl⟩ := List.exists_cons_of_ne_nil hne
      obtain rfl := (List.cons.inj hts).1
      obtain ⟨w, -, hw⟩ := hts'.leadsWith t rfl
      simp [hword] at hw

/-- What is left of a value that is cut off is nothing, a value or a minus sign. -/
theorem IsSpelledBy.cut {v : Value} (h : v.IsSpelledBy (q ++ x)) :
    q = [] ∨ (∃ v' : Value, v'.IsSpelledBy q) ∨ ∃ m : Token, q = [m] ∧ m.kind = .minus := by
  generalize hts : q ++ x = ts at h
  cases h with
  | null ht =>
      rcases List.append_eq_singleton_iff.1 hts with ⟨rfl, -⟩ | ⟨rfl, -⟩
      · exact .inl rfl
      · exact .inr (.inl ⟨_, .null ht⟩)
  | literal ht =>
      rcases List.append_eq_singleton_iff.1 hts with ⟨rfl, -⟩ | ⟨rfl, -⟩
      · exact .inl rfl
      · exact .inr (.inl ⟨_, .literal ht⟩)
  | numeric ht =>
      rcases List.append_eq_singleton_iff.1 hts with ⟨rfl, -⟩ | ⟨rfl, -⟩
      · exact .inl rfl
      · exact .inr (.inl ⟨_, .numeric ht⟩)
  | negative hm ht =>
      rcases List.append_eq_cons_iff.1 hts with ⟨rfl, -⟩ | ⟨q, rfl, hbehind⟩
      · exact .inl rfl
      rcases List.append_eq_singleton_iff.1 hbehind.symm with ⟨rfl, -⟩ | ⟨rfl, -⟩
      · exact .inr (.inr ⟨_, rfl, hm⟩)
      · exact .inr (.inl ⟨_, .negative hm ht⟩)
  | expression _ hwords =>
      subst hts
      by_cases hq : q = []
      · exact .inl hq
      · exact .inr (.inl ⟨_, .expression hq hwords.of_append⟩)

end Value

/-! ### Parts that are cut off -/

/-- No parameters begin with other ones: behind the first one stands a comma or a parenthesis. -/
theorem DataType.HasParameters.eq_nil_of_append {length length' : String}
    {scale scale' : Option String} {ts x : Cursor} (h : HasParameters (some length) scale ts)
    (h' : HasParameters (some length') scale' (ts ++ x)) : x = [] := by
  cases h with
  | one _ _ hr =>
      generalize hts : [_, _, _] ++ x = us at h'
      cases h' with
      | one =>
          simp only [List.cons_append, List.nil_append, List.cons.injEq] at hts
          exact hts.2.2.2
      | two _ _ hm _ _ =>
          simp only [List.cons_append, List.nil_append, List.cons.injEq] at hts
          obtain ⟨-, -, rfl, -⟩ := hts
          simp [hr] at hm
  | two _ _ hm _ _ =>
      generalize hts : [_, _, _, _, _] ++ x = us at h'
      cases h' with
      | one _ _ hr => simp at hts
      | two =>
          simp only [List.cons_append, List.nil_append, List.cons.injEq] at hts
          exact hts.2.2.2.2.2

/-- Parameters begin with an opening parenthesis. -/
theorem DataType.HasParameters.kind_of_head? {length scale : Option String} {ts : Cursor}
    (h : HasParameters length scale ts) : ∀ t ∈ ts.head?, t.kind = .leftParen := by
  cases h with
  | absent => exact nofun
  | one hl | two hl =>
      rintro _ ⟨⟩
      exact hl

/-- Parameters that are there have a length. -/
theorem DataType.HasParameters.exists_some {length scale : Option String} {ts : Cursor}
    (h : HasParameters length scale ts) (hne : ts ≠ []) :
    ∃ length scale, HasParameters (some length) scale ts := by
  cases h with
  | absent => exact absurd rfl hne
  | one hl hd hr => exact ⟨_, _, .one hl hd hr⟩
  | two hl hd hm he hr => exact ⟨_, _, .two hl hd hm he hr⟩

/-- Modifiers are a row of the words of modifiers. -/
theorem Attribute.AreSpelledBy.row {as : List Attribute} {ts : Cursor} (h : AreSpelledBy as ts) :
    ts.Row fun us => ∃ a : Attribute, us.Spells a.words := by
  induction h with
  | nil => exact .nil
  | @cons a _ _ _ hts _ ih => exact .cons ⟨a, hts⟩ ih

/-- A row of the words of modifiers spells modifiers. -/
theorem Attribute.exists_areSpelledBy_of_row {ts : Cursor}
    (h : ts.Row fun us => ∃ a : Attribute, us.Spells a.words) : ∃ as, AreSpelledBy as ts := by
  induction h with
  | nil => exact ⟨[], .nil⟩
  | cons hts _ ih =>
      obtain ⟨a, hts⟩ := hts
      obtain ⟨as, has⟩ := ih
      exact ⟨a :: as, .cons hts has⟩

/-- The first of some modifiers, and the beginning of one more. -/
theorem Attribute.AreSpelledBy.exists_begins {as : List Attribute} {q x : Cursor}
    (h : AreSpelledBy as (q ++ x)) :
    ∃ as' d s, q = d ++ s ∧ AreSpelledBy as' d ∧
      (s = [] ∨ s.Begins fun ts => ∃ a : Attribute, ts.Spells a.words) := by
  obtain ⟨d, s, hq, hd, hs⟩ := h.row.exists_begins
  obtain ⟨as', has'⟩ := exists_areSpelledBy_of_row hd
  exact ⟨as', d, s, hq, has', hs⟩

namespace Column

variable {column : Column} {c d q s x : Cursor}

/-- What is left of a clause that is cut off is such a clause, or one with a minus sign behind
it. -/
theorem HasClause.cut {keyword : String} {v : Option Value} (h : HasClause keyword v (q ++ x)) :
    ∃ v' d s, q = d ++ s ∧ HasClause keyword v' d ∧
      (s = [] ∨ ∃ m : Token, s = [m] ∧ m.kind = .minus) := by
  generalize hc : q ++ x = c at h
  cases q with
  | nil => exact ⟨none, [], [], rfl, .absent, .inl rfl⟩
  | cons t q =>
      cases h with
      | absent => cases hc
      | present h =>
          cases h with
          | bare ht =>
              obtain ⟨rfl, hq⟩ := List.cons.inj hc
              obtain ⟨rfl, -⟩ := List.append_eq_nil_iff.1 hq
              exact ⟨none, [t], [], rfl, .present (.bare ht), .inl rfl⟩
          | value ht hv =>
              obtain ⟨rfl, rfl⟩ := List.cons.inj hc
              obtain rfl | ⟨v', hv'⟩ | ⟨m, rfl, hm⟩ := hv.cut
              · exact ⟨none, [t], [], rfl, .present (.bare ht), .inl rfl⟩
              · exact ⟨some v', t :: q, [], by simp, .present (.value ht hv'), .inl rfl⟩
              · exact ⟨none, [t], [m], rfl, .present (.bare ht), .inr ⟨m, rfl, hm⟩⟩

/-- The tokens are the beginning of a **part of several tokens** that a column may have: of the
parameters of its type, of a modifier of two words, or of a negative number. -/
inductive BeginsPart : Cursor → Prop
  | parameters {s : Cursor} :
    s.Begins (fun ts => ∃ length scale, DataType.HasParameters (some length) scale ts) →
      BeginsPart s
  | modifier {s : Cursor} : s.Begins (fun ts => ∃ a : Attribute, ts.Spells a.words) → BeginsPart s
  | number {m : Token} : m.kind = .minus → BeginsPart [m]

/-- The tokens `d` are a column, and `s` behind it is the beginning of a part of several tokens. -/
def IsTorn (d s : Cursor) : Prop :=
  (∃ column : Column, column.IsSpelledBy d) ∧ BeginsPart s

/-- A token that is no word begins neither a modifier nor a clause. -/
theorem endsAt_cons {t : Token} (hc : Cursor.IsBare (t :: c)) (ht : ∀ w, t.kind.isWord w = false)
    (hparameters : (DataType.lengthOnly <|> DataType.lengthAndScale).run (t :: c) = none)
    (hvalue : Value.matcher.run (t :: c) = none) : EndsAt (t :: c) := by
  have hclause (keyword : String) : (Value.clause keyword).run (t :: c) = none := by
    rw [Value.clause, Matcher.run_bind, Matcher.run_word_cons hc, ht]
    rfl
  refine ⟨hparameters, ?_, hclause _, hclause _, hvalue⟩
  refine Option.eq_none_iff_forall_ne_some.2 ?_
  rintro ⟨a, rest⟩ hrun
  obtain ⟨ts, hts, hspells⟩ := (Attribute.run_eq_some_iff hc).1 hrun
  obtain ⟨w, ws, hws, -⟩ := a.exists_words_eq
  rw [hws] at hspells
  obtain ⟨u, us, hu, -, rfl⟩ := List.forall₂_cons_left_iff.1 hspells
  obtain rfl := (List.cons.inj hts).1
  simp [ht] at hu

/-- The first word of a modifier of two words. -/
theorem exists_of_begins_modifier
    (h : s.Begins fun ts => ∃ a : Attribute, ts.Spells a.words) :
    ∃ t : Token, s = [t] ∧ ∃ w ∈ ["not", "primary"], t.kind.isWord w = true := by
  obtain ⟨hs, x, hx, a, hspells⟩ := h
  obtain ⟨t, s, rfl⟩ := List.exists_cons_of_ne_nil hs
  obtain ⟨u, x, rfl⟩ := List.exists_cons_of_ne_nil hx
  have hlength := hspells.length_eq
  rw [List.length_append, List.length_cons, List.length_cons] at hlength
  have hhead (w : String) (ws : List String) (hws : a.words = w :: ws) :
      t.kind.isWord w = true := by
    rw [hws] at hspells
    exact (List.forall₂_cons.1 hspells).1
  have hnil : s = [] := by
    have hle : a.words.length ≤ 2 := by cases a <;> decide
    exact List.eq_nil_of_length_eq_zero (by omega)
  refine ⟨t, by rw [hnil], ?_⟩
  cases a with
  | notNull => exact ⟨"not", by simp, hhead _ _ rfl⟩
  | primaryKey => exact ⟨"primary", by simp, hhead _ _ rfl⟩
  | _ =>
      simp only [Attribute.words, List.length_cons, List.length_nil] at hlength
      omega

/-- No column goes on with the beginning of a part of several tokens. -/
theorem BeginsPart.endsAt (h : BeginsPart s) (hs : s.IsBare) : EndsAt s := by
  cases h with
  | parameters h =>
      have hparameters : (DataType.lengthOnly <|> DataType.lengthAndScale).run s = none := by
        refine Matcher.run_eq_none_of_begins (fun ⟨length, scale⟩ rest hrun => ?_) ?_ h
        · obtain ⟨ps, rfl, hps⟩ := DataType.exists_hasParameters hs hrun
          exact ⟨ps, rfl, length, scale, hps⟩
        · rintro ts x ⟨length, scale, hts⟩ ⟨length', scale', htsx⟩
          exact hts.eq_nil_of_append htsx
      obtain ⟨hne, x, -, length, scale, hps⟩ := h
      obtain ⟨l, s, rfl⟩ := List.exists_cons_of_ne_nil hne
      have hl : l.kind = .leftParen := hps.kind_of_head? l rfl
      refine endsAt_cons hs (fun w => ?_) hparameters
        (Value.run_matcher_cons_eq_none hs (fun w => ?_) ?_ ?_ ?_) <;> simp [hl, Kind.isWord]
  | modifier h =>
      obtain ⟨t, rfl, w, hw, ht⟩ := exists_of_begins_modifier h
      have hlead : Cursor.LeadsWith ["not", "primary"] [t] := .cons ht hw
      refine ⟨DataType.run_parameters_of_leadsWith hs hlead, ?_,
        Value.run_clause_eq_none hs hlead (by decide),
        Value.run_clause_eq_none hs hlead (by decide),
        Value.run_matcher_of_leadsWith_other hs hlead (by decide)⟩
      refine Matcher.run_eq_none_of_begins (fun a rest hrun => ?_) ?_ h
      · obtain ⟨ts, hts, hspells⟩ := (Attribute.run_eq_some_iff hs).1 hrun
        exact ⟨ts, hts, a, hspells⟩
      · rintro ts x ⟨a, hts⟩ ⟨b, htsx⟩
        obtain rfl := Attribute.eq_of_spells hts htsx (x := x) (y := []) (by rw [List.append_nil])
        have hlength := htsx.length_eq.symm.trans hts.length_eq
        simpa using hlength
  | @number m hm =>
      have hparameters : (DataType.lengthOnly <|> DataType.lengthAndScale).run [m] = none := by
        simp [DataType.lengthOnly, DataType.lengthAndScale, Matcher.run_mark_cons hs, hm]
      refine endsAt_cons hs (fun w => ?_) hparameters
        (Value.run_matcher_cons_eq_none hs (fun w => ?_) ?_ ?_ ?_) <;> simp [hm, Kind.isWord]

/-- A column ends in front of the beginning of a part of several tokens. -/
theorem IsTorn.exists_runFrom (h : IsTorn d s) (hc : Cursor.IsBare (d ++ s)) :
    ∃ column, Column.rule.runFrom (d ++ s) = (.ok column, s) := by
  obtain ⟨⟨column, hd⟩, hs⟩ := h
  exact ⟨column, hd.runFrom_append hc (hs.endsAt (Cursor.isBare_append.1 hc).2)⟩

/-- A column begins with its name and the keyword of its type. -/
theorem IsSpelledBy.exists_cons_cons (h : column.IsSpelledBy c) :
    ∃ n u us, c = n :: u :: us ∧ n.kind.name? = some column.name ∧
      u.kind.isWord column.type.name.keyword = true := by
  obtain ⟨hn, hu, -, -, -, -, -⟩ := h
  exact ⟨_, _, _, rfl, hn, hu⟩

/-- What is left of a column with its name and its type is a column, or one with the beginning of a
part behind it. -/
theorem IsSpelledBy.exists_of_cons_cons {n u : Token} (h : column.IsSpelledBy (n :: u :: q ++ x)) :
    ∃ column' d s, n :: u :: q = d ++ s ∧ IsSpelledBy column' d ∧ (s = [] ∨ BeginsPart s) := by
  generalize hc : n :: u :: q ++ x = c at h
  obtain ⟨hn, hu, hparameters, hattributes, hdefault, hcomment, -⟩ := h
  rename_i name type parameters attributes default comment text
  simp only [List.cons_append, List.cons.injEq] at hc
  obtain ⟨rfl, rfl, hc⟩ := hc
  have hnone {keyword : String} : HasClause keyword none [] := .absent
  -- the cut is in the parameters, in the modifiers, in the default value or in the comment
  rcases Cursor.exists_of_append_eq_append hc.symm with ⟨y, hy, rfl⟩ | ⟨q₁, rfl, hc₁⟩
  · refine ⟨⟨column.name, ⟨column.type.name, none, none⟩, [], none, ""⟩,
      n :: u :: ([] ++ ([] ++ ([] ++ []))), q, rfl, .mk hn hu .absent .nil hnone hnone rfl, ?_⟩
    by_cases hq : q = []
    · exact .inl hq
    · exact .inr (.parameters ⟨hq, y, hy, hparameters.exists_some (by simp [hq])⟩)
  rcases Cursor.exists_of_append_eq_append hc₁ with ⟨y, hy, rfl⟩ | ⟨q₂, rfl, hc₂⟩
  · obtain ⟨as, d, s, rfl, hd, hs⟩ := hattributes.exists_begins
    exact ⟨⟨column.name, column.type, as, none, ""⟩,
      n :: u :: (parameters ++ (d ++ ([] ++ []))), s, by simp,
      .mk hn hu hparameters hd hnone hnone rfl, hs.imp_right .modifier⟩
  rcases Cursor.exists_of_append_eq_append hc₂ with ⟨y, hy, rfl⟩ | ⟨q₃, rfl, rfl⟩
  · obtain ⟨v, d, s, rfl, hd, hs⟩ := hdefault.cut
    refine ⟨⟨column.name, column.type, column.attributes, v, ""⟩,
      n :: u :: (parameters ++ (attributes ++ (d ++ []))), s, by simp,
      .mk hn hu hparameters hattributes hd hnone rfl, ?_⟩
    exact hs.imp_right fun ⟨m, hs, hm⟩ => hs ▸ .number hm
  · obtain ⟨v, d, s, rfl, hd, hs⟩ := hcomment.cut
    refine ⟨⟨column.name, column.type, column.attributes, column.defaultValue,
      (v.map Value.text).getD ""⟩, n :: u :: (parameters ++ (attributes ++ (default ++ d))), s,
      by simp, .mk hn hu hparameters hattributes hdefault hd rfl, ?_⟩
    exact hs.imp_right fun ⟨m, hs, hm⟩ => hs ▸ .number hm

/-- A column that is cut off is read to the end of its tokens, or it ends with the beginning of a
part. -/
theorem IsSpelledBy.stop_or_isTorn (h : column.IsSpelledBy (q ++ x)) (hq : q.IsBare) :
    Column.rule.stop q = [] ∨ ∃ d s, q = d ++ s ∧ IsTorn d s := by
  match q with
  | [] => exact .inl Column.rule_takes.stop_nil
  | [n] =>
      -- the type is required where the tokens end
      obtain ⟨_, _, _, hcons, hn, -⟩ := h.exists_cons_cons
      obtain rfl := (List.cons.inj hcons).1
      have hname : (Rule.require Matcher.identifier .columnName).runFrom [n]
          = (.ok column.name, []) :=
        Rule.runFrom_require_eq_ok_iff.2
          ((Matcher.run_identifier_eq_some_iff hq).2 ⟨n, rfl, hn⟩)
      have htype : DataType.rule.runFrom [] = (.error .columnType, []) := rfl
      have hrule : Column.rule.runFrom [n] = (.error .columnType, []) := by
        rw [Column.rule, Rule.runFrom_bind_of_ok hname, Rule.runFrom_bind_of_error htype]
      exact .inl (Rule.stop_of_runFrom hrule)
  | n :: u :: q =>
      obtain ⟨column', d, s, hd, hcolumn, rfl | hs⟩ := h.exists_of_cons_cons
      · rw [List.append_nil] at hd
        rw [hd] at hq ⊢
        exact .inl (Rule.stop_of_runFrom (hcolumn.runFrom hq))
      · exact .inr ⟨d, s, hd, ⟨column', hcolumn⟩, hs⟩

end Column

/-! ### Columns in texts that break off -/

/-- The tokens of a text cover a part of it, which is cut into them to its end; behind it there is
either nothing or a token that breaks off. -/
theorem exists_front (text : String) :
    ∃ front behind : String, text = front ++ behind ∧ lex front = ⟨(lex text).tokens, none⟩ ∧
      (lex behind).tokens = [] ∧ (behind = "" ↔ (lex text).breakdown = none) := by
  obtain ⟨front, behind, htext, hfront, hbehind, hend⟩ := exists_front_of_lexFrom .start text.toList
  refine ⟨String.ofList front, String.ofList behind, ?_, ?_, ?_, ?_⟩
  · rw [← String.ofList_append, ← htext, String.ofList_toList]
  · rw [lex, String.toList_ofList, hfront, lex]
  · rw [lex, String.toList_ofList]
    exact hbehind .start
  · rw [lex, ← hend]
    simp

/-- **A column definition is read to the end of its tokens**, and no further. A text describes the
column that the part of it that its tokens cover describes, which is the whole text unless it breaks
off; and all of its significant tokens are read. -/
theorem Column.ofText_front (text : String) :
    ∃ front behind : String, text = front ++ behind ∧ lex front = ⟨(lex text).tokens, none⟩ ∧
      (lex behind).tokens = [] ∧ (behind = "" ↔ (lex text).breakdown = none) ∧
      ∀ column, (Column.ofText text = .ok column ↔ Column.ofText front = .ok column) ∧
        (Column.ofText text = .ok column →
          Column.rule.runFrom (significantTokens text) = (.ok column, [])) := by
  obtain ⟨front, behind, htext, hfront, hbehind, hend⟩ := exists_front text
  refine ⟨front, behind, htext, hfront, hbehind, hend, fun column => ⟨?_, ?_⟩⟩
  · have htokens : significantTokens front = significantTokens text := by
      rw [significantTokens, hfront, significantTokens]
    rw [Column.ofText_eq_ok_iff_rule, Column.ofText_eq_ok_iff_rule, htokens]
  · exact Column.ofText_eq_ok_iff_rule.1

/-- A column definition with an open quote behind it is accepted although its text breaks off. -/
theorem Column.ofText_open_quote :
    Column.ofText "a int '" = .ok ⟨"a", ⟨.int, none, none⟩, [], none, ""⟩ ∧
      (lex "a int '").breakdown ≠ none := by
  decide +kernel

end CreateTable
