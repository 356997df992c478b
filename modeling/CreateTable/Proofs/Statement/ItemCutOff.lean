import CreateTable.Proofs.Column.CutOff
import CreateTable.Proofs.Column.Parameters
import CreateTable.Proofs.Key.CutOff
import CreateTable.Proofs.Key.Layout
import CreateTable.Proofs.Statement.Layout

/-!
# Items that are cut off

What is left of an item when its last tokens are missing need not be given to the rule that reads
the whole item. A column that is named by a word that opens a key clause is taken for a key clause
when its type is missing, and again when the parenthesis behind the type is the last token. A key
clause is taken for a column when its name is that of a type and its columns are missing, and then
it is read to its end.

## Main definitions

* `Item.IsTorn`: items that are cut off and not read to their end.
* `Item.CutsLookahead`: what is left of an item when the tokens that tell its rule are missing.
* `Item.GoesOn`: tokens in front of which no item ends.

## Main statements

* `Key.opensAt_cons`: what tells a key clause from a column, token by token.
* `Item.opensAt_eq_or_cutsLookahead`: which cuts change the rule that is taken.
* `Item.IsTorn.stop`: where the reading of such an item stops.
* `Item.IsReadFrom.stop_or_isTorn`: an item that is cut off.
* `Item.IsTorn.goesOn`: what is torn off ends no item.
-/

namespace CreateTable

open Text

/-! ### The rule that is taken -/

/-- A key clause begins with an opening word, and no type stands behind that, unless the type is
followed by a parenthesis and anything but a number. -/
theorem Key.opensAt_cons {w : Token} {ts : Cursor} (h : Cursor.IsBare (w :: ts)) :
    Key.opensAt (w :: ts) = (openingWords.any (fun v => w.kind.isWord v) &&
      (!ts[0]?.any (·.kind.isTypeName) ||
        (ts[1]?.any (·.kind == .leftParen) && !ts[2]?.any (·.kind.isNumber)))) := by
  have hword : Cursor.atWord (w :: ts) 0 = fun v => w.kind.isWord v := by
    funext v
    rw [h.atWord_eq]
    rfl
  rw [opensAt_eq_and, hword, Cursor.atKind, h.peek_eq, h.peek_eq, h.peek_eq]
  rfl

/-- Behind an opening word the next three tokens tell a key clause from a column. -/
theorem Key.opensAt_of_openingWord {w : Token} {v : String} {ts : Cursor} (hv : v ∈ openingWords)
    (hw : w.kind.isWord v = true) (h : Cursor.IsBare (w :: ts)) :
    Key.opensAt (w :: ts) = (!ts[0]?.any (·.kind.isTypeName) ||
      (ts[1]?.any (·.kind == .leftParen) && !ts[2]?.any (·.kind.isNumber))) := by
  rw [opensAt_cons h, List.any_eq_true.2 ⟨v, hv, hw⟩, Bool.true_and]

namespace Item

variable {c d q s x : Cursor}

/-- An item that opens a key clause stops where the clause stops. -/
theorem stop_of_opensAt (h : Key.opensAt c = true) : Item.rule.stop c = Key.rule.stop c := by
  have hlook : (Rule.look Key.opensAt).runFrom c = (.ok true, c) := by rw [Rule.runFrom_look, h]
  rw [Item.rule, Rule.stop_bind_of_ok hlook, if_pos rfl, Rule.stop_map]

/-- An item that opens no key clause stops where a column stops. -/
theorem stop_of_not_opensAt (h : Key.opensAt c = false) :
    Item.rule.stop c = Column.rule.stop c := by
  have hlook : (Rule.look Key.opensAt).runFrom c = (.ok false, c) := by rw [Rule.runFrom_look, h]
  rw [Item.rule, Rule.stop_bind_of_ok hlook, if_neg Bool.false_ne_true, Rule.stop_map]

/-- An item that is cut off and of which the tokens `s` are not read: it is a column or a key clause
that is cut off inside of a part, or a column that is named by an opening word and cut off behind
the parenthesis that follows its type. Such a column is taken for a key clause, and `PRIMARY` and
`FOREIGN` are not read without `KEY`, nor is a parenthesis where the kind of a constraint is
missing. -/
inductive IsTorn : Cursor → Cursor → Prop
  | column {d s : Cursor} : Key.opensAt (d ++ s) = false → Column.IsTorn d s → IsTorn d s
  | key {d s : Cursor} : Key.opensAt (d ++ s) = true → Key.IsTorn d s → IsTorn d s
  | namedKind {w t l : Token} {v : String} : v ∈ ["primary", "foreign"] →
    w.kind.isWord v = true → t.kind.isTypeName = true → l.kind = .leftParen →
      IsTorn [] [w, t, l]
  | namedConstraint {w t l : Token} : w.kind.isWord "constraint" = true →
    t.kind.isTypeName = true → l.kind = .leftParen → IsTorn [w, t] [l]

/-- The name of a type is an unquoted word and the keyword of a type. -/
theorem exists_of_isTypeName {t : Token} (ht : t.kind.isTypeName = true) :
    ∃ name, t.kind.name? = some name ∧ ∃ type : TypeName, t.kind.isWord type.keyword = true := by
  cases hk : t.kind with
  | word v =>
      rw [hk, Kind.isTypeName] at ht
      obtain ⟨type, htype⟩ := Option.isSome_iff_exists.1 ht
      exact ⟨v, rfl, type, TypeName.ofKeyword?_eq_some_iff.1 htype⟩
  | _ =>
      rw [hk] at ht
      cases ht

/-- Words that are no keywords of types are not the name of a type. -/
theorem isWord_eq_false_of_isTypeName {t : Token} {ws : List String}
    (ht : t.kind.isTypeName = true)
    (hws : ∀ w ∈ ws, ∀ type ∈ TypeName.all, sameWord type.keyword w = false) :
    ∀ w ∈ ws, t.kind.isWord w = false := by
  refine fun w hw => Bool.eq_false_iff.2 fun hword => ?_
  rw [Key.isTypeName_of_isWord hword (hws w hw)] at ht
  cases ht

/-- An opening word is `CONSTRAINT`, the first of two words of a kind, or a kind by itself. -/
theorem openingWord_cases {v : String} (hv : v ∈ Key.openingWords) :
    v = "constraint" ∨ (v ∈ ["primary", "foreign"] ∧
        ∃ kind ∈ [KeyKind.primary, .foreign], v ∈ kind.leads ∧ [v, "key"] ∈ kind.spellings) ∨
      ∃ kind ∈ [KeyKind.unique, .index, .fulltext], [v] ∈ kind.spellings := by
  have hall : ∀ v ∈ Key.openingWords, v = "constraint" ∨ (v ∈ ["primary", "foreign"] ∧
        ∃ kind ∈ [KeyKind.primary, .foreign], v ∈ kind.leads ∧ [v, "key"] ∈ kind.spellings) ∨
      ∃ kind ∈ [KeyKind.unique, .index, .fulltext], [v] ∈ kind.spellings := by
    decide
  exact hall v hv

/-! ### Where the reading stops -/

/-- A key clause of which only `PRIMARY` or `FOREIGN` is there is not read at all, whatever but
`KEY` stands behind it. -/
theorem stop_of_first {w : Token} {v : String} (hv : v ∈ ["primary", "foreign"])
    (hw : w.kind.isWord v = true) (hc : Cursor.IsBare (w :: c))
    (hkey : (Matcher.word "key").run c = none) : Key.rule.stop (w :: c) = w :: c := by
  obtain ⟨kind, hkind, hlead⟩ : ∃ kind ∈ [KeyKind.primary, .foreign], v ∈ kind.leads := by
    rcases List.mem_pair.1 hv with rfl | rfl
    · exact ⟨.primary, by decide, by decide⟩
    · exact ⟨.foreign, by decide, by decide⟩
  have habsent : Key.IsConstraint kind none [] := .absent
  have hconstraint := habsent.runFrom hlead hw hc
  have hnone := KeyKind.run_of_first hkind hlead hw hc hkey
  rw [List.nil_append] at hconstraint
  rw [Key.rule_eq, Rule.stop_bind_of_ok hconstraint]
  exact Rule.stop_require_bind hnone

/-- Behind an opening word and the name of a type a parenthesis alone tells a key clause. -/
theorem opensAt_of_leftParen {w t l : Token} {v : String} (hv : v ∈ Key.openingWords)
    (hw : w.kind.isWord v = true) (hl : l.kind = .leftParen) (hc : Cursor.IsBare [w, t, l]) :
    Key.opensAt [w, t, l] = true := by
  rw [Key.opensAt_of_openingWord hv hw hc]
  simp [hl]

/-- An item that is cut off inside of a part, or taken for a key clause, is read up to the tokens
that are torn off. -/
theorem IsTorn.stop (h : IsTorn d s) (hc : Cursor.IsBare (d ++ s)) :
    Item.rule.stop (d ++ s) = s := by
  cases h with
  | column hopens h =>
      obtain ⟨column, hread⟩ := h.exists_runFrom hc
      rw [stop_of_not_opensAt hopens, Rule.stop_of_runFrom hread]
  | key hopens h => rw [stop_of_opensAt hopens, h.stop hc]
  | @namedKind w t l v hv hw ht hl =>
      have hopening : ∀ v ∈ ["primary", "foreign"], v ∈ Key.openingWords := by decide
      have hnot : ∀ w ∈ ["key"], t.kind.isWord w = false :=
        isWord_eq_false_of_isTypeName ht (by decide)
      have hkey : (Matcher.word "key").run [t, l] = none := by
        rw [Matcher.run_word_cons (Cursor.isBare_cons.1 hc).2, hnot "key" List.mem_cons_self]
        rfl
      rw [List.nil_append, stop_of_opensAt (opensAt_of_leftParen (hopening v hv) hw hl hc),
        stop_of_first hv hw hc hkey]
  | @namedConstraint w t l hw ht hl =>
      obtain ⟨name, hname, -⟩ := exists_of_isTypeName ht
      have hnot : ∀ w ∈ ["primary", "unique", "foreign"], t.kind.isWord w = false :=
        isWord_eq_false_of_isTypeName ht (by decide)
      have hconstraint : Key.constraintName.runFrom [w, t, l] = (.ok (some name), [l]) :=
        Key.runFrom_constraint_named hw ⟨hname, hnot⟩ hc
      have hkind : KeyKind.matcher.run [l] = none := by
        refine Option.eq_none_iff_forall_ne_some.2 fun ⟨kind, rest⟩ hrun => ?_
        have hl' : Cursor.IsBare [l] := (Cursor.isBare_cons.1 (Cursor.isBare_cons.1 hc).2).2
        obtain ⟨ws, hws, ts, hts, hspells, -⟩ := KeyKind.exists_spells hl' hrun
        obtain ⟨u, us, rfl, v, -, hu⟩ := KeyKind.exists_cons_of_spells hws hspells
        obtain rfl := (List.cons.inj hts).1
        simp [hl, Kind.isWord] at hu
      have hopens : Key.opensAt [w, t, l] = true := opensAt_of_leftParen (by decide) hw hl hc
      rw [List.cons_append, List.cons_append, List.nil_append, stop_of_opensAt hopens, Key.rule_eq,
        Rule.stop_bind_of_ok hconstraint]
      exact Rule.stop_require_bind hkind

/-! ### Where an item can be cut -/

/-- An opening word alone is read, unless it is the first of two words of a kind. -/
theorem stop_or_isTorn_singleton {w : Token} {v : String} (hv : v ∈ Key.openingWords)
    (hw : w.kind.isWord v = true) (hc : Cursor.IsBare [w]) :
    Item.rule.stop [w] = [] ∨ IsTorn [] [w] := by
  have hopens : Key.opensAt [w] = true := Key.opensAt_of_openingWord hv hw hc
  rw [stop_of_opensAt hopens]
  obtain rfl | ⟨-, kind, hkind, -, hspelling⟩ | ⟨kind, -, hspelling⟩ := openingWord_cases hv
  · have hconstraint : Key.IsConstraint .primary none ([w] ++ []) := .unnamed (by decide) hw
    exact .inl (Key.stop_of_constraintName (hconstraint.stop_of_append hc))
  · have hconstraint : Key.IsConstraint kind none [] := .absent
    have hspells : Cursor.Spells [v, "key"] ([w] ++ [⟨.word "key", w.start⟩]) :=
      .cons hw (.cons rfl .nil)
    have hbegins : Cursor.Begins (fun ts => ∃ ws ∈ kind.spellings, ts.Spells ws) [w] :=
      ⟨List.cons_ne_nil w [], _, List.cons_ne_nil _ _, _, hspelling, hspells⟩
    exact .inr (.key hopens (.kind hconstraint hkind hbegins))
  · have hread := Key.runFrom_kind (c := []) .absent hspelling (.cons hw .nil) hc nofun
    left
    rw [Rule.stop]
    rw [show [w] = [] ++ ([w] ++ []) from rfl, hread]
    exact Key.stop_behindKind Key.stop_indexName_nil

/-- An opening word and the name of a type, with a parenthesis alone behind them, are read, unless
the word has to be followed by `KEY` or is `CONSTRAINT`. -/
theorem stop_or_isTorn_leftParen {w t l : Token} {v : String} (hv : v ∈ Key.openingWords)
    (hw : w.kind.isWord v = true) (ht : t.kind.isTypeName = true) (hl : l.kind = .leftParen)
    (hc : Cursor.IsBare [w, t, l]) :
    Item.rule.stop [w, t, l] = [] ∨ ∃ d s, [w, t, l] = d ++ s ∧ IsTorn d s := by
  rw [stop_of_opensAt (opensAt_of_leftParen hv hw hl hc)]
  obtain rfl | ⟨hv, -⟩ | ⟨kind, hkind, hspelling⟩ := openingWord_cases hv
  · exact .inr ⟨[w, t], [l], rfl, .namedConstraint hw ht hl⟩
  · exact .inr ⟨[], [w, t, l], rfl, .namedKind hv hw ht hl⟩
  · obtain ⟨name, hname, -⟩ := exists_of_isTypeName ht
    have hprimary : kind ≠ .primary := by
      rintro rfl
      exact absurd hkind (by decide)
    have hcontinues :
        ∀ u ∈ "using" :: KeyKind.continuations [v], u ∈ ["using", "key", "index"] := by
      rw [KeyKind.continuations]
      split <;> decide
    have hnot : ∀ u ∈ ["using", "key", "index"], t.kind.isWord u = false :=
      isWord_eq_false_of_isTypeName ht (by decide)
    have hindex : Key.IsIndexName kind [v] (some name) [t] :=
      .named hprimary ⟨hname, fun u hu => hnot u (hcontinues u hu)⟩
    have hparts : Key.IsFront kind none (some name) [l] ([] ++ ([w] ++ ([t] ++ []))) :=
      .mk .absent hspelling (.cons hw .nil) hindex .nil fun _ hnone =>
        absurd hnone (Option.some_ne_none name)
    have hfront : Key.IsFront kind none (some name) [l] [w, t] := hparts
    have hl' : Cursor.IsBare [l] := (Cursor.isBare_cons.1 (Cursor.isBare_cons.1 hc).2).2
    have hcolumns : Key.columnListRule.stop [l] = [] :=
      Key.stop_columnListRule (d := []) (s := []) hl .nil hl' rfl
    have hread := hfront.runFrom hc (Key.run_option_of_leftParen hl' hl)
    left
    rw [Rule.stop, show [w, t, l] = [w, t] ++ [l] from rfl, hread]
    exact Rule.stop_bind hcolumns fun _ => Rule.stop_bind Key.stop_targetRule_nil fun _ =>
      Rule.stop_bind Key.stop_options_nil fun _ => rfl

/-- An opening word and the name of a type are a column. -/
theorem stop_of_isTypeName {w t : Token} {v : String} (hv : v ∈ Key.openingWords)
    (hw : w.kind.isWord v = true) (ht : t.kind.isTypeName = true) (hc : Cursor.IsBare [w, t]) :
    Item.rule.stop [w, t] = [] := by
  have hopens : Key.opensAt [w, t] = false := by
    rw [Key.opensAt_of_openingWord hv hw hc]
    simp [ht]
  obtain ⟨name, hname⟩ := Kind.exists_of_isWord hw
  obtain ⟨-, -, type, htype⟩ := exists_of_isTypeName ht
  have hnone {keyword : String} : Column.HasClause keyword none [] := .absent
  have hcolumn : Column.IsSpelledBy ⟨name, ⟨type, none, none⟩, [], none, ""⟩
      (w :: t :: ([] ++ ([] ++ ([] ++ [])))) :=
    .mk (by rw [hname]; rfl) htype .absent .nil hnone hnone rfl
  rw [stop_of_not_opensAt hopens]
  exact Rule.stop_of_runFrom (hcolumn.runFrom hc)

/-- The tokens that may be given to another rule than an item that begins with them: an opening word
is taken for a key clause, with the name of a type it is taken for a column, and with a parenthesis
behind that for a key clause again. -/
inductive CutsLookahead : Cursor → Prop
  | nil : CutsLookahead []
  | word {w : Token} {v : String} : v ∈ Key.openingWords → w.kind.isWord v = true →
    CutsLookahead [w]
  | type {w t : Token} {v : String} : v ∈ Key.openingWords → w.kind.isWord v = true →
    t.kind.isTypeName = true → CutsLookahead [w, t]
  | leftParen {w t l : Token} {v : String} : v ∈ Key.openingWords → w.kind.isWord v = true →
    t.kind.isTypeName = true → l.kind = .leftParen → CutsLookahead [w, t, l]

/-- What is left of an item is given to the rule of the whole item, unless the lookahead is cut. -/
theorem opensAt_eq_or_cutsLookahead (hc : Cursor.IsBare (q ++ x)) :
    Key.opensAt q = Key.opensAt (q ++ x) ∨ CutsLookahead q := by
  have hq := (Cursor.isBare_append.1 hc).1
  cases q with
  | nil => exact .inr .nil
  | cons w q =>
      rw [List.cons_append] at hc ⊢
      by_cases hopening : ∃ v ∈ Key.openingWords, w.kind.isWord v = true
      · obtain ⟨v, hv, hw⟩ := hopening
        rw [Key.opensAt_of_openingWord hv hw hq, Key.opensAt_of_openingWord hv hw hc]
        rcases q with _ | ⟨t, _ | ⟨l, _ | ⟨m, q⟩⟩⟩
        · exact .inr (.word hv hw)
        · by_cases ht : t.kind.isTypeName = true
          · exact .inr (.type hv hw ht)
          · exact .inl (by simp [ht])
        · by_cases ht : t.kind.isTypeName = true
          · by_cases hl : l.kind = .leftParen
            · exact .inr (.leftParen hv hw ht hl)
            · exact .inl (by simp [beq_false_of_ne hl])
          · exact .inl (by simp [ht])
        · exact .inl (by simp)
      · have hnone : Key.openingWords.any (fun v => w.kind.isWord v) = false :=
          Bool.eq_false_iff.2 fun h => hopening (List.any_eq_true.1 h)
        rw [Key.opensAt_cons hq, Key.opensAt_cons hc, hnone]
        exact .inl rfl

/-- Where the lookahead is cut, an item is read to the end of its tokens or taken for a key
clause. -/
theorem CutsLookahead.stop_or_isTorn (h : CutsLookahead q) (hq : q.IsBare) :
    Item.rule.stop q = [] ∨ ∃ d s, q = d ++ s ∧ IsTorn d s := by
  cases h with
  | nil => exact .inl Item.rule_takes.stop_nil
  | @word w v hv hw =>
      exact (stop_or_isTorn_singleton hv hw hq).imp_right fun h => ⟨[], [w], rfl, h⟩
  | type hv hw ht => exact .inl (stop_of_isTypeName hv hw ht hq)
  | leftParen hv hw ht hl => exact stop_or_isTorn_leftParen hv hw ht hl hq

/-- An item that is cut off is read to the end of its tokens, or it is cut off inside of a part or
taken for a key clause. -/
theorem IsReadFrom.stop_or_isTorn {i : Item} (h : i.IsReadFrom (q ++ x))
    (hc : Cursor.IsBare (q ++ x)) :
    Item.rule.stop q = [] ∨ ∃ d s, q = d ++ s ∧ IsTorn d s := by
  have hq := (Cursor.isBare_append.1 hc).1
  rcases opensAt_eq_or_cutsLookahead hc with hsame | hcut
  · cases h with
    | key hopens hread =>
        obtain ⟨ts, hts, hkey⟩ := Key.exists_isSpelledBy hc hread
        rw [List.append_nil] at hts
        subst hts
        rw [hopens] at hsame
        rw [stop_of_opensAt hsame]
        refine (hkey.stop_or_isTorn hq).imp_right fun ⟨d, s, hds, htorn⟩ => ?_
        exact ⟨d, s, hds, .key (hds ▸ hsame) htorn⟩
    | column hopens hread =>
        obtain ⟨ts, hts, hcolumn⟩ := Column.exists_isSpelledBy hc hread
        rw [List.append_nil] at hts
        subst hts
        rw [hopens] at hsame
        rw [stop_of_not_opensAt hsame]
        refine (hcolumn.stop_or_isTorn hq).imp_right fun ⟨d, s, hds, htorn⟩ => ?_
        exact ⟨d, s, hds, .column (hds ▸ hsame) htorn⟩
  · exact hcut.stop_or_isTorn hq

/-! ### What is torn off ends no item -/

/-- A token comes next, and it is neither a comma nor a closing parenthesis. -/
def GoesOn (s : Cursor) : Prop :=
  ∃ t us, s = t :: us ∧ t.kind ≠ .comma ∧ t.kind ≠ .rightParen

/-- A keyword does not end an item. -/
theorem goesOn_of_isWord {t : Token} {w : String} (ht : t.kind.isWord w = true) :
    GoesOn (t :: c) := by
  refine ⟨t, c, rfl, ?_, ?_⟩ <;> intro hk <;> simp [hk, Kind.isWord] at ht

/-- An opening parenthesis does not end an item. -/
theorem goesOn_of_leftParen {l : Token} (hl : l.kind = .leftParen) : GoesOn (l :: c) :=
  ⟨l, c, rfl, by simp [hl], by simp [hl]⟩

/-- The beginning of a row of keywords does not end an item. -/
theorem goesOn_of_spells {ws : List String} (hs : s ≠ []) (h : Cursor.Spells ws (s ++ x)) :
    GoesOn s := by
  obtain ⟨t, s, rfl⟩ := List.exists_cons_of_ne_nil hs
  obtain ⟨w, -, ht, -⟩ := List.forall₂_cons_right_iff.1 h
  exact goesOn_of_isWord ht

/-- The beginning of a prefix length does not end an item. -/
theorem goesOn_of_begins_prefixLength (h : s.Begins Key.IsPrefixLength) (hs : s.IsBare) :
    GoesOn s := by
  obtain ⟨⟨l, us, rfl, hl⟩, -⟩ := Key.exists_of_begins_prefixLength h hs
  exact goesOn_of_leftParen hl

/-- The beginning of an option does not end an item. -/
theorem goesOn_of_begins_option (h : s.Begins Key.IsOption) (hs : s.IsBare) : GoesOn s := by
  obtain ⟨⟨w, rfl, v, -, hw⟩, -⟩ := Key.exists_of_begins_option h hs
  exact goesOn_of_isWord hw

/-- The beginning of a part of a column does not end an item. -/
theorem goesOn_of_beginsPart (h : Column.BeginsPart s) : GoesOn s := by
  cases h with
  | parameters h =>
      obtain ⟨hne, x, -, length, scale, hps⟩ := h
      obtain ⟨l, s, rfl⟩ := List.exists_cons_of_ne_nil hne
      exact goesOn_of_leftParen (hps.kind_of_head? l rfl)
  | modifier h =>
      obtain ⟨hne, x, -, a, hspells⟩ := h
      exact goesOn_of_spells hne hspells
  | @number m hm => exact ⟨m, [], rfl, by simp [hm], by simp [hm]⟩

/-- What is left of a key clause that is cut off inside of a part does not end an item. -/
theorem goesOn_of_keyIsTorn (h : Key.IsTorn d s) (hs : s.IsBare) : GoesOn s := by
  cases h with
  | kind _ _ h =>
      obtain ⟨hne, x, -, ws, -, hspells⟩ := h
      exact goesOn_of_spells hne hspells
  | option _ h | behind _ h => exact goesOn_of_begins_option h hs
  | columns _ h =>
      obtain ⟨-, -, -, h⟩ := h
      exact goesOn_of_begins_prefixLength h hs
  | target _ _ h =>
      cases h with
      | columns _ _ h =>
          obtain ⟨-, -, -, h⟩ := h
          exact goesOn_of_begins_prefixLength h hs
      | action _ _ _ _ _ _ _ h =>
          obtain ⟨hne, x, -, ws, -, hspells⟩ := h
          exact goesOn_of_spells hne hspells

/-- What is torn off an item begins neither with a comma nor with a closing parenthesis. -/
theorem IsTorn.goesOn (h : IsTorn d s) (hs : s.IsBare) : GoesOn s := by
  cases h with
  | column _ h => exact goesOn_of_beginsPart h.2
  | key _ h => exact goesOn_of_keyIsTorn h hs
  | namedKind _ hw _ _ => exact goesOn_of_isWord hw
  | namedConstraint _ _ hl => exact goesOn_of_leftParen hl

end Item

end CreateTable
