import CreateTable.Proofs.Grammar.Stop
import CreateTable.Proofs.Key.Parts

/-!
# Parts of a key clause that are cut off

The columns of a key and the target of a foreign key are required, and where their tokens end too
early the reading stops at the end. Inside of them a prefix length and a referential action are
parts of several tokens, of which the beginning is not taken.

## Main definitions

* `Key.IsTornRow`: columns that are cut off inside of a prefix length.
* `Reference.IsTorn`: a target that is cut off inside of a prefix length or an action.

## Main statements

* `QualifiedName.IsSpelledBy.stop_of_append`: the name of a table that is cut off.
* `Key.IsTornRow.runFrom`, `Key.IsColumnRow.stop_or_isTornRow`: columns that are cut off.
* `Reference.IsTorn.exists_runFrom`, `Reference.IsSpelledBy.stop_or_isTorn`: a target that is cut
  off.
-/

namespace CreateTable

open Text

/-- What is left of the name of a table is read to its end. -/
theorem QualifiedName.IsSpelledBy.stop_of_append {e : Expectation} {q : QualifiedName}
    {d x : Cursor} (h : q.IsSpelledBy (d ++ x)) (hd : d.IsBare) :
    (QualifiedName.rule e).stop d = [] := by
  have hwhole {q : QualifiedName} {d : Cursor} (h : q.IsSpelledBy d) (hd : d.IsBare) :
      (QualifiedName.rule e).stop d = [] := by
    have hbare : Cursor.IsBare (d ++ []) := by rwa [List.append_nil]
    have hread := h.runFrom (e := e) hbare nofun
    rw [List.append_nil] at hread
    exact Rule.stop_of_runFrom hread
  generalize hts : d ++ x = ts at h
  match d with
  | [] => exact (QualifiedName.rule_takes e).stop_nil
  | [t] =>
      cases h with
      | bare ht | qualified ht _ _ =>
          obtain rfl := (List.cons.inj hts).1
          exact hwhole (.bare ht) hd
  | [t, p] =>
      cases h with
      | bare => simp at hts
      | @qualified _ _ u schema name ht hp _ =>
          simp only [List.cons_append, List.cons.injEq] at hts
          obtain ⟨rfl, rfl, -⟩ := hts
          -- behind the period the second name is required
          have hfirst : (Rule.require Matcher.identifier e).runFrom [t, p] = (.ok schema, [p]) :=
            Rule.runFrom_require_eq_ok_iff.2
              ((Matcher.run_identifier_eq_some_iff hd).2 ⟨t, rfl, ht⟩)
          have hperiod : (Rule.allow (Matcher.mark .period)).runFrom [p] = (.ok (some ()), []) :=
            Rule.runFrom_allow_eq_ok_iff.2 (.inr ⟨(), rfl,
              (Matcher.run_mark_eq_some_iff (Cursor.isBare_cons.1 hd).2).2 ⟨p, rfl, hp⟩⟩)
          rw [QualifiedName.rule, Rule.stop_bind_of_ok hfirst, Rule.stop_bind_of_ok hperiod]
          rfl
  | t :: p :: u :: d =>
      cases h with
      | bare => simp at hts
      | qualified ht hp hu =>
          simp only [List.cons_append, List.cons.injEq, List.append_eq_nil_iff] at hts
          obtain ⟨rfl, rfl, rfl, rfl, -⟩ := hts
          exact hwhole (.qualified ht hp hu) hd

/-! ### Columns -/

namespace Key

variable {c d q s x : Cursor} {name : String} {names : List String}

/-- Columns in parentheses that are cut off inside of a prefix length, of which `s` is there:
columns with commas behind them, and a name in front of `s`. -/
inductive IsTornRow : Cursor → Cursor → Prop
  | mk {l t : Token} {d s : Cursor} {name : String} : l.kind = .leftParen →
    d.Row (Cursor.WithComma fun ts => ∃ name, IsColumn name ts) → t.kind.name? = some name →
    s.Begins IsPrefixLength → IsTornRow (l :: (d ++ [t])) s

/-- A prefix length is begun by a parenthesis, and not read when it is only begun. -/
theorem exists_of_begins_prefixLength (h : s.Begins IsPrefixLength) (hs : s.IsBare) :
    (∃ l us, s = l :: us ∧ l.kind = .leftParen) ∧ prefixLength.run s = none := by
  obtain ⟨hne, x, hx, hpart⟩ := h
  generalize hts : s ++ x = ts at hpart
  cases hpart with
  | absent => exact absurd (List.append_eq_nil_iff.1 hts).1 hne
  | present hl hn hr =>
      have hlength := congrArg List.length hts
      have hpos := List.length_pos_iff.2 hx
      rw [List.length_append] at hlength
      simp only [List.length_cons, List.length_nil] at hlength
      constructor
      · obtain ⟨l, us, rfl⟩ := List.exists_cons_of_ne_nil hne
        obtain rfl := (List.cons.inj hts).1
        exact ⟨l, us, rfl, hl⟩
      · refine Option.eq_none_iff_forall_ne_some.2 fun ⟨_, rest⟩ hrun => ?_
        obtain ⟨_, _, _, _, rfl, -⟩ := (run_prefixLength_eq_some_iff hs).1 hrun
        simp only [List.length_cons] at hlength
        omega

/-- A column is read up to the comma behind it. -/
theorem IsColumn.runFrom_comma {t : Token} {y : Cursor} (h : IsColumn name s)
    (ht : t.kind = .comma) (hc : Cursor.IsBare (s ++ t :: y)) :
    columnRule.runFrom (s ++ t :: y) = (.ok name, t :: y) :=
  (Rule.runFrom_eq_ok_iff (A := fun W => W) (fun S => S.obeys_keyColumn) (fun _ _ => id) hc
    (Cursor.isBorder_cons y (.inl ht))).2
      ⟨s, rfl, h.isSegment, h.runFrom (Cursor.isBare_append.1 hc).1⟩

/-- A name in front of the beginning of a prefix length is a column. -/
theorem runFrom_begins_prefixLength {t : Token} (ht : t.kind.name? = some name)
    (hs : s.Begins IsPrefixLength) (hc : Cursor.IsBare (t :: s)) :
    columnRule.runFrom (t :: s) = (.ok name, s) := by
  have hbare := (Cursor.isBare_cons.1 hc).2
  obtain ⟨⟨l, us, rfl, hl⟩, hnone⟩ := exists_of_begins_prefixLength hs hbare
  have hdirection : (Matcher.word "asc" <|> Matcher.word "desc").run (l :: us) = none :=
    Matcher.run_eitherWord_eq_none hbare (by simp [hl, Kind.isWord])
  simp only [columnRule, Rule.runFrom_bind_eq_ok_iff, Rule.runFrom_require_eq_ok_iff,
    Matcher.run_identifier_eq_some_iff hc, Rule.runFrom_allow_eq_ok_iff]
  exact ⟨name, _, ⟨t, rfl, ht⟩, none, _, .inl ⟨rfl, hnone, rfl⟩, none, _,
    .inl ⟨rfl, hdirection, rfl⟩, rfl⟩

/-- Columns that are cut off inside of a prefix length end in front of it. -/
theorem IsTornRow.runFrom (h : IsTornRow d s) (hc : Cursor.IsBare (d ++ s)) :
    columnListRule.runFrom (d ++ s) = (.error .commaOrCloseParen, s) := by
  obtain ⟨hl, hd, ht, hs⟩ := h
  rename_i l t d name
  rw [List.cons_append, List.append_assoc, List.singleton_append] at hc ⊢
  have hbehind := (Cursor.isBare_cons.1 hc).2
  have hlast := (Cursor.isBare_append.1 hbehind).2
  obtain ⟨⟨p, us, rfl, hp⟩, -⟩ :=
    exists_of_begins_prefixLength hs (Cursor.isBare_cons.1 hlast).2
  have hnot {k : Kind} (hk : k ≠ .leftParen) : (Matcher.mark k).run (p :: us) = none := by
    rw [Matcher.run_mark_cons (Cursor.isBare_cons.1 hlast).2, hp, if_neg hk.symm]
  have hopen : (Rule.require (Matcher.mark .leftParen) .openParen).runFrom
      (l :: (d ++ t :: p :: us)) = (.ok (), d ++ t :: p :: us) :=
    Rule.runFrom_require_eq_ok_iff.2 ((Matcher.run_mark_eq_some_iff hc).2 ⟨l, rfl, hl⟩)
  obtain ⟨names, hrow⟩ := Rule.exists_runFrom_separated_row hd hbehind
    (fun ts t y ⟨name, hts⟩ ht hc => ⟨name, hts.runFrom_comma ht hc⟩)
    (runFrom_begins_prefixLength ht hs hlast) (hnot (by decide))
  rw [columnListRule, Rule.runFrom_bind_of_ok hopen, Rule.runFrom_bind_of_ok hrow,
    Rule.runFrom_bind_of_error (Rule.runFrom_require_of_none (hnot (by decide)))]

/-- What is left of a column of a key is nothing, a column, or a name in front of the beginning of a
prefix length. -/
theorem IsColumn.cut (h : IsColumn name (q ++ x)) :
    q = [] ∨ IsColumn name q ∨ ∃ t s, q = t :: s ∧ t.kind.name? = some name ∧
      Cursor.Begins IsPrefixLength s := by
  generalize hts : q ++ x = ts at h
  cases q with
  | nil => exact .inl rfl
  | cons t q =>
      obtain ⟨ht, hps, hds⟩ := h
      rename_i ps ds
      obtain ⟨rfl, hbehind⟩ := List.cons.inj hts
      rcases Cursor.exists_of_append_eq_append hbehind.symm with ⟨y, hy, rfl⟩ | ⟨q, rfl, rfl⟩
      · by_cases hq : q = []
        · exact .inr (.inl (hq ▸ .mk ht .absent .absent))
        · exact .inr (.inr ⟨t, q, rfl, ht, hq, y, hy, hps⟩)
      · refine .inr (.inl (.mk ht hps ?_))
        generalize hds' : q ++ x = ds at hds
        cases hds with
        | absent =>
            obtain ⟨rfl, -⟩ := List.append_eq_nil_iff.1 hds'
            exact .absent
        | present hw hd =>
            rcases List.append_eq_singleton_iff.1 hds' with ⟨rfl, -⟩ | ⟨rfl, -⟩
            · exact .absent
            · exact .present hw hd

/-- Behind columns with commas the reading stops at the end if the last column does. -/
theorem stop_columnListRule {l : Token} (hl : l.kind = .leftParen)
    (hd : d.Row (Cursor.WithComma fun ts => ∃ name, IsColumn name ts))
    (hc : Cursor.IsBare (l :: (d ++ s))) (hs : columnRule.stop s = []) :
    columnListRule.stop (l :: (d ++ s)) = [] := by
  have hopen : (Rule.require (Matcher.mark .leftParen) .openParen).runFrom (l :: (d ++ s))
      = (.ok (), d ++ s) :=
    Rule.runFrom_require_eq_ok_iff.2 ((Matcher.run_mark_eq_some_iff hc).2 ⟨l, rfl, hl⟩)
  have hrow := Rule.stop_separated_row hd (Cursor.isBare_cons.1 hc).2
    (fun ts t y ⟨name, hts⟩ ht hc => ⟨name, hts.runFrom_comma ht hc⟩) hs rfl
  rw [columnListRule, Rule.stop_bind_of_ok hopen]
  exact Rule.stop_bind hrow fun _ => rfl

/-- The rule of a column list never goes back. -/
theorem columnListRule_takes : columnListRule.Takes 0 :=
  Rule.takes_of_obeys fun _ => Simulation.obeys_columnList _

/-- What is left of the columns of a key is read to its end, or it is cut off inside of a prefix
length. -/
theorem IsColumnRow.stop_or_isTornRow (h : IsColumnRow names (q ++ x)) (hx : x ≠ [])
    (hq : q.IsBare) : columnListRule.stop q = [] ∨ ∃ d s, q = d ++ s ∧ IsTornRow d s := by
  generalize hts : q ++ x = ts at h
  cases q with
  | nil => exact .inl columnListRule_takes.stop_nil
  | cons l q =>
      obtain ⟨hl, hjoined, hall, -⟩ := h
      rename_i r b ss
      obtain ⟨rfl, hb⟩ := List.cons.inj hts
      have hbehind := (Cursor.isBare_cons.1 hq).2
      obtain ⟨y, rfl⟩ : ∃ y, b = q ++ y := by
        rcases Cursor.exists_of_append_eq_append hb.symm with ⟨y, -, hb⟩ | ⟨q', rfl, hr⟩
        · exact ⟨y, hb⟩
        · rcases List.append_eq_singleton_iff.1 hr.symm with ⟨rfl, -⟩ | ⟨-, rfl⟩
          · exact ⟨[], by simp⟩
          · exact absurd rfl hx
      have hss : ∀ s ∈ ss, ∃ name, IsColumn name s := fun s hs =>
        (exists_of_forall₂ hall s hs).imp fun _ => And.right
      obtain ⟨d, s, y', rfl, hd, hmem⟩ := hjoined.exists_row rfl hss
      obtain ⟨name, hs⟩ := hss _ hmem
      have hlast := (Cursor.isBare_append.1 hbehind).2
      obtain rfl | hcolumn | ⟨t, s, rfl, ht, hbegins⟩ := hs.cut
      · exact .inl (stop_columnListRule hl hd hq rfl)
      · exact .inl (stop_columnListRule hl hd hq (Rule.stop_of_runFrom (hcolumn.runFrom hlast)))
      · exact .inr ⟨l :: (d ++ [t]), s, by simp, .mk hl hd ht hbegins⟩

end Key

/-! ### Targets -/

namespace Reference

variable {c d q s x : Cursor}

/-- The target of a foreign key that is cut off inside of a prefix length or of a referential
action, of which `s` is there. -/
inductive IsTorn : Cursor → Cursor → Prop
  | columns {w : Token} {q : QualifiedName} {ns d s : Cursor} :
    w.kind.isWord "references" = true → q.IsSpelledBy ns → Key.IsTornRow d s →
      IsTorn (w :: (ns ++ d)) s
  | action {w o e : Token} {q : QualifiedName} {names : List String} {event : String}
      {ns cs as s : Cursor} :
    w.kind.isWord "references" = true → q.IsSpelledBy ns → Key.IsColumnRow names cs →
    Cursor.Row IsActionClause as → o.kind.isWord "on" = true → event ∈ ["delete", "update"] →
    e.kind.isWord event = true → s.Begins (fun ts => ∃ action ∈ actions, ts.Spells action) →
      IsTorn (w :: (ns ++ (cs ++ (as ++ [o, e])))) s

/-- An action that is only begun is not read. -/
theorem runFrom_actionClause_of_begins {e : Token} {event : String}
    (hevent : event ∈ ["delete", "update"]) (he : e.kind.isWord event = true)
    (hs : s.Begins fun ts => ∃ action ∈ actions, ts.Spells action) (hc : Cursor.IsBare (e :: s)) :
    actionClause.runFrom (e :: s) = (.error .referentialAction, s) := by
  have hbare := (Cursor.isBare_cons.1 hc).2
  have hnone : (actions.firstM Matcher.phrase).run s = none := by
    refine Matcher.run_eq_none_of_begins (fun _ rest hrun => ?_) ?_ hs
    · obtain ⟨action, haction, ts, rfl, hts⟩ := (run_actions_eq_some_iff hbare).1 hrun
      exact ⟨ts, rfl, action, haction, hts⟩
    · rintro ts x ⟨action, haction, hts⟩ ⟨other, hother, htsx⟩
      obtain rfl := eq_of_sameWords action haction other hother
        (hts.sameWords htsx (x := x) (y := []) (by rw [List.append_nil]))
      have hlength := htsx.length_eq.symm.trans hts.length_eq
      simpa using hlength
  have hread : (Rule.require (Matcher.word "delete" <|> Matcher.word "update")
      .deleteOrUpdate).runFrom (e :: s) = (.ok (), s) :=
    Rule.runFrom_require_eq_ok_iff.2
      ((Matcher.run_eitherWord_eq_some_iff hc).2 ⟨e, rfl, event, hevent, he⟩)
  rw [actionClause, Rule.runFrom_bind_of_ok hread]
  exact Rule.runFrom_require_of_none hnone

/-- The target of a foreign key up to its columns. -/
theorem runFrom_target {w : Token} {q : QualifiedName} {ns : Cursor}
    (hw : w.kind.isWord "references" = true) (hns : q.IsSpelledBy ns)
    (hc : Cursor.IsBare (w :: (ns ++ c))) (hparen : ∀ t ∈ c.head?, t.kind ≠ .period) :
    Reference.rule.runFrom (w :: (ns ++ c)) = (do
      let columns ← Key.columnListRule
      Rule.follow (Matcher.word "on") actionClause
      return ⟨q.joined, columns⟩ : Rule Reference).runFrom c := by
  have hword : (Rule.require (Matcher.word "references") .references).runFrom (w :: (ns ++ c))
      = (.ok (), ns ++ c) :=
    Rule.runFrom_require_eq_ok_iff.2 ((Matcher.run_word_eq_some_iff hc).2 ⟨w, rfl, hw⟩)
  have hname := hns.runFrom (e := .referencedTable) (Cursor.isBare_cons.1 hc).2 hparen
  rw [Reference.rule, Rule.runFrom_bind_of_ok hword, Rule.runFrom_bind_of_ok hname]

/-- Behind the columns of a target a row of actions is passed over. -/
theorem runFrom_actions {w : Token} {q : QualifiedName} {names : List String} {ns cs as : Cursor}
    (hw : w.kind.isWord "references" = true) (hns : q.IsSpelledBy ns)
    (hcs : Key.IsColumnRow names cs) (has : Cursor.Row IsActionClause as)
    (hc : Cursor.IsBare (w :: (ns ++ (cs ++ (as ++ c))))) :
    Reference.rule.runFrom (w :: (ns ++ (cs ++ (as ++ c)))) = (do
      Rule.follow (Matcher.word "on") actionClause
      return ⟨q.joined, names⟩ : Rule Reference).runFrom c := by
  have hc₁ := (Cursor.isBare_append.1 (Cursor.isBare_cons.1 hc).2).2
  have hc₂ := (Cursor.isBare_append.1 hc₁).2
  have hperiod : ∀ t ∈ (cs ++ (as ++ c)).head?, t.kind ≠ .period := by
    obtain ⟨l, us, rfl, hl⟩ := hcs.exists_cons
    rintro _ ⟨⟩
    simp [hl]
  have hfollow : (Rule.follow (Matcher.word "on") actionClause).runFrom (as ++ c)
      = (Rule.follow (Matcher.word "on") actionClause).runFrom c :=
    followFrom_row has hc₂
  rw [runFrom_target hw hns hc hperiod, Rule.runFrom_bind_of_ok (hcs.runFrom hc₁),
    Rule.runFrom_bind, hfollow, ← Rule.runFrom_bind]

/-- A target that is cut off inside of a part ends in front of it. -/
theorem IsTorn.exists_runFrom (h : IsTorn d s) (hc : Cursor.IsBare (d ++ s)) :
    ∃ e, Reference.rule.runFrom (d ++ s) = (.error e, s) := by
  cases h with
  | @columns w q ns d s hw hns hd =>
      rw [List.cons_append, List.append_assoc] at hc ⊢
      have hperiod : ∀ t ∈ (d ++ s).head?, t.kind ≠ .period := by
        obtain ⟨hl, -, -, -⟩ := hd
        rintro _ ⟨⟩
        simp [hl]
      have hcolumns := hd.runFrom (Cursor.isBare_append.1 (Cursor.isBare_cons.1 hc).2).2
      refine ⟨.commaOrCloseParen, ?_⟩
      rw [runFrom_target hw hns hc hperiod, Rule.runFrom_bind_of_error hcolumns]
  | @action w o e q names event ns cs as s hw hns hcs has ho hevent he hs =>
      have happend : w :: (ns ++ (cs ++ (as ++ [o, e]))) ++ s
          = w :: (ns ++ (cs ++ (as ++ o :: e :: s))) := by simp
      rw [happend] at hc ⊢
      have hbehind : Cursor.IsBare (o :: e :: s) := hc.of_suffix ⟨w :: (ns ++ (cs ++ as)), by simp⟩
      have hlead := (Matcher.run_word_eq_some_iff (u := ()) hbehind).2 ⟨o, rfl, ho⟩
      have hread := runFrom_actionClause_of_begins hevent he hs (Cursor.isBare_cons.1 hbehind).2
      have hfollow : (Rule.follow (Matcher.word "on") actionClause).runFrom (o :: e :: s)
          = (.error .referentialAction, s) := by
        rw [Rule.follow, Rule.runFrom_ofFunction, Rule.followFrom, hlead]
        simp only [hread]
      refine ⟨.referentialAction, ?_⟩
      rw [runFrom_actions hw hns hcs has hc, Rule.runFrom_bind_of_error hfollow]

/-- The first two tokens of a referential action, or what is left of them, are read to their end. -/
theorem IsActionClause.follow_stop_or_exists (hs : s.Begins IsActionClause) (hc : s.IsBare) :
    (Rule.follow (Matcher.word "on") actionClause).stop s = [] ∨
      ∃ o e us event, s = o :: e :: us ∧ o.kind.isWord "on" = true ∧
        event ∈ ["delete", "update"] ∧ e.kind.isWord event = true ∧
        Cursor.Begins (fun ts => ∃ action ∈ actions, ts.Spells action) us := by
  obtain ⟨hne, x, hx, hclause⟩ := hs
  obtain ⟨o, s, rfl⟩ := List.exists_cons_of_ne_nil hne
  generalize hts : o :: s ++ x = ts at hclause
  obtain ⟨ho, hevent, he, haction, hspells⟩ := hclause
  rename_i e event action ts
  obtain ⟨rfl, hbehind⟩ := List.cons.inj hts
  have hlead := (Matcher.run_word_eq_some_iff (u := ()) hc).2 ⟨o, rfl, ho⟩
  have hstop (hpart : actionClause.runFrom s = (.error .deleteOrUpdate, []) ∨
      actionClause.runFrom s = (.error .referentialAction, [])) :
      (Rule.follow (Matcher.word "on") actionClause).stop (o :: s) = [] := by
    rw [Rule.stop, Rule.follow, Rule.runFrom_ofFunction, Rule.followFrom, hlead]
    rcases hpart with hpart | hpart <;> simp only [hpart]
  cases s with
  | nil => exact .inl (hstop (.inl rfl))
  | cons e' us =>
      obtain ⟨rfl, rfl⟩ := List.cons.inj hbehind
      by_cases hnil : us = []
      · subst hnil
        have hread : (Rule.require (Matcher.word "delete" <|> Matcher.word "update")
            .deleteOrUpdate).runFrom [e'] = (.ok (), []) :=
          Rule.runFrom_require_eq_ok_iff.2 ((Matcher.run_eitherWord_eq_some_iff
            (Cursor.isBare_cons.1 hc).2).2 ⟨e', rfl, event, hevent, he⟩)
        refine .inl (hstop (.inr ?_))
        rw [actionClause, Rule.runFrom_bind_of_ok hread]
        rfl
      · exact .inr ⟨o, e', us, event, rfl, ho, hevent, he, hnil, x, hx, action, haction,
          hspells⟩

/-- The rule of a reference never goes back. -/
theorem rule_takes : Reference.rule.Takes 0 :=
  Rule.takes_of_obeys fun _ => Simulation.obeys_reference _

/-- At the end of the tokens the action clauses stop at the end. -/
theorem stop_follow_nil : (Rule.follow (Matcher.word "on") actionClause).stop [] = [] := by
  rw [Rule.stop, Rule.follow, Rule.runFrom_ofFunction, Rule.followFrom]
  rfl

/-- What is left of a target is read to its end, or it is cut off inside of a part. -/
theorem IsSpelledBy.stop_or_isTorn {r : Reference} (h : r.IsSpelledBy (q ++ x)) (hq : q.IsBare) :
    Reference.rule.stop q = [] ∨ ∃ d s, q = d ++ s ∧ IsTorn d s := by
  generalize hts : q ++ x = ts at h
  cases q with
  | nil => exact .inl rule_takes.stop_nil
  | cons w q =>
      obtain ⟨hw, hns, hcs, has⟩ := h
      rename_i name names ns cs as
      obtain ⟨rfl, hbehind⟩ := List.cons.inj hts
      have hq₁ := (Cursor.isBare_cons.1 hq).2
      -- the cut is in the name, in the columns or in the actions
      rcases Cursor.exists_of_append_eq_append hbehind.symm with ⟨y, -, rfl⟩ | ⟨q₁, rfl, hcs'⟩
      · have hword : (Rule.require (Matcher.word "references") .references).runFrom (w :: q)
            = (.ok (), q) :=
          Rule.runFrom_require_eq_ok_iff.2 ((Matcher.run_word_eq_some_iff hq).2 ⟨w, rfl, hw⟩)
        rw [Reference.rule, Rule.stop_bind_of_ok hword]
        exact .inl (Rule.stop_bind (hns.stop_of_append hq₁) fun _ => rfl)
      have hq₂ := (Cursor.isBare_append.1 hq₁).2
      have hperiod : ∀ t ∈ q₁.head?, t.kind ≠ .period := by
        obtain ⟨l, us, rfl, hl⟩ := hcs.exists_cons
        intro t ht
        obtain ⟨q₁, rfl⟩ := List.head?_eq_some_iff.1 ht
        obtain rfl := (List.cons.inj hcs').1
        simp [hl]
      rcases Cursor.exists_of_append_eq_append hcs' with ⟨y, hy, rfl⟩ | ⟨q₂, rfl, rfl⟩
      · rcases hcs.stop_or_isTornRow hy hq₂ with hstop | ⟨d, s, rfl, hd⟩
        · rw [Rule.stop, runFrom_target hw hns hq hperiod]
          exact .inl (Rule.stop_bind hstop fun _ => Rule.stop_bind stop_follow_nil fun _ => rfl)
        · exact .inr ⟨w :: (ns ++ d), s, by simp, .columns hw hns hd⟩
      · obtain ⟨d, s, rfl, hd, hs⟩ := has.exists_begins
        have hend (hstop : (Rule.follow (Matcher.word "on") actionClause).stop s = []) :
            Reference.rule.stop (w :: (ns ++ (cs ++ (d ++ s)))) = [] := by
          rw [Rule.stop, runFrom_actions hw hns hcs hd hq]
          exact Rule.stop_bind hstop fun _ => rfl
        rcases hs with rfl | hs
        · exact .inl (hend stop_follow_nil)
        · have hs' := (Cursor.isBare_append.1 (Cursor.isBare_append.1 hq₂).2).2
          rcases IsActionClause.follow_stop_or_exists hs hs' with
            hstop | ⟨o, e, us, event, rfl, ho, hevent, he, hus⟩
          · exact .inl (hend hstop)
          · exact .inr ⟨w :: (ns ++ (cs ++ (d ++ [o, e]))), us, by simp,
              .action hw hns hcs hd ho hevent he hus⟩

end Reference

end CreateTable
