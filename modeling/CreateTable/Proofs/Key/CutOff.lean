import CreateTable.Proofs.Key.Clause
import CreateTable.Proofs.Key.TornParts

/-!
# Key clauses that are cut off

The parts of a key clause that are made of several tokens and taken as a whole or not at all are the
words of a primary or a foreign key, the options, the prefix lengths of the columns and the
referential actions. A key clause that is cut off inside of one of them is read up to the beginning
of that part, and any other key clause that is cut off is read to the end of its tokens.

## Main definitions

* `Key.IsTorn`: key clauses that are cut off inside of a part.

## Main statements

* `Key.IsTorn.stop`: where the reading of such a clause stops.
* `Key.IsSpelledBy.stop_or_isTorn`: a key clause that is cut off.
-/

namespace CreateTable

open Text

/-- Of a kind of two words the first one is not read alone. -/
theorem KeyKind.run_of_first {kind : KeyKind} {t : Token} {c : Cursor} {v : String}
    (hkind : kind ∈ [KeyKind.primary, .foreign]) (hv : v ∈ kind.leads)
    (ht : t.kind.isWord v = true) (hc : Cursor.IsBare (t :: c))
    (hkey : (Matcher.word "key").run c = none) : KeyKind.matcher.run (t :: c) = none := by
  have hword := Matcher.run_word_of_isWord hc ht
  rcases List.mem_pair.1 hkind with rfl | rfl
  all_goals
    obtain rfl := List.mem_singleton.1 hv
    simp +decide only [matcher, indexWord, Matcher.phrase, Matcher.run_orElse, Matcher.run_seqRight,
      Matcher.run_bind, hword, hkey, if_true, if_false, Option.bind_none, Option.bind_some,
      Option.none_or]

/-- The beginning of a kind of two words is the first of them, and is not read. -/
theorem KeyKind.exists_of_begins {kind : KeyKind} {s : Cursor}
    (hkind : kind ∈ [KeyKind.primary, .foreign])
    (hs : s.Begins fun ts => ∃ ws ∈ kind.spellings, ts.Spells ws) (hbare : s.IsBare) :
    (∃ t : Token, s = [t] ∧ ∃ v ∈ kind.leads, t.kind.isWord v = true) ∧
      KeyKind.matcher.run s = none := by
  obtain ⟨hne, x, hx, ws, hws, hspells⟩ := hs
  obtain ⟨t, s, rfl⟩ := List.exists_cons_of_ne_nil hne
  have hlength : ws.length = 2 := by
    revert hws
    rcases List.mem_pair.1 hkind with rfl | rfl <;> exact fun h => by
      rw [List.mem_singleton.1 h]
      rfl
  obtain ⟨u, us, hcons, v, hv, ht⟩ := exists_cons_of_spells hws hspells
  obtain rfl := (List.cons.inj hcons).1
  have hsx := hspells.length_eq
  have hpos := List.length_pos_iff.2 hx
  rw [List.length_append, List.length_cons] at hsx
  obtain rfl : s = [] := List.eq_nil_of_length_eq_zero (by omega)
  exact ⟨⟨t, rfl, v, hv, ht⟩, run_of_first hkind hv ht hbare rfl⟩

namespace Key

variable {c d q s x : Cursor} {key : Key}

/-- A key clause that is cut off inside of a part of several tokens, of which `s` is there: of a
kind of two words, of an option in front of the columns or behind everything else, of a prefix
length, or of a referential action. -/
inductive IsTorn : Cursor → Cursor → Prop
  | kind {kind : KeyKind} {constraint : Option String} {cs s : Cursor} :
    IsConstraint kind constraint cs → kind ∈ [KeyKind.primary, .foreign] →
    s.Begins (fun ts => ∃ ws ∈ kind.spellings, ts.Spells ws) → IsTorn cs s
  | option {kind : KeyKind} {constraint index : Option String} {hs s : Cursor} :
    IsFront kind constraint index s hs → s.Begins IsOption → IsTorn hs s
  | columns {kind : KeyKind} {constraint index : Option String} {hs d s : Cursor} :
    IsFront kind constraint index (d ++ s) hs → IsTornRow d s → IsTorn (hs ++ d) s
  | target {constraint index : Option String} {names : List String} {hs bs d s : Cursor} :
    IsFront .foreign constraint index (bs ++ (d ++ s)) hs → IsColumnRow names bs →
    Reference.IsTorn d s → IsTorn (hs ++ (bs ++ d)) s
  | behind {key : Key} {d s : Cursor} : key.IsSpelledBy d → s.Begins IsOption → IsTorn d s

/-- An option is begun by its keyword, and not read when it is only begun. -/
theorem exists_of_begins_option (hs : s.Begins IsOption) (hbare : s.IsBare) :
    (∃ w : Token, s = [w] ∧ ∃ v ∈ ["using", "comment"], w.kind.isWord v = true) ∧
      option.run s = none := by
  obtain ⟨hne, x, hx, hoption⟩ := hs
  obtain ⟨w, s, rfl⟩ := List.exists_cons_of_ne_nil hne
  obtain ⟨u, us, hcons, hword⟩ := hoption.exists_cons
  obtain rfl := (List.cons.inj hcons).1
  have hlength := hoption.length_eq
  have hpos := List.length_pos_iff.2 hx
  rw [List.length_append, List.length_cons] at hlength
  obtain rfl : s = [] := List.eq_nil_of_length_eq_zero (by omega)
  refine ⟨⟨w, rfl, hword⟩, ?_⟩
  refine Option.eq_none_iff_forall_ne_some.2 fun ⟨_, rest⟩ hrun => ?_
  obtain ⟨ts, hts, hoption'⟩ := (run_option_eq_some_iff hbare).1 hrun
  have hlength' := hoption'.length_eq
  have hle := congrArg List.length hts
  rw [List.length_append, List.length_singleton] at hle
  omega

/-- A column row that is cut off begins with its opening parenthesis. -/
theorem IsTornRow.exists_cons (h : IsTornRow d s) : ∃ l us, d = l :: us ∧ l.kind = .leftParen := by
  obtain ⟨hl, -, -, -⟩ := h
  exact ⟨_, _, rfl, hl⟩

/-- A key clause that is cut off inside of a part is read up to the beginning of that part. -/
theorem IsTorn.stop (h : IsTorn d s) (hc : Cursor.IsBare (d ++ s)) :
    Key.rule.stop (d ++ s) = s := by
  have hs := (Cursor.isBare_append.1 hc).2
  cases h with
  | @kind kind constraint _ _ hcs hkind hbegins =>
      obtain ⟨⟨t, rfl, v, hv, ht⟩, hnone⟩ := KeyKind.exists_of_begins hkind hbegins hs
      rw [rule_eq, Rule.stop_bind_of_ok (hcs.runFrom hv ht hc)]
      exact Rule.stop_require_bind hnone
  | @option kind constraint index _ _ hfront hbegins =>
      obtain ⟨⟨w, rfl, v, hv, hw⟩, hnone⟩ := exists_of_begins_option hbegins hs
      have hlead : Cursor.LeadsWith _ [w] := .cons hw hv
      have hcolumns : columnListRule.runFrom [w] = (.error .openParen, [w]) :=
        Rule.runFrom_bind_of_error (Rule.runFrom_require_of_none (hlead.run_mark hs (by simp)))
      rw [Rule.stop, hfront.runFrom hc hnone]
      exact Rule.stop_of_runFrom (Rule.runFrom_bind_of_error hcolumns)
  | @columns kind constraint index hs d _ hfront hd =>
      rw [List.append_assoc] at hc ⊢
      have hbehind := (Cursor.isBare_append.1 hc).2
      have hnone : Key.option.run (d ++ s) = none := by
        obtain ⟨l, us, rfl, hl⟩ := hd.exists_cons
        exact run_option_of_leftParen hbehind hl
      rw [Rule.stop, hfront.runFrom hc hnone]
      exact Rule.stop_of_runFrom (Rule.runFrom_bind_of_error (hd.runFrom hbehind))
  | @target constraint index names hs bs d _ hfront hbs hd =>
      rw [List.append_assoc, List.append_assoc] at hc ⊢
      have hc₁ := (Cursor.isBare_append.1 hc).2
      have hnone : Key.option.run (bs ++ (d ++ s)) = none := by
        obtain ⟨l, us, rfl, hl⟩ := hbs.exists_cons
        exact run_option_of_leftParen hc₁ hl
      obtain ⟨e, htarget⟩ := hd.exists_runFrom (Cursor.isBare_append.1 hc₁).2
      have htarget' : (targetRule .foreign).runFrom (d ++ s) = (.error e, s) := by
        rw [targetRule, if_pos rfl, Rule.runFrom_map, htarget]
      rw [Rule.stop, hfront.runFrom hc hnone, behindFront,
        Rule.runFrom_bind_of_ok (hbs.runFrom hc₁), Rule.runFrom_bind_of_error htarget']
  | @behind key _ _ hd hbegins =>
      obtain ⟨⟨w, rfl, v, hv, hw⟩, hnone⟩ := exists_of_begins_option hbegins hs
      exact Rule.stop_of_runFrom (hd.runFrom_append hc (.cons hw hv) hnone)

/-! ### Where a key clause can be cut -/

section

variable {kind : KeyKind} {constraint index : Option String}

/-- At the end of the tokens what is behind the front stops at the end. -/
theorem stop_behindFront_nil : (behindFront kind constraint index).stop [] = [] := rfl

/-- At the end of the tokens the options stop at the end. -/
theorem stop_options_nil : options.stop [] = [] := by
  have hread : options.runFrom ([] ++ []) = (.ok (), []) :=
    options_of_row .nil (by simp [Cursor.IsBare]) rfl
  exact Rule.stop_of_runFrom hread

/-- At the end of the tokens the target stops at the end. -/
theorem stop_targetRule_nil : (targetRule kind).stop [] = [] := by
  rw [targetRule]
  split
  · rw [Rule.stop_map, Reference.rule_takes.stop_nil]
  · rfl

/-- At the end of the tokens the name of the index stops at the end. -/
theorem stop_indexName_nil : (indexName kind).stop [] = [] := by
  cases kind <;> rfl

/-- What is left of the name of an index is read to its end. -/
theorem IsIndexName.stop_of_append {ws : List String} (h : IsIndexName kind ws index (q ++ x))
    (hq : q.IsBare) : (indexName kind).stop q = [] := by
  generalize hts : q ++ x = ts at h
  cases h with
  | absent =>
      obtain ⟨rfl, -⟩ := List.append_eq_nil_iff.1 hts
      exact stop_indexName_nil
  | @named t name hprimary ht =>
      rcases List.append_eq_singleton_iff.1 hts with ⟨rfl, -⟩ | ⟨rfl, -⟩
      · exact stop_indexName_nil
      · have hindex : IsIndexName kind ws (some name) [t] := .named hprimary ht
        have hbare : Cursor.IsBare ([t] ++ []) := hq
        exact Rule.stop_of_runFrom (hindex.runFrom hbare fun _ hnone =>
          absurd hnone (Option.some_ne_none name))

/-- Behind the kind the reading stops at the end of the tokens, if that of the name of the index
does. -/
theorem stop_behindKind (h : (indexName kind).stop c = []) : (do
    let index ← indexName kind
    options
    behindFront kind constraint index : Rule Key).stop c = [] :=
  Rule.stop_bind h fun _ => Rule.stop_bind stop_options_nil fun _ => stop_behindFront_nil

/-- What is left of the name of a constraint is read to its end. -/
theorem IsConstraint.stop_of_append (h : IsConstraint kind constraint (q ++ x)) (hq : q.IsBare) :
    constraintName.stop q = [] := by
  generalize hts : q ++ x = ts at h
  match q with
  | [] => rfl
  | [t] =>
      have ht : t.kind.isWord "constraint" = true := by
        cases h with
        | absent => cases hts
        | unnamed _ ht | named ht _ =>
            obtain rfl := (List.cons.inj hts).1
            exact ht
      have hword : (Rule.allow (Matcher.word "constraint")).runFrom [t] = (.ok (some ()), []) :=
        Rule.runFrom_allow_eq_ok_iff.2
          (.inr ⟨(), rfl, (Matcher.run_word_eq_some_iff hq).2 ⟨t, rfl, ht⟩⟩)
      rw [constraintName, Rule.stop_bind_of_ok hword]
      rfl
  | [t, u] =>
      cases h with
      | absent => cases hts
      | unnamed => simp at hts
      | named ht hu =>
          simp only [List.cons_append, List.cons.injEq] at hts
          obtain ⟨rfl, rfl, -⟩ := hts
          exact Rule.stop_of_runFrom (runFrom_constraint_named ht hu hq)
  | t :: u :: v :: q =>
      cases h <;> simp at hts

/-- Where the constraint in front runs to the end of the tokens, the key stops there too. -/
theorem stop_of_constraintName (h : constraintName.stop q = []) : Key.rule.stop q = [] := by
  rw [rule_eq]
  exact Rule.stop_bind h fun _ => rfl

/-- What is left of the words of a kind is nothing, the first word of a kind of two words, or the
words of the kind. -/
theorem spells_cut {ws : List String} (hws : ws ∈ kind.spellings)
    (h : Cursor.Spells ws (q ++ x)) (hx : x ≠ []) (hq : q ≠ []) :
    kind ∈ [KeyKind.primary, .foreign] ∨ ∃ vs ∈ kind.spellings, q.Spells vs := by
  have htake : q.Spells (ws.take q.length) := by
    have hfirst := List.forall₂_take q.length h
    rwa [List.take_left] at hfirst
  have hlt : q.length < ws.length := by
    have hlength := h.length_eq
    have hpos := List.length_pos_iff.2 hx
    rw [List.length_append] at hlength
    omega
  have hle : ∀ ws ∈ kind.spellings, ws.length ≤ 2 := by cases kind <;> decide
  have hone : q.length = 1 := by
    have hpos := List.length_pos_iff.2 hq
    have hle := hle ws hws
    omega
  have hspelling : kind ∈ [KeyKind.primary, .foreign] ∨
      ∀ ws ∈ kind.spellings, ws.take 1 ∈ kind.spellings := by
    cases kind <;> decide
  rw [hone] at htake
  exact hspelling.imp_right fun h => ⟨_, h ws hws, htake⟩

variable {ws : List String} {cs ks is os b : Cursor}

/-- What is left of the words of a kind is read to its end, or it is the first of two words. -/
theorem stop_or_isTorn_of_kind (hcs : IsConstraint kind constraint cs) (hws : ws ∈ kind.spellings)
    (h : Cursor.Spells ws (q ++ x)) (hx : x ≠ []) (hc : Cursor.IsBare (cs ++ q)) :
    Key.rule.stop (cs ++ q) = [] ∨ ∃ d s, cs ++ q = d ++ s ∧ IsTorn d s := by
  by_cases hnil : q = []
  · subst hnil
    rw [← List.append_nil cs] at hcs
    rw [List.append_nil] at hc ⊢
    exact .inl (stop_of_constraintName (hcs.stop_of_append hc))
  rcases spells_cut hws h hx hnil with hkind | ⟨vs, hvs, hq⟩
  · exact .inr ⟨cs, q, rfl, .kind hcs hkind ⟨hnil, x, hx, ws, hws, h⟩⟩
  · have hread := runFrom_kind (c := []) hcs hvs hq (by rwa [List.append_nil]) nofun
    rw [List.append_nil] at hread
    rw [Rule.stop, hread]
    exact .inl (stop_behindKind stop_indexName_nil)

/-- What is left of the options in front of the columns is read to its end, or it is cut off inside
of an option. -/
theorem stop_or_isTorn_of_options (hcs : IsConstraint kind constraint cs)
    (hws : ws ∈ kind.spellings) (hks : ks.Spells ws) (his : IsIndexName kind ws index is)
    (hos : Cursor.Row IsOption (q ++ x)) (hopens : kind ≠ .primary → index = none → OpensColumns q)
    (hc : Cursor.IsBare (cs ++ (ks ++ (is ++ q)))) :
    Key.rule.stop (cs ++ (ks ++ (is ++ q))) = [] ∨
      ∃ d s, cs ++ (ks ++ (is ++ q)) = d ++ s ∧ IsTorn d s := by
  obtain ⟨d, s, rfl, hd, hs⟩ := hos.exists_begins
  have hfront : IsFront kind constraint index s (cs ++ (ks ++ (is ++ d))) :=
    .mk hcs hws hks his hd hopens
  have happend : cs ++ (ks ++ (is ++ (d ++ s))) = cs ++ (ks ++ (is ++ d)) ++ s := by
    simp only [List.append_assoc]
  rw [happend] at hc ⊢
  rcases hs with rfl | hs
  · rw [Rule.stop, hfront.runFrom hc rfl]
    exact .inl stop_behindFront_nil
  · exact .inr ⟨_, s, rfl, .option hfront hs⟩

/-- A key clause that is cut off in front of its columns is read to the end of its tokens, or it is
cut off inside of a part. Behind that cut, all tokens in front of the columns are there. -/
theorem stop_or_isTorn_or_isFront (hcs : IsConstraint kind constraint cs)
    (hws : ws ∈ kind.spellings) (hks : ks.Spells ws) (his : IsIndexName kind ws index is)
    (hos : Cursor.Row IsOption os)
    (hopens : kind ≠ .primary → index = none → OpensColumns (os ++ b))
    (h : cs ++ (ks ++ (is ++ (os ++ b))) = q ++ x) (hq : q.IsBare) :
    (Key.rule.stop q = [] ∨ ∃ d s, q = d ++ s ∧ IsTorn d s) ∨
      ∃ q', q = cs ++ (ks ++ (is ++ os)) ++ q' ∧ b = q' ++ x ∧
        IsFront kind constraint index q' (cs ++ (ks ++ (is ++ os))) := by
  -- the cut is in the constraint, in the kind, in the name of the index, in the options or behind
  rcases Cursor.exists_of_append_eq_append h with ⟨y, -, rfl⟩ | ⟨q₁, rfl, h₁⟩
  · exact .inl (.inl (stop_of_constraintName (hcs.stop_of_append hq)))
  rcases Cursor.exists_of_append_eq_append h₁ with ⟨y, hy, rfl⟩ | ⟨q₂, rfl, h₂⟩
  · exact .inl (stop_or_isTorn_of_kind hcs hws hks hy hq)
  have hcontinues : ∀ v ∈ KeyKind.continuations ws, ∀ t ∈ q₂.head?, t.kind.isWord v = false := by
    intro v hv t ht
    refine his.not_continues hws hopens v hv t ?_
    rw [h₂, List.head?_append, Option.mem_def.1 ht]
    rfl
  have hindex (hstop : (indexName kind).stop q₂ = []) : Key.rule.stop (cs ++ (ks ++ q₂)) = [] := by
    rw [Rule.stop, runFrom_kind hcs hws hks hq hcontinues]
    exact stop_behindKind hstop
  have hq₂ := (Cursor.isBare_append.1 (Cursor.isBare_append.1 hq).2).2
  rcases Cursor.exists_of_append_eq_append h₂ with ⟨y, -, rfl⟩ | ⟨q₃, rfl, h₃⟩
  · exact .inl (.inl (hindex (his.stop_of_append hq₂)))
  by_cases hnil : q₃ = []
  · subst hnil
    rw [List.append_nil] at hindex hq₂ ⊢
    rw [← List.append_nil is] at his
    exact .inl (.inl (hindex (his.stop_of_append hq₂)))
  have hopens' (hprimary : kind ≠ .primary) (hindex : index = none) : OpensColumns q₃ := by
    obtain ⟨t, ht, hopen⟩ := hopens hprimary hindex
    obtain ⟨u, us, rfl⟩ := List.exists_cons_of_ne_nil hnil
    rw [h₃] at ht
    exact ⟨t, ht, hopen⟩
  rcases Cursor.exists_of_append_eq_append h₃ with ⟨y, -, rfl⟩ | ⟨q₄, rfl, h₄⟩
  · exact .inl (stop_or_isTorn_of_options hcs hws hks his hos hopens' hq)
  · exact .inr ⟨q₄, by simp only [List.append_assoc], h₄, .mk hcs hws hks his hos hopens'⟩

end

/-- A key clause that is cut off is read to the end of its tokens, or it is cut off inside of a
part. -/
theorem IsSpelledBy.stop_or_isTorn (h : key.IsSpelledBy (q ++ x)) (hq : q.IsBare) :
    Key.rule.stop q = [] ∨ ∃ d s, q = d ++ s ∧ IsTorn d s := by
  generalize hts : q ++ x = ts at h
  obtain ⟨hcs, hws, hks, his, hos, husing, hbs, hrs, hus⟩ := h
  rename_i kind constraint index names references ws cs ks is os bs rs us
  rcases stop_or_isTorn_or_isFront hcs hws hks his hos
    (fun hkind hindex => opensColumns_of_leadsWith (husing hkind hindex) hbs) hts.symm hq with
    hcut | ⟨q₁, rfl, h₁, hfront⟩
  · exact hcut
  have hwhole {d : Cursor} (hd : Cursor.Row IsOption d) :
      IsSpelledBy ⟨kind, constraint <|> index, names, references⟩
        (cs ++ (ks ++ (is ++ os)) ++ (bs ++ (rs ++ d))) := by
    have hspelled := IsSpelledBy.mk hcs hws hks his hos husing hbs hrs hd
    simpa only [List.append_assoc] using hspelled
  generalize cs ++ (ks ++ (is ++ os)) = hs at hfront hq hwhole
  have hq₁ := (Cursor.isBare_append.1 hq).2
  have hnone : Key.option.run q₁ = none := by
    cases q₁ with
    | nil => rfl
    | cons t q₁ =>
        obtain ⟨l, ts, rfl, hl⟩ := hbs.exists_cons
        obtain rfl := (List.cons.inj h₁).1
        exact run_option_of_leftParen hq₁ hl
  have hrule : Key.rule.stop (hs ++ q₁) = (behindFront kind constraint index).stop q₁ := by
    rw [Rule.stop, hfront.runFrom hq hnone, Rule.stop]
  rcases Cursor.exists_of_append_eq_append h₁ with ⟨y, hy, rfl⟩ | ⟨q₂, rfl, h₂⟩
  · -- in the columns
    rcases hbs.stop_or_isTornRow hy hq₁ with hstop | ⟨d, s, rfl, hd⟩
    · rw [hrule]
      exact .inl (Rule.stop_bind hstop fun _ =>
        Rule.stop_bind stop_targetRule_nil fun _ => Rule.stop_bind stop_options_nil fun _ => rfl)
    · exact .inr ⟨hs ++ d, s, by rw [List.append_assoc], .columns hfront hd⟩
  rcases Cursor.exists_of_append_eq_append h₂ with ⟨y, hy, rfl⟩ | ⟨q₃, rfl, rfl⟩
  · -- in the target
    generalize hts : q₂ ++ y = ts at hrs
    cases hrs with
    | absent => exact absurd (List.append_eq_nil_iff.1 hts).2 hy
    | present hkind hr =>
        subst hkind hts
        rcases hr.stop_or_isTorn (Cursor.isBare_append.1 hq₁).2 with hstop | ⟨d, s, rfl, hd⟩
        · have htarget : (targetRule .foreign).stop q₂ = [] := by
            rw [targetRule, if_pos rfl, Rule.stop_map, hstop]
          rw [hrule, behindFront, Rule.stop_bind_of_ok (hbs.runFrom hq₁)]
          exact .inl (Rule.stop_bind htarget fun _ => Rule.stop_bind stop_options_nil fun _ => rfl)
        · exact .inr ⟨hs ++ (bs ++ d), s, by simp only [List.append_assoc],
            .target hfront hbs hd⟩
  · -- in the options behind the target
    obtain ⟨d, s, rfl, hd, rfl | hbegins⟩ := hus.exists_begins
    · rw [List.append_nil] at hq ⊢
      exact .inl (Rule.stop_of_runFrom ((hwhole hd).runFrom hq))
    · exact .inr ⟨hs ++ (bs ++ (rs ++ d)), s, by simp only [List.append_assoc],
        .behind (hwhole hd) hbegins⟩

end Key

end CreateTable
