import CreateTable.Proofs.Session.Position
import CreateTable.Proofs.Statement.Closing
import CreateTable.Proofs.Statement.ItemCutOff

/-!
# Statements that are cut off

A statement whose last tokens are missing is an error. It is reported at the end of the text, unless
the cut is inside of a part that is read as a whole or not at all: then the reading stops in front
of that part, and the error shows its first token.

## Main definitions

* `Table.IsHead`: the tokens of a statement up to the parenthesis that opens its body.
* `Table.behindOpening`, `Table.behindGuard`, `Table.behindHead`: what is read behind the parts of
  the head.
* `Table.IsTorn`: statements that are cut off inside of a part.

## Main statements

* `Table.IsHead.stop`: a statement stops in its body where the last item stops.
* `Table.IsTorn.stop`: where the reading of a statement stops that is cut off inside of a part.
* `Table.Layout.stop_or_isTorn`: where a statement can be cut.
* `Table.runFrom_cut`: how a statement is read that is cut off.
* `Table.ofText_cut`: the error of a text that is cut off.
-/

namespace CreateTable

open Text

/-- The name of a table has at most three tokens. -/
theorem QualifiedName.IsSpelledBy.length_le {q : QualifiedName} {d : Cursor} (h : q.IsSpelledBy d) :
    d.length ≤ 3 := by
  cases h <;> simp

/-! ### The items of a body -/

namespace Item

variable {c d s : Cursor}

/-- An item is read up to the comma behind it. -/
theorem IsReadFrom.runFrom_comma {i : Item} {t : Token} {y : Cursor} (h : i.IsReadFrom s)
    (ht : t.kind = .comma) (hc : Cursor.IsBare (s ++ t :: y)) :
    Item.rule.runFrom (s ++ t :: y) = (.ok i, t :: y) :=
  (Item.runFrom_eq_ok_iff hc (Cursor.isBorder_cons y (.inl ht))).2
    ⟨s, rfl, h.isSegment (Cursor.isBare_append.1 hc).1, isReadFrom_iff.1 h⟩

/-- No item begins with a closing parenthesis. -/
theorem stop_of_rightParen {t : Token} (ht : t.kind = .rightParen) (hc : Cursor.IsBare (t :: c)) :
    Item.rule.stop (t :: c) = t :: c := by
  have hopens : Key.opensAt (t :: c) = false := by
    rw [Key.opensAt_cons hc]
    simp [ht, Kind.isWord]
  have hnone : Matcher.identifier.run (t :: c) = none := by
    refine Option.eq_none_iff_forall_ne_some.2 ?_
    rintro ⟨_, rest⟩ hrun
    obtain ⟨u, hu, hname⟩ := (Matcher.run_identifier_eq_some_iff hc).1 hrun
    obtain rfl := (List.cons.inj hu).1
    simp [ht, Kind.name?] at hname
  rw [stop_of_not_opensAt hopens, Column.rule]
  exact Rule.stop_require_bind hnone

/-- The items of a body are read up to where the last one of them stops. -/
theorem stop_listRule (hd : d.Row (Cursor.WithComma fun ts => ∃ i : Item, i.IsReadFrom ts))
    (hc : Cursor.IsBare (d ++ c)) (hlast : Item.rule.stop c = s) (hs : s.IsBare)
    (hends : s = [] ∨ GoesOn s) : Item.listRule.stop (d ++ c) = s := by
  have hread (ts : Cursor) (t : Token) (y : Cursor) (hts : ∃ i : Item, i.IsReadFrom ts)
      (ht : t.kind = .comma) (hc : Cursor.IsBare (ts ++ t :: y)) :
      ∃ i, Item.rule.runFrom (ts ++ t :: y) = (.ok i, t :: y) :=
    hts.imp fun _ hi => hi.runFrom_comma ht hc
  have hcomma : (Matcher.mark .comma).run s = none := by
    rcases hends with rfl | ⟨t, us, rfl, ht, -⟩
    · rfl
    · rw [Matcher.run_mark_cons hs, if_neg ht]
  have hrow := Rule.stop_separated_row hd hc hread hlast hcomma
  have hlook : Cursor.atKind (d ++ c) 0 .rightParen = false := by
    -- an item would be expected at a parenthesis there, and the reading stop in front of it
    generalize d ++ c = b at hc hrow
    cases b with
    | nil => rfl
    | cons t b =>
        rw [Cursor.atKind_cons b (Cursor.isBare_cons.1 hc).1]
        refine beq_false_of_ne fun ht => ?_
        have hfirst := stop_of_rightParen ht hc
        have hrow' := Rule.stop_separated_row (p := fun _ => False) .nil hc nofun hfirst
          (by rw [Matcher.run_mark_cons hc, ht]; rfl)
        obtain rfl := hrow.symm.trans hrow'
        obtain ⟨u, us, hcons, -, hu⟩ := hends.resolve_left (List.cons_ne_nil t b)
        exact hu ((List.cons.inj hcons).1 ▸ ht)
  have hfalse : (Rule.look (·.atKind 0 .rightParen)).runFrom (d ++ c) = (.ok false, d ++ c) := by
    rw [Rule.runFrom_look, hlook]
  rw [listRule, Rule.stop_bind_of_ok hfalse]
  exact hrow

end Item

/-! ### The front of a statement -/

namespace Table

variable {c d q s x : Cursor} {name : QualifiedName}

/-- The tokens of a statement up to the parenthesis that opens its body. -/
inductive IsHead (name : QualifiedName) : Cursor → Prop
  | mk {os gs ns : Cursor} {l : Token} : os.Spells ["create", "table"] →
    (gs = [] ∨ gs.Spells ["if", "not", "exists"]) → name.IsSpelledBy ns → l.kind = .leftParen →
      IsHead name (os ++ (gs ++ (ns ++ [l])))

/-- What is read behind the head of a statement. -/
def behindHead (name : QualifiedName) : Rule (Table × Token) := do
  let items ← Item.listRule
  let close ← Rule.require (Matcher.exactly .rightParen) .commaOrCloseParen
  return (ofItems name items, close)

/-- What is read behind the words in front of the name of a statement. -/
def behindGuard : Rule (Table × Token) := do
  let name ← QualifiedName.rule .tableName
  Rule.require (Matcher.mark .leftParen) .openParen
  behindHead name

/-- What is read behind the opening words of a statement. -/
def behindOpening : Rule (Table × Token) := do
  let _ ← Rule.allow (Matcher.phrase ["if", "not", "exists"])
  behindGuard

/-- The opening words are read, and the rest of the statement goes on behind them. -/
theorem runFrom_opening {os : Cursor} (hos : os.Spells ["create", "table"])
    (hc : Cursor.IsBare (os ++ c)) : Table.rule.runFrom (os ++ c) = behindOpening.runFrom c := by
  have hopening := (Matcher.run_phrase_eq_some_iff (u := ()) hc).2 ⟨os, rfl, hos⟩
  exact Rule.runFrom_bind_of_ok (Rule.runFrom_require_eq_ok_iff.2 hopening)

/-- The name of the table is read, and the rest of the statement goes on behind it. -/
theorem runFrom_name {ns : Cursor} (hns : name.IsSpelledBy ns) (hc : Cursor.IsBare (ns ++ c))
    (hparen : ∀ t ∈ c.head?, t.kind ≠ .period) :
    behindGuard.runFrom (ns ++ c) = (do
      Rule.require (Matcher.mark .leftParen) .openParen
      behindHead name : Rule (Table × Token)).runFrom c :=
  Rule.runFrom_bind_of_ok (hns.runFrom hc hparen)

/-- A statement is read up to its body. -/
theorem IsHead.runFrom {hs : Cursor} (h : IsHead name hs) (hc : Cursor.IsBare (hs ++ c)) :
    Table.rule.runFrom (hs ++ c) = (behindHead name).runFrom c := by
  obtain ⟨hos, hgs, hns, hl⟩ := h
  rename_i os gs ns l
  simp only [List.append_assoc, List.singleton_append] at hc ⊢
  have hc₁ := (Cursor.isBare_append.1 hc).2
  have hc₂ := (Cursor.isBare_append.1 hc₁).2
  have hc₃ := (Cursor.isBare_append.1 hc₂).2
  obtain ⟨o, hguard⟩ := allow_guard hc₁ hgs hns (by simp [hl, Kind.isWord])
  have hparen : (Rule.require (Matcher.mark .leftParen) .openParen).runFrom (l :: c)
      = (.ok (), c) :=
    Rule.runFrom_require_eq_ok_iff.2 ((Matcher.run_mark_eq_some_iff hc₃).2 ⟨l, rfl, hl⟩)
  rw [runFrom_opening hos hc, behindOpening, Rule.runFrom_bind_of_ok hguard,
    runFrom_name hns hc₂ (by simp [hl]), Rule.runFrom_bind_of_ok hparen]

/-- A statement stops in its body where the last item stops. -/
theorem IsHead.stop {hs : Cursor} (h : IsHead name hs)
    (hd : d.Row (Cursor.WithComma fun ts => ∃ i : Item, i.IsReadFrom ts))
    (hc : Cursor.IsBare (hs ++ (d ++ c))) (hlast : Item.rule.stop c = s) (hbare : s.IsBare)
    (hends : s = [] ∨ Item.GoesOn s) : Table.rule.stop (hs ++ (d ++ c)) = s := by
  have hclose : (Matcher.exactly .rightParen).run s = none := by
    rcases hends with rfl | ⟨t, us, rfl, -, ht⟩
    · rfl
    · refine Option.eq_none_iff_forall_ne_some.2 fun ⟨u, rest⟩ hrun => ?_
      obtain ⟨hu, hkind⟩ := (Matcher.run_exactly_eq_some_iff hbare).1 hrun
      exact ht ((List.cons.inj hu).1 ▸ hkind)
  rw [Rule.stop, h.runFrom hc]
  refine Rule.stop_bind (Item.stop_listRule hd (Cursor.isBare_append.1 hc).2 hlast hbare hends)
    fun _ => ?_
  exact Rule.stop_require_bind hclose

/-! ### Where the reading stops -/

/-- A statement that is cut off inside of a part that is read as a whole or not at all, of which the
tokens `s` are there: of its opening words, or of an item. Of the words `IF NOT EXISTS` only the
first can be read without the others, as the name of a table. -/
inductive IsTorn : Cursor → Cursor → Prop
  | opening {s : Cursor} : s.Begins (Cursor.Spells ["create", "table"]) → IsTorn [] s
  | guard {os : Cursor} {i n : Token} : os.Spells ["create", "table"] →
    i.kind.isWord "if" = true → n.kind.isWord "not" = true → IsTorn (os ++ [i]) [n]
  | item {name : QualifiedName} {hs row d s : Cursor} : IsHead name hs →
    row.Row (Cursor.WithComma fun ts => ∃ i : Item, i.IsReadFrom ts) → Item.IsTorn d s →
      IsTorn (hs ++ (row ++ d)) s

/-- A phrase is longer than its beginning. -/
theorem run_phrase_of_lt (ws : List String) (hc : c.IsBare) (h : c.length < ws.length) :
    (Matcher.phrase ws).run c = none := by
  refine Option.eq_none_iff_forall_ne_some.2 fun ⟨_, rest⟩ hrun => ?_
  obtain ⟨d, rfl, hd⟩ := (Matcher.run_phrase_eq_some_iff hc).1 hrun
  rw [List.length_append, hd.length_eq] at h
  omega

/-- A statement that is cut off inside of a part is read up to the beginning of that part. -/
theorem IsTorn.stop (h : IsTorn d s) (hc : Cursor.IsBare (d ++ s)) :
    Table.rule.stop (d ++ s) = s := by
  have hs := (Cursor.isBare_append.1 hc).2
  cases h with
  | opening h =>
      obtain ⟨-, x, hx, hspells⟩ := h
      have hlt : s.length < ["create", "table"].length := by
        have hlength := hspells.length_eq
        have hpos := List.length_pos_iff.2 hx
        rw [List.length_append] at hlength
        omega
      rw [List.nil_append, Table.rule]
      exact Rule.stop_require_bind (run_phrase_of_lt _ hs hlt)
  | @guard os i n hos hi hn =>
      rw [List.append_assoc, List.singleton_append] at hc ⊢
      have hbehind := (Cursor.isBare_append.1 hc).2
      have hguard := Rule.runFrom_allow_of_none
        (run_phrase_of_lt ["if", "not", "exists"] hbehind (by simp))
      obtain ⟨v, hv⟩ := Kind.exists_of_isWord hi
      obtain ⟨w, hw⟩ := Kind.exists_of_isWord hn
      have hname : QualifiedName.IsSpelledBy ⟨none, v⟩ [i] := .bare (by rw [hv]; rfl)
      have hparen : (Matcher.mark .leftParen).run [n] = none := by
        rw [Matcher.run_mark_cons hs, hw]
        rfl
      rw [Rule.stop, runFrom_opening hos hc, behindOpening, Rule.runFrom_bind_of_ok hguard,
        ← List.singleton_append, runFrom_name hname hbehind (by simp [hw]),
        Rule.runFrom_bind_of_error (Rule.runFrom_require_of_none hparen)]
  | item hhead hrow htorn =>
      rw [List.append_assoc, List.append_assoc] at hc ⊢
      have hbody := (Cursor.isBare_append.1 (Cursor.isBare_append.1 hc).2).2
      exact hhead.stop hrow hc (htorn.stop hbody) hs (.inr (htorn.goesOn hs))

/-! ### Where a statement can be cut -/

/-- What is left of the words `IF NOT EXISTS` is read to its end, or it is `IF NOT`. -/
theorem stop_or_isTorn_of_guard {os : Cursor} (hos : os.Spells ["create", "table"])
    (h : Cursor.Spells ["if", "not", "exists"] (q ++ x)) (hx : x ≠ [])
    (hc : Cursor.IsBare (os ++ q)) :
    Table.rule.stop (os ++ q) = [] ∨ ∃ d s, os ++ q = d ++ s ∧ IsTorn d s := by
  have hlength := h.length_eq
  have hpos := List.length_pos_iff.2 hx
  rw [List.length_append] at hlength
  have hq := (Cursor.isBare_append.1 hc).2
  have hguard := Rule.runFrom_allow_of_none
    (run_phrase_of_lt ["if", "not", "exists"] hq (by omega))
  have hopening : Table.rule.stop (os ++ q) = behindGuard.stop q := by
    rw [Rule.stop, runFrom_opening hos hc, behindOpening, Rule.runFrom_bind_of_ok hguard, Rule.stop]
  -- two of the three words are there at most
  rcases q with _ | ⟨i, _ | ⟨n, _ | ⟨e, q⟩⟩⟩
  · exact .inl hopening
  · obtain ⟨hi, -⟩ := List.forall₂_cons.1 h
    obtain ⟨v, hv⟩ := Kind.exists_of_isWord hi
    have hname : QualifiedName.IsSpelledBy ⟨none, v⟩ [i] := .bare (by rw [hv]; rfl)
    left
    rw [hopening, Rule.stop, ← List.append_nil [i],
      runFrom_name hname (by simpa using hq) (by simp)]
    rfl
  · obtain ⟨hi, htail⟩ := List.forall₂_cons.1 h
    obtain ⟨hn, -⟩ := List.forall₂_cons.1 htail
    exact .inr ⟨os ++ [i], [n], by simp, .guard hos hi hn⟩
  · simp only [List.length_cons, List.length_nil] at hlength
    omega

/-- What is left of the name of a statement is read to its end. -/
theorem stop_of_name {os gs : Cursor} (hos : os.Spells ["create", "table"])
    (hgs : gs = [] ∨ gs.Spells ["if", "not", "exists"]) (h : name.IsSpelledBy (q ++ x))
    (hc : Cursor.IsBare (os ++ (gs ++ q))) : Table.rule.stop (os ++ (gs ++ q)) = [] := by
  have hbehind := (Cursor.isBare_append.1 hc).2
  have hq := (Cursor.isBare_append.1 hbehind).2
  have hguard : ∃ o, (Rule.allow (Matcher.phrase ["if", "not", "exists"])).runFrom (gs ++ q)
      = (.ok o, q) := by
    rcases hgs with rfl | hgs
    · rw [List.nil_append]
      refine ⟨none, Rule.runFrom_allow_of_none ?_⟩
      by_cases hx : x = []
      · have hname : name.IsSpelledBy q := by rwa [hx, List.append_nil] at h
        have hnone := run_guard_eq_none (x := []) (by rwa [List.append_nil]) hname (by simp)
        rwa [List.append_nil] at hnone
      · have hpos := List.length_pos_iff.2 hx
        have hlength := h.length_le
        rw [List.length_append] at hlength
        exact run_phrase_of_lt _ hq (by simp only [List.length_cons, List.length_nil]; omega)
    · exact ⟨some (), Rule.runFrom_allow_eq_ok_iff.2
        (.inr ⟨(), rfl, (Matcher.run_phrase_eq_some_iff hbehind).2 ⟨gs, rfl, hgs⟩⟩)⟩
  obtain ⟨o, hguard⟩ := hguard
  rw [Rule.stop, runFrom_opening hos hc, behindOpening, Rule.runFrom_bind_of_ok hguard]
  exact Rule.stop_bind (h.stop_of_append hq) fun _ => rfl

/-- What is left of the body of a statement is read to its end, or it is cut off inside of a part of
an item. -/
theorem IsHead.stop_or_isTorn {hs b : Cursor} {items : List Item} (h : IsHead name hs)
    (hb : b.IsBalanced) (hall : List.Forall₂ (fun s i => i.IsReadFrom s) b.pieces items)
    (hcut : b = q ++ x) (hc : Cursor.IsBare (hs ++ b)) :
    Table.rule.stop (hs ++ q) = [] ∨ ∃ d s, hs ++ q = d ++ s ∧ IsTorn d s := by
  subst hcut
  have hbody := (Cursor.isBare_append.1 hc).2
  have hc' : Cursor.IsBare (hs ++ q) := by
    rw [← List.append_assoc] at hc
    exact (Cursor.isBare_append.1 hc).1
  by_cases hnil : q ++ x = []
  · obtain ⟨rfl, -⟩ := List.append_eq_nil_iff.1 hnil
    exact .inl (h.stop (d := []) .nil hc' rfl Cursor.isBare_nil (.inl rfl))
  rw [Cursor.pieces, if_neg (by rwa [List.isEmpty_iff])] at hall
  have hitems : ∀ s ∈ (q ++ x).piecesFrom 0, ∃ i : Item, i.IsReadFrom s := fun s hs =>
    (exists_of_forall₂ hall.flip s hs).imp fun _ => And.right
  obtain ⟨hjoined, -⟩ := (Cursor.joined_segments_iff hbody).2 ⟨hb, rfl⟩
  obtain ⟨row, p, y, rfl, hrow, hmem⟩ := hjoined.exists_row rfl hitems
  obtain ⟨i, hi⟩ := hitems _ hmem
  have hpiece : Cursor.IsBare (p ++ y) := fun t ht =>
    hbody t (Cursor.mem_of_mem_piecesFrom hmem ht)
  rcases hi.stop_or_isTorn hpiece with hstop | ⟨d, s, rfl, htorn⟩
  · exact .inl (h.stop hrow hc' hstop Cursor.isBare_nil (.inl rfl))
  · exact .inr ⟨hs ++ (row ++ d), s, by simp only [List.append_assoc], .item h hrow htorn⟩

/-- A statement that is cut off in front of its closing parenthesis is read to the end of its
tokens, or it is cut off inside of a part. -/
theorem Layout.stop_or_isTorn (l : Layout c) {items : List Item}
    (hall : List.Forall₂ (fun s i => i.IsReadFrom s) l.body.pieces items)
    (hcut : l.opening ++ (l.guard ++ (l.naming ++ l.paren :: l.body)) = q ++ x)
    (hc : Cursor.IsBare (q ++ x)) :
    Table.rule.stop q = [] ∨ ∃ d s, q = d ++ s ∧ IsTorn d s := by
  have hq := (Cursor.isBare_append.1 hc).1
  -- the cut is in the opening words, in the words behind them, in the name or in the body
  rcases Cursor.exists_of_append_eq_append hcut with ⟨y, hy, h⟩ | ⟨q₁, rfl, h₁⟩
  · by_cases hnil : q = []
    · rw [hnil]
      exact .inl rfl
    · exact .inr ⟨[], q, rfl, .opening ⟨hnil, y, hy, h ▸ l.opening_spells⟩⟩
  rcases Cursor.exists_of_append_eq_append h₁ with ⟨y, hy, h⟩ | ⟨q₂, rfl, h₂⟩
  · obtain hguard | hguard := l.guard_spells
    · exact absurd (List.append_eq_nil_iff.1 (h.symm.trans hguard)).2 hy
    · exact stop_or_isTorn_of_guard l.opening_spells (h ▸ hguard) hy hq
  rcases Cursor.exists_of_append_eq_append h₂ with ⟨y, hy, h⟩ | ⟨q₃, rfl, h₃⟩
  · exact .inl (stop_of_name l.opening_spells l.guard_spells (h ▸ l.naming_spells) hq)
  cases q₃ with
  | nil =>
      rw [List.append_nil] at hq ⊢
      have hname : l.name.IsSpelledBy (l.naming ++ []) := by
        rw [List.append_nil]
        exact l.naming_spells
      exact .inl (stop_of_name l.opening_spells l.guard_spells hname hq)
  | cons paren q₄ =>
      obtain ⟨rfl, hbody⟩ := List.cons.inj h₃
      have hhead := IsHead.mk l.opening_spells l.guard_spells l.naming_spells l.paren_kind
      have happend (b : Cursor) : l.opening ++ (l.guard ++ (l.naming ++ l.paren :: b))
          = l.opening ++ (l.guard ++ (l.naming ++ [l.paren])) ++ b := by
        simp only [List.append_assoc, List.singleton_append]
      rw [← hcut, happend] at hc
      rw [happend]
      exact hhead.stop_or_isTorn l.body_balanced hall hbody hc

variable {text u : String} {options : Options}

end Table

end CreateTable
