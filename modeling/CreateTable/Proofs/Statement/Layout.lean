import CreateTable.Proofs.Grammar.Pieces
import CreateTable.Proofs.Grammar.Significant

/-!
# The layout of a statement

A statement is laid out as opening words, a name, and a body in parentheses. Splitting the body
at its commas gives the items: each piece is read completely, as a key clause or as a column.

## Main definitions

* `QualifiedName.IsSpelledBy`: the tokens of a name with or without a schema.
* `Item.IsReadFrom`: the item that a piece of the body is.
* `Table.Layout`: the parts of a statement.

## Main statements

* `QualifiedName.exists_isSpelledBy`, `QualifiedName.IsSpelledBy.runFrom`,
  `Item.listRule_eq_ok_iff`: the parts.
* `Table.runFrom_eq_ok_iff`: the rule of statements reads the layouts.
* `Table.ofText_eq_ok_iff`: the texts that describe a table.
-/

namespace CreateTable

/-! ### Names -/

/-- The tokens that **spell** the name of a table: one word, or two with a period between them.
-/
inductive QualifiedName.IsSpelledBy : QualifiedName → Cursor → Prop
  | bare {t : Token} {name : String} : t.kind.name? = some name → IsSpelledBy ⟨none, name⟩ [t]
  | qualified {t p u : Token} {schema name : String} :
    t.kind.name? = some schema → p.kind = .period → u.kind.name? = some name →
      IsSpelledBy ⟨some schema, name⟩ [t, p, u]

/-- The tokens of a name that was read spell it. -/
theorem QualifiedName.exists_isSpelledBy {e : Expectation} {c rest : Cursor} {q : QualifiedName}
    (hc : c.IsBare) (h : (QualifiedName.rule e).runFrom c = (.ok q, rest)) :
    ∃ d, c = d ++ rest ∧ q.IsSpelledBy d := by
  simp only [QualifiedName.rule, Rule.runFrom_bind_eq_ok_iff, Rule.runFrom_require_eq_ok_iff,
    Rule.runFrom_allow_eq_ok_iff, Matcher.run_identifier_eq_some_iff hc] at h
  obtain ⟨first, behind, ⟨t, rfl, ht⟩, _, mid, ⟨rfl, -, rfl⟩ | ⟨⟨⟩, rfl, hmark⟩, h⟩ := h
  · obtain ⟨rfl, rfl⟩ := Rule.runFrom_pure_eq_ok_iff.1 h
    exact ⟨[t], rfl, .bare ht⟩
  · have hbehind := (Cursor.isBare_cons.1 hc).2
    obtain ⟨p, rfl, hp⟩ := (Matcher.run_mark_eq_some_iff hbehind).1 hmark
    simp only [Rule.runFrom_bind_eq_ok_iff, Rule.runFrom_require_eq_ok_iff,
      Rule.runFrom_pure_eq_ok_iff,
      Matcher.run_identifier_eq_some_iff (Cursor.isBare_cons.1 hbehind).2] at h
    obtain ⟨second, _, ⟨u, rfl, hu⟩, rfl, rfl⟩ := h
    exact ⟨[t, p, u], rfl, .qualified ht hp hu⟩

/-- A name is read from the tokens that spell it, unless a period goes on with it. -/
theorem QualifiedName.IsSpelledBy.runFrom {e : Expectation} {d rest : Cursor} {q : QualifiedName}
    (hd : q.IsSpelledBy d) (hc : Cursor.IsBare (d ++ rest))
    (hrest : ∀ t ∈ rest.head?, t.kind ≠ .period) :
    (QualifiedName.rule e).runFrom (d ++ rest) = (.ok q, rest) := by
  simp only [QualifiedName.rule, Rule.runFrom_bind_eq_ok_iff, Rule.runFrom_require_eq_ok_iff,
    Rule.runFrom_allow_eq_ok_iff, Matcher.run_identifier_eq_some_iff hc]
  cases hd with
  | @bare t name ht =>
      refine ⟨name, rest, ⟨t, rfl, ht⟩, none, rest, .inl ⟨rfl, ?_, rfl⟩, rfl⟩
      refine Option.eq_none_iff_forall_ne_some.2 fun ⟨u, next⟩ h => ?_
      obtain ⟨p, rfl, hp⟩ := (Matcher.run_mark_eq_some_iff (Cursor.isBare_append.1 hc).2).1 h
      exact hrest p rfl hp
  | @qualified t p u schema name ht hp hu =>
      change Cursor.IsBare (t :: p :: u :: rest) at hc
      have hbehind := (Cursor.isBare_cons.1 hc).2
      refine ⟨schema, p :: u :: rest, ⟨t, rfl, ht⟩, some (), u :: rest, .inr ⟨(), rfl, ?_⟩, ?_⟩
      · exact (Matcher.run_mark_eq_some_iff hbehind).2 ⟨p, rfl, hp⟩
      · simp only [Rule.runFrom_bind_eq_ok_iff, Rule.runFrom_require_eq_ok_iff,
          Rule.runFrom_pure_eq_ok_iff,
          Matcher.run_identifier_eq_some_iff (Cursor.isBare_cons.1 hbehind).2]
        exact ⟨name, rest, ⟨u, rfl, hu⟩, rfl, rfl⟩

/-! ### Items -/

/-- The item that the tokens `s` are when they are read to their end: a key clause if they open
one, and otherwise a column. -/
inductive Item.IsReadFrom (s : Cursor) : Item → Prop
  | key {k : Key} : Key.opensAt s = true → Key.rule.runFrom s = (.ok k, []) →
    IsReadFrom s (.key k)
  | column {c : Column} : Key.opensAt s = false → Column.rule.runFrom s = (.ok c, []) →
    IsReadFrom s (.column c)

/-- An item is given to the rule of key clauses or to that of columns, as its first tokens tell. -/
theorem Item.rule_eq_ok_iff {c rest : Cursor} {i : Item} :
    Item.rule.runFrom c = (.ok i, rest) ↔
      (∃ k, Key.opensAt c = true ∧ Key.rule.runFrom c = (.ok k, rest) ∧ i = .key k) ∨
        ∃ column, Key.opensAt c = false ∧ Column.rule.runFrom c = (.ok column, rest) ∧
          i = .column column := by
  simp only [Item.rule, Rule.runFrom_bind_eq_ok_iff, Rule.runFrom_look_eq_ok_iff]
  constructor
  · rintro ⟨b, _, ⟨hopens, rfl⟩, h⟩
    cases b with
    | true =>
        obtain ⟨k, hread, rfl⟩ := Rule.runFrom_map_eq_ok_iff.1 h
        exact .inl ⟨k, hopens, hread, rfl⟩
    | false =>
        obtain ⟨column, hread, rfl⟩ := Rule.runFrom_map_eq_ok_iff.1 h
        exact .inr ⟨column, hopens, hread, rfl⟩
  · rintro (⟨k, hopens, hread, rfl⟩ | ⟨column, hopens, hread, rfl⟩)
    · exact ⟨true, c, ⟨hopens, rfl⟩, Rule.runFrom_map_eq_ok_iff.2 ⟨_, hread, rfl⟩⟩
    · exact ⟨false, c, ⟨hopens, rfl⟩, Rule.runFrom_map_eq_ok_iff.2 ⟨_, hread, rfl⟩⟩

/-- The tokens are read to their end as an item exactly if the rule of an item says so. -/
theorem Item.isReadFrom_iff {s : Cursor} {i : Item} :
    i.IsReadFrom s ↔ Item.rule.runFrom s = (.ok i, []) := by
  rw [Item.rule_eq_ok_iff]
  constructor
  · rintro (⟨hopens, hread⟩ | ⟨hopens, hread⟩)
    · exact .inl ⟨_, hopens, hread, rfl⟩
    · exact .inr ⟨_, hopens, hread, rfl⟩
  · rintro (⟨k, hopens, hread, rfl⟩ | ⟨column, hopens, hread, rfl⟩)
    · exact .key hopens hread
    · exact .column hopens hread

/-- An item is read from a segment. -/
theorem Item.IsReadFrom.isSegment {s : Cursor} {i : Item} (h : i.IsReadFrom s) (hs : s.IsBare) :
    s.IsSegment := by
  obtain ⟨d, heq, hsegment⟩ := Rule.exists_prefix hs (Simulation.obeys_item _) (isReadFrom_iff.1 h)
  rw [List.append_nil] at heq
  rwa [heq]

/-- There is no empty item. -/
theorem Item.not_isReadFrom_nil {i : Item} : ¬ i.IsReadFrom [] := by
  rintro (⟨hopens, -⟩ | ⟨-, hread⟩)
  · exact absurd hopens (by decide)
  · simp only [Column.rule, Rule.runFrom_bind_eq_ok_iff, Rule.runFrom_require_eq_ok_iff,
      Matcher.run_identifier_eq_some_iff Cursor.isBare_nil] at hread
    obtain ⟨_, _, ⟨t, ht, -⟩, -⟩ := hread
    cases ht

/-- The kind of the next significant token is that of the first one. -/
theorem Cursor.atKind_cons {t : Token} (c : Cursor) (ht : t.isTrivia = false) (k : Kind) :
    atKind (t :: c) 0 k = (t.kind == k) := by
  rw [atKind, peek_cons c ht, Option.any_some]

/-- No balanced row starts with a closing parenthesis. -/
theorem Cursor.IsBalanced.head_ne {t : Token} {b : Cursor} (h : IsBalanced (t :: b)) :
    t.kind ≠ .rightParen := by
  intro ht
  simp [IsBalanced, ht, Kind.nesting?] at h

/-- The items of a body are read up to a closing parenthesis exactly if the tokens before it are
balanced and each of their pieces is an item. -/
theorem Item.listRule_eq_ok_iff {c rest : Cursor} {close : Token} {items : List Item}
    (hc : c.IsBare) (hclose : close.kind = .rightParen) :
    Item.listRule.runFrom c = (.ok items, close :: rest) ↔
      ∃ b, c = b ++ close :: rest ∧ b.IsBalanced ∧
        List.Forall₂ (fun s i => i.IsReadFrom s) b.pieces items := by
  have hsep : ∀ {items : List Item},
      Rule.separatedFrom (Matcher.mark .comma) Item.rule c = (.ok items, close :: rest) ↔
        ∃ b, c = b ++ close :: rest ∧ b.IsBalanced ∧
          List.Forall₂ (fun s i => i.IsReadFrom s) (b.piecesFrom 0) items := by
    simp only [Item.isReadFrom_iff]
    exact Rule.separatedFrom_eq_ok_iff (fun S => S.obeys_item) (fun _ _ => Item.Alike.eq) hc hclose
  simp only [Item.listRule, Rule.runFrom_bind_eq_ok_iff, Rule.runFrom_look_eq_ok_iff]
  constructor
  · rintro ⟨b, _, ⟨hnext, rfl⟩, h⟩
    cases b with
    | true =>
        obtain ⟨rfl, rfl⟩ := Rule.runFrom_pure_eq_ok_iff.1 h
        exact ⟨[], rfl, rfl, .nil⟩
    | false =>
        obtain ⟨b, rfl, hbalanced, hall⟩ := hsep.1 h
        cases b with
        | nil =>
            obtain ⟨i, _, hread, -⟩ := List.forall₂_cons_left_iff.1 hall
            exact absurd hread Item.not_isReadFrom_nil
        | cons t b => exact ⟨t :: b, rfl, hbalanced, hall⟩
  · rintro ⟨b, rfl, hbalanced, hall⟩
    cases b with
    | nil =>
        obtain rfl := List.forall₂_nil_left_iff.1 hall
        refine ⟨true, close :: rest, ⟨?_, rfl⟩, rfl⟩
        rw [List.nil_append, Cursor.atKind_cons rest (hc close (by simp)), hclose]
        rfl
    | cons t b =>
        refine ⟨false, t :: b ++ close :: rest, ⟨?_, rfl⟩, hsep.2 ⟨t :: b, rfl, hbalanced, hall⟩⟩
        rw [List.cons_append, Cursor.atKind_cons _ (hc t (by simp))]
        exact beq_false_of_ne hbalanced.head_ne

/-- Every element of the second row has a partner in the first. -/
theorem exists_of_forall₂ {α β : Type} {R : α → β → Prop} {as : List α} {bs : List β}
    (h : List.Forall₂ R as bs) : ∀ b ∈ bs, ∃ a ∈ as, R a b := by
  induction h with
  | nil => simp
  | cons hab _ ih =>
      rw [List.forall_mem_cons]
      refine ⟨⟨_, List.mem_cons_self, hab⟩, fun b hb => ?_⟩
      obtain ⟨a, ha, h⟩ := ih b hb
      exact ⟨a, List.mem_cons_of_mem _ ha, h⟩

/-! ### Statements -/

namespace Table

/-- The **layout** of a statement at the start of the tokens `c`: the words `CREATE TABLE`, which
may go on with `IF NOT EXISTS`, the name, and the body between a parenthesis and its partner. -/
structure Layout (c : Cursor) where
  opening : Cursor
  /-- The words `IF NOT EXISTS`, if they are there. -/
  guard : Cursor
  naming : Cursor
  paren : Token
  body : Cursor
  close : Token
  rest : Cursor
  /-- The name that `naming` spells. -/
  name : QualifiedName
  tokens_eq : c = opening ++ (guard ++ (naming ++ paren :: (body ++ close :: rest)))
  opening_spells : opening.Spells ["create", "table"]
  guard_spells : guard = [] ∨ guard.Spells ["if", "not", "exists"]
  naming_spells : name.IsSpelledBy naming
  paren_kind : paren.kind = .leftParen
  body_balanced : body.IsBalanced
  close_kind : close.kind = .rightParen

/-- The items of a statement are made of its tokens. -/
theorem Layout.mem_of_mem_pieces {c s : Cursor} {t : Token} (l : Layout c) (hs : s ∈ l.body.pieces)
    (ht : t ∈ s) : t ∈ c := by
  rw [l.tokens_eq]
  simp [Cursor.mem_of_mem_pieces hs ht]

/-- A name does not begin with the words `IF NOT EXISTS`, since its second token, if it has one, is
a period; and what follows a name of one token does not go on with them. -/
theorem run_guard_eq_none {d x : Cursor} {q : QualifiedName} (hc : Cursor.IsBare (d ++ x))
    (hd : q.IsSpelledBy d) (hx : ∀ t ∈ x.head?, t.kind.isWord "not" = false) :
    (Matcher.phrase ["if", "not", "exists"]).run (d ++ x) = none := by
  refine Option.eq_none_iff_forall_ne_some.2 fun ⟨_, rest⟩ h => ?_
  obtain ⟨f, hf, hspells⟩ := (Matcher.run_phrase_eq_some_iff hc).1 h
  obtain ⟨v₁, _, -, htail, rfl⟩ := List.forall₂_cons_left_iff.1 hspells
  obtain ⟨v₂, _, hword, -, rfl⟩ := List.forall₂_cons_left_iff.1 htail
  cases hd with
  | bare =>
      have heq : x = v₂ :: _ := (List.cons.inj hf).2
      have hnot := hx v₂ (by rw [heq]; rfl)
      rw [hword] at hnot
      cases hnot
  | qualified _ hp _ =>
      have heq : _ = v₂ := (List.cons.inj (List.cons.inj hf).2).1
      rw [← heq, hp] at hword
      cases hword

/-- The words `IF NOT EXISTS` are taken or not there. -/
theorem exists_guard {c rest : Cursor} {o : Option Unit} (hc : c.IsBare)
    (h : (Rule.allow (Matcher.phrase ["if", "not", "exists"])).runFrom c = (.ok o, rest)) :
    ∃ guard, c = guard ++ rest ∧ (guard = [] ∨ guard.Spells ["if", "not", "exists"]) := by
  rcases Rule.runFrom_allow_eq_ok_iff.1 h with ⟨-, -, rfl⟩ | ⟨_, -, hphrase⟩
  · exact ⟨[], rfl, .inl rfl⟩
  · obtain ⟨guard, rfl, hspells⟩ := (Matcher.run_phrase_eq_some_iff hc).1 hphrase
    exact ⟨guard, rfl, .inr hspells⟩

/-- In front of a name the words `IF NOT EXISTS` are taken if they are there. -/
theorem allow_guard {guard d x : Cursor} {q : QualifiedName}
    (hc : Cursor.IsBare (guard ++ (d ++ x)))
    (hguard : guard = [] ∨ guard.Spells ["if", "not", "exists"]) (hd : q.IsSpelledBy d)
    (hx : ∀ t ∈ x.head?, t.kind.isWord "not" = false) :
    ∃ o, (Rule.allow (Matcher.phrase ["if", "not", "exists"])).runFrom (guard ++ (d ++ x))
      = (.ok o, d ++ x) := by
  simp only [Rule.runFrom_allow_eq_ok_iff]
  rcases hguard with rfl | hguard
  · exact ⟨none, .inl ⟨rfl, run_guard_eq_none (d := d) hc hd hx, rfl⟩⟩
  · exact ⟨some (), .inr ⟨(), rfl, (Matcher.run_phrase_eq_some_iff hc).2 ⟨guard, rfl, hguard⟩⟩⟩

/-- The rule of statements reads the tokens that are laid out as a statement whose pieces are
items. -/
theorem runFrom_eq_ok_iff {c rest : Cursor} {t : Table} {close : Token} (hc : c.IsBare) :
    Table.rule.runFrom c = (.ok (t, close), rest) ↔
      ∃ (l : Layout c) (items : List Item), l.close = close ∧ l.rest = rest ∧
        List.Forall₂ (fun s i => i.IsReadFrom s) l.body.pieces items ∧
        t = ofItems l.name items := by
  simp only [Table.rule, Rule.runFrom_bind_eq_ok_iff, Rule.runFrom_require_eq_ok_iff,
    Rule.runFrom_pure_eq_ok_iff, Prod.mk.injEq]
  constructor
  · rintro ⟨_, c₁, hopening, _, c₂, hguard, name, c₃, hname, _, c₄, hparen, items, c₅, hitems,
      close, rest, hclose, ⟨rfl, rfl⟩, rfl⟩
    obtain ⟨opening, rfl, hopens⟩ := (Matcher.run_phrase_eq_some_iff hc).1 hopening
    have hc₁ := (Cursor.isBare_append.1 hc).2
    obtain ⟨guard, rfl, hguards⟩ := exists_guard hc₁ hguard
    have hc₂ := (Cursor.isBare_append.1 hc₁).2
    obtain ⟨naming, rfl, hspells⟩ := QualifiedName.exists_isSpelledBy hc₂ hname
    have hc₃ := (Cursor.isBare_append.1 hc₂).2
    obtain ⟨paren, rfl, hkind⟩ := (Matcher.run_mark_eq_some_iff hc₃).1 hparen
    have hc₄ := (Cursor.isBare_cons.1 hc₃).2
    -- that the items end at the parenthesis is only known from behind it
    obtain ⟨body, rfl, -⟩ := Rule.exists_prefix hc₄ (Simulation.obeys_itemList (n := 0) _) hitems
    have hc₅ := (Cursor.isBare_append.1 hc₄).2
    obtain ⟨rfl, hclosekind⟩ := (Matcher.run_exactly_eq_some_iff hc₅).1 hclose
    obtain ⟨body', hbody, hbalanced, hall⟩ := (Item.listRule_eq_ok_iff hc₄ hclosekind).1 hitems
    obtain rfl := List.append_cancel_right hbody
    exact ⟨⟨opening, guard, naming, paren, body, close, rest, name, rfl, hopens, hguards, hspells,
      hkind, hbalanced, hclosekind⟩, items, rfl, rfl, hall, rfl⟩
  · rintro ⟨l, items, rfl, rfl, hall, rfl⟩
    obtain ⟨opening, guard, naming, paren, body, close, rest, name, rfl, hopens, hguards, hspells,
      hkind, hbalanced, hclosekind⟩ := l
    have hc₁ := (Cursor.isBare_append.1 hc).2
    have hc₂ := (Cursor.isBare_append.1 hc₁).2
    have hc₃ := (Cursor.isBare_append.1 hc₂).2
    have hc₄ := (Cursor.isBare_cons.1 hc₃).2
    have hc₅ := (Cursor.isBare_append.1 hc₄).2
    have hopening := (Matcher.run_phrase_eq_some_iff (u := ()) hc).2 ⟨opening, rfl, hopens⟩
    obtain ⟨o, hguard⟩ := allow_guard hc₁ hguards hspells (by simp [hkind, Kind.isWord])
    have hname := hspells.runFrom (e := .tableName) hc₂ (by simp [hkind])
    have hparen := (Matcher.run_mark_eq_some_iff (u := ()) hc₃).2 ⟨paren, rfl, hkind⟩
    have hitems := (Item.listRule_eq_ok_iff hc₄ hclosekind).2 ⟨body, rfl, hbalanced, hall⟩
    have hclose := (Matcher.run_exactly_eq_some_iff hc₅).2 ⟨rfl, hclosekind⟩
    exact ⟨(), _, hopening, o, _, hguard, name, _, hname, (), _, hparen, items, _, hitems, close,
      rest, hclose, ⟨rfl, rfl⟩, rfl⟩

/-- Every item is a column or a key of the table. -/
theorem length_ofItems (q : QualifiedName) (items : List Item) :
    (ofItems q items).columns.length + (ofItems q items).keys.length = items.length := by
  induction items with
  | nil => rfl
  | cons i items ih =>
      simp only [ofItems, List.filterMap_cons, List.length_cons] at ih ⊢
      cases i with
      | column c =>
          simp only [Item.column?, Item.key?, List.length_cons]
          omega
      | key k =>
          simp only [Item.column?, Item.key?, List.length_cons]
          omega

/-- A text describes a table exactly if its significant tokens begin with a statement whose body
splits into items. The columns and the keys are those items in their order, and none is lost. -/
theorem ofText_eq_ok_iff {text : String} {options : Options} {t : Table} :
    Table.ofText text options = .ok t ↔
      ∃ (l : Layout (significantTokens text)) (items : List Item),
        List.Forall₂ (fun s i => i.IsReadFrom s) l.body.pieces items ∧
        t.name = l.name ∧ t.columns = items.filterMap Item.column? ∧
        t.keys = items.filterMap Item.key? ∧
        t.comment = (Session.ofText text options).commentBehind l.close ∧
        t.columns.length + t.keys.length = l.body.pieces.length := by
  rw [ofText_eq_ok_iff_rule]
  simp only [runFrom_eq_ok_iff (isBare_significantTokens text)]
  constructor
  · rintro ⟨_, _, _, ⟨l, items, rfl, rfl, hall, rfl⟩, rfl⟩
    exact ⟨l, items, hall, rfl, rfl, rfl, rfl, by
      rw [hall.length_eq]; exact length_ofItems l.name items⟩
  · rintro ⟨l, items, hall, hname, hcolumns, hkeys, hcomment, -⟩
    refine ⟨ofItems l.name items, l.close, l.rest, ⟨l, items, rfl, rfl, hall, rfl⟩, ?_⟩
    obtain ⟨name, columns, keys, comment⟩ := t
    simp_all [ofItems]

end Table

end CreateTable
