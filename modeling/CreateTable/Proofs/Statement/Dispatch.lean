import CreateTable.Proofs.Column.Parameters
import CreateTable.Proofs.Grammar.Progress
import CreateTable.Proofs.Key.Columns

/-!
# Which rule takes an item

The first tokens of an item tell whether it is read as a key clause or as a column. No item is both,
and every column is read as one. A key clause is read as one but for a single form: where an
unquoted name of a type stands behind its opening word and no parenthesis behind that, as in
`CONSTRAINT date PRIMARY KEY (a)`, the item is taken for a column, which it is not.

## Main definitions

* `Item.StartsAt`: the places where an item of a body is started.
* `Rule.Accepts`: a rule reads an item up to its end.

## Main statements

* `Item.rule_takes_accepted`: the rule that an item is given to, against the rules that accept it.
-/

namespace CreateTable

variable {α : Type}

/-- Reading the items of a body from `c` on, an item is **started** at `d`: at once, or behind an
item and a comma. -/
inductive Item.StartsAt : Cursor → Cursor → Prop
  | first (c : Cursor) : StartsAt c c
  | next {c e f d : Cursor} {i : Item} {u : Unit} : Item.rule.runFrom c = (.ok i, e) →
    (Matcher.mark .comma).run e = some (u, f) → StartsAt f d → StartsAt c d

/-- The rule `r`, started at `d`, **accepts** the item there: it succeeds, and stops at the next
comma outside of parentheses or at the parenthesis that closes the body. -/
structure Rule.Accepts (r : Rule α) (d : Cursor) (a : α) (e : Cursor) : Prop where
  read : r.runFrom d = (.ok a, e)
  ends : ∃ (s : Cursor) (t : Token) (rest : Cursor), d.significant = s ++ t :: rest ∧
    e.significant = t :: rest ∧ s.IsSegment ∧ (t.kind = .comma ∨ t.kind = .rightParen)

/-! ### Ends of items -/

/-- A segment is not longer than another one in front of a comma or a closing parenthesis. -/
theorem Cursor.IsSegment.eq_of_append {s s' c c' : Cursor} {t t' : Token} (hs : s.IsSegment)
    (hs' : s'.IsSegment) (ht : t.kind = .comma ∨ t.kind = .rightParen)
    (ht' : t'.kind = .comma ∨ t'.kind = .rightParen) (h : s ++ t :: c = s' ++ t' :: c') :
    s = s' := by
  have hends {s d : Cursor} {t : Token} (hs : s.IsSegment)
      (ht : t.kind = .comma ∨ t.kind = .rightParen) : ¬ (s ++ t :: d).IsSegment := by
    intro h
    rw [IsSegment, depthAfter?_append, hs, Option.bind_some, depthAfter?_cons] at h
    rcases ht with ht | ht <;> simp [ht, Kind.depth?] at h
  rcases List.append_eq_append_iff.1 h with ⟨d, rfl, hd⟩ | ⟨d, rfl, hd⟩
  · cases d with
    | nil => rw [List.append_nil]
    | cons u d =>
        obtain ⟨rfl, -⟩ := List.cons.inj hd
        exact absurd hs' (hends hs ht)
  · cases d with
    | nil => rw [List.append_nil]
    | cons u d =>
        obtain ⟨rfl, -⟩ := List.cons.inj hd
        exact absurd hs (hends hs' ht')

/-- What a rule accepts is a segment in front of the end of the item; and it is what the rule reads
things from. -/
theorem Rule.Accepts.exists_segment {r : Rule α} {d e : Cursor} {a : α} {P : Cursor → Prop}
    (h : r.Accepts d a e)
    (hr : r.runFrom d.significant = ((r.runFrom d).1, (r.runFrom d).2.significant))
    (hP : ∀ {rest}, r.runFrom d.significant = (.ok a, rest) →
      ∃ ts, d.significant = ts ++ rest ∧ P ts) :
    ∃ (s : Cursor) (t : Token) (rest : Cursor), d.significant = s ++ t :: rest ∧ P s ∧
      s.IsSegment ∧ (t.kind = .comma ∨ t.kind = .rightParen) := by
  obtain ⟨s, t, rest, hd, he, hs, ht⟩ := h.ends
  rw [h.read, he] at hr
  obtain ⟨ts, hts, hspelled⟩ := hP hr
  obtain rfl : ts = s := List.append_cancel_right (hts.symm.trans hd)
  exact ⟨ts, t, rest, hd, hspelled, hs, ht⟩

section

variable {d e : Cursor}

/-- A key that is accepted is spelled by the tokens up to the end of its item. -/
theorem Key.exists_isSpelledBy_of_accepts {key : Key} (hd : d.skipTrivia = d)
    (h : Key.rule.Accepts d key e) :
    ∃ (s : Cursor) (t : Token) (rest : Cursor), d.significant = s ++ t :: rest ∧
      key.IsSpelledBy s ∧ s.IsSegment ∧ (t.kind = .comma ∨ t.kind = .rightParen) :=
  h.exists_segment (Key.rule_significant hd).1
    (Key.exists_isSpelledBy (Cursor.isBare_significant d))

/-- A column that is accepted is spelled by the tokens up to the end of its item. -/
theorem Column.exists_isSpelledBy_of_accepts {column : Column} (hd : d.skipTrivia = d)
    (h : Column.rule.Accepts d column e) :
    ∃ (s : Cursor) (t : Token) (rest : Cursor), d.significant = s ++ t :: rest ∧
      column.IsSpelledBy s ∧ s.IsSegment ∧ (t.kind = .comma ∨ t.kind = .rightParen) :=
  h.exists_segment (Column.rule_significant hd).1
    (Column.exists_isSpelledBy (Cursor.isBare_significant d))

/-! ### Key clauses and columns -/

/-- No tokens spell a key and a column: behind the first parenthesis of a key clause stands a name,
and behind that of a column a number. -/
theorem Key.IsSpelledBy.not_column {key : Key} {column : Column} {ts : Cursor}
    (hkey : key.IsSpelledBy ts) (hcolumn : column.IsSpelledBy ts) : False := by
  obtain ⟨t, name, ht, hname⟩ := hkey.groupHead?
  have hnumber := hcolumn.groupHead? t ht
  rw [Kind.not_isNumber_of_name? hname] at hnumber
  cases hnumber

/-- No item is accepted both as a key and as a column. -/
theorem Item.not_accepted_by_both {key : Key} {column : Column} {e' : Cursor}
    (hd : d.skipTrivia = d) (hkey : Key.rule.Accepts d key e)
    (hcolumn : Column.rule.Accepts d column e') : False := by
  obtain ⟨s, t, rest, hs, hspelled, hsegment, ht⟩ := Key.exists_isSpelledBy_of_accepts hd hkey
  obtain ⟨s', t', rest', hs', hspelled', hsegment', ht'⟩ :=
    Column.exists_isSpelledBy_of_accepts hd hcolumn
  obtain rfl := hsegment.eq_of_append hsegment' ht ht' (hs.symm.trans hs')
  exact hspelled.not_column hspelled'

/-- A key clause that is accepted is told from a column unless it looks like one. -/
theorem Key.opensAt_eq_of_accepts {key : Key} (hd : d.skipTrivia = d)
    (h : Key.rule.Accepts d key e) : Key.opensAt d = !d.namesType := by
  obtain ⟨s, t, rest, hs, hspelled, -, -⟩ := Key.exists_isSpelledBy_of_accepts hd h
  have hbare := Cursor.isBare_significant d
  rw [← Key.opensAt_significant, ← Cursor.namesType_significant]
  rw [hs] at hbare ⊢
  exact hspelled.opensAt_eq hbare

/-- An item that is accepted as a column does not open a key clause. -/
theorem Column.opensAt_eq_of_accepts {column : Column} (hd : d.skipTrivia = d)
    (h : Column.rule.Accepts d column e) : Key.opensAt d = false := by
  obtain ⟨s, t, rest, hs, hspelled, -, ht⟩ := Column.exists_isSpelledBy_of_accepts hd h
  have hbare := Cursor.isBare_significant d
  rw [← Key.opensAt_significant]
  rw [hs] at hbare ⊢
  refine hspelled.opensAt_append hbare ?_
  rintro _ ⟨⟩ hparen
  simp [hparen] at ht

end

/-! ### The items of a body -/

namespace Item

/-- Behind an item and a comma the cursor has gone on. -/
theorem reaches_of_comma {c e f : Cursor} {i : Item} {u : Unit} (hc : c.skipTrivia = c)
    (hread : Item.rule.runFrom c = (.ok i, e))
    (hcomma : (Matcher.mark .comma).run e = some (u, f)) : Cursor.Reaches (0 + 1) c f := by
  have hitem := Item.rule_takes.ok hc hread
  exact hitem.trans ((Matcher.takes_exactly .comma).map hitem.trimmed hcomma)

/-- No item starts with a token that is left out. -/
theorem StartsAt.trimmed {c d : Cursor} (h : StartsAt c d) (hc : c.skipTrivia = c) :
    d.skipTrivia = d := by
  induction h with
  | first => exact hc
  | next hread hcomma _ ih => exact ih (reaches_of_comma hc hread hcomma).trimmed

/-- What is read at a place where an item is started is one of the items. -/
theorem StartsAt.mem {c d e rest : Cursor} {i : Item} {items : List Item} (h : StartsAt c d)
    (hc : c.skipTrivia = c) (hread : Item.rule.runFrom d = (.ok i, e))
    (hitems : Rule.separatedFrom (Matcher.mark .comma) Item.rule c = (.ok items, rest)) :
    i ∈ items := by
  induction h generalizing items with
  | first c =>
      rw [Rule.separatedFrom, hread] at hitems
      dsimp only at hitems
      split at hitems
      · cases hitems
        exact List.mem_singleton_self i
      split at hitems
      · split at hitems
        · cases hitems
        · cases hitems
          exact List.mem_cons_self
      · cases hitems
        exact List.mem_singleton_self i
  | @next c e' f d j u hj hcomma _ ih =>
      have hreaches := reaches_of_comma hc hj hcomma
      have hlt : f.length < c.length := by
        have hlength := hreaches.length_add_le
        omega
      rw [Rule.separatedFrom, hj] at hitems
      simp only [hcomma, hlt, if_true] at hitems
      split at hitems
      · cases hitems
      · next as stop hrow =>
        cases hitems
        exact List.mem_cons_of_mem j (ih hreaches.trimmed hread hrow)

/-- **Which rule takes an item.** Wherever an item of a body is started, it is not accepted both as
a key and as a column. A column that is accepted there is read as that column. A key that is
accepted there is read as that key, exactly if its opening word is not followed by the unquoted name
of a type and anything but a parenthesis. And what is read there is one of the items of the body. -/
theorem rule_takes_accepted {c d : Cursor} (hc : c.skipTrivia = c)
    (hopen : c.atKind 0 .rightParen = false) (hd : StartsAt c d) :
    (∀ key e column e', ¬ (Key.rule.Accepts d key e ∧ Column.rule.Accepts d column e')) ∧
    (∀ column e, Column.rule.Accepts d column e →
      Item.rule.runFrom d = (.ok (.column column), e)) ∧
    (∀ key e, Key.rule.Accepts d key e →
      (Item.rule.runFrom d = (.ok (.key key), e) ↔ d.namesType = false)) ∧
    ∀ i e items rest, Item.rule.runFrom d = (.ok i, e) →
      Item.listRule.runFrom c = (.ok items, rest) → i ∈ items := by
  have htrimmed := hd.trimmed hc
  refine ⟨?_, fun column e h => ?_, fun key e h => ?_, fun i e items rest hread hitems => ?_⟩
  · rintro key e column e' ⟨hkey, hcolumn⟩
    exact not_accepted_by_both htrimmed hkey hcolumn
  · exact rule_eq_ok_iff.2 (.inr ⟨column, Column.opensAt_eq_of_accepts htrimmed h, h.read, rfl⟩)
  · have hopens := Key.opensAt_eq_of_accepts htrimmed h
    rw [rule_eq_ok_iff]
    constructor
    · rintro (⟨_, hkey, -, -⟩ | ⟨_, -, -, hcolumn⟩)
      · rwa [hopens, Bool.not_eq_true'] at hkey
      · cases hcolumn
    · intro hnames
      rw [hnames] at hopens
      exact .inl ⟨key, hopens, h.read, rfl⟩
  · simp only [listRule, Rule.runFrom_bind_eq_ok_iff, Rule.runFrom_look_eq_ok_iff, hopen] at hitems
    obtain ⟨_, _, ⟨rfl, rfl⟩, hitems⟩ := hitems
    exact hd.mem hc hread hitems

/-- An index that is named like a type, and behind it a column that is named like a key. -/
theorem rule_takes_accepted_index_named_date :
    let c := (Session.ofText "key date (d), key varchar(10))" {}).cursor
    c.skipTrivia = c ∧ c.atKind 0 .rightParen = false ∧ StartsAt c (c.drop 9) ∧
      Item.rule.runFrom c = (.ok (.key ⟨.index, some "date", ["d"], none⟩), c.drop 7) ∧
      Item.rule.runFrom (c.drop 9)
        = (.ok (.column ⟨"key", ⟨.varChar, some "10", none⟩, [], none, ""⟩), c.drop 15) := by
  intro c
  have hc : c.skipTrivia = c := Session.ofText_cursor_trimmed _ _
  have hopen : c.atKind 0 .rightParen = false := by decide +kernel
  have hkey : Key.rule.Accepts c ⟨.index, some "date", ["d"], none⟩ (c.drop 7) := by
    refine ⟨by decide +kernel, c.significant.take 5, ⟨.comma, ⟨1, 13⟩⟩, c.significant.drop 6, ?_⟩
    unfold Cursor.IsSegment
    decide +kernel
  have hcolumn : Column.rule.Accepts (c.drop 9) ⟨"key", ⟨.varChar, some "10", none⟩, [], none, ""⟩
      (c.drop 15) := by
    refine ⟨by decide +kernel, (Cursor.significant (c.drop 9)).take 5, ⟨.rightParen, ⟨1, 30⟩⟩, [],
      ?_⟩
    unfold Cursor.IsSegment
    decide +kernel
  obtain ⟨-, -, hfirst, -⟩ := rule_takes_accepted hc hopen (.first c)
  have hread := (hfirst _ _ hkey).2 (by decide +kernel)
  have hcomma : (Matcher.mark .comma).run (c.drop 7) = some ((), c.drop 9) := by decide +kernel
  have hstart : StartsAt c (c.drop 9) := .next hread hcomma (.first (c.drop 9))
  obtain ⟨-, hsecond, -, -⟩ := rule_takes_accepted hc hopen hstart
  exact ⟨hc, hopen, hstart, hread, hsecond _ _ hcolumn⟩

/-- A primary key whose constraint is named like a type is accepted as a key and not read as one. -/
theorem rule_ne_key_constraint_named_date :
    let d := (Session.ofText "constraint date primary key (a))" {}).cursor
    Key.rule.Accepts d ⟨.primary, some "date", ["a"], none⟩ (d.drop 11) ∧
      Item.rule.runFrom d ≠ (.ok (.key ⟨.primary, some "date", ["a"], none⟩), d.drop 11) := by
  intro d
  refine ⟨⟨by decide +kernel, d.significant.take 7, ⟨.rightParen, ⟨1, 32⟩⟩, [], ?_⟩,
    by decide +kernel⟩
  unfold Cursor.IsSegment
  decide +kernel

end Item

end CreateTable
