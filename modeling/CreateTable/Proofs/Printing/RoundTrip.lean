import CreateTable.Proofs.Printing.Column
import CreateTable.Proofs.Printing.Key
import CreateTable.Proofs.Statement.Closing
import CreateTable.Proofs.Statement.Comment

/-!
# Printing and reading a table

A table that was read is printed to a statement that describes it. The printed text is cut into
tokens item by item; the items are the pieces of its body, and each of them is read as what it was
printed from.

## Main definitions

* `Item.render`: an item as it is printed.
* `Table.IsPrintable`: the tables whose names can be told from the words around them.

## Main statements

* `Item.lexesTo_render`: a printed item is read as the item.
* `Table.ofText_render`: reading, printing and reading again gives the table.
-/

namespace CreateTable

open Text Identifier

/-! ### Items -/

/-- The parts of a row without trivia have no trivia. -/
theorem Cursor.Joined.isBare {c : Cursor} {ss : List Cursor} (h : Joined c ss) (hc : c.IsBare) :
    ∀ s ∈ ss, s.IsBare := by
  induction h with
  | single s => simpa using hc
  | cons _ _ ih =>
      rw [isBare_append, isBare_cons] at hc
      exact List.forall_mem_cons.2 ⟨hc.1, ih hc.2.2⟩

namespace Item

/-- An item as it is printed. -/
def render : Item → String
  | column c => c.render
  | key k => k.render

/-- The names in an item have no backticks, and the name of a key can be told. -/
def IsPrintable : Item → Prop
  | column c => '\x60' ∉ c.name.toList
  | key k => k.IsTellable ∧ ∀ name ∈ k.names, '\x60' ∉ name.toList

/-- An item that was read is printed to tokens that are read as the item. -/
theorem IsReadFrom.lexesTo_render {i : Item} {s : Cursor} {rest : List Char} (h : i.IsReadFrom s)
    (hi : i.IsPrintable) (hs : s.IsBare) (hwritten : ∀ t ∈ s, t.kind.IsWritten)
    (hrest : Delimited rest) :
    LexesTo (fun s' => i.IsReadFrom s') ("  " ++ i.render).toList rest := by
  rw [String.toList_append]
  refine LexesTo.blank (.blank ?_ (.inl rfl)) (.inl rfl)
  cases h with
  | key hopens hread =>
      have hcomplete := Key.isComplete_of_runFrom hread
      have hprinted := Key.lexesTo_render_self hi.1.primary hcomplete hi.2 rest
      refine hprinted.imp fun ts hts hkey => ?_
      exact .key (hkey.opensAt hi.1 hcomplete hts) (hkey.runFrom hi.1.isLegible hcomplete hts)
  | column hopens hread =>
      obtain ⟨ts, hspelled, hcolumn⟩ := Column.exists_isSpelledBy hs hread
      rw [List.append_nil] at hspelled
      subst hspelled
      refine (hcolumn.lexesTo_render hwritten hi hrest).imp fun ts hts hprinted => ?_
      exact .column (hprinted.opensAt hts) (hprinted.runFrom hts)

end Item

namespace Table

/-- Items with commas between them are the pieces of what they make together. -/
theorem isReadFrom_pieces {items : List Item} {b : Cursor} {ss : List Cursor} (hb : b.IsBare)
    (hjoined : b.Joined ss) (hall : List.Forall₂ (fun i s => i.IsReadFrom s) items ss) :
    b.IsBalanced ∧ List.Forall₂ (fun s i => i.IsReadFrom s) b.pieces items := by
  have hread : List.Forall₂ (fun s i => i.IsReadFrom s) ss items := hall.flip
  have hsegments : ∀ s ∈ ss, s.IsSegment := by
    intro s hs
    obtain ⟨i, -, hi⟩ := exists_of_forall₂ hall s hs
    exact hi.isSegment (hjoined.isBare hb s hs)
  obtain ⟨hbalanced, rfl⟩ := (Cursor.joined_segments_iff hb).1 ⟨hjoined, hsegments⟩
  refine ⟨hbalanced, ?_⟩
  rw [Cursor.pieces]
  split
  · next hnil =>
    -- an empty row would have an empty item
    obtain rfl := List.isEmpty_iff.1 hnil
    obtain ⟨i, _, hi, -, -⟩ := List.forall₂_cons_left_iff.1 hread
    exact absurd hi Item.not_isReadFrom_nil
  · exact hread

/-- The body of a statement as it is printed is cut into the tokens of its items. -/
theorem lexesTo_body {items : List Item} {tail : List Char}
    (hitems : ∀ i ∈ items, ∀ rest, Delimited rest →
      LexesTo (fun s => i.IsReadFrom s) ("  " ++ i.render).toList rest) :
    LexesTo (fun b => b.IsBalanced ∧ List.Forall₂ (fun s i => i.IsReadFrom s) b.pieces items)
      (renderBody (items.map Item.render)).toList (')' :: tail) := by
  by_cases hne : items = []
  · subst hne
    exact .nil ⟨rfl, .nil⟩
  have hprinted : (renderBody (items.map Item.render)).toList
      = (",\n".intercalate (items.map fun i => "  " ++ i.render)).toList ++ ['\n'] := by
    rw [renderBody, if_neg (by simpa using hne), String.toList_append, List.map_map]
    rfl
  have hsep : ",\n".toList = [',', '\n'] := rfl
  have hrow : LexesTo _ _ (['\n'] ++ ')' :: tail) :=
    lexesTo_row hne hsep (.inr rfl) hitems (delimited_cons (by simp) _)
  have hend : LexesTo (· = []) [] (')' :: tail) := .nil rfl
  rw [hprinted]
  refine (hrow.append (hend.blank (.inr rfl))).imp fun ts hts hsplit => ?_
  obtain ⟨b, _, rfl, ⟨ss, hjoined, hall⟩, rfl⟩ := hsplit
  rw [List.append_nil] at hts ⊢
  exact isReadFrom_pieces hts hjoined hall

/-! ### Statements -/

/-- The names in a table have no backticks, and the names of its keys can be told from the words
around them. -/
structure IsPrintable (t : Table) : Prop where
  schema : ∀ schema ∈ t.name.schema, '\x60' ∉ schema.toList
  name : '\x60' ∉ t.name.name.toList
  columns : ∀ c ∈ t.columns, '\x60' ∉ c.name.toList
  keys : ∀ k ∈ t.keys, k.IsTellable ∧ ∀ name ∈ k.names, '\x60' ∉ name.toList

/-- A printed name does not begin with a digit. -/
theorem exists_toList_quote (name : String) :
    ∃ c cs, (quote name).toList = c :: cs ∧ c.isDigit = false := by
  rw [quote]
  split
  · next hplain =>
    obtain ⟨c, cs, hlist, hc, -⟩ := exists_of_isPlain hplain
    exact ⟨c, cs, hlist, hc⟩
  · refine ⟨'\x60', doubleBackticks name.toList ++ ['\x60'], ?_, rfl⟩
    simp

/-- A printed table name whose parts have no backticks is read as that name. -/
theorem lexesTo_name {q : QualifiedName} (hschema : ∀ schema ∈ q.schema, '\x60' ∉ schema.toList)
    (hname : '\x60' ∉ q.name.toList) {rest : List Char} (hrest : Delimited rest) :
    LexesTo q.IsSpelledBy q.render.toList rest := by
  obtain ⟨schema, name⟩ := q
  obtain ⟨d, tail, rfl, hd, -⟩ := hrest.exists_endsWord
  cases schema with
  | none => exact (lexesTo_quote_self hname hd tail).imp_token fun t ht => .bare ht
  | some schema =>
      have hperiod : LexesTo (Cursor.IsToken (· = .period)) ['.']
          ((quote name).toList ++ d :: tail) := by
        obtain ⟨c, cs, hlist, hc⟩ := exists_toList_quote name
        rw [hlist]
        exact lexesTo_of_scan rfl (scan_period hc (cs ++ d :: tail))
      have hpoint : EndsWord '.' := endsWord_of_mem (by simp)
      have hprinted : (QualifiedName.mk (some schema) name).render.toList
          = (quote schema).toList ++ (['.'] ++ (quote name).toList) := by
        simp [QualifiedName.render]
      rw [hprinted]
      refine ((lexesTo_quote_self (hschema schema rfl) hpoint _).append
        (hperiod.append (lexesTo_quote_self hname hd tail))).imp fun ts _ hts => ?_
      obtain ⟨_, _, rfl, ⟨t, rfl, ht⟩, _, _, rfl, ⟨p, rfl, hp⟩, u, rfl, hu⟩ := hts
      exact .qualified ht hp hu

/-- The words that open a statement, its name and its body, up to the closing parenthesis. -/
def statementChars (t : Table) : List Char :=
  "CREATE TABLE".toList ++ ' ' :: (t.name.render.toList ++ ' ' :: '(' :: '\n' ::
    (renderBody t.renderedItems).toList)

/-- A printed table is a statement up to its closing parenthesis, its comment and a semicolon. -/
theorem toList_render (t : Table) :
    t.render.toList = t.statementChars ++ ')' :: (renderComment t.comment ++ ";").toList := by
  have hopening : "CREATE TABLE ".toList = "CREATE TABLE".toList ++ [' '] := rfl
  have hparen : " (\n".toList = [' ', '(', '\n'] := rfl
  have hclose : ")".toList = [')'] := rfl
  unfold render statementChars
  simp only [String.toList_append, List.append_assoc, List.cons_append, List.nil_append, hopening,
    hparen, hclose]

/-- The items of a table in the order in which they are printed. -/
def printedItems (t : Table) : List Item :=
  t.columns.map .column ++ t.keys.map .key

/-- The items that a table prints are its columns and its keys, each one printed. -/
theorem renderedItems_eq (t : Table) : t.renderedItems = t.printedItems.map Item.render := by
  rw [renderedItems, printedItems, List.map_append, List.map_map, List.map_map]
  rfl

/-- A table is made of the items it prints, its comment aside. -/
theorem ofItems_printedItems (t : Table) :
    ofItems t.name t.printedItems = { t with comment := "" } := by
  simp [ofItems, printedItems, List.filterMap_append, List.filterMap_map, Item.column?, Item.key?,
    Function.comp_def]

/-- The tokens of a statement without guard up to its closing parenthesis. -/
def IsStatement (name : QualifiedName) (items : List Item) : Cursor → Prop :=
  Cursor.Splits (Cursor.Spells ["create", "table"]) (Cursor.Splits name.IsSpelledBy
    (Cursor.Splits (Cursor.IsToken (· = .leftParen)) fun b => b.IsBalanced ∧
      List.Forall₂ (fun s i => i.IsReadFrom s) b.pieces items))

/-- The opening words, a name and a body in parentheses are cut into the tokens of a statement. -/
theorem lexesTo_statement {name : QualifiedName} {items : List Item} {nameChars body : List Char}
    {tail : List Char}
    (hname : ∀ rest, Delimited rest → LexesTo name.IsSpelledBy nameChars rest)
    (hbody : LexesTo (fun b => b.IsBalanced ∧
      List.Forall₂ (fun s i => i.IsReadFrom s) b.pieces items) body (')' :: tail)) :
    LexesTo (IsStatement name items)
      ("CREATE TABLE".toList ++ ' ' :: (nameChars ++ ' ' :: '(' :: body)) (')' :: tail) := by
  have hopening (rest : List Char) : LexesTo (Cursor.Spells ["create", "table"])
      "CREATE TABLE".toList (' ' :: rest) := by
    have hwords : "CREATE TABLE" = " ".intercalate ["CREATE", "TABLE"] := rfl
    rw [hwords]
    exact lexesTo_phrase (by decide) (.cons rfl (.cons rfl .nil)) (delimited_cons (by simp) rest)
  have hlist := ((lexesTo_leftParen _).append hbody).blank (.inl rfl)
  have hnamed := ((hname _ (delimited_cons (by simp) _)).append hlist).blank (.inl rfl)
  exact (hopening _).append hnamed

/-- The printed text up to the closing parenthesis is cut into the tokens of a statement. -/
theorem lexesTo_statementChars {t : Table} (ht : t.IsPrintable)
    (hitems : ∀ i ∈ t.printedItems, ∀ rest, Delimited rest →
      LexesTo (fun s => i.IsReadFrom s) ("  " ++ i.render).toList rest) (tail : List Char) :
    LexesTo (IsStatement t.name t.printedItems) t.statementChars (')' :: tail) := by
  have hbody : LexesTo _ _ (')' :: tail) := lexesTo_body hitems
  rw [← renderedItems_eq] at hbody
  exact lexesTo_statement (fun _ => lexesTo_name ht.schema ht.name) (hbody.blank (.inr rfl))

/-- A text that is cut into the tokens of a statement describes the table with its items. -/
theorem ofText_of_lexesTo {name : QualifiedName} {items : List Item} {p tail : List Char}
    (h : LexesTo (IsStatement name items) p (')' :: tail)) :
    Table.ofText (String.ofList (p ++ ')' :: tail)) {}
      = .ok { ofItems name items with comment := commentOf (String.ofList tail) } := by
  obtain ⟨ts, hsplit, htokens⟩ := h Location.start
  rw [lexFrom_rightParen] at htokens
  generalize hts : ts.significant = c at hsplit
  obtain ⟨opening, _, rfl, hopening, naming, _, rfl, hnaming, _, body, rfl, ⟨paren, rfl, hparen⟩,
    hbalanced, hpieces⟩ := hsplit
  generalize hrest : (lexFrom ((Location.start.afterAll p).after ')') tail).tokens = rest at htokens
  have hsignificant : significantTokens (String.ofList (p ++ ')' :: tail)) = opening ++ ([] ++
      (naming ++ paren :: (body ++ ⟨.rightParen, Location.start.afterAll p⟩
        :: Cursor.significant rest))) := by
    rw [significantTokens, lex, String.toList_ofList, htokens, Cursor.significant,
      List.filter_append]
    rw [Cursor.significant] at hts
    rw [hts]
    simp [Cursor.significant, Token.isTrivia, Kind.isTrivia]
  have hrule := (runFrom_eq_ok_iff (isBare_significantTokens _)).2
    ⟨⟨opening, [], naming, paren, body, _, _, name, hsignificant, hopening, .inl rfl, hnaming,
      hparen, hbalanced, rfl⟩, items, rfl, rfl, hpieces, rfl⟩
  exact ofText_append rfl hrule {}

/-- A table that is made of items prints no others. -/
theorem mem_of_mem_printedItems {name : QualifiedName} {items : List Item} {comment : String}
    {i : Item} (h : i ∈ printedItems { ofItems name items with comment := comment }) :
    i ∈ items := by
  rcases List.mem_append.1 h with h | h
  · obtain ⟨c, hc, rfl⟩ := List.mem_map.1 h
    obtain ⟨j, hj, hcolumn⟩ := List.mem_filterMap.1 hc
    cases j with
    | column d =>
        obtain rfl := Option.some.inj hcolumn
        exact hj
    | key => cases hcolumn
  · obtain ⟨k, hk, rfl⟩ := List.mem_map.1 h
    obtain ⟨j, hj, hkey⟩ := List.mem_filterMap.1 hk
    cases j with
    | column => cases hkey
    | key d =>
        obtain rfl := Option.some.inj hkey
        exact hj

/-- Every item of a table that can be printed can be printed. -/
theorem IsPrintable.item {t : Table} (ht : t.IsPrintable) {i : Item} (h : i ∈ t.printedItems) :
    i.IsPrintable := by
  rcases List.mem_append.1 h with h | h
  · obtain ⟨c, hc, rfl⟩ := List.mem_map.1 h
    exact ht.columns c hc
  · obtain ⟨k, hk, rfl⟩ := List.mem_map.1 h
    exact ht.keys k hk

/-- Reading a statement, printing the table and reading it again gives the table, if its names have
no backticks and the names of its keys can be told from the words around them. -/
theorem ofText_render {text : String} {t : Table} (h : Table.ofText text {} = .ok t)
    (ht : t.IsPrintable) : Table.ofText t.render {} = .ok t := by
  obtain ⟨u, close, rest, hrule, rfl⟩ := ofText_eq_ok_iff_rule.1 h
  obtain ⟨l, items, -, -, hall, rfl⟩ := (runFrom_eq_ok_iff (isBare_significantTokens text)).1 hrule
  obtain ⟨p, tail, htext, hstart, -⟩ := exists_closing hrule
  have hcomment :
      (Session.ofText text {}).commentBehind close = commentOf (String.ofList tail) := by
    rw [← String.ofList_toList (s := text), htext, commentBehind_eq hstart]
    rfl
  rw [hcomment] at ht ⊢
  have hitems : ∀ i ∈ printedItems
      { ofItems l.name items with comment := commentOf (String.ofList tail) },
      ∀ rest, Delimited rest →
        LexesTo (fun s => i.IsReadFrom s) ("  " ++ i.render).toList rest := by
    intro i hi rest hrest
    obtain ⟨s, hs, hread⟩ := exists_of_forall₂ hall i (mem_of_mem_printedItems hi)
    have hmem : ∀ t ∈ s, t ∈ significantTokens text := fun t => l.mem_of_mem_pieces hs
    exact hread.lexesTo_render (ht.item hi)
      (fun t ht => isBare_significantTokens text t (hmem t ht))
      (fun t ht => isWritten_of_mem_significantTokens (hmem t ht)) hrest
  have hread := ofText_of_lexesTo (lexesTo_statementChars ht hitems
    (renderComment (commentOf (String.ofList tail)) ++ ";").toList)
  rw [ofItems_printedItems, String.ofList_toList, commentOf_renderComment] at hread
  rw [← hread, ← toList_render, String.ofList_toList]

/-- A table and a column that are named like the words of a key, and an index that is named like a
type. -/
theorem ofText_render_index_named_date :
    Table.ofText
          "create table `key` (`index` decimal(10,2) comment 5, key date (`index`)) comment 'c'" {}
        = .ok ⟨⟨none, "key"⟩, [⟨"index", ⟨.decimal, some "10", some "2"⟩, [], none, "5"⟩],
          [⟨.index, some "date", ["index"], none⟩], "c"⟩ ∧
      Table.ofText (Table.render ⟨⟨none, "key"⟩,
          [⟨"index", ⟨.decimal, some "10", some "2"⟩, [], none, "5"⟩],
          [⟨.index, some "date", ["index"], none⟩], "c"⟩) {}
        = .ok ⟨⟨none, "key"⟩, [⟨"index", ⟨.decimal, some "10", some "2"⟩, [], none, "5"⟩],
          [⟨.index, some "date", ["index"], none⟩], "c"⟩ := by
  have h : Table.ofText
      "create table `key` (`index` decimal(10,2) comment 5, key date (`index`)) comment 'c'" {}
      = .ok ⟨⟨none, "key"⟩, [⟨"index", ⟨.decimal, some "10", some "2"⟩, [], none, "5"⟩],
        [⟨.index, some "date", ["index"], none⟩], "c"⟩ := by
    decide +kernel
  refine ⟨h, ofText_render h ⟨by simp, by decide, by decide, ?_⟩⟩
  rw [List.forall_mem_singleton]
  exact ⟨⟨by simp, by decide, by simp⟩, by decide⟩

end Table

end CreateTable
