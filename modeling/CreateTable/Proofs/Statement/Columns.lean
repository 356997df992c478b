import CreateTable.Proofs.Printing.RoundTrip
import CreateTable.Proofs.Token.Rest

/-!
# Columns alone and in a table

The text of a column describes the same column when it is read alone and when it is one of several
in the body of a table. In a table the text is cut into tokens at another place and in front of
other text, and each item has to be told from a key clause first. Where the texts of columns stand
on lines of their own, none of this makes a difference.

A text that can be cut into tokens up to its end keeps these tokens when a line feed and any other
text are put behind it. A line feed goes on with no token but two kinds of trivia: a line comment
takes it along as its end, and a carriage return makes one line break with it. The placeholder `@`
is the only other token that looks at a line feed; a text that ends with it is left out.

## Main definitions

* `InFrontOfBreak`: the token at the end of a text and the token with a line feed behind it.
* `Likeness.kinds`: tokens of the same kind, wherever they stand.

## Main statements

* `scan_append_lineFeed`: a token in front of a line feed.
* `lexesTo_append_lineFeed`: a text in front of a line feed keeps its significant tokens.
* `Column.IsSpelledBy.of_kinds`: tokens of the same kinds spell the same column.
* `Table.ofText_columns`: texts of columns make a table with these columns.
-/

namespace CreateTable

open Text

/-! ### Tokens in front of a line feed

The text is `p`, and what is put behind it is `'\n' :: tail`. -/

/-- A line comment without a line feed takes the next one along. -/
theorem lineCommentLength_append_lineFeed (p tail : List Char) :
    (lineCommentLength (p ++ '\n' :: tail) = lineCommentLength p ∧
        lineCommentLength p ≤ p.length) ∨
      (lineCommentLength (p ++ '\n' :: tail) = p.length + 1 ∧ lineCommentLength p = p.length) := by
  induction p with
  | nil => exact .inr ⟨rfl, rfl⟩
  | cons c p ih =>
      simp only [List.cons_append, lineCommentLength, List.length_cons]
      split
      · exact .inl ⟨rfl, by omega⟩
      · omega

/-- The token at the end of a text with `room` characters, and the token in its place with a line
feed behind the text: the same, or trivia that reach up to the line feed and take it along. -/
inductive InFrontOfBreak (room : Nat) : Kind × Nat → Kind × Nat → Prop
  | same {k : Kind} {n : Nat} : n ≤ room → InFrontOfBreak room (k, n) (k, n)
  | joined {k : Kind} : k.isTrivia = true → InFrontOfBreak room (k, room) (k, room + 1)

/-- A line comment of which the first `lead` characters are certain. -/
theorem inFrontOfBreak_lineComment (p tail : List Char) (lead : Nat) :
    InFrontOfBreak (p.length + lead) (.comment, lineCommentLength p + lead)
      (.comment, lineCommentLength (p ++ '\n' :: tail) + lead) := by
  rcases lineCommentLength_append_lineFeed p tail with ⟨happend, hle⟩ | ⟨happend, heq⟩
  · rw [happend]
    exact .same (Nat.add_le_add_right hle lead)
  · rw [happend, heq, Nat.add_right_comm]
    exact .joined rfl

/-- A carriage return makes one line break with a line feed behind it. -/
theorem scan_carriageReturn (cs : List Char) :
    scan '\r' cs = .ok (.blank, if cs.head? = some '\n' then 2 else 1) := by
  split
  · next h =>
    obtain ⟨cs, rfl⟩ := List.head?_eq_some_iff.1 h
    rfl
  · next h =>
    rw [scan]
    rintro tail rfl
    exact h rfl

/-- A token is the same in front of a line feed, which only trivia take along. -/
theorem scan_append_lineFeed (tail : List Char) {c : Char} {p : List Char} {x : Kind × Nat}
    (h : scan c p = .ok x) (hx : x.1.isSymbol = false) :
    ∃ y, scan c (p ++ '\n' :: tail) = .ok y ∧ InFrontOfBreak (p.length + 1) x y := by
  by_cases hbreak : c = '\r'
  · subst hbreak
    rw [scan_carriageReturn] at h ⊢
    obtain rfl := Except.ok.inj h
    refine ⟨_, rfl, ?_⟩
    cases p with
    | nil => exact .joined rfl
    | cons d p => exact .same (by rw [List.length_cons]; split <;> omega)
  by_cases hsharp : c = '#'
  · subst hsharp
    obtain rfl := Except.ok.inj h
    exact ⟨_, rfl, inFrontOfBreak_lineComment p tail 1⟩
  by_cases hdashes : c = '-' ∧ p.head? = some '-'
  · obtain ⟨rfl, hhead⟩ := hdashes
    obtain ⟨q, rfl⟩ := List.head?_eq_some_iff.1 hhead
    obtain rfl := Except.ok.inj h
    exact ⟨_, rfl, inFrontOfBreak_lineComment q tail 2⟩
  · have hlook : HasNotLooked c p x.1 := ⟨by simp [hbreak, hsharp], not_and.1 hdashes, hx⟩
    have hle := length_le_of_scan h
    rw [← List.append_nil p] at h
    exact ⟨x, scan_replace (standsApart_lineFeed tail) (.inr (.inr hlook)) h hle, .same hle⟩

/-! ### Tokens -/

/-- Tokens of the same kind, wherever they stand. -/
def Likeness.kinds : Likeness where
  token t u := t.kind = u.kind
  word := Likeness.exact.word
  word_refl := Likeness.exact.word_refl
  word_append := Likeness.exact.word_append
  foldCase_eq := Likeness.exact.foldCase_eq
  kind_alike := by
    intro t u h
    rw [h]
    exact .same _

/-- Whether a token is left out depends on its kind alone. -/
theorem Cursor.map_kind_significant (c : Cursor) :
    c.significant.map Token.kind = (c.map Token.kind).filter (!·.isTrivia) := by
  rw [List.filter_map]
  rfl

/-- One token, significant or not. -/
theorem lexesTo_kind {c : Char} {cs rest : List Char} {k : Kind} {n : Nat}
    (h : scan c (cs ++ rest) = .ok (k, n)) (hn : n - 1 = cs.length) :
    LexesTo (fun ts => ts.map Token.kind = [k].filter (!·.isTrivia)) (c :: cs) rest := by
  intro l
  refine ⟨[⟨k, l⟩], Cursor.map_kind_significant _, ?_⟩
  rw [List.cons_append, lexFrom_cons h, hn, List.take_left, List.drop_left]
  rfl

/-- A text that can be read to its end, without placeholders and the like, keeps its significant
tokens in front of a line feed. -/
theorem lexesTo_append_lineFeed {l : Location} {cs : List Char}
    (h : (lexFrom l cs).breakdown = none)
    (hsymbol : ∀ t ∈ (lexFrom l cs).tokens, t.kind.isSymbol = false) (rest : List Char) :
    LexesTo (fun ts => ts.map Token.kind
        = ((lexFrom l cs).tokens.map Token.kind).filter (!·.isTrivia)) (cs ++ ['\n']) rest := by
  fun_induction lexFrom l cs with
  | case1 =>
      have hnil : LexesTo (fun ts => ts.map Token.kind = []) [] rest := .nil rfl
      exact hnil.blank (.inr rfl)
  | case2 => cases h
  | case3 l c cs k n hscan next ih =>
      rw [List.forall_mem_cons] at hsymbol
      obtain ⟨y, hy, hbreak⟩ := scan_append_lineFeed rest hscan hsymbol.1
      cases hbreak with
      | same hle =>
          have hsplit : cs ++ '\n' :: rest
              = cs.take (n - 1) ++ (cs.drop (n - 1) ++ ['\n'] ++ rest) := by
            rw [← List.append_assoc, ← List.append_assoc, List.take_append_drop, List.append_assoc,
              List.singleton_append]
          rw [hsplit] at hy
          have htoken := lexesTo_kind hy (by rw [List.length_take]; omega)
          have htext : c :: cs ++ ['\n'] = c :: cs.take (n - 1) ++ (cs.drop (n - 1) ++ ['\n']) := by
            rw [List.cons_append, List.cons_append, ← List.append_assoc, List.take_append_drop]
          rw [htext]
          refine (htoken.append (ih h hsymbol.2)).imp fun ts _ hts => ?_
          obtain ⟨d, e, rfl, hd, he⟩ := hts
          rw [List.map_append, hd, he, ← List.filter_append]
          rfl
      | joined hk =>
          -- the token reaches up to the line feed, and nothing is left behind it
          have hnext : next.tokens = [] := by
            have hdrop : cs.drop (cs.length + 1 - 1) = [] := List.drop_length
            simp only [next, hdrop, lexFrom]
          have hsplit : cs ++ '\n' :: rest = (cs ++ ['\n']) ++ rest := by
            rw [List.append_assoc, List.singleton_append]
          rw [hsplit] at hy
          have htoken := lexesTo_kind hy (by simp)
          rw [hnext]
          exact htoken

/-! ### Columns -/

namespace Column

variable {column : Column} {ts us : Cursor}

/-- Tokens of the kinds of those that spell a column spell the column, too. -/
theorem IsSpelledBy.of_kinds (h : column.IsSpelledBy ts) (hts : ts.IsBare) (hus : us.IsBare)
    (hkinds : us.map Token.kind = ts.map Token.kind) : column.IsSpelledBy us := by
  have hstart : Cursor.SameTokens .kinds ts us ts us := by
    refine ⟨List.suffix_refl _, List.suffix_refl _, hts.trimmed, hus.trimmed, ?_⟩
    rw [hts.significant_eq, hus.significant_eq]
    have heq : List.Forall₂ Eq (ts.map Token.kind) (us.map Token.kind) :=
      List.forall₂_eq_eq_eq ▸ hkinds.symm
    rwa [List.forall₂_map_left_iff, List.forall₂_map_right_iff] at heq
  have hanswers := (Simulation.ofLikeness .kinds ts us).obeys_column (n := 0) hstart
  rw [h.runFrom hts] at hanswers
  generalize hread : Column.rule.runFrom us = answer at hanswers
  cases hanswers with
  | ok halike hrel =>
      obtain rfl := Column.Alike.eq halike
      obtain ⟨rest, rfl, hrest⟩ := exists_isSpelledBy hus hread
      rcases hrel.nil_or_cons with ⟨-, rfl⟩ | ⟨_, _, _, _, hnil, -⟩
      · rwa [List.append_nil]
      · cases hnil

/-- A keyword is no symbol. -/
theorem not_isSymbol_of_isWord {t : Token} {w : String} (h : t.kind.isWord w = true) :
    t.kind.isSymbol = false := by
  obtain ⟨v, hv⟩ := Kind.exists_of_isWord h
  rw [hv]
  rfl

/-- A token behind the parameters of a column is no symbol. -/
theorem not_isSymbol_of_isClausal {t : Token} (h : t.kind.IsClausal) :
    t.kind.isSymbol = false := by
  cases hkind : t.kind with
  | symbol => simp [hkind, Kind.IsClausal] at h
  | _ => rfl

/-- No token of parameters is a symbol. -/
theorem not_isSymbol_of_hasParameters {length scale : Option String}
    (h : DataType.HasParameters length scale ts) : ∀ t ∈ ts, t.kind.isSymbol = false := by
  cases h with
  | absent => simp
  | one hl hd hr =>
      obtain ⟨_, hd, -⟩ := hd
      simp [hl, hd, hr, Kind.isSymbol]
  | two hl hd hm he hr =>
      obtain ⟨_, hd, -⟩ := hd
      obtain ⟨_, he, -⟩ := he
      simp [hl, hd, hm, he, hr, Kind.isSymbol]

/-- No operator and no placeholder spells a column. -/
theorem IsSpelledBy.not_isSymbol (h : column.IsSpelledBy ts) :
    ∀ t ∈ ts, t.kind.isSymbol = false := by
  obtain ⟨hname, htype, hparameters, hattributes, hdefault, hcomment, -⟩ := h
  simp only [List.forall_mem_cons, List.forall_mem_append]
  refine ⟨?_, not_isSymbol_of_isWord htype, not_isSymbol_of_hasParameters hparameters,
    fun t ht => not_isSymbol_of_isClausal (hattributes.isClausal t ht),
    fun t ht => not_isSymbol_of_isClausal (hdefault.isClausal t ht),
    fun t ht => not_isSymbol_of_isClausal (hcomment.isClausal t ht)⟩
  rename_i name _ _ _ _ _ _
  cases hkind : name.kind <;> simp [hkind, Kind.name?] at hname <;> rfl

end Column

/-! ### Tables -/

namespace Table

/-- A text that describes a column, on lines of its own, is read as the column. -/
theorem lexesTo_column {text : String} {column : Column} (hlexed : (lex text).breakdown = none)
    (h : Column.ofText text = .ok column) (rest : List Char) :
    LexesTo (fun s => (Item.column column).IsReadFrom s) (text ++ "\n").toList rest := by
  have hspelled := Column.ofText_eq_ok_iff_isSpelledBy.1 h
  have hsymbol : ∀ t ∈ (lex text).tokens, t.kind.isSymbol = false := by
    intro t ht
    by_cases htrivia : t.isTrivia = true
    · unfold Token.isTrivia at htrivia
      revert htrivia
      cases t.kind <;> simp [Kind.isTrivia, Kind.isSymbol]
    · exact hspelled.not_isSymbol t (List.mem_filter.2 ⟨ht, by simpa using htrivia⟩)
  rw [String.toList_append]
  refine (lexesTo_append_lineFeed hlexed hsymbol rest).imp fun ts hts hkinds => ?_
  rw [← Cursor.map_kind_significant] at hkinds
  have hcolumn := hspelled.of_kinds (isBare_significantTokens text) hts hkinds
  exact .column (hcolumn.opensAt hts) (hcolumn.runFrom hts)

/-- Texts on lines of their own, with commas on lines between them. -/
theorem intercalate_lines {texts : List String} (hne : texts ≠ []) :
    "\n,\n".intercalate texts ++ "\n" = ",\n".intercalate (texts.map (· ++ "\n")) := by
  have hsep : "\n,\n" = "\n" ++ ",\n" := rfl
  induction texts with
  | nil => exact absurd rfl hne
  | cons s texts ih =>
      cases texts with
      | nil => rw [List.map_singleton, String.intercalate_singleton, String.intercalate_singleton]
      | cons s' texts =>
          rw [List.map_cons] at ih
          rw [List.map_cons, List.map_cons, String.intercalate_cons_cons,
            String.intercalate_cons_cons, ← ih (List.cons_ne_nil s' texts), hsep]
          simp only [String.append_assoc]

/-- Texts of columns on lines of their own are cut into the tokens of these columns. -/
theorem lexesTo_columns {texts : List String} {columns : List Column} (hne : texts ≠ [])
    (h : List.Forall₂ (fun text column => (lex text).breakdown = none ∧
      Column.ofText text = .ok column) texts columns) (tail : List Char) :
    LexesTo (fun b => b.IsBalanced ∧
        List.Forall₂ (fun s (i : Item) => i.IsReadFrom s) b.pieces (columns.map .column))
      ("\n,\n".intercalate texts ++ "\n").toList (')' :: tail) := by
  obtain ⟨hlength, hrows⟩ := List.forall₂_iff_zip.1 h
  have hcolumns : (texts.zip columns).map Prod.snd = columns := List.map_snd_zip hlength.ge
  have htexts : (texts.zip columns).map Prod.fst = texts := List.map_fst_zip hlength.le
  have hne' : texts.zip columns ≠ [] := by
    rintro hnil
    rw [hnil] at htexts
    exact hne htexts.symm
  have hrow : LexesTo (fun c => ∃ ss, c.Joined ss ∧
        List.Forall₂ (fun row s => (Item.column row.2).IsReadFrom s) (texts.zip columns) ss)
      (",\n".intercalate ((texts.zip columns).map (·.1 ++ "\n"))).toList (')' :: tail) :=
    lexesTo_row hne' rfl (.inr rfl)
      (fun row hrow rest _ => lexesTo_column (hrows hrow).1 (hrows hrow).2 rest)
      (delimited_cons (by simp) tail)
  have hlines : texts.map (· ++ "\n") = (texts.zip columns).map (·.1 ++ "\n") := by
    conv_lhs => rw [← htexts, List.map_map]
    rfl
  rw [intercalate_lines hne, hlines]
  refine hrow.imp fun b hb hsplit => ?_
  obtain ⟨ss, hjoined, hall⟩ := hsplit
  refine isReadFrom_pieces hb hjoined ?_
  rw [← hcolumns, List.map_map, List.forall₂_map_left_iff]
  exact hall

/-- **A column is the same alone and in a table.** Texts that describe columns make the body of a
statement that describes the table with these columns. -/
theorem ofText_columns {texts : List String} {columns : List Column} (hne : texts ≠ [])
    (h : List.Forall₂ (fun text column => (lex text).breakdown = none ∧
      Column.ofText text = .ok column) texts columns) (tail : String) :
    Table.ofText ("CREATE TABLE t (\n" ++ "\n,\n".intercalate texts ++ "\n)" ++ tail) {}
      = .ok ⟨⟨none, "t"⟩, columns, [], commentOf tail⟩ := by
  have hname (rest : List Char) (hrest : Delimited rest) :
      LexesTo (QualifiedName.mk none "t").IsSpelledBy ['t'] rest :=
    lexesTo_name (q := ⟨none, "t"⟩) nofun (by decide) hrest
  have hread := ofText_of_lexesTo
    (lexesTo_statement hname ((lexesTo_columns hne h tail.toList).blank (.inr rfl)))
  have htext : "CREATE TABLE t (\n" ++ "\n,\n".intercalate texts ++ "\n)" ++ tail
      = String.ofList ("CREATE TABLE".toList ++ ' ' :: (['t'] ++ ' ' :: '(' :: '\n' ::
          ("\n,\n".intercalate texts ++ "\n").toList) ++ ')' :: tail.toList) := by
    have hopening : "CREATE TABLE t (\n".toList
        = "CREATE TABLE".toList ++ [' ', 't', ' ', '(', '\n'] := rfl
    have hclosing : "\n)".toList = ['\n', ')'] := rfl
    refine String.toList_injective ?_
    simp only [String.toList_append, String.toList_ofList, hopening, hclosing, List.append_assoc,
      List.cons_append, List.nil_append]
    rfl
  rw [htext, hread, String.ofList_toList]
  simp [ofItems, List.filterMap_map, Item.column?, Item.key?, Function.comp_def]

/-- A column that is named like the word of a key, one that ends with a line comment, and one that
ends with a number; the statement is followed by a comment. -/
theorem ofText_columns_key_named :
    List.Forall₂ (fun text column => (lex text).breakdown = none ∧
        Column.ofText text = .ok column)
      ["key int -- k", "`primary` char(2) default -1"]
      [⟨"key", ⟨.int, none, none⟩, [], none, ""⟩,
        ⟨"primary", ⟨.char, some "2", none⟩, [], some (.numeric "-1"), ""⟩] ∧
    Table.ofText ("CREATE TABLE t (\n"
        ++ "\n,\n".intercalate ["key int -- k", "`primary` char(2) default -1"]
        ++ "\n)" ++ " comment 'c'") {}
      = .ok ⟨⟨none, "t"⟩, [⟨"key", ⟨.int, none, none⟩, [], none, ""⟩,
        ⟨"primary", ⟨.char, some "2", none⟩, [], some (.numeric "-1"), ""⟩], [], "c"⟩ := by
  have h : List.Forall₂ (fun text column => (lex text).breakdown = none ∧
        Column.ofText text = .ok column)
      ["key int -- k", "`primary` char(2) default -1"]
      [⟨"key", ⟨.int, none, none⟩, [], none, ""⟩,
        ⟨"primary", ⟨.char, some "2", none⟩, [], some (.numeric "-1"), ""⟩] :=
    .cons ⟨by decide +kernel, by decide +kernel⟩
      (.cons ⟨by decide +kernel, by decide +kernel⟩ .nil)
  have hcomment : commentOf " comment 'c'" = "c" := by decide +kernel
  refine ⟨h, ?_⟩
  rw [← hcomment]
  exact ofText_columns (by simp) h _

end Table

end CreateTable
