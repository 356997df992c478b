import CreateTable.Proofs.Session.Position

/-!
# Texts that differ in letter case and layout only

Blanks, comments and the letter case of unquoted words carry no meaning. Two texts whose
significant tokens agree up to the case of ASCII letters in words without quotes are both
statements or both none: the tables agree up to the case of what was written without quotes, and
the errors require the same and stand in front of the same significant token.

## Main definitions

* `Likeness.letterCase`: the same tokens, unquoted words up to letter case.
* `SameUpToCase`: texts whose significant tokens are alike and that break off alike.
* `Error.Alike`, `ReadAlike`: errors and results that agree.

## Main statements

* `Session.run_alike`: what a rule gives in two sessions on such texts.
* `Table.ofText_alike`: what two such texts describe, and where the reading stops.
-/

namespace CreateTable

/-- The same words, up to the case of ASCII letters. -/
abbrev SameWord (v w : String) : Prop :=
  Text.sameWord v w = true

/-- Tokens of the same kind, where unquoted words may differ in letter case. -/
def Likeness.letterCase : Likeness where
  token t u := Kind.Alike SameWord t.kind u.kind
  word := SameWord
  word_refl := Text.sameWord_refl
  word_append := by
    intro v w v' w' h h'
    refine Text.sameWord_iff.2 ?_
    rw [Text.foldCase, Text.foldCase, String.toList_append, String.toList_append, List.map_append,
      List.map_append]
    exact congrArg₂ _ (Text.sameWord_iff.1 h) (Text.sameWord_iff.1 h')
  foldCase_eq := Text.sameWord_iff.1
  kind_alike := id

/-- Two kinds are alike if they are equal or unquoted words that are related. -/
theorem Kind.alike_iff {W : String → String → Prop} {k l : Kind} :
    Kind.Alike W k l ↔ k = l ∨ ∃ v ∈ k.word?, ∃ w ∈ l.word?, W v w := by
  constructor
  · rintro (h | _)
    · exact .inr ⟨_, rfl, _, rfl, h⟩
    · exact .inl rfl
  · rintro (rfl | ⟨v, hv, w, hw, h⟩)
    · exact .same _
    · cases k <;> cases hv
      cases l <;> cases hw
      exact .word h

/-- Whether two tokens are alike is computed from their kinds and their words. -/
instance (t u : Token) : Decidable (Likeness.letterCase.token t u) :=
  decidable_of_iff (t.kind = u.kind ∨ ∃ v ∈ t.kind.word?, ∃ w ∈ u.kind.word?, SameWord v w)
    Kind.alike_iff.symm

/-- Two texts are the **same up to case** when their significant tokens are alike one by one, and
when both can be read to their end or both break off with the same report. -/
structure SameUpToCase (text text' : String) : Prop where
  tokens : List.Forall₂ Likeness.letterCase.token (significantTokens text) (significantTokens text')
  message_eq : (lex text).breakdown.map (·.fault.message)
    = (lex text').breakdown.map (·.fault.message)

/-- Two errors of the grammar that agree up to their places and the case of the word found. -/
inductive Error.Alike : Error → Error → Prop
  | mismatch {p q : Position} {expected : Expectation} {found found' : String} :
      SameWord found found' → Alike (.mismatch p expected found) (.mismatch q expected found')
  | brokenToken {p q : Position} {fault : Fault} :
      Alike (.brokenToken p fault) (.brokenToken q fault)

/-- Two readings **agree** when both give results that are related, or when both fail with errors
that agree. -/
inductive ReadAlike {α : Type} (A : α → α → Prop) : Except Error α → Except Error α → Prop
  | ok {a b : α} : A a b → ReadAlike A (.ok a) (.ok b)
  | error {e f : Error} : e.Alike f → ReadAlike A (.error e) (.error f)

/-- Functions that keep a relation keep the agreement of two readings. -/
theorem ReadAlike.map {α β : Type} {A : α → α → Prop} {B : β → β → Prop} {f g : α → β}
    {x y : Except Error α} (h : ReadAlike A x y) (hfg : ∀ a b, A a b → B (f a) (g b)) :
    ReadAlike B (x.map f) (y.map g) := by
  cases h with
  | ok h => exact .ok (hfg _ _ h)
  | error h => exact .error h

/-- Different faults have different reports. -/
theorem Fault.message_injective : Function.Injective Fault.message := by
  intro a b h
  cases a <;> cases b <;> first | rfl | simp [Fault.message] at h

/-- Kinds that are alike are shown alike. -/
theorem Kind.Alike.sameWord_shown {k l : Kind} (h : Kind.Alike SameWord k l) :
    SameWord k.shown l.shown := by
  cases h with
  | word h => exact h
  | same => exact Text.sameWord_refl _

variable {text text' : String} {options options' : Options} {α : Type} {A : α → α → Prop}

/-- Where two such texts are read up to the same tokens, an expectation that is not met gives errors
that agree. -/
theorem Source.errorAt_alike (h : SameUpToCase text text') {c₀ d₀ c d : Cursor}
    (hcd : Cursor.SameTokens .letterCase c₀ d₀ c d) (e : Expectation) :
    ((Source.ofText text).errorAt c e).Alike ((Source.ofText text').errorAt d e) := by
  rcases hcd.nil_or_cons with ⟨rfl, rfl⟩ | ⟨t, rest, u, rest', rfl, rfl, ht, hu, htu⟩
  · -- both texts end, or both break off with the report of the same fault
    have hmessage := h.message_eq
    cases hb : (lex text).breakdown with
    | none =>
        rw [hb, Option.map_none, eq_comm, Option.map_eq_none_iff] at hmessage
        rw [errorAt_nil_of_none e hb, errorAt_nil_of_none e hmessage]
        exact .mismatch (Text.sameWord_refl _)
    | some b =>
        rw [hb, Option.map_some, eq_comm, Option.map_eq_some_iff] at hmessage
        obtain ⟨b', hb', hfault⟩ := hmessage
        rw [errorAt_nil_of_some e hb, errorAt_nil_of_some e hb', Fault.message_injective hfault]
        exact .brokenToken
  · rw [errorAt_cons e rest ht, errorAt_cons e rest' hu]
    exact .mismatch htu.sameWord_shown

namespace Session

variable {s s' : Session}

/-- A rule that keeps every comparison up to letter case gives results that agree, and stops in
front of the same significant tokens. -/
theorem run_alike (h : SameUpToCase text text') (hs : s.IsOn text options)
    (hs' : s'.IsOn text' options') (rule : Rule α)
    (hrule : ∀ c d, (Simulation.ofLikeness .letterCase c d).Obeys 0 0 A rule rule)
    (hcursor : List.Forall₂ Likeness.letterCase.token s.cursor.significant
      s'.cursor.significant) :
    ReadAlike A (s.run rule).1 (s'.run rule).1 ∧
      List.Forall₂ Likeness.letterCase.token (s.run rule).2.cursor.significant
        (s'.run rule).2.cursor.significant := by
  have hstart : Cursor.SameTokens .letterCase s.cursor s'.cursor s.cursor s'.cursor :=
    ⟨List.suffix_refl _, List.suffix_refl _, hs.trimmed, hs'.trimmed, hcursor⟩
  have hanswers := hrule s.cursor s'.cursor hstart
  rw [run, run, hs.source_eq, hs'.source_eq]
  generalize rule.runFrom s.cursor = answer, rule.runFrom s'.cursor = answer' at hanswers ⊢
  cases hanswers with
  | ok ha hrel => exact ⟨.ok ha, hrel.tokens⟩
  | error hstop => exact ⟨.error (Source.errorAt_alike h hstop _), hstop.tokens⟩

/-- Sessions that have the same tokens before them have taken equally many. -/
theorem index_eq (h : SameUpToCase text text') (hs : s.IsOn text options)
    (hs' : s'.IsOn text' options')
    (hcursor : List.Forall₂ Likeness.letterCase.token s.cursor.significant
      s'.cursor.significant) : s.index = s'.index := by
  have hsum := hs.index_add_length
  have hsum' := hs'.index_add_length
  rw [hs.lexed_eq] at hsum
  rw [hs'.lexed_eq] at hsum'
  have htotal := h.tokens.length_eq
  have hleft := hcursor.length_eq
  rw [significantTokens, significantTokens] at htotal
  omega

end Session

/-- **Only significant tokens count, and unquoted words only up to letter case.** Two texts that
agree in them are read alike, when the text behind the statement is not searched for a comment. -/
theorem Table.ofText_alike (h : SameUpToCase text text') :
    ReadAlike (Table.Alike SameWord) (Table.ofText text ⟨false⟩) (Table.ofText text' ⟨false⟩) ∧
      (Session.ofText text ⟨false⟩).table.2.index
        = (Session.ofText text' ⟨false⟩).table.2.index := by
  have hs := Session.IsOn.ofText text ⟨false⟩
  have hs' := Session.IsOn.ofText text' ⟨false⟩
  have hcursor := h.tokens
  rw [← Session.ofText_cursor_significant text ⟨false⟩,
    ← Session.ofText_cursor_significant text' ⟨false⟩] at hcursor
  obtain ⟨hresult, hbehind⟩ := Session.run_alike
    (A := fun x y => x.1.Alike SameWord y.1 ∧ Likeness.letterCase.token x.2 y.2) h hs hs'
    Table.rule (fun _ _ => Simulation.obeys_table _) hcursor
  constructor
  · rw [Table.ofText, Table.ofText, Session.table_eq, Session.table_eq]
    refine hresult.map fun p q hpq => ⟨hpq.1.name, hpq.1.columns, hpq.1.keys, ?_⟩
    -- without the option no comment is looked for
    rfl
  · refine Session.index_eq h (hs.of_reaches hs.table_moves.1) (hs'.of_reaches hs'.table_moves.1) ?_
    rw [Session.table_eq, Session.table_eq]
    exact hbehind

/-- A statement in two spellings, both with an open quote behind them. -/
theorem Table.ofText_alike_spellings :
    SameUpToCase "CREATE TABLE T (Id INT, KEY (`k`)) '" "create table t/*'*/(id int,key(`k`))\n'x" ∧
    ReadAlike (Table.Alike SameWord)
      (Table.ofText "CREATE TABLE T (Id INT, KEY (`k`)) '" ⟨false⟩)
      (Table.ofText "create table t/*'*/(id int,key(`k`))\n'x" ⟨false⟩) ∧
    (Session.ofText "CREATE TABLE T (Id INT, KEY (`k`)) '" ⟨false⟩).table.2.index
      = (Session.ofText "create table t/*'*/(id int,key(`k`))\n'x" ⟨false⟩).table.2.index := by
  have h : SameUpToCase "CREATE TABLE T (Id INT, KEY (`k`)) '"
      "create table t/*'*/(id int,key(`k`))\n'x" :=
    ⟨by decide +kernel, by decide +kernel⟩
  exact ⟨h, ofText_alike h⟩

end CreateTable
