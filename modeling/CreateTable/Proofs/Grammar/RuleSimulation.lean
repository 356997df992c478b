import CreateTable.Proofs.Grammar.Lookahead
import CreateTable.Proofs.Grammar.Simulation
import CreateTable.Table

/-!
# The rules of the grammar keep every simulation

Every rule, run from two cursors that a simulation relates, stops at related cursors and gives
alike results. Alike means equal, except that texts that come from unquoted words are only
related as the simulation relates words: names, the words about the current time, and comments.

## Main definitions

* `Value.Alike`, `Column.Alike`, `Key.Alike`, `Item.Alike`, `Table.Alike`: results that agree up
  to related words.

## Main statements

* `Simulation.opensAt_eq`: the dispatch between keys and columns looks alike.
* `Simulation.obeys_column`, `Simulation.obeys_key`, `Simulation.obeys_item`,
  `Simulation.obeys_table`: the rules.
* `Table.Alike.eq`: related by equality is equal.
-/

namespace CreateTable

/-! ### Results that agree up to related words -/

/-- Values that agree up to the words about the current time. -/
inductive Value.Alike (W : String → String → Prop) : Value → Value → Prop
  | same (v : Value) : Alike W v v
  | expression {s t : String} : W s t → Alike W (.expression s) (.expression t)

/-- Columns that agree up to name, comment and the words of the default value. -/
structure Column.Alike (W : String → String → Prop) (c d : Column) : Prop where
  name : W c.name d.name
  type : c.type = d.type
  attributes : c.attributes = d.attributes
  defaultValue : Option.Rel (Value.Alike W) c.defaultValue d.defaultValue
  comment : W c.comment d.comment

/-- Targets of foreign keys that agree up to names. -/
structure Reference.Alike (W : String → String → Prop) (r s : Reference) : Prop where
  table : W r.table s.table
  columns : List.Forall₂ W r.columns s.columns

/-- Keys that agree up to names. -/
structure Key.Alike (W : String → String → Prop) (k l : Key) : Prop where
  kind : k.kind = l.kind
  name : Option.Rel W k.name l.name
  columns : List.Forall₂ W k.columns l.columns
  references : Option.Rel (Reference.Alike W) k.references l.references

/-- Names of tables that agree part by part. -/
structure QualifiedName.Alike (W : String → String → Prop) (q r : QualifiedName) : Prop where
  schema : Option.Rel W q.schema r.schema
  name : W q.name r.name

/-- Two columns or two keys that agree up to words. -/
inductive Item.Alike (W : String → String → Prop) : Item → Item → Prop
  | column {c d : Column} : c.Alike W d → Alike W (.column c) (.column d)
  | key {k l : Key} : k.Alike W l → Alike W (.key k) (.key l)

/-- Tables whose columns and keys agree one by one, up to words. -/
structure Table.Alike (W : String → String → Prop) (t u : Table) : Prop where
  name : t.name.Alike W u.name
  columns : List.Forall₂ (Column.Alike W) t.columns u.columns
  keys : List.Forall₂ (Key.Alike W) t.keys u.keys
  comment : t.comment = u.comment

/-- Optional results that are related one by one are equal if related results are. -/
theorem optionRel_eq {α : Type} {R : α → α → Prop} (hR : ∀ a b, R a b → a = b) {x y : Option α}
    (h : Option.Rel R x y) : x = y := by
  cases h with
  | none => rfl
  | some h => rw [hR _ _ h]

/-- An optional result is equal to itself, as a relation of optional results. -/
theorem optionRel_refl {α : Type} (x : Option α) : Option.Rel Eq x x := by
  cases x with
  | none => exact .none
  | some a => exact .some rfl

/-- Rows that are related one by one are equal if related elements are. -/
theorem forall₂_eq {α : Type} {R : α → α → Prop} (hR : ∀ a b, R a b → a = b) {x y : List α}
    (h : List.Forall₂ R x y) : x = y :=
  List.forall₂_eq_eq_eq ▸ h.imp hR

/-- Values that are related by equality are equal. -/
theorem Value.Alike.eq {v w : Value} (h : v.Alike Eq w) : v = w := by
  cases h with
  | same => rfl
  | expression h => rw [h]

/-- Columns that are related by equality are equal. -/
theorem Column.Alike.eq {c d : Column} (h : c.Alike Eq d) : c = d := by
  cases c
  cases d
  obtain ⟨rfl, rfl, rfl, hdefault, rfl⟩ := h
  obtain rfl := optionRel_eq (fun _ _ => Value.Alike.eq) hdefault
  rfl

/-- Targets of foreign keys that are related by equality are equal. -/
theorem Reference.Alike.eq {r s : Reference} (h : r.Alike Eq s) : r = s := by
  cases r
  cases s
  obtain ⟨rfl, hcolumns⟩ := h
  obtain rfl := forall₂_eq (fun _ _ => id) hcolumns
  rfl

/-- Keys that are related by equality are equal. -/
theorem Key.Alike.eq {k l : Key} (h : k.Alike Eq l) : k = l := by
  cases k
  cases l
  obtain ⟨rfl, hname, hcolumns, href⟩ := h
  obtain rfl := optionRel_eq (fun _ _ => id) hname
  obtain rfl := forall₂_eq (fun _ _ => id) hcolumns
  obtain rfl := optionRel_eq (fun _ _ => Reference.Alike.eq) href
  rfl

/-- Names of tables that are related by equality are equal. -/
theorem QualifiedName.Alike.eq {q r : QualifiedName} (h : q.Alike Eq r) : q = r := by
  cases q
  cases r
  obtain ⟨hschema, rfl⟩ := h
  obtain rfl := optionRel_eq (fun _ _ => id) hschema
  rfl

/-- Items that are related by equality are equal. -/
theorem Item.Alike.eq {i j : Item} (h : i.Alike Eq j) : i = j := by
  cases h with
  | column h => rw [h.eq]
  | key h => rw [h.eq]

/-- Tables that are related by equality are equal. -/
theorem Table.Alike.eq {t u : Table} (h : t.Alike Eq u) : t = u := by
  cases t
  cases u
  obtain ⟨hname, hcolumns, hkeys, rfl⟩ := h
  obtain rfl := hname.eq
  obtain rfl := forall₂_eq (fun _ _ => Column.Alike.eq) hcolumns
  obtain rfl := forall₂_eq (fun _ _ => Key.Alike.eq) hkeys
  rfl

/-! ### Looking ahead -/

/-- A keyword leaves the depth as it is. -/
theorem Kind.isLevel_of_isWord {w : String} {k : Kind} (h : k.isWord w = true) : k.IsLevel := by
  cases k <;> first | exact fun _ => rfl | simp [Kind.isWord] at h

/-- The name of a type leaves the depth as it is. -/
theorem Kind.isLevel_of_isTypeName {k : Kind} (h : k.isTypeName = true) : k.IsLevel := by
  cases k <;> first | exact fun _ => rfl | simp [Kind.isTypeName] at h

namespace Simulation

variable (S : Simulation) {n m : Nat} {c d : Cursor}

/-- Related words are the same keywords. -/
theorem sameWord_eq {v v' : String} (h : S.word v v') (w : String) :
    Text.sameWord w v = Text.sameWord w v' := by
  rw [Text.sameWord, Text.sameWord, S.foldCase_eq h]

/-- Related words name the same type. -/
theorem ofKeyword?_eq {v v' : String} (h : S.word v v') :
    TypeName.ofKeyword? v = TypeName.ofKeyword? v' := by
  simp only [TypeName.ofKeyword?, S.sameWord_eq h]

/-- A property of the next token that no comma and no closing parenthesis has. -/
theorem any_peek_eq {f : Kind → Bool} (hcomma : f .comma = false)
    (hparen : f .rightParen = false) (hf : ∀ k l, Kind.Alike S.word k l → f k = f l)
    (hcd : S.rel n c d) : (c.peek 0).any (f ·.kind) = (d.peek 0).any (f ·.kind) := by
  rcases S.next hcd with ⟨t, u, ht, hu, htu, -⟩ | ⟨hc, hd⟩
  · simp [ht, hu, hf _ _ (S.kind_alike htu)]
  · have hborder : ∀ c : Cursor, c.AtBorder n → (c.peek 0).any (f ·.kind) = false := by
      intro c hc
      cases ht : c.peek 0 with
      | none => rfl
      | some t => rcases (hc t ht).2 with h | h <;> simp [h, hcomma, hparen]
    rw [hborder c hc, hborder d hd]

/-- Related cursors stand at the same keywords. -/
theorem atWord_eq (hcd : S.rel n c d) (w : String) : c.atWord 0 w = d.atWord 0 w := by
  rw [Cursor.atWord_eq_any, Cursor.atWord_eq_any]
  refine S.any_peek_eq rfl rfl (fun k l h => ?_) hcd
  cases h with
  | word h => exact S.sameWord_eq h w
  | same => rfl

/-- The name of a type at the cursor. -/
theorem typeName_eq (hcd : S.rel n c d) :
    ((c.peekWord 0).bind TypeName.ofKeyword?).isSome
      = ((d.peekWord 0).bind TypeName.ofKeyword?).isSome := by
  rw [Cursor.typeName_eq_any, Cursor.typeName_eq_any]
  refine S.any_peek_eq rfl rfl (fun k l h => ?_) hcd
  cases h with
  | word h => exact congrArg Option.isSome (S.ofKeyword?_eq h)
  | same => rfl

/-- Related cursors agree about whether a number is next. -/
theorem isNumber_eq (hcd : S.rel n c d) :
    (c.peek 0).any (·.kind.isNumber) = (d.peek 0).any (·.kind.isNumber) := by
  refine S.any_peek_eq rfl rfl (fun k l h => ?_) hcd
  cases h <;> rfl

/-- Related cursors stand at the same marks, as far as the depth counts behind the mark. -/
theorem atKind_eq {k : Kind} (hk : ∀ w, k ≠ .word w) (hdepth : k.depth? n = some m)
    (hcd : S.rel n c d) : c.atKind 0 k = d.atKind 0 k := by
  rcases S.next hcd with ⟨t, u, ht, hu, htu, -⟩ | ⟨hc, hd⟩
  · have hiff := (S.kind_alike htu).eq_iff hk
    simp only [Cursor.atKind, ht, hu, Option.any_some, Bool.beq_eq_decide_eq, hiff]
  · have hborder : ∀ c : Cursor, c.AtBorder n → c.atKind 0 k = false := by
      intro c hc
      rw [Cursor.atKind]
      cases ht : c.peek 0 with
      | none => rfl
      | some t =>
          obtain ⟨rfl, h⟩ := hc t ht
          have hne : t.kind ≠ k := by
            rintro rfl
            rcases h with h | h <;> simp [h, Kind.depth?] at hdepth
          simp [hne]
    rw [hborder c hc, hborder d hd]

/-- Behind a token of a known depth the cursors are related again. -/
theorem rel_advance {t : Token} (hcd : S.rel n c d) (ht : c.peek 0 = some t)
    (hdepth : t.kind.depth? n = some m) : S.rel m c.advance d.advance := by
  rcases S.next hcd with ⟨t', u, ht', -, -, hnext⟩ | ⟨hc, -⟩
  · obtain rfl : t = t' := Option.some.inj (ht.symm.trans ht')
    exact hnext m hdepth
  · obtain ⟨rfl, h | h⟩ := hc t ht <;> simp [h, Kind.depth?] at hdepth

/-- Behind a word the cursors are related again. -/
theorem rel_advance_of_any {f : Kind → Bool} (hf : ∀ k, f k = true → k.IsLevel)
    (hcd : S.rel n c d) (h : (c.peek 0).any (f ·.kind) = true) :
    S.rel n c.advance d.advance := by
  cases ht : c.peek 0 with
  | none => simp [ht] at h
  | some t =>
      rw [ht, Option.any_some] at h
      exact S.rel_advance hcd ht (hf _ h n)

/-- The dispatch between keys and columns. It reads at most a word, the name of a type, an
opening parenthesis and the token behind that, which stands inside the parenthesis. -/
theorem opensAt_eq (hcd : S.rel n c d) : Key.opensAt c = Key.opensAt d := by
  have hfirst : c.atWord 0 = d.atWord 0 := funext (S.atWord_eq hcd)
  unfold Key.opensAt
  rw [← hfirst]
  cases hopens : Key.openingWords.any (c.atWord 0)
  · rfl
  have hrel₁ : S.rel n c.advance d.advance := by
    obtain ⟨w, -, hw⟩ := List.any_eq_true.1 hopens
    rw [Cursor.atWord_eq_any] at hw
    exact S.rel_advance_of_any (fun k => Kind.isLevel_of_isWord) hcd hw
  have htype := S.typeName_eq hrel₁
  obtain ⟨htrim, htrim'⟩ := S.trimmed hcd
  obtain ⟨htrim₁, htrim₁'⟩ := S.trimmed hrel₁
  simp only [Bool.true_and, Cursor.peekWord_succ htrim, Cursor.peekWord_succ htrim',
    ← Option.not_isSome, ← htype]
  cases hname : (c.advance.peekWord 0).bind TypeName.ofKeyword? |>.isSome
  · rfl
  have hrel₂ : S.rel n c.advance.advance d.advance.advance := by
    rw [Cursor.typeName_eq_any] at hname
    exact S.rel_advance_of_any (fun k => Kind.isLevel_of_isTypeName) hrel₁ hname
  have hparen := S.atKind_eq (k := .leftParen) (fun _ => nofun) rfl hrel₂
  obtain ⟨htrim₂, htrim₂'⟩ := S.trimmed hrel₂
  simp only [Cursor.atKind_succ htrim, Cursor.atKind_succ htrim', Cursor.atKind_succ htrim₁,
    Cursor.atKind_succ htrim₁', ← hparen]
  cases hopen : c.advance.advance.atKind 0 .leftParen
  · rfl
  have hrel₃ : S.rel (n + 1) c.advance.advance.advance d.advance.advance.advance := by
    rw [Cursor.atKind] at hopen
    cases ht : c.advance.advance.peek 0 with
    | none => simp [ht] at hopen
    | some t =>
        have hkind : t.kind = .leftParen := by simpa [ht] using hopen
        exact S.rel_advance hrel₂ ht (by rw [hkind]; rfl)
  simp only [Cursor.peek_succ htrim, Cursor.peek_succ htrim', Cursor.peek_succ htrim₁,
    Cursor.peek_succ htrim₁', Cursor.peek_succ htrim₂, Cursor.peek_succ htrim₂',
    S.isNumber_eq hrel₃]

/-! ### The matchers of one token -/

/-- Names match alike, as related words. -/
theorem matches_identifier : S.Matches n n S.word Matcher.identifier Matcher.identifier := by
  refine .token (fun k hk => ?_) fun k l h => ?_
  · cases k <;> first | exact absurd (fun _ => rfl) hk | exact ⟨rfl, rfl⟩
  · cases h with
    | word h => exact .some h
    | same => cases k <;> first | exact .some (S.word_refl _) | exact .none

/-- Rows of digits match alike. -/
theorem matches_digits : S.Matches n n Eq Matcher.digits Matcher.digits := by
  refine .token (fun k hk => ?_) fun k l h => ?_
  · cases k <;> first | exact absurd (fun _ => rfl) hk | exact ⟨rfl, rfl⟩
  · cases h with
    | word => exact .none
    | same => exact optionRel_refl _

/-- Numbers match alike. -/
theorem matches_unsignedNumeral :
    S.Matches n n Eq Matcher.unsignedNumeral Matcher.unsignedNumeral := by
  refine .token (fun k hk => ?_) fun k l h => ?_
  · cases k <;> first | exact absurd (fun _ => rfl) hk | exact ⟨rfl, rfl⟩
  · cases h with
    | word => exact .none
    | same => exact optionRel_refl _

/-- Strings match alike. -/
theorem matches_stringLiteral : S.Matches n n Eq Matcher.stringLiteral Matcher.stringLiteral := by
  refine .token (fun k hk => ?_) fun k l h => ?_
  · cases k <;> first | exact absurd (fun _ => rfl) hk | exact ⟨rfl, rfl⟩
  · cases h with
    | word => exact .none
    | same => exact optionRel_refl _

/-- Names of types match alike, for related words name the same type. -/
theorem matches_typeName : S.Matches n n Eq TypeName.matcher TypeName.matcher := by
  refine .token (fun k hk => ?_) fun k l h => ?_
  · cases k <;> first | exact absurd (fun _ => rfl) hk | exact ⟨rfl, rfl⟩
  · cases h with
    | word h => simpa [S.ofKeyword?_eq h] using optionRel_refl _
    | same => exact optionRel_refl _

/-- Keywords match alike, and as they are written they are related. -/
theorem matches_writtenWord (w : String) :
    S.Matches n n S.word (Matcher.writtenWord w) (Matcher.writtenWord w) := by
  refine .token (fun k hk => ?_) fun k l h => ?_
  · cases k <;> first | exact absurd (fun _ => rfl) hk | exact ⟨rfl, rfl⟩
  · cases h with
    | word h =>
        simp only [S.sameWord_eq h]
        split
        · exact .some h
        · exact .none
    | same =>
        cases k <;> try exact .none
        dsimp only
        split
        · exact .some (S.word_refl _)
        · exact .none

/-- Keywords match alike. -/
theorem matches_word (w : String) : S.Matches n n Eq (Matcher.word w) (Matcher.word w) :=
  .map (S.matches_writtenWord w) fun _ _ _ => rfl

/-- Phrases match alike, word by word. -/
theorem matches_phrase (ws : List String) :
    S.Matches n n Eq (Matcher.phrase ws) (Matcher.phrase ws) := by
  induction ws with
  | nil => exact .pure rfl
  | cons w ws ih => exact .bind (S.matches_word w) fun _ _ _ => ih

/-- Numbers with a sign match alike. -/
theorem matches_numeral : S.Matches n n Eq Matcher.numeral Matcher.numeral := by
  refine .orElse (.bind (.mark (fun _ => nofun) rfl) fun _ _ _ => ?_) S.matches_unsignedNumeral
  exact .bind S.matches_unsignedNumeral fun _ _ h => .pure (congrArg _ h)

/-! ### Columns -/

/-- One parameter in parentheses matches alike. -/
theorem matches_lengthOnly : S.Matches n n Eq DataType.lengthOnly DataType.lengthOnly := by
  refine .bind (.mark (m := n + 1) (fun _ => nofun) rfl) fun _ _ _ => ?_
  refine .bind S.matches_digits fun _ _ h => ?_
  refine .bind (.mark (m := n) (fun _ => nofun) rfl) fun _ _ _ => ?_
  exact .pure (congrArg (·, none) h)

/-- Two parameters in parentheses match alike: their comma stands inside. -/
theorem matches_lengthAndScale :
    S.Matches n n Eq DataType.lengthAndScale DataType.lengthAndScale := by
  refine .bind (.mark (m := n + 1) (fun _ => nofun) rfl) fun _ _ _ => ?_
  refine .bind S.matches_digits fun _ _ h => ?_
  refine .bind (.mark (m := n + 1) (fun _ => nofun) rfl) fun _ _ _ => ?_
  refine .bind S.matches_digits fun _ _ h' => ?_
  refine .bind (.mark (m := n) (fun _ => nofun) rfl) fun _ _ _ => ?_
  exact .pure (by rw [h, h'])

/-- Types are read alike. -/
theorem obeys_dataType : S.Obeys n n Eq DataType.rule DataType.rule := by
  refine .bind (.require S.matches_typeName _) fun name _ hname => ?_
  subst hname
  refine .bind (.allow (.orElse S.matches_lengthOnly S.matches_lengthAndScale)) fun x y h => ?_
  obtain rfl := optionRel_eq (fun _ _ => id) h
  rcases x with _ | ⟨length, scale⟩ <;> exact .pure rfl

/-- Modifiers match alike. -/
theorem matches_attribute : S.Matches n n Eq Attribute.matcher Attribute.matcher :=
  .firstM _ fun a _ => .bind (S.matches_phrase a.words) fun _ _ _ => .pure rfl

/-- Words that may each be missing match alike, as related rows. -/
theorem matches_writtenWords (ws : List String) :
    S.Matches n n (List.Forall₂ S.word) (Value.writtenWords ws) (Value.writtenWords ws) := by
  induction ws with
  | nil => exact .pure .nil
  | cons w ws ih =>
      refine .bind (.optional (S.matches_writtenWord w)) fun x y h => ?_
      cases h with
      | none => exact ih
      | some h => exact .bind ih fun _ _ hs => .pure (.cons h hs)

/-- Words that are related one by one are related when joined. -/
theorem word_intercalate (sep : String) {v w : List String} (h : List.Forall₂ S.word v w) :
    S.word (sep.intercalate v) (sep.intercalate w) := by
  induction h with
  | nil => exact S.word_refl _
  | @cons a b v w hab h ih =>
      cases h with
      | nil => simpa using hab
      | cons h₁ h₂ =>
          rw [String.intercalate_cons_cons, String.intercalate_cons_cons]
          exact S.word_append (S.word_append hab (S.word_refl _)) ih

/-- The words about the current time match alike, as related texts. -/
theorem matches_timestamp : S.Matches n n S.word Value.timestamp Value.timestamp := by
  refine .bind (S.matches_writtenWords _) fun v w h => ?_
  cases h with
  | nil => exact .failure
  | cons hab h => exact .pure (S.word_intercalate " " (.cons hab h))

/-- Values match alike. -/
theorem matches_value : S.Matches n n (Value.Alike S.word) Value.matcher Value.matcher := by
  refine .orElse ?_ (.orElse ?_ (.orElse ?_ ?_))
  · exact .seqRight (S.matches_word _) (.pure (.same _))
  · exact .map S.matches_stringLiteral fun _ _ h => h ▸ .same _
  · exact .map S.matches_numeral fun _ _ h => h ▸ .same _
  · exact .map S.matches_timestamp fun _ _ h => .expression h

/-- Clauses match alike. -/
theorem matches_clause (keyword : String) :
    S.Matches n n (Option.Rel (Value.Alike S.word)) (Value.clause keyword)
      (Value.clause keyword) :=
  .bind (S.matches_word keyword) fun _ _ _ => .optional S.matches_value

/-- The texts of related values are related. -/
theorem text_alike {v w : Value} (h : v.Alike S.word w) : S.word v.text w.text := by
  cases h with
  | same => exact S.word_refl _
  | expression h => exact h

/-- Clauses of comments match alike. -/
theorem matches_commentClause : S.Matches n n S.word Column.commentClause Column.commentClause := by
  refine .map (S.matches_clause _) fun x y h => ?_
  cases h with
  | none => exact S.word_refl _
  | some h => exact S.text_alike h

/-- Columns are read alike. -/
theorem obeys_column : S.Obeys n n (Column.Alike S.word) Column.rule Column.rule := by
  refine .bind (.require S.matches_identifier _) fun name name' hname => ?_
  refine .bind S.obeys_dataType fun type _ htype => ?_
  refine .bind (.many S.matches_attribute) fun attributes _ hattributes => ?_
  refine .bind (.allow (S.matches_clause _)) fun value value' hvalue => ?_
  refine .bind (.allow S.matches_commentClause) fun comment comment' hcomment => ?_
  refine .pure ⟨hname, htype, forall₂_eq (fun _ _ => id) hattributes, ?_, ?_⟩
  · cases hvalue with
    | none => exact .none
    | some h => exact h
  · cases hcomment with
    | none => exact S.word_refl _
    | some h => exact h

/-! ### Keys -/

/-- The words `KEY` and `INDEX` match alike. -/
theorem matches_indexWord : S.Matches n n Eq KeyKind.indexWord KeyKind.indexWord :=
  .orElse (S.matches_word _) (S.matches_word _)

/-- The words of the kinds of keys match alike. -/
theorem matches_keyKind : S.Matches n n Eq KeyKind.matcher KeyKind.matcher := by
  refine .orElse ?_ (.orElse ?_ (.orElse ?_ (.orElse ?_ ?_)))
  · exact .seqRight (S.matches_phrase _) (.pure rfl)
  · exact .seqRight (.seqRight (S.matches_word _) (.optional S.matches_indexWord)) (.pure rfl)
  · exact .seqRight (.seqRight (S.matches_word _) (.optional S.matches_indexWord)) (.pure rfl)
  · exact .seqRight (S.matches_phrase _) (.pure rfl)
  · exact .seqRight S.matches_indexWord (.pure rfl)

/-- Names of constraints are read alike. -/
theorem obeys_constraintName :
    S.Obeys n n (Option.Rel S.word) Key.constraintName Key.constraintName := by
  refine .bind (.allow (S.matches_word _)) fun x y h => ?_
  cases h with
  | none => exact .pure .none
  | some _ =>
      refine .bind (.look fun c d hcd => ?_) fun b _ hb => ?_
      · have hword : c.atWord 0 = d.atWord 0 := funext (S.atWord_eq hcd)
        rw [hword]
      · subst hb
        cases b
        · exact .map (.require S.matches_identifier _) fun _ _ => .some
        · exact .pure .none

/-- Names of indexes are read alike, for the decision whether one comes is the same. -/
theorem obeys_indexName (kind : KeyKind) :
    S.Obeys n n (Option.Rel S.word) (Key.indexName kind) (Key.indexName kind) := by
  refine .bind (.look fun c d hcd => ?_) fun b _ hb => ?_
  · rw [S.atWord_eq hcd, S.atKind_eq (k := .leftParen) (fun _ => nofun) rfl hcd]
  · subst hb
    cases b
    · exact .map (.require S.matches_identifier _) fun _ _ => .some
    · exact .pure .none

/-- Options of keys match alike. -/
theorem matches_option : S.Matches n n Eq Key.option Key.option := by
  refine .orElse ?_ ?_
  · exact .seqRight (S.matches_word _) (.map S.matches_identifier fun _ _ _ => rfl)
  · exact .seqRight (S.matches_word _) (.map S.matches_stringLiteral fun _ _ _ => rfl)

/-- Rows of options are read alike. -/
theorem obeys_options : S.Obeys n n Eq Key.options Key.options :=
  .bind (.many S.matches_option) fun _ _ _ => .pure rfl

/-- Prefix lengths match alike. -/
theorem matches_prefixLength : S.Matches n n Eq Key.prefixLength Key.prefixLength := by
  refine .bind (.mark (m := n + 1) (fun _ => nofun) rfl) fun _ _ _ => ?_
  refine .bind S.matches_digits fun _ _ _ => ?_
  exact .mark (fun _ => nofun) rfl

/-- Columns of keys are read alike. -/
theorem obeys_keyColumn : S.Obeys n n S.word Key.columnRule Key.columnRule := by
  refine .bind (.require S.matches_identifier _) fun _ _ hname => ?_
  refine .bind (.allow S.matches_prefixLength) fun _ _ _ => ?_
  refine .bind (.allow (.orElse (S.matches_word _) (S.matches_word _))) fun _ _ _ => ?_
  exact .pure hname

/-- Columns of keys in parentheses are read alike: their commas stand inside. -/
theorem obeys_columnList :
    S.Obeys n n (List.Forall₂ S.word) Key.columnListRule Key.columnListRule := by
  refine .bind (.require (.mark (k := .leftParen) (m := n + 1) (fun _ => nofun) rfl) _)
    fun _ _ _ => ?_
  refine .bind (.separated (.mark (fun _ => nofun) rfl) S.obeys_keyColumn) fun _ _ hnames => ?_
  refine .bind (.require (.mark (k := .rightParen) (m := n) (fun _ => nofun) rfl) _) fun _ _ _ => ?_
  exact .pure hnames

/-- Names of tables are read alike. -/
theorem obeys_qualifiedName (e : Expectation) :
    S.Obeys n n (QualifiedName.Alike S.word) (QualifiedName.rule e) (QualifiedName.rule e) := by
  refine .bind (.require S.matches_identifier _) fun _ _ hfirst => ?_
  refine .bind (.allow (.mark (fun _ => nofun) rfl)) fun x y h => ?_
  cases h with
  | none => exact .pure ⟨.none, hfirst⟩
  | some _ =>
      exact .bind (.require S.matches_identifier _) fun _ _ hsecond =>
        .pure ⟨.some hfirst, hsecond⟩

/-- Names of tables that are related part by part are related when joined. -/
theorem joined_alike {q r : QualifiedName} (h : q.Alike S.word r) : S.word q.joined r.joined := by
  obtain ⟨schema, name⟩ := q
  obtain ⟨schema', name'⟩ := r
  obtain ⟨hschema, hname⟩ := h
  cases hschema with
  | none => exact hname
  | some h => exact S.word_append (S.word_append h (S.word_refl _)) hname

/-- Referential actions are read alike. -/
theorem obeys_actionClause : S.Obeys n n Eq Reference.actionClause Reference.actionClause := by
  refine .bind (.require (.orElse (S.matches_word _) (S.matches_word _)) _) fun _ _ _ => ?_
  exact .require (.firstM _ fun ws _ => S.matches_phrase ws) _

/-- Targets of foreign keys are read alike. -/
theorem obeys_reference :
    S.Obeys n n (Reference.Alike S.word) Reference.rule Reference.rule := by
  refine .bind (.require (S.matches_word _) _) fun _ _ _ => ?_
  refine .bind (S.obeys_qualifiedName _) fun _ _ htable => ?_
  refine .bind S.obeys_columnList fun _ _ hcolumns => ?_
  refine .bind (.follow (S.matches_word _) S.obeys_actionClause) fun _ _ _ => ?_
  exact .pure ⟨S.joined_alike htable, hcolumns⟩

/-- Key clauses are read alike, whether they have a target or not. -/
theorem obeys_key : S.Obeys n n (Key.Alike S.word) Key.rule Key.rule := by
  refine .bind S.obeys_constraintName fun constraint constraint' hconstraint => ?_
  refine .bind (.require S.matches_keyKind _) fun kind _ hkind => ?_
  subst hkind
  refine .bind (S.obeys_indexName kind) fun index index' hindex => ?_
  refine .bind S.obeys_options fun _ _ _ => ?_
  refine .bind S.obeys_columnList fun columns columns' hcolumns => ?_
  have hrest : ∀ x y, Option.Rel (Reference.Alike S.word) x y →
      S.Obeys n n (Key.Alike S.word)
        (do Key.options; return ⟨kind, constraint <|> index, columns, x⟩)
        (do Key.options; return ⟨kind, constraint' <|> index', columns', y⟩) := by
    intro x y hreferences
    refine .bind S.obeys_options fun _ _ _ => .pure ⟨rfl, ?_, hcolumns, hreferences⟩
    cases hconstraint with
    | none => exact hindex
    | some h => exact .some h
  by_cases hforeign : kind = .foreign
  · simp only [hforeign, if_true] at hrest ⊢
    exact .bind (.map S.obeys_reference fun _ _ => .some) hrest
  · simp only [hforeign, if_false] at hrest ⊢
    exact .bind (.pure .none) hrest

/-! ### Statements -/

/-- Items of a body are read alike, for the dispatch between them is the same. -/
theorem obeys_item : S.Obeys n n (Item.Alike S.word) Item.rule Item.rule := by
  refine .bind (.look fun c d hcd => S.opensAt_eq hcd) fun b _ hb => ?_
  subst hb
  cases b
  · exact .map S.obeys_column fun _ _ => .column
  · exact .map S.obeys_key fun _ _ => .key

/-- The items of a body stand inside its parentheses, where commas belong to the depth. -/
theorem obeys_itemList :
    S.Obeys (n + 1) (n + 1) (List.Forall₂ (Item.Alike S.word)) Item.listRule Item.listRule := by
  refine .bind (.look fun c d hcd => S.atKind_eq (m := n) (fun _ => nofun) rfl hcd)
    fun b _ hb => ?_
  subst hb
  cases b
  · exact .separated (.mark (fun _ => nofun) rfl) S.obeys_item
  · exact .pure .nil

/-- Tables of related names and items are related. -/
theorem ofItems_alike {q r : QualifiedName} {is js : List Item} (hname : q.Alike S.word r)
    (h : List.Forall₂ (Item.Alike S.word) is js) :
    (Table.ofItems q is).Alike S.word (Table.ofItems r js) := by
  refine ⟨hname, ?_, ?_, rfl⟩
  · induction h with
    | nil => exact .nil
    | cons h _ ih =>
        cases h with
        | column h => exact .cons h ih
        | key => exact ih
  · induction h with
    | nil => exact .nil
    | cons h _ ih =>
        cases h with
        | column => exact ih
        | key h => exact .cons h ih

/-- A statement, with the parenthesis that closes it. -/
theorem obeys_table :
    S.Obeys n n (fun x y => x.1.Alike S.word y.1 ∧ S.token x.2 y.2) Table.rule Table.rule := by
  refine .bind (.require (S.matches_phrase _) _) fun _ _ _ => ?_
  refine .bind (.allow (S.matches_phrase _)) fun _ _ _ => ?_
  refine .bind (S.obeys_qualifiedName _) fun _ _ hname => ?_
  refine .bind (.require (.mark (k := .leftParen) (m := n + 1) (fun _ => nofun) rfl) _)
    fun _ _ _ => ?_
  refine .bind S.obeys_itemList fun _ _ hitems => ?_
  refine .bind (.require (.exactly (k := .rightParen) (m := n) (fun _ => nofun) rfl) _)
    fun _ _ hclose => ?_
  exact .pure ⟨S.ofItems_alike hname hitems, hclose⟩

end Simulation

end CreateTable
