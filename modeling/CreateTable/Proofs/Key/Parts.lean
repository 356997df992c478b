import CreateTable.Key
import CreateTable.Proofs.Column.Grammar
import CreateTable.Proofs.Statement.Layout

/-!
# The parts of a key clause

Behind its opening words a key clause consists of parts that begin with a keyword, a name or a
parenthesis each: options, columns with their prefix lengths and directions, and the target of a
foreign key with its referential actions. For each part the tokens that spell it are those that its
rule reads, provided that what follows does not go on with it.

## Main definitions

* `Kind.IsNameBut`: a name that is not taken for a keyword.
* `Key.IsOption`, `Key.IsColumn`, `Key.IsColumnRow`: options and columns of a key.
* `Reference.IsActionClause`, `Reference.IsSpelledBy`: the target of a foreign key.

## Main statements

* `Key.exists_options`, `Key.options_of_row`: the options that are read.
* `Key.exists_isColumnRow`, `Key.IsColumnRow.runFrom`: the columns that are read.
* `Reference.exists_isSpelledBy`, `Reference.IsSpelledBy.runFrom`: the target that is read.
-/

namespace CreateTable

open Text

/-! ### Keywords -/

namespace Matcher

variable {c rest : Cursor}

/-- Of a keyword it is known which words it is. -/
theorem run_word_of_isWord {t : Token} {v : String} (hc : Cursor.IsBare (t :: c))
    (ht : t.kind.isWord v = true) (w : String) :
    (word w).run (t :: c) = if sameWord w v then some ((), c) else none := by
  have hword : t.kind.isWord w = sameWord w v := by
    rw [Bool.eq_iff_iff]
    constructor
    · exact fun hw => Kind.sameWord_of_isWord hw ht
    · intro hw
      obtain ⟨x, hx⟩ := Kind.exists_of_isWord ht
      rw [hx] at ht ⊢
      exact sameWord_iff.2 ((sameWord_iff.1 hw).trans (sameWord_iff.1 ht))
  rw [run_word_cons hc, hword]

/-- One of two keywords. -/
theorem run_eitherWord_eq_some_iff {v w : String} {u : Unit} (hc : c.IsBare) :
    (word v <|> word w).run c = some (u, rest) ↔
      ∃ t, c = t :: rest ∧ ∃ x ∈ [v, w], t.kind.isWord x = true := by
  rw [run_orElse_eq_some_iff, run_word_eq_some_iff hc, run_word_eq_some_iff hc]
  constructor
  · rintro (⟨t, rfl, ht⟩ | ⟨-, t, rfl, ht⟩)
    · exact ⟨t, rfl, v, by simp, ht⟩
    · exact ⟨t, rfl, w, by simp, ht⟩
  · rintro ⟨t, rfl, x, hx, ht⟩
    by_cases hv : t.kind.isWord v = true
    · exact .inl ⟨t, rfl, hv⟩
    · have hw : t.kind.isWord w = true := by
        rcases List.mem_pair.1 hx with rfl | rfl
        · exact absurd ht hv
        · exact ht
      refine .inr ⟨run_word_eq_none hc ?_, t, rfl, hw⟩
      rintro _ ⟨⟩
      simpa using hv

/-- Neither of two words is read where the first token is neither of them. -/
theorem run_eitherWord_eq_none {v w : String} (hc : c.IsBare)
    (h : ∀ x ∈ [v, w], ∀ t ∈ c.head?, t.kind.isWord x = false) :
    (word v <|> word w).run c = none :=
  run_orElse_eq_none_iff.2
    ⟨run_word_eq_none hc (h v (by simp)), run_word_eq_none hc (h w (by simp))⟩

end Matcher

/-- A name that is not taken for one of the keywords `ws`. In backticks no name is. -/
def Kind.IsNameBut (ws : List String) (name : String) (k : Kind) : Prop :=
  k.name? = some name ∧ ∀ w ∈ ws, k.isWord w = false

/-- A name in backticks is a name whatever the words that are left out. -/
theorem Kind.isNameBut_quotedWord (ws : List String) (name : String) :
    (quotedWord name).IsNameBut ws name :=
  ⟨rfl, fun _ _ => rfl⟩

/-! ### Options -/

namespace Key

variable {c rest : Cursor}

/-- The tokens of an option: `USING` with a word, or `COMMENT` with a string. -/
inductive IsOption : Cursor → Prop
  | type {w t : Token} {name : String} : w.kind.isWord "using" = true →
    t.kind.name? = some name → IsOption [w, t]
  | comment {w t : Token} {text : String} : w.kind.isWord "comment" = true →
    t.kind = .quoted .single text → IsOption [w, t]

/-- An option begins with `USING` or with `COMMENT`. -/
theorem IsOption.exists_cons {ts : Cursor} (h : IsOption ts) :
    ∃ w us, ts = w :: us ∧ ∃ v ∈ ["using", "comment"], w.kind.isWord v = true := by
  cases h with
  | type hw _ => exact ⟨_, _, rfl, "using", by simp, hw⟩
  | comment hw _ => exact ⟨_, _, rfl, "comment", by simp, hw⟩

/-- An option is two tokens long. -/
theorem IsOption.length_eq {ts : Cursor} (h : IsOption ts) : ts.length = 2 := by
  cases h <;> rfl

/-- A row of options is empty or begins with `USING` or with `COMMENT`. -/
theorem leadsWith_of_row {ts : Cursor} (h : Cursor.Row IsOption ts) :
    ts.LeadsWith ["using", "comment"] := by
  cases h with
  | nil => exact .nil
  | cons hoption _ =>
      obtain ⟨w, us, rfl, v, hv, hw⟩ := hoption.exists_cons
      exact .cons hw hv

/-- An option is read from its tokens. -/
theorem run_option_eq_some_iff (hc : c.IsBare) :
    option.run c = some ((), rest) ↔ ∃ ts, c = ts ++ rest ∧ IsOption ts := by
  simp only [option, Matcher.run_orElse_eq_some_iff, Matcher.run_seqRight_eq_some_iff,
    Matcher.run_map_eq_some_iff, Matcher.run_word_eq_some_iff hc, and_true]
  constructor
  · rintro (⟨_, mid, ⟨w, rfl, hw⟩, name, hname⟩ | ⟨-, _, mid, ⟨w, rfl, hw⟩, text, htext⟩)
    · have hmid := (Cursor.isBare_cons.1 hc).2
      obtain ⟨t, rfl, ht⟩ := (Matcher.run_identifier_eq_some_iff hmid).1 hname
      exact ⟨[w, t], rfl, .type hw ht⟩
    · have hmid := (Cursor.isBare_cons.1 hc).2
      obtain ⟨t, rfl, ht⟩ := (Value.run_stringLiteral_eq_some_iff hmid).1 htext
      exact ⟨[w, t], rfl, .comment hw ht⟩
  · rintro ⟨_, rfl, h⟩
    cases h with
    | @type w t name hw ht =>
        change Cursor.IsBare (w :: t :: rest) at hc
        have hmid := (Cursor.isBare_cons.1 hc).2
        have hname := (Matcher.run_identifier_eq_some_iff hmid).2 ⟨t, rfl, ht⟩
        exact .inl ⟨(), t :: rest, ⟨w, rfl, hw⟩, name, hname⟩
    | @comment w t text hw ht =>
        change Cursor.IsBare (w :: t :: rest) at hc
        have hmid := (Cursor.isBare_cons.1 hc).2
        have htext := (Value.run_stringLiteral_eq_some_iff hmid).2 ⟨t, rfl, ht⟩
        refine .inr ⟨?_, (), t :: rest, ⟨w, rfl, hw⟩, text, htext⟩
        rw [show [w, t] ++ rest = w :: t :: rest from rfl, Matcher.run_seqRight,
          Matcher.run_word_of_isWord hc hw]
        rfl

/-- There is no option in front of something else than its keywords. -/
theorem run_option_eq_none (hc : c.IsBare)
    (h : ∀ v ∈ ["using", "comment"], ∀ t ∈ c.head?, t.kind.isWord v = false) :
    option.run c = none := by
  refine Option.eq_none_iff_forall_ne_some.2 fun ⟨u, rest⟩ hrun => ?_
  obtain ⟨ts, rfl, hts⟩ := (run_option_eq_some_iff hc).1 hrun
  obtain ⟨w, us, rfl, v, hv, hw⟩ := hts.exists_cons
  exact absurd hw (by simp [h v hv w rfl])

/-- No option begins with an opening parenthesis. -/
theorem run_option_of_leftParen {l : Token} (hc : Cursor.IsBare (l :: c))
    (hl : l.kind = .leftParen) : option.run (l :: c) = none :=
  run_option_eq_none hc (by simp [hl, Kind.isWord])

/-- What is read as options is a row of them. -/
theorem exists_options (hc : c.IsBare) (h : options.runFrom c = (.ok (), rest)) :
    ∃ ts, c = ts ++ rest ∧ Cursor.Row IsOption ts := by
  simp only [options, Rule.runFrom_bind_eq_ok_iff, Rule.runFrom_many,
    Rule.runFrom_pure_eq_ok_iff, Prod.mk.injEq] at h
  obtain ⟨_, _, ⟨-, rfl⟩, -, rfl⟩ := h
  fun_induction Matcher.many option c with
  | case1 => exact ⟨[], rfl, .nil⟩
  | case2 c a rest hrun _ as last hlast ih =>
      obtain ⟨ts, rfl, hts⟩ := (run_option_eq_some_iff hc).1 hrun
      obtain ⟨us, hus, hrow⟩ := ih (Cursor.isBare_append.1 hc).2
      rw [hlast] at hus
      exact ⟨ts ++ us, by rw [List.append_assoc, ← hus], .cons hts hrow⟩
  | case3 => exact ⟨[], rfl, .nil⟩

/-- A row of options is read completely, in front of something else. -/
theorem options_of_row {ts : Cursor} (h : Cursor.Row IsOption ts)
    (hc : Cursor.IsBare (ts ++ rest)) (hrest : option.run rest = none) :
    options.runFrom (ts ++ rest) = (.ok (), rest) := by
  simp only [options, Rule.runFrom_bind_eq_ok_iff, Rule.runFrom_many_eq_ok_iff,
    Rule.runFrom_pure_eq_ok_iff]
  induction h with
  | nil => exact ⟨[], rest, by rw [List.nil_append, Matcher.many, hrest], trivial, rfl⟩
  | @cons ts us hts _ ih =>
      rw [List.append_assoc] at hc ⊢
      obtain ⟨as, mid, hmany, -, rfl⟩ := ih (Cursor.isBare_append.1 hc).2
      have hrun := (run_option_eq_some_iff hc).2 ⟨ts, rfl, hts⟩
      have hlt : (us ++ mid).length < (ts ++ (us ++ mid)).length := by
        obtain ⟨w, vs, rfl, -⟩ := hts.exists_cons
        simp only [List.length_append, List.length_cons]
        omega
      refine ⟨() :: as, mid, ?_, trivial, rfl⟩
      rw [Matcher.many, hrun]
      simp only [hlt, if_true, hmany]

/-! ### Columns -/

/-- The tokens of a prefix length that may be missing. -/
inductive IsPrefixLength : Cursor → Prop
  | absent : IsPrefixLength []
  | present {l n r : Token} {digits : String} : l.kind = .leftParen → n.kind.IsDigits digits →
    r.kind = .rightParen → IsPrefixLength [l, n, r]

/-- The tokens of a sort direction that may be missing. -/
inductive IsDirection : Cursor → Prop
  | absent : IsDirection []
  | present {t : Token} {w : String} : w ∈ ["asc", "desc"] → t.kind.isWord w = true →
    IsDirection [t]

/-- The tokens of a column of a key: its name, a prefix length, and a direction. -/
inductive IsColumn (name : String) : Cursor → Prop
  | mk {t : Token} {ps ds : Cursor} : t.kind.name? = some name → IsPrefixLength ps →
    IsDirection ds → IsColumn name (t :: (ps ++ ds))

/-- The tokens of the columns of a key: in parentheses, with commas between them. -/
inductive IsColumnRow : List String → Cursor → Prop
  | mk {l r : Token} {b : Cursor} {ss : List Cursor} {names : List String} :
    l.kind = .leftParen → b.Joined ss → List.Forall₂ IsColumn names ss →
    r.kind = .rightParen → IsColumnRow names (l :: (b ++ [r]))

/-- A prefix length is digits between parentheses. -/
theorem run_prefixLength_eq_some_iff (hc : c.IsBare) :
    prefixLength.run c = some ((), rest) ↔
      ∃ (l n r : Token) (digits : String), c = l :: n :: r :: rest ∧ l.kind = .leftParen ∧
        n.kind.IsDigits digits ∧ r.kind = .rightParen := by
  simp only [prefixLength, Matcher.run_bind_eq_some_iff, Matcher.run_mark_eq_some_iff hc]
  constructor
  · rintro ⟨_, c₁, ⟨l, rfl, hl⟩, digits, c₂, hdigits, hclose⟩
    have hc₁ := (Cursor.isBare_cons.1 hc).2
    obtain ⟨n, rfl, hn⟩ := (Matcher.run_digits_eq_some_iff hc₁).1 hdigits
    obtain ⟨r, rfl, hr⟩ := (Matcher.run_mark_eq_some_iff (Cursor.isBare_cons.1 hc₁).2).1 hclose
    exact ⟨l, n, r, digits, rfl, hl, hn, hr⟩
  · rintro ⟨l, n, r, digits, rfl, hl, hn, hr⟩
    have hc₁ := (Cursor.isBare_cons.1 hc).2
    have hdigits := (Matcher.run_digits_eq_some_iff hc₁).2 ⟨n, rfl, hn⟩
    have hc₂ := (Cursor.isBare_cons.1 hc₁).2
    exact ⟨(), _, ⟨l, rfl, hl⟩, digits, _, hdigits,
      (Matcher.run_mark_eq_some_iff hc₂).2 ⟨r, rfl, hr⟩⟩

/-- What is read as a column is one. -/
theorem exists_isColumn {name : String} (hc : c.IsBare)
    (h : columnRule.runFrom c = (.ok name, rest)) : ∃ ts, c = ts ++ rest ∧ IsColumn name ts := by
  simp only [columnRule, Rule.runFrom_bind_eq_ok_iff, Rule.runFrom_require_eq_ok_iff,
    Matcher.run_identifier_eq_some_iff hc, Rule.runFrom_allow_eq_ok_iff,
    Rule.runFrom_pure_eq_ok_iff] at h
  obtain ⟨_, c₁, ⟨t, rfl, ht⟩, x, c₂, hprefix, y, c₃, hdirection, rfl, rfl⟩ := h
  have hc₁ := (Cursor.isBare_cons.1 hc).2
  obtain ⟨ps, rfl, hps⟩ : ∃ ps, c₁ = ps ++ c₂ ∧ IsPrefixLength ps := by
    rcases hprefix with ⟨-, -, rfl⟩ | ⟨⟨⟩, -, hrun⟩
    · exact ⟨[], rfl, .absent⟩
    · obtain ⟨l, n, r, digits, rfl, hl, hn, hr⟩ := (run_prefixLength_eq_some_iff hc₁).1 hrun
      exact ⟨[l, n, r], rfl, .present hl hn hr⟩
  obtain ⟨ds, rfl, hds⟩ : ∃ ds, c₂ = ds ++ c₃ ∧ IsDirection ds := by
    rcases hdirection with ⟨-, -, rfl⟩ | ⟨⟨⟩, -, hrun⟩
    · exact ⟨[], rfl, .absent⟩
    · have hc₂ := (Cursor.isBare_append.1 hc₁).2
      obtain ⟨d, rfl, w, hw, hd⟩ := (Matcher.run_eitherWord_eq_some_iff hc₂).1 hrun
      exact ⟨[d], rfl, .present hw hd⟩
  exact ⟨t :: (ps ++ ds), by simp, .mk ht hps hds⟩

/-- A direction is read to its end. -/
theorem IsDirection.runFrom {ds : Cursor} (h : IsDirection ds) (hc : ds.IsBare) :
    ∃ y, (Rule.allow (Matcher.word "asc" <|> Matcher.word "desc")).runFrom ds = (.ok y, []) := by
  simp only [Rule.runFrom_allow_eq_ok_iff]
  cases h with
  | absent => exact ⟨none, .inl ⟨rfl, rfl, rfl⟩⟩
  | @present t w hw ht =>
      exact ⟨some (), .inr ⟨(), rfl, (Matcher.run_eitherWord_eq_some_iff hc).2 ⟨t, rfl, w, hw, ht⟩⟩⟩

/-- A prefix length is read completely, in front of a direction. -/
theorem IsPrefixLength.runFrom {ps ds : Cursor} (h : IsPrefixLength ps) (hds : IsDirection ds)
    (hc : Cursor.IsBare (ps ++ ds)) :
    ∃ x, (Rule.allow prefixLength).runFrom (ps ++ ds) = (.ok x, ds) := by
  simp only [Rule.runFrom_allow_eq_ok_iff]
  cases h with
  | absent =>
      have hopen : (Matcher.mark .leftParen).run ds = none := by
        cases hds with
        | absent => rfl
        | present _ ht =>
            have hlead : Cursor.LeadsWith [_] [_] := .cons ht List.mem_cons_self
            exact hlead.run_mark hc (by simp)
      refine ⟨none, .inl ⟨rfl, ?_, rfl⟩⟩
      rw [List.nil_append, prefixLength, Matcher.run_bind, hopen, Option.bind_none]
  | @present l n r digits hl hn hr =>
      have hrun := (run_prefixLength_eq_some_iff hc).2 ⟨l, n, r, digits, rfl, hl, hn, hr⟩
      exact ⟨some (), .inr ⟨(), rfl, hrun⟩⟩

/-- A column is read from its tokens, to their end. -/
theorem IsColumn.runFrom {name : String} {ts : Cursor} (h : IsColumn name ts) (hc : ts.IsBare) :
    columnRule.runFrom ts = (.ok name, []) := by
  obtain ⟨ht, hps, hds⟩ := h
  rename_i t ps ds
  have hbehind := (Cursor.isBare_cons.1 hc).2
  obtain ⟨x, hprefix⟩ := hps.runFrom hds hbehind
  obtain ⟨y, hdirection⟩ := hds.runFrom (Cursor.isBare_append.1 hbehind).2
  simp only [columnRule, Rule.runFrom_bind_eq_ok_iff, Rule.runFrom_require_eq_ok_iff,
    Matcher.run_identifier_eq_some_iff hc]
  exact ⟨name, _, ⟨t, rfl, ht⟩, x, ds, hprefix, y, [], hdirection, rfl⟩

/-- A column is a segment. -/
theorem IsColumn.isSegment {name : String} {ts : Cursor} (h : IsColumn name ts) :
    ts.IsSegment := by
  obtain ⟨ht, hps, hds⟩ := h
  rename_i t ps ds
  have hname : t.kind.depth? 0 = some 0 := by
    cases hk : t.kind <;> simp [hk, Kind.name?] at ht <;> rfl
  have hprefix : ps.depthAfter? 0 = some 0 := by
    cases hps with
    | absent => rfl
    | @present l n r digits hl hn hr =>
        obtain ⟨long, hn, -⟩ := hn
        simp [hl, hn, hr, Kind.depth?]
  have hdirection : ds.depthAfter? 0 = some 0 := by
    cases hds with
    | absent => rfl
    | present _ hd =>
        obtain ⟨v, hv⟩ := Kind.exists_of_isWord hd
        simp [hv, Kind.depth?]
  rw [Cursor.IsSegment, Cursor.depthAfter?_cons, hname, Option.bind_some,
    Cursor.depthAfter?_append, hprefix, Option.bind_some, hdirection]

/-- A column row begins with an opening parenthesis. -/
theorem IsColumnRow.exists_cons {names : List String} {ts : Cursor} (h : IsColumnRow names ts) :
    ∃ l us, ts = l :: us ∧ l.kind = .leftParen := by
  obtain ⟨hl, -, -, -⟩ := h
  exact ⟨_, _, rfl, hl⟩

/-- The columns of a key begin with a parenthesis and a name. -/
theorem IsColumnRow.exists_cons_cons {names : List String} {ts : Cursor}
    (h : IsColumnRow names ts) :
    ∃ l t us name, ts = l :: t :: us ∧ l.kind = .leftParen ∧ t.kind.name? = some name := by
  obtain ⟨hl, hjoined, hall, -⟩ := h
  cases hjoined with
  | single =>
      obtain ⟨name, _, hs, -, rfl⟩ := List.forall₂_cons_right_iff.1 hall
      obtain ⟨ht, -, -⟩ := hs
      exact ⟨_, _, _, name, rfl, hl, ht⟩
  | cons =>
      obtain ⟨name, _, hs, -, rfl⟩ := List.forall₂_cons_right_iff.1 hall
      obtain ⟨ht, -, -⟩ := hs
      exact ⟨_, _, _, name, rfl, hl, ht⟩

/-- What is read as columns in parentheses is a row of them. -/
theorem exists_isColumnRow {names : List String} (hc : c.IsBare)
    (h : columnListRule.runFrom c = (.ok names, rest)) :
    ∃ ts, c = ts ++ rest ∧ IsColumnRow names ts := by
  simp only [columnListRule, Rule.runFrom_bind_eq_ok_iff, Rule.runFrom_require_eq_ok_iff,
    Matcher.run_mark_eq_some_iff hc, Rule.runFrom_pure_eq_ok_iff] at h
  obtain ⟨_, c₁, ⟨l, rfl, hl⟩, _, c₂, hrow, _, _, hclose, rfl, rfl⟩ := h
  have hc₁ := (Cursor.isBare_cons.1 hc).2
  obtain ⟨e, rfl, -⟩ := Rule.exists_prefix (n := 1) hc₁
    (.separated (.mark (k := .comma) (fun _ => nofun) rfl) (Simulation.obeys_keyColumn _)) hrow
  obtain ⟨r, rfl, hr⟩ := (Matcher.run_mark_eq_some_iff (Cursor.isBare_append.1 hc₁).2).1 hclose
  obtain ⟨b, ss, hb, hjoined, hss, hall⟩ := Rule.joined_of_separatedFrom (A := fun W => W)
    (fun S => S.obeys_keyColumn) (fun _ _ => id) hc₁ hr hrow
  rw [hb]
  refine ⟨l :: (b ++ [r]), by simp, .mk hl hjoined ?_ hr⟩
  refine (((List.forall₂_and_left _ _).2 ⟨hss, hall⟩).imp fun s name hs => ?_).flip
  obtain ⟨ts, rfl, hts⟩ := exists_isColumn (Cursor.isBare_of_depthAfter? hs.1) hs.2
  rwa [List.append_nil]

/-- A row of columns is read from its tokens. -/
theorem IsColumnRow.runFrom {names : List String} {ts : Cursor} (h : IsColumnRow names ts)
    (hc : Cursor.IsBare (ts ++ rest)) :
    columnListRule.runFrom (ts ++ rest) = (.ok names, rest) := by
  obtain ⟨hl, hjoined, hall, hr⟩ := h
  rename_i l r b ss
  rw [List.cons_append, List.append_assoc, List.singleton_append] at hc ⊢
  have hopen := (Cursor.isBare_cons.1 hc).2
  have hclose := (Cursor.isBare_append.1 hopen).2
  have hread : List.Forall₂ (fun s name => s.IsSegment ∧ columnRule.runFrom s = (.ok name, [])) ss
      names :=
    hall.flip.imp fun s name hs =>
      ⟨hs.isSegment, hs.runFrom (Cursor.isBare_of_depthAfter? hs.isSegment)⟩
  obtain ⟨hsegments, hread⟩ := (List.forall₂_and_left _ _).1 hread
  have hrow := Rule.separatedFrom_of_joined (A := fun W => W)
    (fun S => S.obeys_keyColumn) (fun _ _ => id) hopen hr hjoined hsegments hread
  simp only [columnListRule, Rule.runFrom_bind_eq_ok_iff, Rule.runFrom_require_eq_ok_iff,
    Matcher.run_mark_eq_some_iff hc]
  exact ⟨(), _, ⟨l, rfl, hl⟩, names, _, hrow, (), rest,
    (Matcher.run_mark_eq_some_iff hclose).2 ⟨r, rfl, hr⟩, rfl⟩

end Key

/-! ### The target of a foreign key -/

/-- Of two rows of keywords that are spelled from the same token on, the one agrees with the other
as far as both go. -/
theorem Cursor.Spells.sameWords {vs ws : List String} {ts us x y : Cursor} (hts : ts.Spells vs)
    (hus : us.Spells ws) (h : ts ++ x = us ++ y) :
    (vs.zip ws).all (fun p => sameWord p.1 p.2) = true := by
  induction hts generalizing us ws with
  | nil => rfl
  | @cons v t vs ts ht _ ih =>
      cases hus with
      | nil => rfl
      | @cons w u ws us hu hus =>
          obtain ⟨rfl, htail⟩ := List.cons.inj h
          rw [List.zip_cons_cons, List.all_cons, ih hus htail, Bool.and_true]
          exact Kind.sameWord_of_isWord ht hu

namespace Reference

variable {c rest : Cursor}

/-- The tokens of a referential action: `ON`, an event, and one of the actions. -/
inductive IsActionClause : Cursor → Prop
  | mk {o e : Token} {event : String} {action : List String} {ts : Cursor} :
    o.kind.isWord "on" = true → event ∈ ["delete", "update"] → e.kind.isWord event = true →
    action ∈ actions → ts.Spells action → IsActionClause (o :: e :: ts)

/-- The tokens that **spell** the target of a foreign key: `REFERENCES`, the name of a table, its
columns, and referential actions in any number. -/
inductive IsSpelledBy : Reference → Cursor → Prop
  | mk {w : Token} {q : QualifiedName} {columns : List String} {ns cs as : Cursor} :
    w.kind.isWord "references" = true → q.IsSpelledBy ns → Key.IsColumnRow columns cs →
    Cursor.Row IsActionClause as → IsSpelledBy ⟨q.joined, columns⟩ (w :: (ns ++ (cs ++ as)))

/-- No action begins with another one. -/
theorem eq_of_sameWords : ∀ a ∈ actions, ∀ b ∈ actions,
    (a.zip b).all (fun p => sameWord p.1 p.2) = true → a = b := by
  decide

/-- An action is read from the tokens that spell it. -/
theorem run_actions_eq_some_iff (hc : c.IsBare) :
    (actions.firstM Matcher.phrase).run c = some ((), rest) ↔
      ∃ action ∈ actions, ∃ ts, c = ts ++ rest ∧ ts.Spells action := by
  rw [Matcher.run_firstM_eq_some_iff]
  · simp only [Matcher.run_phrase_eq_some_iff hc]
  · intro a ha b hb hreadA hreadB
    obtain ⟨⟨_, x⟩, hreadA⟩ := Option.isSome_iff_exists.1 hreadA
    obtain ⟨⟨_, y⟩, hreadB⟩ := Option.isSome_iff_exists.1 hreadB
    obtain ⟨ts, rfl, hts⟩ := (Matcher.run_phrase_eq_some_iff hc).1 hreadA
    obtain ⟨us, heq, hus⟩ := (Matcher.run_phrase_eq_some_iff hc).1 hreadB
    exact eq_of_sameWords a ha b hb (hts.sameWords hus heq)

/-- An action clause is an event and the spelling of an action behind it. -/
theorem actionClause_eq_ok_iff (hc : c.IsBare) :
    actionClause.runFrom c = (.ok (), rest) ↔
      ∃ e ts, c = e :: (ts ++ rest) ∧ (∃ event ∈ ["delete", "update"], e.kind.isWord event = true) ∧
        ∃ action ∈ actions, ts.Spells action := by
  simp only [actionClause, Rule.runFrom_bind_eq_ok_iff, Rule.runFrom_require_eq_ok_iff,
    Matcher.run_eitherWord_eq_some_iff hc]
  constructor
  · rintro ⟨_, mid, ⟨e, rfl, he⟩, hread⟩
    obtain ⟨action, haction, ts, rfl, hts⟩ :=
      (run_actions_eq_some_iff (Cursor.isBare_cons.1 hc).2).1 hread
    exact ⟨e, ts, rfl, he, action, haction, hts⟩
  · rintro ⟨e, ts, rfl, he, action, haction, hts⟩
    refine ⟨(), ts ++ rest, ⟨e, rfl, he⟩, ?_⟩
    exact (run_actions_eq_some_iff (Cursor.isBare_cons.1 hc).2).2 ⟨action, haction, ts, rfl, hts⟩

/-- What is read behind the columns of a target is a row of referential actions. -/
theorem exists_actionClauses (hc : c.IsBare)
    (h : (Rule.follow (Matcher.word "on") actionClause).runFrom c = (.ok (), rest)) :
    ∃ ts, c = ts ++ rest ∧ Cursor.Row IsActionClause ts := by
  rw [Rule.follow, Rule.runFrom_ofFunction] at h
  have hpart {c behind next : Cursor} {u v : Unit} (hc : c.IsBare)
      (hlead : (Matcher.word "on").run c = some (u, behind))
      (hread : actionClause.runFrom behind = (.ok v, next)) :
      ∃ ts, c = ts ++ next ∧ IsActionClause ts := by
    obtain ⟨o, rfl, ho⟩ := (Matcher.run_word_eq_some_iff hc).1 hlead
    obtain ⟨e, ts, rfl, ⟨event, hevent, he⟩, action, haction, hts⟩ :=
      (actionClause_eq_ok_iff (Cursor.isBare_cons.1 hc).2).1 hread
    exact ⟨o :: e :: ts, rfl, .mk ho hevent he haction hts⟩
  fun_induction Rule.followFrom (Matcher.word "on") actionClause c with
  | case1 =>
      obtain rfl := (Prod.mk.inj h).2
      exact ⟨[], rfl, .nil⟩
  | case2 => cases h
  | case3 c u behind hlead v next hread _ ih =>
      obtain ⟨ts, rfl, hts⟩ := hpart hc hlead hread
      obtain ⟨us, rfl, hus⟩ := ih (Cursor.isBare_append.1 hc).2 h
      exact ⟨ts ++ us, by rw [List.append_assoc], .cons hts hus⟩
  | case4 c u behind hlead v next hread _ =>
      obtain rfl := (Prod.mk.inj h).2
      obtain ⟨ts, rfl, hts⟩ := hpart hc hlead hread
      exact ⟨ts ++ [], by rw [List.append_nil], .cons hts .nil⟩

/-- Referential actions are read, and what follows them is read as if it stood alone. -/
theorem followFrom_row {ts : Cursor} (h : Cursor.Row IsActionClause ts)
    (hc : Cursor.IsBare (ts ++ rest)) :
    Rule.followFrom (Matcher.word "on") actionClause (ts ++ rest)
      = Rule.followFrom (Matcher.word "on") actionClause rest := by
  induction h with
  | nil => rfl
  | @cons _ us hts _ ih =>
      obtain ⟨ho, hevent, he, haction, hts⟩ := hts
      rename_i o e event action ts
      rw [List.append_assoc, List.cons_append, List.cons_append] at hc ⊢
      have hbehind := (Cursor.isBare_cons.1 hc).2
      have hnext := ih (Cursor.isBare_append.1 (Cursor.isBare_cons.1 hbehind).2).2
      have hlead := (Matcher.run_word_eq_some_iff (u := ()) hc).2 ⟨o, rfl, ho⟩
      have hread := (actionClause_eq_ok_iff hbehind).2
        ⟨e, ts, rfl, ⟨event, hevent, he⟩, action, haction, hts⟩
      have hlt : (us ++ rest).length < (o :: e :: (ts ++ (us ++ rest))).length := by
        simp only [List.length_append, List.length_cons]
        omega
      rw [Rule.followFrom, hlead]
      simp only [hread, hlt, if_true, hnext]

/-- A row of referential actions is read completely, in front of other keywords. -/
theorem actionClauses_of_row {ts : Cursor} {ws : List String} (h : Cursor.Row IsActionClause ts)
    (hc : Cursor.IsBare (ts ++ rest)) (hrest : rest.LeadsWith ws)
    (hws : ∀ w ∈ ws, sameWord "on" w = false) :
    (Rule.follow (Matcher.word "on") actionClause).runFrom (ts ++ rest) = (.ok (), rest) := by
  rw [Rule.follow, Rule.runFrom_ofFunction, followFrom_row h hc, Rule.followFrom,
    hrest.run_word (Cursor.isBare_append.1 hc).2 hws]

/-- What is read as the target of a foreign key spells it. -/
theorem exists_isSpelledBy {r : Reference} (hc : c.IsBare)
    (h : Reference.rule.runFrom c = (.ok r, rest)) : ∃ ts, c = ts ++ rest ∧ r.IsSpelledBy ts := by
  simp only [Reference.rule, Rule.runFrom_bind_eq_ok_iff, Rule.runFrom_require_eq_ok_iff,
    Matcher.run_word_eq_some_iff hc, Rule.runFrom_pure_eq_ok_iff] at h
  obtain ⟨_, c₁, ⟨w, rfl, hw⟩, q, c₂, htable, columns, c₃, hcolumns, _, _, hactions, rfl, rfl⟩ := h
  have hc₁ := (Cursor.isBare_cons.1 hc).2
  obtain ⟨ns, rfl, hns⟩ := QualifiedName.exists_isSpelledBy hc₁ htable
  have hc₂ := (Cursor.isBare_append.1 hc₁).2
  obtain ⟨cs, rfl, hcs⟩ := Key.exists_isColumnRow hc₂ hcolumns
  obtain ⟨as, rfl, has⟩ := exists_actionClauses (Cursor.isBare_append.1 hc₂).2 hactions
  exact ⟨w :: (ns ++ (cs ++ as)), by simp, .mk hw hns hcs has⟩

/-- The target of a foreign key is read from the tokens that spell it, in front of other
keywords. -/
theorem IsSpelledBy.runFrom {r : Reference} {ts : Cursor} {ws : List String}
    (h : r.IsSpelledBy ts) (hc : Cursor.IsBare (ts ++ rest)) (hrest : rest.LeadsWith ws)
    (hws : ∀ w ∈ ws, sameWord "on" w = false) :
    Reference.rule.runFrom (ts ++ rest) = (.ok r, rest) := by
  obtain ⟨hw, hns, hcs, has⟩ := h
  rename_i w q columns ns cs as
  rw [List.cons_append, List.append_assoc, List.append_assoc] at hc ⊢
  have hc₁ := (Cursor.isBare_cons.1 hc).2
  have hc₂ := (Cursor.isBare_append.1 hc₁).2
  have hperiod : ∀ t ∈ (cs ++ (as ++ rest)).head?, t.kind ≠ .period := by
    obtain ⟨l, us, rfl, hl⟩ := hcs.exists_cons
    rintro _ ⟨⟩
    simp [hl]
  have htable := hns.runFrom (e := .referencedTable) hc₁ hperiod
  have hactions := actionClauses_of_row has (Cursor.isBare_append.1 hc₂).2 hrest hws
  simp only [Reference.rule, Rule.runFrom_bind_eq_ok_iff, Rule.runFrom_require_eq_ok_iff,
    Matcher.run_word_eq_some_iff hc]
  exact ⟨(), _, ⟨w, rfl, hw⟩, q, _, htable, columns, _, hcs.runFrom hc₂, (), rest, hactions, rfl⟩

end Reference

end CreateTable
