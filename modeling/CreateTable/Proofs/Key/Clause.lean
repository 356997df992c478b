import CreateTable.Proofs.Key.Parts

/-!
# The grammar of key clauses

A key clause has two optional names, and both compete with keywords: the name of a constraint with
the kind behind it, the name of an index with the second word of the kind before it and with an
option behind it. A keyword wins wherever it stands unquoted; a name in backticks is always a name.
With these exceptions stated, a rule that takes each part greedily reads all key clauses and nothing
else.

## Main definitions

* `KeyKind.spellings`, `KeyKind.continuations`: the words of a kind, and those that go on with it.
* `Key.IsConstraint`, `Key.IsIndexName`, `Key.IsTarget`: the optional parts of a key clause.
* `Key.IsSpelledBy`: the tokens of a key clause.
* `Key.IsFront`: the tokens in front of the columns.

## Main statements

* `KeyKind.exists_spells`, `KeyKind.run_of_spells`: the kind that is read.
* `Key.exists_isSpelledBy`: what is read as a key is a key clause.
* `Key.IsFront.runFrom`: the tokens in front of the columns are read up to these.
* `Key.IsSpelledBy.runFrom_append`, `Key.IsSpelledBy.runFrom`: a key clause is read completely.
* `Key.runFrom_eq_ok_iff_isSpelledBy`: both together, in front of what ends an item.
-/

namespace CreateTable

open Text

/-! ### The kind of a key -/

namespace KeyKind

variable {c rest : Cursor}

/-- The ways to **spell** a kind of keys. -/
def spellings : KeyKind → List (List String)
  | primary => [["primary", "key"]]
  | unique => [["unique"], ["unique", "key"], ["unique", "index"]]
  | index => [["key"], ["index"]]
  | fulltext => [["fulltext"], ["fulltext", "key"], ["fulltext", "index"]]
  | foreign => [["foreign", "key"]]

/-- The first words of the spellings of a kind. -/
def leads (kind : KeyKind) : List String :=
  kind.spellings.filterMap List.head?

/-- The words that go on with the spelling `ws` where they follow it. -/
def continuations (ws : List String) : List String :=
  if ws ∈ [["unique"], ["fulltext"]] then ["key", "index"] else []

/-- The spelling of a kind begins with a word that leads a key clause. -/
theorem exists_cons_of_spells {kind : KeyKind} {ws : List String} {ts : Cursor}
    (hws : ws ∈ kind.spellings) (h : ts.Spells ws) :
    ∃ t us, ts = t :: us ∧ ∃ v ∈ kind.leads, t.kind.isWord v = true := by
  cases h with
  | nil =>
      have hne : [] ∉ kind.spellings := by cases kind <;> decide
      exact absurd hws hne
  | @cons v t vs us ht _ => exact ⟨t, us, rfl, v, List.mem_filterMap.2 ⟨_, hws, rfl⟩, ht⟩

/-- The word for an index is passed over where it stands, and nothing is taken where it does not. -/
theorem run_optional_indexWord_eq_some_iff {x : Option Unit} (hc : c.IsBare) :
    (optional indexWord).run c = some (x, rest) ↔
      (x = none ∧ rest = c ∧ ∀ v ∈ ["key", "index"], ∀ t ∈ c.head?, t.kind.isWord v = false) ∨
        ∃ t, x = some () ∧ c = t :: rest ∧ ∃ v ∈ ["key", "index"], t.kind.isWord v = true := by
  rw [Matcher.run_optional_eq_some_iff]
  constructor
  · rintro (⟨rfl, hnone, rfl⟩ | ⟨⟨⟩, rfl, hrun⟩)
    · refine .inl ⟨rfl, rfl, fun v hv t ht => ?_⟩
      refine Bool.eq_false_iff.2 fun hword => ?_
      obtain ⟨d, rfl⟩ := List.head?_eq_some_iff.1 ht
      have hrun := (Matcher.run_eitherWord_eq_some_iff (u := ()) hc).2 ⟨t, rfl, v, hv, hword⟩
      exact Option.some_ne_none _ (hrun.symm.trans hnone)
    · obtain ⟨t, rfl, ht⟩ := (Matcher.run_eitherWord_eq_some_iff hc).1 hrun
      exact .inr ⟨t, rfl, rfl, ht⟩
  · rintro (⟨rfl, rfl, hnone⟩ | ⟨t, rfl, rfl, ht⟩)
    · exact .inl ⟨rfl, Matcher.run_eitherWord_eq_none hc hnone, rfl⟩
    · exact .inr ⟨(), rfl, (Matcher.run_eitherWord_eq_some_iff hc).2 ⟨t, rfl, ht⟩⟩

/-- Behind `UNIQUE` and `FULLTEXT` the optional word is what the spelling goes on with. -/
theorem exists_run_optional_indexWord_iff {w : String} {t : Token}
    (hw : w ∈ ["unique", "fulltext"]) (hc : Cursor.IsBare (t :: c))
    (ht : t.kind.isWord w = true) :
    (∃ x, (optional indexWord).run c = some (x, rest)) ↔
      ∃ ws ∈ [[w], [w, "key"], [w, "index"]], ∃ ts : Cursor, t :: c = ts ++ rest ∧ ts.Spells ws ∧
        ∀ v ∈ continuations ws, ∀ t ∈ rest.head?, t.kind.isWord v = false := by
  have hcontinues : continuations [w] = ["key", "index"] := if_pos (by simpa using hw)
  simp only [run_optional_indexWord_eq_some_iff (Cursor.isBare_cons.1 hc).2]
  constructor
  · rintro ⟨x, ⟨-, rfl, hbehind⟩ | ⟨u, -, rfl, v, hv, hu⟩⟩
    · exact ⟨[w], by simp, [t], rfl, .cons ht .nil, by rwa [hcontinues]⟩
    · refine ⟨[w, v], by simpa using hv, [t, u], rfl, .cons ht (.cons hu .nil), ?_⟩
      simp [continuations]
  · rintro ⟨ws, hws, ts, hts, hspells, hbehind⟩
    rcases List.mem_cons.1 hws with rfl | hws
    · obtain ⟨_, _, -, ⟨⟩, rfl⟩ := List.forall₂_cons_left_iff.1 hspells
      obtain ⟨rfl, rfl⟩ := List.cons.inj hts
      rw [hcontinues] at hbehind
      exact ⟨none, .inl ⟨rfl, rfl, hbehind⟩⟩
    · obtain ⟨v, hv, rfl⟩ : ∃ v ∈ ["key", "index"], ws = [w, v] := by simpa using hws
      obtain ⟨_, _, -, hus, rfl⟩ := List.forall₂_cons_left_iff.1 hspells
      obtain ⟨u, _, hu, ⟨⟩, rfl⟩ := List.forall₂_cons_left_iff.1 hus
      obtain ⟨rfl, rfl⟩ := List.cons.inj hts
      exact ⟨some (), .inr ⟨u, rfl, rfl, v, hv, hu⟩⟩

/-- What is read as a kind spells it, as far as the spelling goes. -/
theorem exists_spells {kind : KeyKind} (hc : c.IsBare) (h : matcher.run c = some (kind, rest)) :
    ∃ ws ∈ kind.spellings, ∃ ts, c = ts ++ rest ∧ ts.Spells ws ∧
      ∀ v ∈ continuations ws, ∀ t ∈ rest.head?, t.kind.isWord v = false := by
  simp only [matcher, Matcher.run_orElse_eq_some_iff, Matcher.run_seqRight_eq_some_iff,
    Matcher.run_pure_eq_some_iff, Matcher.run_phrase_eq_some_iff hc,
    Matcher.run_word_eq_some_iff hc] at h
  obtain ⟨_, _, ⟨ts, rfl, hts⟩, rfl, rfl⟩ | ⟨-, h⟩ := h
  · exact ⟨_, List.mem_singleton_self _, ts, rfl, hts, by simp [continuations]⟩
  obtain ⟨x, _, ⟨_, _, ⟨t, rfl, ht⟩, hrun⟩, rfl, rfl⟩ | ⟨-, h⟩ := h
  · exact (exists_run_optional_indexWord_iff (by simp) hc ht).1 ⟨x, hrun⟩
  obtain ⟨x, _, ⟨_, _, ⟨t, rfl, ht⟩, hrun⟩, rfl, rfl⟩ | ⟨-, h⟩ := h
  · exact (exists_run_optional_indexWord_iff (by simp) hc ht).1 ⟨x, hrun⟩
  obtain ⟨_, _, ⟨ts, rfl, hts⟩, rfl, rfl⟩ | ⟨-, _, _, hrun, rfl, rfl⟩ := h
  · exact ⟨_, List.mem_singleton_self _, ts, rfl, hts, by simp [continuations]⟩
  · obtain ⟨t, rfl, v, hv, ht⟩ := (Matcher.run_eitherWord_eq_some_iff hc).1 hrun
    refine ⟨[v], by simpa [spellings] using hv, [t], rfl, .cons ht .nil, ?_⟩
    rcases List.mem_pair.1 hv with rfl | rfl <;> simp [continuations]

/-- A spelling is read as the kind that it spells, unless it goes on. -/
theorem run_of_spells {kind : KeyKind} {ws : List String} {ts : Cursor}
    (hws : ws ∈ kind.spellings) (h : ts.Spells ws) (hc : Cursor.IsBare (ts ++ rest))
    (hrest : ∀ v ∈ continuations ws, ∀ t ∈ rest.head?, t.kind.isWord v = false) :
    matcher.run (ts ++ rest) = some (kind, rest) := by
  obtain ⟨t, us, rfl, v, hv, ht⟩ := exists_cons_of_spells hws h
  change Cursor.IsBare (t :: (us ++ rest)) at hc
  have hword := Matcher.run_word_of_isWord hc ht
  rw [List.cons_append]
  -- the first word tells which alternative is taken
  cases kind with
  | unique | fulltext =>
      obtain rfl : v = _ := by simpa [leads, spellings] using hv
      obtain ⟨x, hoptional⟩ := (exists_run_optional_indexWord_iff (by simp) hc ht).2
        ⟨ws, hws, t :: us, rfl, h, hrest⟩
      simp +decide only [matcher, Matcher.phrase, Matcher.run_orElse, Matcher.run_seqRight,
        Matcher.run_bind, hword, hoptional, if_true, if_false, Option.bind_none, Option.bind_some,
        Option.none_or, Option.some_or, Matcher.run_pure]
  | primary | foreign =>
      obtain rfl := List.mem_singleton.1 hws
      obtain rfl : v = _ := by simpa [leads, spellings] using hv
      obtain ⟨-, hus⟩ := List.forall₂_cons.1 h
      obtain ⟨u, _, hu, ⟨⟩, rfl⟩ := List.forall₂_cons_left_iff.1 hus
      rw [List.singleton_append] at hc hword ⊢
      have hsecond := Matcher.run_word_of_isWord (Cursor.isBare_cons.1 hc).2 hu
      simp +decide only [matcher, Matcher.phrase, Matcher.run_orElse, Matcher.run_seqRight,
        Matcher.run_bind, hword, hsecond, if_true, if_false, Option.bind_none, Option.bind_some,
        Option.none_or, Option.some_or, Matcher.run_pure]
  | index =>
      obtain ⟨w, hw, rfl⟩ : ∃ w ∈ ["key", "index"], ws = [w] := by simpa [spellings] using hws
      obtain ⟨-, ⟨⟩⟩ := List.forall₂_cons.1 h
      rw [List.nil_append] at hword ⊢
      have hv : v = "key" ∨ v = "index" := by simpa [leads, spellings] using hv
      rcases hv with rfl | rfl <;>
        simp +decide only [matcher, indexWord, Matcher.phrase, Matcher.run_orElse,
          Matcher.run_seqRight, Matcher.run_bind, hword, if_true, if_false, Option.bind_none,
          Option.bind_some, Option.none_or, Option.some_or, Matcher.run_pure]

end KeyKind

/-! ### The names of a key -/

namespace Key

variable {c rest : Cursor}

/-- The tokens of the name of a constraint, in front of a kind: none, `CONSTRAINT` alone before the
kind of a constraint, or `CONSTRAINT` and a name. -/
inductive IsConstraint (kind : KeyKind) : Option String → Cursor → Prop
  | absent : IsConstraint kind none []
  | unnamed {t : Token} : kind ∈ [.primary, .unique, .foreign] →
    t.kind.isWord "constraint" = true → IsConstraint kind none [t]
  | named {t u : Token} {name : String} : t.kind.isWord "constraint" = true →
    u.kind.IsNameBut ["primary", "unique", "foreign"] name →
      IsConstraint kind (some name) [t, u]

/-- The tokens of the name of an index, behind a kind that is spelled `ws`: none, or a name that
neither goes on with the spelling nor begins an option. A primary key has no such name. -/
inductive IsIndexName (kind : KeyKind) (ws : List String) : Option String → Cursor → Prop
  | absent : IsIndexName kind ws none []
  | named {t : Token} {name : String} : kind ≠ .primary →
    t.kind.IsNameBut ("using" :: KeyKind.continuations ws) name →
      IsIndexName kind ws (some name) [t]

/-- The tokens of the target of a foreign key; keys of the other kinds have none. -/
inductive IsTarget (kind : KeyKind) : Option Reference → Cursor → Prop
  | absent : kind ≠ .foreign → IsTarget kind none []
  | present {r : Reference} {ts : Cursor} : kind = .foreign → r.IsSpelledBy ts →
    IsTarget kind (some r) ts

/-- The tokens that **spell** a key: the name of a constraint, a kind, the name of an index,
options, columns, the target of a foreign key, and options again. Where the name of an index is
missing, but for a primary key, the first option before the columns is `USING`. The name of the
constraint comes before that of the index. -/
inductive IsSpelledBy : Key → Cursor → Prop
  | mk {kind : KeyKind} {constraint index : Option String} {columns : List String}
      {references : Option Reference} {ws : List String} {cs ks is os bs rs us : Cursor} :
    IsConstraint kind constraint cs → ws ∈ kind.spellings → ks.Spells ws →
    IsIndexName kind ws index is → Cursor.Row IsOption os →
    (kind ≠ .primary → index = none → os.LeadsWith ["using"]) → IsColumnRow columns bs →
    IsTarget kind references rs → Cursor.Row IsOption us →
      IsSpelledBy ⟨kind, constraint <|> index, columns, references⟩
        (cs ++ (ks ++ (is ++ (os ++ (bs ++ (rs ++ us))))))

/-! ### The names in front of the columns -/

/-- `CONSTRAINT` alone is read in front of the words of which one opens the kind of a constraint. -/
theorem mem_of_isWord {kind : KeyKind} {k : Kind} {v w : String} (hv : v ∈ kind.leads)
    (hkv : k.isWord v = true) (hw : w ∈ ["primary", "unique", "foreign"])
    (hkw : k.isWord w = true) : kind ∈ [KeyKind.primary, .unique, .foreign] := by
  have hsame := Kind.sameWord_of_isWord hkw hkv
  have hleads : ∀ v ∈ kind.leads, ∀ w ∈ ["primary", "unique", "foreign"],
      sameWord w v = true → kind ∈ [KeyKind.primary, .unique, .foreign] := by
    cases kind <;> decide
  exact hleads v hv w hw hsame

section

variable {kind : KeyKind} {ws : List String} {ks : Cursor}

/-- The name of a constraint that was read, whatever kind stands behind it. -/
theorem exists_isConstraint {constraint : Option String} (hc : c.IsBare)
    (h : constraintName.runFrom c = (.ok constraint, rest)) :
    ∃ cs, c = cs ++ rest ∧ ∀ {kind : KeyKind} {ws : List String} {ks behind : Cursor},
      ws ∈ kind.spellings → ks.Spells ws → rest = ks ++ behind →
        IsConstraint kind constraint cs := by
  simp only [constraintName, Rule.runFrom_bind_eq_ok_iff, Rule.runFrom_allow_eq_ok_iff,
    Matcher.run_word_eq_some_iff hc] at h
  obtain ⟨_, c₁, ⟨rfl, -, rfl⟩ | ⟨⟨⟩, rfl, t, rfl, ht⟩, h⟩ := h
  · obtain ⟨rfl, rfl⟩ := Rule.runFrom_pure_eq_ok_iff.1 h
    exact ⟨[], rfl, fun _ _ _ => .absent⟩
  have hc₁ := (Cursor.isBare_cons.1 hc).2
  simp only [Rule.runFrom_bind_eq_ok_iff, Rule.runFrom_look_eq_ok_iff] at h
  obtain ⟨unnamed, _, ⟨hlook, rfl⟩, h⟩ := h
  cases unnamed with
  | true =>
      obtain ⟨rfl, rfl⟩ := Rule.runFrom_pure_eq_ok_iff.1 h
      obtain ⟨w, hw, hword⟩ := List.any_eq_true.1 hlook
      rw [hc₁.atWord_eq] at hword
      refine ⟨[t], rfl, fun hws hks hrest => .unnamed ?_ ht⟩
      obtain ⟨u, us, rfl, v, hv, hu⟩ := KeyKind.exists_cons_of_spells hws hks
      rw [hrest] at hword
      exact mem_of_isWord hv hu hw hword
  | false =>
      obtain ⟨name, hname, rfl⟩ := Rule.runFrom_map_eq_ok_iff.1 h
      obtain ⟨n, rfl, hn⟩ := (Matcher.run_identifier_eq_some_iff hc₁).1
        (Rule.runFrom_require_eq_ok_iff.1 hname)
      refine ⟨[t, n], rfl, fun _ _ _ => .named ht ⟨hn, fun w hw => ?_⟩⟩
      have hnot := List.any_eq_false.1 hlook w hw
      rwa [hc₁.atWord_eq, Bool.not_eq_true] at hnot

/-- `CONSTRAINT` and a name are read. -/
theorem runFrom_constraint_named {t n : Token} {name : String}
    (ht : t.kind.isWord "constraint" = true)
    (hn : n.kind.IsNameBut ["primary", "unique", "foreign"] name)
    (hc : Cursor.IsBare (t :: n :: rest)) :
    constraintName.runFrom (t :: n :: rest) = (.ok (some name), rest) := by
  have hbehind := (Cursor.isBare_cons.1 hc).2
  have hlook : (["primary", "unique", "foreign"].any (Cursor.atWord (n :: rest) 0)) = false := by
    refine List.any_eq_false.2 fun w hw => ?_
    rw [hbehind.atWord_eq]
    simpa using hn.2 w hw
  have hname := (Matcher.run_identifier_eq_some_iff hbehind).2 ⟨n, rfl, hn.1⟩
  simp only [constraintName, Rule.runFrom_bind_eq_ok_iff, Rule.runFrom_allow_eq_ok_iff]
  refine ⟨some (), n :: rest, .inr ⟨(), rfl, ?_⟩, ?_⟩
  · exact (Matcher.run_word_eq_some_iff hc).2 ⟨t, rfl, ht⟩
  · simp only [Rule.runFrom_bind_eq_ok_iff, Rule.runFrom_look_eq_ok_iff]
    refine ⟨false, _, ⟨hlook, rfl⟩, ?_⟩
    exact Rule.runFrom_map_eq_ok_iff.2 ⟨name, Rule.runFrom_require_eq_ok_iff.2 hname, rfl⟩

/-- The name of a constraint is read in front of the first word of a kind. -/
theorem IsConstraint.runFrom {constraint : Option String} {cs : Cursor}
    (h : IsConstraint kind constraint cs) {u : Token} {v : String} (hv : v ∈ kind.leads)
    (hu : u.kind.isWord v = true) (hc : Cursor.IsBare (cs ++ u :: rest)) :
    constraintName.runFrom (cs ++ u :: rest) = (.ok constraint, u :: rest) := by
  cases h with
  | absent =>
      simp only [constraintName, Rule.runFrom_bind_eq_ok_iff, Rule.runFrom_allow_eq_ok_iff]
      have hother : ∀ v ∈ kind.leads, sameWord "constraint" v = false := by
        cases kind <;> decide
      refine ⟨none, u :: rest, .inl ⟨rfl, ?_, rfl⟩, rfl⟩
      rw [List.nil_append] at hc ⊢
      rw [Matcher.run_word_of_isWord hc hu, hother v hv]
      rfl
  | @unnamed t hkind ht =>
      simp only [constraintName, Rule.runFrom_bind_eq_ok_iff, Rule.runFrom_allow_eq_ok_iff]
      rw [List.singleton_append] at hc
      have hbehind := (Cursor.isBare_cons.1 hc).2
      have hleads : ∀ v ∈ kind.leads, v ∈ ["primary", "unique", "foreign"] := by
        revert hkind
        cases kind <;> decide
      have hlook : (["primary", "unique", "foreign"].any (Cursor.atWord (u :: rest) 0))
          = true := by
        refine List.any_eq_true.2 ⟨v, hleads v hv, ?_⟩
        rw [hbehind.atWord_eq]
        exact hu
      refine ⟨some (), u :: rest, .inr ⟨(), rfl, ?_⟩, ?_⟩
      · exact (Matcher.run_word_eq_some_iff hc).2 ⟨t, rfl, ht⟩
      · simp only [Rule.runFrom_bind_eq_ok_iff, Rule.runFrom_look_eq_ok_iff]
        exact ⟨true, _, ⟨hlook, rfl⟩, rfl⟩
  | named ht hn => exact runFrom_constraint_named ht hn hc

/-- The columns of a key or an option `USING` follow, so that no name is read before them. -/
def OpensColumns (c : Cursor) : Prop :=
  ∃ t ∈ c.head?, t.kind = .leftParen ∨ t.kind.isWord "using" = true

/-- The name of an index that was read. Where it is missing, the columns or an option `USING`
follow. -/
theorem exists_isIndexName {index : Option String} (hc : c.IsBare)
    (hbehind : ∀ v ∈ KeyKind.continuations ws, ∀ t ∈ c.head?, t.kind.isWord v = false)
    (h : (indexName kind).runFrom c = (.ok index, rest)) :
    (∃ is, c = is ++ rest ∧ IsIndexName kind ws index is) ∧
      (kind ≠ .primary → index = none → OpensColumns rest) := by
  simp only [indexName, Rule.runFrom_bind_eq_ok_iff, Rule.runFrom_look_eq_ok_iff, hc.atKind_eq,
    hc.atWord_eq] at h
  obtain ⟨missing, _, ⟨hlook, rfl⟩, h⟩ := h
  cases missing with
  | true =>
      obtain ⟨rfl, rfl⟩ := Rule.runFrom_pure_eq_ok_iff.1 h
      refine ⟨⟨[], rfl, .absent⟩, fun hkind _ => ?_⟩
      simp only [hkind, decide_false, Bool.false_or, Bool.or_eq_true, Option.any_eq_true,
        beq_iff_eq] at hlook
      rcases hlook with ⟨t, ht, hparen⟩ | ⟨t, ht, hword⟩
      · exact ⟨t, ht, .inl hparen⟩
      · exact ⟨t, ht, .inr hword⟩
  | false =>
      obtain ⟨name, hname, rfl⟩ := Rule.runFrom_map_eq_ok_iff.1 h
      obtain ⟨t, rfl, ht⟩ := (Matcher.run_identifier_eq_some_iff hc).1
        (Rule.runFrom_require_eq_ok_iff.1 hname)
      simp only [Bool.or_eq_false_iff, decide_eq_false_iff_not, List.head?_cons,
        Option.any_some] at hlook
      obtain ⟨⟨hkind, -⟩, husing⟩ := hlook
      refine ⟨⟨[t], rfl, .named hkind ⟨ht, List.forall_mem_cons.2 ⟨husing, fun v hv => ?_⟩⟩⟩, nofun⟩
      exact hbehind v hv t rfl

/-- The name of an index is read, or found missing. -/
theorem IsIndexName.runFrom {index : Option String} {is : Cursor}
    (h : IsIndexName kind ws index is) (hc : Cursor.IsBare (is ++ rest))
    (hrest : kind ≠ .primary → index = none → OpensColumns rest) :
    (indexName kind).runFrom (is ++ rest) = (.ok index, rest) := by
  simp only [indexName, Rule.runFrom_bind_eq_ok_iff, Rule.runFrom_look_eq_ok_iff, hc.atKind_eq,
    hc.atWord_eq]
  cases h with
  | absent =>
      refine ⟨true, _, ⟨?_, rfl⟩, rfl⟩
      by_cases hkind : kind = .primary
      · rw [decide_eq_true hkind, Bool.true_or, Bool.true_or]
      · obtain ⟨t, ht, hparen | hword⟩ := hrest hkind rfl
        · simp [Option.mem_def.1 ht, hparen]
        · simp [Option.mem_def.1 ht, hword]
  | @named t name hkind ht =>
      have hparen : (t.kind == .leftParen) = false := by
        refine beq_false_of_ne fun h => ?_
        have hname := ht.1
        rw [h] at hname
        cases hname
      have husing := ht.2 "using" List.mem_cons_self
      have hname := (Matcher.run_identifier_eq_some_iff hc).2 ⟨t, rfl, ht.1⟩
      refine ⟨false, _, ⟨?_, rfl⟩, ?_⟩
      · simp [hkind, hparen, husing]
      · exact Rule.runFrom_map_eq_ok_iff.2 ⟨name, Rule.runFrom_require_eq_ok_iff.2 hname, rfl⟩

/-- The name of an index, or what stands in its place, does not go on with the kind. -/
theorem IsIndexName.not_continues {index : Option String} {is : Cursor}
    (h : IsIndexName kind ws index is) (hws : ws ∈ kind.spellings)
    (hrest : kind ≠ .primary → index = none → OpensColumns rest) :
    ∀ v ∈ KeyKind.continuations ws, ∀ t ∈ (is ++ rest).head?, t.kind.isWord v = false := by
  intro v hv t ht
  cases h with
  | absent =>
      have hkind : kind ≠ .primary := by
        rintro rfl
        obtain rfl := List.mem_singleton.1 hws
        exact absurd hv (by simp [KeyKind.continuations])
      obtain ⟨u, hu, hparen | hword⟩ := hrest hkind rfl
      all_goals obtain rfl : u = t := Option.mem_unique hu ht
      · rw [hparen]
        rfl
      · have hother : ∀ v ∈ KeyKind.continuations ws, sameWord v "using" = false := by
          rw [KeyKind.continuations]
          split <;> decide
        refine Bool.eq_false_iff.2 fun hv' => ?_
        exact absurd (Kind.sameWord_of_isWord hv' hword) (by simp [hother v hv])
  | named _ hname =>
      obtain rfl := Option.some.inj ht
      exact hname.2 v (List.mem_cons_of_mem _ hv)

end

/-! ### The target behind the columns -/

section

variable {kind : KeyKind} {references : Option Reference}

/-- The target of a foreign key, as the rule of key clauses reads it behind the columns. -/
def targetRule (kind : KeyKind) : Rule (Option Reference) :=
  if kind = .foreign then some <$> Reference.rule else pure none

/-- The branch on a foreign key reads what `targetRule` reads, and the rest of the clause goes on
with it. -/
theorem runFrom_target_eq_ok_iff {f : Option Reference → Rule Key} {key : Key} :
    (if kind = .foreign then (some <$> Reference.rule) >>= f else pure none >>= f).runFrom c
        = (.ok key, rest) ↔
      ∃ references mid, (targetRule kind).runFrom c = (.ok references, mid) ∧
        (f references).runFrom mid = (.ok key, rest) := by
  rw [targetRule]
  split <;> exact Rule.runFrom_bind_eq_ok_iff

/-- What is read as the target of a foreign key. -/
theorem exists_isTarget (hc : c.IsBare)
    (h : (targetRule kind).runFrom c = (.ok references, rest)) :
    ∃ ts, c = ts ++ rest ∧ IsTarget kind references ts := by
  rw [targetRule] at h
  split at h
  · next hkind =>
    obtain ⟨r, hread, rfl⟩ := Rule.runFrom_map_eq_ok_iff.1 h
    obtain ⟨ts, rfl, hts⟩ := Reference.exists_isSpelledBy hc hread
    exact ⟨ts, rfl, .present hkind hts⟩
  · next hkind =>
    obtain ⟨rfl, rfl⟩ := Rule.runFrom_pure_eq_ok_iff.1 h
    exact ⟨[], rfl, .absent hkind⟩

/-- The target of a foreign key is read in front of other keywords. -/
theorem IsTarget.runFrom {ts : Cursor} {ws : List String} (h : IsTarget kind references ts)
    (hc : Cursor.IsBare (ts ++ rest)) (hrest : rest.LeadsWith ws)
    (hws : ∀ w ∈ ws, sameWord "on" w = false) :
    (targetRule kind).runFrom (ts ++ rest) = (.ok references, rest) := by
  rw [targetRule]
  cases h with
  | absent hkind =>
      rw [if_neg hkind]
      rfl
  | present hkind hts =>
      rw [if_pos hkind]
      exact Rule.runFrom_map_eq_ok_iff.2 ⟨_, hts.runFrom hc hrest hws, rfl⟩

end

/-! ### Reading a key clause -/

/-- No option begins with a parenthesis. -/
theorem leadsWith_using_of_opensColumns {os : Cursor} (h : Cursor.Row IsOption os)
    (hopens : OpensColumns (os ++ rest)) : os.LeadsWith ["using"] := by
  intro t ht
  obtain ⟨u, hu, hopen⟩ := hopens
  obtain rfl : u = t := by
    rw [List.head?_append, Option.mem_def.1 ht] at hu
    exact (Option.some.inj hu).symm
  obtain ⟨w, -, hw⟩ := leadsWith_of_row h u ht
  obtain ⟨v, hv⟩ := Kind.exists_of_isWord hw
  rcases hopen with hparen | husing
  · rw [hparen] at hv
    cases hv
  · exact ⟨"using", List.mem_cons_self, husing⟩

/-- Options that begin with `USING`, or the columns if there are none. -/
theorem opensColumns_of_leadsWith {os bs : Cursor} {columns : List String}
    (hos : os.LeadsWith ["using"]) (hbs : IsColumnRow columns bs) :
    OpensColumns (os ++ (bs ++ rest)) := by
  cases os with
  | nil =>
      obtain ⟨l, us, rfl, hl⟩ := hbs.exists_cons
      exact ⟨l, rfl, .inl hl⟩
  | cons t os =>
      obtain ⟨w, hw, ht⟩ := hos t rfl
      obtain rfl := List.mem_singleton.1 hw
      exact ⟨t, rfl, .inr ht⟩

/-- What is read as a key spells it. -/
theorem exists_isSpelledBy {key : Key} (hc : c.IsBare)
    (h : Key.rule.runFrom c = (.ok key, rest)) : ∃ ts, c = ts ++ rest ∧ key.IsSpelledBy ts := by
  simp only [Key.rule, Rule.runFrom_bind_eq_ok_iff, Rule.runFrom_require_eq_ok_iff,
    runFrom_target_eq_ok_iff, Rule.runFrom_pure_eq_ok_iff] at h
  obtain ⟨constraint, c₁, hconstraint, kind, c₂, hkind, index, c₃, hindex, _, c₄, hoptions, columns,
    c₅, hcolumns, references, c₆, htarget, _, _, hbehind, rfl, rfl⟩ := h
  obtain ⟨cs, rfl, hcs⟩ := exists_isConstraint hc hconstraint
  have hc₁ := (Cursor.isBare_append.1 hc).2
  obtain ⟨ws, hws, ks, rfl, hks, hcontinues⟩ := KeyKind.exists_spells hc₁ hkind
  have hc₂ := (Cursor.isBare_append.1 hc₁).2
  obtain ⟨⟨is, rfl, his⟩, hopens⟩ := exists_isIndexName hc₂ hcontinues hindex
  have hc₃ := (Cursor.isBare_append.1 hc₂).2
  obtain ⟨os, rfl, hos⟩ := exists_options hc₃ hoptions
  have hc₄ := (Cursor.isBare_append.1 hc₃).2
  obtain ⟨bs, rfl, hbs⟩ := exists_isColumnRow hc₄ hcolumns
  have hc₅ := (Cursor.isBare_append.1 hc₄).2
  obtain ⟨rs, rfl, hrs⟩ := exists_isTarget hc₅ htarget
  obtain ⟨us, rfl, hus⟩ := exists_options (Cursor.isBare_append.1 hc₅).2 hbehind
  refine ⟨cs ++ (ks ++ (is ++ (os ++ (bs ++ (rs ++ us))))), by simp only [List.append_assoc], ?_⟩
  exact .mk (hcs hws hks rfl) hws hks his hos
    (fun hkind hindex => leadsWith_using_of_opensColumns hos (hopens hkind hindex)) hbs hrs hus

section

variable {kind : KeyKind} {constraint index : Option String}

/-- The tokens in front of the columns of a key, where `c` follows: the name of a constraint, a
kind, the name of an index, and options. -/
inductive IsFront (kind : KeyKind) (constraint index : Option String) (c : Cursor) : Cursor → Prop
  | mk {ws : List String} {cs ks is os : Cursor} :
    IsConstraint kind constraint cs → ws ∈ kind.spellings → ks.Spells ws →
    IsIndexName kind ws index is → Cursor.Row IsOption os →
    (kind ≠ .primary → index = none → OpensColumns (os ++ c)) →
      IsFront kind constraint index c (cs ++ (ks ++ (is ++ os)))

/-- What the rule of key clauses reads behind the options in front of the columns. -/
def behindFront (kind : KeyKind) (constraint index : Option String) : Rule Key := do
  let columns ← columnListRule
  let references ← targetRule kind
  options
  return ⟨kind, constraint <|> index, columns, references⟩

/-- The rule of a key reads the constraint, the kind, the name and the options, and then what is
behind the front. -/
theorem rule_eq : Key.rule = (do
    let constraint ← constraintName
    let kind ← Rule.require KeyKind.matcher .keyKind
    let index ← indexName kind
    options
    behindFront kind constraint index) := by
  unfold Key.rule behindFront targetRule
  refine congrArg _ (funext fun constraint => congrArg _ (funext fun kind => ?_))
  by_cases hkind : kind = .foreign
  · simp only [hkind, if_true]
  · simp only [hkind, if_false]

/-- The name of a constraint and a kind are read up to something that does not go on with the
kind. -/
theorem runFrom_kind {ws : List String} {cs ks : Cursor} (hcs : IsConstraint kind constraint cs)
    (hws : ws ∈ kind.spellings) (hks : ks.Spells ws) (hc : Cursor.IsBare (cs ++ (ks ++ c)))
    (hcontinues : ∀ v ∈ KeyKind.continuations ws, ∀ t ∈ c.head?, t.kind.isWord v = false) :
    Key.rule.runFrom (cs ++ (ks ++ c)) = (do
      let index ← indexName kind
      options
      behindFront kind constraint index : Rule Key).runFrom c := by
  have hkind := Rule.runFrom_require_eq_ok_iff (e := .keyKind).2
    (KeyKind.run_of_spells hws hks (Cursor.isBare_append.1 hc).2 hcontinues)
  have hconstraint : constraintName.runFrom (cs ++ (ks ++ c)) = (.ok constraint, ks ++ c) := by
    obtain ⟨u, us, rfl, v, hv, hu⟩ := KeyKind.exists_cons_of_spells hws hks
    exact hcs.runFrom hv hu hc
  rw [rule_eq, Rule.runFrom_bind_of_ok hconstraint, Rule.runFrom_bind_of_ok hkind]

/-- The front of a key is read up to something that is no option. -/
theorem IsFront.runFrom {hs : Cursor} (h : IsFront kind constraint index c hs)
    (hc : Cursor.IsBare (hs ++ c)) (hnone : option.run c = none) :
    Key.rule.runFrom (hs ++ c) = (behindFront kind constraint index).runFrom c := by
  obtain ⟨hcs, hws, hks, his, hos, hopens⟩ := h
  rename_i ws cs ks is os
  simp only [List.append_assoc] at hc ⊢
  have hc₁ := (Cursor.isBare_append.1 hc).2
  have hc₂ := (Cursor.isBare_append.1 hc₁).2
  have hc₃ := (Cursor.isBare_append.1 hc₂).2
  rw [runFrom_kind hcs hws hks hc (his.not_continues hws hopens),
    Rule.runFrom_bind_of_ok (his.runFrom hc₂ hopens),
    Rule.runFrom_bind_of_ok (options_of_row hos hc₃ hnone)]

end

/-- A key is read from the tokens that spell it, in front of a keyword that does not go on with
it. -/
theorem IsSpelledBy.runFrom_append {key : Key} {ts : Cursor} (h : key.IsSpelledBy ts)
    (hc : Cursor.IsBare (ts ++ rest)) (hlead : rest.LeadsWith ["using", "comment"])
    (hrest : option.run rest = none) : Key.rule.runFrom (ts ++ rest) = (.ok key, rest) := by
  obtain ⟨hcs, hws, hks, his, hos, husing, hbs, hrs, hus⟩ := h
  rename_i kind constraint index columns references ws cs ks is os bs rs us
  have hfront : IsFront kind constraint index (bs ++ (rs ++ (us ++ rest)))
      (cs ++ (ks ++ (is ++ os))) :=
    .mk hcs hws hks his hos fun hkind hindex => opensColumns_of_leadsWith (husing hkind hindex) hbs
  have happend : cs ++ (ks ++ (is ++ (os ++ (bs ++ (rs ++ us))))) ++ rest
      = cs ++ (ks ++ (is ++ os)) ++ (bs ++ (rs ++ (us ++ rest))) := by
    simp only [List.append_assoc]
  rw [happend] at hc ⊢
  have hc₁ := (Cursor.isBare_append.1 hc).2
  have hc₂ := (Cursor.isBare_append.1 hc₁).2
  have hc₃ := (Cursor.isBare_append.1 hc₂).2
  have hnooption : option.run (bs ++ (rs ++ (us ++ rest))) = none := by
    obtain ⟨l, ts, rfl, hl⟩ := hbs.exists_cons
    exact run_option_of_leftParen hc₁ hl
  have hbehind := (leadsWith_of_row hus).append hlead
  rw [hfront.runFrom hc hnooption]
  simp only [behindFront, Rule.runFrom_bind_eq_ok_iff, Rule.runFrom_pure_eq_ok_iff]
  exact ⟨columns, _, hbs.runFrom hc₁, references, _, hrs.runFrom hc₂ hbehind (by decide), (),
    rest, options_of_row hus hc₃ hrest, rfl, rfl⟩

/-- A key is read from the tokens that spell it, to their end. -/
theorem IsSpelledBy.runFrom {key : Key} {ts : Cursor} (h : key.IsSpelledBy ts) (hc : ts.IsBare) :
    Key.rule.runFrom ts = (.ok key, []) := by
  have hbare : Cursor.IsBare (ts ++ []) := by rwa [List.append_nil]
  have hread := h.runFrom_append hbare .nil rfl
  rwa [List.append_nil] at hread

/-- A key is read up to a border exactly if the tokens before the border spell it. -/
theorem runFrom_eq_ok_iff_isSpelledBy {key : Key} (hc : c.IsBare) (hrest : rest.IsBorder) :
    Key.rule.runFrom c = (.ok key, rest) ↔ ∃ ts, c = ts ++ rest ∧ key.IsSpelledBy ts := by
  constructor
  · exact exists_isSpelledBy hc
  · rintro ⟨ts, rfl, hts⟩
    have hbare := (Cursor.isBare_append.1 hc).1
    have hread := hts.runFrom hbare
    obtain ⟨s, rfl, hs⟩ := Rule.exists_prefix hbare (Simulation.obeys_key _) hread
    rw [List.append_nil] at hc hread ⊢
    exact (Rule.runFrom_eq_ok_iff (fun S => S.obeys_key) (fun _ _ => Key.Alike.eq) hc hrest).2
      ⟨s, rfl, hs, hread⟩

end Key

end CreateTable
