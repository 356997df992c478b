import CreateTable.Proofs.Column.Attribute
import CreateTable.Proofs.Grammar.Significant

/-!
# Progress

A rule of the grammar never goes back, and what it requires it takes: every part that is read
costs tokens. The bound is counted along the sequence of the parts of a rule; a part of which
nothing is known takes at least no token, because it keeps the simulation of a cursor by itself.

## Main definitions

* `Cursor.Reaches`: a cursor some tokens further on.
* `Matcher.Takes`, `Rule.Takes`: a matcher, a rule, that takes at least some number of tokens.

## Main statements

* `Matcher.takes_of_matches`, `Rule.takes_of_obeys`: whoever keeps the simulation never goes back.
* `Matcher.Takes.bind`, `Rule.Takes.bind`: the tokens of a sequence.
* `DataType.rule_takes`, `Column.rule_takes`, `Key.rule_takes`, `Item.rule_takes`,
  `Table.rule_takes`, `Attribute.matcher_takes`, `Value.clause_takes`: the rules and the optional
  parts of the grammar.
-/

namespace CreateTable

/-- The cursor `d` is **reached** from `c` by taking at least `k` tokens: it is what is left of
`c` behind them, and it stands on no trivia. -/
structure Cursor.Reaches (k : Nat) (c d : Cursor) : Prop where
  suffix : d <:+ c
  trimmed : d.skipTrivia = d
  length_add_le : d.length + k ≤ c.length

namespace Cursor.Reaches

variable {j k : Nat} {c d e : Cursor}

/-- A cursor without leading trivia reaches itself. -/
theorem refl (hc : c.skipTrivia = c) : Reaches 0 c c :=
  ⟨List.suffix_refl c, hc, Nat.le_refl _⟩

/-- The tokens of two ways add up. -/
theorem trans (hcd : Reaches j c d) (hde : Reaches k d e) : Reaches (j + k) c e := by
  refine ⟨hde.suffix.trans hcd.suffix, hde.trimmed, ?_⟩
  have hj := hcd.length_add_le
  have hk := hde.length_add_le
  omega

/-- Who takes some number of tokens takes any smaller number. -/
theorem mono (h : Reaches k c d) (hjk : j ≤ k) : Reaches j c d := by
  refine ⟨h.suffix, h.trimmed, ?_⟩
  have hk := h.length_add_le
  omega

end Cursor.Reaches

/-- Behind a token that is there the cursor has gone on. -/
theorem Cursor.reaches_advance {c : Cursor} {t : Token} (h : c.peek 0 = some t) :
    Reaches 1 c c.advance := by
  refine ⟨advance_suffix c, skipTrivia_skipTrivia _, ?_⟩
  cases c with
  | nil => cases h
  | cons u c =>
      have hlength := (List.dropWhile_suffix (l := c) Token.isTrivia).length_le
      simpa [advance, skipTrivia] using hlength

/-- A cursor without leading trivia has the same tokens as itself. -/
theorem Cursor.sameTokens_refl {c : Cursor} (hc : c.skipTrivia = c) :
    SameTokens .exact c c c c :=
  ⟨List.suffix_refl c, List.suffix_refl c, hc, hc, List.forall₂_same.2 fun _ _ => rfl⟩

variable {α β : Type} {j k : Nat}

/-! ### Matchers -/

namespace Matcher

/-- Whenever the matcher matches, it **takes** at least `k` tokens. -/
def Takes (k : Nat) (m : Matcher α) : Prop :=
  ∀ ⦃c a rest⦄, c.skipTrivia = c → m.run c = some (a, rest) → Cursor.Reaches k c rest

/-- A matcher that keeps the simulation of a cursor by itself never goes back. That simulation
does not look at the depth, so any one will do. -/
theorem takes_of_matches {A : Cursor → α → α → Prop} {m : Matcher α}
    (hm : ∀ c, (Simulation.ofLikeness .exact c c).Matches 1 1 (A c) m m) : m.Takes 0 := by
  intro c a rest hc hrun
  have hanswer := hm c (Cursor.sameTokens_refl hc)
  rw [hrun] at hanswer
  cases hanswer with
  | some h => exact ⟨h.2.left, h.2.trimmed, h.2.left.length_le⟩

/-- A matcher with a given result takes at least no token. -/
theorem takes_pure (a : α) : (pure a : Matcher α).Takes 0 := by
  intro c b rest hc hrun
  obtain ⟨-, rfl⟩ := run_pure_eq_some_iff.1 hrun
  exact .refl hc

/-- A matcher of one token takes at least one. -/
theorem takes_token (read : Kind → Option α) : (token read).Takes 1 := by
  intro c a rest _ hrun
  rw [run_token, Option.map_eq_some_iff] at hrun
  obtain ⟨b, hread, heq⟩ := hrun
  obtain ⟨rfl, rfl⟩ := Prod.mk.inj heq
  obtain ⟨t, ht, -⟩ := Option.bind_eq_some_iff.1 hread
  exact Cursor.reaches_advance ht

/-- The matcher of the end takes at least no token. -/
theorem takes_atEnd : atEnd.Takes 0 := by
  intro c a rest hc hrun
  obtain ⟨-, rfl⟩ := run_atEnd_eq_some_iff.1 hrun
  exact .refl hc

namespace Takes

variable {m n : Matcher α}

/-- A matcher that takes some number of tokens takes any smaller number. -/
theorem mono (h : m.Takes k) (hjk : j ≤ k) : m.Takes j :=
  fun _ _ _ hc hrun => (h hc hrun).mono hjk

/-- A sequence takes the tokens of its parts. -/
theorem bind {f : α → Matcher β} (hm : m.Takes j) (hf : ∀ a, (f a).Takes k) :
    (m >>= f).Takes (j + k) := by
  intro c b rest hc hrun
  obtain ⟨a, mid, hfirst, hsecond⟩ := run_bind_eq_some_iff.1 hrun
  have hmid := hm hc hfirst
  exact hmid.trans (hf a hmid.trimmed hsecond)

/-- A function of the result changes nothing about the tokens. -/
theorem map {f : α → β} (hm : m.Takes k) : (f <$> m).Takes k := by
  intro c b rest hc hrun
  obtain ⟨a, hrun, -⟩ := run_map_eq_some_iff.1 hrun
  exact hm hc hrun

/-- Two alternatives take what each of them takes. -/
theorem orElse (hm : m.Takes k) (hn : n.Takes k) : (m <|> n).Takes k := by
  intro c a rest hc hrun
  rcases run_orElse_eq_some_iff.1 hrun with hrun | ⟨-, hrun⟩
  · exact hm hc hrun
  · exact hn hc hrun

/-- A choice takes what each of its parts takes. -/
theorem firstM {ι : Type} {f : ι → Matcher α} {l : List ι} (h : ∀ i ∈ l, (f i).Takes k) :
    (l.firstM f).Takes k := by
  induction l with
  | nil =>
      intro c a rest _ hrun
      cases hrun
  | cons i l ih =>
      rw [List.forall_mem_cons] at h
      exact orElse h.1 (ih h.2)

end Takes

/-- What is read as often as it comes takes its tokens each time. -/
theorem Takes.many {m : Matcher α} (hm : m.Takes k) {c : Cursor} (hc : c.skipTrivia = c) :
    Cursor.Reaches (k * (m.many c).1.length) c (m.many c).2 := by
  fun_induction Matcher.many m c with
  | case1 c hrun => exact .refl hc
  | case2 c a rest hrun hlt as last hlast ih =>
      have hrest := hm hc hrun
      rw [hlast] at ih
      have hreaches := hrest.trans (ih hrest.trimmed)
      rwa [Nat.add_comm, ← Nat.mul_succ] at hreaches
  | case3 c a rest hrun hlt => exact .refl hc

/-- What came not once took nothing. -/
theorem many_snd_of_fst_eq_nil {m : Matcher α} {c : Cursor} (h : (m.many c).1 = []) :
    (m.many c).2 = c := by
  fun_cases Matcher.many m c with
  | case1 | case3 => rfl
  | case2 a rest hrun hlt as last hlast =>
      rw [Matcher.many, hrun] at h
      simp [hlt] at h

/-- The matcher of one kind takes at least one token. -/
theorem takes_exactly (kind : Kind) : (exactly kind).Takes 1 := by
  intro c t rest _ hrun
  rw [run_exactly, Option.map_eq_some_iff] at hrun
  obtain ⟨u, hu, heq⟩ := hrun
  obtain ⟨rfl, rfl⟩ := Prod.mk.inj heq
  exact Cursor.reaches_advance (Option.filter_eq_some_iff.1 hu).1

/-- A keyword takes at least one token. -/
theorem takes_word (w : String) : (word w).Takes 1 :=
  (takes_token _).map

/-- A phrase takes at least one token for each of its words. -/
theorem takes_phrase (ws : List String) : (phrase ws).Takes ws.length := by
  induction ws with
  | nil => exact takes_pure ()
  | cons w ws ih =>
      refine ((takes_word w).bind fun _ => ih).mono ?_
      rw [List.length_cons]
      omega

end Matcher

/-! ### Rules -/

namespace Rule

/-- The rule never goes back, and whenever it succeeds, it **takes** at least `k` tokens. -/
structure Takes (k : Nat) (r : Rule α) : Prop where
  ok : ∀ ⦃c a rest⦄, c.skipTrivia = c → r.runFrom c = (.ok a, rest) → Cursor.Reaches k c rest
  error : ∀ ⦃c e stop⦄, c.skipTrivia = c → r.runFrom c = (.error e, stop) →
    Cursor.Reaches 0 c stop

/-- A rule that keeps the simulation of a cursor by itself never goes back. -/
theorem takes_of_obeys {A : Cursor → α → α → Prop} {r : Rule α}
    (hr : ∀ c, (Simulation.ofLikeness .exact c c).Obeys 1 1 (A c) r r) : r.Takes 0 := by
  refine ⟨fun c a rest hc hrun => ?_, fun c e stop hc hrun => ?_⟩
  · have hanswer := hr c (Cursor.sameTokens_refl hc)
    rw [hrun] at hanswer
    cases hanswer with
    | ok _ hrel => exact ⟨hrel.left, hrel.trimmed, hrel.left.length_le⟩
  · have hanswer := hr c (Cursor.sameTokens_refl hc)
    rw [hrun] at hanswer
    cases hanswer with
    | error hstop => exact ⟨hstop.left, hstop.trimmed, hstop.left.length_le⟩

/-- A rule with a given result takes at least no token. -/
theorem takes_pure (a : α) : (pure a : Rule α).Takes 0 := by
  refine ⟨fun c b rest hc hrun => ?_, fun c e stop hc hrun => ?_⟩
  · obtain ⟨-, rfl⟩ := runFrom_pure_eq_ok_iff.1 hrun
    exact .refl hc
  · cases hrun

/-- A required part takes what its matcher takes. -/
theorem takes_require {m : Matcher α} (hm : m.Takes k) (e : Expectation) :
    (require m e).Takes k := by
  refine ⟨fun c a rest hc hrun => hm hc (runFrom_require_eq_ok_iff.1 hrun), ?_⟩
  intro c f stop hc hrun
  rw [runFrom_require] at hrun
  split at hrun
  · cases hrun
  · obtain ⟨-, rfl⟩ := Prod.mk.inj hrun
    exact .refl hc

/-- A rule that takes some number of tokens takes any smaller number. -/
theorem Takes.mono {r : Rule α} (h : r.Takes k) (hjk : j ≤ k) : r.Takes j :=
  ⟨fun _ _ _ hc hrun => (h.ok hc hrun).mono hjk, h.error⟩

/-- A sequence takes the tokens of its parts. -/
theorem Takes.bind {r : Rule α} {f : α → Rule β} (hr : r.Takes j) (hf : ∀ a, (f a).Takes k) :
    (r >>= f).Takes (j + k) := by
  refine ⟨fun c b rest hc hrun => ?_, fun c e stop hc hrun => ?_⟩
  · obtain ⟨a, mid, hfirst, hsecond⟩ := runFrom_bind_eq_ok_iff.1 hrun
    have hmid := hr.ok hc hfirst
    exact hmid.trans ((hf a).ok hmid.trimmed hsecond)
  · rw [runFrom_bind] at hrun
    split at hrun
    · next a mid hfirst =>
      have hmid := hr.ok hc hfirst
      exact (hmid.trans ((hf a).error hmid.trimmed hrun)).mono (Nat.zero_le _)
    · next e' stop' hfirst =>
      obtain ⟨-, rfl⟩ := Prod.mk.inj hrun
      exact hr.error hc hfirst

end Rule

/-! ### The parts of the grammar -/

/-- A modifier takes at least one token. -/
theorem Attribute.matcher_takes : Attribute.matcher.Takes 1 := by
  refine .firstM fun a _ => ?_
  have hwords : 1 ≤ a.words.length := by
    obtain ⟨w, ws, hws, -⟩ := a.exists_words_eq
    simp [hws]
  exact ((Matcher.takes_phrase a.words).mono hwords).bind fun _ => Matcher.takes_pure a

/-- A clause takes at least its keyword. -/
theorem Value.clause_takes (keyword : String) : (Value.clause keyword).Takes 1 := by
  have hvalue : (optional Value.matcher).Takes 0 :=
    Matcher.takes_of_matches fun _ => .optional (Simulation.matches_value _)
  exact (Matcher.takes_word keyword).bind fun _ => hvalue

/-- The clause of a comment takes at least its keyword. -/
theorem Column.commentClause_takes : Column.commentClause.Takes 1 :=
  (Value.clause_takes "comment").map

/-- The word `KEY` or `INDEX` takes one token. -/
theorem KeyKind.indexWord_takes : KeyKind.indexWord.Takes 1 :=
  (Matcher.takes_word "key").orElse (Matcher.takes_word "index")

/-- The words of a kind of key take at least one token. -/
theorem KeyKind.matcher_takes : KeyKind.matcher.Takes 1 := by
  have hindex : (optional KeyKind.indexWord).Takes 0 :=
    Matcher.takes_of_matches fun _ => .optional (Simulation.matches_indexWord _)
  have hword (w : String) (kind : KeyKind) :
      (Matcher.word w *> optional KeyKind.indexWord *> pure kind).Takes 1 :=
    ((Matcher.takes_word w).bind fun _ => hindex).bind fun _ => Matcher.takes_pure kind
  have hphrase (w : String) (kind : KeyKind) :
      (Matcher.phrase [w, "key"] *> pure kind).Takes 1 :=
    ((Matcher.takes_phrase [w, "key"]).mono (by simp)).bind fun _ => Matcher.takes_pure kind
  refine .orElse (hphrase _ _) (.orElse (hword _ _) (.orElse (hword _ _) ?_))
  refine .orElse (hphrase _ _) ?_
  exact KeyKind.indexWord_takes.bind fun _ => Matcher.takes_pure KeyKind.index

/-- A type takes at least its name. -/
theorem DataType.rule_takes : DataType.rule.Takes 1 := by
  refine .bind (k := 0) (Rule.takes_require (Matcher.takes_token _) _) fun name => ?_
  have hparameters : (Rule.allow (lengthOnly <|> lengthAndScale)).Takes 0 :=
    Rule.takes_of_obeys fun _ =>
      .allow (.orElse (Simulation.matches_lengthOnly _) (Simulation.matches_lengthAndScale _))
  refine .bind (k := 0) hparameters fun parameters => ?_
  cases parameters <;> exact Rule.takes_pure _

/-- A column takes at least its name and the name of its type. -/
theorem Column.rule_takes : Column.rule.Takes 2 := by
  have hattributes : (Rule.many Attribute.matcher).Takes 0 :=
    Rule.takes_of_obeys fun _ => .many (Simulation.matches_attribute _)
  have hdefault : (Rule.allow defaultClause).Takes 0 :=
    Rule.takes_of_obeys fun _ => .allow (Simulation.matches_clause _ _)
  have hcomment : (Rule.allow commentClause).Takes 0 :=
    Rule.takes_of_obeys fun _ => .allow (Simulation.matches_commentClause _)
  refine .bind (k := 1) (Rule.takes_require (Matcher.takes_token _) _) fun name => ?_
  refine .bind (k := 0) DataType.rule_takes fun type => ?_
  refine .bind (k := 0) hattributes fun attributes => ?_
  refine .bind (k := 0) hdefault fun value => ?_
  exact .bind (k := 0) hcomment fun comment => Rule.takes_pure _

/-- A column with nothing behind it takes what a column takes. -/
theorem Column.wholeRule_takes : Column.wholeRule.Takes 2 :=
  Column.rule_takes.bind (k := 0) fun _ =>
    (Rule.takes_require Matcher.takes_atEnd _).bind fun _ => Rule.takes_pure _

/-- A key takes at least one token, of the words that tell its kind. -/
theorem Key.rule_takes : Key.rule.Takes 1 := by
  have hconstraint : Key.constraintName.Takes 0 :=
    Rule.takes_of_obeys fun _ => Simulation.obeys_constraintName _
  have hindex (kind : KeyKind) : (Key.indexName kind).Takes 0 :=
    Rule.takes_of_obeys fun _ => Simulation.obeys_indexName _ kind
  have hoptions : Key.options.Takes 0 :=
    Rule.takes_of_obeys fun _ => Simulation.obeys_options _
  have hcolumns : Key.columnListRule.Takes 0 :=
    Rule.takes_of_obeys fun _ => Simulation.obeys_columnList _
  have hreference : (some <$> Reference.rule).Takes 0 :=
    Rule.takes_of_obeys fun _ =>
      .map (B := Option.Rel _) (Simulation.obeys_reference _) fun _ _ => .some
  refine .bind (k := 1) hconstraint fun constraint => ?_
  refine .bind (k := 0) (Rule.takes_require KeyKind.matcher_takes _) fun kind => ?_
  refine .bind (k := 0) (hindex kind) fun index => ?_
  refine .bind (k := 0) hoptions fun _ => ?_
  refine .bind (k := 0) hcolumns fun columns => ?_
  split
  · exact .bind (k := 0) hreference fun _ => hoptions.bind fun _ => Rule.takes_pure _
  · exact .bind (k := 0) (Rule.takes_pure none) fun _ => hoptions.bind fun _ => Rule.takes_pure _

/-- The name of a table takes at least one token. -/
theorem QualifiedName.rule_takes (missing : Expectation) :
    (QualifiedName.rule missing).Takes 1 := by
  have hname : (Rule.require Matcher.identifier missing).Takes 1 :=
    Rule.takes_require (Matcher.takes_token _) _
  have hperiod : (Rule.allow (Matcher.mark .period)).Takes 0 :=
    Rule.takes_of_obeys fun _ => .allow (.mark (fun _ => nofun) rfl)
  refine .bind (k := 0) hname fun first => .bind (k := 0) hperiod fun period => ?_
  cases period with
  | none => exact Rule.takes_pure _
  | some _ => exact (hname.bind fun second => Rule.takes_pure _).mono (Nat.zero_le _)

/-- An item never goes back. -/
theorem Item.rule_takes : Item.rule.Takes 0 :=
  Rule.takes_of_obeys fun _ => Simulation.obeys_item _

/-- A statement takes at least its two words, a name and two parentheses. -/
theorem Table.rule_takes : Table.rule.Takes 5 := by
  have hguard : (Rule.allow (Matcher.phrase ["if", "not", "exists"])).Takes 0 :=
    Rule.takes_of_obeys fun _ => .allow (Simulation.matches_phrase _ _)
  have hitems : Item.listRule.Takes 0 :=
    Rule.takes_of_obeys fun _ => Simulation.obeys_itemList _
  refine .bind (k := 3) (Rule.takes_require (Matcher.takes_phrase ["create", "table"]) _)
    fun _ => ?_
  refine .bind (k := 3) hguard fun _ => ?_
  refine .bind (k := 2) (QualifiedName.rule_takes _) fun name => ?_
  refine .bind (k := 1) (Rule.takes_require (Matcher.takes_exactly _).map _) fun _ => ?_
  refine .bind (k := 1) hitems fun items => ?_
  exact .bind (k := 0) (Rule.takes_require (Matcher.takes_exactly _) _) fun close =>
    Rule.takes_pure _

end CreateTable
