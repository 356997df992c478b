import CreateTable.Proofs.Column.Value

/-!
# The tokens of the modifiers of a column

The words of a modifier are read whenever they come, and the first word tells which modifier it
is. So the row of modifiers before any other keyword is read completely and in one way.

## Main definitions

* `Attribute.AreSpelledBy`: the tokens of a row of modifiers.
* `Attribute.leads`: the first words of the modifiers.

## Main statements

* `Attribute.run_eq_some_iff`: a modifier is read from the tokens of its words.
* `Attribute.exists_areSpelledBy`, `Attribute.AreSpelledBy.many`: the row of modifiers that is
  read.
-/

namespace CreateTable

namespace Matcher

variable {α ι : Type} {c rest : Cursor}

/-- A row of alternatives of which at most one matches is read as the one that matches. -/
theorem run_firstM_eq_some_iff {f : ι → Matcher α} {l : List ι} {a : α}
    (h : ∀ i ∈ l, ∀ j ∈ l, ((f i).run c).isSome → ((f j).run c).isSome → i = j) :
    (l.firstM f).run c = some (a, rest) ↔ ∃ i ∈ l, (f i).run c = some (a, rest) := by
  induction l with
  | nil =>
      simp only [List.not_mem_nil, false_and, exists_false, iff_false]
      exact nofun
  | cons i l ih =>
      have htail := ih fun j hj k hk =>
        h j (List.mem_cons_of_mem i hj) k (List.mem_cons_of_mem i hk)
      rw [show (i :: l).firstM f = (f i <|> l.firstM f) from rfl, run_orElse_eq_some_iff, htail,
        List.exists_mem_cons_iff]
      constructor
      · rintro (hi | ⟨-, hl⟩)
        · exact .inl hi
        · exact .inr hl
      · rintro (hi | ⟨j, hj, hrun⟩)
        · exact .inl hi
        cases hi : (f i).run c with
        | none => exact .inr ⟨rfl, j, hj, hrun⟩
        | some _ =>
            obtain rfl := h i List.mem_cons_self j (List.mem_cons_of_mem i hj)
              (by simp [hi]) (by simp [hrun])
            exact .inl (hi.symm.trans hrun)

/-- Where none of several matchers matches, the choice of them does not match, either. -/
theorem run_firstM_eq_none {f : ι → Matcher α} {l : List ι} (h : ∀ i ∈ l, (f i).run c = none) :
    (l.firstM f).run c = none := by
  induction l with
  | nil => rfl
  | cons i l ih =>
      rw [List.forall_mem_cons] at h
      exact run_orElse_eq_none_iff.2 ⟨h.1, ih h.2⟩

/-- A phrase is not read in front of another keyword than its first. -/
theorem run_phrase_of_leadsWith {w : String} {ws vs : List String} (hc : c.IsBare)
    (h : c.LeadsWith vs) (hvs : ∀ v ∈ vs, Text.sameWord w v = false) :
    (phrase (w :: ws)).run c = none := by
  rw [phrase, run_bind, h.run_word hc hvs, Option.bind_none]

end Matcher

namespace Attribute

variable {c rest : Cursor}

/-- The first words of the modifiers. -/
def leads : List String :=
  ["not", "null", "auto_increment", "primary", "unique", "binary", "unsigned"]

/-- The tokens `ts` spell the modifiers `as` one after the other. -/
inductive AreSpelledBy : List Attribute → Cursor → Prop
  | nil : AreSpelledBy [] []
  | cons {a : Attribute} {as : List Attribute} {ts us : Cursor} : ts.Spells a.words →
    AreSpelledBy as us → AreSpelledBy (a :: as) (ts ++ us)

/-- A modifier has a first word, and it is one that modifiers lead with. -/
theorem exists_words_eq (a : Attribute) : ∃ w ws, a.words = w :: ws ∧ w ∈ leads := by
  cases a <;> exact ⟨_, _, rfl, by decide⟩

/-- The first word of a modifier tells which one it is. -/
theorem eq_of_sameWord {a b : Attribute}
    (h : Text.sameWord (a.words.headD "") (b.words.headD "") = true) : a = b := by
  revert h
  cases a <;> cases b <;> decide

/-- Tokens do not spell two modifiers. -/
theorem eq_of_spells {a b : Attribute} {ts us x y : Cursor} (ha : ts.Spells a.words)
    (hb : us.Spells b.words) (h : ts ++ x = us ++ y) : a = b := by
  refine eq_of_sameWord ?_
  obtain ⟨w, ws, hws, -⟩ := a.exists_words_eq
  obtain ⟨v, vs, hvs, -⟩ := b.exists_words_eq
  rw [hws] at ha ⊢
  rw [hvs] at hb ⊢
  obtain ⟨t, ts, ht, -, rfl⟩ := List.forall₂_cons_left_iff.1 ha
  obtain ⟨u, us, hu, -, rfl⟩ := List.forall₂_cons_left_iff.1 hb
  obtain rfl : t = u := (List.cons.inj h).1
  exact Kind.sameWord_of_isWord ht hu

/-- The words of a modifier are read as this modifier, and only where they stand. -/
theorem run_words_eq_some_iff {a b : Attribute} (hc : c.IsBare) :
    (do Matcher.phrase a.words; return a : Matcher Attribute).run c = some (b, rest) ↔
      a = b ∧ ∃ ts, c = ts ++ rest ∧ ts.Spells a.words := by
  simp only [Matcher.run_bind_eq_some_iff, Matcher.run_phrase_eq_some_iff hc,
    Matcher.run_pure_eq_some_iff]
  constructor
  · rintro ⟨_, mid, ⟨ts, rfl, hts⟩, rfl, rfl⟩
    exact ⟨rfl, ts, rfl, hts⟩
  · rintro ⟨rfl, ts, rfl, hts⟩
    exact ⟨(), rest, ⟨ts, rfl, hts⟩, rfl, rfl⟩

/-- A modifier is read from the tokens of its words. -/
theorem run_eq_some_iff {a : Attribute} (hc : c.IsBare) :
    matcher.run c = some (a, rest) ↔ ∃ ts, c = ts ++ rest ∧ ts.Spells a.words := by
  rw [matcher, Matcher.run_firstM_eq_some_iff]
  · simp only [run_words_eq_some_iff hc]
    constructor
    · rintro ⟨_, -, rfl, hts⟩
      exact hts
    · rintro hts
      exact ⟨a, a.mem_all, rfl, hts⟩
  · intro i _ j _ hi hj
    obtain ⟨⟨b, x⟩, hi⟩ := Option.isSome_iff_exists.1 hi
    obtain ⟨⟨b', y⟩, hj⟩ := Option.isSome_iff_exists.1 hj
    obtain ⟨-, ts, rfl, hts⟩ := (run_words_eq_some_iff hc).1 hi
    obtain ⟨-, us, heq, hus⟩ := (run_words_eq_some_iff hc).1 hj
    exact eq_of_spells hts hus heq

/-- There is no modifier in front of another keyword. -/
theorem run_of_leadsWith {vs : List String} (hc : c.IsBare) (h : c.LeadsWith vs)
    (hvs : ∀ w ∈ leads, ∀ v ∈ vs, Text.sameWord w v = false) : matcher.run c = none := by
  refine Matcher.run_firstM_eq_none fun a _ => ?_
  obtain ⟨w, ws, hws, hw⟩ := a.exists_words_eq
  rw [hws, Matcher.run_bind, Matcher.run_phrase_of_leadsWith hc h (hvs w hw), Option.bind_none]

/-- What is read as often as a modifier comes are the tokens of a row of modifiers. -/
theorem exists_areSpelledBy (hc : c.IsBare) :
    ∃ ts, c = ts ++ (matcher.many c).2 ∧ AreSpelledBy (matcher.many c).1 ts := by
  fun_induction Matcher.many matcher c with
  | case1 => exact ⟨[], rfl, .nil⟩
  | case2 c a rest hrun _ as last hlast ih =>
      obtain ⟨ts, rfl, hts⟩ := (run_eq_some_iff hc).1 hrun
      rw [hlast] at ih
      obtain ⟨us, hus, has⟩ := ih (Cursor.isBare_append.1 hc).2
      exact ⟨ts ++ us, by rw [List.append_assoc, ← hus], .cons hts has⟩
  | case3 => exact ⟨[], rfl, .nil⟩

/-- Modifiers lead with a first word of a modifier. -/
theorem AreSpelledBy.leadsWith {as : List Attribute} {ts : Cursor} (h : AreSpelledBy as ts) :
    ts.LeadsWith leads := by
  cases h with
  | nil => exact .nil
  | @cons a as ts us hts _ =>
      obtain ⟨w, ws, hws, hw⟩ := a.exists_words_eq
      rw [hws] at hts
      obtain ⟨t, ts, ht, -, rfl⟩ := List.forall₂_cons_left_iff.1 hts
      exact .cons ht hw

/-- A row of modifiers is read completely, in front of something that is none. -/
theorem AreSpelledBy.many {as : List Attribute} {ts : Cursor} (h : AreSpelledBy as ts)
    (hc : Cursor.IsBare (ts ++ rest)) (hrest : matcher.run rest = none) :
    matcher.many (ts ++ rest) = (as, rest) := by
  induction h with
  | nil => rw [List.nil_append, Matcher.many, hrest]
  | @cons a as ts us hts _ ih =>
      rw [List.append_assoc] at hc ⊢
      have hrun := (run_eq_some_iff hc).2 ⟨ts, rfl, hts⟩
      have hlt : (us ++ rest).length < (ts ++ (us ++ rest)).length := by
        obtain ⟨w, ws, hws, -⟩ := a.exists_words_eq
        have hlength := hts.length_eq
        rw [hws, List.length_cons] at hlength
        simp only [List.length_append]
        omega
      rw [Matcher.many, hrun]
      simp only [hlt, if_true, ih (Cursor.isBare_append.1 hc).2]

end Attribute

end CreateTable
