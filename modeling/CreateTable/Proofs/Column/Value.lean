import CreateTable.Column
import CreateTable.Proofs.Grammar.Bare

/-!
# The tokens of a value

The matcher of values tries its four forms in turn, and reads the words about the current time
greedily. Each form begins with a token of its own, so the order of the attempts does not matter;
and a greedy choice among the words loses nothing, since a row of words that can be read behind a
word that was passed over can also be read if it was taken.

## Main definitions

* `Cursor.LeadsWith`: tokens that begin with one of some keywords, if there are any.
* `Value.IsSpelledBy`: the tokens of a value.
* `Value.IsClause`: the tokens of a keyword and the value behind it, if there is one.

## Main statements

* `Value.exists_isSpelledBy`, `Value.IsSpelledBy.run`: the matcher of values is sound, and
  complete in front of a keyword.
* `Value.exists_isClause`, `Value.IsClause.run`: the same for clauses.
-/

namespace CreateTable

/-- A token is at most one keyword, up to letter case. -/
theorem Kind.sameWord_of_isWord {k : Kind} {v w : String} (hv : k.isWord v = true)
    (hw : k.isWord w = true) : Text.sameWord v w = true := by
  cases k with
  | word x =>
      have hsame := (Text.sameWord_iff.1 hv).trans (Text.sameWord_iff.1 hw).symm
      exact Text.sameWord_iff.2 hsame
  | _ => simp [isWord] at hv

/-- A keyword is an unquoted word. -/
theorem Kind.exists_of_isWord {k : Kind} {w : String} (h : k.isWord w = true) :
    ∃ v, k = .word v := by
  cases k with
  | word v => exact ⟨v, rfl⟩
  | _ => simp [isWord] at h

/-! ### Keywords ahead -/

/-- The tokens `c`, if there are any, **lead with** one of the keywords `ws`. -/
def Cursor.LeadsWith (ws : List String) (c : Cursor) : Prop :=
  ∀ t ∈ c.head?, ∃ w ∈ ws, t.kind.isWord w = true

namespace Cursor.LeadsWith

variable {α : Type} {ws vs : List String} {c d rest : Cursor}

/-- An empty row leads with any keywords. -/
theorem nil : LeadsWith ws [] := by
  simp [LeadsWith]

/-- A keyword in front is one that the tokens lead with. -/
theorem cons {t : Token} {w : String} (h : t.kind.isWord w = true) (hw : w ∈ ws) :
    LeadsWith ws (t :: c) := by
  simpa [LeadsWith] using ⟨w, hw, h⟩

/-- Two rows in sequence lead with a keyword of one of them. -/
theorem append (hc : c.LeadsWith ws) (hd : d.LeadsWith vs) : (c ++ d).LeadsWith (ws ++ vs) := by
  cases c with
  | nil =>
      intro t ht
      obtain ⟨w, hw, h⟩ := hd t ht
      exact ⟨w, List.mem_append_right _ hw, h⟩
  | cons u c =>
      obtain ⟨w, hw, h⟩ := hc u rfl
      exact cons h (List.mem_append_left _ hw)

/-- What is read neither at a keyword nor at what follows is not read in front of both. -/
theorem run_append_eq_none {m : Matcher α} (h : c.LeadsWith ws)
    (hm : (c ++ rest).LeadsWith ws → m.run (c ++ rest) = none) (hrest : m.run rest = none) :
    m.run (c ++ rest) = none := by
  cases c with
  | nil => exact hrest
  | cons t c => exact hm h

/-- A token that is no word is not read in front of a keyword. -/
theorem run_token (h : c.LeadsWith ws) (hc : c.IsBare) {read : Kind → Option α}
    (hread : ∀ v, read (.word v) = none) : (Matcher.token read).run c = none := by
  refine Option.eq_none_iff_forall_ne_some.2 fun ⟨a, rest⟩ hrun => ?_
  obtain ⟨t, rfl, ha⟩ := (Matcher.run_token_eq_some_iff hc).1 hrun
  obtain ⟨w, -, hw⟩ := h t rfl
  obtain ⟨v, hv⟩ := Kind.exists_of_isWord hw
  rw [hv, hread] at ha
  cases ha

/-- A mark is not read in front of a keyword. -/
theorem run_mark (h : c.LeadsWith ws) (hc : c.IsBare) {k : Kind} (hk : ∀ v, k ≠ .word v) :
    (Matcher.mark k).run c = none := by
  refine Option.eq_none_iff_forall_ne_some.2 fun ⟨a, rest⟩ hrun => ?_
  obtain ⟨t, rfl, ht⟩ := (Matcher.run_mark_eq_some_iff hc).1 hrun
  obtain ⟨w, -, hw⟩ := h t rfl
  obtain ⟨v, hv⟩ := Kind.exists_of_isWord hw
  exact hk v (ht.symm.trans hv)

/-- A word is not read as it is written in front of other keywords. -/
theorem run_writtenWord (h : c.LeadsWith ws) (hc : c.IsBare) {w : String}
    (hw : ∀ v ∈ ws, Text.sameWord w v = false) : (Matcher.writtenWord w).run c = none := by
  refine Option.eq_none_iff_forall_ne_some.2 fun ⟨a, rest⟩ hrun => ?_
  obtain ⟨t, rfl, ht, hsame⟩ := (Matcher.run_writtenWord_eq_some_iff hc).1 hrun
  obtain ⟨v, hv, hvt⟩ := h t rfl
  have hwt : t.kind.isWord w = true := by rw [ht]; exact hsame
  exact absurd (Kind.sameWord_of_isWord hwt hvt) (by simp [hw v hv])

/-- A keyword is not read in front of other keywords. -/
theorem run_word (h : c.LeadsWith ws) (hc : c.IsBare) {w : String}
    (hw : ∀ v ∈ ws, Text.sameWord w v = false) : (Matcher.word w).run c = none := by
  rw [Matcher.word, Matcher.run_map, h.run_writtenWord hc hw, Option.map_none]

end Cursor.LeadsWith

namespace Value

/-! ### Words about the current time -/

/-- The tokens `ts` are some of the words `ws`, in their order. -/
abbrev SomeOf (ts : Cursor) (ws : List String) : Prop :=
  List.SublistForall₂ (fun t w => t.kind.isWord w = true) ts ws

variable {c rest : Cursor}

/-- Of the words to come the first is taken if it stands there, and otherwise passed over. -/
theorem run_writtenWords_cons (w : String) (ws : List String) (c : Cursor) :
    (writtenWords (w :: ws)).run c =
      match (Matcher.writtenWord w).run c with
      | some (v, mid) => ((writtenWords ws).run mid).map fun p => (v :: p.1, p.2)
      | none => (writtenWords ws).run c := by
  rw [writtenWords, Matcher.run_bind, optional, Matcher.run_orElse, Matcher.run_map]
  rcases (Matcher.writtenWord w).run c with _ | ⟨v, mid⟩
  · rfl
  · simp only [Option.map_some, Option.some_or, Option.bind_some, Matcher.run_bind]
    rcases (writtenWords ws).run mid with _ | ⟨vs, rest⟩ <;> rfl

/-- What is read of the words is some of them, in their order and as written. -/
theorem exists_someOf {ws vs : List String} (hc : c.IsBare)
    (h : (writtenWords ws).run c = some (vs, rest)) :
    ∃ ts, c = ts ++ rest ∧ SomeOf ts ws ∧ vs = ts.filterMap (·.kind.word?) := by
  induction ws generalizing c vs with
  | nil =>
      obtain ⟨rfl, rfl⟩ := Matcher.run_pure_eq_some_iff.1 h
      exact ⟨[], rfl, .nil, rfl⟩
  | cons w ws ih =>
      rw [run_writtenWords_cons] at h
      rcases hword : (Matcher.writtenWord w).run c with _ | ⟨v, mid⟩
      · rw [hword] at h
        obtain ⟨ts, rfl, hts, rfl⟩ := ih hc h
        exact ⟨ts, rfl, .cons_right hts, rfl⟩
      · rw [hword] at h
        obtain ⟨⟨vs, rest⟩, hrest, heq⟩ := Option.map_eq_some_iff.1 h
        obtain ⟨rfl, rfl⟩ := Prod.mk.inj heq
        obtain ⟨t, rfl, ht, hsame⟩ := (Matcher.run_writtenWord_eq_some_iff hc).1 hword
        obtain ⟨ts, rfl, hts, rfl⟩ := ih (Cursor.isBare_cons.1 hc).2 hrest
        have hword : t.kind.isWord w = true := by rw [ht]; exact hsame
        exact ⟨t :: ts, rfl, .cons hword hts, by simp [ht, Kind.word?]⟩

/-- All but the first of some of the words are some of the words behind the first one. -/
theorem SomeOf.tail {t : Token} {ts : Cursor} {w : String} {ws : List String}
    (h : SomeOf (t :: ts) (w :: ws)) : SomeOf ts ws := by
  cases h with
  | cons _ h => exact h
  | cons_right h =>
      obtain ⟨l, hl, hsub⟩ := List.sublistForall₂_iff.1 h
      obtain ⟨v, l, -, htail, rfl⟩ := List.forall₂_cons_left_iff.1 hl
      exact List.sublistForall₂_iff.2 ⟨l, htail, (List.sublist_cons_self v l).trans hsub⟩

/-- Some of several words lead with one of these. -/
theorem SomeOf.leadsWith {ts : Cursor} {ws : List String} (h : SomeOf ts ws) :
    ts.LeadsWith ws := by
  induction h with
  | nil => exact .nil
  | cons h _ _ => exact .cons h List.mem_cons_self
  | cons_right _ ih =>
      intro t ht
      obtain ⟨w, hw, h⟩ := ih t ht
      exact ⟨w, List.mem_cons_of_mem _ hw, h⟩

/-- There are as many words as tokens. -/
theorem SomeOf.words_ne_nil {ts : Cursor} {ws : List String} (h : SomeOf ts ws) (hne : ts ≠ []) :
    ts.filterMap (·.kind.word?) ≠ [] := by
  cases ts with
  | nil => exact absurd rfl hne
  | cons t ts =>
      obtain ⟨w, -, hw⟩ := h.leadsWith t rfl
      obtain ⟨v, hv⟩ := Kind.exists_of_isWord hw
      simp [hv, Kind.word?]

/-- The words are read in any case, and where none is taken, none is there. -/
theorem exists_run_writtenWords (ws : List String) (c : Cursor) :
    ∃ vs rest, (writtenWords ws).run c = some (vs, rest) ∧
      (vs = [] → ∀ w ∈ ws, (Matcher.writtenWord w).run c = none) := by
  induction ws generalizing c with
  | nil => exact ⟨[], c, rfl, fun _ => List.forall_mem_nil _⟩
  | cons w ws ih =>
      rw [run_writtenWords_cons]
      rcases hword : (Matcher.writtenWord w).run c with _ | ⟨v, mid⟩
      · obtain ⟨vs, rest, hrun, hnone⟩ := ih c
        exact ⟨vs, rest, hrun, fun hvs => List.forall_mem_cons.2 ⟨hword, hnone hvs⟩⟩
      · obtain ⟨vs, rest, hrun, -⟩ := ih mid
        exact ⟨v :: vs, rest, by simp only [hrun, Option.map_some], nofun⟩

/-- Some of the words are read completely, in front of a token that is none of them. -/
theorem SomeOf.run {ts : Cursor} {ws : List String} (h : SomeOf ts ws)
    (hc : Cursor.IsBare (ts ++ rest))
    (hrest : ∀ w ∈ ws, (Matcher.writtenWord w).run rest = none) :
    (writtenWords ws).run (ts ++ rest) = some (ts.filterMap (·.kind.word?), rest) := by
  induction ws generalizing ts with
  | nil =>
      cases h
      rfl
  | cons w ws ih =>
      rw [List.forall_mem_cons] at hrest
      rw [run_writtenWords_cons]
      cases ts with
      | nil =>
          rw [List.nil_append] at hc ⊢
          rw [hrest.1]
          exact ih .nil hc hrest.2
      | cons t ts =>
          rw [List.cons_append] at hc ⊢
          by_cases ht : t.kind.isWord w = true
          · obtain ⟨v, hv⟩ := Kind.exists_of_isWord ht
            have hsame : Text.sameWord w v = true := by rw [hv] at ht; exact ht
            rw [(Matcher.run_writtenWord_eq_some_iff hc).2 ⟨t, rfl, hv, hsame⟩]
            have hrun := ih h.tail (Cursor.isBare_cons.1 hc).2 hrest.2
            simp only [hrun, Option.map_some, List.filterMap_cons, hv, Kind.word?]
          · have hnone : (Matcher.writtenWord w).run (t :: (ts ++ rest)) = none := by
              refine Option.eq_none_iff_forall_ne_some.2 fun ⟨v, mid⟩ hrun => ht ?_
              obtain ⟨u, hu, hv, hsame⟩ := (Matcher.run_writtenWord_eq_some_iff hc).1 hrun
              rw [(List.cons.inj hu).1, hv]
              exact hsame
            rw [hnone]
            cases h with
            | cons h _ => exact absurd h ht
            | cons_right h => exact ih h hc hrest.2

/-! ### Values -/

/-- The tokens that **spell** a value: `NULL`, a string in single quotes, a number that may have a
minus sign before it, or some of the words about the current time, at least one of them. -/
inductive IsSpelledBy : Value → Cursor → Prop
  | null {t : Token} : t.kind.isWord "null" = true → IsSpelledBy .null [t]
  | literal {t : Token} {body : String} : t.kind = .quoted .single body →
    IsSpelledBy (.literal body) [t]
  | numeric {t : Token} {text : String} {long : Bool} : t.kind = .number text long →
    IsSpelledBy (.numeric text) [t]
  | negative {m t : Token} {text : String} {long : Bool} : m.kind = .minus →
    t.kind = .number text long → IsSpelledBy (.numeric ("-" ++ text)) [m, t]
  | expression {ts : Cursor} : ts ≠ [] → SomeOf ts timestampWords →
    IsSpelledBy (.expression (" ".intercalate (ts.filterMap (·.kind.word?)))) ts

/-- A number without a sign is read where a number stands. -/
theorem run_unsignedNumeral_eq_some_iff {text : String} (hc : c.IsBare) :
    Matcher.unsignedNumeral.run c = some (text, rest) ↔
      ∃ t long, c = t :: rest ∧ t.kind = .number text long := by
  rw [Matcher.unsignedNumeral, Matcher.run_token_eq_some_iff hc]
  refine exists_congr fun t => ?_
  cases t.kind <;> simp

/-- A string is read where one stands between single quotes. -/
theorem run_stringLiteral_eq_some_iff {body : String} (hc : c.IsBare) :
    Matcher.stringLiteral.run c = some (body, rest) ↔
      ∃ t, c = t :: rest ∧ t.kind = .quoted .single body := by
  rw [Matcher.stringLiteral, Matcher.run_token_eq_some_iff hc]
  refine exists_congr fun t => and_congr_right fun _ => ?_
  rcases t.kind with _ | _ | _ | _ | _ | ⟨style, body'⟩ | _ | _ | _ | _ | _ | _ <;> try simp
  cases style <;> simp

/-- What is read as a number is spelled by the tokens that are taken. -/
theorem exists_numeric {text : String} (hc : c.IsBare)
    (h : Matcher.numeral.run c = some (text, rest)) :
    ∃ ts, c = ts ++ rest ∧ (numeric text).IsSpelledBy ts := by
  rcases Matcher.run_orElse_eq_some_iff.1 h with hsigned | ⟨-, hplain⟩
  · obtain ⟨_, mid, hmark, hnumber⟩ := Matcher.run_bind_eq_some_iff.1 hsigned
    obtain ⟨m, rfl, hm⟩ := (Matcher.run_mark_eq_some_iff hc).1 hmark
    obtain ⟨_, _, hunsigned, hpure⟩ := Matcher.run_bind_eq_some_iff.1 hnumber
    obtain ⟨rfl, rfl⟩ := Matcher.run_pure_eq_some_iff.1 hpure
    obtain ⟨t, long, rfl, ht⟩ :=
      (run_unsignedNumeral_eq_some_iff (Cursor.isBare_cons.1 hc).2).1 hunsigned
    exact ⟨[m, t], rfl, .negative hm ht⟩
  · obtain ⟨t, long, rfl, ht⟩ := (run_unsignedNumeral_eq_some_iff hc).1 hplain
    exact ⟨[t], rfl, .numeric ht⟩

/-- What is read as an expression is spelled by the tokens that are taken. -/
theorem exists_expression {text : String} (hc : c.IsBare)
    (h : timestamp.run c = some (text, rest)) :
    ∃ ts, c = ts ++ rest ∧ (expression text).IsSpelledBy ts := by
  obtain ⟨words, mid, hwords, hjoin⟩ := Matcher.run_bind_eq_some_iff.1 h
  obtain ⟨ts, rfl, hts, rfl⟩ := exists_someOf hc hwords
  cases ts with
  | nil => cases hjoin
  | cons t ts =>
      rw [if_neg (by simpa using hts.words_ne_nil (List.cons_ne_nil t ts))] at hjoin
      obtain ⟨rfl, rfl⟩ := Matcher.run_pure_eq_some_iff.1 hjoin
      exact ⟨t :: ts, rfl, .expression (by simp) hts⟩

/-- What is read as a value spells it. -/
theorem exists_isSpelledBy {v : Value} (hc : c.IsBare) (h : matcher.run c = some (v, rest)) :
    ∃ ts, c = ts ++ rest ∧ v.IsSpelledBy ts := by
  simp only [matcher, Matcher.run_orElse_eq_some_iff, Matcher.run_map_eq_some_iff,
    Matcher.run_seqRight_eq_some_iff, Matcher.run_pure_eq_some_iff] at h
  obtain ⟨_, _, hnull, rfl, rfl⟩ | ⟨-, ⟨body, hliteral, rfl⟩ | ⟨-, ⟨text, hnumber, rfl⟩ |
    ⟨-, text, htime, rfl⟩⟩⟩ := h
  · obtain ⟨t, rfl, ht⟩ := (Matcher.run_word_eq_some_iff hc).1 hnull
    exact ⟨[t], rfl, .null ht⟩
  · obtain ⟨t, rfl, ht⟩ := (run_stringLiteral_eq_some_iff hc).1 hliteral
    exact ⟨[t], rfl, .literal ht⟩
  · exact exists_numeric hc hnumber
  · exact exists_expression hc htime

/-! ### Reading what spells a value -/

/-- The four forms are alternatives of the token they begin with. -/
theorem run_matcher_cons {t : Token} (hc : Cursor.IsBare (t :: c)) :
    matcher.run (t :: c) =
      if t.kind.isWord "null" then some (null, c)
      else ((Matcher.stringLiteral.run (t :: c)).map fun p => (literal p.1, p.2)).or
        (((Matcher.numeral.run (t :: c)).map fun p => (numeric p.1, p.2)).or
          ((timestamp.run (t :: c)).map fun p => (expression p.1, p.2))) := by
  have hnull : (Matcher.word "null" *> (pure null : Matcher Value)).run (t :: c)
      = if t.kind.isWord "null" then some (null, c) else none := by
    change ((Matcher.word "null").run (t :: c)).bind (fun p => some (null, p.2)) = _
    rw [Matcher.run_word_cons hc]
    split <;> rfl
  simp only [matcher, Matcher.run_orElse, Matcher.run_map, hnull]
  split <;> rfl

/-- A number without a sign is read as its text. -/
theorem run_numeral_number {t : Token} {text : String} {long : Bool}
    (hc : Cursor.IsBare (t :: c)) (ht : t.kind = .number text long) :
    Matcher.numeral.run (t :: c) = some (text, c) := by
  refine Matcher.run_orElse_eq_some_iff.2 (.inr ⟨?_, ?_⟩)
  · rw [Matcher.run_bind, Matcher.run_mark_cons hc, ht]
    rfl
  · exact (run_unsignedNumeral_eq_some_iff hc).2 ⟨t, long, rfl, ht⟩

/-- A number behind a minus sign is read as its text with the sign in front. -/
theorem run_numeral_minus {m t : Token} {text : String} {long : Bool}
    (hc : Cursor.IsBare (m :: t :: c)) (hm : m.kind = .minus) (ht : t.kind = .number text long) :
    Matcher.numeral.run (m :: t :: c) = some ("-" ++ text, c) := by
  have hnumber := (run_unsignedNumeral_eq_some_iff (Cursor.isBare_cons.1 hc).2).2 ⟨t, long, rfl, ht⟩
  refine Matcher.run_orElse_eq_some_iff.2 (.inl ?_)
  rw [Matcher.run_bind, Matcher.run_mark_cons hc, if_pos hm, Option.bind_some, Matcher.run_bind,
    hnumber]
  rfl

/-- No keyword is a number. -/
theorem run_numeral_of_leadsWith {ws : List String} (h : c.LeadsWith ws) (hc : c.IsBare) :
    Matcher.numeral.run c = none := by
  refine Matcher.run_orElse_eq_none_iff.2 ⟨?_, ?_⟩
  · rw [Matcher.run_bind, h.run_mark hc (by simp), Option.bind_none]
  · exact h.run_token hc fun _ => rfl

/-- At a keyword other than `NULL` only the words about the current time are a value. -/
theorem run_matcher_of_leadsWith {ws : List String} (h : c.LeadsWith ws) (hc : c.IsBare)
    (hws : ∀ v ∈ ws, Text.sameWord "null" v = false) :
    matcher.run c = (timestamp.run c).map fun p => (expression p.1, p.2) := by
  have hnull : (Matcher.word "null" *> (pure null : Matcher Value)).run c = none := by
    change ((Matcher.word "null").run c).bind (fun p => some (null, p.2)) = none
    rw [h.run_word hc hws, Option.bind_none]
  have hstring : Matcher.stringLiteral.run c = none := h.run_token hc fun _ => rfl
  simp only [matcher, Matcher.run_orElse, Matcher.run_map, hnull, hstring,
    run_numeral_of_leadsWith h hc, Option.map_none, Option.none_or]

/-- Where there is no value, there is none of the words about the current time. -/
theorem run_writtenWord_of_matcher (h : matcher.run c = none) :
    ∀ w ∈ timestampWords, (Matcher.writtenWord w).run c = none := by
  obtain ⟨vs, rest, hrun, hnone⟩ := exists_run_writtenWords timestampWords c
  refine hnone (by_contra fun hvs => ?_)
  have htime : timestamp.run c = some (" ".intercalate vs, rest) :=
    Matcher.run_bind_eq_some_iff.2 ⟨vs, rest, hrun, by rw [if_neg (by simpa using hvs)]; rfl⟩
  simp [matcher, htime] at h

/-- The words about the current time are read completely. -/
theorem run_timestamp {ts : Cursor} (hne : ts ≠ []) (hts : SomeOf ts timestampWords)
    (hc : Cursor.IsBare (ts ++ rest)) (hrest : matcher.run rest = none) :
    timestamp.run (ts ++ rest)
      = some (" ".intercalate (ts.filterMap (·.kind.word?)), rest) := by
  have hwords := hts.run hc (run_writtenWord_of_matcher hrest)
  refine Matcher.run_bind_eq_some_iff.2 ⟨_, _, hwords, ?_⟩
  rw [if_neg (by simpa using hts.words_ne_nil hne)]
  rfl

/-- The tokens that spell a value are read as it, in front of something that is no value. -/
theorem IsSpelledBy.run {v : Value} {ts : Cursor} (h : v.IsSpelledBy ts)
    (hc : Cursor.IsBare (ts ++ rest)) (hrest : matcher.run rest = none) :
    matcher.run (ts ++ rest) = some (v, rest) := by
  cases h with
  | null ht => rw [List.singleton_append, run_matcher_cons (by exact hc), if_pos ht]
  | @literal t body ht =>
      change Cursor.IsBare (t :: rest) at hc
      have hread := (run_stringLiteral_eq_some_iff hc).2 ⟨t, rfl, ht⟩
      rw [List.singleton_append, run_matcher_cons hc, ht, hread]
      rfl
  | @numeric t text long ht =>
      change Cursor.IsBare (t :: rest) at hc
      rw [List.singleton_append, run_matcher_cons hc, run_numeral_number hc ht,
        Matcher.stringLiteral, Matcher.run_token_cons hc, ht]
      rfl
  | @negative m t text long hm ht =>
      change Cursor.IsBare (m :: t :: rest) at hc
      rw [show [m, t] ++ rest = m :: t :: rest from rfl, run_matcher_cons hc,
        run_numeral_minus hc hm ht, Matcher.stringLiteral, Matcher.run_token_cons hc, hm]
      rfl
  | @expression ts hne hts =>
      have hlead : (ts ++ rest).LeadsWith timestampWords := by
        cases ts with
        | nil => exact absurd rfl hne
        | cons t ts => exact hts.leadsWith
      rw [run_matcher_of_leadsWith hlead hc (by decide), run_timestamp hne hts hc hrest]
      rfl

/-- There is no value at a keyword that begins none. -/
theorem run_matcher_of_leadsWith_other {ws : List String} (hc : c.IsBare) (h : c.LeadsWith ws)
    (hws : ∀ w ∈ "null" :: timestampWords, ∀ v ∈ ws, Text.sameWord w v = false) :
    matcher.run c = none := by
  rw [List.forall_mem_cons] at hws
  have hnil : SomeOf [] timestampWords := .nil
  have hwords : (writtenWords timestampWords).run c = some ([], c) :=
    hnil.run hc fun w hw => h.run_writtenWord hc (hws.2 w hw)
  rw [run_matcher_of_leadsWith h hc hws.1, timestamp, Matcher.run_bind, hwords]
  rfl

/-! ### Clauses -/

/-- The tokens of a clause: its keyword alone, or the keyword and the tokens of a value. -/
inductive IsClause (keyword : String) : Option Value → Cursor → Prop
  | bare {t : Token} : t.kind.isWord keyword = true → IsClause keyword none [t]
  | value {t : Token} {v : Value} {ts : Cursor} : t.kind.isWord keyword = true →
    v.IsSpelledBy ts → IsClause keyword (some v) (t :: ts)

/-- What is read as a clause is one. -/
theorem exists_isClause {keyword : String} {v : Option Value} (hc : c.IsBare)
    (h : (clause keyword).run c = some (v, rest)) :
    ∃ ts, c = ts ++ rest ∧ IsClause keyword v ts := by
  obtain ⟨_, mid, hword, hvalue⟩ := Matcher.run_bind_eq_some_iff.1 h
  obtain ⟨t, rfl, ht⟩ := (Matcher.run_word_eq_some_iff hc).1 hword
  rcases Matcher.run_optional_eq_some_iff.1 hvalue with ⟨rfl, -, rfl⟩ | ⟨v, rfl, hread⟩
  · exact ⟨[t], rfl, .bare ht⟩
  · obtain ⟨ts, rfl, hts⟩ := exists_isSpelledBy (Cursor.isBare_cons.1 hc).2 hread
    exact ⟨t :: ts, rfl, .value ht hts⟩

/-- A clause is read completely, in front of something that is no value. -/
theorem IsClause.run {keyword : String} {v : Option Value} {ts : Cursor}
    (h : IsClause keyword v ts) (hc : Cursor.IsBare (ts ++ rest))
    (hrest : matcher.run rest = none) : (clause keyword).run (ts ++ rest) = some (v, rest) := by
  refine Matcher.run_bind_eq_some_iff.2 ?_
  cases h with
  | @bare t ht =>
      exact ⟨(), rest, (Matcher.run_word_eq_some_iff hc).2 ⟨t, rfl, ht⟩,
        Matcher.run_optional_eq_some_iff.2 (.inl ⟨rfl, hrest, rfl⟩)⟩
  | @value t v ts ht hts =>
      have hread := hts.run (Cursor.isBare_cons.1 hc).2 hrest
      exact ⟨(), ts ++ rest, (Matcher.run_word_eq_some_iff hc).2 ⟨t, rfl, ht⟩,
        Matcher.run_optional_eq_some_iff.2 (.inr ⟨v, rfl, hread⟩)⟩

/-- A clause leads with its keyword. -/
theorem IsClause.leadsWith {keyword : String} {v : Option Value} {ts : Cursor}
    (h : IsClause keyword v ts) : ts.LeadsWith [keyword] := by
  cases h with
  | bare ht => exact .cons ht List.mem_cons_self
  | value ht _ => exact .cons ht List.mem_cons_self

/-- There is no clause in front of another keyword. -/
theorem run_clause_eq_none {keyword : String} {ws : List String} (hc : c.IsBare)
    (h : c.LeadsWith ws) (hws : ∀ v ∈ ws, Text.sameWord keyword v = false) :
    (clause keyword).run c = none := by
  rw [clause, Matcher.run_bind, h.run_word hc hws, Option.bind_none]

end Value

end CreateTable
