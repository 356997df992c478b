import CreateTable.Proofs.Printing.Lexing

/-!
# Printed names

A printed name is one word of the printed text, whether it stands in backticks or not, when what
stands behind it goes on with no word. The word is read back as the name with every backtick
doubled: printing doubles the backticks in a name, and the tokens keep a doubled backtick as it is
written. So names without backticks, and only these, come back as they are.

## Main definitions

* `Identifier.doubled`: a name with every backtick doubled.

## Main statements

* `Identifier.doubled_eq_self_iff`, `Identifier.doubled_injective`: which names are changed, and
  that no two names become the same.
* `lexFrom_quote`, `lexesTo_quote`: the tokens of a printed name, with the text behind it.
* `Identifier.quote_injective`: different names are printed differently.
* `Session.allow_identifier_quote`: what is read at the start of a text that begins with a printed
  name.
-/

namespace CreateTable

open Text

namespace Identifier

/-- A name with every backtick doubled. -/
def doubled (name : String) : String :=
  String.ofList (doubleBackticks name.toList)

/-- Doubling the backticks adds one character for each of them. -/
theorem length_doubleBackticks (cs : List Char) :
    (doubleBackticks cs).length = cs.length + cs.count '\x60' := by
  induction cs with
  | nil => rfl
  | cons c cs ih =>
      rw [doubleBackticks]
      split
      · next hc =>
        subst hc
        rw [List.count_cons_self, List.length_cons, List.length_cons, List.length_cons, ih]
        omega
      · next hc =>
        rw [List.count_cons_of_ne hc, List.length_cons, List.length_cons, ih]
        omega

/-- Doubling the backticks changes a text exactly if it has one. -/
theorem doubleBackticks_eq_self_iff {cs : List Char} : doubleBackticks cs = cs ↔ '\x60' ∉ cs := by
  constructor
  · intro h
    have hlength := length_doubleBackticks cs
    rw [h] at hlength
    exact List.count_eq_zero.1 (by omega)
  · intro h
    induction cs with
    | nil => rfl
    | cons c cs ih =>
        simp only [List.mem_cons, not_or] at h
        rw [doubleBackticks, if_neg (Ne.symm h.1), ih h.2]

/-- Texts with the same doubling are the same. -/
theorem doubleBackticks_injective {cs ds : List Char}
    (h : doubleBackticks cs = doubleBackticks ds) : cs = ds := by
  induction cs generalizing ds with
  | nil =>
      cases ds with
      | nil => rfl
      | cons d ds =>
          rw [doubleBackticks, doubleBackticks] at h
          split at h <;> cases h
  | cons c cs ih =>
      cases ds with
      | nil =>
          rw [doubleBackticks, doubleBackticks] at h
          split at h <;> cases h
      | cons d ds =>
          rw [doubleBackticks, doubleBackticks] at h
          -- both texts begin with `c` and `d`, so both or neither of these is a backtick
          split at h <;> split at h
          · obtain ⟨rfl, htail⟩ := List.cons.inj h
            rw [ih (List.cons.inj htail).2]
          · next hc hd => exact absurd ((List.cons.inj h).1 ▸ hc) hd
          · next hc hd => exact absurd ((List.cons.inj h).1 ▸ hd) hc
          · obtain ⟨rfl, htail⟩ := List.cons.inj h
            rw [ih htail]

/-- A text with every backtick doubled may stand between backticks. -/
theorem isQuotedBody_doubleBackticks (cs : List Char) :
    IsQuotedBody '\x60' false (doubleBackticks cs) := by
  induction cs with
  | nil => exact .nil
  | cons c cs ih =>
      rw [doubleBackticks]
      split
      · next hc =>
        subst hc
        exact .doubled ih
      · next hc => exact .plain hc (by simp) ih

/-- A name is its own doubling exactly if it has no backtick. -/
theorem doubled_eq_self_iff {name : String} : doubled name = name ↔ '\x60' ∉ name.toList := by
  rw [← doubleBackticks_eq_self_iff, ← String.toList_inj, doubled, String.toList_ofList]

/-- Names with the same doubling are the same. -/
theorem doubled_injective {a b : String} (h : doubled a = doubled b) : a = b := by
  rw [doubled, doubled, String.ofList_inj] at h
  exact String.toList_inj.1 (doubleBackticks_injective h)

/-- Plain words have no backticks. -/
theorem doubled_of_isPlain {name : String} (h : isPlain name = true) : doubled name = name := by
  obtain ⟨c, cs, hname, -, hplain⟩ := exists_of_isPlain h
  rw [doubled_eq_self_iff, hname]
  exact fun hmem => absurd (hplain _ hmem) (by decide)

/-! ### Tokens -/

/-- A printed name is scanned as one word. -/
theorem scan_quote (name : String) {rest : List Char} (hrest : StopsWord rest) :
    ∃ c cs k, (quote name).toList = c :: cs ∧ scan c (cs ++ rest) = .ok (k, cs.length + 1) ∧
      k.name? = some (doubled name) := by
  rw [quote]
  split
  · next hplain =>
    obtain ⟨c, cs, hname, hdigit, hcs⟩ := exists_of_isPlain hplain
    refine ⟨c, cs, _, hname, scan_word hdigit hcs hrest, ?_⟩
    rw [doubled_of_isPlain hplain, ← hname, String.ofList_toList]
    rfl
  · have hnext : rest.head? ≠ some '\x60' :=
      fun h => (hrest _ h).not_isQuote (by simp)
    have hscan := scan_quotedWord (isQuotedBody_doubleBackticks name.toList) hnext
    refine ⟨'\x60', doubleBackticks name.toList ++ ['\x60'], .quotedWord (doubled name), ?_, ?_,
      rfl⟩
    · simp only [String.toList_append, String.toList_ofList]
      rfl
    · rw [List.append_assoc, List.singleton_append, hscan, doubled]
      simp

end Identifier

open Identifier

/-- In front of a text that goes on with no word, the first token of a printed name is the name with
every backtick doubled, and the other tokens are those of the text behind it. -/
theorem lexFrom_quote (name : String) {rest : List Char} (hrest : StopsWord rest) (l : Location) :
    ∃ t : Token, t.start = l ∧ t.kind.name? = some (doubled name) ∧
      (lexFrom l ((quote name).toList ++ rest)).tokens
        = t :: (lexFrom (l.afterAll (quote name).toList) rest).tokens := by
  obtain ⟨c, cs, k, hprinted, hscan, hname⟩ := scan_quote name hrest
  rw [hprinted]
  exact ⟨⟨k, l⟩, rfl, hname, lexFrom_of_scan hscan l⟩

/-- A printed name in front of a text that stops a word is read with its backticks doubled. -/
theorem lexesTo_quote (name : String) {rest : List Char} (hrest : StopsWord rest) :
    LexesTo (Cursor.IsToken (·.name? = some (doubled name))) (quote name).toList rest := by
  intro l
  obtain ⟨t, -, ht, htokens⟩ := lexFrom_quote name hrest l
  refine ⟨[t], ⟨t, ?_, ht⟩, htokens⟩
  simp [Cursor.significant, Token.isTrivia, Kind.not_isTrivia_of_name? ht]

/-- A printed name without backticks is read as the name. -/
theorem lexesTo_quote_self {name : String} {d : Char} (hname : '\x60' ∉ name.toList)
    (hd : EndsWord d) (tail : List Char) :
    LexesTo (Cursor.IsToken (·.name? = some name)) (quote name).toList (d :: tail) := by
  have h := lexesTo_quote name (hd.stopsWord tail)
  rwa [doubled_eq_self_iff.2 hname] at h

/-- Different names are printed differently, for they are read differently. -/
theorem Identifier.quote_injective {a b : String} (h : quote a = quote b) : a = b := by
  have hend : StopsWord [] := nofun
  obtain ⟨t, -, ht, hts⟩ := lexFrom_quote a hend .start
  obtain ⟨u, -, hu, hus⟩ := lexFrom_quote b hend .start
  rw [h] at hts
  obtain rfl : t = u := (List.cons.inj (hts.symm.trans hus)).1
  exact doubled_injective (Option.some.inj (ht.symm.trans hu))

/-! ### Sessions -/

/-- A cursor that stands on a word gives its name, and goes on behind it. -/
theorem Matcher.run_identifier_cons {t : Token} {name : String} (h : t.kind.name? = some name)
    (c : Cursor) : identifier.run (t :: c) = some (name, Cursor.ofTokens c) := by
  rw [identifier, run_token, Cursor.peek_cons c (Kind.not_isTrivia_of_name? h)]
  obtain ⟨k, l⟩ := t
  cases k <;> cases h <;> rfl

namespace Session

/-- **A printed name is read as one word.** In a text that begins with a printed name and goes on
with a blank, a comma, a point or a parenthesis, if at all, the first token is a word. It is read as
the name with every backtick doubled, and behind it stand the tokens of the rest of the text. That
is the name itself exactly if it has no backtick. -/
theorem allow_identifier_quote (name behind : String) (options : Options)
    (hbehind : ∀ d ∈ behind.toList.head?, d ∈ [' ', ',', '.', '(', ')']) :
    let s := ofText (quote name ++ behind) options
    let rest := (lexFrom (Location.start.afterAll (quote name).toList) behind.toList).tokens
    (∃ t : Token, s.cursor = t :: rest ∧ t.start = .start ∧ t.kind.name? = some (doubled name)) ∧
      s.allow Matcher.identifier
        = (some (doubled name), { s with cursor := Cursor.ofTokens rest }) ∧
      (doubled name = name ↔ '\x60' ∉ name.toList) := by
  intro s rest
  have hstops : StopsWord behind.toList := by
    intro d hd
    refine endsWord_of_mem ?_
    have hmem := hbehind d hd
    simp only [List.mem_cons, List.not_mem_nil, or_false] at hmem ⊢
    tauto
  obtain ⟨t, hstart, ht, htokens⟩ := lexFrom_quote name hstops .start
  have hcursor : s.cursor = t :: rest := by
    change Cursor.ofTokens (lexFrom .start (quote name ++ behind).toList).tokens = _
    rw [String.toList_append, htokens, Cursor.ofTokens, Cursor.skipTrivia, List.dropWhile_cons,
      if_neg (by simp [Token.isTrivia, Kind.not_isTrivia_of_name? ht])]
  refine ⟨⟨t, hcursor, hstart, ht⟩, ?_, doubled_eq_self_iff⟩
  rw [allow, hcursor, Matcher.run_identifier_cons ht]

/-- A name with a backtick, in front of a comma. -/
theorem allow_identifier_quote_backtick :
    (∀ d ∈ ", c".toList.head?, d ∈ [' ', ',', '.', '(', ')']) ∧
      ((ofText (quote "a\x60b" ++ ", c") {}).allow Matcher.identifier).1 = some "a\x60\x60b" := by
  have hbehind : ∀ d ∈ ", c".toList.head?, d ∈ [' ', ',', '.', '(', ')'] := by simp
  obtain ⟨-, hread, -⟩ := allow_identifier_quote "a\x60b" ", c" {} hbehind
  exact ⟨hbehind, congrArg Prod.fst hread⟩

/-- At the end of a text, a name with a backtick is not read back. -/
theorem allow_identifier_quote_ne :
    ((ofText (quote "a\x60b") {}).allow Matcher.identifier).1 ≠ some "a\x60b" := by
  decide +kernel

end Session

end CreateTable
