import CreateTable.Identifier
import CreateTable.Proofs.Grammar.Pieces
import CreateTable.Proofs.Grammar.Significant
import CreateTable.Proofs.Token.Lexer
import CreateTable.Proofs.Token.Numeral
import CreateTable.Proofs.Token.Scan

/-!
# Printed texts as tokens

A printed text is cut into tokens piece by piece. A piece keeps its tokens when what stands
behind it cannot go on with them, so every statement about a piece names the text behind it.

A printed column repeats the numbers and the strings it was read from. They are tokens of the
printed text again since every token of a text has the shape of its kind.

## Main definitions

* `Kind.IsWritten`: the text of a token can be written again.
* `LexesTo`: the tokens of a piece of a text.
* `EndsWord`: the characters that go on with no word.
* `StopsWord`: the texts that go on with no word.
* `Delimited`: the texts in front of which every word, number and string ends.

## Main statements

* `isWritten_of_mem_significantTokens`: every token of a text can be written again.
* `LexesTo.append`: the tokens of two pieces.
* `scan_word`: a plain word is read to its end.
* `lexesTo_word`, `lexesTo_literal`, `lexesTo_numeral`: the pieces that are one token.
* `lexesTo_words`, `lexesTo_row`: rows of words, and rows with commas.
-/

namespace CreateTable

open Text Identifier

/-! ### Tokens that can be written again -/

/-- The text of the token can stand in a statement: that of a number is a numeral, and that of a
string may stand between single quotes. -/
def Kind.IsWritten : Kind → Prop
  | .number v _ => IsNumeral v.toList
  | .quoted .single body => IsQuotedBody '\'' true body.toList
  | _ => True

/-- A token that no rule reads a value from can be written again. -/
theorem Kind.IsOther.isWritten {k : Kind} (h : k.IsOther) : k.IsWritten := by
  cases k with
  | number => exact h.elim
  | quoted style body =>
      cases style with
      | single => exact absurd rfl h
      | _ => trivial
  | _ => trivial

/-- A token that is cut from a text can be written again. -/
theorem isWritten_of_scan {c : Char} {cs : List Char} {k : Kind} {n : Nat}
    (h : scan c cs = .ok (k, n)) : k.IsWritten := by
  obtain ⟨hc, hnumber⟩ | hoperator | ⟨body, hbody, rfl⟩ | hother := scan_cases h
  · have hkind : (number (c :: cs)).1 = k := congrArg Prod.fst hnumber
    obtain ⟨v, long, heq⟩ | heq | hother := number_cases (c :: cs)
    · obtain rfl : k = .number v long := hkind.symm.trans heq
      exact isNumeral_of_number hc hnumber
    · obtain rfl : k = .period := hkind.symm.trans heq
      trivial
    · rw [hkind] at hother
      exact hother.isWritten
  · have hwritten : ∀ s ∈ operators, s.2.IsWritten := by
      simp [operators, Kind.IsWritten]
    obtain ⟨s, hs, heq⟩ := Option.map_eq_some_iff.1 hoperator
    obtain ⟨rfl, -⟩ := Prod.mk.inj heq
    exact hwritten s (List.mem_of_find?_eq_some hs)
  · rw [Kind.IsWritten, String.toList_ofList]
    exact (isQuotedBody_of_quotedBody? hbody).1
  · exact hother.isWritten

/-- All the tokens of a text can be written again. -/
theorem isWritten_of_mem_lexFrom {l : Location} {cs : List Char} {t : Token}
    (h : t ∈ (lexFrom l cs).tokens) : t.kind.IsWritten := by
  fun_induction lexFrom l cs with
  | case1 => simp at h
  | case2 => simp at h
  | case3 l c cs k n hscan rest =>
      rename_i ih
      rcases List.mem_cons.1 h with rfl | h
      · exact isWritten_of_scan hscan
      · exact ih h

/-- All the significant tokens of a text can be written again. -/
theorem isWritten_of_mem_significantTokens {text : String} {t : Token}
    (h : t ∈ significantTokens text) : t.kind.IsWritten :=
  isWritten_of_mem_lexFrom (List.mem_filter.1 h).1

/-! ### Pieces of a text -/

/-- The tokens are a row of which `P` holds and one of which `Q` holds. -/
def Cursor.Splits (P Q : Cursor → Prop) (c : Cursor) : Prop :=
  ∃ d e, c = d ++ e ∧ P d ∧ Q e

/-- In front of `rest` the text `cs` is **cut into tokens** of which the significant ones satisfy
`P`, and behind them stand the tokens of `rest`. -/
def LexesTo (P : Cursor → Prop) (cs rest : List Char) : Prop :=
  ∀ l, ∃ ts : Cursor, P ts.significant ∧
    (lexFrom l (cs ++ rest)).tokens = ts ++ (lexFrom (l.afterAll cs) rest).tokens

namespace LexesTo

variable {P Q : Cursor → Prop} {cs ds rest : List Char}

/-- The empty text is cut into no tokens. -/
theorem nil (h : P []) : LexesTo P [] rest :=
  fun _ => ⟨[], h, rfl⟩

/-- What holds of the tokens may be replaced by what follows from it. -/
theorem imp (h : LexesTo P cs rest) (hPQ : ∀ ts : Cursor, ts.IsBare → P ts → Q ts) :
    LexesTo Q cs rest := by
  intro l
  obtain ⟨ts, hts, htokens⟩ := h l
  exact ⟨ts, hPQ _ (Cursor.isBare_significant ts) hts, htokens⟩

/-- The tokens of two pieces are those of the first and those of the second. -/
theorem append (hcs : LexesTo P cs (ds ++ rest)) (hds : LexesTo Q ds rest) :
    LexesTo (Cursor.Splits P Q) (cs ++ ds) rest := by
  intro l
  obtain ⟨ts, hts, htokens⟩ := hcs l
  obtain ⟨us, hus, hrest⟩ := hds (l.afterAll cs)
  refine ⟨ts ++ us, ⟨_, _, List.filter_append .., hts, hus⟩, ?_⟩
  rw [List.append_assoc, htokens, hrest, Location.afterAll_append, List.append_assoc]

/-- The tokens of a piece that is a whole text. -/
theorem significantTokens {text : String} (h : LexesTo P text.toList []) :
    P (significantTokens text) := by
  obtain ⟨ts, hts, htokens⟩ := h .start
  rw [List.append_nil, lexFrom, List.append_nil] at htokens
  rwa [CreateTable.significantTokens, lex, htokens]

/-- What holds of one token may be replaced by what holds of the row of it alone. -/
theorem imp_token {p : Kind → Prop} (h : LexesTo (Cursor.IsToken p) cs rest)
    (hP : ∀ t : Token, p t.kind → P [t]) : LexesTo P cs rest := by
  refine h.imp fun ts _ hts => ?_
  obtain ⟨t, rfl, ht⟩ := hts
  exact hP t ht

end LexesTo

/-- A text that is one token to its end gives this token in front of those of the rest. -/
theorem lexFrom_of_scan {c : Char} {cs rest : List Char} {k : Kind}
    (h : scan c (cs ++ rest) = .ok (k, cs.length + 1)) (l : Location) :
    (lexFrom l (c :: (cs ++ rest))).tokens
      = ⟨k, l⟩ :: (lexFrom (l.afterAll (c :: cs)) rest).tokens := by
  rw [lexFrom_cons h, Nat.add_sub_cancel, List.take_left, List.drop_left]

/-- A text that is one significant token to its end is cut into this token. -/
theorem lexesTo_of_scan {c : Char} {cs rest : List Char} {k : Kind} (hk : k.isTrivia = false)
    (h : scan c (cs ++ rest) = .ok (k, cs.length + 1)) :
    LexesTo (Cursor.IsToken (· = k)) (c :: cs) rest := by
  intro l
  refine ⟨[⟨k, l⟩], ?_, lexFrom_of_scan h l⟩
  exact ⟨⟨k, l⟩, by simp [Cursor.significant, Token.isTrivia, hk], rfl⟩

/-- A blank or a comment before a piece changes no token. -/
theorem LexesTo.trivia {P : Cursor → Prop} {c : Char} {ds rest : List Char} {k : Kind}
    (h : LexesTo P ds rest) (cs : List Char) (hk : k.isTrivia = true)
    (hscan : scan c (cs ++ (ds ++ rest)) = .ok (k, cs.length + 1)) :
    LexesTo P (c :: (cs ++ ds)) rest := by
  have hskip : LexesTo (· = []) (c :: cs) (ds ++ rest) := by
    refine fun l => ⟨[⟨k, l⟩], ?_, lexFrom_of_scan hscan l⟩
    simp [Cursor.significant, Token.isTrivia, hk]
  refine (hskip.append h).imp fun ts _ hts => ?_
  obtain ⟨_, us, rfl, rfl, hus⟩ := hts
  exact hus

/-- A blank or a line feed in front changes nothing. -/
theorem LexesTo.blank {P : Cursor → Prop} {c : Char} {cs rest : List Char}
    (h : LexesTo P cs rest) (hc : c = ' ' ∨ c = '\n') : LexesTo P (c :: cs) rest := by
  refine h.trivia (k := .blank) [] rfl ?_
  rcases hc with rfl | rfl <;> rfl

/-- A parenthesis or a comma is a token whatever stands behind it. -/
theorem lexesTo_mark {c : Char} {k : Kind}
    (h : (c, k) ∈ [('(', Kind.leftParen), (')', .rightParen), (',', .comma)]) (rest : List Char) :
    LexesTo (Cursor.IsToken (· = k)) [c] rest := by
  refine lexesTo_of_scan ?_ (scan_mark h _)
  simp only [List.mem_cons, Prod.mk.injEq, List.not_mem_nil, or_false] at h
  obtain ⟨-, rfl⟩ | ⟨-, rfl⟩ | ⟨-, rfl⟩ := h <;> rfl

/-- An opening parenthesis is a token of its own. -/
theorem lexesTo_leftParen (rest : List Char) :
    LexesTo (Cursor.IsToken (· = .leftParen)) ['('] rest :=
  lexesTo_mark (by simp) rest

/-- A closing parenthesis is a token of its own. -/
theorem lexesTo_rightParen (rest : List Char) :
    LexesTo (Cursor.IsToken (· = .rightParen)) [')'] rest :=
  lexesTo_mark (by simp) rest

/-- A comma is a token of its own. -/
theorem lexesTo_comma (rest : List Char) : LexesTo (Cursor.IsToken (· = .comma)) [','] rest :=
  lexesTo_mark (by simp) rest

/-! ### Where words, numbers and strings end -/

/-- A character that **ends a word**: it goes on with no word and opens no string. -/
structure EndsWord (d : Char) : Prop where
  not_isWordPart : isWordPart d = false
  not_isQuote : d ∉ ['\'', '"', '\x60']

/-- The text `rest` is at its end or begins with a character that ends a word. -/
def StopsWord (rest : List Char) : Prop :=
  ∀ d ∈ rest.head?, EndsWord d

/-- A text that begins with a character that ends a word stops a word. -/
theorem EndsWord.stopsWord {d : Char} (hd : EndsWord d) (tail : List Char) :
    StopsWord (d :: tail) := by
  rintro _ ⟨⟩
  exact hd

/-- The text `rest` begins with a blank, a comma or a parenthesis. -/
def Delimited (rest : List Char) : Prop :=
  ∃ d tail, rest = d :: tail ∧ d ∈ [' ', '\n', ',', '(', ')']

/-- A text that begins with a blank, a comma or a parenthesis is delimited. -/
theorem delimited_cons {d : Char} (hd : d ∈ [' ', '\n', ',', '(', ')']) (tail : List Char) :
    Delimited (d :: tail) :=
  ⟨d, tail, rfl, hd⟩

/-- Blanks, commas, parentheses and periods end a word. -/
theorem endsWord_of_mem {d : Char} (h : d ∈ [' ', '\n', ',', '(', ')', '.']) : EndsWord d := by
  have hascii : ∀ d ∈ [' ', '\n', ',', '(', ')', '.'], d.toNat < 0x80 := by simp
  have hstop : ∀ d ∈ [' ', '\n', ',', '(', ')', '.'],
      (d.isAlpha || d = '_' || d = '$' || d = '@' || d.isDigit) = false := by simp
  have hquote : ∀ d ∈ [' ', '\n', ',', '(', ')', '.'], d ∉ ['\'', '"', '\x60'] := by simp
  exact ⟨(isWordPart_of_ascii (hascii d h)).trans (hstop d h), hquote d h⟩

/-- A delimited text begins with a character that ends words and numbers. -/
theorem Delimited.exists_endsWord {rest : List Char} (h : Delimited rest) :
    ∃ d tail, rest = d :: tail ∧ EndsWord d ∧ EndsNumber d := by
  obtain ⟨d, tail, rfl, hd⟩ := h
  have hmem : d ∈ [' ', '\n', ',', '(', ')', '.'] := by
    revert hd
    simp only [List.mem_cons]
    tauto
  have hsign : ∀ d ∈ [' ', '\n', ',', '(', ')'], d ∉ ['.', '+', '-'] := by simp
  exact ⟨d, tail, rfl, endsWord_of_mem hmem, (endsWord_of_mem hmem).not_isWordPart, hsign d hd⟩

/-- A text that is empty or begins with a delimiter leaves a delimited text delimited. -/
theorem Delimited.append {cs rest : List Char} (h : Delimited rest)
    (hcs : ∀ d ∈ cs.head?, d ∈ [' ', '\n', ',', '(', ')']) : Delimited (cs ++ rest) := by
  cases cs with
  | nil => exact h
  | cons d cs => exact ⟨d, cs ++ rest, rfl, hcs d rfl⟩

/-! ### Words -/

/-- A character that needs no backticks can stand in a word. -/
theorem isWordPart_of_isPlainChar {c : Char} (h : isPlainChar c = true) : isWordPart c = true := by
  simp only [isPlainChar, Char.isAlphanum, Bool.or_eq_true] at h
  obtain (h | h) | h := h <;> simp [isWordPart, isWordStart, h]

/-- The characters of a plain name. -/
theorem exists_of_isPlain {w : String} (h : isPlain w = true) :
    ∃ c cs, w.toList = c :: cs ∧ c.isDigit = false ∧ ∀ d ∈ c :: cs, isPlainChar d = true := by
  rw [isPlain] at h
  split at h
  · cases h
  next c cs hw =>
  rw [Bool.and_eq_true, List.all_eq_true, Bool.not_eq_true'] at h
  exact ⟨c, cs, hw, h.1, h.2⟩

/-- A character that needs no backticks is none of those that need them. -/
theorem not_mem_of_isPlainChar {c : Char} {l : List Char} (hc : isPlainChar c = true)
    (hl : l.all (!isPlainChar ·) = true) : c ∉ l := by
  intro h
  have hc' := List.all_eq_true.1 hl c h
  simp [hc] at hc'

/-- A plain word is read to its end. -/
theorem scan_word {c : Char} {cs rest : List Char} (hc : c.isDigit = false)
    (hcs : ∀ e ∈ c :: cs, isPlainChar e = true) (hrest : StopsWord rest) :
    scan c (cs ++ rest) = .ok (.word (String.ofList (c :: cs)), cs.length + 1) := by
  have hplain := hcs c List.mem_cons_self
  have hmark : c ∉ ['-', '/', '.'] := not_mem_of_isPlainChar hplain rfl
  simp only [List.mem_cons, List.not_mem_nil, or_false, not_or] at hmark
  have hnext : ∀ e, (cs ++ rest).head? = some e → e ∉ ['\'', '"'] := by
    cases cs with
    | nil => exact fun e he h => (hrest e he).not_isQuote (List.mem_append_left ['\x60'] h)
    | cons f cs =>
        rintro _ ⟨⟩
        exact not_mem_of_isPlainChar (hcs _ (by simp)) rfl
  have hstart : isWordStart c = true := by
    simp only [isPlainChar, Char.isAlphanum, hc, Bool.or_false, Bool.or_eq_true] at hplain
    rcases hplain with h | h <;> simp [isWordStart, h]
  have hpart : ∀ e ∈ cs, isWordPart e = true :=
    fun e he => isWordPart_of_isPlainChar (hcs e (List.mem_cons_of_mem c he))
  have hparts : wordParts (cs ++ rest) = cs := by
    have hbehind := wordParts_eq_nil fun d hd => (hrest d hd).not_isWordPart
    rw [wordParts] at hbehind ⊢
    rw [List.takeWhile_append_of_pos hpart, hbehind, List.append_nil]
  rw [scan_plain (not_mem_of_isPlainChar hplain rfl)
    (fun h => absurd (hnext _ h) (by simp)) (fun h => absurd (hnext _ h) (by simp))
    (fun _ => hmark.1) (fun _ => hmark.2.1), if_neg (by simp [hc, hmark.2.2]), scanPlain,
    if_pos hstart, scanWord, hparts]
  simp [Nat.add_comm]

/-- A word that needs no backticks is read as that word. -/
theorem lexesTo_word {w : String} {d : Char} (hw : isPlain w = true) (hd : EndsWord d)
    (tail : List Char) : LexesTo (Cursor.IsToken (· = .word w)) w.toList (d :: tail) := by
  obtain ⟨c, cs, hlist, hc, hcs⟩ := exists_of_isPlain hw
  have hscan := lexesTo_of_scan rfl (scan_word hc hcs (hd.stopsWord tail))
  rwa [← hlist, String.ofList_toList] at hscan

/-- Letter case has no say in which characters are digits or plain. -/
theorem isPlainChar_toLower (c : Char) :
    c.toLower.isDigit = c.isDigit ∧ isPlainChar c.toLower = isPlainChar c := by
  rcases Nat.lt_or_ge c.toNat 128 with h | h
  · have hascii : ∀ n < 128, (Char.ofNat n).toLower.isDigit = (Char.ofNat n).isDigit ∧
        isPlainChar (Char.ofNat n).toLower = isPlainChar (Char.ofNat n) := by decide
    have hc := hascii c.toNat h
    rwa [Char.ofNat_toNat] at hc
  · rw [toLower_eq_self h]
    exact ⟨rfl, rfl⟩

/-- Words that differ in letter case only are both plain or both not. -/
theorem isPlain_eq_of_sameWord {v w : String} (h : Text.sameWord v w = true) :
    isPlain v = isPlain w := by
  have hplain : isPlainChar ∘ Char.toLower = isPlainChar :=
    funext fun c => (isPlainChar_toLower c).2
  have hall (cs : List Char) : (Text.foldCase cs).all isPlainChar = cs.all isPlainChar := by
    rw [Text.foldCase, List.all_map, hplain]
  have hfold := Text.sameWord_iff.1 h
  have hlists := congrArg (List.all · isPlainChar) hfold
  simp only [hall] at hlists
  unfold isPlain
  generalize v.toList = vs, w.toList = ws at hfold hlists ⊢
  cases vs with
  | nil => rw [List.map_eq_nil_iff.1 hfold.symm]
  | cons c cs =>
      cases ws with
      | nil => cases hfold
      | cons d ds =>
          have hhead : c.toLower = d.toLower := (List.cons.inj hfold).1
          have hdigit : c.isDigit = d.isDigit := by
            rw [← (isPlainChar_toLower c).1, hhead, (isPlainChar_toLower d).1]
          simp only [hdigit, hlists]

/-! ### Strings -/

/-- A string between single quotes is read as that string. -/
theorem lexesTo_literal {s : String} {d : Char} (hs : IsQuotedBody '\'' true s.toList)
    (hd : EndsWord d) (tail : List Char) :
    LexesTo (Cursor.IsToken (· = .quoted .single s)) ('\'' :: (s.toList ++ ['\'']))
      (d :: tail) := by
  have hnext : (d :: tail).head? ≠ some '\'' := by
    rintro ⟨⟩
    exact hd.not_isQuote (by simp)
  refine lexesTo_of_scan rfl ?_
  rw [List.append_assoc, List.singleton_append, scan_literal hs hnext]
  simp

/-! ### Numbers -/

/-- A numeral is read to its end. -/
theorem lexesTo_numeral {s : String} {d : Char} (hs : IsNumeral s.toList) (hd : EndsNumber d)
    (tail : List Char) : LexesTo (Cursor.IsToken (· = .number s false)) s.toList (d :: tail) := by
  obtain ⟨c, cs, hlist, hc⟩ := hs.head
  have hnumber := hs.number_eq
  rw [hlist] at hnumber ⊢
  refine lexesTo_of_scan rfl ?_
  rw [scan_number hc, ← List.cons_append, number_append hd, hnumber, ← hlist, String.ofList_toList]
  simp [hlist]

/-! ### Rows -/

/-- Words with blanks between them. -/
theorem lexesTo_words {vs : List String} {d : Char} (hvs : ∀ v ∈ vs, isPlain v = true)
    (hd : EndsWord d) (tail : List Char) :
    LexesTo (fun ts => ts.map Token.kind = vs.map .word) (" ".intercalate vs).toList
      (d :: tail) := by
  induction vs with
  | nil => exact .nil rfl
  | cons v vs ih =>
      rw [List.forall_mem_cons] at hvs
      cases vs with
      | nil =>
          rw [String.intercalate_singleton]
          exact (lexesTo_word hvs.1 hd tail).imp_token fun t ht => congrArg (fun k => [k]) ht
      | cons w vs =>
          rw [String.intercalate_cons_cons, String.toList_append, String.toList_append,
            List.append_assoc]
          have hblank : EndsWord ' ' := endsWord_of_mem (by simp)
          have hrest := (ih hvs.2).blank (.inl rfl)
          refine ((lexesTo_word hvs.1 hblank _).append hrest).imp fun ts _ hts => ?_
          obtain ⟨_, us, rfl, ⟨t, rfl, ht⟩, hus⟩ := hts
          rw [List.singleton_append, List.map_cons, ht, hus]
          rfl

/-- The words of a phrase, in some letter case. -/
theorem lexesTo_phrase {ws vs : List String} {rest : List Char}
    (hws : ∀ w ∈ ws, isPlain w = true) (h : List.Forall₂ (fun w v => sameWord w v = true) ws vs)
    (hrest : Delimited rest) : LexesTo (Cursor.Spells ws) (" ".intercalate vs).toList rest := by
  obtain ⟨d, tail, rfl, hd, -⟩ := hrest.exists_endsWord
  have hvs : ∀ v ∈ vs, isPlain v = true := by
    induction h with
    | nil => simp
    | cons hsame _ ih =>
        rw [List.forall_mem_cons] at hws ⊢
        exact ⟨(isPlain_eq_of_sameWord hsame).symm.trans hws.1, ih hws.2⟩
  refine (lexesTo_words hvs hd tail).imp fun ts _ hts => ?_
  have hkinds : List.Forall₂ (fun w k => Kind.isWord w k = true) ws (ts.map Token.kind) := by
    rw [hts, List.forall₂_map_right_iff]
    exact h
  rwa [List.forall₂_map_right_iff] at hkinds

/-- Items with a comma and a blank between each two of them are cut into the tokens of the items
with commas between them. -/
theorem lexesTo_row {α : Type} {P : α → Cursor → Prop} {render : α → String} {as : List α}
    {sep : String} {blank : Char} {rest : List Char} (hne : as ≠ [])
    (hsep : sep.toList = [',', blank]) (hblank : blank = ' ' ∨ blank = '\n')
    (has : ∀ a ∈ as, ∀ rest, Delimited rest → LexesTo (P a) (render a).toList rest)
    (hrest : Delimited rest) :
    LexesTo (fun c => ∃ ss, c.Joined ss ∧ List.Forall₂ P as ss)
      (sep.intercalate (as.map render)).toList rest := by
  induction as with
  | nil => exact absurd rfl hne
  | cons a as ih =>
      rw [List.forall_mem_cons] at has
      cases as with
      | nil =>
          rw [List.map_singleton, String.intercalate_singleton]
          refine (has.1 rest hrest).imp fun ts _ hts => ?_
          exact ⟨[ts], .single ts, .cons hts .nil⟩
      | cons b bs =>
          rw [List.map_cons, List.map_cons, String.intercalate_cons_cons, String.toList_append,
            String.toList_append, hsep, List.append_assoc]
          have hrow := ih (List.cons_ne_nil b bs) has.2
          have hitem (tail : List Char) := has.1 (',' :: tail) (delimited_cons (by simp) tail)
          have hitems := (lexesTo_comma _).append (hrow.blank hblank)
          refine ((hitem _).append hitems).imp fun ts _ hts => ?_
          obtain ⟨s, _, rfl, hs, _, c, rfl, ⟨t, rfl, ht⟩, ss, hjoined, hall⟩ := hts
          exact ⟨s :: ss, .cons ht hjoined, .cons hs hall⟩

end CreateTable
