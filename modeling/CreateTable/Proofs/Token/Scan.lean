import CreateTable.Proofs.Token.Word
import CreateTable.Token.Lexer

/-!
# Single tokens

A token is told by the character it begins with, and perhaps by the next one.

A raw text may stand between quotes when every quote in it is doubled and, where backslashes
escape, every backslash has a character behind it. Reading a quoted text finds such a text, and
finds each of them again when it is put between quotes.

## Main definitions

* `IsQuotedBody`: the texts that may stand between quotes.

## Main statements

* `quotedBody?_eq_some_iff`: what is read behind an opening quote.
* `scan_plain`: the token of a character that opens no string and no comment.
* `scan_cases`: what a token is, by the character it begins with.
* `scan_mark`, `scan_minus`, `scan_period`: the tokens of marks.
* `scan_number`, `scan_literal`, `scan_quotedWord`: numbers, strings in single quotes, and words in
  backticks.
* `eq_of_scan_eq_rightParen`: a closing parenthesis is read from that character only.
-/

namespace CreateTable

/-! ### The raw texts between quotes -/

section

/-- A text that may stand between two quotes `quote` as it is. -/
inductive IsQuotedBody (quote : Char) (escapes : Bool) : List Char → Prop
  | nil : IsQuotedBody quote escapes []
  | doubled {cs : List Char} : IsQuotedBody quote escapes cs →
    IsQuotedBody quote escapes (quote :: quote :: cs)
  | escaped {d : Char} {cs : List Char} : escapes = true → IsQuotedBody quote escapes cs →
    IsQuotedBody quote escapes ('\\' :: d :: cs)
  | plain {c : Char} {cs : List Char} : c ≠ quote → ¬ (escapes = true ∧ c = '\\') →
    IsQuotedBody quote escapes cs → IsQuotedBody quote escapes (c :: cs)

variable {quote : Char} {escapes : Bool} {cs body : List Char}

/-- A text without quotes, and without backslashes where these escape, may stand between quotes. -/
theorem isQuotedBody_of_plain (h : ∀ c ∈ cs, c ≠ quote ∧ ¬ (escapes = true ∧ c = '\\')) :
    IsQuotedBody quote escapes cs := by
  induction cs with
  | nil => exact .nil
  | cons c cs ih =>
      rw [List.forall_mem_cons] at h
      exact .plain h.1.1 h.1.2 (ih h.2)

/-- What is read as a raw text may stand between quotes, and it stands before a quote that is not
doubled. -/
theorem isQuotedBody_of_quotedBody? (h : quotedBody? quote escapes cs = some body) :
    IsQuotedBody quote escapes body ∧
      ∃ rest, cs = body ++ quote :: rest ∧ rest.head? ≠ some quote := by
  fun_induction quotedBody? quote escapes cs generalizing body with
  | case1 => simp at h
  | case2 =>
      obtain rfl := Option.some.inj h
      exact ⟨.nil, [], by simp⟩
  | case3 => simp at h
  | case4 cs ih =>
      obtain ⟨b, hb, rfl⟩ := Option.map_eq_some_iff.1 h
      obtain ⟨hbody, rest, rfl, hrest⟩ := ih hb
      exact ⟨.doubled hbody, rest, rfl, hrest⟩
  | case5 d cs hd =>
      obtain rfl := Option.some.inj h
      exact ⟨.nil, d :: cs, rfl, by simpa using hd⟩
  | case6 c d cs hc hescape ih =>
      obtain ⟨b, hb, rfl⟩ := Option.map_eq_some_iff.1 h
      obtain ⟨hbody, rest, rfl, hrest⟩ := ih hb
      obtain ⟨hescapes, rfl⟩ : escapes = true ∧ c = '\\' := by simpa using hescape
      exact ⟨.escaped hescapes hbody, rest, rfl, hrest⟩
  | case7 c d cs hc hescape ih =>
      obtain ⟨b, hb, rfl⟩ := Option.map_eq_some_iff.1 h
      obtain ⟨hbody, rest, hcs, hrest⟩ := ih hb
      refine ⟨.plain hc (by simpa using hescape) hbody, rest, ?_, hrest⟩
      rw [hcs, List.cons_append]

/-- A text that may stand between quotes is read behind an opening quote. -/
theorem quotedBody?_of_isQuotedBody (hbody : IsQuotedBody quote escapes body)
    (hquote : quote ≠ '\\') {rest : List Char} (hrest : rest.head? ≠ some quote) :
    quotedBody? quote escapes (body ++ quote :: rest) = some body := by
  induction hbody with
  | nil =>
      cases rest with
      | nil => simp [quotedBody?]
      | cons d rest =>
          have hd : d ≠ quote := by simpa using hrest
          simp [quotedBody?, hd]
  | doubled _ ih => simp [quotedBody?, ih]
  | escaped hescapes _ ih =>
      subst hescapes
      simp [quotedBody?, Ne.symm hquote, ih]
  | @plain c cs hc hescape _ ih =>
      -- behind `c` stands at least the closing quote
      obtain ⟨d, ds, hds⟩ : ∃ d ds, cs ++ quote :: rest = d :: ds := by
        cases cs with
        | nil => exact ⟨_, _, rfl⟩
        | cons d cs => exact ⟨_, _, rfl⟩
      rw [List.cons_append, hds, quotedBody?, if_neg hc,
        if_neg (by simpa using hescape), ← hds, ih]
      rfl

/-- A raw text that is shorter than the first part of an append has its closing quote there. -/
theorem exists_quote_of_append {p rest behind : List Char} (h : p ++ rest = body ++ quote :: behind)
    (hlt : body.length < p.length) : ∃ q, p = body ++ quote :: q ∧ behind = q ++ rest := by
  have hprefix : body ++ [quote] <+: p := by
    refine List.prefix_of_prefix_length_le ?_ (List.prefix_append p rest) ?_
    · exact ⟨behind, by rw [h]; simp⟩
    · simpa [Nat.succ_le_iff] using hlt
  obtain ⟨q, rfl⟩ := hprefix
  exact ⟨q, by simp, by simpa using h.symm⟩

/-- Behind an opening quote a raw text is read exactly if it may stand between quotes and a quote
that is not doubled follows it. -/
theorem quotedBody?_eq_some_iff (hquote : quote ≠ '\\') :
    quotedBody? quote escapes cs = some body ↔
      IsQuotedBody quote escapes body ∧
        ∃ rest, cs = body ++ quote :: rest ∧ rest.head? ≠ some quote := by
  constructor
  · exact isQuotedBody_of_quotedBody?
  · rintro ⟨hbody, rest, rfl, hrest⟩
    exact quotedBody?_of_isQuotedBody hbody hquote hrest

end

/-! ### Tokens by their first character -/

/-- A character that opens no string and no comment, alone or with the next one, begins a number,
a word or an operator. -/
theorem scan_plain {c : Char} {cs : List Char}
    (hc : c ∉ [' ', '\t', '\n', '\x0B', '\x0C', '\r', '\'', '"', '\x60', '#', '@', '?'])
    (hquote : cs.head? = some '\'' → c ∉ ['b', 'B', 'n', 'N', 'e', 'E', 'x', 'X'])
    (hdouble : cs.head? = some '"' → c ∉ ['b', 'B'])
    (hline : cs.head? = some '-' → c ≠ '-')
    (hblock : cs.head? = some '*' → c ≠ '/') :
    scan c cs = if c.isDigit || c = '.' then .ok (number (c :: cs)) else scanPlain c cs := by
  simp only [List.mem_cons, List.not_mem_nil, or_false, not_or] at hc
  obtain ⟨_, _, _, _, _, hreturn, _, _, _, _, _, _⟩ := hc
  rw [scan]
  all_goals first
    | assumption
    | rintro rest rfl rfl
      first
      | exact hreturn rfl
      | exact hquote rfl (by simp)
      | exact hdouble rfl (by simp)
      | exact hline rfl rfl
      | exact hblock rfl rfl

/-- Parentheses and commas are tokens of their own. -/
theorem scan_mark {c : Char} {k : Kind}
    (h : (c, k) ∈ [('(', Kind.leftParen), (')', .rightParen), (',', .comma)]) (cs : List Char) :
    scan c cs = .ok (k, 1) := by
  simp only [List.mem_cons, Prod.mk.injEq, List.not_mem_nil, or_false] at h
  obtain ⟨rfl, rfl⟩ | ⟨rfl, rfl⟩ | ⟨rfl, rfl⟩ := h
  all_goals
    rw [scan_plain (by decide) (fun _ => by decide) (fun _ => by decide) (fun _ => by decide)
      (fun _ => by decide), if_neg (by decide), scanPlain, isWordStart_of_ascii (by decide)]
    rfl

/-- A minus sign in front of anything but `>` is an operator of its own. -/
theorem operator?_minus {d : Char} (hd : d ≠ '>') (cs : List Char) :
    operator? ('-' :: d :: cs) = some (.minus, 1) := by
  have hgreater : ('>' == d) = false := by simpa using Ne.symm hd
  have hfind : operators.find? (fun s => s.1.toList.isPrefixOf ('-' :: d :: cs))
      = some ("-", .minus) := by
    simp [operators, List.isPrefixOf, hgreater]
  exact congrArg (Option.map fun s => (s.2, s.1.length)) hfind

/-- A minus sign that begins neither a comment nor an arrow. -/
theorem scan_minus {d : Char} (hminus : d ≠ '-') (hgreater : d ≠ '>') (cs : List Char) :
    scan '-' (d :: cs) = .ok (.minus, 1) := by
  rw [scan_plain (by decide) (fun _ => by decide) (fun _ => by decide) (by simpa using hminus)
    (fun _ => by decide), if_neg (by decide), scanPlain, isWordStart_of_ascii (by decide),
    operator?_minus hgreater]
  rfl

/-- A point that begins no fraction. -/
theorem scan_period {d : Char} (hd : d.isDigit = false) (cs : List Char) :
    scan '.' (d :: cs) = .ok (.period, 1) := by
  rw [scan_plain (by decide) (fun _ => by decide) (fun _ => by decide) (fun _ => by decide)
    (fun _ => by decide), if_pos (by decide)]
  simp [number, hexLiteral?, fraction, hd]

/-- What begins with a digit or a point is read as a number. -/
theorem scan_number {c : Char} (hc : c.isDigit = true ∨ c = '.') (cs : List Char) :
    scan c cs = .ok (number (c :: cs)) := by
  have hspecial : ∀ e ∈ [' ', '\t', '\n', '\x0B', '\x0C', '\r', '\'', '"', '\x60', '#', '@', '?',
      'b', 'B', 'n', 'N', 'e', 'E', 'x', 'X', '-', '/'], ¬ (e.isDigit = true ∨ e = '.') := by simp
  have hne {l : List Char} (hl : l ⊆ [' ', '\t', '\n', '\x0B', '\x0C', '\r', '\'', '"', '\x60', '#',
      '@', '?', 'b', 'B', 'n', 'N', 'e', 'E', 'x', 'X', '-', '/']) : c ∉ l :=
    fun h => hspecial c (hl h) hc
  have hminus : c ∉ ['-'] := hne (by simp)
  have hslash : c ∉ ['/'] := hne (by simp)
  rw [scan_plain (hne (by simp)) (fun _ => hne (by simp)) (fun _ => hne (by simp))
    (fun _ => by simpa using hminus) (fun _ => by simpa using hslash), if_pos (by simpa using hc)]

/-- A text that may stand between single quotes is read as a string, unless a third quote goes on
with it. -/
theorem scan_literal {s : String} {rest : List Char} (hs : IsQuotedBody '\'' true s.toList)
    (hrest : rest.head? ≠ some '\'') :
    scan '\'' (s.toList ++ '\'' :: rest) = .ok (.quoted .single s, s.toList.length + 2) := by
  change scanString .single '\'' true 0 _ = _
  rw [scanString, quotedBody?_of_isQuotedBody hs (by decide) hrest]
  simp

/-- A text that may stand between backticks is read as a word, unless a third backtick goes on with
it. -/
theorem scan_quotedWord {cs rest : List Char} (hcs : IsQuotedBody '\x60' false cs)
    (hrest : rest.head? ≠ some '\x60') :
    scan '\x60' (cs ++ '\x60' :: rest) = .ok (.quotedWord (String.ofList cs), cs.length + 2) := by
  change scanQuotedWord _ = _
  rw [scanQuotedWord, quotedBody?_of_isQuotedBody hcs (by decide) hrest]

/-- The tokens that no rule of the grammar reads a value from, words aside: neither a number, nor a
string in single quotes, nor a mark. -/
def Kind.IsOther : Kind → Prop
  | .number _ _ | .leftParen | .rightParen | .comma | .period | .minus => False
  | .quoted style _ => style ≠ .single
  | _ => True

/-- What begins with a digit or a point is a number, a point, or a word or a hexadecimal string. -/
theorem number_cases (cs : List Char) :
    (∃ v long, (number cs).1 = .number v long) ∨ (number cs).1 = .period ∨
      (number cs).1.IsOther := by
  rw [number]
  split
  · exact .inr (.inr nofun)
  dsimp only
  split
  · exact .inr (.inl rfl)
  have hletters (letters text w : List Char) (b : Bool) (m n : Nat) :
      let r := if letters.isEmpty then (Kind.number (String.ofList text) b, m)
        else (.word (String.ofList w), n)
      (∃ v long, r.1 = .number v long) ∨ r.1 = .period ∨ r.1.IsOther := by
    dsimp only
    split
    · exact .inl ⟨_, _, rfl⟩
    · exact .inr (.inr trivial)
  exact hletters _ _ _ _ _ _

/-- Only the closing parenthesis is an operator that is read as one. -/
theorem operator?_eq_rightParen {cs : List Char} {n : Nat}
    (h : operator? cs = some (.rightParen, n)) : ∃ rest, cs = ')' :: rest ∧ n = 1 := by
  obtain ⟨s, hs, heq⟩ := Option.map_eq_some_iff.1 h
  have hspelling : ∀ s ∈ operators, s.2 = .rightParen → s.1.toList = [')'] ∧ s.1.length = 1 := by
    decide
  obtain ⟨hkind, rfl⟩ := Prod.mk.inj heq
  obtain ⟨hlist, hlength⟩ := hspelling s (List.mem_of_find?_eq_some hs) hkind
  have hprefix := List.find?_some hs
  dsimp only at hprefix
  rw [hlist, List.isPrefixOf_iff_prefix] at hprefix
  obtain ⟨rest, rfl⟩ := hprefix
  exact ⟨rest, rfl, hlength⟩

section

variable {c : Char} {cs : List Char} {k : Kind} {n : Nat}

/-- No rule reads a value from a string of another style than single quotes. -/
theorem isOther_of_scanString {style : QuoteStyle} {quote : Char} {escapes : Bool} {lead : Nat}
    (hstyle : style ≠ .single) (h : scanString style quote escapes lead cs = .ok (k, n)) :
    k.IsOther := by
  rw [scanString] at h
  split at h
  · obtain ⟨rfl, rfl⟩ := Prod.mk.inj (Except.ok.inj h)
    exact hstyle
  · cases h

/-- No rule reads a value from an escaped string. -/
theorem isOther_of_scanEscapedString (h : scanEscapedString cs = .ok (k, n)) : k.IsOther := by
  rw [scanEscapedString] at h
  split at h
  · obtain ⟨rfl, rfl⟩ := Prod.mk.inj (Except.ok.inj h)
    exact nofun
  · cases h

/-- No rule reads a value from a word in backticks, its text as a name aside. -/
theorem isOther_of_scanQuotedWord (h : scanQuotedWord cs = .ok (k, n)) : k.IsOther := by
  rw [scanQuotedWord] at h
  split at h
  · obtain ⟨rfl, rfl⟩ := Prod.mk.inj (Except.ok.inj h)
    trivial
  · cases h

/-- No rule reads a value from a block comment. -/
theorem isOther_of_scanBlockComment (h : scanBlockComment cs = .ok (k, n)) : k.IsOther := by
  rw [scanBlockComment] at h
  split at h
  · obtain ⟨rfl, rfl⟩ := Prod.mk.inj (Except.ok.inj h)
    trivial
  · cases h

/-- No rule reads a value from a word, its text aside. -/
theorem isOther_of_scanWord {lead : List Char} (h : scanWord lead cs = .ok (k, n)) :
    k.IsOther := by
  obtain ⟨rfl, rfl⟩ := Prod.mk.inj (Except.ok.inj h)
  trivial

/-- No rule reads a value from what begins with the sign `@`. -/
theorem isOther_of_scanAt (h : scanAt cs = .ok (k, n)) : k.IsOther := by
  unfold scanAt at h
  split at h
  all_goals try split at h
  all_goals first
    | exact isOther_of_scanWord h
    | obtain ⟨rfl, rfl⟩ := Prod.mk.inj (Except.ok.inj h)
      trivial

/-- What a token is, by the character it begins with. -/
theorem scan_cases (h : scan c cs = .ok (k, n)) :
    (c.isDigit = true ∨ c = '.') ∧ number (c :: cs) = (k, n) ∨
      operator? (c :: cs) = some (k, n) ∨
      (∃ body, quotedBody? '\'' true cs = some body ∧ k = .quoted .single (String.ofList body)) ∨
      k.IsOther := by
  unfold scan at h
  split at h
  case h_18 =>
    rw [scanString] at h
    split at h
    · next body hbody =>
      obtain ⟨rfl, rfl⟩ := Prod.mk.inj (Except.ok.inj h)
      exact .inr (.inr (.inl ⟨body, hbody, rfl⟩))
    · cases h
  case h_26 =>
    split at h
    · next hc => exact .inl ⟨by simpa using hc, Except.ok.inj h⟩
    rw [scanPlain] at h
    split at h
    · exact .inr (.inr (.inr (isOther_of_scanWord h)))
    cases hoperator : operator? (_ :: _) with
    | none =>
        rw [hoperator] at h
        obtain ⟨rfl, rfl⟩ := Prod.mk.inj (Except.ok.inj h)
        exact .inr (.inr (.inr trivial))
    | some r =>
        rw [hoperator] at h
        obtain rfl := Except.ok.inj h
        exact .inr (.inl rfl)
  all_goals refine .inr (.inr (.inr ?_))
  all_goals first
    | exact isOther_of_scanString (by decide) h
    | exact isOther_of_scanEscapedString h
    | exact isOther_of_scanQuotedWord h
    | exact isOther_of_scanBlockComment h
    | exact isOther_of_scanAt h
    | obtain ⟨rfl, rfl⟩ := Prod.mk.inj (Except.ok.inj h)
      trivial

/-- A closing parenthesis is read from that character, and from no other text. -/
theorem eq_of_scan_eq_rightParen (h : scan c cs = .ok (.rightParen, n)) : c = ')' ∧ n = 1 := by
  obtain ⟨-, hnumber⟩ | hoperator | ⟨_, -, hstring⟩ | hother := scan_cases h
  · have hkind : (number (c :: cs)).1 = .rightParen := congrArg Prod.fst hnumber
    obtain ⟨v, long, heq⟩ | heq | hother := number_cases (c :: cs)
    · rw [heq] at hkind
      cases hkind
    · rw [heq] at hkind
      cases hkind
    · rw [hkind] at hother
      exact hother.elim
  · obtain ⟨rest, heq, rfl⟩ := operator?_eq_rightParen hoperator
    exact ⟨(List.cons.inj heq).1, rfl⟩
  · cases hstring
  · exact hother.elim

end

end CreateTable
