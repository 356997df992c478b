import CreateTable.Proofs.Token.Extent
import CreateTable.Proofs.Token.Stop

/-!
# Tokens and the text behind them

A token that lies within the first part of a text is a token of every text that begins with this
part, if what stands behind it there goes on with no token. The exceptions are the tokens that look
at what stands behind them: a line comment takes a line feed along as its end, a carriage return
makes one line break with it, and the placeholder `@` is one at the end of a text and in front of a
blank or a quote only. They are the same where the next character is the same, and where the text is
cut off behind them.

In all statements the text is `p ++ r`, what is read of it lies within `p`, and `s` takes the place
of `r`.

## Main definitions

* `Kind.isSymbol`: the operators and placeholders that carry their spelling.
* `HasNotLooked`: the tokens that have not looked at the text behind them.

## Main statements

* `quotedBody?_replace`, `escapedBody?_replace`, `lineCommentLength_replace`,
  `blockCommentLength?_replace`: texts with an end of their own.
* `scan_replace`: a token and the text behind it.
* `scan_of_append`: a text that is cut off behind the token.
* `scan_stable`: a text with a closing parenthesis behind the token.
-/

namespace CreateTable

variable {p r s : List Char} {k : Kind} {n : Nat}

/-! ### Quoted texts and comments -/

/-- A quoted text that is closed within `p` does not depend on the text behind `p`. -/
theorem quotedBody?_replace {quote : Char} {escapes : Bool} {body : List Char}
    (hquote : quote ≠ '\\') (hs : s.head? ≠ some quote)
    (h : quotedBody? quote escapes (p ++ r) = some body) (hlt : body.length < p.length) :
    quotedBody? quote escapes (p ++ s) = some body := by
  obtain ⟨hbody, behind, heq, hbehind⟩ := isQuotedBody_of_quotedBody? h
  obtain ⟨q, rfl, rfl⟩ := exists_quote_of_append heq hlt
  rw [List.append_assoc, List.cons_append]
  refine quotedBody?_of_isQuotedBody hbody hquote ?_
  cases q with
  | nil => exact hs
  | cons c q => exact hbehind

/-- A line comment that ends within `p` ends with a line feed there, unless nothing stands behind
`p`. -/
theorem lineCommentLength_replace (hread : s = [] ∨ r ≠ [])
    (h : lineCommentLength (p ++ r) ≤ p.length) :
    lineCommentLength (p ++ s) = lineCommentLength (p ++ r) := by
  induction p with
  | nil =>
      have hr : r = [] := by
        cases r with
        | nil => rfl
        | cons c r =>
            simp only [List.nil_append, lineCommentLength, List.length_nil] at h
            split at h <;> omega
      obtain rfl := hread.resolve_right (not_not_intro hr)
      rw [hr]
  | cons c p ih =>
      simp only [List.cons_append, lineCommentLength] at h ⊢
      split
      · rfl
      · next hc =>
        rw [if_neg hc, List.length_cons, Nat.add_le_add_iff_right] at h
        rw [ih h]

/-- A block comment ends with the next two characters, or it goes on behind the next one. -/
theorem blockCommentLength?_cons (c : Char) (cs : List Char) :
    blockCommentLength? (c :: cs)
      = if c = '*' ∧ cs.head? = some '/' then some 2 else (blockCommentLength? cs).map (· + 1) := by
  split
  · next h =>
    obtain ⟨rfl, h⟩ := h
    obtain ⟨cs, rfl⟩ := List.head?_eq_some_iff.1 h
    rfl
  · next h =>
    rw [blockCommentLength?]
    rintro rest rfl rfl
    exact h ⟨rfl, rfl⟩

/-- The first character of a text that is not empty has no part in what stands behind it. -/
theorem head?_append_congr (hp : p ≠ []) (r s : List Char) : (p ++ r).head? = (p ++ s).head? := by
  obtain ⟨c, p, rfl⟩ := List.exists_cons_of_ne_nil hp
  rfl

/-- A block comment that ends within `p` does not depend on the text behind `p`. -/
theorem blockCommentLength?_replace (h : blockCommentLength? (p ++ r) = some n)
    (hn : n ≤ p.length) : blockCommentLength? (p ++ s) = some n := by
  induction p generalizing n with
  | nil => exact absurd hn (Nat.not_le.2 (length_of_blockCommentLength? h).1)
  | cons c p ih =>
      rw [List.cons_append, blockCommentLength?_cons] at h ⊢
      have hp : p ≠ [] := by
        rintro rfl
        rw [List.nil_append] at h
        split at h
        · obtain rfl := Option.some.inj h
          simp at hn
        · obtain ⟨m, hm, rfl⟩ := Option.map_eq_some_iff.1 h
          have hpos := (length_of_blockCommentLength? hm).1
          rw [List.length_singleton] at hn
          omega
      rw [head?_append_congr hp r s] at h
      split at h
      · next hend => rw [if_pos hend, h]
      · next hend =>
        obtain ⟨m, hm, rfl⟩ := Option.map_eq_some_iff.1 h
        rw [if_neg hend, ih hm (by simpa using hn), Option.map_some]

/-! ### Escaped strings -/

/-- An escape by code point that lies within `p` does not depend on the text behind `p`. -/
theorem codePoint?_replace {width : Nat} (h : width ≤ p.length) :
    codePoint? width (p ++ s) = codePoint? width (p ++ r) := by
  simp only [codePoint?, List.take_append_of_le_length h]

/-- An escape is read from its first character and the digits behind that. -/
theorem rawEscape?_congr {d : Char} {cs cs' : List Char}
    (hhex : d = 'x' →
      (cs.take 2).takeWhile isHexDigit = (cs'.take 2).takeWhile isHexDigit)
    (hoctal : isOctalDigit d = true →
      (cs.take 2).takeWhile isOctalDigit = (cs'.take 2).takeWhile isOctalDigit)
    (hshort : d = 'u' → codePoint? 4 cs = codePoint? 4 cs')
    (hlong : d = 'U' → codePoint? 8 cs = codePoint? 8 cs') :
    rawEscape? (d :: cs) = rawEscape? (d :: cs') := by
  by_cases hu : d = 'u'
  · subst hu
    simp only [rawEscape?, hshort rfl]
  by_cases hU : d = 'U'
  · subst hU
    simp only [rawEscape?, hlong rfl]
  unfold rawEscape?
  split <;> simp_all

/-- The digits behind the letter of an escape, as many as it takes. -/
theorem length_digits_le {c d : Char} {cs : List Char} (h : rawEscape? (d :: cs) = some (c, n)) :
    (d = 'x' → ((cs.take 2).takeWhile isHexDigit).length + 1 ≤ n) ∧
      (isOctalDigit d = true → ((cs.take 2).takeWhile isOctalDigit).length + 1 ≤ n) := by
  constructor
  · rintro rfl
    rw [rawEscape?] at h
    split at h
    · next hnil =>
      obtain ⟨-, rfl⟩ := Prod.mk.inj (Option.some.inj h)
      simp [hnil]
    · obtain ⟨_, -, heq⟩ := Option.map_eq_some_iff.1 h
      obtain ⟨-, rfl⟩ := Prod.mk.inj heq
      exact Nat.le_refl _
  · intro hd
    have hne : ∀ e ∈ ['b', 'f', 'n', 'r', 't', 'u', 'U', 'x'], d ≠ e := by
      have hletters : ∀ e ∈ ['b', 'f', 'n', 'r', 't', 'u', 'U', 'x'], isOctalDigit e = false := by
        simp only [List.forall_mem_cons]
        exact ⟨rfl, rfl, rfl, rfl, rfl, rfl, rfl, rfl, List.forall_mem_nil _⟩
      rintro e he rfl
      rw [hletters d he] at hd
      cases hd
    simp only [List.forall_mem_cons] at hne
    obtain ⟨hb, hf, hn, hr, ht, hu, hU, hx, -⟩ := hne
    rw [rawEscape?, if_pos hd] at h
    · obtain ⟨_, -, heq⟩ := Option.map_eq_some_iff.1 h
      obtain ⟨-, rfl⟩ := Prod.mk.inj heq
      simp
    all_goals assumption

/-- An escape that lies within `p` does not depend on the text behind `p`, where no number goes
on. -/
theorem rawEscape?_replace {c : Char} (hs : ∀ d ∈ s.head?, EndsNumber d)
    (h : rawEscape? (p ++ r) = some (c, n)) (hn : n ≤ p.length) :
    rawEscape? (p ++ s) = some (c, n) := by
  cases p with
  | nil => exact absurd hn (Nat.not_le.2 (length_of_rawEscape? h).1)
  | cons d p =>
      rw [List.cons_append] at h ⊢
      obtain ⟨hhex, hoctal⟩ := length_digits_le h
      rw [List.length_cons] at hn
      rw [← h]
      refine rawEscape?_congr ?_ ?_ ?_ ?_
      · exact fun hd => takeWhile_take_replace (fun e he => (hs e he).not_isHexDigit)
          (by have := hhex hd; omega)
      · exact fun hd => takeWhile_take_replace (fun e he => (hs e he).not_isOctalDigit)
          (by have := hoctal hd; omega)
      · rintro rfl
        obtain ⟨_, -, heq⟩ := Option.map_eq_some_iff.1 h
        obtain ⟨-, rfl⟩ := Prod.mk.inj heq
        exact codePoint?_replace (by omega)
      · rintro rfl
        obtain ⟨_, -, heq⟩ := Option.map_eq_some_iff.1 h
        obtain ⟨-, rfl⟩ := Prod.mk.inj heq
        exact codePoint?_replace (by omega)

/-- An escape that stands for a character within `p` does not depend on the text behind `p`. -/
theorem escape?_replace {c : Char} (hs : ∀ d ∈ s.head?, EndsNumber d)
    (h : escape? (p ++ r) = some (c, n)) (hn : n ≤ p.length) :
    escape? (p ++ s) = some (c, n) := by
  rw [escape?, Option.filter_eq_some_iff] at h ⊢
  exact ⟨rawEscape?_replace hs h.1 hn, h.2⟩

/-- At a quote an escaped string ends, unless the quote is doubled. -/
theorem escapedBody?_quote (cs : List Char) :
    escapedBody? ('\'' :: cs)
      = if cs.head? = some '\'' then
          (escapedBody? cs.tail).map fun (body, n) => ('\'' :: body, n + 2)
        else some ([], 1) := by
  split
  · next h =>
    obtain ⟨cs, rfl⟩ := List.head?_eq_some_iff.1 h
    rw [escapedBody?]
    rfl
  · next h =>
    rw [escapedBody?]
    rintro rest rfl
    exact h rfl

/-- At a backslash an escaped string goes on behind the escape. -/
theorem escapedBody?_backslash (cs : List Char) :
    escapedBody? ('\\' :: cs)
      = (escape? cs).bind fun (c, m) =>
          (escapedBody? (cs.drop m)).bind fun (body, n) => some (c :: body, n + m + 1) := by
  rw [escapedBody?]
  rfl

/-- Any other character of an escaped string stands for itself. -/
theorem escapedBody?_plain {c : Char} (hquote : c ≠ '\'') (hbackslash : c ≠ '\\')
    (cs : List Char) :
    escapedBody? (c :: cs) = (escapedBody? cs).map fun (body, n) => (c :: body, n + 1) := by
  rw [escapedBody?]
  · exact fun _ h _ => hquote h
  · exact fun h => hquote h
  · exact fun h => hbackslash h

/-- An escaped string that is closed within `p` does not depend on the text behind `p`. -/
theorem escapedBody?_replace {body : List Char} (hs : StandsApart s)
    (h : escapedBody? (p ++ r) = some (body, n)) (hn : n ≤ p.length) :
    escapedBody? (p ++ s) = some (body, n) := by
  induction hlen : p.length using Nat.strongRecOn generalizing p body n with
  | _ len ih =>
  match p with
  | [] => exact absurd hn (Nat.not_le.2 (length_of_escapedBody? h).1)
  | c :: p =>
      rw [List.cons_append] at h ⊢
      rw [List.length_cons] at hn hlen
      by_cases hquote : c = '\''
      · subst hquote
        rw [escapedBody?_quote] at h ⊢
        split at h
        · next hdouble =>
          obtain ⟨⟨b, m⟩, hb, heq⟩ := Option.map_eq_some_iff.1 h
          obtain ⟨rfl, rfl⟩ := Prod.mk.inj heq
          obtain ⟨d, p, rfl⟩ := List.exists_cons_of_length_pos (l := p) (by omega)
          have hd : (d :: (p ++ s)).head? = some '\'' := hdouble
          rw [List.cons_append, List.tail_cons] at hb
          rw [List.length_cons] at hn hlen
          rw [List.cons_append, if_pos hd, List.tail_cons,
            ih p.length (by omega) hb (by omega) rfl]
          rfl
        · next hdouble =>
          have hnext : (p ++ s).head? ≠ some '\'' := by
            cases p with
            | nil => exact hs.head?_ne (by simp)
            | cons d p => exact hdouble
          rw [if_neg hnext, h]
      by_cases hbackslash : c = '\\'
      · subst hbackslash
        rw [escapedBody?_backslash] at h ⊢
        obtain ⟨⟨d, m⟩, hescape, h⟩ := Option.bind_eq_some_iff.1 h
        obtain ⟨⟨b, k⟩, hb, heq⟩ := Option.bind_eq_some_iff.1 h
        obtain ⟨rfl, rfl⟩ := Prod.mk.inj (Option.some.inj heq)
        have hm : m ≤ p.length := by omega
        rw [List.drop_append_of_le_length hm] at hb
        have hbody := ih (p.drop m).length (by rw [List.length_drop]; omega) hb
          (by rw [List.length_drop]; omega) rfl
        simp only [escape?_replace hs.endsNumber hescape hm, Option.bind_some,
          List.drop_append_of_le_length hm, hbody]
      · rw [escapedBody?_plain hquote hbackslash] at h ⊢
        obtain ⟨⟨b, m⟩, hb, heq⟩ := Option.map_eq_some_iff.1 h
        obtain ⟨rfl, rfl⟩ := Prod.mk.inj heq
        rw [ih p.length (by omega) hb (by omega) rfl]
        rfl

/-! ### Tokens -/

/-- The operators and placeholders that carry their spelling, and the characters that start no
token. -/
def Kind.isSymbol : Kind → Bool
  | symbol _ => true
  | _ => false

/-- A string that is closed within `p` is the same with another text behind `p`. -/
theorem scanString_replace {style : QuoteStyle} {quote : Char} {escapes : Bool} {lead : Nat}
    (hquote : quote ∈ ['\'', '"']) (hs : StandsApart s)
    (h : scanString style quote escapes lead (p ++ r) = .ok (k, n))
    (hn : n ≤ p.length + lead + 1) :
    scanString style quote escapes lead (p ++ s) = .ok (k, n) := by
  obtain ⟨hbackslash, hnext⟩ : quote ≠ '\\' ∧ s.head? ≠ some quote := by
    simp only [List.mem_cons, List.not_mem_nil, or_false] at hquote
    rcases hquote with rfl | rfl
    · exact ⟨by decide, hs.head?_ne (by simp)⟩
    · exact ⟨by decide, hs.head?_ne (by simp)⟩
  rw [scanString] at h ⊢
  split at h
  · next body hbody =>
    obtain ⟨rfl, rfl⟩ := Prod.mk.inj (Except.ok.inj h)
    rw [quotedBody?_replace hbackslash hnext hbody (by omega)]
  · cases h

/-- A word in backticks that is closed within `p` is the same with another text behind `p`. -/
theorem scanQuotedWord_replace (hs : StandsApart s) (h : scanQuotedWord (p ++ r) = .ok (k, n))
    (hn : n ≤ p.length + 1) : scanQuotedWord (p ++ s) = .ok (k, n) := by
  rw [scanQuotedWord] at h ⊢
  split at h
  · next body hbody =>
    obtain ⟨rfl, rfl⟩ := Prod.mk.inj (Except.ok.inj h)
    rw [quotedBody?_replace (by decide) (hs.head?_ne (by simp)) hbody (by omega)]
  · cases h

/-- An escaped string that is closed within `p` is the same with another text behind `p`. -/
theorem scanEscapedString_replace (hs : StandsApart s)
    (h : scanEscapedString (p ++ r) = .ok (k, n)) (hn : n ≤ p.length + 2) :
    scanEscapedString (p ++ s) = .ok (k, n) := by
  rw [scanEscapedString] at h ⊢
  split at h
  · next body m hbody =>
    obtain ⟨rfl, rfl⟩ := Prod.mk.inj (Except.ok.inj h)
    rw [escapedBody?_replace hs hbody (by omega)]
  · cases h

/-- A block comment that ends within `p` is the same with another text behind `p`. -/
theorem scanBlockComment_replace (h : scanBlockComment (p ++ r) = .ok (k, n))
    (hn : n ≤ p.length + 2) : scanBlockComment (p ++ s) = .ok (k, n) := by
  rw [scanBlockComment] at h ⊢
  split at h
  · next m hm =>
    obtain ⟨rfl, rfl⟩ := Prod.mk.inj (Except.ok.inj h)
    rw [blockCommentLength?_replace hm (by omega)]
  · cases h

/-- The sign `@` in front of a character of no other sign is decided by that character. -/
theorem scanAt_plain {c : Char} (hgreater : c ≠ '>') (hquestion : c ≠ '?') (hat : c ≠ '@')
    (cs : List Char) :
    scanAt (c :: cs) = if c = ' ' || c = '\'' || c = '"' || c = '\x60' then .ok (.symbol "@", 1)
      else scanWord ['@', c] cs := by
  rw [scanAt]
  · exact fun h => hgreater h
  · exact fun h => hquestion h
  · exact fun h _ => hat h
  · exact fun _ _ h _ => hat h

/-- The sign `@` stands alone exactly in front of a blank or a quote, or at the end of a text. -/
theorem scanAt_eq_of_le {cs : List Char} (h : scanAt cs = .ok (k, n)) (hn : n ≤ 1) :
    (k, n) = (.symbol "@", 1) ∧ ∀ c ∈ cs.head?, c ∈ [' ', '\'', '"', '\x60'] := by
  have hword {lead tail : List Char} (hscan : scanWord lead tail = .ok (k, n))
      (hlead : 2 ≤ lead.length) : False := by
    have hle := (length_of_scanWord hscan).1
    omega
  have hdouble {shown : String} (hscan : (.ok (.symbol shown, 2) : Scanned) = .ok (k, n)) :
      False := by
    obtain ⟨-, rfl⟩ := Prod.mk.inj (Except.ok.inj hscan)
    omega
  unfold scanAt at h
  split at h
  · exact (hdouble h).elim
  · exact (hdouble h).elim
  · exact (hdouble h).elim
  · split at h
    · exact (hdouble h).elim
    · exact (hword h (by simp)).elim
  · exact ⟨(Except.ok.inj h).symm, nofun⟩
  · split at h
    · next hc => exact ⟨(Except.ok.inj h).symm, by simpa [or_assoc] using hc⟩
    · exact (hword h (by simp)).elim

/-- In front of a blank or a quote, or at the end of a text, the sign `@` stands alone. -/
theorem scanAt_eq_sign {cs : List Char} (hcs : ∀ c ∈ cs.head?, c ∈ [' ', '\'', '"', '\x60']) :
    scanAt cs = .ok (.symbol "@", 1) := by
  cases cs with
  | nil => rfl
  | cons c cs =>
      have hc := hcs c rfl
      simp only [List.mem_cons, List.not_mem_nil, or_false] at hc
      rcases hc with rfl | rfl | rfl | rfl <;> rfl

/-- Two signs stand alone exactly in front of a blank or at the end of a text. -/
theorem scanAt_at_eq_of_le {cs : List Char} (h : scanAt ('@' :: cs) = .ok (k, n)) (hn : n ≤ 2) :
    (k, n) = (.symbol "@@", 2) ∧ ∀ c ∈ cs.head?, c ∈ [' '] := by
  cases cs with
  | nil => exact ⟨(Except.ok.inj h).symm, nofun⟩
  | cons c cs =>
      rw [scanAt] at h
      split at h
      · next hc => exact ⟨(Except.ok.inj h).symm, by simpa using hc⟩
      · have hle := (length_of_scanWord h).1
        simp only [List.length_cons, List.length_nil] at hle
        omega

/-- In front of a blank or at the end of a text two signs stand alone. -/
theorem scanAt_at_eq_sign {cs : List Char} (hcs : ∀ c ∈ cs.head?, c ∈ [' ']) :
    scanAt ('@' :: cs) = .ok (.symbol "@@", 2) := by
  cases cs with
  | nil => rfl
  | cons c cs =>
      obtain rfl := List.mem_singleton.1 (hcs c rfl)
      rfl

/-- What begins with the sign `@` and lies within `p` does not depend on the text behind `p`, unless
it is a placeholder that looks at it. -/
theorem scanAt_replace (hs : StandsApart s)
    (hread : s = [] ∨ r.head? = s.head? ∨ k.isSymbol = false)
    (h : scanAt (p ++ r) = .ok (k, n)) (hn : n ≤ p.length + 1) :
    scanAt (p ++ s) = .ok (k, n) := by
  -- a sign that stands alone is the only token that has looked at `r`
  have hnext {shown : String} {m : Nat} {chars : List Char}
      (heq : (k, n) = (.symbol shown, m)) (hr : ∀ c ∈ r.head?, c ∈ chars) :
      ∀ c ∈ s.head?, c ∈ chars := by
    rcases hread with rfl | hhead | hk
    · nofun
    · rwa [← hhead]
    · obtain ⟨rfl, -⟩ := Prod.mk.inj heq
      cases hk
  cases p with
  | nil =>
      obtain ⟨heq, hr⟩ := scanAt_eq_of_le h hn
      rw [heq]
      exact scanAt_eq_sign (hnext heq hr)
  | cons c p =>
      by_cases hgreater : c = '>'
      · subst hgreater
        exact h
      by_cases hquestion : c = '?'
      · subst hquestion
        exact h
      by_cases hat : c = '@'
      · subst hat
        cases p with
        | nil =>
            obtain ⟨heq, hr⟩ := scanAt_at_eq_of_le h hn
            rw [heq]
            exact scanAt_at_eq_sign (hnext heq hr)
        | cons d p =>
            simp only [List.cons_append, scanAt] at h ⊢
            split at h
            · next hd => rw [if_pos hd, h]
            · next hd =>
              rw [if_neg hd]
              refine hs.scanWord_replace h ?_
              simp only [List.length_cons, List.length_nil] at hn ⊢
              omega
      · rw [List.cons_append, scanAt_plain hgreater hquestion hat] at h ⊢
        split at h
        · next hc => rw [if_pos hc, h]
        · next hc =>
          rw [if_neg hc]
          refine hs.scanWord_replace h ?_
          simp only [List.length_cons, List.length_nil] at hn ⊢
          omega

/-- The second character of a token of two characters or more is one of `p`. -/
theorem exists_cons_of_append {d : Char} {behind : List Char} (heq : p ++ r = d :: behind)
    (hlt : 1 < p.length + 1) : ∃ q, p = d :: q ∧ behind = q ++ r := by
  obtain ⟨c, q, rfl⟩ := List.exists_cons_of_length_pos (Nat.lt_of_succ_lt_succ hlt)
  obtain ⟨rfl, rfl⟩ := List.cons.inj heq
  exact ⟨q, rfl, rfl⟩

/-- A token that begins with `c` and ends within `p` has **not looked** behind `p`: it is neither a
line comment nor a carriage return nor a symbol. -/
structure HasNotLooked (c : Char) (p : List Char) (k : Kind) : Prop where
  notMem : c ∉ ['\r', '#']
  not_dashes : c = '-' → p.head? ≠ some '-'
  not_isSymbol : k.isSymbol = false

/-- A token that ends within `p` does not depend on the text behind `p`. -/
theorem scan_replace {c : Char} (hs : StandsApart s)
    (hread : s = [] ∨ r.head? = s.head? ∨ HasNotLooked c p k)
    (h : scan c (p ++ r) = .ok (k, n)) (hn : n ≤ p.length + 1) :
    scan c (p ++ s) = .ok (k, n) := by
  have hcomment (hlooked : ¬ HasNotLooked c p k) : s = [] ∨ r ≠ [] := by
    rcases hread with hnil | hhead | hlook
    · exact .inl hnil
    · by_cases hr : r = []
      · rw [hr] at hhead
        exact .inl (List.head?_eq_none_iff.1 hhead.symm)
      · exact .inr hr
    · exact absurd hlook hlooked
  unfold scan at h
  split at h
  case h_1 | h_2 | h_3 | h_4 | h_5 => exact h
  case h_6 heq =>
    obtain ⟨rfl, rfl⟩ := Prod.mk.inj (Except.ok.inj h)
    obtain ⟨q, rfl, -⟩ := exists_cons_of_append heq (by omega)
    rfl
  case h_7 hne =>
    rw [← h, scan]
    intro q heq
    cases p with
    | nil =>
        rw [List.nil_append] at heq hne
        rcases hread with rfl | hhead | hlook
        · cases heq
        · rw [heq] at hhead
          obtain ⟨t, rfl⟩ := List.head?_eq_some_iff.1 hhead
          exact hne _ rfl
        · exact hlook.notMem (by simp)
    | cons d p =>
        obtain ⟨rfl, -⟩ := List.cons.inj heq
        exact hne _ rfl
  case h_8 heq | h_9 heq | h_10 heq | h_11 heq | h_12 heq | h_13 heq | h_16 heq | h_17 heq =>
    have hle := (length_of_scanString h).1
    obtain ⟨q, rfl, rfl⟩ := exists_cons_of_append heq (by omega)
    exact scanString_replace (by simp) hs h hn
  case h_14 heq | h_15 heq =>
    have hle := (length_of_scanEscapedString h).1
    obtain ⟨q, rfl, rfl⟩ := exists_cons_of_append heq (by omega)
    exact scanEscapedString_replace hs h hn
  case h_18 | h_19 => exact scanString_replace (by simp) hs h hn
  case h_20 => exact scanQuotedWord_replace hs h hn
  case h_21 heq =>
    obtain ⟨rfl, rfl⟩ := Prod.mk.inj (Except.ok.inj h)
    obtain ⟨q, rfl, rfl⟩ := exists_cons_of_append heq (by omega)
    have hlooked := hcomment fun hlook => hlook.not_dashes rfl rfl
    rw [← lineCommentLength_replace hlooked (by simpa using hn)]
    rfl
  case h_22 =>
    obtain ⟨rfl, rfl⟩ := Prod.mk.inj (Except.ok.inj h)
    have hlooked := hcomment fun hlook => hlook.notMem (by simp)
    rw [← lineCommentLength_replace hlooked (by simpa using hn)]
    rfl
  case h_23 heq =>
    have hle := (length_of_scanBlockComment h).1
    obtain ⟨q, rfl, rfl⟩ := exists_cons_of_append heq (by omega)
    exact scanBlockComment_replace h hn
  case h_24 =>
    exact scanAt_replace hs (hread.imp_right (Or.imp_right HasNotLooked.not_isSymbol)) h hn
  case h_25 => exact hs.scanPlaceholder_replace h hn
  case h_26 =>
    have hnumber (c : Char) (hle : (number (c :: (p ++ r))).2 ≤ p.length + 1) :
        number (c :: (p ++ s)) = number (c :: (p ++ r)) :=
      number_replace (p := c :: p) hs.endsNumber hle
    rw [scan]
    · split at h
      · next hc => rw [if_pos hc, hnumber _ (by rw [Except.ok.inj h]; exact hn), h]
      · next hc =>
        rw [if_neg hc]
        exact hs.scanPlain_replace h hn
    -- the character opens no string and no comment, here as there
    all_goals first
      | assumption
      | intro q hc heq
        first
        | exact absurd hc ‹_›
        | obtain ⟨q, rfl, -⟩ := hs.exists_cons (by simp) heq
          simp_all

/-- A token that lies within a part of a text is a token of that part alone. -/
theorem scan_of_append {c : Char} (h : scan c (p ++ r) = .ok (k, n)) (hn : n ≤ p.length + 1) :
    scan c p = .ok (k, n) := by
  have hcut := scan_replace standsApart_nil (.inl rfl) h hn
  rwa [List.append_nil] at hcut

/-- A token that ends before a closing parenthesis is the same whatever stands behind that. -/
theorem scan_stable {c : Char} {tail : List Char} (h : scan c (p ++ ')' :: tail) = .ok (k, n))
    (hn : n ≤ p.length + 1) (tail' : List Char) : scan c (p ++ ')' :: tail') = .ok (k, n) :=
  scan_replace (r := ')' :: tail) (standsApart_rightParen tail') (.inr (.inl rfl)) h hn

end CreateTable
