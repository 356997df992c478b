import CreateTable.Proofs.Token.Number
import CreateTable.Proofs.Token.Scan
import CreateTable.Token.Lexer

/-!
# The number of characters of a token

The number of characters that is reported with a token counts characters of the text, so it never
exceeds that. Whatever opens with two characters takes them both.

## Main statements

* `length_of_escapedBody?`, `length_of_blockCommentLength?`, `length_lt_of_quotedBody?`: texts with
  an end of their own.
* `length_of_scanString`, `length_of_scanEscapedString`, `length_of_scanBlockComment`,
  `length_of_scanWord`: the least and the greatest number of characters.
* `length_le_of_scan`: a token lies within the text it is read from.
-/

namespace CreateTable

variable {k : Kind} {n : Nat} {cs body : List Char}

/-! ### Quoted texts and comments -/

/-- A quoted text leaves at least its closing quote behind it. -/
theorem length_lt_of_quotedBody? {quote : Char} {escapes : Bool}
    (h : quotedBody? quote escapes cs = some body) : body.length < cs.length := by
  obtain ⟨-, behind, rfl, -⟩ := isQuotedBody_of_quotedBody? h
  simp

/-- A line comment lies within its text. -/
theorem lineCommentLength_le (cs : List Char) : lineCommentLength cs ≤ cs.length := by
  induction cs with
  | nil => exact Nat.le_refl 0
  | cons c cs ih =>
      rw [lineCommentLength, List.length_cons]
      split <;> omega

/-- A block comment takes a character and lies within its text. -/
theorem length_of_blockCommentLength? (h : blockCommentLength? cs = some n) :
    0 < n ∧ n ≤ cs.length := by
  fun_induction blockCommentLength? cs generalizing n with
  | case1 => cases h
  | case2 =>
      obtain rfl := Option.some.inj h
      simp
  | case3 c cs _ ih =>
      obtain ⟨m, hm, rfl⟩ := Option.map_eq_some_iff.1 h
      exact ⟨Nat.succ_pos m, Nat.succ_le_succ (ih hm).2⟩

/-! ### Escaped strings -/

/-- An escape by code point takes as many characters as it is wide. -/
theorem width_le_of_codePoint? {width : Nat} {c : Char} (h : codePoint? width cs = some c) :
    width ≤ cs.length := by
  rw [codePoint?] at h
  dsimp only at h
  split at h
  · cases h
  · next hwidth =>
    rw [List.length_take] at hwidth
    omega

/-- An escape takes at least the character behind its backslash. -/
theorem length_of_rawEscape? {c : Char} (h : rawEscape? cs = some (c, n)) :
    0 < n ∧ n ≤ cs.length := by
  unfold rawEscape? at h
  split at h
  case h_1 => cases h
  case h_2 | h_3 | h_4 | h_5 | h_6 =>
    obtain ⟨-, rfl⟩ := Prod.mk.inj (Option.some.inj h)
    simp
  case h_7 | h_8 =>
    obtain ⟨_, hpoint, heq⟩ := Option.map_eq_some_iff.1 h
    obtain ⟨-, rfl⟩ := Prod.mk.inj heq
    simpa using width_le_of_codePoint? hpoint
  case h_9 cs =>
    have hdigits := length_takeWhile_take_le isHexDigit 2 cs
    split at h
    · obtain ⟨-, rfl⟩ := Prod.mk.inj (Option.some.inj h)
      simp
    · obtain ⟨_, -, heq⟩ := Option.map_eq_some_iff.1 h
      obtain ⟨-, rfl⟩ := Prod.mk.inj heq
      simpa using hdigits
  case h_10 cs _ _ _ _ _ _ _ _ =>
    have hdigits := length_takeWhile_take_le isOctalDigit 2 cs
    split at h
    · obtain ⟨_, -, heq⟩ := Option.map_eq_some_iff.1 h
      obtain ⟨-, rfl⟩ := Prod.mk.inj heq
      simpa using hdigits
    · obtain ⟨-, rfl⟩ := Prod.mk.inj (Option.some.inj h)
      simp

/-- An escaped string takes its closing quote at least, and lies within its text. -/
theorem length_of_escapedBody? (h : escapedBody? cs = some (body, n)) : 0 < n ∧ n ≤ cs.length := by
  fun_induction escapedBody? cs generalizing body n with
  | case1 => cases h
  | case2 cs ih =>
      obtain ⟨⟨b, m⟩, hb, heq⟩ := Option.map_eq_some_iff.1 h
      obtain ⟨-, rfl⟩ := Prod.mk.inj heq
      simpa using (ih hb).2
  | case3 =>
      obtain ⟨-, rfl⟩ := Prod.mk.inj (Option.some.inj h)
      simp
  | case4 cs ih =>
      obtain ⟨⟨c, m⟩, hescape, h⟩ := Option.bind_eq_some_iff.1 h
      obtain ⟨⟨b, l⟩, hb, heq⟩ := Option.bind_eq_some_iff.1 h
      obtain ⟨-, rfl⟩ := Prod.mk.inj (Option.some.inj heq)
      have hm := (length_of_rawEscape? (Option.filter_eq_some_iff.1 hescape).1).2
      have hl := (ih m hb).2
      rw [List.length_drop] at hl
      rw [List.length_cons]
      omega
  | case5 c cs _ _ _ ih =>
      obtain ⟨⟨b, m⟩, hb, heq⟩ := Option.map_eq_some_iff.1 h
      obtain ⟨-, rfl⟩ := Prod.mk.inj heq
      simpa using (ih hb).2

/-! ### Tokens -/

/-- A string takes its two quotes at least, and lies within its text. -/
theorem length_of_scanString {style : QuoteStyle} {quote : Char} {escapes : Bool} {lead : Nat}
    (h : scanString style quote escapes lead cs = .ok (k, n)) :
    lead + 2 ≤ n ∧ n ≤ cs.length + lead + 1 := by
  rw [scanString] at h
  split at h
  · next body hbody =>
    obtain ⟨-, rfl⟩ := Prod.mk.inj (Except.ok.inj h)
    have hlt := length_lt_of_quotedBody? hbody
    omega
  · cases h

/-- A word in backticks lies within its text. -/
theorem length_of_scanQuotedWord (h : scanQuotedWord cs = .ok (k, n)) : n ≤ cs.length + 1 := by
  rw [scanQuotedWord] at h
  split at h
  · next body hbody =>
    obtain ⟨-, rfl⟩ := Prod.mk.inj (Except.ok.inj h)
    exact Nat.succ_le_succ (length_lt_of_quotedBody? hbody)
  · cases h

/-- An escaped string takes its letter and a quote at least, and lies within its text. -/
theorem length_of_scanEscapedString (h : scanEscapedString cs = .ok (k, n)) :
    2 ≤ n ∧ n ≤ cs.length + 2 := by
  rw [scanEscapedString] at h
  split at h
  · next body m hbody =>
    obtain ⟨-, rfl⟩ := Prod.mk.inj (Except.ok.inj h)
    have hle := (length_of_escapedBody? hbody).2
    omega
  · cases h

/-- A block comment takes its two first characters at least, and lies within its text. -/
theorem length_of_scanBlockComment (h : scanBlockComment cs = .ok (k, n)) :
    2 ≤ n ∧ n ≤ cs.length + 2 := by
  rw [scanBlockComment] at h
  split at h
  · next m hm =>
    obtain ⟨-, rfl⟩ := Prod.mk.inj (Except.ok.inj h)
    have hle := (length_of_blockCommentLength? hm).2
    omega
  · cases h

/-- A word takes the characters that are certain, and lies within its text. -/
theorem length_of_scanWord {lead : List Char} (h : scanWord lead cs = .ok (k, n)) :
    lead.length ≤ n ∧ n ≤ lead.length + cs.length := by
  obtain ⟨-, rfl⟩ := Prod.mk.inj (Except.ok.inj h)
  have hle : (wordParts cs).length ≤ cs.length := length_takeWhile_le isWordPart cs
  omega

/-- What begins with the sign `@` lies within its text. -/
theorem length_le_of_scanAt (h : scanAt cs = .ok (k, n)) : n ≤ cs.length + 1 := by
  have hsymbol {shown : String} {m : Nat}
      (hscan : (.ok (.symbol shown, m) : Scanned) = .ok (k, n)) : m = n :=
    (Prod.mk.inj (Except.ok.inj hscan)).2
  unfold scanAt at h
  split at h
  · simp [← hsymbol h]
  · simp [← hsymbol h]
  · simp [← hsymbol h]
  · split at h
    · simp [← hsymbol h]
    · have hle := (length_of_scanWord h).2
      simp only [List.length_cons, List.length_nil] at hle ⊢
      omega
  · simp [← hsymbol h]
  · split at h
    · simp [← hsymbol h]
    · have hle := (length_of_scanWord h).2
      simp only [List.length_cons, List.length_nil] at hle ⊢
      omega

/-- An operator lies within its text. -/
theorem length_le_of_operator? (h : operator? cs = some (k, n)) : n ≤ cs.length := by
  obtain ⟨o, hfind, heq⟩ := Option.map_eq_some_iff.1 h
  obtain ⟨-, rfl⟩ := Prod.mk.inj heq
  have hprefix := List.find?_some hfind
  rw [List.isPrefixOf_iff_prefix] at hprefix
  rw [← String.length_toList]
  exact hprefix.length_le

/-- A word, an operator and a character alone lie within their text. -/
theorem length_le_of_scanPlain {c : Char} (h : scanPlain c cs = .ok (k, n)) :
    n ≤ cs.length + 1 := by
  rw [scanPlain] at h
  split at h
  · have hle := (length_of_scanWord h).2
    rwa [List.length_singleton, Nat.add_comm] at hle
  · have heq := Except.ok.inj h
    cases hoperator : operator? (c :: cs) with
    | none =>
        rw [hoperator] at heq
        obtain ⟨-, rfl⟩ := Prod.mk.inj heq
        exact Nat.le_add_left ..
    | some x =>
        rw [hoperator] at heq
        obtain rfl : x = (k, n) := heq
        exact length_le_of_operator? hoperator

/-- A token lies within the text it is read from. -/
theorem length_le_of_scan {c : Char} (h : scan c cs = .ok (k, n)) : n ≤ cs.length + 1 := by
  unfold scan at h
  split at h
  case h_1 | h_2 | h_3 | h_4 | h_5 | h_6 | h_7 =>
    obtain ⟨-, rfl⟩ := Prod.mk.inj (Except.ok.inj h)
    simp
  case h_8 | h_9 | h_10 | h_11 | h_12 | h_13 | h_16 | h_17 | h_18 | h_19 =>
    exact (length_of_scanString h).2
  case h_14 | h_15 => exact (length_of_scanEscapedString h).2
  case h_20 => exact length_of_scanQuotedWord h
  case h_21 | h_22 =>
    obtain ⟨-, rfl⟩ := Prod.mk.inj (Except.ok.inj h)
    simpa using lineCommentLength_le _
  case h_23 => exact (length_of_scanBlockComment h).2
  case h_24 => exact length_le_of_scanAt h
  case h_25 =>
    obtain ⟨-, rfl⟩ := Prod.mk.inj (Except.ok.inj h)
    simpa using length_takeWhile_le Text.isNumeric cs
  case h_26 =>
    split at h
    · have hle : (number (c :: cs)).2 ≤ cs.length + 1 := length_number_le
      rwa [Except.ok.inj h] at hle
    · exact length_le_of_scanPlain h

end CreateTable
