import CreateTable.Proofs.Token.Word
import CreateTable.Token.Lexer
import Mathlib.Data.List.TakeWhile

/-!
# Numbers and what stands behind them

A number ends before a character that cannot go on with it. It is read as if any other such text
stood behind it, or none.

## Main definitions

* `EndsNumber`: the characters that go on with no number.

## Main statements

* `length_number_le`: a number lies within its text.
* `number_replace`, `number_append`: a number and the text behind it.
-/

namespace CreateTable

/-- A character that **ends a number**: it is no part of a word, no point and no sign. -/
structure EndsNumber (d : Char) : Prop where
  not_isWordPart : isWordPart d = false
  ne_sign : d ∉ ['.', '+', '-']

/-- The letters from `a` to `f` are letters. -/
theorem isAlpha_of_between {c : Char} (h : 'a' ≤ c ∧ c ≤ 'f' ∨ 'A' ≤ c ∧ c ≤ 'F') :
    c.isAlpha = true := by
  rcases h with ⟨hfirst, hlast⟩ | ⟨hfirst, hlast⟩
  · have hz : c ≤ 'z' := Char.le_trans hlast (by decide)
    have hlower : c.isLower = true :=
      Bool.and_eq_true_iff.2 ⟨decide_eq_true hfirst, decide_eq_true hz⟩
    exact Bool.or_eq_true_iff.2 (.inr hlower)
  · have hz : c ≤ 'Z' := Char.le_trans hlast (by decide)
    exact Bool.or_eq_true_iff.2 (.inl (decide_eq_true ⟨hfirst, hz⟩))

/-- A hexadecimal digit is a letter or a digit. -/
theorem isAlpha_or_isDigit_of_isHexDigit {c : Char} (h : isHexDigit c = true) :
    c.isAlpha = true ∨ c.isDigit = true := by
  rw [isHexDigit, hexDigit?] at h
  split at h
  · next hc => exact .inr hc
  split at h
  · next hc => exact .inl (isAlpha_of_between (.inl (by simpa using hc)))
  split at h
  · next hc => exact .inl (isAlpha_of_between (.inr (by simpa using hc)))
  · simp at h

namespace EndsNumber

variable {d : Char} (h : EndsNumber d)
include h

/-- A character that ends a number is no digit. -/
theorem not_isDigit : d.isDigit = false := by
  have := h.not_isWordPart
  simp only [isWordPart, Bool.or_eq_false_iff] at this
  exact this.2

/-- A character that ends a number is no letter. -/
theorem not_isAlpha : d.isAlpha = false := by
  have := h.not_isWordPart
  simp only [isWordPart, isWordStart, Bool.or_eq_false_iff] at this
  exact this.1.1.1.1.1.1

/-- A character that ends a number is no hexadecimal digit. -/
theorem not_isHexDigit : isHexDigit d = false := by
  rw [← Bool.not_eq_true]
  intro hd
  rcases isAlpha_or_isDigit_of_isHexDigit hd with hd | hd
  · simp [h.not_isAlpha] at hd
  · simp [h.not_isDigit] at hd

/-- No letter is a character that ends a number. -/
theorem ne_of_isAlpha {c : Char} (hc : c.isAlpha = true) : c ≠ d := by
  rintro rfl
  simp [h.not_isAlpha] at hc

/-- A character that ends a number is no octal digit. -/
theorem not_isOctalDigit : isOctalDigit d = false := by
  rw [← Bool.not_eq_true]
  intro hd
  have hdigit : d.isDigit = true := by
    obtain ⟨hzero, hseven⟩ := Bool.and_eq_true_iff.1 hd
    have hnine : d ≤ '9' := Char.le_trans (of_decide_eq_true hseven) (by decide)
    exact Bool.and_eq_true_iff.2 ⟨hzero, decide_eq_true hnine⟩
  simp [h.not_isDigit] at hdigit

end EndsNumber

/-! ### The length of a number -/

/-- A fraction lies within its text. -/
theorem length_fraction_le (cs : List Char) : (fraction cs).length ≤ cs.length := by
  unfold fraction
  split
  · simpa using length_takeWhile_le _ _
  · simp

/-- An exponent lies within its text. -/
theorem length_exponent_le (cs : List Char) : (exponent cs).length ≤ cs.length := by
  cases cs with
  | nil => simp [exponent]
  | cons c cs =>
      simp only [exponent]
      generalize hsign : (cs.take 1).takeWhile (fun c => c = '+' || c = '-') = sign
      have hlength : sign.length ≤ cs.length := by
        rw [← hsign]
        exact Nat.le_trans (length_takeWhile_le _ _) (cs.take_prefix 1).length_le
      have hdigits := length_takeWhile_le Char.isDigit (cs.drop sign.length)
      rw [List.length_drop] at hdigits
      split
      · simp only [List.length_append, List.length_cons]
        omega
      · simp

/-- Digits and a fraction behind them lie within their text. -/
theorem length_mantissa_le (cs : List Char) :
    (cs.takeWhile Char.isDigit
      ++ fraction (cs.drop (cs.takeWhile Char.isDigit).length)).length ≤ cs.length := by
  have hdigits_le := length_takeWhile_le Char.isDigit cs
  have hfraction_le := length_fraction_le (cs.drop (cs.takeWhile Char.isDigit).length)
  rw [List.length_drop] at hfraction_le
  rw [List.length_append]
  omega

/-- With its exponent, too, a number lies within its text. -/
theorem length_append_exponent_le {mantissa cs : List Char} (h : mantissa.length ≤ cs.length) :
    (mantissa ++ exponent (cs.drop mantissa.length)).length ≤ cs.length := by
  have hexponent_le := length_exponent_le (cs.drop mantissa.length)
  rw [List.length_drop] at hexponent_le
  rw [List.length_append]
  omega

/-- A number lies within the text it is read from. -/
theorem length_number_le {cs : List Char} : (number cs).2 ≤ cs.length := by
  rw [number]
  split
  · next digits hhex =>
    unfold hexLiteral? at hhex
    split at hhex
    · next cs =>
      obtain rfl := Option.some.inj hhex
      simpa using length_takeWhile_le isHexDigit cs
    · cases hhex
  have hmantissa_le := length_mantissa_le cs
  dsimp only
  generalize cs.takeWhile Char.isDigit
    ++ fraction (cs.drop (cs.takeWhile Char.isDigit).length) = mantissa at hmantissa_le ⊢
  have htext_le := length_append_exponent_le hmantissa_le
  have hletters_le : mantissa.length + (if ((cs.drop mantissa.length).take 1).any isExponentLetter
      then [] else wordParts (cs.drop mantissa.length)).length ≤ cs.length := by
    split
    · exact hmantissa_le
    · have hparts_le := length_takeWhile_le isWordPart (cs.drop mantissa.length)
      rw [List.length_drop] at hparts_le
      rw [wordParts]
      omega
  generalize (if ((cs.drop mantissa.length).take 1).any isExponentLetter
      then [] else wordParts (cs.drop mantissa.length)) = letters at hletters_le ⊢
  generalize mantissa ++ exponent (cs.drop mantissa.length) = text at htext_le ⊢
  split
  · next hpoint =>
    rw [hpoint] at hmantissa_le
    exact hmantissa_le
  split
  · dsimp only
    split
    · next hlong =>
      -- the letter stands behind the digits
      have hlt : text.length < cs.length := by
        by_contra hle
        simp [List.drop_eq_nil_of_le (Nat.not_lt.1 hle)] at hlong
      exact hlt
    · exact htext_le
  · exact hletters_le

/-! ### Numbers and the text behind them -/

/-- In front of a text with which no word goes on there is no exponent. -/
theorem exponent_eq_nil {rest : List Char} (hrest : ∀ d ∈ rest.head?, isWordPart d = false) :
    exponent rest = [] := by
  cases rest with
  | nil => rfl
  | cons d tail =>
      have hlower := head?_ne_of_isWordPart hrest (c := 'e') (by decide)
      have hupper := head?_ne_of_isWordPart hrest (c := 'E') (by decide)
      simp only [List.head?_cons, ne_eq, Option.some.injEq] at hlower hupper
      simp [exponent, isExponentLetter, hlower, hupper]

section

variable {p r s : List Char} (hs : ∀ d ∈ s.head?, EndsNumber d)
include hs

/-- The digits of `0x…` that lie within `p` do not depend on the text behind `p`. -/
theorem hexLiteral?_replace {digits : List Char} (h : hexLiteral? (p ++ r) = some digits)
    (hle : digits.length + 2 ≤ p.length) : hexLiteral? (p ++ s) = some digits := by
  match p with
  | [] | [_] => simp at hle
  | c :: d :: p =>
      rw [List.cons_append, List.cons_append] at h
      unfold hexLiteral? at h
      split at h
      · next heq =>
        obtain ⟨rfl, htail⟩ := List.cons.inj heq
        obtain ⟨rfl, rfl⟩ := List.cons.inj htail
        obtain rfl := Option.some.inj h
        rw [List.cons_append, List.cons_append, hexLiteral?,
          takeWhile_replace (fun d hd => (hs d hd).not_isHexDigit) (by simpa using hle)]
      · cases h

/-- A text that does not begin with `0x` does not with another end, either. -/
theorem hexLiteral?_eq_none_replace (h : hexLiteral? (p ++ r) = none) :
    hexLiteral? (p ++ s) = none := by
  unfold hexLiteral?
  split
  · next tail heq =>
    match p with
    | [] =>
        have hzero := (hs '0' (by rw [← List.nil_append s, heq]; rfl)).not_isDigit
        cases hzero
    | [_] =>
        obtain ⟨-, rfl⟩ := List.cons.inj heq
        exact absurd rfl ((hs 'x' rfl).ne_of_isAlpha rfl)
    | _ :: _ :: p =>
        obtain ⟨rfl, htail⟩ := List.cons.inj heq
        obtain ⟨rfl, rfl⟩ := List.cons.inj htail
        cases h
  · rfl

/-- A fraction that lies within `p` does not depend on the text behind `p`. -/
theorem fraction_replace (h : (fraction (p ++ r)).length ≤ p.length) :
    fraction (p ++ s) = fraction (p ++ r) := by
  cases p with
  | nil =>
      have hr : fraction r = [] := List.length_eq_zero_iff.1 (Nat.le_zero.1 h)
      rw [List.nil_append, List.nil_append, hr]
      unfold fraction
      split
      · exact absurd (by simp) (hs '.' rfl).ne_sign
      · rfl
  | cons c p =>
      by_cases hc : c = '.'
      · subst hc
        rw [List.cons_append, fraction, List.length_cons, List.length_cons,
          Nat.add_le_add_iff_right] at h
        rw [List.cons_append, List.cons_append, fraction, fraction,
          takeWhile_replace (fun d hd => (hs d hd).not_isDigit) h]
      · simp [fraction, hc]

/-- Behind the letter alone stands no exponent. -/
theorem exponent_letter (letter : Char) : exponent (letter :: s) = [] := by
  have hsign : ∀ d ∈ s.head?, (d = '+' || d = '-') = false := by
    intro d hd
    have hne := (hs d hd).ne_sign
    simp only [List.mem_cons, List.not_mem_nil, or_false, not_or] at hne
    simp [hne]
  have hdigits := takeWhile_eq_nil fun d hd => (hs d hd).not_isDigit
  simp [exponent, takeWhile_eq_nil (forall_head?_take hsign 1), hdigits]

/-- An exponent that lies within `p` does not depend on the text behind `p`. -/
theorem exponent_replace (h : (exponent (p ++ r)).length ≤ p.length) :
    exponent (p ++ s) = exponent (p ++ r) := by
  match p with
  | [] =>
      have hr : exponent r = [] := List.length_eq_zero_iff.1 (Nat.le_zero.1 h)
      have hnil : exponent s = [] := exponent_eq_nil fun d hd => (hs d hd).not_isWordPart
      rw [List.nil_append, List.nil_append, hr, hnil]
  | [letter] =>
      -- an exponent has a letter and a digit
      have hr : exponent ([letter] ++ r) = [] := by
        simp only [List.cons_append, List.nil_append, exponent] at h ⊢
        split at h
        · next hexponent =>
          rw [Bool.and_eq_true, Bool.not_eq_true', List.isEmpty_eq_false_iff] at hexponent
          have hdigits := List.length_pos_iff.2 hexponent.2
          simp only [List.length_cons, List.length_append, List.length_nil] at h
          omega
        · next hexponent => rw [if_neg hexponent]
      rw [hr]
      exact exponent_letter hs letter
  | letter :: c :: p =>
      have htake (t : List Char) : (c :: (p ++ t)).take 1 = (c :: p).take 1 := rfl
      simp only [List.cons_append, exponent, htake] at h ⊢
      have hle : (((c :: p).take 1).takeWhile fun c => c = '+' || c = '-').length
          ≤ (c :: p).length :=
        length_takeWhile_take_le _ 1 (c :: p)
      generalize ((c :: p).take 1).takeWhile (fun c => c = '+' || c = '-') = sign at h hle ⊢
      have hdrop (t : List Char) :
          (c :: (p ++ t)).drop sign.length = (c :: p).drop sign.length ++ t :=
        List.drop_append_of_le_length hle
      rw [hdrop] at h
      rw [hdrop, hdrop]
      by_cases hletter : isExponentLetter letter = true
      · have hdigits : ((c :: p).drop sign.length ++ s).takeWhile Char.isDigit
            = ((c :: p).drop sign.length ++ r).takeWhile Char.isDigit := by
          refine takeWhile_replace (fun d hd => (hs d hd).not_isDigit) ?_
          split at h
          · rw [List.length_drop]
            simp only [List.length_cons, List.length_append] at h ⊢
            omega
          · next hexponent =>
            have hnil : ((c :: p).drop sign.length ++ r).takeWhile Char.isDigit = [] := by
              simpa [hletter] using hexponent
            rw [hnil]
            exact Nat.zero_le _
        rw [hdigits]
      · simp [hletter]

/-- The letters of a word that a number runs into. -/
theorem letters_replace
    (h : (if ((p ++ r).take 1).any isExponentLetter then []
      else wordParts (p ++ r)).length ≤ p.length) :
    (if ((p ++ s).take 1).any isExponentLetter then [] else wordParts (p ++ s))
      = if ((p ++ r).take 1).any isExponentLetter then [] else wordParts (p ++ r) := by
  have hparts (hle : (wordParts (p ++ r)).length ≤ p.length) :
      wordParts (p ++ s) = wordParts (p ++ r) :=
    takeWhile_replace (fun d hd => (hs d hd).not_isWordPart) hle
  cases p with
  | nil =>
      rw [List.length_eq_zero_iff.1 (Nat.le_zero.1 h)]
      have hnil : wordParts s = [] := wordParts_eq_nil fun d hd => (hs d hd).not_isWordPart
      rw [List.nil_append, hnil, ite_self]
  | cons c p =>
      have htake (t : List Char) : (c :: p ++ t).take 1 = [c] := rfl
      rw [htake] at h
      rw [htake, htake]
      by_cases hc : [c].any isExponentLetter = true
      · rw [if_pos hc, if_pos hc]
      · rw [if_neg hc] at h
        rw [if_neg hc, if_neg hc, hparts h]

/-- Whether the letter `L` stands behind the first `n` characters, if all that lies within `p`. -/
theorem head?_drop_replace {n : Nat}
    (h : n + (if ((p ++ r).drop n).head? = some 'L' then 1 else 0) ≤ p.length) :
    ((p ++ s).drop n).head? = some 'L' ↔ ((p ++ r).drop n).head? = some 'L' := by
  have hn : n ≤ p.length := (Nat.le_add_right n _).trans h
  rw [List.drop_append_of_le_length hn] at h
  rw [List.drop_append_of_le_length hn, List.drop_append_of_le_length hn]
  rcases hq : p.drop n with _ | ⟨c, q⟩
  · rw [hq] at h
    have hr : r.head? ≠ some 'L' := by
      intro hlong
      rw [List.nil_append, if_pos hlong] at h
      have hge := List.drop_eq_nil_iff.1 hq
      omega
    have hs' : s.head? ≠ some 'L' := fun hlong => (hs 'L' hlong).ne_of_isAlpha rfl rfl
    exact iff_of_false hs' hr
  · rfl

end

/-- A number takes at least its digits and its fraction, and the letters that make it a word. -/
theorem length_parts_le {cs mantissa letters : List Char} (hhex : hexLiteral? cs = none)
    (hmantissa : cs.takeWhile Char.isDigit
      ++ fraction (cs.drop (cs.takeWhile Char.isDigit).length) = mantissa)
    (hletters : (if ((cs.drop mantissa.length).take 1).any isExponentLetter then []
      else wordParts (cs.drop mantissa.length)) = letters) :
    mantissa.length ≤ (number cs).2 ∧
      (mantissa ≠ ['.'] → mantissa.length + letters.length ≤ (number cs).2) := by
  simp only [number, hhex, hmantissa, hletters]
  by_cases hpoint : mantissa = ['.']
  · simp [hpoint]
  · rw [if_neg hpoint]
    split
    · next hempty =>
      rw [List.isEmpty_iff] at hempty
      simp only [hempty, List.length_append, List.length_nil]
      omega
    · simp

/-- A number that lies within `p` does not depend on the text behind `p`. -/
theorem number_replace {p r s : List Char} (hs : ∀ d ∈ s.head?, EndsNumber d)
    (h : (number (p ++ r)).2 ≤ p.length) : number (p ++ s) = number (p ++ r) := by
  cases hhex : hexLiteral? (p ++ r) with
  | some digits =>
      have hnumber : number (p ++ r)
          = (.quoted .hexadecimal (String.ofList digits), digits.length + 2) := by
        rw [number, hhex]
      rw [hnumber] at h ⊢
      rw [number, hexLiteral?_replace hs hhex h]
  | none =>
      have hhex' := hexLiteral?_eq_none_replace hs hhex
      obtain ⟨hmantissa_le, hletters_le⟩ := length_parts_le hhex rfl rfl
      replace hmantissa_le := hmantissa_le.trans h
      replace hletters_le := fun hpoint => (hletters_le hpoint).trans h
      -- the digits and the fraction
      have hdigits_le : ((p ++ r).takeWhile Char.isDigit).length ≤ p.length := by
        rw [List.length_append] at hmantissa_le
        omega
      have hdigits := takeWhile_replace (fun d hd => (hs d hd).not_isDigit) hdigits_le
      have hfraction : fraction ((p ++ s).drop ((p ++ s).takeWhile Char.isDigit).length)
          = fraction ((p ++ r).drop ((p ++ r).takeWhile Char.isDigit).length) := by
        rw [List.drop_append_of_le_length hdigits_le, List.length_append] at hmantissa_le
        rw [hdigits, List.drop_append_of_le_length hdigits_le,
          List.drop_append_of_le_length hdigits_le]
        refine fraction_replace hs ?_
        rw [List.length_drop]
        omega
      simp only [number, hhex, hhex'] at h ⊢
      rw [hfraction, hdigits]
      generalize (p ++ r).takeWhile Char.isDigit
        ++ fraction ((p ++ r).drop ((p ++ r).takeWhile Char.isDigit).length) = mantissa
        at h hmantissa_le hletters_le ⊢
      by_cases hpoint : mantissa = ['.']
      · rw [if_pos hpoint, if_pos hpoint]
      -- the letters and the exponent
      rw [if_neg hpoint] at h
      rw [if_neg hpoint, if_neg hpoint]
      replace hletters_le := hletters_le hpoint
      have hdrop (t : List Char) : (p ++ t).drop mantissa.length = p.drop mantissa.length ++ t :=
        List.drop_append_of_le_length hmantissa_le
      have hlength : (p.drop mantissa.length).length = p.length - mantissa.length :=
        List.length_drop
      rw [hdrop] at h hletters_le
      rw [hdrop, hdrop, letters_replace hs (hlength ▸ Nat.le_sub_of_add_le' hletters_le)]
      generalize (if ((p.drop mantissa.length ++ r).take 1).any isExponentLetter then []
        else wordParts (p.drop mantissa.length ++ r)) = letters at h ⊢
      by_cases hempty : letters.isEmpty = true
      · rw [if_pos hempty] at h
        rw [if_pos hempty, if_pos hempty]
        have hexponent : exponent (p.drop mantissa.length ++ s)
            = exponent (p.drop mantissa.length ++ r) := by
          refine exponent_replace hs ?_
          simp only [List.length_append] at h
          omega
        rw [hexponent]
        simp only [head?_drop_replace hs h]
      · rw [if_neg hempty, if_neg hempty]

/-- A number is read as if nothing stood behind it. -/
theorem number_append {d : Char} (h : EndsNumber d) (p tail : List Char) :
    number (p ++ d :: tail) = number p := by
  have hd : ∀ e ∈ (d :: tail).head?, EndsNumber e := by
    rintro e ⟨⟩
    exact h
  have hle : (number (p ++ [])).2 ≤ p.length := by
    rw [List.append_nil]
    exact length_number_le
  rw [number_replace hd hle, List.append_nil]

end CreateTable
