import CreateTable.Proofs.Token.Number

/-!
# The texts of numbers

A number consists of digits, a fraction and an exponent. Its text alone is read as the same number
again.

## Main definitions

* `IsNumeral`: the texts of numbers.

## Main statements

* `isNumeral_of_number`: the text of a number that was read.
* `number_digits`: a row of digits is read to its end.
-/

namespace CreateTable

/-! ### Fractions and exponents -/

/-- The text of an exponent: none, or a letter, perhaps a sign, and digits. -/
inductive IsExponent : List Char → Prop
  | nil : IsExponent []
  | cons {letter : Char} {sign digits : List Char} : isExponentLetter letter = true →
    (sign = [] ∨ sign = ['+'] ∨ sign = ['-']) → digits ≠ [] →
    (∀ c ∈ digits, c.isDigit = true) → IsExponent (letter :: (sign ++ digits))

/-- The text of a fraction: none, or a point and digits. -/
inductive IsFraction : List Char → Prop
  | nil : IsFraction []
  | cons {digits : List Char} : (∀ c ∈ digits, c.isDigit = true) → IsFraction ('.' :: digits)

/-- A run of digits has digits only. -/
theorem isDigit_of_mem_takeWhile {cs : List Char} {c : Char} (h : c ∈ cs.takeWhile Char.isDigit) :
    c.isDigit = true :=
  List.all_eq_true.1 List.all_takeWhile c h

/-- What is read as a fraction is the text of one. -/
theorem isFraction_fraction (cs : List Char) : IsFraction (fraction cs) := by
  unfold fraction
  split
  · exact .cons fun c => isDigit_of_mem_takeWhile
  · exact .nil

/-- What is read as an exponent is the text of one. -/
theorem isExponent_exponent (cs : List Char) : IsExponent (exponent cs) := by
  cases cs with
  | nil => exact .nil
  | cons letter cs =>
      simp only [exponent]
      split
      · next h =>
        rw [Bool.and_eq_true, Bool.not_eq_true', List.isEmpty_eq_false_iff] at h
        refine .cons h.1 ?_ h.2 fun c => isDigit_of_mem_takeWhile
        cases cs with
        | nil => exact .inl rfl
        | cons c cs =>
            by_cases hplus : c = '+'
            · simp [hplus]
            · by_cases hminus : c = '-' <;> simp [hplus, hminus]
      · exact .nil

/-- A run of digits is taken completely in front of something that does not go on with it. -/
theorem takeWhile_isDigit_append {digits cs : List Char} (hdigits : ∀ c ∈ digits, c.isDigit = true)
    (hcs : ∀ c ∈ cs.head?, c.isDigit = false) : (digits ++ cs).takeWhile Char.isDigit = digits := by
  rw [List.takeWhile_append_of_pos hdigits, takeWhile_eq_nil hcs, List.append_nil]

/-- The letter of an exponent is no digit. -/
theorem isDigit_of_isExponentLetter {c : Char} (h : isExponentLetter c = true) :
    c.isDigit = false := by
  have hc : c = 'e' ∨ c = 'E' := by simpa [isExponentLetter] using h
  rcases hc with rfl | rfl <;> rfl

/-- An exponent does not begin with a digit. -/
theorem IsExponent.head_not_isDigit {cs : List Char} (h : IsExponent cs) :
    ∀ c ∈ cs.head?, c.isDigit = false := by
  cases h with
  | nil => simp
  | cons hletter => simpa using isDigit_of_isExponentLetter hletter

/-- The text of an exponent is read as an exponent to its end. -/
theorem IsExponent.exponent_eq {cs : List Char} (h : IsExponent cs) : exponent cs = cs := by
  cases h with
  | nil => rfl
  | @cons letter sign digits hletter hsign hne hdigits =>
      obtain ⟨c, digits, rfl⟩ := List.exists_cons_of_ne_nil hne
      have hc := hdigits c List.mem_cons_self
      have htake : (c :: digits).takeWhile Char.isDigit = c :: digits :=
        List.takeWhile_eq_self_iff.2 hdigits
      have hplus : c ≠ '+' := by rintro rfl; cases hc
      have hminus : c ≠ '-' := by rintro rfl; cases hc
      rcases hsign with rfl | rfl | rfl
      all_goals simp [exponent, hletter, htake, hplus, hminus]

/-- The text of a fraction is read to its end in front of an exponent. -/
theorem IsFraction.fraction_append {f e : List Char} (hf : IsFraction f) (he : IsExponent e) :
    fraction (f ++ e) = f := by
  cases hf with
  | nil =>
      cases he with
      | nil => rfl
      | @cons letter _ _ hletter =>
          have hpoint : letter ≠ '.' := by rintro rfl; cases hletter
          simp [fraction, hpoint]
  | cons hdigits =>
      rw [List.cons_append, fraction, takeWhile_isDigit_append hdigits he.head_not_isDigit]

/-- A text is a **numeral** when it begins with a digit or a point and is read as a number to its
end. Such a text needs no escape between quotes. -/
structure IsNumeral (cs : List Char) : Prop where
  head : ∃ c rest, cs = c :: rest ∧ (c.isDigit = true ∨ c = '.')
  number_eq : number cs = (.number (String.ofList cs) false, cs.length)
  plain : ∀ c ∈ cs, c ≠ '\'' ∧ c ≠ '\\'

/-- The characters of a number. -/
def isNumberChar (c : Char) : Bool :=
  c.isDigit || c = '.' || c = '+' || c = '-' || isExponentLetter c

/-- A fraction has characters of numbers only. -/
theorem IsFraction.isNumberChar {cs : List Char} (h : IsFraction cs) :
    ∀ c ∈ cs, isNumberChar c = true := by
  cases h with
  | nil => simp
  | cons hdigits =>
      rw [List.forall_mem_cons]
      exact ⟨rfl, fun c hc => by simp [CreateTable.isNumberChar, hdigits c hc]⟩

/-- An exponent has characters of numbers only. -/
theorem IsExponent.isNumberChar {cs : List Char} (h : IsExponent cs) :
    ∀ c ∈ cs, isNumberChar c = true := by
  cases h with
  | nil => simp
  | cons hletter hsign _ hdigits =>
      rw [List.forall_mem_cons, List.forall_mem_append]
      refine ⟨by simp [CreateTable.isNumberChar, hletter], ?_, fun c hc => ?_⟩
      · rcases hsign with rfl | rfl | rfl <;> simp [CreateTable.isNumberChar]
      · simp [CreateTable.isNumberChar, hdigits c hc]

/-- A text of characters of numbers does not begin with `0x`. -/
theorem hexLiteral?_eq_none {cs : List Char} (h : ∀ c ∈ cs, isNumberChar c = true) :
    hexLiteral? cs = none := by
  unfold hexLiteral?
  split
  · have hx := h 'x' (by simp)
    cases hx
  · rfl

/-- A number is read from its digits, its fraction and its exponent to their end. -/
theorem number_eq_of_parts {digits f e : List Char} (hdigits : ∀ c ∈ digits, c.isDigit = true)
    (hf : IsFraction f) (he : IsExponent e) (hpoint : digits ++ f ≠ ['.'])
    (hchars : ∀ c ∈ digits ++ f ++ e, isNumberChar c = true)
    (hfirst : ∀ c ∈ (f ++ e).head?, c.isDigit = false) :
    number (digits ++ f ++ e)
      = (.number (String.ofList (digits ++ f ++ e)) false, (digits ++ f ++ e).length) := by
  have htake : (digits ++ f ++ e).takeWhile Char.isDigit = digits := by
    rw [List.append_assoc, takeWhile_isDigit_append hdigits hfirst]
  have hdrop : (digits ++ f ++ e).drop digits.length = f ++ e := by
    rw [List.append_assoc, List.drop_left]
  have hletters : (if (e.take 1).any isExponentLetter then [] else wordParts e) = [] := by
    cases he with
    | nil => rfl
    | cons hletter => simp [hletter]
  simp only [number, hexLiteral?_eq_none hchars, htake, hdrop, hf.fraction_append he,
    List.drop_left, he.exponent_eq, if_neg hpoint, hletters, List.isEmpty_nil, if_true,
    List.drop_length, List.head?_nil]
  simp

/-- Behind the digits of a number no further digit stands. -/
theorem head_append_not_isDigit {f e : List Char} (hf : IsFraction f) (he : IsExponent e) :
    ∀ c ∈ (f ++ e).head?, c.isDigit = false := by
  cases hf with
  | nil => exact he.head_not_isDigit
  | cons => simp

/-- No character of a number needs an escape between quotes. -/
theorem not_quote_of_isNumberChar {c : Char} (h : isNumberChar c = true) :
    c ≠ '\'' ∧ c ≠ '\\' := by
  constructor
  · rintro rfl
    cases h
  · rintro rfl
    cases h

/-- Digits, a fraction and an exponent are a numeral, unless they are a lone point or start with
the exponent. -/
theorem isNumeral_of_parts {digits f e : List Char} (hdigits : ∀ c ∈ digits, c.isDigit = true)
    (hf : IsFraction f) (he : IsExponent e) (hpoint : digits ++ f ≠ ['.'])
    (hnil : digits ++ f ≠ []) : IsNumeral (digits ++ f ++ e) := by
  have hchars : ∀ c ∈ digits ++ f ++ e, isNumberChar c = true := by
    simp only [List.forall_mem_append]
    exact ⟨⟨fun c hc => by simp [isNumberChar, hdigits c hc], hf.isNumberChar⟩, he.isNumberChar⟩
  refine ⟨?_, ?_, fun c hc => not_quote_of_isNumberChar (hchars c hc)⟩
  · cases digits with
    | nil =>
        cases hf with
        | nil => exact absurd rfl hnil
        | cons => exact ⟨_, _, rfl, .inr rfl⟩
    | cons c digits => exact ⟨_, _, rfl, .inl (hdigits c List.mem_cons_self)⟩
  · exact number_eq_of_parts hdigits hf he hpoint hchars (head_append_not_isDigit hf he)

/-- The text of a number that was read is a numeral. -/
theorem isNumeral_of_number {c : Char} {cs : List Char} {v : String} {long : Bool} {n : Nat}
    (hc : c.isDigit = true ∨ c = '.') (h : number (c :: cs) = (.number v long, n)) :
    IsNumeral v.toList := by
  rw [number] at h
  split at h
  · cases h
  simp only at h
  split at h
  · cases h
  next hpoint =>
  have htext {letters : List Char} {m : Nat} {b : Bool} {text w : List Char} {k : Nat}
      (h : (if letters.isEmpty then (Kind.number (String.ofList text) b, m)
        else (.word (String.ofList w), k)) = (.number v long, n)) : v = String.ofList text := by
    split at h
    · exact (Kind.number.inj (Prod.mk.inj h).1).1.symm
    · cases h
  rw [htext h, String.toList_ofList]
  refine isNumeral_of_parts (fun c => isDigit_of_mem_takeWhile) (isFraction_fraction _)
    (isExponent_exponent _) hpoint ?_
  rcases hc with hc | rfl
  · simp [hc]
  · simp [fraction]

/-! ### Rows of digits -/

section

variable {digits rest : List Char} (hrest : ∀ d ∈ rest.head?, isWordPart d = false)
include hrest

/-- Digits in front of a text with which no word goes on do not begin with `0x`. -/
theorem hexLiteral?_digits (hdigits : ∀ c ∈ digits, c.isDigit = true) (hne : digits ≠ []) :
    hexLiteral? (digits ++ rest) = none := by
  unfold hexLiteral?
  split
  · next tail heq =>
    -- the second character is no digit, and no part of a word
    obtain ⟨c, cs, rfl⟩ := List.exists_cons_of_ne_nil hne
    have hbehind : cs ++ rest = 'x' :: tail := (List.cons.inj heq).2
    cases cs with
    | nil => exact absurd (congrArg List.head? hbehind) (head?_ne_of_isWordPart hrest (by decide))
    | cons d cs =>
        have hd := hdigits d (by simp)
        rw [(List.cons.inj hbehind).1] at hd
        cases hd
  · rfl

/-- A row of digits is read to its end, if neither a word nor a fraction goes on with it. -/
theorem number_digits (hdigits : ∀ c ∈ digits, c.isDigit = true) (hne : digits ≠ [])
    (hperiod : rest.head? ≠ some '.') :
    number (digits ++ rest) = (.number (String.ofList digits) false, digits.length) := by
  have hnext : ∀ d ∈ rest.head?, d.isDigit = false := by
    intro d hd
    have hpart := hrest d hd
    rw [isWordPart, Bool.or_eq_false_iff] at hpart
    exact hpart.2
  have htake := takeWhile_isDigit_append hdigits hnext
  have hpoint : digits ≠ ['.'] := by
    rintro rfl
    have hdigit := hdigits '.' (by simp)
    cases hdigit
  have hfraction : fraction rest = [] := by
    unfold fraction
    split
    · exact absurd rfl hperiod
    · rfl
  have hlong : rest.head? ≠ some 'L' := head?_ne_of_isWordPart hrest (by decide)
  rw [number, hexLiteral?_digits hrest hdigits hne]
  simp [htake, hpoint, hfraction, exponent_eq_nil hrest, wordParts_eq_nil hrest, hlong]

end

end CreateTable
