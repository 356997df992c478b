import CreateTable.Proofs.Printing.Lexing
import CreateTable.Proofs.Token.Rest
import Mathlib.Data.List.Chain

/-!
# Texts with blanks and comments between the tokens

Between two tokens of a text any blanks and comments can stand, and at its end also a line comment
that no line feed ends. A text that is laid out so is cut into just these tokens, if of each two
words or numbers that follow each other a mark stands between them.

## Main definitions

* `IsGap`, `IsLastGap`: what can stand between two tokens, and at the end of a text.
* `IsSkipped`: a piece of a text without significant tokens.
* `LaysOut`: the texts that are some tokens with gaps between them.
* `Kind.IsMark`, `Kind.IsRun`: the tokens that need no gap, and those that need one between them.

## Main statements

* `IsGap.isSkipped`: a gap has no significant tokens.
* `LaysOut.kind_significantTokens`: the tokens of a text that is laid out.
-/

namespace CreateTable

open Text Identifier

/-! ### Comments -/

/-- What is no line feed is part of a line comment. -/
theorem lineCommentLength_append {body : List Char} (hbody : '\n' ∉ body) (rest : List Char) :
    lineCommentLength (body ++ rest) = body.length + lineCommentLength rest := by
  induction body with
  | nil => rw [List.nil_append, List.length_nil, Nat.zero_add]
  | cons c body ih =>
      rw [List.mem_cons, not_or] at hbody
      rw [List.cons_append, lineCommentLength, if_neg (Ne.symm hbody.1), ih hbody.2,
        List.length_cons, Nat.add_right_comm]

/-- A block comment whose end does not come earlier ends there. -/
theorem blockCommentLength?_close {body : List Char} (hbody : ¬ ['*', '/'] <:+: body ++ ['*'])
    (rest : List Char) :
    blockCommentLength? (body ++ '*' :: '/' :: rest) = some (body.length + 2) := by
  induction body with
  | nil => rfl
  | cons c body ih =>
      have hfirst : ¬ (c = '*' ∧ (body ++ '*' :: '/' :: rest).head? = some '/') := by
        rintro ⟨rfl, hhead⟩
        refine hbody ?_
        cases body with
        | nil => cases hhead
        | cons d body =>
            obtain rfl : d = '/' := Option.some.inj hhead
            exact ⟨[], body ++ ['*'], rfl⟩
      have hinner : ¬ ['*', '/'] <:+: body ++ ['*'] :=
        fun h => hbody (h.trans (List.suffix_cons c _).isInfix)
      rw [List.cons_append, blockCommentLength?_cons, if_neg hfirst, ih hinner]
      rfl

/-! ### Gaps -/

/-- A text that can stand **between two tokens**: blanks, line comments with the line feeds that end
them, and block comments, which end at the first `*/`. -/
inductive IsGap : List Char → Prop
  | nil : IsGap []
  | blank {c : Char} {cs : List Char} : c ∈ [' ', '\t', '\n', '\r', '\x0B', '\x0C'] → IsGap cs →
    IsGap (c :: cs)
  | line {mark body cs : List Char} : mark ∈ [['-', '-'], ['#']] → '\n' ∉ body → IsGap cs →
    IsGap (mark ++ (body ++ '\n' :: cs))
  | block {body cs : List Char} : ¬ ['*', '/'] <:+: body ++ ['*'] → IsGap cs →
    IsGap ('/' :: '*' :: (body ++ '*' :: '/' :: cs))

/-- A text that can stand behind the last token: a gap, and then perhaps a line comment that goes on
to the end. -/
inductive IsLastGap : List Char → Prop
  | gap {cs : List Char} : IsGap cs → IsLastGap cs
  | line {cs mark body : List Char} : IsGap cs → mark ∈ [['-', '-'], ['#']] → '\n' ∉ body →
    IsLastGap (cs ++ (mark ++ body))

/-- In front of `rest` the text `cs` is **skipped**: it has no significant tokens. -/
abbrev IsSkipped (cs rest : List Char) : Prop :=
  LexesTo (· = []) cs rest

/-- A blank is a token of its own, but for a carriage return with a line feed behind it. -/
theorem scan_blank {c : Char} {cs : List Char} (hc : c ∈ [' ', '\t', '\n', '\r', '\x0B', '\x0C'])
    (hreturn : c = '\r' → cs.head? ≠ some '\n') : scan c cs = .ok (.blank, 1) := by
  simp only [List.mem_cons, List.not_mem_nil, or_false] at hc
  obtain rfl | rfl | rfl | rfl | rfl | rfl := hc
  case inr.inr.inr.inl =>
    cases cs with
    | nil => rfl
    | cons d cs =>
        have hd : d ≠ '\n' := fun h => hreturn rfl (congrArg some h)
        rw [scan]
        rintro _ heq
        exact hd (List.cons.inj heq).1
  all_goals rfl

/-- Both marks begin a line comment. -/
theorem exists_scan_line {mark : List Char} (hmark : mark ∈ [['-', '-'], ['#']]) :
    ∃ c cs, mark = c :: cs ∧ c ∈ ['-', '#'] ∧
      ∀ body, scan c (cs ++ body) = .ok (.comment, lineCommentLength body + mark.length) := by
  simp only [List.mem_cons, List.not_mem_nil, or_false] at hmark
  rcases hmark with rfl | rfl
  · exact ⟨'-', ['-'], rfl, by simp, fun _ => rfl⟩
  · exact ⟨'#', [], rfl, by simp, fun _ => rfl⟩

/-- A line comment up to the line feed that ends it, or up to the end of the text. -/
theorem isSkipped_line {mark body cs rest : List Char} (hmark : mark ∈ [['-', '-'], ['#']])
    (hbody : lineCommentLength (body ++ (cs ++ rest)) = body.length) (hcs : IsSkipped cs rest) :
    IsSkipped (mark ++ (body ++ cs)) rest := by
  obtain ⟨c, tail, rfl, -, hscan⟩ := exists_scan_line hmark
  have hcomment : IsSkipped (c :: (tail ++ body ++ cs)) rest := by
    refine hcs.trivia (k := .comment) (tail ++ body) rfl ?_
    rw [List.append_assoc, hscan, hbody, List.length_cons, List.length_append, Nat.add_comm,
      Nat.add_right_comm]
  rwa [List.append_assoc] at hcomment

/-- A block comment whose text has no end of a comment is skipped. -/
theorem isSkipped_block {body cs rest : List Char} (hbody : ¬ ['*', '/'] <:+: body ++ ['*'])
    (hcs : IsSkipped cs rest) : IsSkipped ('/' :: '*' :: (body ++ '*' :: '/' :: cs)) rest := by
  have hsplit : '*' :: (body ++ '*' :: '/' :: cs) = ('*' :: (body ++ ['*', '/'])) ++ cs := by simp
  rw [hsplit]
  refine hcs.trivia (k := .comment) _ rfl ?_
  change scanBlockComment _ = _
  rw [scanBlockComment]
  simp [blockCommentLength?_close hbody]

/-- A gap has no significant tokens, unless it ends in a carriage return that the text behind it
goes on with. -/
theorem IsGap.isSkipped {cs rest : List Char} (h : IsGap cs) (hrest : rest.head? ≠ some '\n') :
    IsSkipped cs rest := by
  -- what stands behind a line feed is needed too, for a carriage return takes both at once
  suffices hboth : IsSkipped cs rest ∧ ∀ ds, cs = '\n' :: ds → IsSkipped ds rest from hboth.1
  induction h with
  | nil => exact ⟨.nil rfl, nofun⟩
  | @blank c cs hc _ ih =>
      refine ⟨?_, fun ds heq => (List.cons.inj heq).2 ▸ ih.1⟩
      by_cases hreturn : c = '\r' ∧ (cs ++ rest).head? = some '\n'
      case neg => exact ih.1.trivia [] rfl (scan_blank hc (not_and.1 hreturn))
      case pos =>
        obtain ⟨rfl, hhead⟩ := hreturn
        cases cs with
        | nil => exact absurd hhead hrest
        | cons d ds =>
            obtain rfl : d = '\n' := Option.some.inj hhead
            exact (ih.2 ds rfl).trivia (k := .blank) ['\n'] rfl rfl
  | @line mark body cs hmark hbody _ ih =>
      have hlength :
          lineCommentLength (body ++ ['\n'] ++ (cs ++ rest)) = (body ++ ['\n']).length := by
        rw [List.append_assoc, lineCommentLength_append hbody, List.length_append]
        rfl
      have hline := isSkipped_line hmark hlength ih.1
      rw [List.append_assoc, List.singleton_append] at hline
      refine ⟨hline, fun ds heq => ?_⟩
      obtain ⟨c, tail, rfl, hc, -⟩ := exists_scan_line hmark
      obtain ⟨rfl, -⟩ := List.cons.inj heq
      simp at hc
  | block hbody _ ih => exact ⟨isSkipped_block hbody ih.1, nofun⟩

/-- A text behind the last token is skipped up to the end. -/
theorem IsLastGap.isSkipped {cs : List Char} (h : IsLastGap cs) : IsSkipped cs [] := by
  cases h with
  | gap h => exact h.isSkipped nofun
  | @line cs mark body hcs hmark hbody =>
      have hlength : lineCommentLength (body ++ ([] ++ [])) = body.length := by
        rw [lineCommentLength_append hbody]
        rfl
      have hcomment := isSkipped_line hmark hlength (.nil rfl)
      rw [List.append_nil] at hcomment
      have hgap : IsSkipped cs (mark ++ body ++ []) := by
        obtain ⟨c, tail, rfl, hc, -⟩ := exists_scan_line hmark
        refine hcs.isSkipped ?_
        rintro ⟨⟩
        simp at hc
      refine (hgap.append hcomment).imp fun ts _ hts => ?_
      obtain ⟨_, _, rfl, rfl, rfl⟩ := hts
      rfl

/-! ### Words and numbers in front of a gap -/

/-- The text is at its end, or begins with a blank, a comment or a mark. -/
def IsBordered (rest : List Char) : Prop :=
  ∀ d ∈ rest.head?,
    d ∈ [' ', '\t', '\n', '\r', '\x0B', '\x0C', '-', '#', '/', '(', ')', ',']

/-- A bordered text in front of a bordered text is bordered. -/
theorem IsBordered.append {cs rest : List Char} (hcs : IsBordered cs) (hrest : IsBordered rest) :
    IsBordered (cs ++ rest) := by
  cases cs with
  | nil => exact hrest
  | cons d cs => exact hcs

/-- A text that begins as a line comment does is bordered. -/
theorem isBordered_of_mem_line {mark : List Char} (hmark : mark ∈ [['-', '-'], ['#']])
    (rest : List Char) : IsBordered (mark ++ rest) := by
  obtain ⟨c, tail, rfl, hc, -⟩ := exists_scan_line hmark
  rintro _ ⟨⟩
  simp only [List.mem_cons, List.not_mem_nil, or_false] at hc ⊢
  tauto

/-- A gap is bordered. -/
theorem IsGap.isBordered {cs : List Char} (h : IsGap cs) : IsBordered cs := by
  cases h with
  | nil => exact nofun
  | blank hc =>
      rintro _ ⟨⟩
      simp only [List.mem_cons, List.not_mem_nil, or_false] at hc ⊢
      tauto
  | line hmark => exact isBordered_of_mem_line hmark _
  | block =>
      rintro _ ⟨⟩
      simp

/-- A text behind the last token is bordered. -/
theorem IsLastGap.isBordered {cs : List Char} (h : IsLastGap cs) : IsBordered cs := by
  cases h with
  | gap h => exact h.isBordered
  | line h hmark => exact h.isBordered.append (isBordered_of_mem_line hmark _)

/-- A border ends a word and is no period, so neither a word nor a number goes on. -/
theorem IsBordered.endsWord {rest : List Char} (h : IsBordered rest) :
    ∀ d ∈ rest.head?, EndsWord d ∧ d ≠ '.' := by
  intro d hd
  have hmem := h d hd
  have hascii : ∀ d ∈ [' ', '\t', '\n', '\r', '\x0B', '\x0C', '-', '#', '/', '(', ')', ','],
      d.toNat < 0x80 ∧ (d.isAlpha || d = '_' || d = '$' || d = '@' || d.isDigit) = false ∧
        d ∉ ['\'', '"', '\x60'] ∧ d ≠ '.' := by simp
  obtain ⟨hlt, hpart, hquote, hperiod⟩ := hascii d hmem
  exact ⟨⟨(isWordPart_of_ascii hlt).trans hpart, hquote⟩, hperiod⟩

/-! ### Texts that are laid out -/

/-- The token is a parenthesis or a comma, which stands for itself wherever it is. -/
def Kind.IsMark (k : Kind) : Prop :=
  k ∈ [.leftParen, .rightParen, .comma]

/-- The token is a plain word or a row of digits, which goes on up to a character that is no part of
it. -/
inductive Kind.IsRun : Kind → Prop
  | word {w : String} : isPlain w = true → IsRun (.word w)
  | digits {digits : String} : digits ≠ "" → (∀ c ∈ digits.toList, c.isDigit = true) →
    IsRun (.number digits false)

/-- The text **lays out** tokens of the kinds `ks`: they stand in it one after the other, with gaps
before, between and behind them. -/
inductive LaysOut : List Kind → List Char → Prop
  | nil {gap : List Char} : IsLastGap gap → LaysOut [] gap
  | cons {k : Kind} {ks : List Kind} {gap cs : List Char} : IsGap gap → LaysOut ks cs →
    LaysOut (k :: ks) (gap ++ (k.shown.toList ++ cs))

/-- A mark is shown as one character, a parenthesis or a comma. -/
theorem Kind.IsMark.exists_char {k : Kind} (h : k.IsMark) :
    ∃ c, k.shown.toList = [c] ∧
      (c, k) ∈ [('(', Kind.leftParen), (')', .rightParen), (',', .comma)] := by
  simp only [IsMark, List.mem_cons, List.not_mem_nil, or_false] at h
  rcases h with rfl | rfl | rfl
  exacts [⟨'(', rfl, by simp⟩, ⟨')', rfl, by simp⟩, ⟨',', rfl, by simp⟩]

/-- A mark is read as that mark whatever stands behind it. -/
theorem Kind.IsMark.lexesTo {k : Kind} (h : k.IsMark) (rest : List Char) :
    LexesTo (Cursor.IsToken (· = k)) k.shown.toList rest := by
  obtain ⟨c, hshown, hc⟩ := h.exists_char
  rw [hshown]
  exact lexesTo_mark hc rest

/-- A word or a number in front of a border is read as that word or that number. -/
theorem Kind.IsRun.lexesTo {k : Kind} (h : k.IsRun) {rest : List Char} (hrest : IsBordered rest) :
    LexesTo (Cursor.IsToken (· = k)) k.shown.toList rest := by
  cases h with
  | @word w hw =>
      obtain ⟨c, cs, hlist, hc, hcs⟩ := exists_of_isPlain hw
      have hscan := scan_word hc hcs fun d hd => (hrest.endsWord d hd).1
      rw [shown, ← String.ofList_toList (s := w), hlist, String.toList_ofList]
      exact lexesTo_of_scan rfl hscan
  | @digits digits hne hdigits =>
      have hnil : digits.toList ≠ [] := mt String.toList_eq_nil_iff.1 hne
      obtain ⟨c, cs, hlist⟩ := List.exists_cons_of_ne_nil hnil
      have hnumber := number_digits (fun d hd => (hrest.endsWord d hd).1.not_isWordPart) hdigits
        hnil fun hd => (hrest.endsWord '.' hd).2 rfl
      rw [hlist] at hdigits hnumber
      rw [shown, if_neg (by decide), ← String.ofList_toList (s := digits), hlist,
        String.toList_ofList]
      refine lexesTo_of_scan rfl ?_
      rw [scan_number (.inl (hdigits c List.mem_cons_self)), ← List.cons_append, hnumber]
      rfl

/-- No token begins with a line feed. -/
theorem Kind.exists_shown {k : Kind} (h : k.IsMark ∨ k.IsRun) :
    ∃ c cs, k.shown.toList = c :: cs ∧ c ≠ '\n' := by
  obtain h | ⟨hw⟩ | @⟨digits, hne, hdigits⟩ := h
  · obtain ⟨c, hshown, hc⟩ := h.exists_char
    refine ⟨c, [], hshown, ?_⟩
    rintro rfl
    simp at hc
  · obtain ⟨c, cs, hlist, -, hcs⟩ := exists_of_isPlain hw
    refine ⟨c, cs, hlist, ?_⟩
    rintro rfl
    have hplain := hcs '\n' List.mem_cons_self
    cases hplain
  · obtain ⟨c, cs, hlist⟩ := List.exists_cons_of_ne_nil (mt String.toList_eq_nil_iff.1 hne)
    refine ⟨c, cs, hlist, ?_⟩
    rintro rfl
    have hdigit := hdigits '\n' (by simp [hlist])
    cases hdigit

namespace LaysOut

variable {ks : List Kind} {cs : List Char}

/-- In front of a mark, and at its end, a text is bordered. -/
theorem isBordered (h : LaysOut ks cs) (hks : ∀ k ∈ ks.head?, k.IsMark) : IsBordered cs := by
  cases h with
  | nil hgap => exact hgap.isBordered
  | @cons k ks gap cs hgap _ =>
      obtain ⟨c, hshown, hc⟩ := (hks k rfl).exists_char
      refine hgap.isBordered.append ?_
      rw [hshown]
      rintro _ ⟨⟩
      simp only [List.mem_cons, Prod.mk.injEq, List.not_mem_nil, or_false] at hc
      obtain ⟨rfl, -⟩ | ⟨rfl, -⟩ | ⟨rfl, -⟩ := hc <;> simp

/-- A text that is laid out is cut into its tokens: a mark stands for itself, and a word or a number
ends where the mark or the gap behind it begins. -/
theorem lexesTo (h : LaysOut ks cs) (hks : ∀ k ∈ ks, k.IsMark ∨ k.IsRun)
    (hchain : ks.IsChain fun k l => k.IsMark ∨ l.IsMark) :
    LexesTo (fun ts => ts.map Token.kind = ks) cs [] := by
  induction h with
  | nil hgap =>
      refine hgap.isSkipped.imp fun ts _ hts => ?_
      rw [hts, List.map_nil]
  | @cons k ks gap cs hgap hcs ih =>
      rw [List.forall_mem_cons] at hks
      rw [List.isChain_cons] at hchain
      have htoken : LexesTo (Cursor.IsToken (· = k)) k.shown.toList (cs ++ []) := by
        by_cases hmark : k.IsMark
        · exact hmark.lexesTo _
        · have hnext : ∀ l ∈ ks.head?, l.IsMark :=
            fun l hl => (hchain.1 l hl).resolve_left hmark
          rw [List.append_nil]
          exact (hks.1.resolve_left hmark).lexesTo (hcs.isBordered hnext)
      have hskipped : IsSkipped gap (k.shown.toList ++ cs ++ []) := by
        obtain ⟨c, tail, hshown, hc⟩ := Kind.exists_shown hks.1
        refine hgap.isSkipped ?_
        rw [hshown]
        rintro ⟨⟩
        exact hc rfl
      refine (hskipped.append (htoken.append (ih hks.2 hchain.2))).imp fun ts _ hts => ?_
      obtain ⟨_, _, rfl, rfl, _, us, rfl, ⟨t, rfl, ht⟩, hus⟩ := hts
      rw [List.nil_append, List.singleton_append, List.map_cons, ht, hus]

/-- The significant tokens of a text that is laid out are those it lays out. -/
theorem kind_significantTokens {text : String} (h : LaysOut ks text.toList)
    (hks : ∀ k ∈ ks, k.IsMark ∨ k.IsRun) (hchain : ks.IsChain fun k l => k.IsMark ∨ l.IsMark) :
    (significantTokens text).map Token.kind = ks :=
  (h.lexesTo hks hchain).significantTokens

end LaysOut

end CreateTable
