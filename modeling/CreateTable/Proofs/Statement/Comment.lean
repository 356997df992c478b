import CreateTable.Proofs.Text.Bytes
import CreateTable.Proofs.Text.Search
import CreateTable.Proofs.Text.Slice
import CreateTable.Table
import Mathlib.Data.List.TakeWhile

/-!
# The comment of a statement

The comment of a table stands between the first two quotes behind the last word `comment`. A text
without quotes, without closing parentheses and without that word is found where it is written as
a comment, if neither a closing parenthesis nor the word follows it.

The comment is sought by byte offsets: that of the last word `comment` among the bytes of the text,
that of the last closing parenthesis, and those of two quotes. The text is sliced at each of them
but the parenthesis. No slice fails, because a word and a quote start at a character and each takes
as many bytes as it has characters.

## Main definitions

* `Table.commentBySlices?`: the comment in a text, with `none` where a slice fails.

## Main statements

* `Table.commentIn?_eq_some_iff`: where the comment stands in the text behind a statement.
* `Table.plain_of_commentIn?`: what no comment contains.
* `Table.commentIn?_written`: a comment of that kind is found where it is written.
* `Table.commentOf_renderComment`: a comment that was found is found again when it is printed.
* `Table.commentBySlices?_eq`: no slice fails, and the comment is found.
-/

namespace CreateTable.Table

open Text

/-- In front of the first quote the text is taken, and the rest begins with the quote. -/
theorem span_quote {p : List Char} (hp : '\'' ∉ p) (rest : List Char) :
    (p ++ '\'' :: rest).takeWhile (· ≠ '\'') = p ∧
      (p ++ '\'' :: rest).dropWhile (· ≠ '\'') = '\'' :: rest := by
  have hne : ∀ c ∈ p, decide (c ≠ '\'') = true := by
    intro c hc
    rw [decide_eq_true_eq]
    rintro rfl
    exact hp hc
  rw [List.takeWhile_append_of_pos hne, List.dropWhile_append_of_pos hne]
  simp

/-- The text between quotes is what stands between the first two quotes. -/
theorem betweenQuotes?_eq_some_iff {cs text : List Char} :
    betweenQuotes? cs = some text ↔
      ∃ p rest, cs = p ++ '\'' :: (text ++ '\'' :: rest) ∧ '\'' ∉ p ∧ '\'' ∉ text := by
  constructor
  · intro h
    by_cases hcs : '\'' ∈ cs
    · obtain ⟨p, behind, rfl, hp⟩ := List.eq_append_cons_of_mem hcs
      rw [betweenQuotes?, (span_quote hp behind).2] at h
      simp only [Option.ite_none_right_eq_some, List.contains_iff_mem] at h
      obtain ⟨hbehind, heq⟩ := h
      obtain ⟨body, rest, rfl, hbody⟩ := List.eq_append_cons_of_mem hbehind
      rw [(span_quote hbody rest).1] at heq
      obtain rfl := Option.some.inj heq
      exact ⟨p, rest, rfl, hp, hbody⟩
    · have hnil : cs.dropWhile (· ≠ '\'') = [] := by
        rw [List.dropWhile_eq_nil_iff]
        intro c hc
        rw [decide_eq_true_eq]
        rintro rfl
        exact hcs hc
      rw [betweenQuotes?, hnil] at h
      cases h
  · rintro ⟨p, rest, rfl, hp, htext⟩
    rw [betweenQuotes?, (span_quote hp _).2]
    simp only [(span_quote htext rest).1]
    simp

/-- A character that is not in the word `comment` is not in the word in other letter cases,
either. -/
theorem not_mem_of_foldCase_eq {w : List Char} {d : Char}
    (hw : foldCase w = foldCase "comment".toList)
    (hd : d.toLower ∉ foldCase "comment".toList) : d ∉ w := by
  intro hmem
  rw [← hw] at hd
  exact hd (List.mem_map_of_mem hmem)

/-- The comment stands between the first two quotes behind the last word `comment`, behind which
no parenthesis is closed. -/
theorem commentIn?_eq_some_iff {tail text : List Char} :
    commentIn? tail = some text ↔
      ∃ p w q rest, tail = p ++ (w ++ (q ++ '\'' :: (text ++ '\'' :: rest))) ∧
        foldCase w = foldCase "comment".toList ∧
        lastIndex? "comment".toList (w ++ (q ++ '\'' :: (text ++ '\'' :: rest))).tail = none ∧
        ')' ∉ w ++ (q ++ '\'' :: (text ++ '\'' :: rest)) ∧ '\'' ∉ q ∧ '\'' ∉ text := by
  have hword : "comment".toList ≠ [] := by decide
  rw [commentIn?]
  simp only [Option.bind_eq_bind, Option.bind_eq_some_iff, Option.ite_none_left_eq_some,
    List.contains_iff_mem, betweenQuotes?_eq_some_iff]
  constructor
  · rintro ⟨n, hn, clause, hclause, hparen, a, rest, heq, ha, htext⟩
    obtain ⟨p, w, behind, rfl, rfl, hw, hnone⟩ := (lastIndex?_eq_some_iff hword).1 hn
    rw [dropBytes?_append] at hclause
    obtain rfl := Option.some.inj hclause
    -- the quotes stand behind the word, which has none
    have hquote : '\'' ∉ w := not_mem_of_foldCase_eq hw (by decide)
    rcases List.append_eq_append_iff.1 heq with ⟨q, rfl, rfl⟩ | ⟨e, rfl, he⟩
    · exact ⟨p, w, q, rest, rfl, hw, hnone, hparen, fun h => ha (List.mem_append_right w h), htext⟩
    · cases e with
      | nil =>
          rw [List.nil_append] at he
          subst he
          exact ⟨p, a, [], rest, by simp, by simpa using hw, by simpa using hnone,
            by simpa using hparen, by simp, htext⟩
      | cons c e =>
          obtain rfl : '\'' = c := (List.cons.inj he).1
          exact absurd (by simp) hquote
  · rintro ⟨p, w, q, rest, rfl, hw, hnone, hparen, hq, htext⟩
    refine ⟨byteLength p, (lastIndex?_eq_some_iff hword).2 ⟨p, w, _, rfl, rfl, hw, hnone⟩, _,
      dropBytes?_append _ _, hparen, w ++ q, rest, by simp, ?_, htext⟩
    rw [List.mem_append, not_or]
    exact ⟨not_mem_of_foldCase_eq hw (by decide), hq⟩

/-- A comment that was found has no quote and no closing parenthesis, and the word `comment` does
not occur in it. -/
theorem plain_of_commentIn? {tail text : List Char} (h : commentIn? tail = some text) :
    '\'' ∉ text ∧ ')' ∉ text ∧ lastIndex? "comment".toList text = none := by
  have hword : "comment".toList ≠ [] := by decide
  obtain ⟨p, w, q, rest, -, hw, hnone, hparen, -, hquote⟩ := commentIn?_eq_some_iff.1 h
  refine ⟨hquote, fun hmem => hparen (by simp [hmem]), lastIndex?_eq_none_of_infix hword ?_ hnone⟩
  obtain ⟨c, w, rfl⟩ := List.exists_cons_of_ne_nil (ne_nil_of_foldCase_eq hword hw)
  exact ⟨w ++ (q ++ ['\'']), '\'' :: rest, by simp⟩

/-- Behind `COMMENT=` a text in quotes is found if nothing in it ends the search elsewhere, and
nothing behind it does. -/
theorem commentIn?_written {text rest : List Char} (hquote : '\'' ∉ text) (hparen : ')' ∉ text)
    (hnone : lastIndex? "comment".toList text = none) (hrestParen : ')' ∉ rest)
    (hrestNone : lastIndex? "comment".toList rest = none) :
    commentIn? (" COMMENT='".toList ++ (text ++ '\'' :: rest)) = some text := by
  have hword : "comment".toList ≠ [] := by decide
  have hend : lastIndex? "comment".toList (text ++ '\'' :: rest) = none :=
    lastIndex?_append_cons_eq_none hword (by decide) hnone hrestNone
  have hlast : lastIndex? "comment".toList ("OMMENT=".toList ++ '\'' :: (text ++ '\'' :: rest))
      = none :=
    lastIndex?_append_cons_eq_none hword (by decide) (by decide) hend
  refine commentIn?_eq_some_iff.2
    ⟨[' '], "COMMENT".toList, ['='], rest, rfl, by decide, hlast, ?_, by decide, hquote⟩
  simp [hparen, hrestParen]

/-- A comment that was found is found again when it is printed. -/
theorem commentOf_renderComment (tail : String) :
    commentOf (renderComment (commentOf tail) ++ ";") = commentOf tail := by
  cases h : commentIn? tail.toList with
  | none =>
      have hempty : commentOf tail = "" := by rw [commentOf, h]; rfl
      rw [hempty]
      decide
  | some text =>
      have htext : commentOf tail = String.ofList text := by rw [commentOf, h]; rfl
      rw [htext]
      by_cases hnil : text = []
      · subst hnil
        decide
      obtain ⟨hquote, hparen, hnone⟩ := plain_of_commentIn? h
      have hprinted : (renderComment (String.ofList text) ++ ";").toList
          = " COMMENT='".toList ++ (text ++ '\'' :: [';']) := by
        rw [renderComment, if_neg (by simpa using hnil)]
        simp
      rw [commentOf, hprinted, commentIn?_written hquote hparen hnone (by decide) (by decide)]
      rfl

/-! ### The slices of the search -/

/-- The text between the first two quotes of `clause`, empty if there are none. The answer is `none`
where a slice fails. -/
def betweenQuotesBySlices? (clause : List Char) : Option (List Char) :=
  match firstOffset? '\'' clause with
  | none => some []
  | some opening => do
    let text ← dropBytes? (opening + 1) clause
    match firstOffset? '\'' text with
    | none => some []
    | some closing => takeBytes? closing text

/-- The comment in the text `tail` behind the closing parenthesis, empty if there is none. The
answer is `none` where a slice fails. -/
def commentBySlices? (tail : List Char) : Option (List Char) :=
  match lastWindow? (utf8Bytes "comment".toList) (utf8Bytes tail) with
  | none => some []
  | some keyword =>
    if (lastOffset? ')' tail).any (keyword < ·) then some []
    else (dropBytes? keyword tail).bind betweenQuotesBySlices?

/-- The slices between the quotes lie within the clause, and are what stands between them. -/
theorem betweenQuotesBySlices?_eq (clause : List Char) :
    betweenQuotesBySlices? clause = some ((betweenQuotes? clause).getD []) := by
  rw [betweenQuotesBySlices?]
  by_cases hclause : '\'' ∈ clause
  · obtain ⟨p, behind, rfl, hp⟩ := List.eq_append_cons_of_mem hclause
    rw [firstOffset?_append_cons hp, betweenQuotes?, (span_quote hp behind).2]
    simp only [dropBytes?_append_cons (c := '\'') rfl, Option.bind_eq_bind, Option.bind_some]
    by_cases hbehind : '\'' ∈ behind
    · obtain ⟨text, rest, rfl, htext⟩ := List.eq_append_cons_of_mem hbehind
      rw [firstOffset?_append_cons htext, (span_quote htext rest).1]
      simp
    · simp [firstOffset?_eq_none hbehind, hbehind]
  · have hnone : betweenQuotes? clause = none := by
      refine Option.eq_none_iff_forall_ne_some.2 fun text htext => ?_
      obtain ⟨p, rest, rfl, -⟩ := betweenQuotes?_eq_some_iff.1 htext
      exact hclause (by simp)
    rw [firstOffset?_eq_none hclause, hnone]
    rfl

/-- The search for a comment slices the text at borders of characters only, and finds the
comment. -/
theorem commentBySlices?_eq (tail : List Char) :
    commentBySlices? tail = some ((commentIn? tail).getD []) := by
  have hword : "comment".toList ≠ [] := by decide
  rw [commentBySlices?, lastWindow?_utf8Bytes, commentIn?]
  cases hlast : lastIndex? "comment".toList tail with
  | none => rfl
  | some keyword =>
      obtain ⟨p, w, rest, rfl, rfl, hw, -⟩ := (lastIndex?_eq_some_iff hword).1 hlast
      have hhead : (w ++ rest).head? ≠ some ')' := by
        obtain ⟨c, w, rfl⟩ := List.exists_cons_of_ne_nil (ne_nil_of_foldCase_eq hword hw)
        have hparen : ')' ∉ c :: w := not_mem_of_foldCase_eq hw (by decide)
        rintro ⟨⟩
        exact hparen List.mem_cons_self
      simp only [any_lastOffset?_append p (w ++ rest) hhead, dropBytes?_append,
        Option.bind_eq_bind, Option.bind_some, betweenQuotesBySlices?_eq]
      split <;> rfl

end CreateTable.Table
