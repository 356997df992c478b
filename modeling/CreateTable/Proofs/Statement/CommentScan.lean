import CreateTable.Proofs.Printing.RoundTrip
import CreateTable.Proofs.Statement.WellFormed

/-!
# The search for a comment as a cut of the text

The search for the comment of a table runs backwards for the word, backwards for the parenthesis
and forwards for the quotes. Seen from its result it cuts the text once: around the comment, behind
the last word `comment`. There is one such cut at most, so the comment is described by the cut
alone, and a comment is found where it is written exactly if it is plain.

A column takes a comment between single quotes as well, but it does not read it alike. The comment
of a column is a token, in which quotes are doubled or escaped; the search stops at the first quote,
knows the last word `comment` only, and gives up at a closing parenthesis. So the two agree on the
plain texts, and on no other.

## Main definitions

* `Table.IsCommentCut`: the parts of a text around a comment.

## Main statements

* `Table.commentIn?_eq_some_iff_exists_isCommentCut`: the search finds the cuts.
* `Table.IsCommentCut.unique`: there is one cut at most.
* `Table.commentOf_scan`: the comment is what the cut is around, and it is empty without one.
* `Table.lexesTo_commented`: the text of a column with a comment is read as that column.
* `Table.ofText_comment_twice`: what a column and its table make of one raw text.
-/

namespace CreateTable

open Text

namespace Table

/-- The text `tail` is **cut around** the text `x` between quotes: `w` is the last word `comment` of
`tail`, no parenthesis is closed behind it, and the quotes are the first two behind it. -/
structure IsCommentCut (tail p w q x r : String) : Prop where
  tail_eq : tail = p ++ w ++ q ++ "'" ++ x ++ "'" ++ r
  sameWord_comment : sameWord w "comment" = true
  length_le : ∀ p' w' r', tail = p' ++ w' ++ r' → sameWord w' "comment" = true →
    p'.length ≤ p.length
  not_mem_paren : ')' ∉ (w ++ q ++ "'" ++ x ++ "'" ++ r).toList
  quote_not_mem_before : '\'' ∉ q.toList
  quote_not_mem : '\'' ∉ x.toList

/-- The search finds a text exactly if `tail` can be cut around it. -/
theorem commentIn?_eq_some_iff_exists_isCommentCut {tail x : String} :
    commentIn? tail.toList = some x.toList ↔ ∃ p w q r, IsCommentCut tail p w q x r := by
  have hword : "comment".toList ≠ [] := by decide
  rw [commentIn?_eq_some_iff]
  constructor
  · rintro ⟨p, w, q, r, htail, hw, hlast, hparen, hq, hx⟩
    refine ⟨String.ofList p, String.ofList w, String.ofList q, String.ofList r, ?_, ?_, ?_, ?_, ?_,
      hx⟩
    · exact String.toList_injective (by simpa using htail)
    · simpa [sameWord_iff] using hw
    · intro p' w' r' heq hw'
      have hparts : p ++ (w ++ (q ++ '\'' :: (x.toList ++ '\'' :: r)))
          = p'.toList ++ (w'.toList ++ r'.toList) := by
        rw [← htail, heq, String.toList_append, String.toList_append, List.append_assoc]
      have hle := (lastIndex?_tail_eq_none_iff hword hw).1 hlast _ _ _ hparts (sameWord_iff.1 hw')
      rwa [String.length_toList, ← String.length_ofList] at hle
    · simpa using hparen
    · simpa using hq
  · rintro ⟨p, w, q, r, htail, hw, hlast, hparen, hq, hx⟩
    have hlist : tail.toList
        = p.toList ++ (w.toList ++ (q.toList ++ '\'' :: (x.toList ++ '\'' :: r.toList))) := by
      simp [htail]
    refine ⟨p.toList, w.toList, q.toList, r.toList, hlist, sameWord_iff.1 hw, ?_, ?_, hq, hx⟩
    · refine (lastIndex?_tail_eq_none_iff (p := p.toList) hword (sameWord_iff.1 hw)).2 ?_
      intro p' w' r' heq hw'
      have htail' : tail = String.ofList p' ++ String.ofList w' ++ String.ofList r' :=
        String.toList_injective (by simp [hlist, heq])
      have hle := hlast _ _ _ htail' (by simpa [sameWord_iff] using hw')
      rwa [String.length_ofList, ← String.length_toList] at hle
    · simpa using hparen

/-- Two appends that agree, with a quote behind two parts that have none, agree in both parts. -/
theorem quote_append_inj {a b as bs : List Char} (ha : '\'' ∉ a) (hb : '\'' ∉ b)
    (h : a ++ '\'' :: as = b ++ '\'' :: bs) : a = b ∧ as = bs := by
  have hab : a = b := by
    rw [← (span_quote ha as).1, h, (span_quote hb bs).1]
  subst hab
  exact ⟨rfl, (List.cons.inj (List.append_cancel_left h)).2⟩

/-- A text can be cut around a comment in one way at most. -/
theorem IsCommentCut.unique {tail p w q x r p' w' q' x' r' : String}
    (h : IsCommentCut tail p w q x r) (h' : IsCommentCut tail p' w' q' x' r') :
    p = p' ∧ w = w' ∧ q = q' ∧ x = x' ∧ r = r' := by
  have hstart : p.toList.length = p'.toList.length := by
    -- each of the two words is the last
    have hle := h.length_le p' w' (q' ++ "'" ++ x' ++ "'" ++ r')
      (by simp [h'.tail_eq, String.append_assoc]) h'.sameWord_comment
    have hge := h'.length_le p w (q ++ "'" ++ x ++ "'" ++ r)
      (by simp [h.tail_eq, String.append_assoc]) h.sameWord_comment
    rw [String.length_toList, String.length_toList]
    omega
  have hlength : w.toList.length = w'.toList.length := by
    have hw := congrArg List.length (sameWord_iff.1 h.sameWord_comment)
    have hw' := congrArg List.length (sameWord_iff.1 h'.sameWord_comment)
    rw [length_foldCase] at hw hw'
    rw [hw, hw']
  have heq : p.toList ++ (w.toList ++ (q.toList ++ '\'' :: (x.toList ++ '\'' :: r.toList)))
      = p'.toList ++ (w'.toList ++ (q'.toList ++ '\'' :: (x'.toList ++ '\'' :: r'.toList))) := by
    have htail := congrArg String.toList (h.tail_eq.symm.trans h'.tail_eq)
    simpa using htail
  obtain ⟨hp, hbehind⟩ := List.append_inj heq hstart
  obtain ⟨hw, hquoted⟩ := List.append_inj hbehind hlength
  obtain ⟨hq, htext⟩ := quote_append_inj h.quote_not_mem_before h'.quote_not_mem_before hquoted
  obtain ⟨hx, hr⟩ := quote_append_inj h.quote_not_mem h'.quote_not_mem htext
  exact ⟨String.toList_injective hp, String.toList_injective hw, String.toList_injective hq,
    String.toList_injective hx, String.toList_injective hr⟩

/-- A comment that is not empty is the one that the search found. -/
theorem commentOf_eq_iff {tail x : String} (hx : x ≠ "") :
    commentOf tail = x ↔ commentIn? tail.toList = some x.toList := by
  rw [commentOf]
  constructor
  · rintro rfl
    cases h : commentIn? tail.toList with
    | none => exact absurd (by rw [h]; rfl) hx
    | some text => simp
  · intro h
    simp [h]

/-- A plain comment is found where it is written, whatever stands behind it that neither closes a
parenthesis nor has the word `comment`. -/
theorem IsPlainComment.commentOf_written {x rest : String} (hx : IsPlainComment x)
    (hrest : ')' ∉ rest.toList) (hnone : lastIndex? "comment".toList rest.toList = none) :
    commentOf (" COMMENT='" ++ x ++ "'" ++ rest) = x := by
  have hxnone : lastIndex? "comment".toList x.toList = none := by
    refine (lastIndex?_eq_none_iff (by decide)).2 fun p w r heq => hx.foldCase_ne w ⟨p, r, ?_⟩
    rw [heq, List.append_assoc]
  have hfound := commentIn?_written hx.not_mem_quote hx.not_mem_paren hxnone hrest hnone
  have hwritten : (" COMMENT='" ++ x ++ "'" ++ rest).toList
      = " COMMENT='".toList ++ (x.toList ++ '\'' :: rest.toList) := by
    simp
  rw [commentOf, hwritten, hfound]
  simp

/-- The search for a comment is a cut of the text. A text that is not empty is the comment exactly
if the text can be cut around it, the cut is the only one, and without a cut there is no comment. So
what is written as a comment is found exactly if it is empty or plain. -/
theorem commentOf_scan :
    (∀ tail x : String, x ≠ "" →
      (commentOf tail = x ↔ ∃ p w q r, IsCommentCut tail p w q x r)) ∧
    (∀ tail p w q x r p' w' q' x' r' : String, IsCommentCut tail p w q x r →
      IsCommentCut tail p' w' q' x' r' → p = p' ∧ w = w' ∧ q = q' ∧ x = x' ∧ r = r') ∧
    (∀ tail : String, (¬ ∃ p w q x r, x ≠ "" ∧ IsCommentCut tail p w q x r) →
      commentOf tail = "") ∧
    ∀ x : String, commentOf (" COMMENT='" ++ x ++ "';") = x ↔
      x = "" ∨ '\'' ∉ x.toList ∧ ')' ∉ x.toList ∧
        ∀ p w r, x = p ++ w ++ r → sameWord w "comment" = false := by
  refine ⟨fun tail x hx => ?_, fun tail p w q x r p' w' q' x' r' h h' => h.unique h',
    fun tail h => ?_, fun x => ?_⟩
  · rw [commentOf_eq_iff hx, commentIn?_eq_some_iff_exists_isCommentCut]
  · by_contra hne
    obtain ⟨p, w, q, r, hcut⟩ := commentIn?_eq_some_iff_exists_isCommentCut.1
      ((commentOf_eq_iff hne).1 rfl)
    exact h ⟨p, w, q, _, r, hne, hcut⟩
  · constructor
    · intro h
      have hplain := isPlainComment_commentOf (" COMMENT='" ++ x ++ "';")
      rw [h] at hplain
      refine .inr ⟨hplain.not_mem_quote, hplain.not_mem_paren, ?_⟩
      rintro p w r rfl
      rw [← Bool.not_eq_true, sameWord_iff]
      exact hplain.foldCase_ne _ ⟨p.toList, r.toList, by simp⟩
    · rintro (rfl | ⟨hquote, hparen, hword⟩)
      · decide
      · have hplain : IsPlainComment x := by
          refine ⟨hquote, hparen, ?_⟩
          rintro w ⟨p, r, heq⟩ hw
          have hfalse := hword (String.ofList p) (String.ofList w) (String.ofList r)
            (String.toList_injective (by simp [← heq]))
          rw [← Bool.not_eq_true, sameWord_iff, String.toList_ofList] at hfalse
          exact hfalse hw
        have hfound : commentOf (" COMMENT='" ++ x ++ "'" ++ ";") = x :=
          hplain.commentOf_written (by decide) (by decide)
        have hend : " COMMENT='" ++ x ++ "';" = " COMMENT='" ++ x ++ "'" ++ ";" :=
          String.toList_injective (by simp)
        rw [hend, hfound]

/-- The second of two comments, in front of another quoted text. -/
theorem commentOf_scan_second :
    "b" ≠ "" ∧ commentOf " COMMENT='a' COMMENT = 'b' ROW_FORMAT='c'" = "b" ∧
      ∃ p w q r, IsCommentCut " COMMENT='a' COMMENT = 'b' ROW_FORMAT='c'" p w q "b" r := by
  have h : commentOf " COMMENT='a' COMMENT = 'b' ROW_FORMAT='c'" = "b" := by decide +kernel
  exact ⟨by decide, h, (commentOf_scan.1 _ _ (by decide)).1 h⟩

end Table

/-! ### One text as the comment of a column and of its table -/

/-- A raw text that is one string between quotes may stand between quotes. -/
theorem IsRawText.isQuotedBody {text : String} (h : IsRawText text) :
    IsQuotedBody '\'' true text.toList := by
  have hmem : ⟨.quoted .single text, .start⟩ ∈ significantTokens ("'" ++ text ++ "'") := by
    rw [significantTokens, h]
    simp [Cursor.significant, Token.isTrivia, Kind.isTrivia]
  exact isWritten_of_mem_significantTokens hmem

namespace Table

/-- The column `a` of type `int` with a comment. -/
def commented (comment : String) : Column :=
  ⟨"a", ⟨.int, none, none⟩, [], none, comment⟩

/-- In front of a closing parenthesis the text of a column with a comment is read as that
column. -/
theorem lexesTo_commented {x : String} (hx : IsQuotedBody '\'' true x.toList) (tail : List Char) :
    LexesTo (fun s => (Item.column (commented x)).IsReadFrom s)
      ("a int COMMENT '".toList ++ (x.toList ++ ['\''])) (')' :: tail) := by
  have hparen : EndsWord ')' := endsWord_of_mem (by simp)
  have hblank : EndsWord ' ' := endsWord_of_mem (by simp)
  have hcomment := (Column.lexesTo_keyword (w := "comment") (v := "COMMENT") rfl rfl _).append
    ((lexesTo_literal hx hparen tail).blank (.inl rfl))
  have htype := (Column.lexesTo_keyword (w := "int") (v := "int") rfl rfl _).append hcomment
  have hname := (lexesTo_word (w := "a") rfl hblank _).append htype
  refine hname.imp fun ts hts hsplit => ?_
  obtain ⟨_, _, rfl, ⟨n, rfl, hn⟩, _, _, rfl, ⟨u, rfl, hu⟩, _, _, rfl, ⟨c, rfl, hc⟩, v, rfl, hv⟩ :=
    hsplit
  have hspelled : (commented x).IsSpelledBy (n :: u :: ([] ++ ([] ++ ([] ++ [c, v])))) :=
    .mk (by rw [hn]; rfl) hu .absent .nil .absent (.present (.value hc (.literal hv))) rfl
  exact .column (hspelled.opensAt hts) (hspelled.runFrom hts)

/-- A column and its table that are given one raw text as their comments. The statement is always
read and the column has the text as its comment, but the table has it exactly if the text is
plain. -/
theorem ofText_comment_twice {x : String} (hx : IsRawText x) :
    ∃ t, Table.ofText
        ("CREATE TABLE t (a int COMMENT '" ++ x ++ "') COMMENT='" ++ x ++ "'") {} = .ok t ∧
      t.name = ⟨none, "t"⟩ ∧ t.columns = [⟨"a", ⟨.int, none, none⟩, [], none, x⟩] ∧ t.keys = [] ∧
      (t.comment = x ↔ IsPlainComment x) := by
  have hname (rest : List Char) (hrest : Delimited rest) :
      LexesTo (QualifiedName.mk none "t").IsSpelledBy ['t'] rest :=
    lexesTo_name (q := ⟨none, "t"⟩) nofun (by decide) hrest
  have hbody := (lexesTo_commented hx.isQuotedBody (" COMMENT='" ++ x ++ "'").toList).imp
    fun b hb hread => isReadFrom_pieces hb (.single b) (.cons hread .nil)
  have hread := ofText_of_lexesTo (lexesTo_statement hname hbody)
  have htext : "CREATE TABLE t (a int COMMENT '" ++ x ++ "') COMMENT='" ++ x ++ "'"
      = String.ofList ("CREATE TABLE".toList ++ ' ' :: (['t'] ++ ' ' :: '(' ::
          ("a int COMMENT '".toList ++ (x.toList ++ ['\'']))) ++
            ')' :: (" COMMENT='" ++ x ++ "'").toList) :=
    String.toList_injective (by simp)
  rw [← htext, String.ofList_toList] at hread
  refine ⟨_, hread, rfl, rfl, rfl, ?_⟩
  constructor
  · intro h
    rw [← h]
    exact isPlainComment_commentOf _
  · intro hplain
    have hfound : commentOf (" COMMENT='" ++ x ++ "'" ++ "") = x :=
      hplain.commentOf_written (by decide) (by decide)
    rwa [String.append_empty] at hfound

/-- A plain text with a backslash, which escapes a character in the column. -/
theorem ofText_comment_twice_backslash :
    IsRawText "C:\\data" ∧ ∃ t, Table.ofText
        ("CREATE TABLE t (a int COMMENT '" ++ "C:\\data" ++ "') COMMENT='" ++ "C:\\data" ++ "'") {}
          = .ok t ∧
      t.name = ⟨none, "t"⟩ ∧ t.columns = [⟨"a", ⟨.int, none, none⟩, [], none, "C:\\data"⟩] ∧
      t.keys = [] ∧ (t.comment = "C:\\data" ↔ IsPlainComment "C:\\data") := by
  have h : IsRawText "C:\\data" := by decide +kernel
  exact ⟨h, ofText_comment_twice h⟩

/-- A closing parenthesis is a comment of the column, and the table has none. -/
theorem ofText_comment_twice_ne :
    IsRawText ")" ∧ ∃ t c, Table.ofText
        ("CREATE TABLE t (a int COMMENT '" ++ ")" ++ "') COMMENT='" ++ ")" ++ "'") {} = .ok t ∧
      t.columns = [c] ∧ c.comment = ")" ∧ t.comment = "" ∧ t.comment ≠ c.comment :=
  ⟨by decide +kernel, ⟨⟨none, "t"⟩, [commented ")"], [], ""⟩, commented ")", by decide +kernel, rfl,
    rfl, rfl, by decide⟩

end Table

end CreateTable
