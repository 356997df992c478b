import CreateTable.Proofs.Grammar.Phrase
import CreateTable.Proofs.Grammar.Progress
import CreateTable.Proofs.Printing.Spacing
import CreateTable.Proofs.Statement.WellFormed

/-!
# The step that reads a type

The parameters of a type are read completely or not at all. Behind the keyword a step takes the
parentheses with one or two rows of digits, whatever blanks and comments stand between their tokens;
and where anything is missing there, it takes the keyword alone, however much of the parentheses
stands behind it.

## Main definitions

* `DataType.parameterKinds`: the tokens of the parameters.

## Main statements

* `DataType.runFrom_rule_eq`: where the rule of types stops.
* `Session.step_dataType_all_or_nothing`: what the step takes, and its answer.
-/

namespace CreateTable

open Text Identifier

namespace DataType

/-- The tokens of the length and the scale, with the marks around them. -/
def parameterKinds : Option String → Option String → List Kind
  | some length, some scale =>
    [.leftParen, .number length false, .comma, .number scale false, .rightParen]
  | some length, none => [.leftParen, .number length false, .rightParen]
  | none, _ => []

variable {t : DataType} {name : TypeName} {length scale : Option String}

/-- The tokens of a well-formed type can be laid out with or without gaps. -/
theorem IsWellFormed.isMark_or_isRun (h : t.IsWellFormed) :
    ∀ k ∈ parameterKinds t.length t.scale, k.IsMark ∨ k.IsRun := by
  obtain ⟨name, length, scale⟩ := t
  obtain ⟨-, hlength, hscale⟩ := h
  rcases length with _ | length
  · exact nofun
  have hrun : Kind.IsRun (.number length false) :=
    .digits (hlength length rfl).1 (hlength length rfl).2
  rcases scale with _ | scale
  · simp [parameterKinds, Kind.IsMark, hrun]
  · have hrun' : Kind.IsRun (.number scale false) :=
      .digits (hscale scale rfl).1 (hscale scale rfl).2
    simp [parameterKinds, Kind.IsMark, hrun, hrun']

/-- Of two tokens of a type that follow each other one is a mark. -/
theorem isChain_parameterKinds (w : String) (length scale : Option String) :
    (Kind.word w :: parameterKinds length scale).IsChain fun k l => k.IsMark ∨ l.IsMark := by
  rcases length with _ | length <;> rcases scale with _ | scale <;>
    simp [parameterKinds, Kind.IsMark]

/-- Tokens of these kinds are parameters. -/
theorem IsWellFormed.hasParameters {ps : Cursor} (h : t.IsWellFormed)
    (hps : ps.map Token.kind = parameterKinds t.length t.scale) :
    HasParameters t.length t.scale ps := by
  obtain ⟨name, length, scale⟩ := t
  obtain ⟨hsome, hlength, hscale⟩ := h
  rcases length with _ | length
  · cases scale with
    | none =>
        obtain rfl := List.map_eq_nil_iff.1 hps
        exact .absent
    | some scale =>
        have hnone := hsome rfl
        cases hnone
  rcases scale with _ | scale
  · simp only [parameterKinds, List.map_eq_cons_iff, List.map_eq_nil_iff] at hps
    obtain ⟨l, _, rfl, hl, d, _, rfl, hd, r, _, rfl, hr, rfl⟩ := hps
    exact .one hl ⟨false, hd, hlength length rfl⟩ hr
  · simp only [parameterKinds, List.map_eq_cons_iff, List.map_eq_nil_iff] at hps
    obtain ⟨l, _, rfl, hl, d, _, rfl, hd, m, _, rfl, hm, e, _, rfl, he, r, _, rfl, hr, rfl⟩ := hps
    exact .two hl ⟨false, hd, hlength length rfl⟩ hm ⟨false, he, hscale scale rfl⟩ hr

/-- A type is read where its keyword and its parameters are the next significant tokens, and the
rule stops behind them. -/
theorem runFrom_rule_eq {c : Cursor} {u : Token} {ps rest : Cursor} (hc : c.skipTrivia = c)
    (hsplit : c.significant = u :: (ps ++ rest)) (hu : u.kind.isWord name.keyword = true)
    (h : HasParameters length scale ps)
    (hrest : length = none → (lengthOnly <|> lengthAndScale).run rest = none) :
    rule.runFrom c = (.ok ⟨name, length, scale⟩, Cursor.advance^[ps.length + 1] c) := by
  have hbare := c.isBare_significant
  obtain ⟨hrule, htrimmed⟩ := rule_significant hc
  rw [hsplit] at hbare hrule
  rw [h.runFrom_rule hu hbare hrest] at hrule
  obtain ⟨hanswer, hstop⟩ := Prod.mk.inj hrule
  have hrun : rule.runFrom c = (.ok ⟨name, length, scale⟩, (rule.runFrom c).2) :=
    Prod.ext hanswer.symm rfl
  have hbehind : (rule.runFrom c).2.significant = c.significant.drop (ps.length + 1) := by
    rw [← hstop, hsplit, List.drop_succ_cons, List.drop_left]
  rw [hrun, ← Cursor.eq_iterate_advance hc htrimmed (rule_takes.ok hc hrun).suffix hbehind]

end DataType

namespace Session

variable {s : Session} {name : TypeName} {length scale : Option String}

/-- The step takes the keyword and the parameters that stand behind it. -/
theorem step_dataType_eq {u : Token} {ps rest : Cursor} (hs : s.cursor.skipTrivia = s.cursor)
    (hsplit : s.cursor.significant = u :: (ps ++ rest)) (hu : u.kind.isWord name.keyword = true)
    (h : DataType.HasParameters length scale ps)
    (hrest : length = none →
      (DataType.lengthOnly <|> DataType.lengthAndScale).run rest = none) :
    s.step .dataType = (.dataType (.ok ⟨name, length, scale⟩),
      { s with cursor := Cursor.advance^[ps.length + 1] s.cursor }) := by
  rw [step, run, DataType.runFrom_rule_eq hs hsplit hu h hrest]
  rfl

/-- Where no parameters stand behind the keyword, the step takes the keyword alone. -/
theorem step_dataType_keyword {u : Token} {rest : Cursor} (hs : s.cursor.skipTrivia = s.cursor)
    (hsplit : s.cursor.significant = u :: rest) (hu : u.kind.isWord name.keyword = true)
    (hnone : ∀ length scale ps tail, DataType.HasParameters (some length) scale ps →
      rest ≠ ps ++ tail) :
    s.step .dataType = (.dataType (.ok ⟨name, none, none⟩),
      { s with cursor := s.cursor.advance }) := by
  have hbare := s.cursor.isBare_significant
  rw [hsplit, Cursor.isBare_cons] at hbare
  refine step_dataType_eq hs hsplit hu .absent fun _ => ?_
  refine Option.eq_none_iff_forall_ne_some.2 fun ⟨⟨length, scale⟩, tail⟩ hrun => ?_
  obtain ⟨ps, hrest, hps⟩ := DataType.exists_hasParameters hbare.2 hrun
  exact hnone length scale ps tail hps hrest

/-- A type that is the whole of a text is read to the end, with gaps between any two tokens. -/
theorem step_dataType_of_laysOut {text w : String} (options : Options)
    (hw : sameWord name.keyword w = true)
    (hformed : (⟨name, length, scale⟩ : DataType).IsWellFormed)
    (h : LaysOut (.word w :: DataType.parameterKinds length scale) text.toList) :
    ∃ s', (ofText text options).step .dataType = (.dataType (.ok ⟨name, length, scale⟩), s') ∧
      s'.atEnd = true := by
  have hplain : isPlain w = true :=
    (isPlain_eq_of_sameWord hw).symm.trans (DataType.isPlain_keyword name)
  have hkinds : ∀ k ∈ Kind.word w :: DataType.parameterKinds length scale, k.IsMark ∨ k.IsRun :=
    List.forall_mem_cons.2 ⟨.inr (.word hplain), hformed.isMark_or_isRun⟩
  have htokens := h.kind_significantTokens hkinds
    (DataType.isChain_parameterKinds w length scale)
  obtain ⟨u, ps, hsplit, hu, hps⟩ := List.map_eq_cons_iff.1 htokens
  rw [← ofText_cursor_significant text options, ← List.append_nil ps] at hsplit
  have hstart := ofText_cursor_trimmed text options
  have hword : u.kind.isWord name.keyword = true := by rwa [hu]
  refine ⟨_, step_dataType_eq hstart hsplit hword (hformed.hasParameters hps) fun _ => rfl, ?_⟩
  have htrimmed := Cursor.iterate_advance_trimmed hstart (ps.length + 1)
  have hlast := Cursor.significant_iterate_advance hstart (ps.length + 1)
  rw [hsplit, List.drop_succ_cons, List.drop_left, Cursor.significant_eq_nil_iff htrimmed] at hlast
  rw [atEnd, hlast]
  rfl

/-- **Parameters are read completely or not at all.** On a text that lays out the keyword of a type
in any letter case and, in parentheses, rows of digits for its length or for its length and its
scale, the step that reads a type comes to the end of the text and answers with the digits as they
are written. And wherever a session stands on the keyword of a type among any tokens: if the tokens
behind it begin with parameters, the step takes them; if not, it answers with the keyword alone and
stops at the significant token behind it. -/
theorem step_dataType_all_or_nothing (name : TypeName) :
    (∀ (text : String) (options : Options) (w : String) (length scale : Option String),
      sameWord name.keyword w = true → (⟨name, length, scale⟩ : DataType).IsWellFormed →
      LaysOut (.word w :: DataType.parameterKinds length scale) text.toList →
        ∃ s', (ofText text options).step .dataType
          = (.dataType (.ok ⟨name, length, scale⟩), s') ∧ s'.atEnd = true) ∧
    ∀ (s : Session) (u : Token) (rest : Cursor), s.cursor = u :: rest →
      u.kind.isWord name.keyword = true →
      (∀ length scale ps tail, rest.significant = ps ++ tail →
        DataType.HasParameters (some length) scale ps →
          s.step .dataType = (.dataType (.ok ⟨name, some length, scale⟩),
            { s with cursor := Cursor.advance^[ps.length + 1] s.cursor })) ∧
      ((∀ length scale ps tail, DataType.HasParameters (some length) scale ps →
          rest.significant ≠ ps ++ tail) →
        s.step .dataType = (.dataType (.ok ⟨name, none, none⟩),
            { s with cursor := s.cursor.advance }) ∧
          s.cursor.advance.significant = rest.significant ∧
          s.cursor.advance.head? = rest.significant.head?) := by
  refine ⟨fun text options w length scale => step_dataType_of_laysOut options,
    fun s u rest hcursor hu => ?_⟩
  have hsignificant : u.isTrivia = false := Kind.not_isTrivia_of_isWord hu
  have hs : s.cursor.skipTrivia = s.cursor := by
    rw [hcursor]
    exact Cursor.trimmed_of_head? fun t ht => Option.some.inj ht ▸ hsignificant
  have hsplit : s.cursor.significant = u :: rest.significant := by
    rw [hcursor]
    exact List.filter_cons_of_pos (by simp [hsignificant])
  refine ⟨fun length scale ps tail hrest hps => ?_, fun hnone => ⟨?_, ?_, ?_⟩⟩
  · rw [hrest] at hsplit
    exact step_dataType_eq hs hsplit hu hps nofun
  · exact step_dataType_keyword hs hsplit hu hnone
  · rw [Cursor.significant_advance_eq hs, hsplit, List.tail_cons]
  · have hadvance : s.cursor.advance.skipTrivia = s.cursor.advance := Cursor.skipTrivia_skipTrivia _
    rw [Cursor.head?_eq_peek hadvance, Cursor.peek_eq, Cursor.significant_advance_eq hs, hsplit,
      List.tail_cons, List.head?_eq_getElem?]

/-- A length and a scale with leading zeros between blanks and comments; and a length that a comma
follows, but no closing parenthesis. -/
theorem step_dataType_all_or_nothing_decimal :
    (∃ s', (ofText "\tDECIMAL/*(*/( 007--c\r\n,02\r\n)#" {}).step .dataType
      = (.dataType (.ok ⟨.decimal, some "007", some "02"⟩), s') ∧ s'.atEnd = true) ∧
    (ofText "int (10 /*)*/, 5" {}).step .dataType = (.dataType (.ok ⟨.int, none, none⟩),
      { ofText "int (10 /*)*/, 5" {} with
        cursor := (ofText "int (10 /*)*/, 5" {}).cursor.advance }) ∧
    (ofText "int (10 /*)*/, 5" {}).cursor.advance.head? = some ⟨.leftParen, ⟨1, 5⟩⟩ := by
  refine ⟨?_, ?_⟩
  · have hgap : IsGap ['\r', '\n'] := .blank (by simp) (.blank (by simp) .nil)
    have hline : IsGap (['-', '-'] ++ (['c', '\r'] ++ '\n' :: [])) := .line (by simp) (by simp) .nil
    have hblock : IsGap ('/' :: '*' :: (['('] ++ '*' :: '/' :: [])) := .block (by decide) .nil
    have hlast : IsLastGap ([] ++ (['#'] ++ [])) := .line .nil (by simp) (by simp)
    have hlays : LaysOut (.word "DECIMAL" :: DataType.parameterKinds (some "007") (some "02")) _ :=
      .cons (.blank (c := '\t') (by simp) .nil) <| .cons hblock <|
        .cons (.blank (c := ' ') (by simp) .nil) <| .cons hline <| .cons .nil <| .cons hgap <|
        .nil hlast
    refine (step_dataType_all_or_nothing .decimal).1 "\tDECIMAL/*(*/( 007--c\r\n,02\r\n)#" {}
      "DECIMAL" (some "007") (some "02") (by decide) ⟨fun _ => rfl, ?_, ?_⟩ hlays
    · rintro _ ⟨⟩
      exact ⟨by decide, by simp⟩
    · rintro _ ⟨⟩
      exact ⟨by decide, by simp⟩
  · let behind : Cursor := [⟨.blank, ⟨1, 4⟩⟩, ⟨.leftParen, ⟨1, 5⟩⟩, ⟨.number "10" false, ⟨1, 6⟩⟩,
      ⟨.blank, ⟨1, 8⟩⟩, ⟨.comment, ⟨1, 9⟩⟩, ⟨.comma, ⟨1, 14⟩⟩, ⟨.blank, ⟨1, 15⟩⟩,
      ⟨.number "5" false, ⟨1, 16⟩⟩]
    have hcursor : (ofText "int (10 /*)*/, 5" {}).cursor = ⟨.word "int", ⟨1, 1⟩⟩ :: behind := by
      decide +kernel
    have hnone : ∀ length scale ps tail, DataType.HasParameters (some length) scale ps →
        behind.significant ≠ ps ++ tail := by
      intro length scale ps tail hps hrest
      cases hps with
      | @one _ _ r _ _ _ hr =>
          have hthird : (⟨.comma, ⟨1, 14⟩⟩ : Token) = r :=
            (List.cons.inj (List.cons.inj (List.cons.inj hrest).2).2).1
          rw [← hthird] at hr
          cases hr
      | two =>
          have hlength := congrArg List.length hrest
          simp [behind, Cursor.significant, Token.isTrivia, Kind.isTrivia] at hlength
    obtain ⟨hstep, -, hhead⟩ :=
      ((step_dataType_all_or_nothing .int).2 _ _ _ hcursor (by decide)).2 hnone
    exact ⟨hstep, hhead⟩

end Session

end CreateTable
