import CreateTable.Proofs.Key.Clause
import CreateTable.Proofs.Printing.Key
import CreateTable.Proofs.Session.Progress

/-!
# The step that reads a key

A session that comes to a key clause reads it whole, wherever it stands in its text: the trivia
between the tokens do not matter, nor do the tokens behind the comma or the parenthesis that ends
the clause. Conversely, what a step took when it answered with a key is a key clause.

A key that was read from a text is printed to a text from which the key is read again, and nothing
is left of it. Only the name of a primary key is lost, for it is not printed.

## Main statements

* `Session.step_key_reads_clauses`: which tokens the step takes, and its answer.
* `Key.runFrom_render`: a printed key is read from its tokens.
* `Session.step_key_render`: the step that reads a key, on a printed key.
-/

namespace CreateTable

/-- The tokens that end an item, or the end of the text, are a border. -/
theorem Cursor.isBorder_of_head? {c : Cursor}
    (h : ∀ t ∈ c.head?, t.kind = .comma ∨ t.kind = .rightParen) : c.IsBorder := by
  cases c with
  | nil => exact isBorder_nil
  | cons t c => exact isBorder_cons c (h t rfl)

namespace Session

variable {s s' : Session} {key : Key}

/-- The step that reads a key answers as the rule of keys does at the cursor. -/
theorem step_key_eq_ok_iff : s.step .key = (.key (.ok key), s') ↔
    ∃ c, Key.rule.runFrom s.cursor = (.ok key, c) ∧ s' = { s with cursor := c } := by
  change (s.run Key.rule).map Outcome.key id = _ ↔ _
  rw [run]
  rcases Key.rule.runFrom s.cursor with ⟨_ | k, c⟩
  · simp [Prod.map]
  · simp [Prod.map, eq_comm]

/-- **Key clauses.** Wherever a session stands on its text: if the tokens ahead spell a key and end
at a comma, at a closing parenthesis or with the text, then the step that reads a key takes exactly
these tokens and answers with the key. And whenever the step answers with a key, the tokens that it
took spell that key. -/
theorem step_key_reads_clauses (text : String) (options : Options) (row : List Step) :
    let s := (ofText text options).after row
    (∀ (key : Key) (ts rest : Cursor), s.cursor.significant = ts ++ rest → key.IsSpelledBy ts →
      (∀ t ∈ rest.head?, t.kind = .comma ∨ t.kind = .rightParen) →
        ∃ s', s.step .key = (.key (.ok key), s') ∧ s'.cursor.significant = rest) ∧
    ∀ (key : Key) (s' : Session), s.step .key = (.key (.ok key), s') →
      ∃ ts, s.cursor.significant = ts ++ s'.cursor.significant ∧ key.IsSpelledBy ts := by
  intro s
  have htrimmed := ((IsOn.ofText text options).after row).trimmed
  have hrule := (Key.rule_significant htrimmed).1
  have hbare := Cursor.isBare_significant s.cursor
  refine ⟨fun key ts rest hts hkey hrest => ?_, fun key s' h => ?_⟩
  · have hborder := Cursor.isBorder_of_head? hrest
    have hread := (Key.runFrom_eq_ok_iff_isSpelledBy hbare hborder).2 ⟨ts, hts, hkey⟩
    obtain ⟨hkey, hstop⟩ := Prod.mk.inj (hrule.symm.trans hread)
    exact ⟨_, step_key_eq_ok_iff.2 ⟨_, Prod.ext hkey rfl, rfl⟩, hstop⟩
  · obtain ⟨c, hread, rfl⟩ := step_key_eq_ok_iff.1 h
    rw [hread] at hrule
    exact Key.exists_isSpelledBy hbare hrule

/-- A foreign key with the name of an index, a prefix length, a direction, a schema, a referential
action and an option, in front of a parenthesis. -/
theorem step_key_reads_clauses_foreign :
    ∃ s', (ofText ("foreign key `i`(`k`(3) desc) references `s`.`t`(`m`)"
        ++ " on delete set null using x)") {}).step .key
      = (.key (.ok ⟨.foreign, some "i", ["k"], some ⟨"s.t", ["m"]⟩⟩), s') ∧
    s'.cursor.significant = [⟨.rightParen, ⟨1, 80⟩⟩] ∧
    ∃ ts, (ofText ("foreign key `i`(`k`(3) desc) references `s`.`t`(`m`)"
        ++ " on delete set null using x)") {}).cursor.significant = ts ++ s'.cursor.significant ∧
      Key.IsSpelledBy ⟨.foreign, some "i", ["k"], some ⟨"s.t", ["m"]⟩⟩ ts := by
  have hkind : Cursor.Spells ["foreign", "key"]
      [⟨.word "foreign", ⟨1, 1⟩⟩, ⟨.word "key", ⟨1, 9⟩⟩] :=
    .cons (by decide) (.cons (by decide) .nil)
  have hindex : Key.IsIndexName .foreign ["foreign", "key"] (some "i")
      [⟨.quotedWord "i", ⟨1, 13⟩⟩] :=
    .named (by decide) (Kind.isNameBut_quotedWord _ _)
  have hlength : Key.IsPrefixLength
      [⟨.leftParen, ⟨1, 20⟩⟩, ⟨.number "3" false, ⟨1, 21⟩⟩, ⟨.rightParen, ⟨1, 22⟩⟩] :=
    .present rfl ⟨false, rfl, by decide, by simp⟩ rfl
  have hdirection : Key.IsDirection [⟨.word "desc", ⟨1, 24⟩⟩] :=
    .present (w := "desc") (by simp) (by decide)
  have hcolumn : Key.IsColumn "k" _ :=
    .mk (t := ⟨.quotedWord "k", ⟨1, 17⟩⟩) rfl hlength hdirection
  have hcolumns : Key.IsColumnRow ["k"] _ :=
    .mk (l := ⟨.leftParen, ⟨1, 16⟩⟩) (r := ⟨.rightParen, ⟨1, 28⟩⟩) rfl (.single _)
      (.cons hcolumn .nil) rfl
  have htable : QualifiedName.IsSpelledBy ⟨some "s", "t"⟩
      [⟨.quotedWord "s", ⟨1, 41⟩⟩, ⟨.period, ⟨1, 44⟩⟩, ⟨.quotedWord "t", ⟨1, 45⟩⟩] :=
    .qualified rfl rfl rfl
  have htargets : Key.IsColumnRow ["m"] _ :=
    .mk (l := ⟨.leftParen, ⟨1, 48⟩⟩) (r := ⟨.rightParen, ⟨1, 52⟩⟩) rfl (.single _)
      (.cons (.mk (t := ⟨.quotedWord "m", ⟨1, 49⟩⟩) rfl .absent .absent) .nil) rfl
  have haction : Reference.IsActionClause [⟨.word "on", ⟨1, 54⟩⟩, ⟨.word "delete", ⟨1, 57⟩⟩,
      ⟨.word "set", ⟨1, 64⟩⟩, ⟨.word "null", ⟨1, 68⟩⟩] :=
    .mk (by decide) (List.mem_cons_self) (by decide) (by decide : ["set", "null"] ∈ _)
      (.cons (by decide) (.cons (by decide) .nil))
  have htarget : Reference.IsSpelledBy ⟨"s.t", ["m"]⟩ _ :=
    .mk (w := ⟨.word "references", ⟨1, 30⟩⟩) (by decide) htable htargets (.cons haction .nil)
  have hoption : Key.IsOption [⟨.word "using", ⟨1, 73⟩⟩, ⟨.word "x", ⟨1, 79⟩⟩] :=
    .type (by decide) rfl
  have hkey := Key.IsSpelledBy.mk .absent (List.mem_singleton_self _) hkind hindex .nil nofun
    hcolumns (.present rfl htarget) (.cons hoption .nil)
  obtain ⟨hforward, hbackward⟩ := step_key_reads_clauses
    ("foreign key `i`(`k`(3) desc) references `s`.`t`(`m`)" ++ " on delete set null using x)") {} []
  obtain ⟨s', hstep, hrest⟩ :=
    hforward _ _ [⟨.rightParen, ⟨1, 80⟩⟩] (by decide +kernel) hkey (by simp)
  exact ⟨s', hstep, hrest, hbackward _ s' hstep⟩

end Session

/-! ### Printed keys -/

namespace Key

/-- A key that is legible is legible without the name that is not printed. -/
theorem IsLegible.printed {key : Key} (h : key.IsLegible) : key.printed.IsLegible := by
  by_cases hkind : key.kind = .primary
  · have hprimary : key.printed.kind = .primary := hkind
    constructor <;> rw [hprimary] <;> simp
  · rwa [printed_of_kind_ne hkind]

/-- A key is printed with names of its own only. -/
theorem names_printed_subset (key : Key) : key.printed.names ⊆ key.names := by
  by_cases hkind : key.kind = .primary
  · have hname : key.printed.name = none := by rw [Key.printed, if_pos hkind]
    intro name h
    rw [names, hname] at h
    rw [names, List.append_assoc]
    exact List.mem_append_right _ h
  · rw [printed_of_kind_ne hkind]
    exact List.Subset.refl _

/-- A key that was read, and whose name is legible where it is printed, is read from the tokens of
its printed text. -/
theorem runFrom_render {key : Key} (hcomplete : key.IsComplete) (hkey : key.IsLegible)
    (hnames : ∀ name ∈ key.names, '\x60' ∉ name.toList) :
    Key.rule.runFrom (significantTokens key.render) = (.ok key.printed, []) := by
  have hprinted := isPrintedAs_significantTokens hcomplete
  rw [doubled_eq_self fun name h => hnames name (names_printed_subset key h)] at hprinted
  exact hprinted.runFrom hkey.printed ⟨hcomplete.columns_ne_nil, hcomplete.references⟩
    (isBare_significantTokens _)

end Key

namespace Session

/-- **Printed key clauses.** A key that a session reads at the start of a text is printed to a text
from which a session reads the key again, up to the end of the text. That is so if the names of the
key have no backticks and its own name is not taken for a keyword where it is printed; and the name
of a primary key is not printed. -/
theorem step_key_render {text : String} {options : Options} {key : Key} {s : Session}
    (h : (ofText text options).step .key = (.key (.ok key), s)) (hkey : key.IsLegible)
    (hnames : ∀ name ∈ key.names, '\x60' ∉ name.toList) :
    ∃ s', (ofText key.render options).step .key = (.key (.ok key.printed), s') ∧
      s'.atEnd = true := by
  obtain ⟨c, hread, -⟩ := step_key_eq_ok_iff.1 h
  have hprinted := Key.runFrom_render (Key.isComplete_of_runFrom hread) hkey hnames
  obtain ⟨hrule, htrimmed⟩ := Key.rule_significant (ofText_cursor_trimmed key.render options)
  rw [ofText_cursor_significant, hprinted] at hrule
  obtain ⟨hagain, hstop⟩ := Prod.mk.inj hrule
  have hend := (Cursor.significant_eq_nil_iff htrimmed).1 hstop.symm
  exact ⟨_, step_key_eq_ok_iff.2 ⟨[], Prod.ext hagain.symm hend, rfl⟩, rfl⟩

/-- A unique key that is named like a type, with a column in backticks. -/
theorem step_key_render_unique_named_date :
    let key : Key := ⟨.unique, some "date", ["a b"], none⟩
    ∃ s s', (ofText "unique date (\x60a b\x60(3) desc) using btree" {}).step .key
        = (.key (.ok key), s) ∧ key.IsLegible ∧ (∀ name ∈ key.names, '\x60' ∉ name.toList) ∧
      (ofText key.render {}).step .key = (.key (.ok key), s') ∧ s'.atEnd = true := by
  intro key
  have hread : Key.rule.runFrom (ofText "unique date (\x60a b\x60(3) desc) using btree" {}).cursor
      = (.ok key, []) := by decide +kernel
  have hkey : key.IsLegible := by
    refine ⟨fun _ => ?_, nofun⟩
    rintro _ ⟨⟩
    decide
  have hnames : ∀ name ∈ key.names, '\x60' ∉ name.toList := by decide
  have hstep := step_key_eq_ok_iff.2 ⟨[], hread, rfl⟩
  obtain ⟨s', hagain, hend⟩ := step_key_render hstep hkey hnames
  exact ⟨_, s', hstep, hkey, hnames, hagain, hend⟩

/-- A primary key is read again without its name. And a name that is a keyword where it is printed
hides the key: of an index that is named `using` no columns are found. -/
theorem step_key_render_ne :
    let primary : Key := ⟨.primary, some "pk", ["a"], none⟩
    let unique : Key := ⟨.unique, some "using", ["a"], none⟩
    ((∃ s, (ofText "constraint pk primary key (a)" {}).step .key = (.key (.ok primary), s) ∧
          s.atEnd = true) ∧
        ∀ s, (ofText primary.render {}).step .key ≠ (.key (.ok primary), s)) ∧
      ((∃ s, (ofText "unique key \x60using\x60 (a)" {}).step .key = (.key (.ok unique), s) ∧
          s.atEnd = true) ∧
        ∀ s, (ofText unique.render {}).step .key ≠ (.key (.ok unique), s)) ∧
      ∀ name ∈ primary.names ++ unique.names, '\x60' ∉ name.toList := by
  intro primary unique
  have hprimary : Key.rule.runFrom (ofText "constraint pk primary key (a)" {}).cursor
      = (.ok primary, []) := by decide +kernel
  have hunique : Key.rule.runFrom (ofText "unique key \x60using\x60 (a)" {}).cursor
      = (.ok unique, []) := by decide +kernel
  refine ⟨⟨⟨_, step_key_eq_ok_iff.2 ⟨[], hprimary, rfl⟩, rfl⟩, fun s h => ?_⟩,
    ⟨⟨_, step_key_eq_ok_iff.2 ⟨[], hunique, rfl⟩, rfl⟩, fun s h => ?_⟩, by decide⟩
  · have hagain : (Key.rule.runFrom (ofText primary.render {}).cursor).1 ≠ .ok primary := by
      decide +kernel
    obtain ⟨c, hkey, -⟩ := step_key_eq_ok_iff.1 h
    exact hagain (congrArg Prod.fst hkey)
  · have hagain : (Key.rule.runFrom (ofText unique.render {}).cursor).1 ≠ .ok unique := by
      decide +kernel
    obtain ⟨c, hkey, -⟩ := step_key_eq_ok_iff.1 h
    exact hagain (congrArg Prod.fst hkey)

end Session

end CreateTable
