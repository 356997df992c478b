import CreateTable.Grammar.Matcher

/-!
# Rules

A rule reads a required part of a statement. It gives what it read or the expectation that was
not met, and in both cases the cursor it stopped at: the place of an error is where the rule
stopped.

## Main definitions

* `Expectation`: the parts of a statement that a rule can miss.
* `Expectation.description`: a part as an error message names it.
* `Rule`: functions from a cursor to a result or an expectation, and the cursor behind it.
* `Rule.require`: a part that has to be there.
* `Rule.allow`: a part that may be there.
* `Rule.look`: a decision by the tokens ahead.
* `Rule.separated`: a nonempty row of parts with a separator between them.
* `Rule.follow`: a part behind each occurrence of a lead.

## Main statements

* `Rule.runFrom_bind`: a sequence of rules goes on where the first one stopped, if it succeeded.
* `Rule.runFrom_require`, `Rule.runFrom_allow`, `Rule.runFrom_many`, `Rule.runFrom_look`: what
  the basic rules give and where they stop.
-/

namespace CreateTable

/-! ### What a rule expects -/

/-- The parts of a statement that a rule requires. -/
inductive Expectation where
  /-- The words that open the statement. -/
  | createTable
  | tableName
  /-- The parenthesis before the items of a table or the columns of a key. -/
  | openParen
  /-- The end of an item. -/
  | commaOrCloseParen
  | columnName
  | columnType
  /-- The end of a text that holds one column definition. -/
  | endOfColumn
  | constraintName
  /-- The words that tell the kind of a key. -/
  | keyKind
  | indexNameOrOpenParen
  | keyColumn
  /-- The word before the target of a foreign key. -/
  | references
  | referencedTable
  /-- The event of a referential action. -/
  | deleteOrUpdate
  | referentialAction
deriving DecidableEq, Repr

/-- The missing part as an error message names it. -/
def Expectation.description : Expectation → String
  | createTable => "CREATE TABLE"
  | tableName => "table name"
  | openParen => "'('"
  | commaOrCloseParen => "',' or ')'"
  | columnName => "column name"
  | columnType => "column type"
  | endOfColumn => "end of column definition"
  | constraintName => "constraint name"
  | keyKind => "PRIMARY KEY, UNIQUE, KEY, INDEX, FULLTEXT or FOREIGN KEY"
  | indexNameOrOpenParen => "index name or '('"
  | keyColumn => "key column"
  | references => "REFERENCES"
  | referencedTable => "referenced table"
  | deleteOrUpdate => "DELETE or UPDATE"
  | referentialAction => "referential action"

/-! ### Rules as functions of the cursor -/

/-- A reader of a required part. -/
abbrev Rule := ExceptT Expectation (StateM Cursor)

namespace Rule

/-- The result of `rule` at the cursor `c`, and the cursor at which it stopped. -/
def runFrom {α : Type} (rule : Rule α) (c : Cursor) : Except Expectation α × Cursor :=
  (rule.run.run c).run

/-- The rule with a given result and final cursor at each cursor. -/
def ofFunction {α : Type} (f : Cursor → Except Expectation α × Cursor) : Rule α :=
  ExceptT.mk fun c => f c

/-- What `m` reads; where it does not match, the rule stops with the expectation `e`. -/
def require {α : Type} (m : Matcher α) (e : Expectation) : Rule α :=
  ofFunction fun c =>
    match m.run c with
    | some (a, rest) => (.ok a, rest)
    | none => (.error e, c)

/-- What `m` reads, if it matches. -/
def allow {α : Type} (m : Matcher α) : Rule (Option α) :=
  ofFunction fun c =>
    match m.run c with
    | some (a, rest) => (.ok (some a), rest)
    | none => (.ok none, c)

/-- What `m` reads as often as it matches. -/
def many {α : Type} (m : Matcher α) : Rule (List α) :=
  ofFunction fun c =>
    let (as, rest) := m.many c
    (.ok as, rest)

/-- A decision by the tokens ahead, of which none is taken. -/
def look {α : Type} (decision : Cursor → α) : Rule α :=
  ofFunction fun c => (.ok (decision c), c)

/-- The row that `item` reads with a `separator` between each two items, and the cursor at which
it stops. -/
def separatedFrom {α : Type} (separator : Matcher Unit) (item : Rule α) (c : Cursor) :
    Except Expectation (List α) × Cursor :=
  match item.runFrom c with
  | (.error e, stop) => (.error e, stop)
  | (.ok a, behind) =>
    match separator.run behind with
    | none => (.ok [a], behind)
    | some (_, next) =>
      if next.length < c.length then
        match separatedFrom separator item next with
        | (.error e, stop) => (.error e, stop)
        | (.ok as, stop) => (.ok (a :: as), stop)
      else
        (.ok [a], behind)
termination_by c.length

/-- One `item` and, as long as a `separator` follows, another one. -/
def separated {α : Type} (separator : Matcher Unit) (item : Rule α) : Rule (List α) :=
  ofFunction (separatedFrom separator item)

/-- The outcome of reading `part` behind each `lead`, and the cursor at which it stops. -/
def followFrom (lead : Matcher Unit) (part : Rule Unit) (c : Cursor) :
    Except Expectation Unit × Cursor :=
  match lead.run c with
  | none => (.ok (), c)
  | some (_, behind) =>
    match part.runFrom behind with
    | (.error e, stop) => (.error e, stop)
    | (.ok _, next) => if next.length < c.length then followFrom lead part next else (.ok (), next)
termination_by c.length

/-- As long as a `lead` comes, the lead and the `part` that has to follow it. -/
def follow (lead : Matcher Unit) (part : Rule Unit) : Rule Unit :=
  ofFunction (followFrom lead part)

/-! ### Running a rule -/

/-- A given result takes no token. -/
@[simp]
theorem runFrom_pure {α : Type} (a : α) (c : Cursor) :
    (pure a : Rule α).runFrom c = (.ok a, c) := rfl

/-- A sequence goes on where the first rule stopped, and it stops there with that rule's error. -/
theorem runFrom_bind {α β : Type} (rule : Rule α) (next : α → Rule β) (c : Cursor) :
    (rule >>= next).runFrom c =
      match rule.runFrom c with
      | (.ok a, behind) => (next a).runFrom behind
      | (.error e, stop) => (.error e, stop) := by
  unfold runFrom ExceptT.run StateT.run Id.run
  simp only [bind, ExceptT.bind, ExceptT.mk, StateT.bind, ExceptT.bindCont]
  cases rule c with
  | mk result behind => cases result <;> rfl

/-- A function of the result changes neither an error nor the place where the rule stops. -/
theorem runFrom_map {α β : Type} (f : α → β) (rule : Rule α) (c : Cursor) :
    (f <$> rule).runFrom c =
      match rule.runFrom c with
      | (.ok a, behind) => (.ok (f a), behind)
      | (.error e, stop) => (.error e, stop) := by
  unfold runFrom ExceptT.run StateT.run Id.run
  simp only [Functor.map, ExceptT.map, ExceptT.mk, bind, StateT.bind]
  cases rule c with
  | mk result behind => cases result <;> rfl

/-- A rule that is given as a function is run by applying it. -/
@[simp]
theorem runFrom_ofFunction {α : Type} (f : Cursor → Except Expectation α × Cursor) (c : Cursor) :
    (ofFunction f).runFrom c = f c := rfl

/-- A required part that does not match is an error in front of it. -/
theorem runFrom_require {α : Type} (m : Matcher α) (e : Expectation) (c : Cursor) :
    (require m e).runFrom c =
      match m.run c with
      | some (a, rest) => (.ok a, rest)
      | none => (.error e, c) := rfl

/-- An optional part that does not match takes no token and is no error. -/
theorem runFrom_allow {α : Type} (m : Matcher α) (c : Cursor) :
    (allow m).runFrom c =
      match m.run c with
      | some (a, rest) => (.ok (some a), rest)
      | none => (.ok none, c) := rfl

/-- A repeated part is never an error. -/
@[simp]
theorem runFrom_many {α : Type} (m : Matcher α) (c : Cursor) :
    (many m).runFrom c = (.ok (m.many c).1, (m.many c).2) := rfl

/-- A decision takes no token and is never an error. -/
@[simp]
theorem runFrom_look {α : Type} (decision : Cursor → α) (c : Cursor) :
    (look decision).runFrom c = (.ok (decision c), c) := rfl

end Rule

end CreateTable
