import CreateTable.Source
import CreateTable.Table

/-!
# Sessions

A session runs rules of the grammar on one text, one after the other. Each rule starts where the
last one stopped, also when that one failed.

## Main definitions

* `Session.ofText`: a session at the start of a text.
* `Session.run`, `Session.allow`: one rule, one optional part.
* `Session.table`: a statement with its comment.
* `Step`, `Outcome`, `Session.step`, `Session.steps`: rules by name, and rows of them.
-/

namespace CreateTable

/-- The choices that a reader of tables has. -/
structure Options where
  /-- Search the text behind the closing parenthesis for the comment of the table. -/
  tableComment : Bool := true
deriving DecidableEq, Repr

/-- A text in the course of being read. -/
structure Session where
  source : Source
  options : Options
  cursor : Cursor
deriving DecidableEq, Repr

namespace Session

/-- The session at the first significant token of `text`. -/
def ofText (text : String) (options : Options) : Session :=
  let source := Source.ofText text
  ⟨source, options, source.start⟩

/-- No token is left. -/
def atEnd (s : Session) : Bool :=
  s.cursor.isEmpty

/-- The byte offset of the next token. -/
def offset (s : Session) : Nat :=
  s.source.offsetAt s.cursor

/-- The result of a rule, and the session where the rule stopped. -/
def run {α : Type} (rule : Rule α) (s : Session) : Except Error α × Session :=
  match rule.runFrom s.cursor with
  | (.ok a, c) => (.ok a, { s with cursor := c })
  | (.error e, c) => (.error (s.source.errorAt c e), { s with cursor := c })

/-- What an optional part reads. -/
def allow {α : Type} (m : Matcher α) (s : Session) : Option α × Session :=
  match m.run s.cursor with
  | some (a, c) => (some a, { s with cursor := c })
  | none => (none, s)

/-- What an optional part reads as often as it comes. -/
def many {α : Type} (m : Matcher α) (s : Session) : List α × Session :=
  let (as, c) := m.many s.cursor
  (as, { s with cursor := c })

/-- The comment in the text behind the closing parenthesis, if the options ask for it. -/
def commentBehind (s : Session) (close : Token) : String :=
  if s.options.tableComment then
    ((s.source.textBehind? close).map Table.commentOf).getD ""
  else
    ""

/-- A statement up to its closing parenthesis, with the comment in the text behind it. -/
def table (s : Session) : Except Error Table × Session :=
  match s.run Table.rule with
  | (.ok (table, close), next) => (.ok { table with comment := s.commentBehind close }, next)
  | (.error e, next) => (.error e, next)

end Session

/-- The rules that a session can run by name. -/
inductive Step where
  | dataType | attribute | attributes | defaultValue | columnComment | column | key | table
deriving DecidableEq, Repr

/-- The answer of a step. -/
inductive Outcome where
  | dataType (result : Except Error DataType)
  | attribute (result : Option Attribute)
  | attributes (result : List Attribute)
  | defaultValue (result : Option Value)
  | columnComment (result : Option String)
  | column (result : Except Error Column)
  | key (result : Except Error Key)
  | table (result : Except Error Table)

namespace Session

/-- One step: its answer, and the session behind it. -/
def step (s : Session) : Step → Outcome × Session
  | .dataType => (s.run DataType.rule).map .dataType id
  | .attribute => (s.allow Attribute.matcher).map .attribute id
  | .attributes => (s.many Attribute.matcher).map .attributes id
  | .defaultValue => (s.allow Column.defaultClause).map (fun v => .defaultValue v.join) id
  | .columnComment => (s.allow Column.commentClause).map .columnComment id
  | .column => (s.run Column.rule).map .column id
  | .key => (s.run Key.rule).map .key id
  | .table => s.table.map .table id

/-- The answers of a row of steps, each with the session behind it. -/
def steps (s : Session) : List Step → List (Outcome × Session)
  | [] => []
  | step :: rest =>
    let (outcome, next) := s.step step
    (outcome, next) :: next.steps rest

end Session

end CreateTable
