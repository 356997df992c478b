import CreateTable.DataType
import CreateTable.Identifier

/-!
# Keys

A key clause of a table names the columns of a key or an index; a foreign key also names the
columns of the table it refers to. A clause is read as: the name of a constraint, the kind, the
name of an index, options, the columns, the target of a foreign key, and options again. Options,
prefix lengths and sort directions of columns, and referential actions are read and not kept.

## Main definitions

* `KeyKind`: the five kinds of keys.
* `Reference`: the target of a foreign key.
* `Key`: a key clause.
* `Key.render`: a key clause as it is printed.
* `Key.opensAt`: whether an item of a table is a key clause or a column.
* `Key.rule`: how a key clause is read.
-/

namespace CreateTable

/-- The kinds of keys. -/
inductive KeyKind where
  | primary | unique | index | fulltext | foreign
deriving DecidableEq, Repr

/-- The target of a foreign key. -/
structure Reference where
  /-- The name of the table, behind its schema and a period when that is given. -/
  table : String
  columns : List String
deriving DecidableEq, Repr

/-- A key clause. -/
structure Key where
  kind : KeyKind
  /-- The name of the constraint or, if that is not given, of the index. -/
  name : Option String
  columns : List String
  /-- The target, of foreign keys only. -/
  references : Option Reference
deriving DecidableEq, Repr

/-! ### Printed keys -/

/-- The words that open a key clause. -/
def KeyKind.keyword : KeyKind → String
  | primary => "PRIMARY KEY"
  | unique => "UNIQUE KEY"
  | index => "KEY"
  | fulltext => "FULLTEXT KEY"
  | foreign => "FOREIGN KEY"

/-- The target of a foreign key as it is printed. -/
def Reference.render (r : Reference) : String :=
  " REFERENCES " ++ Identifier.quote r.table ++ " (" ++ Identifier.quoteAll r.columns ++ ")"

namespace Key

/-- The opening words of a key clause together with the name: a primary key has none, the name of
a foreign key stands before the words as that of a constraint, any other behind them. -/
def heading (key : Key) : String :=
  match key.kind, key.name with
  | .foreign, some name => "CONSTRAINT " ++ Identifier.quote name ++ " " ++ KeyKind.foreign.keyword
  | .primary, _ => KeyKind.primary.keyword
  | kind, some name => kind.keyword ++ " " ++ Identifier.quote name
  | kind, none => kind.keyword

/-- A key clause as it is printed. -/
def render (key : Key) : String :=
  key.heading ++ " (" ++ Identifier.quoteAll key.columns ++ ")"
    ++ (key.references.map Reference.render).getD ""

end Key

/-! ### Reading a key clause -/

open Matcher Rule

/-- The words of which one opens every key clause. -/
def Key.openingWords : List String :=
  ["constraint", "primary", "unique", "key", "index", "fulltext", "foreign"]

/-- An item that starts at `c` is a key clause: it begins with one of the opening words. Before the
name of a type that word is the name of a column, unless the type is followed by a parenthesis
and anything but a number: then the type is the name of an index and its columns follow. -/
def Key.opensAt (c : Cursor) : Bool :=
  openingWords.any (c.atWord 0)
    && (((c.peekWord 1).bind TypeName.ofKeyword?).isNone
      || (c.atKind 2 .leftParen && !(c.peek 3).any (·.kind.isNumber)))

namespace KeyKind

/-- The word `KEY` or `INDEX`. -/
def indexWord : Matcher Unit :=
  word "key" <|> word "index"

/-- The words that tell the kind of a key. -/
def matcher : Matcher KeyKind :=
  (phrase ["primary", "key"] *> pure primary)
    <|> (word "unique" *> optional indexWord *> pure unique)
    <|> (word "fulltext" *> optional indexWord *> pure fulltext)
    <|> (phrase ["foreign", "key"] *> pure foreign)
    <|> (indexWord *> pure index)

end KeyKind

namespace Key

/-- The word `CONSTRAINT` and the name behind it, which may be missing before the kind of a
constraint. -/
def constraintName : Rule (Option String) := do
  match ← allow (word "constraint") with
  | none => return none
  | some () =>
    if ← look fun c => ["primary", "unique", "foreign"].any (c.atWord 0) then return none
    else some <$> require identifier .constraintName

/-- The name of an index. A primary key has none, and a parenthesis or `USING` tells that it is
missing. -/
def indexName (kind : KeyKind) : Rule (Option String) := do
  if ← look fun c => kind = .primary || c.atKind 0 .leftParen || c.atWord 0 "using" then
    return none
  else
    some <$> require identifier .indexNameOrOpenParen

/-- An option of a key: `USING` with a word, or `COMMENT` with a string. -/
def option : Matcher Unit :=
  (word "using" *> (fun _ => ()) <$> identifier)
    <|> (word "comment" *> (fun _ => ()) <$> stringLiteral)

/-- The options of a key, in any order and number. -/
def options : Rule Unit := do
  let _ ← Rule.many option

/-- The length of the part of a column that belongs to a key. -/
def prefixLength : Matcher Unit := do
  mark .leftParen
  let _ ← digits
  mark .rightParen

/-- A column of a key, with a prefix length and a direction. -/
def columnRule : Rule String := do
  let name ← require identifier .keyColumn
  let _ ← allow prefixLength
  let _ ← allow (word "asc" <|> word "desc")
  return name

/-- The columns of a key in parentheses, at least one. -/
def columnListRule : Rule (List String) := do
  require (mark .leftParen) .openParen
  let names ← separated (mark .comma) columnRule
  require (mark .rightParen) .commaOrCloseParen
  return names

end Key

namespace Reference

/-- What happens to the rows that refer to a changed row. -/
def actions : List (List String) :=
  [["restrict"], ["cascade"], ["set", "null"], ["set", "default"], ["no", "action"]]

/-- The event and the action behind `ON`. -/
def actionClause : Rule Unit := do
  require (word "delete" <|> word "update") .deleteOrUpdate
  require (actions.firstM phrase) .referentialAction

/-- The target of a foreign key with its referential actions. -/
def rule : Rule Reference := do
  require (word "references") .references
  let table ← QualifiedName.rule .referencedTable
  let columns ← Key.columnListRule
  follow (word "on") actionClause
  return ⟨table.joined, columns⟩

end Reference

namespace Key

/-- A key clause. -/
def rule : Rule Key := do
  let constraint ← constraintName
  let kind ← require KeyKind.matcher .keyKind
  let index ← indexName kind
  options
  let columns ← Key.columnListRule
  let references ← if kind = .foreign then some <$> Reference.rule else pure none
  options
  return ⟨kind, constraint <|> index, columns, references⟩

end Key

end CreateTable
