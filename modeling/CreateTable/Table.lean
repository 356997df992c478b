import CreateTable.Column
import CreateTable.Key

/-!
# Tables

A table is read from one statement `CREATE TABLE`: a name, and items in parentheses, each of them
a column or a key. It is printed with one item a line, the columns before the keys.

## Main definitions

* `Table`: the description of one `CREATE TABLE` statement.
* `Item`: an item of its body, a column or a key.
* `Table.column?`, `Table.primaryKey?`: look-ups.
* `Table.render`: a table as it is printed.
* `Table.commentOf`: the comment in the text behind the closing parenthesis.
* `Item.rule`: how an item of the body of a table is read.
* `Table.rule`: how a statement is read, up to its closing parenthesis.
-/

namespace CreateTable

/-- The description of one `CREATE TABLE` statement. -/
structure Table where
  name : QualifiedName
  /-- The columns in the order in which they are written. -/
  columns : List Column
  /-- The keys in the order in which they are written. -/
  keys : List Key
  /-- The raw text of the comment, empty when there is none. -/
  comment : String
deriving DecidableEq, Repr

/-- An item of the body of a table. -/
inductive Item where
  | column (column : Column)
  | key (key : Key)
deriving DecidableEq, Repr

namespace Item

/-- The column of an item, if it is one. -/
def column? : Item → Option Column
  | column c => some c
  | key _ => none

/-- The key of an item, if it is one. -/
def key? : Item → Option Key
  | column _ => none
  | key k => some k

end Item

namespace Table

/-- The table with a given name and body and without a comment. -/
def ofItems (name : QualifiedName) (items : List Item) : Table :=
  ⟨name, items.filterMap Item.column?, items.filterMap Item.key?, ""⟩

/-- The first column with a given name. -/
def column? (table : Table) (name : String) : Option Column :=
  table.columns.find? (·.name = name)

/-- The names of the columns. -/
def columnNames (table : Table) : List String :=
  table.columns.map Column.name

/-- The first primary key clause. -/
def primaryKey? (table : Table) : Option Key :=
  table.keys.find? (·.kind = .primary)

end Table

/-! ### Printed tables -/

namespace Table

/-- The items of a table as they are printed: the columns, then the keys. -/
def renderedItems (table : Table) : List String :=
  table.columns.map Column.render ++ table.keys.map Key.render

/-- The lines of the body: every item on a line of its own, with a comma between two items. -/
def renderBody (items : List String) : String :=
  if items.isEmpty then "" else ",\n".intercalate (items.map ("  " ++ ·)) ++ "\n"

/-- The comment of a table as it is printed; an empty one is not. -/
def renderComment (comment : String) : String :=
  if comment = "" then "" else " COMMENT='" ++ comment ++ "'"

/-- A table as it is printed. -/
def render (table : Table) : String :=
  "CREATE TABLE " ++ table.name.render ++ " (\n" ++ renderBody table.renderedItems ++ ")"
    ++ renderComment table.comment ++ ";"

end Table

/-! ### The comment of a table

Behind its closing parenthesis a statement goes on with options in no fixed order, which no rule
reads. The comment is searched there as raw text: it is what stands between the first two single
quotes behind the last word `comment`, provided that no closing parenthesis follows that word,
since the word would then belong to something in parentheses. -/

namespace Table

/-- The text between the first two single quotes of `cs`. -/
def betweenQuotes? (cs : List Char) : Option (List Char) :=
  match cs.dropWhile (· ≠ '\'') with
  | [] => none
  | _ :: text => if text.contains '\'' then some (text.takeWhile (· ≠ '\'')) else none

/-- The comment in the text `tail` behind the closing parenthesis, if there is one. -/
def commentIn? (tail : List Char) : Option (List Char) := do
  let keyword ← Text.lastIndex? "comment".toList tail
  let clause ← Text.dropBytes? keyword tail
  if clause.contains ')' then none else betweenQuotes? clause

/-- The comment in the text `tail` behind the closing parenthesis; empty if there is none. -/
def commentOf (tail : String) : String :=
  String.ofList ((commentIn? tail.toList).getD [])

end Table

/-! ### Reading a statement -/

open Matcher Rule

namespace Item

/-- An item of the body: a key clause or a column, as the words at its start tell. -/
def rule : Rule Item := do
  if ← look Key.opensAt then key <$> Key.rule else column <$> Column.rule

/-- The items of the body, with commas between them. There is none if the parenthesis closes at
once. -/
def listRule : Rule (List Item) := do
  if ← look (·.atKind 0 .rightParen) then return [] else separated (mark .comma) rule

end Item

namespace Table

/-- A statement up to its closing parenthesis: the table without its comment, and the parenthesis
itself. -/
def rule : Rule (Table × Token) := do
  require (phrase ["create", "table"]) .createTable
  let _ ← allow (phrase ["if", "not", "exists"])
  let name ← QualifiedName.rule .tableName
  require (mark .leftParen) .openParen
  let items ← Item.listRule
  let close ← require (exactly .rightParen) .commaOrCloseParen
  return (ofItems name items, close)

end Table

end CreateTable
