import CreateTable.DataType
import CreateTable.Identifier

/-!
# Columns

A column has a name, a type and modifiers in any order. Behind them stand the clauses `DEFAULT`
and `COMMENT`, each followed by a value: the null marker, a string, a number, or the words that
set a column to the current time.

## Main definitions

* `Attribute`: the modifiers of a column, with `Attribute.keyword`, `Attribute.render` and
  `Attribute.matcher`.
* `Value`: the four forms of a value, with `Value.text`, `Value.render` and `Value.clause`.
* `Column`: a column definition.
* `Column.render`, `Column.rule`: how a column is printed and read.
* `Column.defaultClause`, `Column.commentClause`: its two optional clauses.
-/

namespace CreateTable

/-! ### Modifiers -/

/-- The modifiers of a column. -/
inductive Attribute where
  | notNull | null | autoIncrement | primaryKey | unique | binary | unsigned
deriving DecidableEq, Repr

namespace Attribute

/-- The modifiers in the order in which they are looked up. -/
def all : List Attribute :=
  [notNull, null, autoIncrement, primaryKey, unique, binary, unsigned]

/-- The words of a modifier. -/
def words : Attribute → List String
  | notNull => ["not", "null"]
  | null => ["null"]
  | autoIncrement => ["auto_increment"]
  | primaryKey => ["primary", "key"]
  | unique => ["unique"]
  | binary => ["binary"]
  | unsigned => ["unsigned"]

/-- The keyword of a modifier: its words in lower case with a space between them. -/
def keyword (a : Attribute) : String :=
  " ".intercalate a.words

/-- A modifier as it is printed, in upper case. -/
def render (a : Attribute) : String :=
  a.keyword.toUpper

/-- Every modifier is looked up. -/
theorem mem_all (a : Attribute) : a ∈ all := by
  cases a <;> decide

/-- The first modifier whose words come next. -/
def matcher : Matcher Attribute :=
  all.firstM fun a => do
    Matcher.phrase a.words
    return a

end Attribute

/-! ### Values -/

/-- The value of a clause. -/
inductive Value where
  | null
  /-- The raw text between single quotes. -/
  | literal (text : String)
  /-- A number as it is written, with its minus sign. -/
  | numeric (text : String)
  /-- Words about the current time as they are written, with single spaces between them. -/
  | expression (text : String)
deriving DecidableEq, Repr

namespace Value

/-- The plain text of a value. -/
def text : Value → String
  | null => "NULL"
  | literal text | numeric text | expression text => text

/-- The value is the null marker. -/
def isNull : Value → Bool
  | null => true
  | _ => false

/-- A value as it is printed. -/
def render : Value → String
  | null => "NULL"
  | literal text => "'" ++ text ++ "'"
  | numeric text | expression text => text

/-- The words that set a column to the current time, in their order. -/
def timestampWords : List String :=
  ["current_timestamp", "on", "update", "current_timestamp"]

/-- The words of `ws` that come next, in this order, each of them only if it comes, given as they
are written. -/
def writtenWords : List String → Matcher (List String)
  | [] => pure []
  | w :: ws => do
    match ← optional (Matcher.writtenWord w) with
    | some written => return written :: (← writtenWords ws)
    | none => writtenWords ws

/-- At least one of the words that set a column to the current time. -/
def timestamp : Matcher String := do
  let words ← writtenWords timestampWords
  if words.isEmpty then failure else return " ".intercalate words

/-- A value in one of its forms. -/
def matcher : Matcher Value :=
  (Matcher.word "null" *> pure null)
    <|> (literal <$> Matcher.stringLiteral)
    <|> (numeric <$> Matcher.numeral)
    <|> (expression <$> timestamp)

/-- The keyword of a clause and the value behind it. The keyword alone is read too. -/
def clause (keyword : String) : Matcher (Option Value) := do
  Matcher.word keyword
  optional matcher

end Value

/-! ### Column definitions -/

/-- A column definition. -/
structure Column where
  name : String
  type : DataType
  /-- The modifiers in the order in which they are written, with repetitions. -/
  attributes : List Attribute
  defaultValue : Option Value
  /-- The raw text of the comment, empty when there is none. -/
  comment : String
deriving DecidableEq, Repr

namespace Column

/-- The column has the modifier `a`. -/
def hasAttribute (column : Column) (a : Attribute) : Bool :=
  column.attributes.contains a

/-- A column as it is printed: name, type, modifiers, default value, and the comment unless it is
empty. -/
def render (column : Column) : String :=
  Identifier.quote column.name ++ " " ++ column.type.render
    ++ String.join (column.attributes.map (" " ++ ·.render))
    ++ (match column.defaultValue with
      | some value => " DEFAULT " ++ value.render
      | none => "")
    ++ (if column.comment = "" then "" else " COMMENT '" ++ column.comment ++ "'")

/-- The clause of the default value. `DEFAULT` without a value is read and gives none. -/
def defaultClause : Matcher (Option Value) :=
  Value.clause "default"

/-- The clause of the comment: the plain text of a value of any form, and the empty text for
`COMMENT` without a value. -/
def commentClause : Matcher String :=
  (fun value => (value.map Value.text).getD "") <$> Value.clause "comment"

/-- A column definition: name, type, modifiers, default value and comment. -/
def rule : Rule Column := do
  let name ← Rule.require Matcher.identifier .columnName
  let type ← DataType.rule
  let attributes ← Rule.many Attribute.matcher
  let defaultValue ← Rule.allow defaultClause
  let comment ← Rule.allow commentClause
  return ⟨name, type, attributes, defaultValue.join, comment.getD ""⟩

/-- A column definition with nothing behind it. -/
def wholeRule : Rule Column := do
  let column ← rule
  Rule.require Matcher.atEnd .endOfColumn
  return column

end Column

end CreateTable
