import CreateTable.Grammar.Rule

/-!
# Data types

The type of a column is a keyword of a closed catalog, in any letter case, with an optional
length and scale in parentheses. Both are kept as the digits that were written.

## Main definitions

* `TypeName`: the catalog, with `TypeName.all`, `TypeName.keyword` and `TypeName.ofKeyword?`.
* `DataType`: a type with its parameters.
* `DataType.render`, `DataType.rule`: how a type is printed and read.
-/

namespace CreateTable

/-- The catalog of types. -/
inductive TypeName where
  | tinyInt | smallInt | mediumInt | int | bigInt | float | double | decimal
  | varChar | char | tinyText | text | mediumText | longText
  | dateTime | date | time | timestamp
  | tinyBlob | blob | mediumBlob | longBlob
  | binary | varBinary
deriving DecidableEq, Repr

namespace TypeName

/-- The catalog in the order in which keywords are looked up. -/
def all : List TypeName :=
  [tinyInt, smallInt, mediumInt, int, bigInt, float, double, decimal,
    varChar, char, tinyText, text, mediumText, longText,
    dateTime, date, time, timestamp,
    tinyBlob, blob, mediumBlob, longBlob,
    binary, varBinary]

/-- The keyword of a type in lower case. -/
def keyword : TypeName → String
  | tinyInt => "tinyint"
  | smallInt => "smallint"
  | mediumInt => "mediumint"
  | int => "int"
  | bigInt => "bigint"
  | float => "float"
  | double => "double"
  | decimal => "decimal"
  | varChar => "varchar"
  | char => "char"
  | tinyText => "tinytext"
  | text => "text"
  | mediumText => "mediumtext"
  | longText => "longtext"
  | dateTime => "datetime"
  | date => "date"
  | time => "time"
  | timestamp => "timestamp"
  | tinyBlob => "tinyblob"
  | blob => "blob"
  | mediumBlob => "mediumblob"
  | longBlob => "longblob"
  | binary => "binary"
  | varBinary => "varbinary"

/-- The type whose keyword is `word`, in any letter case. -/
def ofKeyword? (word : String) : Option TypeName :=
  all.find? fun t => Text.sameWord t.keyword word

/-- Every type stands in the catalog. -/
theorem mem_all (t : TypeName) : t ∈ all := by
  cases t <;> decide

/-- The unquoted word that names a type. -/
def matcher : Matcher TypeName :=
  Matcher.token fun
    | .word value => ofKeyword? value
    | _ => none

end TypeName

/-- The type of a column: its name in the catalog and its parameters as they are written. -/
structure DataType where
  name : TypeName
  /-- The digits of the length or precision. -/
  length : Option String
  /-- The digits of the scale, which is only written behind a length. -/
  scale : Option String
deriving DecidableEq, Repr

namespace DataType

/-- A type as it is printed. A scale without a length is not printed. -/
def render (t : DataType) : String :=
  match t.length, t.scale with
  | some length, some scale => t.name.keyword ++ "(" ++ length ++ "," ++ scale ++ ")"
  | some length, none => t.name.keyword ++ "(" ++ length ++ ")"
  | none, _ => t.name.keyword

/-- One parameter in parentheses. -/
def lengthOnly : Matcher (String × Option String) := do
  Matcher.mark .leftParen
  let length ← Matcher.digits
  Matcher.mark .rightParen
  return (length, none)

/-- Two parameters in parentheses. -/
def lengthAndScale : Matcher (String × Option String) := do
  Matcher.mark .leftParen
  let length ← Matcher.digits
  Matcher.mark .comma
  let scale ← Matcher.digits
  Matcher.mark .rightParen
  return (length, some scale)

/-- The name of a type and its parameters. What is in parentheses but no parameter list is not
read. -/
def rule : Rule DataType := do
  let name ← Rule.require TypeName.matcher .columnType
  match ← Rule.allow (lengthOnly <|> lengthAndScale) with
  | some (length, scale) => return ⟨name, some length, scale⟩
  | none => return ⟨name, none, none⟩

end DataType

end CreateTable
