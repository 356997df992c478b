import CreateTable.Grammar.Rule

/-!
# Identifiers

A name is printed as it is when it is a plain word, and in backticks with every backtick inside
doubled otherwise. A table may be named together with its schema.

## Main definitions

* `Identifier.quote`: a name as it is printed.
* `Identifier.quoteAll`: a row of names as it is printed.
* `QualifiedName`: the name of a table with its schema.
* `QualifiedName.rule`: how such a name is read.
-/

namespace CreateTable

namespace Identifier

/-- A character that needs no backticks: an ASCII letter, a digit or an underscore. -/
def isPlainChar (c : Char) : Bool :=
  c.isAlphanum || c = '_'

/-- A name that needs no backticks: a nonempty row of ASCII letters, digits and underscores that
does not begin with a digit. -/
def isPlain (name : String) : Bool :=
  match name.toList with
  | [] => false
  | c :: cs => !c.isDigit && (c :: cs).all isPlainChar

/-- The characters of a name with every backtick doubled. -/
def doubleBackticks : List Char → List Char
  | [] => []
  | c :: cs => if c = '\x60' then c :: c :: doubleBackticks cs else c :: doubleBackticks cs

/-- A name as it is printed. -/
def quote (name : String) : String :=
  if isPlain name then name
  else "`" ++ String.ofList (doubleBackticks name.toList) ++ "`"

/-- A row of names as it is printed. -/
def quoteAll (names : List String) : String :=
  ", ".intercalate (names.map quote)

end Identifier

/-- The name of a table, with the schema it belongs to if that is given. -/
structure QualifiedName where
  schema : Option String
  name : String
deriving DecidableEq, Repr

namespace QualifiedName

/-- Schema and name joined by a period, without quotes. -/
def joined (q : QualifiedName) : String :=
  match q.schema with
  | some schema => schema ++ "." ++ q.name
  | none => q.name

/-- Schema and name as they are printed, each quoted on its own. -/
def render (q : QualifiedName) : String :=
  match q.schema with
  | some schema => Identifier.quote schema ++ "." ++ Identifier.quote q.name
  | none => Identifier.quote q.name

/-- A name, and behind a period a second one; then the first is the schema. -/
def rule (missing : Expectation) : Rule QualifiedName := do
  let first ← Rule.require Matcher.identifier missing
  match ← Rule.allow (Matcher.mark .period) with
  | none => return ⟨none, first⟩
  | some () => return ⟨some first, ← Rule.require Matcher.identifier missing⟩

end QualifiedName

end CreateTable
