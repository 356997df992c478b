import CreateTable.Grammar.Rule
import CreateTable.Token.Lexer

/-!
# Sources and errors

A source is a text together with its tokens. It turns the place of a cursor into a byte offset,
and an expectation that was not met there into an error.

## Main definitions

* `Position`: a place in a text by bytes and by line and column.
* `Error`: the ways in which reading a statement fails.
* `Error.message`, `Error.offset?`, `Error.expected?`: what can be told of every error.
* `Source.ofText`: a text and its tokens.
* `Source.offsetAt`: the byte offset of a cursor.
* `Source.errorAt`: the error of a rule that stopped at a cursor.
* `Source.textBehind?`: the text behind a token of one byte.
-/

namespace CreateTable

/-! ### Errors -/

/-- A place in a text. -/
structure Position where
  /-- The number of bytes before the place. -/
  offset : Nat
  location : Text.Location
deriving DecidableEq, Repr

/-- The reasons for which a file has no contents. -/
inductive FileFault where
  | notFound
  | isDirectory
deriving DecidableEq, Repr

/-- The ways in which reading a statement fails. -/
inductive Error where
  /-- A rule of the grammar met something else than it required; `found` is the token as it is
  shown. -/
  | mismatch (position : Position) (expected : Expectation) (found : String)
  /-- A rule ran out of tokens because the text breaks off inside a token. -/
  | brokenToken (position : Position) (fault : Fault)
  /-- A file has no contents. -/
  | unreadable (path : String) (fault : FileFault)
  /-- The bytes of a file spell no text. -/
  | undecodable (path : String)
deriving DecidableEq, Repr

namespace Error

/-- The report of an error. -/
def message : Error → String
  | mismatch p expected found =>
    "Syntax error at line " ++ toString p.location.line ++ ", column "
      ++ toString p.location.column ++ ": expected " ++ expected.description
      ++ ", found " ++ found
  | brokenToken p fault =>
    "Tokenizer error at line " ++ toString p.location.line ++ ", column "
      ++ toString p.location.column ++ ": " ++ fault.message
  | unreadable path _ => "Failed to read SQL file: " ++ path
  | undecodable path => "SQL file is neither UTF-8 nor Windows-1252: " ++ path

/-- The byte offset of an error that has a place in the text. -/
def offset? : Error → Option Nat
  | mismatch p _ _ | brokenToken p _ => some p.offset
  | unreadable _ _ | undecodable _ => none

/-- What the grammar required. -/
def expected? : Error → Option Expectation
  | mismatch _ expected _ => some expected
  | _ => none

end Error

/-! ### Texts with their tokens -/

/-- A text together with its tokens. -/
structure Source where
  text : String
  lexed : Lexed
deriving DecidableEq, Repr

namespace Source

/-- A text and its tokens. -/
def ofText (text : String) : Source :=
  ⟨text, lex text⟩

/-- The characters of the text. -/
def chars (s : Source) : List Char :=
  s.text.toList

/-- The cursor at the first significant token. -/
def start (s : Source) : Cursor :=
  Cursor.ofTokens s.lexed.tokens

/-- The byte offset of the token at which the cursor stands, and that of the end of the text when
no token is left. -/
def offsetAt (s : Source) (c : Cursor) : Nat :=
  match c.head? with
  | some t => t.start.offset s.chars
  | none => Text.byteLength s.chars

/-- The place with a given byte offset. -/
def position (s : Source) (offset : Nat) : Position :=
  ⟨offset, Text.Location.ofOffset s.chars offset⟩

/-- What an error message shows of the cursor: the next significant token. -/
def shownAt (c : Cursor) : String :=
  ((c.peek 0).map (·.kind.shown)).getD "end of input"

/-- The error of a rule that required `e` and stopped at the cursor `c`. When no token is left
because the text breaks off, that is the error. -/
def errorAt (s : Source) (c : Cursor) (e : Expectation) : Error :=
  match c.isEmpty, s.lexed.breakdown with
  | true, some b => .brokenToken (s.position (b.location.offset s.chars)) b.fault
  | _, _ => .mismatch (s.position (s.offsetAt c)) e (shownAt c)

/-- The text behind the token `t`, which takes one byte. -/
def textBehind? (s : Source) (t : Token) : Option String :=
  (Text.dropBytes? (t.start.offset s.chars + 1) s.chars).map String.ofList

end Source

end CreateTable
