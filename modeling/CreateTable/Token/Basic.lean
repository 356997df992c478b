import CreateTable.Text.Location

/-!
# Tokens

A statement of the MySQL dialect is read as a sequence of tokens, each with the location at which
it starts. Blanks and comments are tokens too; they are called trivia, and no rule of the grammar
looks at them. A text can break off inside a token: the tokens before that place are still read,
and the fault is kept with its location for the case that a rule runs out of tokens.

## Main definitions

* `QuoteStyle`: the ways to open a quoted string.
* `Kind`: what a token is, with the text that a rule can read from it.
* `Kind.shown`: a token as an error message shows it.
* `Token`: a kind and a start.
* `Fault`, `Fault.message`: the four ways in which a text breaks off, and how each is reported.
* `Breakdown`: a fault and its location.
-/

namespace CreateTable

/-- The ways to open a quoted string. -/
inductive QuoteStyle where
  /-- A plain string `'…'`. -/
  | single
  /-- A plain string `"…"`; double quotes make no identifier. -/
  | double
  /-- A national string `N'…'`. -/
  | national
  /-- A byte string `B'…'`. -/
  | byteSingle
  /-- A byte string `B"…"`. -/
  | byteDouble
  /-- A hexadecimal string `X'…'`, also written `0x…`. -/
  | hexadecimal
  /-- An escaped string `E'…'`, whose text is the one that its escapes stand for. -/
  | escaped
deriving DecidableEq, Repr

/-- A quoted string with text `body`, as it is shown. -/
def QuoteStyle.enclose (body : String) : QuoteStyle → String
  | single => "'" ++ body ++ "'"
  | double => "\"" ++ body ++ "\""
  | national => "N'" ++ body ++ "'"
  | byteSingle => "B'" ++ body ++ "'"
  | byteDouble => "B\"" ++ body ++ "\""
  | hexadecimal => "X'" ++ body ++ "'"
  | escaped => "E'" ++ body ++ "'"

/-- What a token is. -/
inductive Kind where
  /-- One blank: a space, a tab, a line break or a page break. -/
  | blank
  /-- A line comment or a block comment. -/
  | comment
  /-- A word without quotes: an identifier or a keyword. -/
  | word (value : String)
  /-- A word in backticks, which is never a keyword. A doubled backtick stays doubled. -/
  | quotedWord (value : String)
  /-- A number as written; `long` tells that an `L`, not part of the value, follows it. -/
  | number (value : String) (long : Bool)
  /-- A quoted string. But for escaped strings, `body` is the raw text between the quotes. -/
  | quoted (style : QuoteStyle) (body : String)
  | leftParen
  | rightParen
  | comma
  | period
  | minus
  /-- Any other operator, a placeholder, or a character that starts no token. -/
  | symbol (shown : String)
deriving DecidableEq, Repr

namespace Kind

/-- Blanks and comments, which only separate the other tokens. -/
def isTrivia : Kind → Bool
  | blank | comment => true
  | _ => false

/-- A number, of whatever form. -/
def isNumber : Kind → Bool
  | number _ _ => true
  | _ => false

/-- A token as an error message shows it. -/
def shown : Kind → String
  | blank => " "
  | comment => ""
  | word value => value
  | quotedWord value => "`" ++ value ++ "`"
  | number value long => if long then value ++ "L" else value
  | quoted style body => style.enclose body
  | leftParen => "("
  | rightParen => ")"
  | comma => ","
  | period => "."
  | minus => "-"
  | symbol shown => shown

end Kind

/-- A token of a text: what it is and where it starts. -/
structure Token where
  kind : Kind
  start : Text.Location
deriving DecidableEq, Repr

/-- Blanks and comments are **trivia**; every other token is **significant**. -/
def Token.isTrivia (t : Token) : Bool :=
  t.kind.isTrivia

/-! ### Faults of a text that is no sequence of tokens -/

/-- The ways in which a text breaks off inside a token. -/
inductive Fault where
  /-- A quoted string without its closing quote. -/
  | unterminatedString
  /-- An escaped string without its closing quote, or with an escape that stands for no
  character. -/
  | unterminatedEscapedString
  /-- A backtick without its partner. -/
  | unclosedQuotedWord
  /-- A block comment without its end. -/
  | unclosedComment
deriving DecidableEq, Repr

/-- The report of a fault. -/
def Fault.message : Fault → String
  | unterminatedString => "Unterminated string literal"
  | unterminatedEscapedString => "Unterminated encoded string literal"
  | unclosedQuotedWord => "Expected close delimiter '`' before EOF."
  | unclosedComment => "Unexpected EOF while in a multi-line comment"

/-- The end of what could be read of a text: the fault and the location it is reported at. -/
structure Breakdown where
  fault : Fault
  location : Text.Location
deriving DecidableEq, Repr

end CreateTable
