import CreateTable.Text.Unicode
import CreateTable.Token.Basic

/-!
# The tokens of a text

A text is cut into tokens from left to right. The first character of a token decides how it is
read; every token takes at least that character, so the cutting ends. If a text breaks off
inside a token, the tokens before it are kept together with the fault.

The module has one reader for each form of token, then the reader that chooses among them, and
at last the reader of a whole text.

## Main definitions

* `isWordStart`, `isWordPart`: the characters that begin a word, that go on with it.
* `quotedBody?`, `escapedBody?`: the text of a quoted string, and the text that the escapes of an
  escaped string stand for.
* `lineCommentLength`, `blockCommentLength?`: the number of characters that belong to a comment.
* `number`: the token that begins with a digit or a point.
* `operator?`: the operator at the start of a text, the longest that fits.
* `scan`: the token that begins with a given character.
* `lex`: the tokens of a text, and the breakdown if there is one.
-/

namespace CreateTable

/-! ### Words

A word is a maximal run of characters that may stand in an identifier. Beyond ASCII every
character up to U+FFFF may, spaces and marks included, and above U+FFFF the alphabetic ones. -/

/-- A character that begins a word: an ASCII letter, one of `_`, `$` and `@`, any character from
U+0080 to U+FFFF, or an alphabetic one above. -/
def isWordStart (c : Char) : Bool :=
  c.isAlpha || c = '_' || c = '$' || c = '@' ||
    (0x80 ≤ c.toNat && c.toNat ≤ 0xFFFF) || Text.isSupplementaryAlphabetic c

/-- A character that goes on with a word: one that begins a word, or a digit. -/
def isWordPart (c : Char) : Bool :=
  isWordStart c || c.isDigit

/-- The characters at the start of `cs` that go on with a word. -/
def wordParts (cs : List Char) : List Char :=
  cs.takeWhile isWordPart

/-! ### Quoted texts

Strings and backtick words run from their opening quote to the next quote of the same kind that
is not doubled. The text between is kept as written: a doubled quote stays doubled, and where
backslash escapes are on, a backslash stays with the character behind it, which then never ends
the text. -/

/-- The raw text of `cs` before the closing `quote`, or `none` if the text ends before it. With
`escapes`, a backslash takes the character behind it along. -/
def quotedBody? (quote : Char) (escapes : Bool) : List Char → Option (List Char)
  | [] => none
  | [c] => if c = quote then some [] else none
  | c :: d :: cs =>
    if c = quote then
      if d = quote then (quotedBody? quote escapes cs).map (c :: d :: ·) else some []
    else if escapes && c = '\\' then
      (quotedBody? quote escapes cs).map (c :: d :: ·)
    else
      (quotedBody? quote escapes (d :: cs)).map (c :: ·)

/-! ### Comments

A line comment ends behind the next line feed or at the end of the text; a carriage return does
not end it. A block comment ends at the first `*/`, so block comments do not nest. -/

/-- The number of characters of `cs` up to and with the first line feed; all of them if there is
none. -/
def lineCommentLength : List Char → Nat
  | [] => 0
  | c :: cs => if c = '\n' then 1 else lineCommentLength cs + 1

/-- The number of characters of `cs` up to and with the first `*/`. -/
def blockCommentLength? : List Char → Option Nat
  | [] => none
  | '*' :: '/' :: _ => some 2
  | _ :: cs => (blockCommentLength? cs).map (· + 1)

/-! ### Escaped strings

The text of an escaped string `E'…'` is the one that its escapes stand for. A doubled quote is a
quote. A backslash begins an escape: a letter for a control character, `u` and `U` with four and
eight characters for a code point, `x` with up to two hexadecimal digits or up to three octal
digits for an ASCII character; any other character stands for itself. No escape may stand for
U+0000. -/

/-- The value of a hexadecimal digit. -/
def hexDigit? (c : Char) : Option Nat :=
  if c.isDigit then some (c.toNat - '0'.toNat)
  else if 'a' ≤ c && c ≤ 'f' then some (c.toNat - 'a'.toNat + 10)
  else if 'A' ≤ c && c ≤ 'F' then some (c.toNat - 'A'.toNat + 10)
  else none

/-- A hexadecimal digit. -/
def isHexDigit (c : Char) : Bool :=
  (hexDigit? c).isSome

/-- An octal digit. -/
def isOctalDigit (c : Char) : Bool :=
  '0' ≤ c && c ≤ '7'

/-- The number that a row of digits stands for, or `none` if one is no hexadecimal digit. The
empty row stands for zero. -/
def numeral? (base : Nat) (digits : List Char) : Option Nat :=
  digits.foldlM (fun value c => (hexDigit? c).map (value * base + ·)) 0

/-- The character with a given code point, if there is one: surrogates and numbers above
U+10FFFF are none. -/
def scalar? (code : Nat) : Option Char :=
  if code.isValidChar then some (Char.ofNat code) else none

/-- The character of an escape by code point: the first `width` characters of `cs`, whatever they
are, as a hexadecimal number, which may have a plus sign. -/
def codePoint? (width : Nat) (cs : List Char) : Option Char := do
  let text := cs.take width
  if text.length < width then none
  let digits := if text.head? = some '+' then text.tail else text
  let code ← numeral? 16 digits
  scalar? code

/-- The character of an escape by value: the value counts modulo 256, and it has to be an ASCII
one. -/
def asciiCharacter? (base : Nat) (digits : List Char) : Option Char := do
  let value ← numeral? base digits
  if value % 256 < 128 then some (Char.ofNat (value % 256)) else none

/-- The character that the escape at the start of `cs`, behind its backslash, stands for, and the
number of characters of the escape. U+0000 is not excluded yet. -/
def rawEscape? : List Char → Option (Char × Nat)
  | [] => none
  | 'b' :: _ => some ('\x08', 1)
  | 'f' :: _ => some ('\x0C', 1)
  | 'n' :: _ => some ('\n', 1)
  | 'r' :: _ => some ('\r', 1)
  | 't' :: _ => some ('\t', 1)
  | 'u' :: cs => (codePoint? 4 cs).map (·, 5)
  | 'U' :: cs => (codePoint? 8 cs).map (·, 9)
  | 'x' :: cs =>
    match (cs.take 2).takeWhile isHexDigit with
    | [] => some ('x', 1)
    | digits => (asciiCharacter? 16 digits).map (·, digits.length + 1)
  | c :: cs =>
    if isOctalDigit c then
      let digits := c :: (cs.take 2).takeWhile isOctalDigit
      (asciiCharacter? 8 digits).map (·, digits.length)
    else
      some (c, 1)

/-- The character that the escape at the start of `cs`, behind its backslash, stands for, and the
number of characters of the escape. -/
def escape? (cs : List Char) : Option (Char × Nat) :=
  (rawEscape? cs).filter (·.1 ≠ Char.ofNat 0)

/-- The text of an escaped string whose characters behind the opening quote are `cs`, and the
number of those characters that belong to the string, its closing quote included. -/
def escapedBody? : List Char → Option (List Char × Nat)
  | [] => none
  | '\'' :: '\'' :: cs => (escapedBody? cs).map fun (body, n) => ('\'' :: body, n + 2)
  | '\'' :: _ => some ([], 1)
  | '\\' :: cs => do
    let (c, m) ← escape? cs
    let (body, n) ← escapedBody? (cs.drop m)
    some (c :: body, n + m + 1)
  | c :: cs => (escapedBody? cs).map fun (body, n) => (c :: body, n + 1)
termination_by cs => cs.length
decreasing_by all_goals simp only [List.length_cons, List.length_drop]; omega

/-! ### Numbers

A number is a row of digits with an optional point and fraction and an optional exponent. What
looks like a number can be something else: a lone point is the period, `0x` opens a hexadecimal
string, and a number that runs into the characters of a word is one word with them, as `2fa` is.
A letter `e` in the place of an exponent, even one that is none, keeps the number apart from the
word behind it. -/

/-- The letter of an exponent. -/
def isExponentLetter (c : Char) : Bool :=
  c = 'e' || c = 'E'

/-- The exponent at the start of `cs`: its letter, a sign if there is one, and at least one
digit. Without a digit there is no exponent. -/
def exponent : List Char → List Char
  | [] => []
  | letter :: cs =>
    let sign := (cs.take 1).takeWhile fun c => c = '+' || c = '-'
    let digits := (cs.drop sign.length).takeWhile Char.isDigit
    if isExponentLetter letter && !digits.isEmpty then letter :: sign ++ digits else []

/-- The point and the digits behind it at the start of `cs`, if a point is there. -/
def fraction : List Char → List Char
  | '.' :: cs => '.' :: cs.takeWhile Char.isDigit
  | _ => []

/-- The hexadecimal digits of `0x…`, if `cs` begins so. The row of digits may be empty. -/
def hexLiteral? : List Char → Option (List Char)
  | '0' :: 'x' :: cs => some (cs.takeWhile isHexDigit)
  | _ => none

/-- The token at the start of `cs`, which begins with a digit or a point, and its number of
characters. -/
def number (cs : List Char) : Kind × Nat :=
  match hexLiteral? cs with
  | some digits => (.quoted .hexadecimal (String.ofList digits), digits.length + 2)
  | none =>
    let digits := cs.takeWhile Char.isDigit
    let mantissa := digits ++ fraction (cs.drop digits.length)
    let rest := cs.drop mantissa.length
    if mantissa = ['.'] then
      (.period, 1)
    else
      let text := mantissa ++ exponent rest
      let letters := if (rest.take 1).any isExponentLetter then [] else wordParts rest
      if letters.isEmpty then
        let long := (cs.drop text.length).head? = some 'L'
        (.number (String.ofList text) long, text.length + if long then 1 else 0)
      else
        (.word (String.ofList (mantissa ++ letters)), mantissa.length + letters.length)

/-! ### Operators -/

/-- The operators: spelling and token. Where one spelling begins with another, the longer one
comes first. The unequal sign `!=` is shown as `<>`. -/
def operators : List (String × Kind) :=
  [("(", .leftParen), (")", .rightParen), (",", .comma),
    ("->>", .symbol "->>"), ("->", .symbol "->"), ("-", .minus),
    ("+", .symbol "+"), ("*", .symbol "*"), ("/", .symbol "/"), ("%", .symbol "%"),
    (";", .symbol ";"), ("\\", .symbol "\\"),
    ("[", .symbol "["), ("]", .symbol "]"), ("\x7b", .symbol "\x7b"), ("\x7d", .symbol "\x7d"),
    ("||/", .symbol "||/"), ("||", .symbol "||"), ("|/", .symbol "|/"), ("|", .symbol "|"),
    ("=>", .symbol "=>"), ("==", .symbol "=="), ("=", .symbol "="),
    ("&&", .symbol "&&"), ("&", .symbol "&"), ("^@", .symbol "^@"), ("^", .symbol "^"),
    ("!=", .symbol "<>"), ("!!", .symbol "!!"), ("!~~*", .symbol "!~~*"),
    ("!~~", .symbol "!~~"), ("!~*", .symbol "!~*"), ("!~", .symbol "!~"), ("!", .symbol "!"),
    ("<=>", .symbol "<=>"), ("<=", .symbol "<="), ("<>", .symbol "<>"), ("<<", .symbol "<<"),
    ("<@", .symbol "<@"), ("<", .symbol "<"),
    (">=", .symbol ">="), (">>", .symbol ">>"), (">", .symbol ">"),
    ("::", .symbol "::"), (":=", .symbol ":="), (":", .symbol ":"),
    ("~~*", .symbol "~~*"), ("~~", .symbol "~~"), ("~*", .symbol "~*"), ("~", .symbol "~")]

/-- The operator at the start of `cs`, as a token, and its number of characters. -/
def operator? (cs : List Char) : Option (Kind × Nat) :=
  (operators.find? fun (spelling, _) => spelling.toList.isPrefixOf cs).map
    fun (spelling, kind) => (kind, spelling.length)

/-! ### One token -/

/-- The result of reading one token: the token and the number of characters it takes, or a fault
and the number of characters from the start of the token to the place that is reported. -/
abbrev Scanned := Except (Fault × Nat) (Kind × Nat)

/-- A string whose opening quote is the character number `lead` of its token and whose characters
behind that quote are `cs`. An unclosed string is reported at its opening quote. -/
def scanString (style : QuoteStyle) (quote : Char) (escapes : Bool) (lead : Nat)
    (cs : List Char) : Scanned :=
  match quotedBody? quote escapes cs with
  | some body => .ok (.quoted style (String.ofList body), lead + body.length + 2)
  | none => .error (.unterminatedString, lead)

/-- A word in backticks whose characters behind the first one are `cs`. -/
def scanQuotedWord (cs : List Char) : Scanned :=
  match quotedBody? '\x60' false cs with
  | some body => .ok (.quotedWord (String.ofList body), body.length + 2)
  | none => .error (.unclosedQuotedWord, 0)

/-- An escaped string whose characters behind the opening quote are `cs`. It is reported at its
letter. -/
def scanEscapedString (cs : List Char) : Scanned :=
  match escapedBody? cs with
  | some (body, n) => .ok (.quoted .escaped (String.ofList body), n + 2)
  | none => .error (.unterminatedEscapedString, 0)

/-- A block comment whose characters behind `/*` are `cs`. An unclosed one is reported at the end
of the text. -/
def scanBlockComment (cs : List Char) : Scanned :=
  match blockCommentLength? cs with
  | some n => .ok (.comment, n + 2)
  | none => .error (.unclosedComment, cs.length + 2)

/-- A word of which the characters `lead` are certain and whose further characters begin `cs`. -/
def scanWord (lead cs : List Char) : Scanned :=
  .ok (.word (String.ofList (lead ++ wordParts cs)), lead.length + (wordParts cs).length)

/-- The token that begins with `@`, when `cs` are the characters behind it. One or two `@` before
a blank or a quote stand alone; otherwise they begin a word, with whatever character comes next,
be it a parenthesis or a line break. -/
def scanAt : List Char → Scanned
  | '>' :: _ => .ok (.symbol "@>", 2)
  | '?' :: _ => .ok (.symbol "@?", 2)
  | '@' :: [] => .ok (.symbol "@@", 2)
  | '@' :: c :: cs => if c = ' ' then .ok (.symbol "@@", 2) else scanWord ['@', '@', c] cs
  | [] => .ok (.symbol "@", 1)
  | c :: cs =>
    if c = ' ' || c = '\'' || c = '"' || c = '\x60' then .ok (.symbol "@", 1)
    else scanWord ['@', c] cs

/-- A placeholder `?` whose further characters begin `cs`. -/
def scanPlaceholder (cs : List Char) : Scanned :=
  let digits := cs.takeWhile Text.isNumeric
  .ok (.symbol (String.ofList ('?' :: digits)), digits.length + 1)

/-- The token of a character that opens no string and no comment: a word, an operator, or the
character itself. -/
def scanPlain (c : Char) (cs : List Char) : Scanned :=
  if isWordStart c then scanWord [c] cs
  else .ok ((operator? (c :: cs)).getD (.symbol (String.singleton c), 1))

/-- The token that begins with the character `c`, when `cs` are the characters behind it. -/
def scan (c : Char) (cs : List Char) : Scanned :=
  match c, cs with
  | ' ', _ | '\t', _ | '\n', _ | '\x0B', _ | '\x0C', _ => .ok (.blank, 1)
  | '\r', '\n' :: _ => .ok (.blank, 2)
  | '\r', _ => .ok (.blank, 1)
  | 'b', '\'' :: rest | 'B', '\'' :: rest => scanString .byteSingle '\'' false 1 rest
  | 'b', '"' :: rest | 'B', '"' :: rest => scanString .byteDouble '"' false 1 rest
  | 'n', '\'' :: rest | 'N', '\'' :: rest => scanString .national '\'' true 1 rest
  | 'e', '\'' :: rest | 'E', '\'' :: rest => scanEscapedString rest
  | 'x', '\'' :: rest | 'X', '\'' :: rest => scanString .hexadecimal '\'' true 1 rest
  | '\'', rest => scanString .single '\'' true 0 rest
  | '"', rest => scanString .double '"' true 0 rest
  | '\x60', rest => scanQuotedWord rest
  | '-', '-' :: rest => .ok (.comment, lineCommentLength rest + 2)
  | '#', rest => .ok (.comment, lineCommentLength rest + 1)
  | '/', '*' :: rest => scanBlockComment rest
  | '@', rest => scanAt rest
  | '?', rest => scanPlaceholder rest
  | c, rest => if c.isDigit || c = '.' then .ok (number (c :: rest)) else scanPlain c rest

/-! ### All tokens -/

/-- The tokens of a text, as far as it could be read. -/
structure Lexed where
  tokens : List Token
  /-- Where and why reading stopped before the end of the text. -/
  breakdown : Option Breakdown
deriving DecidableEq, Repr

/-- The tokens of the text `cs`, whose first character stands at `location`. -/
def lexFrom (location : Text.Location) : List Char → Lexed
  | [] => ⟨[], none⟩
  | c :: cs =>
    match scan c cs with
    | .error (fault, n) => ⟨[], some ⟨fault, location.afterAll ((c :: cs).take n)⟩⟩
    | .ok (kind, n) =>
      let rest := lexFrom (location.afterAll (c :: cs.take (n - 1))) (cs.drop (n - 1))
      ⟨⟨kind, location⟩ :: rest.tokens, rest.breakdown⟩
termination_by cs => cs.length
decreasing_by simp only [List.length_cons, List.length_drop]; omega

/-- The tokens of a text. -/
def lex (text : String) : Lexed :=
  lexFrom .start text.toList

end CreateTable
