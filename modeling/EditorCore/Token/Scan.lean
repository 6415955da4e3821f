import EditorCore.Text.Columns
import EditorCore.Token.Kind

/-!
# Scanning one token

Every kind of token is told by its first character and the text after it,
so a scan answers with a kind and a **count**: how many further characters
the token takes. Each rule takes as much as it can, and where two rules
begin alike the longer one wins – a line comment over an operator, three
quotes over an empty string, a hexadecimal number over a lone zero.

A count rather than a pair of texts keeps the lexer's main law out of the
rules: whatever a rule counts, the token and the text after it make up the
whole.
-/

namespace EditorCore

/-! ## Character classes -/

/-- Blanks between tokens. -/
def isSpace (c : Char) : Bool := c == ' ' || c == '\t' || c == '\r' || c == '\n'

/-- The characters that end a line comment or an open literal. -/
def isLineEnd (c : Char) : Bool := c == '\r' || c == '\n'

/-- The characters operators are made of. -/
def isSymbol (c : Char) : Bool :=
  ['-', '!', '#', '$', '%', '&', '*', '+', '.', '/', '<', '=', '>', '?', '@', '\\',
    '^', '|', '~', ':'].contains c

/-- The characters that continue an identifier. -/
def isNameChar (c : Char) : Bool := c.isAlphanum || c == '_'

/-- The characters that start a lower-case identifier. -/
def isLowerStart (c : Char) : Bool := c.isLower || c == '_'

/-- Hexadecimal digits of either case. -/
def isHexDigit (c : Char) : Bool :=
  c.isDigit || ('a' ≤ c && c ≤ 'f') || ('A' ≤ c && c ≤ 'F')

/-! ## Reserved words and punctuation -/

/-- The reserved words. -/
def reservedWords : List (Text × TokenKind) :=
  [("alias".toList, .kwAlias),
   ("as".toList, .kwAs),
   ("case".toList, .kwCase),
   ("else".toList, .kwElse),
   ("exposing".toList, .kwExposing),
   ("if".toList, .kwIf),
   ("import".toList, .kwImport),
   ("in".toList, .kwIn),
   ("infix".toList, .kwInfix),
   ("let".toList, .kwLet),
   ("module".toList, .kwModule),
   ("of".toList, .kwOf),
   ("port".toList, .kwPort),
   ("then".toList, .kwThen),
   ("type".toList, .kwType),
   ("where".toList, .kwWhere)]

/-- The kind of a word that starts like a lower-case identifier. -/
def wordKind (word : Text) : TokenKind := (reservedWords.lookup word).getD .lowerIdent

/-- The kind of a punctuation character; anything else starts no token. -/
def punctuationKind : Char → TokenKind
  | '(' => .leftParen
  | ')' => .rightParen
  | '[' => .leftBracket
  | ']' => .rightBracket
  | '{' => .leftBrace
  | '}' => .rightBrace
  | ',' => .comma
  | ';' => .semicolon
  | '\x60' => .backtick
  | _ => .error

namespace Scan

/-! ## Counting -/

/-- How many leading characters satisfy `p`. -/
def run (p : Char → Bool) (t : Text) : Nat := (t.takeWhile p).length

/-- **The rest of a block comment**, inside `depth` further ones: up to and
including the delimiter that closes it, or everything when none does. -/
def blockComment (depth : Nat) : Text → Nat
  | '{' :: '-' :: t => blockComment (depth + 1) t + 2
  | '-' :: '}' :: t =>
    match depth with
    | 0 => 2
    | depth + 1 => blockComment depth t + 2
  | _ :: t => blockComment depth t + 1
  | [] => 0

/-- **The rest of a triple-quoted string**: up to and including the first
three quotes that no backslash skips. A backslash skips the character
after it; `none` when the text ends first. -/
def tripleQuoted : Text → Option Nat
  | '\\' :: _ :: t => (tripleQuoted t).map (· + 2)
  | '"' :: '"' :: '"' :: _ => some 3
  | _ :: t => (tripleQuoted t).map (· + 1)
  | [] => none

/-- **The rest of a literal** after its opening `quote`, and whether the
closing one was found. A backslash takes the character after it along,
unless that is a line feed; a line end leaves the literal open. -/
def literal (quote : Char) : Text → Nat × Bool
  | [] => (0, false)
  | '\\' :: c :: t =>
    if c = '\n' then (0, false)
    else let (n, closed) := literal quote t; (n + 2, closed)
  | c :: t =>
    if c = quote then (1, true)
    else if c = '\\' || isLineEnd c then (0, false)
    else let (n, closed) := literal quote t; (n + 1, closed)

/-- The rest of a decimal number: digits, and a point with the digits that
may follow it. -/
def decimal (t : Text) : Nat :=
  let whole := run Char.isDigit t
  match t.drop whole with
  | '.' :: fraction => whole + 1 + run Char.isDigit fraction
  | _ => whole

/-- The rest of a number that starts with the digit `c`. -/
def number (c : Char) (t : Text) : Nat :=
  match c, t with
  | '0', 'x' :: digits => run isHexDigit digits + 1
  | _, _ => decimal t

/-! ## The rules -/

/-- What `"` starts. Three quotes without their closing three are an error
that takes the rest of the source. -/
def stringLiteral (t : Text) : TokenKind × Nat :=
  match t with
  | '"' :: '"' :: body =>
    match tripleQuoted body with
    | some n => (.multilineString, n + 2)
    | none => (.error, t.length)
  | _ =>
    let (n, closed) := literal '"' t
    (if closed then .string else .unterminatedString, n)

/-- What `'` starts. -/
def charLiteral (t : Text) : TokenKind × Nat :=
  let (n, closed) := literal '\'' t
  (if closed then .char else .unterminatedChar, n)

/-- **The token that starts with `c`**: its kind and how many characters of
the text after `c` it takes. -/
def token (c : Char) (t : Text) : TokenKind × Nat :=
  if isSpace c then (.whitespace, run isSpace t)
  else if isSymbol c then
    if c = '-' && t.head? = some '-' then (.lineComment, run (!isLineEnd ·) t)
    else (.operator, run isSymbol t)
  else if isLowerStart c then
    (wordKind (c :: t.takeWhile isNameChar), run isNameChar t)
  else if c.isUpper then (.upperIdent, run isNameChar t)
  else if c.isDigit then (.number, number c t)
  else if c = '"' then stringLiteral t
  else if c = '\'' then charLiteral t
  else if c = '{' && t.head? = some '-' then
    (.blockComment, blockComment 0 t.tail + 1)
  else (punctuationKind c, 0)

end Scan

end EditorCore
