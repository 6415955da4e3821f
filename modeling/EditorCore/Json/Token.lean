import EditorCore.Json.Value
import EditorCore.Text.Digits

/-!
# JSON tokens

A JSON text is a sequence of tokens with blanks between them. Reading cuts
it into tokens; writing puts the texts of the tokens together without any
blank, which the grammar of values allows: two numbers or two words never
meet.

In a string, writing escapes the quote, the backslash and the control
characters below the space, the latter by letter where one is defined;
everything else stands for itself. Reading accepts every escape of the
format. Escapes may write a character beyond the basic plane by halves,
and a half on its own makes the string one without a text.
-/

namespace EditorCore

/-- A token of a JSON text. -/
inductive JsonToken
  | leftBrace | rightBrace | leftBracket | rightBracket | comma | colon
  | null
  | bool (value : Bool)
  | number (value : Numeral)
  | string (value : Option Text)
  deriving DecidableEq, Repr

/-- The blanks between tokens. -/
def isJsonBlank (c : Char) : Bool := c == ' ' || c == '\n' || c == '\t' || c == '\r'

/-! ## Numbers -/

namespace Numeral

/-- The digits a text starts with; `none` when there are none. -/
def digits? (t : Text) : Option Text :=
  let ds := t.takeWhile Char.isDigit
  if ds.isEmpty then none else some ds

/-- Reads a whole part: a zero on its own, or digits that start with another.
Answers it with the number of characters it takes. -/
def scanWhole? (t : Text) : Option (Nat × Nat) :=
  if t.head? = some '0' then some (0, 1)
  else (digits? t).map fun ds => (Nat.ofDigitChars 10 ds 0, ds.length)

/-- Reads a fraction, which may be missing. -/
def scanFraction? : Text → Option (Option Text × Nat)
  | '.' :: t => (digits? t).map fun ds => (some ds, ds.length + 1)
  | _ => some (none, 0)

/-- Reads the sign of an exponent, which may be missing. -/
def scanSign : Text → Bool × Nat
  | '-' :: _ => (true, 1)
  | '+' :: _ => (false, 1)
  | _ => (false, 0)

/-- Reads an exponent, which may be missing. -/
def scanExponent? : Text → Option (Option (Bool × Text) × Nat)
  | c :: t =>
    if c = 'e' || c = 'E' then
      let (negative, n) := scanSign t
      (digits? (t.drop n)).map fun ds => (some (negative, ds), ds.length + n + 1)
    else some (none, 0)
  | [] => some (none, 0)

/-- **Reads a number.** -/
def scan? (t : Text) : Option (Numeral × Nat) := do
  let start := if t.head? = some '-' then 1 else 0
  let (whole, n) ← scanWhole? (t.drop start)
  let (fraction, m) ← scanFraction? (t.drop (start + n))
  let (exponent, k) ← scanExponent? (t.drop (start + n + m))
  return (⟨start = 1, whole, fraction, exponent⟩, start + n + m + k)

/-- Writes a number. -/
def render (n : Numeral) : Text :=
  (if n.negative then ['-'] else []) ++ Text.ofNat n.whole ++
    (match n.fraction with
      | none => []
      | some ds => '.' :: ds) ++
    (match n.exponent with
      | none => []
      | some (negative, ds) => 'e' :: (if negative then '-' :: ds else ds))

end Numeral

/-! ## Strings -/

namespace JsonString

/-- The first half of a surrogate pair. -/
def isHighHalf (p : Nat) : Bool := 0xd800 ≤ p && p < 0xdc00

/-- The second half of a surrogate pair. -/
def isLowHalf (p : Nat) : Bool := 0xdc00 ≤ p && p < 0xe000

/-- **The text that code points spell**; `none` when half of a surrogate pair
stands alone. -/
def textOf? : List Nat → Option Text
  | [] => some []
  | [p] => if isHighHalf p || isLowHalf p then none else some [.ofNat p]
  | p :: q :: ps =>
    if isHighHalf p && isLowHalf q then
      (textOf? ps).map (.ofNat (0x10000 + (p - 0xd800) * 0x400 + (q - 0xdc00)) :: ·)
    else if isHighHalf p || isLowHalf p then none
    else (textOf? (q :: ps)).map (.ofNat p :: ·)

/-- The code point a one-letter escape stands for. -/
def escaped? : Char → Option Nat
  | '"' => some 0x22
  | '\\' => some 0x5c
  | '/' => some 0x2f
  | 'b' => some 0x08
  | 'f' => some 0x0c
  | 'n' => some 0x0a
  | 'r' => some 0x0d
  | 't' => some 0x09
  | _ => none

/-- **Reads a string** after its opening quote: its code points, and how many
characters it takes with its closing quote. -/
def scan? : Text → Option (List Nat × Nat)
  | [] => none
  | '"' :: _ => some ([], 1)
  | '\\' :: 'u' :: a :: b :: c :: d :: t => do
    let p ← Text.digits? 16 [a, b, c, d]
    let (ps, n) ← scan? t
    return (p :: ps, n + 6)
  | '\\' :: e :: t => do
    let p ← escaped? e
    let (ps, n) ← scan? t
    return (p :: ps, n + 2)
  | c :: t =>
    if c < ' ' || c = '\\' then none
    else do
      let (ps, n) ← scan? t
      return (c.toNat :: ps, n + 1)

/-- A lower-case hexadecimal digit. -/
def hexDigit (n : Nat) : Char := n.digitChar

/-- Writes a character of a string. -/
def escape (c : Char) : Text :=
  if c = '"' then ['\\', '"']
  else if c = '\\' then ['\\', '\\']
  else if c = '\x08' then ['\\', 'b']
  else if c = '\x0c' then ['\\', 'f']
  else if c = '\n' then ['\\', 'n']
  else if c = '\r' then ['\\', 'r']
  else if c = '\t' then ['\\', 't']
  else if c < ' ' then ['\\', 'u', '0', '0', hexDigit (c.toNat / 16), hexDigit (c.toNat % 16)]
  else [c]

/-- **Writes a string** with its quotes. One without a text is written as the
half of a pair that it holds at least. -/
def render : Option Text → Text
  | some t => '"' :: (t.flatMap escape ++ ['"'])
  | none => ['"', '\\', 'u', 'd', '8', '0', '0', '"']

end JsonString

/-! ## Tokens -/

namespace JsonToken

/-- **The token that starts with `c`**, and how many characters of the text
after `c` it takes. -/
def scan? (c : Char) (t : Text) : Option (JsonToken × Nat) :=
  match c with
  | '{' => some (leftBrace, 0)
  | '}' => some (rightBrace, 0)
  | '[' => some (leftBracket, 0)
  | ']' => some (rightBracket, 0)
  | ',' => some (comma, 0)
  | ':' => some (colon, 0)
  | '"' => (JsonString.scan? t).map fun (ps, n) => (string (JsonString.textOf? ps), n)
  | 'n' => if ['u', 'l', 'l'].isPrefixOf t then some (null, 3) else none
  | 't' => if ['r', 'u', 'e'].isPrefixOf t then some (bool true, 3) else none
  | 'f' => if ['a', 'l', 's', 'e'].isPrefixOf t then some (bool false, 4) else none
  | _ => (Numeral.scan? (c :: t)).map fun (n, k) => (number n, k - 1)

/-- **The tokens of a text.** -/
def ofText? : Text → Option (List JsonToken)
  | [] => some []
  | c :: t =>
    if isJsonBlank c then ofText? t
    else match scan? c t with
      | none => none
      | some (token, n) => (ofText? (t.drop n)).map (token :: ·)
termination_by t => t.length
decreasing_by
  · simp
  · simp only [List.length_drop, List.length_cons]; omega

/-- The text of a token. -/
def render : JsonToken → Text
  | leftBrace => ['{']
  | rightBrace => ['}']
  | leftBracket => ['[']
  | rightBracket => [']']
  | comma => [',']
  | colon => [':']
  | null => ['n', 'u', 'l', 'l']
  | bool true => ['t', 'r', 'u', 'e']
  | bool false => ['f', 'a', 'l', 's', 'e']
  | number n => n.render
  | string s => JsonString.render s

end JsonToken

end EditorCore
