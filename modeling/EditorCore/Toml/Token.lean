import EditorCore.Text.Digits

/-!
# TOML tokens

The tokens of a TOML text mean the same wherever they stand: punctuation,
strings, line feeds, runs of blanks, and **atoms**, the runs of everything
else. An atom may be a key, or part of a key or of a value: only the
grammar tells.

A comment takes the rest of its line, and a line may end wherever a comment
may stand, so comments are left out. Control characters other than the tab
are refused in comments and strings, and a carriage return stands before a
line feed or nowhere.
-/

namespace EditorCore

/-- A token of a TOML text. -/
inductive TomlToken
  | leftBracket | rightBracket | leftBrace | rightBrace
  | dot | equals | comma
  | newline
  /-- Spaces and tabs. -/
  | blanks (text : Text)
  | atom (text : Text)
  /-- A string; `multiline` when it is in triple quotes. -/
  | string (multiline : Bool) (value : Text)
  deriving DecidableEq, Repr

namespace TomlToken

/-- Spaces and tabs. -/
def isBlankChar (c : Char) : Bool := c == ' ' || c == '\t'

/-- The characters that end an atom. -/
def endsAtom (c : Char) : Bool :=
  [' ', '\t', '\r', '\n', '.', '=', ',', '[', ']', '{', '}', '#', '"', '\''].contains c

/-- The characters that stand for themselves in comments and strings. -/
def isPlain (c : Char) : Bool := c == '\t' || (' ' ≤ c && c != '\x7f')

/-! ## Strings -/

/-- The character that hexadecimal digits name; surrogates name none. -/
def charOfHex? (digits : Text) : Option Char := do
  let n ← Text.digits? 16 digits
  if n.isValidChar then some (.ofNat n) else none

/-- **Reads an escape** after its backslash: its character, and how many
characters it takes. -/
def escape? : Text → Option (Char × Nat)
  | 'b' :: _ => some ('\x08', 1)
  | 't' :: _ => some ('\t', 1)
  | 'n' :: _ => some ('\n', 1)
  | 'f' :: _ => some ('\x0c', 1)
  | 'r' :: _ => some ('\r', 1)
  | 'e' :: _ => some ('\x1b', 1)
  | '"' :: _ => some ('"', 1)
  | '\\' :: _ => some ('\\', 1)
  | 'x' :: t => if 2 ≤ t.length then (charOfHex? (t.take 2)).map ((·, 3)) else none
  | 'u' :: t => if 4 ≤ t.length then (charOfHex? (t.take 4)).map ((·, 5)) else none
  | 'U' :: t => if 8 ≤ t.length then (charOfHex? (t.take 8)).map ((·, 9)) else none
  | _ => none

/-- A string so far, one more part before it. -/
def prepend (part : Text) (count : Nat) : Option (Text × Nat) → Option (Text × Nat)
  | none => none
  | some (s, n) => some (part ++ s, n + count)

/-- **Reads a string in double quotes** after the opening one: its value, and
how many characters it takes with its closing quote. -/
def basic? : Text → Option (Text × Nat)
  | [] => none
  | '"' :: _ => some ([], 1)
  | '\\' :: t =>
    match escape? t with
    | none => none
    | some (c, n) => prepend [c] (n + 1) (basic? (t.drop n))
  | c :: t => if isPlain c then prepend [c] 1 (basic? t) else none
termination_by t => t.length
decreasing_by
  · simp only [List.length_drop, List.length_cons]; omega
  · simp

/-- Reads a string in single quotes after the opening one. -/
def literal? : Text → Option (Text × Nat)
  | [] => none
  | '\'' :: _ => some ([], 1)
  | c :: t => if isPlain c then prepend [c] 1 (literal? t) else none

/-- How many characters a line feed takes at the start of a text. -/
def lineFeed? : Text → Option Nat
  | '\n' :: _ => some 1
  | '\r' :: '\n' :: _ => some 2
  | _ => none

/-- The text after blanks and line feeds, and how many characters they take. -/
def skipLines : Text → Nat
  | [] => 0
  | '\r' :: '\n' :: t => skipLines t + 2
  | c :: t => if isBlankChar c || c == '\n' then skipLines t + 1 else 0

/-- How many characters a backslash at the end of a line takes away, itself
not counted: the blanks before the line feed, and all blanks and line feeds
after it. -/
def lineJoin? (t : Text) : Option Nat :=
  let blanks := (t.takeWhile isBlankChar).length
  (lineFeed? (t.drop blanks)).map fun n => blanks + n + skipLines (t.drop (blanks + n))

/-- How many of up to five quotes belong to a string that they end, and how
many there are; `none` when they are fewer than three. -/
def closing? (quote : Char) (t : Text) : Option (Nat × Nat) :=
  let n := ((t.take 5).takeWhile (· == quote)).length
  if 3 ≤ n then some (n - 3, n) else none

/-- **Reads a string in triple quotes** after the opening ones. Only in
double ones does a backslash escape. -/
def multiline? (quote : Char) (t : Text) : Option (Text × Nat) :=
  match closing? quote t with
  | some (own, n) => some (List.replicate own quote, n)
  | none =>
    match t with
    | [] => none
    | '\r' :: '\n' :: rest => prepend ['\n'] 2 (multiline? quote rest)
    | c :: rest =>
      if c = '\\' ∧ quote = '"' then
        match lineJoin? rest with
        | some n => prepend [] (n + 1) (multiline? quote (rest.drop n))
        | none =>
          match escape? rest with
          | none => none
          | some (e, n) => prepend [e] (n + 1) (multiline? quote (rest.drop n))
      else if isPlain c || c = '\n' then prepend [c] 1 (multiline? quote rest)
      else none
termination_by t.length
decreasing_by
  · simp only [List.length_cons]; omega
  · simp only [List.length_drop, List.length_cons]; omega
  · simp only [List.length_drop, List.length_cons]; omega
  · simp

/-- Reads a string after its first quote. A line feed right after three quotes
is not part of the string. -/
def string? (quote : Char) (t : Text) : Option (TomlToken × Nat) :=
  match t with
  | q :: q' :: body =>
    if q = quote ∧ q' = quote then
      let n := (lineFeed? body).getD 0
      (multiline? quote (body.drop n)).map fun (s, m) => (string true s, m + n + 2)
    else single
  | _ => single
where
  /-- Reads a string on one line. -/
  single : Option (TomlToken × Nat) :=
    (if quote = '"' then basic? t else literal? t).map fun (s, n) => (string false s, n)

/-! ## Tokens -/

/-- **The token that starts with `c`**, if it is not left out, and how many
characters of the text after `c` it takes. -/
def scan? (c : Char) (t : Text) : Option (Option TomlToken × Nat) :=
  match c with
  | '[' => some (some leftBracket, 0)
  | ']' => some (some rightBracket, 0)
  | '{' => some (some leftBrace, 0)
  | '}' => some (some rightBrace, 0)
  | '.' => some (some dot, 0)
  | '=' => some (some equals, 0)
  | ',' => some (some comma, 0)
  | '\n' => some (some newline, 0)
  | '\r' => if t.head? = some '\n' then some (some newline, 1) else none
  | '"' => (string? '"' t).map fun (token, n) => (some token, n)
  | '\'' => (string? '\'' t).map fun (token, n) => (some token, n)
  | '#' =>
    let comment := t.takeWhile fun c => c != '\n'
    let comment := if comment.getLast? = some '\r' ∧ comment.length < t.length then
      comment.dropLast else comment
    if comment.all isPlain then some (none, comment.length) else none
  | _ =>
    if isBlankChar c then
      let more := t.takeWhile isBlankChar
      some (some (blanks (c :: more)), more.length)
    else
      let more := t.takeWhile (!endsAtom ·)
      some (some (atom (c :: more)), more.length)

/-- **The tokens of a text.** -/
def ofText? : Text → Option (List TomlToken)
  | [] => some []
  | c :: t =>
    match scan? c t with
    | none => none
    | some (token, n) => (ofText? (t.drop n)).map (token.toList ++ ·)
termination_by t => t.length
decreasing_by simp only [List.length_drop, List.length_cons]; omega

end TomlToken

end EditorCore
