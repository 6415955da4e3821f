import EditorCore.Toml.Scalar
import EditorCore.Toml.Table
import EditorCore.Toml.Token

/-!
# Reading TOML documents

The tokens of a document are read in one pass, each of them once. What is
expected next is a state; arrays and inline tables that are still open wait
on a stack, each with what it has so far. A statement is complete at the
end of its line. Only brackets and braces may hold several lines, and there
a line may end anywhere but within a key or an unquoted value. Nesting has
a limit, and so has the length of a key.

An unquoted value may be several tokens: a point stands between two atoms
of a float, and a single space between a date and its time. Its text is put
together before it is read.
-/

namespace EditorCore

namespace Toml

/-- What a key is read for. -/
inductive KeyUse
  /-- The header of a table. -/
  | header
  /-- A header in double brackets. -/
  | arrayHeader
  /-- An assignment of its own. -/
  | assignment
  /-- An assignment in the inline table that is open and has these entries. -/
  | member (entries : Entries)

/-- An array or inline table that is still open. -/
inductive Frame
  /-- An array, with the items before the one being read. -/
  | array (items : List Toml)
  /-- An inline table, with the entries before the one being read and the
  path of that one. -/
  | table (entries : Entries) (path : List Text)

/-- What is expected next. -/
inductive Expecting
  /-- A statement, or the end of the line. -/
  | statement
  /-- The key of a header, or another bracket. -/
  | bracket
  /-- A segment of a key, after these ones. -/
  | segment (use : KeyUse) (path : List Text)
  /-- What may follow a segment of a key. -/
  | afterSegment (use : KeyUse) (path : List Text)
  /-- The equals sign after the key of an inline table that has these entries,
  where the line has ended after the key. -/
  | equals (entries : Entries) (path : List Text)
  /-- The second of two closing brackets. -/
  | closingBracket (path : List Text)
  | value
  /-- More of an unquoted value. -/
  | scalar (text : Text)
  /-- What may follow a blank after an unquoted value. -/
  | scalarBlank (text blanks : Text)
  /-- An item of an array that has these, or its end. -/
  | item (items : List Toml)
  /-- What may follow the items of an array. -/
  | afterItem (items : List Toml)
  /-- A key of an inline table that has these entries, or its end. -/
  | member (entries : Entries)
  /-- What may follow the entries of an inline table. -/
  | afterMember (entries : Entries)
  /-- The end of the line. -/
  | lineEnd

/-- **A document being read**: its statements so far, the path of the
assignment being read, and what is open. -/
structure Reading where
  statements : List TomlStatement
  path : List Text
  frames : List Frame
  expecting : Expecting

namespace Reading

/-- A document of which nothing has been read. -/
def start : Reading := ⟨[], [], [], .statement⟩

/-- How deep arrays and inline tables may be nested. -/
def maxDepth : Nat := 80

/-- How many segments a key may have. -/
def maxSegments : Nat := 80

/-- Goes on to expect something else. -/
def expect (r : Reading) (e : Expecting) : Reading := { r with expecting := e }

/-- A statement is complete. -/
def emit (r : Reading) (s : TomlStatement) : Reading :=
  { r with statements := r.statements ++ [s], expecting := .lineEnd }

/-- **A value is complete**: it goes to the innermost array or inline table
that is open, or to the assignment. -/
def complete? (r : Reading) (v : Toml) : Option Reading :=
  match r.frames with
  | [] => some (r.emit (.assignment r.path v))
  | .array items :: frames =>
    some { r with frames, expecting := .afterItem (items ++ [v]) }
  | .table entries path :: frames =>
    (assign? v path entries).map fun entries =>
      { r with frames, expecting := .afterMember entries }

/-- Adds a segment to a key, unless the key has all it may have. -/
def extend? (r : Reading) (use : KeyUse) (path : List Text) (segment : Text) : Option Reading :=
  if path.length < maxSegments then some (r.expect (.afterSegment use (path ++ [segment])))
  else none

/-- Takes a segment of a key: an atom of the letters that need no quotes, or a
string on one line. -/
def segment? (r : Reading) (use : KeyUse) (path : List Text) : TomlToken → Option Reading
  | .atom t =>
    if t.all fun c => c.isAlphanum || c == '_' || c == '-' then r.extend? use path t else none
  | .string false t => r.extend? use path t
  | .blanks _ => some (r.expect (.segment use path))
  | _ => none

/-- Takes what ends a key. -/
def keyEnd? (r : Reading) (path : List Text) : KeyUse → TomlToken → Option Reading
  | .header, .rightBracket => some (r.emit (.header false path))
  | .arrayHeader, .rightBracket => some (r.expect (.closingBracket path))
  | .assignment, .equals => some { r with path, expecting := .value }
  | .member entries, .equals =>
    some { r with frames := .table entries path :: r.frames, expecting := .value }
  | _, _ => none

/-- Takes what starts a value, which within braces may be on a later line. -/
def value? (r : Reading) : TomlToken → Option Reading
  | .blanks _ => some (r.expect .value)
  | .newline => if r.frames.isEmpty then none else some (r.expect .value)
  | .string _ s => r.complete? (.string s)
  | .atom t => some (r.expect (.scalar t))
  | .leftBracket => if r.frames.length < maxDepth then some (r.expect (.item [])) else none
  | .leftBrace => if r.frames.length < maxDepth then some (r.expect (.member [])) else none
  | _ => none

/-- Takes a token that follows a complete value. -/
def follow? (r : Reading) : TomlToken → Option Reading :=
  match r.expecting with
  | .lineEnd => fun
    | .blanks _ => some r
    | .newline => some (r.expect .statement)
    | _ => none
  | .afterItem items => fun
    | .blanks _ | .newline => some r
    | .comma => some (r.expect (.item items))
    | .rightBracket => r.complete? (.array false items)
    | _ => none
  | .afterMember entries => fun
    | .blanks _ | .newline => some r
    | .comma => some (r.expect (.member entries))
    | .rightBrace => r.complete? (.table .inline entries)
    | _ => none
  | _ => fun _ => none

/-- Reads an unquoted value that has ended. -/
def scalarEnd? (r : Reading) (t : Text) : Option Reading := (scalar? t).bind r.complete?

/-- **Takes one token.** -/
def step? (r : Reading) (token : TomlToken) : Option Reading :=
  match r.expecting with
  | .statement =>
    match token with
    | .blanks _ | .newline => some r
    | .leftBracket => some (r.expect .bracket)
    | token => r.segment? .assignment [] token
  | .bracket =>
    match token with
    | .leftBracket => some (r.expect (.segment .arrayHeader []))
    | token => r.segment? .header [] token
  | .segment use path => r.segment? use path token
  | .afterSegment use path =>
    match use, token with
    | _, .blanks _ => some r
    | use, .dot => some (r.expect (.segment use path))
    | .member entries, .newline => some (r.expect (.equals entries path))
    | use, token => r.keyEnd? path use token
  | .equals entries path =>
    match token with
    | .blanks _ | .newline => some r
    | token => r.keyEnd? path (.member entries) token
  | .closingBracket path =>
    match token with
    | .rightBracket => some (r.emit (.header true path))
    | _ => none
  | .value => r.value? token
  | .scalar t =>
    match token with
    | .atom more => some (r.expect (.scalar (t ++ more)))
    | .dot => some (r.expect (.scalar (t ++ ['.'])))
    | .blanks b => some (r.expect (.scalarBlank t b))
    | token => (r.scalarEnd? t).bind (·.follow? token)
  | .scalarBlank t b =>
    match token with
    | .atom more => if b = [' '] ∧ isDate t then some (r.expect (.scalar (t ++ b ++ more))) else none
    | token => (r.scalarEnd? t).bind (·.follow? token)
  | .item items =>
    match token with
    | .blanks _ | .newline => some r
    | .rightBracket => r.complete? (.array false items)
    | token => { r with frames := .array items :: r.frames }.value? token
  | .member entries =>
    match token with
    | .blanks _ | .newline => some r
    | .rightBrace => r.complete? (.table .inline entries)
    | token => r.segment? (.member entries) [] token
  | .lineEnd | .afterItem _ | .afterMember _ => r.follow? token

/-- The statements, when the document may end here. -/
def finish? (r : Reading) : Option (List TomlStatement) :=
  match r.expecting with
  | .statement | .lineEnd => some r.statements
  | .scalar t | .scalarBlank t _ =>
    match r.scalarEnd? t with
    | some ⟨statements, _, _, .lineEnd⟩ => some statements
    | _ => none
  | _ => none

end Reading

/-- The text after a byte order mark that may start it. -/
def dropMark : Text → Text
  | '\ufeff' :: t => t
  | t => t

/-- **The table that a text writes.** -/
def ofText? (t : Text) : Option Entries := do
  let tokens ← TomlToken.ofText? (dropMark t)
  let reading ← tokens.foldlM Reading.step? .start
  ofStatements? (← reading.finish?)

end Toml

end EditorCore
