import EditorCore.Json.Token

/-!
# Reading and writing JSON values

The tokens of a text are read in one pass, each of them once. What is still
open – the arrays and objects around the place being read, with what they
have so far – waits on a stack, so that nesting is only the height of that
stack. Writing lists the tokens of a value, and reading what was written
gives the value back.
-/

namespace EditorCore.Json

/-! ## Reading -/

/-- An array or object that is still open. -/
inductive Frame
  /-- An array, with the items before the one being read. -/
  | array (items : List Json)
  /-- An object, with the members before the one being read and its key. -/
  | object (members : List (Option Text × Json)) (key : Option Text)

/-- What is expected next. -/
inductive Expecting
  | value
  /-- The first item of an array, or its end. -/
  | firstItem
  /-- The first key of an object, or its end. -/
  | firstKey
  /-- The next key of an object that has these members. -/
  | key (members : List (Option Text × Json))
  /-- The colon after a key. -/
  | colon (members : List (Option Text × Json)) (key : Option Text)
  /-- What may follow a value that has been read. -/
  | after (value : Json)

/-- Takes the token that starts a value. -/
def start? (frames : List Frame) : JsonToken → Option (Expecting × List Frame)
  | .null => some (.after .null, frames)
  | .bool b => some (.after (.bool b), frames)
  | .number n => some (.after (.number n), frames)
  | .string s => some (.after (.string s), frames)
  | .leftBracket => some (.firstItem, frames)
  | .leftBrace => some (.firstKey, frames)
  | _ => none

/-- **Takes one token** inside the open arrays and objects. -/
def step? (frames : List Frame) : Expecting → JsonToken → Option (Expecting × List Frame)
  | .value, token => start? frames token
  | .firstItem, .rightBracket => some (.after (.array []), frames)
  | .firstItem, token => start? (.array [] :: frames) token
  | .firstKey, .rightBrace => some (.after (.object []), frames)
  | .firstKey, .string key => some (.colon [] key, frames)
  | .key members, .string key => some (.colon members key, frames)
  | .colon members key, .colon => some (.value, .object members key :: frames)
  | .after j, token =>
    match frames, token with
    | .array items :: frames, .comma => some (.value, .array (items ++ [j]) :: frames)
    | .array items :: frames, .rightBracket => some (.after (.array (items ++ [j])), frames)
    | .object members key :: frames, .comma => some (.key (members ++ [(key, j)]), frames)
    | .object members key :: frames, .rightBrace =>
      some (.after (.object (members ++ [(key, j)])), frames)
    | _, _ => none
  | _, _ => none

/-- **The value that tokens write**, all of them together. -/
def ofTokens? (tokens : List JsonToken) : Option Json :=
  match tokens.foldlM (fun (state, frames) token => step? frames state token) (.value, []) with
  | some (.after j, []) => some j
  | _ => none

/-- **The value that a text writes.** -/
def ofText? (t : Text) : Option Json := (JsonToken.ofText? t).bind ofTokens?

/-! ## Writing -/

mutual

/-- **The tokens of a value.** -/
def tokens : Json → List JsonToken
  | null => [.null]
  | bool b => [.bool b]
  | number n => [.number n]
  | string s => [.string s]
  | array items => .leftBracket :: (itemTokens items ++ [.rightBracket])
  | object members => .leftBrace :: (memberTokens members ++ [.rightBrace])

/-- The tokens of items, with commas between them. -/
def itemTokens : List Json → List JsonToken
  | [] => []
  | [j] => tokens j
  | j :: js => tokens j ++ .comma :: itemTokens js

/-- The tokens of members, with commas between them. -/
def memberTokens : List (Option Text × Json) → List JsonToken
  | [] => []
  | [(key, j)] => .string key :: .colon :: tokens j
  | (key, j) :: ms => .string key :: .colon :: (tokens j ++ .comma :: memberTokens ms)

end

/-- **The text of a value**, without blanks. -/
def render (j : Json) : Text := j.tokens.flatMap JsonToken.render

end EditorCore.Json
