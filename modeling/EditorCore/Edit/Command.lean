import EditorCore.Edit.Indent
import EditorCore.Edit.Pairs

/-!
# Edit commands and their keys

A key is bound to an edit command, or to compiling the buffer. Editors name
character keys in single quotes, and the bare character is accepted as
well.
-/

namespace EditorCore

/-- What a key does to the buffer. -/
inductive EditCommand
  /-- Typing an opening character, with the one that closes it. -/
  | openPair (opening closing : Char)
  /-- Typing a closing character. -/
  | closePair (closing : Char)
  | indent (direction : IndentDirection)
  | backspace
  deriving DecidableEq, Repr

/-- **Plans a command** for the selections. Only indentation can fail, over a sum of widths
that is no word. -/
def EditCommand.plan (command : EditCommand) (source : TokenSource) (ss : List Selection)
    (settings : IndentSettings) : Option KeyOutcome :=
  match command with
  | .openPair opening closing => some (EditorCore.openPair source ss opening closing)
  | .closePair closing => some (EditorCore.closePair source ss closing)
  | .indent direction => EditorCore.indent source ss settings direction
  | .backspace => some (EditorCore.backspace source ss)

/-- What a bound key does. -/
inductive KeyBinding
  | edit (command : EditCommand)
  /-- Submits the buffer. -/
  | compile
  deriving DecidableEq, Repr

namespace KeyBinding

/-- A key name without the quotes around it; quotes around nothing are no
quotes. -/
def bareName (name : Text) : Text :=
  match name with
  | '\'' :: rest =>
    if rest.getLast? = some '\'' ∧ 1 < rest.length then rest.dropLast else name
  | _ => name

/-- The keys and what they are bound to. -/
def bindings : List (Text × KeyBinding) :=
  [(['\''], .edit (.openPair '\'' '\'')),
   (['\\', '\''], .edit (.openPair '\'' '\'')),
   (['"'], .edit (.openPair '"' '"')),
   (['('], .edit (.openPair '(' ')')),
   (['{'], .edit (.openPair '{' '}')),
   (['['], .edit (.openPair '[' ']')),
   ([')'], .edit (.closePair ')')),
   (['}'], .edit (.closePair '}')),
   ([']'], .edit (.closePair ']')),
   ("Tab".toList, .edit (.indent .more)),
   ("Shift-Tab".toList, .edit (.indent .less)),
   ("Backspace".toList, .edit .backspace),
   ("Ctrl-Enter".toList, .compile)]

/-- **What a key is bound to.** -/
def ofName? (name : Text) : Option KeyBinding := bindings.lookup (bareName name)

end KeyBinding

end EditorCore
