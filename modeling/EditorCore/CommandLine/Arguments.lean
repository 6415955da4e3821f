import EditorCore.Position
import EditorCore.Text.Digits

/-!
# Arguments

A command line names a subcommand and gives it what it needs: a file as an
operand, and settings as options. An option is a word after two hyphens;
its value follows after an equals sign or as the next argument, which must
not look like an option then. Options may stand on either side of the
operand and are given at most once. After two hyphens alone, everything is
an operand.

Arguments are read from the left, and the first that settles the matter
does: a mistake, or a wish for help or for the version. What is missing
shows only at the end.

The root is a setting of the program as well as of every subcommand, and
the subcommand's goes before the program's.
-/

namespace EditorCore.CommandLine

/-- Why arguments start no command. -/
inductive Stop
  /-- The arguments are wrong. -/
  | usage
  | help
  | version
  deriving DecidableEq, Repr

/-- What an option sets. -/
inductive Setting
  | root
  | line
  | column
  | importEnd
  deriving DecidableEq, Repr

/-- The word of an option. -/
def Setting.word : Setting → Text
  | root => "root".toList
  | line => "line".toList
  | column => "column".toList
  | importEnd => "import-end-line".toList

/-- What the program can be asked to do. -/
inductive Subcommand
  | hint
  | tokens
  | config
  deriving DecidableEq, Repr

namespace Subcommand

/-- The word of a subcommand. -/
def word : Subcommand → Text
  | hint => "hint".toList
  | tokens => "tokens".toList
  | config => "config".toList

/-- The subcommand of a word. -/
def ofWord? (word : Text) : Option Subcommand := [hint, tokens, config].find? (·.word = word)

/-- The settings a subcommand takes. -/
def settings : Subcommand → List Setting
  | hint => [.root, .line, .column, .importEnd]
  | tokens => [.root, .line]
  | config => [.root]

/-- A subcommand acts on a file. -/
def takesFile : Subcommand → Bool
  | config => false
  | _ => true

end Subcommand

/-- **Where arguments stand**: before the subcommand, or after it. -/
inductive Level
  | program
  | subcommand (name : Subcommand)
  deriving DecidableEq, Repr

namespace Level

/-- The setting of an option's word. -/
def setting? (level : Level) (word : Text) : Option Setting :=
  let settings := match level with
    | program => [Setting.root]
    | subcommand c => c.settings
  settings.find? (·.word = word)

/-- What a word without a value comes to, when it is no setting. -/
def wish (level : Level) (word : Text) : Stop :=
  if word = "help".toList then .help
  else if word = "version".toList ∧ level = program then .version
  else .usage

/-- What a letter after one hyphen comes to. -/
def letterWish (level : Level) (letter : Char) : Stop :=
  if letter = 'h' then .help
  else if letter = 'V' ∧ level = program then .version
  else .usage

end Level

/-! ## Arguments one by one -/

/-- **What an argument looks like.** -/
inductive Argument
  | operand (text : Text)
  /-- A word after two hyphens, and what follows its equals sign. -/
  | option (word : Text) (value : Option Text)
  /-- Letters after one hyphen, of which the first decides. -/
  | letters (first : Char)
  /-- Two hyphens alone. -/
  | separator
  deriving DecidableEq, Repr

/-- Tells what an argument looks like; a hyphen alone is an operand. -/
def Argument.ofText : Text → Argument
  | ['-', '-'] => separator
  | '-' :: '-' :: t =>
    let word := t.takeWhile (· != '=')
    option word (t.drop word.length).tail?
  | '-' :: c :: _ => letters c
  | t => operand t

/-- A number that fits into a word. A sign is allowed, though of the
negative numbers only zero fits. -/
def word? (t : Text) : Option UInt32 :=
  let (negative, ds) := t.splitSign
  if ds.isEmpty then none
  else (Text.digits? 10 ds).bind fun n =>
    if n < UInt32.size && (!negative || n == 0) then some (.ofNat n) else none

/-- A path; it is not empty. -/
def path? (t : Text) : Option Text := if t.isEmpty then none else some t

/-- **The settings given so far.** -/
structure Given where
  root : Option Text := none
  line : Option UInt32 := none
  column : Option UInt32 := none
  importEnd : Option UInt32 := none
  deriving DecidableEq, Repr

/-- Takes a setting that has not been given yet. -/
def Given.set? (g : Given) (setting : Setting) (value : Text) : Option Given :=
  match setting with
  | .root => if g.root.isSome then none else (path? value).map ({ g with root := · })
  | .line => if g.line.isSome then none else (word? value).map ({ g with line := · })
  | .column => if g.column.isSome then none else (word? value).map ({ g with column := · })
  | .importEnd =>
    if g.importEnd.isSome then none else (word? value).map ({ g with importEnd := · })

/-- What ends a run of options. -/
inductive Next
  | nothing
  /-- An operand, and what follows it. -/
  | operand (text : Text) (rest : List Text)
  /-- Two hyphens alone, and the operands that follow. -/
  | separator (operands : List Text)
  deriving DecidableEq, Repr

/-- **Takes options** up to the first argument that is none. -/
def options (level : Level) (g : Given) : List Text → Except Stop (Given × Next)
  | [] => .ok (g, .nothing)
  | a :: rest =>
    match Argument.ofText a with
    | .operand t => .ok (g, .operand t rest)
    | .separator => .ok (g, .separator rest)
    | .letters c => .error (level.letterWish c)
    | .option word value =>
      match level.setting? word with
      | none => .error (if value.isNone then level.wish word else .usage)
      | some setting =>
        match value with
        | some v =>
          match g.set? setting v with
          | some g => options level g rest
          | none => .error .usage
        | none =>
          match rest with
          | [] => .error .usage
          | v :: rest =>
            match Argument.ofText v, g.set? setting v with
            | .operand _, some g => options level g rest
            | _, _ => .error .usage

/-! ## Command lines -/

/-- **What the program is asked to do.** -/
inductive Command
  /-- The hint at a position of a file, the import boundary given or derived. -/
  | hint (file : Text) (position : Position) (importEnd : Option UInt32)
  /-- The tokens of a file, or of one of its lines. -/
  | tokens (file : Text) (line : Option UInt32)
  | config
  deriving DecidableEq, Repr

/-- A command, and the directory whose configuration holds. -/
structure Invocation where
  root : Text
  command : Command
  deriving DecidableEq, Repr

/-- The settings of a subcommand, and its file if one is given. -/
def subcommandArguments (c : Subcommand) (args : List Text) :
    Except Stop (Given × Option Text) := do
  let file? (t : Text) : Except Stop Text :=
    match c.takesFile, path? t with
    | true, some file => .ok file
    | _, _ => .error .usage
  match ← options (.subcommand c) {} args with
  | (g, .nothing) | (g, .separator []) => return (g, none)
  | (g, .separator [t]) => return (g, ← file? t)
  | (_, .separator _) => throw .usage
  | (g, .operand t rest) =>
    let file ← file? t
    match ← options (.subcommand c) g rest with
    | (g, .nothing) | (g, .separator []) => return (g, file)
    | _ => throw .usage

/-- The command of a subcommand with its arguments. -/
def Subcommand.command (c : Subcommand) (g : Given) (file : Option Text) : Except Stop Command :=
  match c, file with
  | hint, some file =>
    match g.line, g.column with
    | some line, some column => .ok (.hint file ⟨line, column⟩ g.importEnd)
    | _, _ => .error .usage
  | tokens, some file => .ok (.tokens file g.line)
  | config, none => .ok .config
  | _, _ => .error .usage

/-- The arguments of `help`: at most one, and a subcommand's word. -/
def helpArguments (args : List Text) : Stop :=
  match args with
  | [] => .help
  | [word] => if word = "help".toList ∨ (Subcommand.ofWord? word).isSome then .help else .usage
  | _ => .usage

/-- **What a command line asks for.** -/
def parse (args : List Text) : Except Stop Invocation := do
  match ← options .program {} args with
  | (program, .operand word rest) =>
    if word = "help".toList then throw (helpArguments rest)
    match Subcommand.ofWord? word with
    | none => throw .usage
    | some c =>
      let (g, file) ← subcommandArguments c rest
      return ⟨(g.root.or program.root).getD ['.'], ← c.command g file⟩
  | _ => throw .usage

end EditorCore.CommandLine
