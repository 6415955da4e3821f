import EditorCore.CommandLine.Arguments
import EditorCore.CommandLine.Report
import EditorCore.Config.Load

/-!
# Runs of the program

A run takes the files around the program and the arguments, and comes to an
exit status with what is printed. Wrong arguments have a status of their
own, so that they are told from a command that fails.
-/

namespace EditorCore.CommandLine

/-- **What a run comes to.** -/
structure Outcome where
  /-- The exit status. -/
  code : UInt32
  output : Text
  /-- The error that is reported, when a command fails. -/
  error : Option Text
  deriving DecidableEq, Repr

/-- The name and version of the program. -/
def versionText : Text := "playground-hints 0.3.1\n".toList

/-- How the program is called. -/
def usageText : Text :=
  ("Usage: playground-hints [--root DIR] COMMAND\n\n"
    ++ "  hint FILE --line N --column N [--import-end-line N]\n"
    ++ "  tokens FILE [--line N]\n"
    ++ "  config\n").toList

/-- The outcome of arguments that start no command. -/
def Stop.outcome : Stop → Outcome
  | usage => ⟨2, [], none⟩
  | help => ⟨0, usageText, none⟩
  | version => ⟨0, versionText, none⟩

/-- The document of a file. -/
def readDocument (fs : FileSystem) (file : Text) : Except Failure Document :=
  match fs.readText file with
  | .ok text => .ok (.ofText text)
  | .error e => .error (.unreadable file e)

/-- **What a command prints** under a configuration. -/
def Command.report (fs : FileSystem) (config : Config) : Command → Except Failure Text
  | hint file position importEnd => do
    hintReport (← readDocument fs file) config.hints position importEnd
  | tokens file line => do tokensReport (← readDocument fs file) line
  | .config => .ok config.render

/-- The paths that a command may ask about. -/
def Invocation.paths (i : Invocation) : List Text :=
  Config.fileNames.map i.root.inDirectory ++
    match i.command with
    | .hint file _ _ | .tokens file _ => [file]
    | .config => []

/-- **The outcome of a command line.** -/
def run (fs : FileSystem) (args : List Text) : Outcome :=
  match parse args with
  | .error stop => stop.outcome
  | .ok i =>
    match i.command.report fs (Config.load fs i.root).1 with
    | .ok output => ⟨0, output, none⟩
    | .error failure => ⟨1, [], some ("playground-hints error: " ++ failure.message).toList⟩

end EditorCore.CommandLine
