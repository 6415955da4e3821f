import EditorCore.CommandLine.Run

/-!
# The program

Looks up the paths that the command may ask about and prints the outcome of
the run.
-/

namespace EditorCore.CommandLine

/-- What a path leads to. -/
def lookUp (path : Text) : IO (Except FileError FileNode) := do
  try
    return .ok (.file (← IO.FS.readBinFile (String.ofList path)))
  catch
    | .noFileOrDirectory .. => return .error .notFound
    | .inappropriateType _ 21 _ => return .ok .directory
    | .inappropriateType .. => return .error .notDirectory
    | .invalidArgument .. => return .error .nameTooLong
    | _ => return .error .denied

/-- The files at the given paths; there are no others. -/
def lookUpAll (paths : List Text) : IO FileSystem := do
  let found ← paths.mapM fun path => return (path, ← lookUp path)
  return fun path => (found.lookup path).getD (.error .notFound)

end EditorCore.CommandLine

open EditorCore.CommandLine in
/-- Runs the program. -/
def main (args : List String) : IO UInt32 := do
  let args := args.map String.toList
  let paths := match parse args with
    | .ok i => i.paths
    | .error _ => []
  let outcome := run (← lookUpAll paths) args
  IO.print (String.ofList outcome.output)
  if let some error := outcome.error then IO.eprintln (String.ofList error)
  else if outcome.code != 0 then IO.eprint (String.ofList usageText)
  return outcome.code
