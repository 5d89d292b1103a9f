import TagQuery.Command.Directory

/-!
The program: arguments, environment and files are the system's.
-/

namespace TagQuery.Program

/-- Why the system has no file under a path, where that is for one of the reasons told apart. Some
calls of the system give the numbers of errors with a minus sign. -/
def pathError? (e : IO.Error) : Option PathError :=
  match e with
  | .noFileOrDirectory .. => some .notFound
  | .inappropriateType _ code _ =>
    some (if code = 21 ∨ code = -21 then .isDirectory else .notDirectory)
  | .invalidArgument _ code _ => if code = 36 ∨ code = -36 then some .nameTooLong else none
  | _ => none

/-- Prints a failure, and gives the exit code that goes with it. -/
def report (f : Failure) : IO UInt32 := do
  (← IO.getStderr).putStr f.render
  return 1

def runInit (path : String) (tags : List String) : IO UInt32 := do
  match Command.snapshotOfTags tags with
  | .error f => report f
  | .ok bytes =>
    try
      IO.FS.writeBinFile path ⟨bytes.toArray⟩
      return 0
    catch e =>
      match pathError? e with
      | some reason => report (Command.writeFailure path reason)
      | none => report ⟨s!"cannot create {path}", some (toString e)⟩

def runSearch (path : String) (viewer : Viewer) (words : List String) : IO UInt32 := do
  let bytes ← (IO.FS.readBinFile path).toBaseIO
  match bytes with
  | .error e =>
    match pathError? e with
    | some reason => report (Command.readFailure path reason)
    | none => report ⟨s!"cannot open {path}", some (toString e)⟩
  | .ok bytes =>
    let settings ← Setting.all.mapM fun setting => do
      return (setting.variableName, ← IO.getEnv setting.variableName)
    let environment name := (settings.lookup name).join
    let printed := Command.printSearchBytes bytes.data.toList environment viewer words
    (← IO.getStdout).putStr printed.text
    match printed.failure? with
    | none => return 0
    | some f => report f

/-- Runs the program, and gives its exit code. -/
def run (args : List String) : IO UInt32 := do
  match Arguments.read args with
  | .run (.init path tags) => runInit path tags
  | .run (.search path viewer words) => runSearch path viewer words
  | .version =>
    IO.print Command.versionText
    return 0
  | .help =>
    IO.print Command.helpText
    return 0
  | .misuse =>
    (← IO.getStderr).putStr Command.helpText
    return 2

end TagQuery.Program

def main (args : List String) : IO UInt32 :=
  TagQuery.Program.run args
