import CommandMacros.CommandLine.Run

/-!
The program on the files of the system. Only what the command looks at is read.
-/

namespace CommandMacros.CommandLine

def readErrorOf : IO.Error → ReadError
  | .noFileOrDirectory .. => .notFound
  | .inappropriateType _ code _ => if code = 20 then .notADirectory else .isADirectory
  | .userError _ => .notText
  | error => .other (toString error)

def attempt {α : Type} (action : IO α) : IO (Except ReadError α) := do
  match ← action.toBaseIO with
  | .ok value => return .ok value
  | .error error => return .error (readErrorOf error)

/-- What stands at a path. Directories are read only if `deep`. -/
partial def load (deep : Bool) (path : String) : IO (Except ReadError FileTree) := do
  match ← attempt (IO.FS.realPath path) with
  | .error cause => return .error cause
  | .ok place =>
    if ← place.isDir then
      let children ← if deep then attempt place.readDir else pure (.ok #[])
      let mut entries := #[]
      for child in children.toOption.getD #[] do
        if let .ok node ← load deep child.path.toString then
          entries := entries.push (child.fileName, node)
      return .ok (.directory entries.toList)
    else
      return .ok (.file (← attempt (IO.FS.readFile place)))

/-- What stands at the paths that a command looks at. -/
def Command.load (command : Command) : IO (String → Except ReadError FileTree) := do
  let deep :=
    match command with
    | .expand _ => false
    | .test _ => true
  let found ← command.paths.mapM fun path => return (path, ← CommandLine.load deep path)
  return fun path => (found.lookup path).getD (.error .notFound)

def Outcome.write (outcome : Outcome) : IO UInt32 := do
  for line in outcome.lines do
    match line with
    | .output text => IO.println text
    | .report text => IO.eprintln text
  return outcome.code.toUInt32

/-- Runs the program on the files of the system, and gives the exit code. -/
def runOnSystem (arguments : List String) : IO UInt32 := do
  match Command.ofArguments arguments with
  | .ok command => (command.run (← command.load)).write
  | .error stop => stop.outcome.write

end CommandMacros.CommandLine

def main (arguments : List String) : IO UInt32 :=
  CommandMacros.CommandLine.runOnSystem arguments
