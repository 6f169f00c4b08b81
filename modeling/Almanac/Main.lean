import Almanac.Command.Run

/-!
# The program

Reads the arguments, the settings file and, where a request needs it, standard input; everything
else is `Almanac.Command`.
-/

namespace Almanac

/-- The reason why a file cannot be read. -/
def reasonOf : IO.Error → String
  | .noFileOrDirectory _ _ _ => "No such file or directory (os error 2)"
  | other => toString other

/-- The text of a file, or the reason why there is none. -/
def fileText (path : String) : IO (Except String String) := do
  try return .ok (← IO.FS.readFile path)
  catch e => return .error (reasonOf e)

end Almanac

open Almanac in
/-- The command line. -/
def main (arguments : List String) : IO UInt32 := do
  let outcome ← match Command.Invocation.ofArguments arguments with
    | .error _ => pure (Command.run arguments (fun _ => .error "") "")
    | .ok invocation => do
      let file ← match invocation.config with
        | some path => fileText path
        | none => pure (.ok "")
      let input ← if invocation.readsInput then (← IO.getStdin).readToEnd else pure ""
      pure (invocation.run (fun _ => file) input)
  (← IO.getStdout).putStr outcome.output
  (← IO.getStderr).putStr outcome.errors
  return outcome.code.toUInt32
