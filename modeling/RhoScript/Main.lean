import RhoScript.Command.Run

/-!
# The program

Reads the text that the arguments ask for, lets the library do the work, and prints and writes what
comes of it.
-/

namespace RhoScript.Command

/-- All that is left of a stream, after what was read already. -/
partial def readAll (stream : IO.FS.Stream) (text : String) : IO String := do
  let line ← stream.getLine
  if line.isEmpty then return text else readAll stream (text ++ line)

/-- The number of the error that a step of a path starts at no directory. -/
def notDirectory : UInt32 := 20

/-- What a path leads to. -/
def look (path : String) : IO Found := do
  try
    return .text (← IO.FS.readFile path)
  catch
    | .noFileOrDirectory .. | .resourceExhausted .. | .invalidArgument .. => return .missing
    | .inappropriateType _ code _ => return if code = notDirectory then .missing else .directory
    | error => throw error

/-- Prints and writes what a run left behind. -/
def deliver (outcome : Outcome) : IO UInt32 := do
  if let some (path, text) := outcome.written then IO.FS.writeFile path text
  IO.print outcome.stdout
  IO.eprint outcome.stderr
  if let some message := outcome.fault.map (·.message) <|> outcome.refused.map (·.message) then
    IO.eprintln message
  return outcome.exitCode.toUInt32

end RhoScript.Command

open RhoScript.Command in
/-- The command line. -/
def main (arguments : List String) : IO UInt32 := do
  match Invocation.read arguments with
  | .error stop => deliver stop.outcome
  | .ok invocation =>
    let piped ← if invocation.file = "-" then readAll (← IO.getStdin) "" else pure ""
    let found ← if invocation.file = "-" then pure .missing else look invocation.file
    deliver (invocation.run ⟨fun _ => found, fun _ => none⟩ piped)
