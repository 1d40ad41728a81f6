import BlockingCalls.CommandLine.Run
import BlockingCalls.Json.Reader
import BlockingCalls.World.Description

/-!
# The command

Reads the description of a world from the standard input, runs the command in it with the arguments and the environment
it was started with, and prints what the run has printed. An empty input describes a world with nothing in it.
-/

namespace BlockingCalls

/-- All that is left of a stream. -/
partial def readAll (stream : IO.FS.Stream) (read : String) : IO String := do
  let line ← stream.getLine
  if line.isEmpty then return read else readAll stream (read ++ line)

/-- The variables of the environment that hold settings. -/
def environment : IO (List (String × String)) := do
  let settings :=
    ["LOG_LEVEL", "ASYNC_MODE", "MAX_CONCURRENCY", "FOLLOW_REMOTE_IMPORTS", "HTTP_TIMEOUT", "DENO_EXECUTABLE"]
  settings.filterMapM fun setting => do
    let name := "SYNC_CHECKER_" ++ setting
    return (← IO.getEnv name).map (name, ·)

/-- The world that a text describes. -/
def describedWorld (text : String) : Except String World :=
  if text.isEmpty then .ok {}
  else
    match Json.read text with
    | .error fault => .error fault.message
    | .ok value => (World.ofJson? value).elim (.error "not the description of a world") .ok

end BlockingCalls

open BlockingCalls in
def main (arguments : List String) : IO UInt32 := do
  match describedWorld (← readAll (← IO.getStdin) "") with
  | .error message =>
    IO.eprintln message
    return 2
  | .ok world =>
    let run := CommandLine.run world (← environment) arguments
    IO.print run.output
    IO.eprint run.errors
    match run.outcome with
    | .ok code => return UInt32.ofNat code
    | .error fault =>
      IO.eprintln fault.message
      return 1
