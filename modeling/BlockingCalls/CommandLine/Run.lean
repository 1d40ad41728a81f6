import BlockingCalls.CommandLine.Arguments
import BlockingCalls.CommandLine.Report
import BlockingCalls.Session.Concurrent
import BlockingCalls.Session.Traversal
import BlockingCalls.Settings.Basic
import BlockingCalls.Text.Uppercase

/-!
# One run of the command

A run reads its arguments and settings, analyses the root file and prints a report. The log goes to the error output,
from the level on that the settings or the switches ask for.
-/

namespace BlockingCalls.CommandLine

/-- What breaks a run off. -/
inductive RunFault where
  | settings (unreadable : List Settings.Unreadable)
  | unknownLevel (name : String)
  | pattern (fault : Ignore.InvalidPattern)
  | analysis (fault : Fault)
  deriving Repr

/-- The text of a fault, for those that are reported by one. -/
def RunFault.message : RunFault → String
  | .settings unreadable =>
    "unreadable settings: " ++ String.intercalate ", " (unreadable.map (·.setting))
  | .unknownLevel name => "Unknown level: " ++ Text.quoted name
  | .pattern fault => fault.message
  | .analysis fault => fault.message

/-- What a run has printed, and its exit code or what broke it off. -/
structure Run where
  outcome : Except RunFault Nat
  output : String := ""
  errors : String := ""
  deriving Repr

/-! ## The log -/

/-- Log levels by name; entries of at least the given severity are written. -/
def thresholds : List (String × Nat) :=
  [("CRITICAL", 50), ("FATAL", 50), ("ERROR", 40), ("WARN", 30), ("WARNING", 30), ("INFO", 20), ("DEBUG", 10),
   ("NOTSET", 0)]

/-- The severity from which on the log is written. -/
def thresholdOf (verbose : Bool) (level : String) : Except RunFault Nat :=
  if verbose then .ok Level.debug.severity
  else
    match thresholds.lookup (Text.uppercase level) with
    | some severity => .ok severity
    | none => .error (.unknownLevel (Text.uppercase level))

def logText (threshold : Nat) (log : List LogEntry) : String :=
  String.join ((log.filter fun entry => threshold ≤ entry.level.severity).map (·.message ++ "\n"))

/-! ## The run -/

/-- Analyses a file and reports on it. -/
def analyzeAndReport (w : World) (session : Session) (threshold : Nat) (async : Bool) (path : String) : Run :=
  let (session, result) := if async then session.analyzeConcurrently w path else session.analyze w path
  match result with
  | .error fault => { outcome := .error (.analysis fault), errors := logText threshold session.log }
  | .ok _ =>
    let (session, output) := report session
    { outcome := .ok 0, output, errors := logText threshold session.log }

/-- Runs an analysis under the settings of the environment. -/
def runAnalysis (w : World) (environment : List (String × String)) (path : String) (async verbose : Bool) :
    Except RunFault Run := do
  let settings ← (Settings.ofEnvironment environment).mapError .settings
  let threshold ← thresholdOf verbose settings.logLevel
  let session ← settings.session.mapError .pattern
  return analyzeAndReport w session threshold (async || settings.asyncMode) path

/-- Runs the command. -/
def run (w : World) (environment : List (String × String)) (arguments : List String) : Run :=
  match invocationOf arguments with
  | .error fault => { outcome := .ok 2, errors := usageText fault }
  | .ok .help => { outcome := .ok 0, output := helpText }
  | .ok (.run path async verbose) =>
    match runAnalysis w environment path async verbose with
    | .ok run => run
    | .error fault => { outcome := .error fault }

end BlockingCalls.CommandLine
