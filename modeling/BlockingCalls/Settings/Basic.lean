import BlockingCalls.Session.Basic
import BlockingCalls.Settings.Reading

/-!
# Settings

Settings come from environment variables whose names start with `SYNC_CHECKER_`, in any case. A setting that is not
given has its default; all that cannot be read are reported together.
-/

namespace BlockingCalls

structure Settings where
  logLevel : String := "INFO"
  /-- Modules are analysed concurrently. -/
  asyncMode : Bool := false
  maxConcurrency : Int := 8
  followRemoteImports : Bool := true
  /-- In seconds. -/
  httpTimeout : Decimal.Binary64 := .ofDecimal false 30 0
  denoExecutable : String := "deno"
  deriving Repr, BEq, DecidableEq

namespace Settings

/-- A setting that cannot be read. -/
structure Unreadable where
  setting : String
  problem : Problem
  deriving Repr, BEq, DecidableEq

/-- The Kelvin sign has the lower case of the letter K; no other character beyond ASCII has one in ASCII. -/
def kelvinSign : Char :=
  Char.ofNat 0x212A

/-- A character of a variable's name in lower case. -/
def lowercase (c : Char) : Char :=
  if c = kelvinSign then 'k' else c.toLower

/-- Does a variable name a setting? -/
def names (variableName setting : String) : Bool :=
  variableName.toList.map lowercase == ("sync_checker_" ++ setting).toList

/-- The text of a setting; of several variables that name it the last one counts. -/
def textOf (environment : List (String × String)) (setting : String) : Option String :=
  (environment.reverse.find? fun entry => names entry.1 setting).map (·.2)

/-- The value of a setting, and what is wrong with it. -/
def valueOf {α : Type} (environment : List (String × String)) (setting : String) (value : α)
    (read : String → Except Problem α) : α × List Unreadable :=
  match textOf environment setting with
  | none => (value, [])
  | some text =>
    match read text with
    | .ok value => (value, [])
    | .error problem => (value, [{ setting, problem }])

def ofEnvironment (environment : List (String × String)) : Except (List Unreadable) Settings :=
  let default : Settings := {}
  let (asyncMode, faults₁) := valueOf environment "async_mode" default.asyncMode readSwitch
  let (followRemoteImports, faults₂) :=
    valueOf environment "follow_remote_imports" default.followRemoteImports readSwitch
  let (httpTimeout, faults₃) := valueOf environment "http_timeout" default.httpTimeout readDecimal
  let (maxConcurrency, faults₄) :=
    valueOf environment "max_concurrency" default.maxConcurrency readInteger
  let faults := faults₁ ++ faults₂ ++ faults₃ ++ faults₄
  if faults.isEmpty then
    .ok {
      logLevel := (textOf environment "log_level").getD default.logLevel
      denoExecutable := (textOf environment "deno_executable").getD default.denoExecutable
      asyncMode, followRemoteImports, httpTimeout, maxConcurrency }
  else .error faults

/-- The configuration that the settings ask for. -/
def config (s : Settings) : Config :=
  { followRemoteImports := s.followRemoteImports, maxConcurrency := s.maxConcurrency }

/-- A new session under the settings. -/
def session (s : Settings) : Except Ignore.InvalidPattern Session :=
  Session.start s.config s.denoExecutable

end Settings

end BlockingCalls
