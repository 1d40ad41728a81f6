import BlockingCalls.Graph.Location
import BlockingCalls.Json.Reader
import BlockingCalls.Text.Utf8
import BlockingCalls.Url.Reference
import BlockingCalls.World.Command
import BlockingCalls.World.Errno

/-!
# What can go wrong with a module

The causes for which a module cannot be read, parsed or linked, and the text of each.
-/

namespace BlockingCalls

/-- Why a local file gives no text. -/
inductive FileFault where
  | system (fault : OsFault)
  | encoding (fault : Text.Utf8Fault)
  deriving Repr, BEq, DecidableEq

def FileFault.message : FileFault → String
  | .system fault => fault.message
  | .encoding fault => fault.message

/-- Why a specifier has no URL. -/
inductive ResolutionFault where
  | notStarted (fault : OsFault)
  /-- The command failed; it is reported by its words. -/
  | commandFailed (command : List String) (code : Int)
  /-- The command failed; it is reported by what it wrote. -/
  | commandExited (code : Int) (errors : String)
  | invalidOutput (fault : Json.Fault)
  | noRedirect
  deriving Repr, BEq, DecidableEq

def ResolutionFault.message : ResolutionFault → String
  | .notStarted fault => "deno info failed: " ++ fault.message
  | .commandFailed command code => "deno info failed: " ++ Command.failureText command code
  | .commandExited code errors => "deno info exited with " ++ toString code ++ ": " ++ errors
  | .invalidOutput fault => "invalid deno info output: " ++ fault.message
  | .noRedirect => "no redirect in deno info output"

inductive Fault where
  | syntaxError (moduleId : ModuleId) (line : Nat)
  | unreadable (moduleId : ModuleId) (reason : FileFault)
  | fetchFailed (moduleId : ModuleId) (reason : String)
  | unresolved (specifier : String) (reason : ResolutionFault)
  /-- A value was asked for its members and is no object; the sort of the value is named. -/
  | notAnObject (sort : String)
  /-- The redirect of a specifier is a value that the HTTP client makes no request of. -/
  | unusableTarget (message : String)
  /-- The answer of `deno` has an integer with so many digits, which are more than are converted. -/
  | tooManyDigits (count : Nat)
  | badUrl (fault : Url.Fault)
  | crash (message : String)
  | invalidUrl (message : String)
  | negativeCapacity
  | unknownModule (moduleId : ModuleId)
  /-- The traversal went deeper than the world has modules. -/
  | tooDeep
  deriving Repr, BEq, DecidableEq

def Fault.message : Fault → String
  | .syntaxError moduleId line => moduleId ++ ": syntax error near line " ++ toString line
  | .unreadable moduleId reason => moduleId ++ ": " ++ reason.message
  | .fetchFailed moduleId reason => moduleId ++ ": fetch failed: " ++ reason
  | .unresolved specifier reason => specifier ++ ": " ++ reason.message
  | .notAnObject sort => "'" ++ sort ++ "' object has no attribute 'get'"
  | .unusableTarget message => message
  | .tooManyDigits count => Json.tooManyDigitsText count
  | .badUrl fault => fault.message
  | .crash message => message
  | .invalidUrl message => message
  | .negativeCapacity => "Semaphore initial value must be >= 0"
  | .unknownModule moduleId => Text.quoted moduleId
  | .tooDeep => "imports are nested too deeply"

end BlockingCalls
