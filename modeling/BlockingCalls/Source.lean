import BlockingCalls.Config
import BlockingCalls.Fault
import BlockingCalls.Log
import BlockingCalls.Text.Blank
import BlockingCalls.World.Basic

/-!
# Reading modules

A module is read from a file or fetched from the web. Specifiers that start with `jsr:` are turned into URLs by `deno`
first. A read is `Traced`: it carries the requests made of the world and the log entries, whether it succeeds or not. Only
`World.askFile`, `World.askPage` and `World.askDeno` look into the world, and each of them records what it is asked for.

There are two readers, a waiting and a concurrent one. They run `deno` in different ways: the waiting one takes an exit code
other than zero for a failure of the command, the concurrent one inspects the code afterwards.
-/

namespace BlockingCalls

inductive Mode where
  | waiting
  | concurrent
  deriving Repr, BEq, DecidableEq

/-- A module as read: `location` is its path, or the URL of the final response. -/
structure Source where
  moduleId : ModuleId
  text : String
  location : String
  deriving Repr, BEq, DecidableEq

/-! ## Traced outcomes -/

/-- An outcome with the requests made of the world and the log entries on the way to it. -/
structure Traced (α : Type) where
  outcome : Except Fault α
  requests : List Request := []
  log : List LogEntry := []

namespace Traced

variable {α β : Type}

def ofExcept (outcome : Except Fault α) : Traced α :=
  { outcome }

def fail (fault : Fault) : Traced α :=
  .ofExcept (.error fault)

def note (entry : LogEntry) : Traced Unit :=
  { outcome := .ok (), log := [entry] }

/-- Runs a second step on the outcome of the first one, if there is one. What was asked and logged is kept in order. -/
def andThen (first : Traced α) (next : α → Traced β) : Traced β :=
  match first.outcome with
  | .error fault => { first with outcome := .error fault }
  | .ok a =>
    let second := next a
    { second with requests := first.requests ++ second.requests, log := first.log ++ second.log }

instance : Monad Traced where
  pure a := .ofExcept (.ok a)
  bind := andThen

/-- Two steps succeed if the first one does and the second one does on its outcome. -/
theorem outcome_bind_eq_ok_iff {first : Traced α} {next : α → Traced β} {b : β} :
    (first >>= next).outcome = .ok b ↔ ∃ a, first.outcome = .ok a ∧ (next a).outcome = .ok b := by
  show (andThen first next).outcome = .ok b ↔ _
  unfold andThen
  cases h : first.outcome <;> simp

end Traced

/-! ## Asking the world -/

/-- The text of the file that `deno` is run on: an import of the specifier. -/
def entryText (specifier : String) : String :=
  "import \x7b\x7d from \"" ++ specifier ++ "\";\n"

namespace World

def askFile (w : World) (path : String) : Traced FileEntry :=
  { outcome := .ok (w.file path), requests := [.file (Path.lookupForm path)] }

def askPage (w : World) (target : Json.Value) : Traced WebEntry :=
  { outcome := .ok (w.page target), requests := [.fetch target] }

def askDeno (w : World) (command : List String) (specifier : String) : Traced DenoEntry :=
  { outcome := .ok (w.answer specifier), requests := [.deno command (entryText specifier)] }

end World

/-- How modules are read. -/
structure Reader where
  remoteSchemes : List String := ["jsr:", "https://", "http://"]
  denoExecutable : String := "deno"
  deriving Repr, BEq, DecidableEq

namespace Reader

/-! ## Local files -/

/-- Line ends of a file are read as line feeds. -/
def readLocal (w : World) (path : String) : Traced String := do
  match ← w.askFile path with
  | .text text => return String.ofList (Text.readNewlines text.toList)
  | .bytes bytes =>
    match Text.decodeUtf8 bytes with
    | .ok cs => return String.ofList (Text.readNewlines cs)
    | .error fault => .fail (.unreadable path (.encoding fault))
  | .refused errno => .fail (.unreadable path (.system { errno, path := Path.lookupForm path }))
  | .crash message => .fail (.crash message)

/-! ## Specifiers of the registry -/

/-- The file that `deno` is run on. -/
def entryPath : String :=
  "/tmp/jsr/resolve.ts"

def denoCommand (r : Reader) : List String :=
  [r.denoExecutable, "info", entryPath, "--json"]

/-- The members of a value that ought to be an object. -/
def membersOf : Json.Value → Except Fault (List (Json.Characters × Json.Value))
  | .object members => .ok members
  | value => .error (.notAnObject value.typeName)

/-- Where the output of `deno info` redirects a specifier to. -/
def redirectOf (specifier output : String) : Except Fault Json.Value := do
  match Json.read output with
  | .error (.tooManyDigits count) => throw (.tooManyDigits count)
  | .error fault => throw (.unresolved specifier (.invalidOutput fault))
  | .ok info =>
    let members ← membersOf info
    let redirects ← membersOf ((Json.Value.lookup "redirects" members).getD (.object []))
    match (Json.Value.lookup specifier redirects).filter (!·.isEmpty) with
    | some target => return target
    | none => throw (.unresolved specifier .noRedirect)

/-- Runs `deno` and waits for its output. An exit code other than zero is a failure of the command. -/
def runWaiting (r : Reader) (w : World) (specifier : String) : Traced String := do
  match ← w.askDeno r.denoCommand specifier with
  | .refused errno => .fail (.unresolved specifier (.notStarted { errno, path := r.denoExecutable }))
  | .finished output _ code =>
    if code = 0 then return output else .fail (.unresolved specifier (.commandFailed r.denoCommand code))

/-- The redirect of a specifier: a URL, unless `deno` answers with some other value. -/
def resolveWaiting (r : Reader) (w : World) (specifier : String) : Traced Json.Value := do
  let output ← r.runWaiting w specifier
  .ofExcept (redirectOf specifier output)

/-- Runs `deno` as a subprocess of the event loop: its output, its errors and its exit code. -/
def runConcurrently (r : Reader) (w : World) (specifier : String) : Traced (String × String × Int) := do
  match ← w.askDeno r.denoCommand specifier with
  | .refused errno => .fail (.unresolved specifier (.notStarted { errno, path := r.denoExecutable }))
  | .finished output errors code => return (output, errors, code)

/-- The redirect of a specifier; the exit code is inspected when the subprocess has ended. -/
def resolveConcurrently (r : Reader) (w : World) (specifier : String) : Traced Json.Value := do
  let (output, errors, code) ← r.runConcurrently w specifier
  if code ≠ 0 then
    .fail (.unresolved specifier (.commandExited code (String.ofList (Text.trimBoth Text.isBlank errors.toList))))
  else .ofExcept (redirectOf specifier output)

def resolve (r : Reader) : Mode → World → String → Traced Json.Value
  | .waiting => r.resolveWaiting
  | .concurrent => r.resolveConcurrently

/-! ## Remote modules -/

/-- Fetches a module from a target. The id stays that of the module; only the request goes to the target. -/
def fetch (w : World) (moduleId : ModuleId) (target : Json.Value) : Traced Source := do
  Traced.note (.info ("[Source] Fetching module from " ++ target.text))
  match ← w.askPage target with
  | .page text location => return { moduleId, text, location := location.getD target.text }
  | .unreachable message => .fail (.fetchFailed moduleId message)
  | .badStatus message => .fail (.fetchFailed moduleId message)
  | .invalid message => .fail (.invalidUrl message)
  | .unusable message => .fail (.unusableTarget message)

/-- A fetch makes one request, whatever it is answered with. -/
theorem requests_fetch (w : World) (moduleId : ModuleId) (target : Json.Value) :
    (fetch w moduleId target).requests = [.fetch target] := by
  unfold fetch World.askPage
  cases w.page target <;> rfl

/-! ## Two readers -/

/-- Reads a file, which is its own location. -/
def readFile (w : World) (moduleId : ModuleId) : Traced Source := do
  let text ← readLocal w moduleId
  return { moduleId, text, location := moduleId }

/-- Reads a module and waits for it. -/
def readWaiting (r : Reader) (w : World) (moduleId : ModuleId) : Traced Source :=
  if Config.beginsWithAny r.remoteSchemes moduleId then
    if Config.beginsWithAny ["jsr:"] moduleId then r.resolveWaiting w moduleId >>= fetch w moduleId
    else fetch w moduleId (.ofText moduleId)
  else readFile w moduleId

/-- Reads a module without blocking the event loop. -/
def readConcurrently (r : Reader) (w : World) (moduleId : ModuleId) : Traced Source :=
  if Config.beginsWithAny r.remoteSchemes moduleId then
    if Config.beginsWithAny ["jsr:"] moduleId then r.resolveConcurrently w moduleId >>= fetch w moduleId
    else fetch w moduleId (.ofText moduleId)
  else readFile w moduleId

def read (r : Reader) : Mode → World → ModuleId → Traced Source
  | .waiting => r.readWaiting
  | .concurrent => r.readConcurrently

/-- In both modes a module is fetched or read from a file, and a specifier of the registry is resolved first. -/
theorem read_eq (r : Reader) (mode : Mode) (w : World) (moduleId : ModuleId) :
    r.read mode w moduleId =
      if Config.beginsWithAny r.remoteSchemes moduleId then
        if Config.beginsWithAny ["jsr:"] moduleId then r.resolve mode w moduleId >>= fetch w moduleId
        else fetch w moduleId (.ofText moduleId)
      else readFile w moduleId := by
  cases mode <;> rfl

end Reader

end BlockingCalls
