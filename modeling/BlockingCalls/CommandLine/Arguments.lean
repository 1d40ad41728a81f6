import BlockingCalls.Text.DecimalDigit
import BlockingCalls.Text.Quoted
import BlockingCalls.Text.Segments

/-!
# Command-line arguments

The command takes one operand, the root file, and three switches. A switch may be shortened to any opening that no
other switch has; switches of one letter may be written together behind one dash. The first `--` ends the switches.
What looks like a negative number or holds a space is an operand.

Arguments are first sorted one by one (`sortArgument`), then acted upon in order (`interpret`): a request for help is
met at once, faults are reported where they occur, and what is missing or left over is reported at the end.
-/

namespace BlockingCalls.CommandLine

inductive Switch where
  | help
  | async
  | verbose
  deriving Repr, BEq, DecidableEq

namespace Switch

/-- The switches by the names under which they are given. -/
def named : List (String × Switch) :=
  [("-h", .help), ("--help", .help), ("--async", .async), ("-v", .verbose), ("--verbose", .verbose)]

/-- How messages call a switch. -/
def label : Switch → String
  | .help => "-h/--help"
  | .async => "--async"
  | .verbose => "-v/--verbose"

def ofName? (name : List Char) : Option Switch :=
  named.lookup (String.ofList name)

end Switch

/-- What is wrong with the arguments. -/
inductive UsageFault where
  | ambiguous (argument : String) (candidates : List String)
  /-- A switch takes no value. -/
  | ignoredValue (switch : Switch) (value : String)
  | missingPath
  | unrecognized (arguments : List String)
  deriving Repr, BEq, DecidableEq

def UsageFault.message : UsageFault → String
  | .ambiguous argument candidates =>
    "ambiguous option: " ++ argument ++ " could match " ++ String.intercalate ", " candidates
  | .ignoredValue switch value => "argument " ++ switch.label ++ ": ignored explicit argument " ++ Text.quoted value
  | .missingPath => "the following arguments are required: path"
  | .unrecognized arguments => "unrecognized arguments: " ++ String.intercalate " " arguments

/-! ## Sorting arguments -/

/-- What an argument is by itself. -/
inductive Argument where
  | operand (text : String)
  /-- The `--` that ends the switches. -/
  | terminator
  /-- A switch, given by a name of one or two dashes, and what is written behind the name. -/
  | switch (switch : Switch) (isShort : Bool) (value : Option (List Char))
  | unknown (text : String)
  deriving Repr, BEq, DecidableEq

/-- Digits behind a dash, with or without a point; a line feed may follow. -/
def isNegativeNumber : List Char → Bool
  | '-' :: rest =>
    let rest := if rest.getLast? == some '\n' then rest.dropLast else rest
    let behind := rest.dropWhile Text.isDecimalDigit
    match behind with
    | [] => !rest.isEmpty
    | '.' :: fraction => !fraction.isEmpty && fraction.all Text.isDecimalDigit
    | _ => false
  | _ => false

/-- The switches whose names of two dashes begin with a text. -/
def abbreviated (opening : List Char) : List (String × Switch) :=
  Switch.named.filter fun entry => opening.isPrefixOf entry.1.toList

/-- An argument that starts with two dashes and is no name of a switch. -/
def sortLong (cs : List Char) : Except UsageFault (Option Argument) :=
  let (opening, value) := Text.cutFirst '=' cs
  match abbreviated opening with
  | [] => .ok none
  | [(_, switch)] => .ok (some (.switch switch false value))
  | candidates => .error (.ambiguous (String.ofList cs) (candidates.map (·.1)))

/-- An argument that starts with one dash and is no name of a switch: the first letter may be one. -/
def sortShort (cs : List Char) : Option Argument :=
  (Switch.ofName? (cs.take 2)).map fun switch => .switch switch true (some (cs.drop 2))

/-- An argument that names a switch in full, with or without a value behind `=`. -/
def sortNamed (cs : List Char) : Option Argument :=
  let isShort := cs.drop 1 |>.head? |>.all (· != '-')
  match Switch.ofName? cs with
  | some switch => some (.switch switch isShort none)
  | none =>
    match Text.cutFirst '=' cs with
    | (name, some value) => (Switch.ofName? name).map fun switch => .switch switch isShort (some value)
    | (_, none) => none

/-- What an argument is that stands before `--`. -/
def sortArgument (text : String) : Except UsageFault Argument := do
  let cs := text.toList
  -- a lone dash is an operand
  if cs.head? != some '-' || cs.length = 1 then return .operand text
  if let some argument := sortNamed cs then return argument
  let abbreviation ← if cs.drop 1 |>.head? |>.any (· == '-') then sortLong cs else pure (sortShort cs)
  if let some argument := abbreviation then return argument
  return if isNegativeNumber cs || cs.contains ' ' then .operand text else .unknown text

def sortArguments : List String → Except UsageFault (List Argument)
  | [] => .ok []
  | text :: rest =>
    if text == "--" then .ok (.terminator :: rest.map .operand)
    else do return (← sortArgument text) :: (← sortArguments rest)

/-! ## Acting upon arguments -/

/-- Switches written together: each letter behind the first one is a switch of its own. -/
def cluster (switch : Switch) : List Char → Except UsageFault (List Switch)
  | [] => .ok [switch]
  | c :: rest =>
    match Switch.ofName? ['-', c] with
    | some next => (switch :: ·) <$> cluster next rest
    | none => .error (.ignoredValue switch (String.ofList (c :: rest)))

/-- The switches that one argument gives. -/
def switchesOf (switch : Switch) (isShort : Bool) : Option (List Char) → Except UsageFault (List Switch)
  | none => .ok [switch]
  | some value =>
    if isShort && !value.isEmpty then cluster switch value
    else .error (.ignoredValue switch (String.ofList value))

/-- What the command is asked to do. -/
inductive Invocation where
  | help
  | run (path : String) (async verbose : Bool)
  deriving Repr, BEq, DecidableEq

/-- What the arguments looked at so far have given. -/
structure Given where
  path : Option String := none
  switches : List Switch := []
  leftOver : List String := []
  deriving Repr, BEq, DecidableEq

namespace Given

/-- Arguments that have no place. -/
def leave (g : Given) (texts : List String) : Given :=
  { g with leftOver := g.leftOver ++ texts }

/-- The first operand is the path, all others are left over. -/
def addOperand (g : Given) (text : String) : Given :=
  if g.path.isNone then { g with path := some text } else g.leave [text]

def invocation (g : Given) : Except UsageFault Invocation :=
  match g.path, g.leftOver with
  | none, _ => .error .missingPath
  | some path, [] => .ok (.run path (g.switches.contains .async) (g.switches.contains .verbose))
  | some _, leftOver => .error (.unrecognized leftOver)

end Given

/-- Acts upon arguments in order. The `--` belongs to the path if it stands next to it; elsewhere it is left over. -/
def interpret (g : Given) : List Argument → Except UsageFault Invocation
  | [] => g.invocation
  | .operand text :: .terminator :: rest =>
    interpret (if g.path.isNone then g.addOperand text else g.leave [text, "--"]) rest
  | .terminator :: .operand text :: rest =>
    interpret (if g.path.isNone then g.addOperand text else g.leave ["--", text]) rest
  | .operand text :: rest => interpret (g.addOperand text) rest
  | .terminator :: rest => interpret (g.leave ["--"]) rest
  | .unknown text :: rest => interpret (g.leave [text]) rest
  | .switch switch isShort value :: rest =>
    match switchesOf switch isShort value with
    | .error fault => .error fault
    | .ok switches =>
      if switches.contains .help then .ok .help
      else interpret { g with switches := g.switches ++ switches } rest

/-- What the arguments ask for. -/
def invocationOf (arguments : List String) : Except UsageFault Invocation := do
  interpret {} (← sortArguments arguments)

/-! ## Texts -/

def usage : String :=
  "usage: sync-checker [-h] [--async] [-v] path\n"

def helpText : String :=
  usage ++
  "\nFind blocking (sync) operations reachable from async functions.\n" ++
  "\npositional arguments:\n" ++
  "  path           root file to analyze\n" ++
  "\noptions:\n" ++
  "  -h, --help     show this help message and exit\n" ++
  "  --async        read and fetch modules with asyncio\n" ++
  "  -v, --verbose  debug logging\n"

def usageText (fault : UsageFault) : String :=
  usage ++ "sync-checker: error: " ++ fault.message ++ "\n"

end BlockingCalls.CommandLine
