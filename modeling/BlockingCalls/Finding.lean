import BlockingCalls.Session.Basic

/-!
# Findings

A finding is a call for which an async function blocks: the call occurs in a named async function that blocks, and calls
a blocking operation itself or a function that blocks. A blocking operation is repaired by awaiting the operation
without the blocking suffix; the repair is offered where the innermost function is async.

* `mem_ofParsed` — a finding is the finding of one visit of the tree.
-/

namespace BlockingCalls

open BlockingCalls.Tree (Node Visit Callee)

/-- Replaces the text between two byte offsets. -/
structure Fix where
  start : Nat
  stop : Nat
  text : String
  deriving Repr, BEq, DecidableEq

/-- How the call blocks. -/
inductive FindingKind where
  | direct (fix : Option Fix)
  | transitive (definition : Option Location)
  deriving Repr, BEq, DecidableEq

structure Finding where
  callee : Name
  enclosing : Name
  site : Location
  kind : FindingKind
  deriving Repr, BEq, DecidableEq

namespace Finding

def ruleId : String :=
  "sync-checker/no-sync-in-async"

def message (f : Finding) : String :=
  match f.kind with
  | .direct _ => "Sync operation " ++ f.callee ++ " found in async function " ++ f.enclosing
  | .transitive _ => "Blocking function " ++ f.callee ++ " called in async function " ++ f.enclosing

def kindLabel (f : Finding) : String :=
  match f.kind with
  | .direct _ => "direct-sync-call"
  | .transitive _ => "transitive-blocking-call"

def fix (f : Finding) : Option Fix :=
  match f.kind with
  | .direct fix => fix
  | .transitive _ => none

def definition (f : Finding) : Option Location :=
  match f.kind with
  | .direct _ => none
  | .transitive definition => definition

/-- The operation that does not block: the name without its suffix, if both are not empty. -/
def awaitedOperation (config : Config) (name : Name) : Option Name :=
  let suffix := config.blockingSuffix.length
  if suffix = 0 ∨ name.length ≤ suffix then none
  else some (String.ofList (name.toList.take (name.length - suffix)))

/-- The repair of a call of a blocking operation. -/
def fixOf (config : Config) (source : String) (call : Node) (name : Name) : Option Fix := do
  let arguments ← call.child? "arguments"
  let operation ← awaitedOperation config name
  return {
    start := call.start
    stop := call.stop
    text := "await " ++ config.syncNamespace ++ "." ++ operation ++ arguments.text source }

/-- How a call blocks in the session, if it does. -/
def kindOf (s : Session) (source : String) (call : Node) (awaitable : Bool) (callee : Callee) :
    Option (Name × FindingKind) :=
  if s.config.isSyncOperation callee then
    some (callee.name, .direct (if awaitable then fixOf s.config source call callee.name else none))
  else
    match s.config.edgeName callee with
    | some name => if s.isBlocking name then some (name, .transitive (s.locationOf name)) else none
    | none => none

/-- The finding of one visit of a module's tree. -/
def ofVisit (s : Session) (parsed : Parsed) (v : Visit) : Option Finding :=
  match v.item, v.context.enclosing with
  | .call (some callee), some enclosing =>
    -- blocking operations outside async functions are no findings by themselves
    if enclosing.isAsync && s.isBlocking enclosing.name then
      (kindOf s parsed.text v.node v.context.awaitable callee).map fun (name, kind) =>
        { callee := name, enclosing := enclosing.name, kind
          site := Location.ofOffset parsed.moduleId parsed.text v.node.start }
    else none
  | _, _ => none

/-- The findings of a parsed module in document order. -/
def ofParsed (s : Session) (parsed : Parsed) : List Finding :=
  (Tree.visits parsed.text parsed.root).filterMap (ofVisit s parsed)

theorem mem_ofParsed {s : Session} {parsed : Parsed} {f : Finding} :
    f ∈ ofParsed s parsed ↔ ∃ v ∈ Tree.visits parsed.text parsed.root, ofVisit s parsed v = some f :=
  List.mem_filterMap

end Finding

namespace Session

/-- The parsed module that is checked: the given one, or else the root. The empty id is taken for no module, whether or not
one was parsed under it. -/
def checked? (s : Session) (moduleId : Option ModuleId) : Option Parsed :=
  ((moduleId <|> s.root).filter (· != "")).bind s.parsed.get?

/-- Checks a module, or the root where none is given. -/
def check (s : Session) (moduleId : Option ModuleId) : Session × List Finding :=
  match s.checked? moduleId with
  | some parsed => (s, Finding.ofParsed s parsed)
  | none =>
    (s.note (.debug ("[Lint] Module " ++ (moduleId <|> s.root).getD "None" ++ " was not analyzed")), [])

end Session

end BlockingCalls
