import BlockingCalls.Graph.Propagation
import BlockingCalls.Parsed
import BlockingCalls.Specifier
import BlockingCalls.Text.Order

/-!
# Sessions

A session holds all that is known of the modules analysed so far. Modules are loaded one at a time: a module is read,
parsed, summarised, and its summary is merged into the tables. Its imports are then linked, which records what the
imported names stand for and returns the module that is to be loaded next. In which order modules are loaded is decided by
the traversals (`Session.Traversal`, `Session.Concurrent`); how the tables change is decided here.

A module that cannot be read or parsed is recorded as failed and the analysis continues. What goes wrong while imports
are linked is not handled here but handed to the traversal.
-/

namespace BlockingCalls

structure Session where
  resolver : Resolver
  reader : Reader
  /-- The merged calls, the aliases and the records of all modules. -/
  program : Program := {}
  locations : Locations := {}
  parsed : Table Parsed := {}
  /-- Modules that a concurrent analysis has taken up. -/
  inFlight : List ModuleId := []
  root : Option ModuleId := none
  propagation : Option Program.Outcome := none
  /-- The modules that the reader was asked for so far, in order. -/
  reads : List ModuleId := []
  /-- What was asked of the world so far. -/
  requests : List Request := []
  log : List LogEntry := []

namespace Session

/-- A session in which nothing has been analysed yet. -/
def start (config : Config) (denoExecutable : String) : Except Ignore.InvalidPattern Session :=
  (Resolver.ofConfig config).map fun resolver =>
    { resolver, reader := { remoteSchemes := config.remoteSchemes, denoExecutable } }

def config (s : Session) : Config :=
  s.resolver.config

def note (s : Session) (entry : LogEntry) : Session :=
  { s with log := s.log ++ [entry] }

/-! ## Records -/

def isFinished (s : Session) (moduleId : ModuleId) : Bool :=
  s.program.modules.isFinished moduleId

def directBlocking (s : Session) (moduleId : ModuleId) : List Name :=
  s.program.modules.directBlocking moduleId

def setModules (s : Session) (modules : Registry) : Session :=
  { s with program := { s.program with modules } }

def markVisiting (s : Session) (moduleId : ModuleId) : Session :=
  s.setModules (s.program.modules.markVisiting moduleId)

/-- Ends the record of a module as done; a module without a record stays without. -/
def markDone (s : Session) (moduleId : ModuleId) : Session :=
  s.setModules ((s.program.modules.markDone? moduleId).getD s.program.modules)

/-- Ends the record of a module as failed. -/
def fail (s : Session) (moduleId : ModuleId) (fault : Fault) : Session :=
  (s.note (.warning ("[Session] Failed to analyze " ++ moduleId ++ ": " ++ fault.message))).setModules
    (s.program.modules.markFailed moduleId fault.message)

/-! ## Loading a module -/

/-- A module that has been loaded: where it was found, and its summary. -/
structure Loaded where
  location : String
  summary : Summary
  deriving Repr

def summaryEntry (summary : Summary) : LogEntry :=
  .debug ("[Graph] " ++ summary.moduleId ++ ": " ++ toString summary.calls.size ++ " functions, " ++
    toString summary.directBlocking.length ++ " directly blocking, " ++ toString summary.imports.length ++ " imports")

/-- Merges a parsed module and its summary into the tables. -/
def register (s : Session) (parsed : Parsed) (summary : Summary) : Session :=
  { s.note (summaryEntry summary) with
    parsed := s.parsed.put parsed.moduleId parsed
    program :=
      { s.program with
        modules := s.program.modules.store parsed.moduleId summary.directBlocking summary.exports
        calls := s.program.calls.add summary.calls }
    locations := s.locations.putAll summary.locations.entries }

/-- The session after a read, whatever came of it. -/
def afterRead (s : Session) (moduleId : ModuleId) (source : Traced Source) : Session :=
  { s with
    reads := s.reads ++ [moduleId]
    requests := s.requests ++ source.requests
    log := s.log ++ source.log }

/-- Loads a module; `none` where it has failed, which is then recorded. -/
def load (s : Session) (mode : Mode) (w : World) (moduleId : ModuleId) : Session × Option Loaded :=
  let source := s.reader.read mode w moduleId
  let s := s.afterRead moduleId source
  match source.outcome.bind (Parsed.ofSource w) with
  | .error fault => (s.fail moduleId fault, none)
  | .ok parsed =>
    let summary := Summary.ofTree s.config moduleId parsed.text parsed.root
    (s.register parsed summary, some { location := parsed.location, summary })

/-! ## Linking imports -/

/-- Records what the names of an import stand for. -/
def recordAliases (s : Session) (moduleId : ModuleId) (target : ModuleId) (bindings : List Tree.Binding) : Session :=
  { s with
    program :=
      { s.program with
        aliases := bindings.foldl (fun a b => a.record moduleId b.localName ⟨target, b.imported⟩)
          s.program.aliases } }

/-- Links one import of a module: the module it leads to, or `none` where it is skipped. -/
def link (s : Session) (m : Loaded) (declaration : ImportDeclaration) : Session × Except Fault (Option ModuleId) :=
  match s.resolver.resolve declaration.source m.location with
  | .error fault => (s, .error (.badUrl fault))
  | .ok (.skipped reason) =>
    (s.note (.warning ("[Imports] Skipping " ++ declaration.source ++ " in " ++ m.summary.moduleId ++ ": " ++
      reason.message)), .ok none)
  | .ok (.found target _) => (s.recordAliases m.summary.moduleId target declaration.bindings, .ok (some target))

/-! ## The end of an analysis -/

/-- All names that are recorded as blocking by themselves. -/
def seed (s : Session) : List Name :=
  (s.program.modules.records.values.flatMap (·.directBlocking)).foldl (fun names name => names.insert name) []

def outcomeEntry (seed : List Name) (outcome : Program.Outcome) : LogEntry :=
  .info ("[Propagation] " ++ toString outcome.blocking.length ++ " blocking functions (" ++ toString seed.length ++
    " direct) after " ++ toString outcome.passes ++ " passes")

/-- Computes the blocking names from the tables. -/
def finish (s : Session) : Session :=
  let outcome := s.program.propagate s.seed
  { s.note (outcomeEntry s.seed outcome) with propagation := some outcome }

/-! ## Queries -/

/-- The blocking names in order; none before the first analysis has ended. -/
def blocking (s : Session) : List Name :=
  ((s.propagation.map (·.blocking)).getD [])

def isBlocking (s : Session) (name : Name) : Bool :=
  s.blocking.contains name

/-- What is known at one moment. -/
structure Snapshot where
  root : ModuleId
  blocking : List Name
  directBlocking : List (ModuleId × List Name)
  calls : CallGraph
  failed : List (ModuleId × String)
  deriving Repr, BEq, DecidableEq

def Snapshot.modules (snapshot : Snapshot) : List ModuleId :=
  Text.sorted (snapshot.directBlocking.map (·.1))

def snapshot (s : Session) : Snapshot :=
  { root := s.root.getD ""
    blocking := s.blocking
    directBlocking := s.program.modules.records.values.map fun record => (record.moduleId, record.directBlocking)
    calls := s.program.calls
    failed := s.program.modules.failed }

/-! ### Where a name is declared -/

/-- Searches the imports of a name for one whose origin has a location. An import is followed while its origin is
unused; the imports still to be looked at are taken from the top. -/
def searchLocations (s : Session) (unused : List Name) : List Alias → Option Location
  | [] => none
  | ref :: pending =>
    let origin := s.program.originOf ref
    match s.locations.get? origin with
    | some location => some location
    | none =>
      if _h : unused.contains origin then
        s.searchLocations (unused.erase origin) ((s.program.aliases.get? ref.source origin).toList ++ pending)
      else s.searchLocations unused pending
termination_by pending => (unused.length, pending.length)
decreasing_by
  · apply Prod.Lex.left
    have hmem : s.program.originOf ref ∈ unused := List.contains_iff_mem.mp _h
    have := List.length_erase_of_mem hmem
    have := List.length_pos_of_mem hmem
    omega
  · apply Prod.Lex.right
    simp

/-- The origins of all imports, each once. -/
def origins (s : Session) : List Name :=
  (s.program.aliases.items.map fun i => s.program.originOf i.2.2).eraseDups

/-- Where a name is declared. An imported name is declared where what it stands for is declared. -/
def locationOf (s : Session) (name : Name) : Option Location :=
  match s.locations.get? name with
  | some location => some location
  | none =>
    s.searchLocations (s.origins.erase name) ((s.program.aliases.forLocal name).reverse.map (·.2))

end Session

end BlockingCalls
