import BlockingCalls.Session.Basic
import BlockingCalls.World.Extent

/-!
# Concurrent analysis

A module is analysed by a task. A task loads its module, links all imports, starts one task for each module that they
lead to and waits until all of them have ended. What remains to be done stands in a queue of turns: a task that starts,
the report of a task that has ended, a task that resumes because the last report has arrived. Turns are taken in the
order in which they were queued, so modules are loaded breadth first.

A module that some task has taken up is not taken up again. What goes wrong while imports are linked ends the task; its
parent records the module as failed when it resumes. At the root it ends the analysis.

A turn that loads a module does so at once. That only some number of modules are read at a time, and that reads may end in
any order, is not part of the pool; `Proofs.Session.Schedules` shows that neither changes the outcome.
-/

namespace BlockingCalls.Session

/-- Where a task reports to: the number of its parent and its place among the children, or the caller. -/
abbrev ReportTo := Option (Nat × Nat)

/-- A task that waits for its children. -/
structure Suspended where
  moduleId : ModuleId
  directBlocking : List Name
  reportTo : ReportTo
  /-- The modules of the children, each with what ended its task, if it was not the end of the work. -/
  children : List (ModuleId × Option Fault)
  /-- How many children have not reported. -/
  missing : Nat
  deriving Repr

inductive Turn where
  | start (moduleId : ModuleId) (reportTo : ReportTo)
  | childEnded (parent : Nat)
  | resume (task : Nat)
  deriving Repr, BEq, DecidableEq

/-- The state of a concurrent analysis. -/
structure Pool where
  session : Session
  /-- Tasks that wait or have waited; a task is known by its place. -/
  suspended : List Suspended := []
  queue : List Turn := []
  result : Option (Except Fault (List Name)) := none

namespace Pool

/-- Records a fault in a child's place. -/
def setFault (fault : Option Fault) (place : Nat) (task : Suspended) : Suspended :=
  { task with children := task.children.modify place fun child => (child.1, fault) }

/-- A task ends: its parent gets what ended it, and a report is queued. -/
def finishTask (p : Pool) (outcome : Except Fault (List Name)) : ReportTo → Pool
  | none => { p with result := some outcome }
  | some (parent, place) =>
    { p with
      suspended :=
        match outcome with
        | .ok _ => p.suspended
        | .error fault => p.suspended.modify parent (setFault (some fault) place)
      queue := p.queue ++ [.childEnded parent] }

/-- Links all imports of a module in order; the modules that they lead to. -/
def linkAll (m : Loaded) : Session → List ImportDeclaration → Session × Except Fault (List ModuleId)
  | s, [] => (s, .ok [])
  | s, declaration :: rest =>
    match s.link m declaration with
    | (s, .error fault) => (s, .error fault)
    | (s, .ok target) =>
      let (s, targets) := linkAll m s rest
      (s, targets.map (target.toList ++ ·))

/-- Starts the children of a task and lets it wait for them. -/
def suspend (p : Pool) (m : Loaded) (reportTo : ReportTo) (targets : List ModuleId) : Pool :=
  let task := p.suspended.length
  { p with
    suspended := p.suspended ++
      [{ moduleId := m.summary.moduleId, directBlocking := m.summary.directBlocking, reportTo
         children := targets.map (·, none), missing := targets.length }]
    queue := p.queue ++ targets.zipIdx.map fun target => .start target.1 (some (task, target.2)) }

/-- Takes up a module. -/
def begin (s : Session) (moduleId : ModuleId) : Session :=
  { s.markVisiting moduleId with inFlight := s.inFlight.insert moduleId }

/-- Loads a module that no task has taken up, and links its imports. -/
def takeUp (w : World) (p : Pool) (moduleId : ModuleId) (reportTo : ReportTo) : Pool :=
  match (begin p.session moduleId).load .concurrent w moduleId with
  -- the failure is recorded already
  | (s, none) => { p with session := s }.finishTask (.ok []) reportTo
  | (s, some m) =>
    match linkAll m s m.summary.imports with
    | (s, .error fault) => { p with session := s }.finishTask (.error fault) reportTo
    -- with nothing to wait for the task ends in the same turn
    | (s, .ok []) =>
      { p with session := s.markDone moduleId }.finishTask (.ok m.summary.directBlocking) reportTo
    | (s, .ok targets) => { p with session := s }.suspend m reportTo targets

/-- A task begins. -/
def startTask (w : World) (p : Pool) (moduleId : ModuleId) (reportTo : ReportTo) : Pool :=
  -- what a module that is in flight has found so far is enough
  if p.session.inFlight.contains moduleId || p.session.isFinished moduleId then
    p.finishTask (.ok (p.session.directBlocking moduleId)) reportTo
  else if p.session.config.maxConcurrency < 0 then p.finishTask (.error .negativeCapacity) reportTo
  else p.takeUp w moduleId reportTo

/-- The children of a task that ended with a fault are recorded as failed. -/
def failChildren (s : Session) (children : List (ModuleId × Option Fault)) : Session :=
  children.foldl (fun s child => (child.2.map (s.fail child.1)).getD s) s

/-- A report has arrived; with the last one the parent may resume. -/
def report (p : Pool) (parent : Nat) : Pool :=
  match p.suspended[parent]? with
  | none => p
  | some task =>
    { p with
      suspended := p.suspended.set parent { task with missing := task.missing - 1 }
      queue := if task.missing = 1 then p.queue ++ [.resume parent] else p.queue }

/-- A task resumes after its children have ended. -/
def resumeTask (p : Pool) (task : Nat) : Pool :=
  match p.suspended[task]? with
  | none => p
  | some t =>
    { p with session := (failChildren p.session t.children).markDone t.moduleId }.finishTask
      (.ok t.directBlocking) t.reportTo

def take (w : World) (p : Pool) : Turn → Pool
  | .start moduleId reportTo => p.startTask w moduleId reportTo
  | .childEnded parent => p.report parent
  | .resume task => p.resumeTask task

/-- Takes turns in order until none is left, at most the given number. -/
def run (w : World) : Nat → Pool → Pool
  | 0, p => p
  | turns + 1, p =>
    match p.queue with
    | [] => p
    | turn :: rest => run w turns ({ p with queue := rest }.take w turn)

end Pool

/-- More than the number of turns of one analysis: each task has at most three, and each module that is loaded starts
at most as many tasks as there are nodes. -/
def turnBound (w : World) : Nat :=
  3 * (w.moduleBound * w.nodeCount + 2)

/-- Analyses a module and all that it imports with tasks that take turns. -/
def analyzeModuleConcurrently (s : Session) (w : World) (moduleId : ModuleId) :
    Session × Except Fault (List Name) :=
  let pool := Pool.run w (turnBound w) { session := s, queue := [.start moduleId none] }
  (pool.session, pool.result.getD (.error .tooDeep))

/-- Analyses a root file with tasks that take turns, and computes the blocking names. -/
def analyzeConcurrently (s : Session) (w : World) (path : String) : Session × Except Fault Snapshot :=
  let root := s.resolver.rootModule w.current path
  let s := { s with root := some root }.note (.info ("[Session] Analyzing " ++ root ++ " (async)"))
  if s.config.maxConcurrency < 0 then (s, .error .negativeCapacity)
  else
    let (s, result) := s.analyzeModuleConcurrently w root
    let s := { s with inFlight := [] }
    match result with
    | .error fault => (s, .error fault)
    | .ok _ => (s.finish, .ok s.finish.snapshot)

end BlockingCalls.Session
