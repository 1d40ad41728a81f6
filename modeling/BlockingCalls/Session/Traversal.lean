import BlockingCalls.Session.Basic
import BlockingCalls.World.Extent

/-!
# Depth-first analysis

A module is entered, loaded, and the modules it imports are entered one after the other before it is marked as done.
A module that is being visited or is finished is not entered again, so cycles of imports end. What goes wrong
while an import is linked ends the whole analysis and leaves the session as it is at that moment.

Each nested entry visits one more module, so the depth of nesting is bounded by the number of modules that the world
can give. The bound is the first argument of `enter`.
-/

namespace BlockingCalls

/-- A session and the modules that are being visited. -/
structure Traversal where
  session : Session
  visiting : List ModuleId := []

namespace Traversal

def onSession (t : Traversal) (change : Session → Session) : Traversal :=
  { t with session := change t.session }

/-- Takes up a module. -/
def begin (t : Traversal) (moduleId : ModuleId) : Traversal :=
  { session := t.session.markVisiting moduleId, visiting := t.visiting.insert moduleId }

/-- Links the imports of a module in order and enters each module that they lead to. -/
def follow (enter : Traversal → ModuleId → Traversal × Except Fault (List Name)) (m : Session.Loaded) :
    Traversal → List ImportDeclaration → Traversal × Except Fault Unit
  | t, [] => (t, .ok ())
  | t, declaration :: rest =>
    match t.session.link m declaration with
    | (s, .error fault) => ({ t with session := s }, .error fault)
    | (s, .ok none) => follow enter m { t with session := s } rest
    | (s, .ok (some target)) =>
      match enter { t with session := s } target with
      | (t, .error fault) => (t, .error fault)
      | (t, .ok _) => follow enter m t rest

/-- Analyses a module and all that it imports; gives the names that block in the module by themselves. -/
def enter (w : World) : Nat → Traversal → ModuleId → Traversal × Except Fault (List Name)
  | 0, t, _ => (t, .error .tooDeep)
  | depth + 1, t, moduleId =>
    -- a cycle of imports or a module met before
    if t.visiting.contains moduleId || t.session.isFinished moduleId then
      (t.onSession (·.note (.debug ("[Session] Already visited " ++ moduleId))),
        .ok (t.session.directBlocking moduleId))
    else
      let t := t.begin moduleId
      match t.session.load .waiting w moduleId with
      -- the failure is recorded already
      | (s, none) => ({ t with session := s }, .ok [])
      | (s, some m) =>
        match follow (enter w depth) m { t with session := s } m.summary.imports with
        -- the record stays as it is, neither done nor failed
        | (t, .error fault) => (t, .error fault)
        | (t, .ok ()) => (t.onSession (·.markDone moduleId), .ok m.summary.directBlocking)

end Traversal

namespace Session

/-- Analyses a module and all that it imports, except for modules that are being visited already. -/
def analyzeModule (s : Session) (w : World) (moduleId : ModuleId) (visiting : List ModuleId) :
    Traversal × Except Fault (List Name) :=
  Traversal.enter w (w.moduleBound + 1) { session := s, visiting } moduleId

/-- Analyses a root file and all that it imports, and computes the blocking names. -/
def analyze (s : Session) (w : World) (path : String) : Session × Except Fault Snapshot :=
  let root := s.resolver.rootModule w.current path
  let s := { s with root := some root }.note (.info ("[Session] Analyzing " ++ root))
  match s.analyzeModule w root [] with
  | (t, .error fault) => (t.session, .error fault)
  | (t, .ok _) => (t.session.finish, .ok t.session.finish.snapshot)

end Session

end BlockingCalls
