import BlockingCalls.Graph.Summary

/-!
# Records of modules

A module is recorded when its analysis begins, before its imports are followed, so that a module met again in a
cycle of imports is known. A record ends as done or as failed.
-/

namespace BlockingCalls

inductive Progress where
  | visiting
  | done
  | failed
  deriving Repr, BEq, DecidableEq

def Progress.label : Progress → String
  | .visiting => "visiting"
  | .done => "done"
  | .failed => "failed"

/-- How far the analysis of one module has come, and what it found. -/
structure Record where
  moduleId : ModuleId
  progress : Progress := .visiting
  directBlocking : List Name := []
  exports : Table Name := {}
  error : Option String := none
  deriving Repr, BEq, DecidableEq

/-- The records of all modules, in order of first insertion. -/
structure Registry where
  records : Table Record := {}
  deriving Repr, BEq, DecidableEq

namespace Registry

/-- Starts a new record; what was known of the module before is dropped. -/
def markVisiting (r : Registry) (moduleId : ModuleId) : Registry :=
  ⟨r.records.put moduleId { moduleId }⟩

def store (r : Registry) (moduleId : ModuleId) (directBlocking : List Name) (exports : Table Name) : Registry :=
  ⟨r.records.alter moduleId { moduleId } fun record => { record with directBlocking, exports }⟩

/-- Ends a record as done; `none` where the module has no record. -/
def markDone? (r : Registry) (moduleId : ModuleId) : Option Registry :=
  (r.records.get? moduleId).map fun record => ⟨r.records.put moduleId { record with progress := .done }⟩

/-- Ends a record as failed. Nothing that blocks is kept; the exports stay as they are. -/
def markFailed (r : Registry) (moduleId : ModuleId) (error : String) : Registry :=
  ⟨r.records.alter moduleId { moduleId } fun record =>
    { record with progress := .failed, directBlocking := [], error := some error }⟩

def contains (r : Registry) (moduleId : ModuleId) : Bool :=
  r.records.contains moduleId

def isFinished (r : Registry) (moduleId : ModuleId) : Bool :=
  (r.records.get? moduleId).any fun record => record.progress != .visiting

def directBlocking (r : Registry) (moduleId : ModuleId) : List Name :=
  ((r.records.get? moduleId).map (·.directBlocking)).getD []

/-- The name inside a module for a name it exports; a name that is not exported stands for itself. -/
def exportedName (r : Registry) (moduleId : ModuleId) (name : Name) : Name :=
  ((r.records.get? moduleId).bind (·.exports.get? name)).getD name

/-- The error text of each failed module. -/
def failed (r : Registry) : List (ModuleId × String) :=
  (r.records.values.filter (·.progress == .failed)).map fun record => (record.moduleId, record.error.getD "")

end Registry

end BlockingCalls
