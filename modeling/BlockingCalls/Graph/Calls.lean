import BlockingCalls.Graph.Summary

/-!
# The merged call graph

The calls of all modules together. Names are global, so the callees of one name in several modules are united.
-/

namespace BlockingCalls

/-- Callers in order of first insertion, each with the names it calls. -/
structure CallGraph where
  calls : Table (List Name) := {}
  deriving Repr, BEq, DecidableEq

namespace CallGraph

/-- Unites the callees of one caller with those already known. -/
def addCaller (g : CallGraph) (caller : Name) (callees : List Name) : CallGraph :=
  ⟨g.calls.alter caller [] fun known => callees.foldl (fun known callee => known.insert callee) known⟩

def add (g : CallGraph) (calls : Table (List Name)) : CallGraph :=
  calls.entries.foldl (fun g e => g.addCaller e.1 e.2) g

def callers (g : CallGraph) : List Name :=
  g.calls.keys

/-- The calls as pairs of caller and callee, callers in order of first insertion. -/
def edges (g : CallGraph) : List (Name × Name) :=
  g.calls.entries.flatMap fun e => e.2.map fun callee => (e.1, callee)

end CallGraph

end BlockingCalls
