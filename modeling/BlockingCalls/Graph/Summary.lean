import BlockingCalls.Config
import BlockingCalls.Graph.Location
import BlockingCalls.Tree.Visit

/-!
# The summary of one module

All that the analysis keeps of a module's tree: the functions that call a blocking operation themselves, the calls
between names, the places of declarations, the imports and the exports. A summary is a fold over the visits of
the tree.
-/

namespace BlockingCalls

open BlockingCalls.Tree (Node Item Visit Callee Binding ExportSpecifier)

/-- An import, or an export that passes on names of another module. -/
structure ImportDeclaration where
  source : String
  bindings : List Binding
  line : Nat
  deriving Repr, BEq, DecidableEq

structure Summary where
  moduleId : ModuleId
  directBlocking : List Name := []
  calls : Table (List Name) := {}
  locations : Locations := {}
  imports : List ImportDeclaration := []
  /-- From exported names to names inside the module. -/
  exports : Table Name := {}
  deriving Repr

namespace Summary

/-- A call inside a named function makes the function blocking or adds an edge. -/
def addCall (config : Config) (s : Summary) (caller : Name) (callee : Callee) : Summary :=
  if config.isSyncOperation callee then
    { s with directBlocking := s.directBlocking.insert caller }
  else
    match config.edgeName callee with
    | some name => { s with calls := s.calls.alter caller [] (·.insert name) }
    | none => s

/-- An export with a source is an import as well: the exported name becomes a name of the module. -/
def addExport (s : Summary) (line : Nat) (specifiers : List ExportSpecifier) : Option String → Summary
  | none =>
    { s with exports := s.exports.putAll (specifiers.map fun e => (e.exported, e.localName)) }
  | some source =>
    { s with
      imports := s.imports ++
        [{ source, line, bindings := specifiers.map fun e => { localName := e.exported, imported := e.localName } }]
      exports := s.exports.putAll (specifiers.map fun e => (e.exported, e.exported)) }

/-- What one visit adds to the summary. -/
def add (config : Config) (text : String) (s : Summary) (v : Visit) : Summary :=
  let line := (Text.positionAt text v.node.start).row + 1
  match v.item with
  | .function name _ _ =>
    { s with
      calls := s.calls.alter name [] id
      locations := s.locations.put name (.ofOffset s.moduleId text v.node.start) }
  | .call callee =>
    match v.context.enclosing, callee with
    | some enclosing, some callee => s.addCall config enclosing.name callee
    | _, _ => s
  | .importing source bindings => { s with imports := s.imports ++ [{ source, bindings, line }] }
  | .exporting source specifiers => s.addExport line specifiers source
  | .anonymousFunction => s
  | .other => s

/-- The summary of a module with the given text and tree. -/
def ofTree (config : Config) (moduleId : ModuleId) (text : String) (root : Node) : Summary :=
  (Tree.visits text root).foldl (add config text) { moduleId }

end Summary

end BlockingCalls
