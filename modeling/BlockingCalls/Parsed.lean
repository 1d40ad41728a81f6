import BlockingCalls.Fault
import BlockingCalls.Source
import BlockingCalls.Tree.Language

/-!
# Parsed modules

A module is parsed with the grammar of its language, which follows from its location; parsing succeeds if the tree has no
error. The line of the first error is found by going down the first child with an error, until the error itself or a
missing token is met.
-/

namespace BlockingCalls

open BlockingCalls.Tree (Node Language)

structure Parsed where
  moduleId : ModuleId
  location : String
  language : Language
  text : String
  root : Node
  deriving Repr

namespace Parsed

/-- The node at which a tree with an error goes wrong. -/
def firstError (n : Node) : Node :=
  if n.kind == "ERROR" || n.isMissing then n
  else
    match _h : n.children.find? (·.hasError) with
    | some child => firstError child
    | none => n
termination_by n.size
decreasing_by
  have hmem := Node.size_le_sizeAll (List.mem_of_find?_eq_some _h)
  have := n.size_eq
  omega

def ofSource (w : World) (s : Source) : Except Fault Parsed :=
  match Language.ofLocation s.location with
  | .error fault => .error (.badUrl fault)
  | .ok language =>
    let root := w.treeOf language s.text
    if root.hasError then
      .error (.syntaxError s.moduleId ((Text.positionAt s.text (firstError root).start).row + 1))
    else .ok { moduleId := s.moduleId, location := s.location, language, text := s.text, root }

end Parsed

end BlockingCalls
