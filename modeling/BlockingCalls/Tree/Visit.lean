import BlockingCalls.Tree.Item

/-!
# Walking a tree

A walk visits nodes in document order and carries two facts downwards: the nearest enclosing named function, and
whether the innermost enclosing function of any sort is async. Anonymous functions change the second only. The
walk keeps its pending nodes on a stack of its own, so the depth of a tree costs nothing; a binding whose value is
a function continues in the children of that value and nowhere else.

* `length_visits_le` — a walk makes at most as many visits as the tree has nodes.
-/

namespace BlockingCalls.Tree

/-- A named function around a node. -/
structure Enclosing where
  name : Name
  isAsync : Bool
  deriving Repr, BEq, DecidableEq

/-- What surrounds a node. -/
structure Context where
  enclosing : Option Enclosing := none
  awaitable : Bool := false
  deriving Repr, BEq, DecidableEq

/-- A node with its meaning and what surrounds it. -/
structure Visit where
  node : Node
  item : Item
  context : Context
  deriving Repr

/-- What surrounds the nodes inside a node. -/
def Context.inside (context : Context) (n : Node) : Item → Context
  | .function name isAsync _ => { enclosing := some { name, isAsync }, awaitable := isAsync }
  | .anonymousFunction => { context with awaitable := n.isAsync }
  | _ => context

/-- The nodes that a walk visits next below a node. -/
def Item.inner (n : Node) : Item → List Node
  | .function _ _ body => body.children
  | _ => n.children

/-- The nodes inside a node are fewer than those of its tree. -/
theorem sizeAll_inner_lt (source : String) (n : Node) :
    Node.sizeAll ((classify source n).inner n) < n.size := by
  have hn := n.size_eq
  cases h : classify source n with
  | function name isAsync body =>
    simp only [Item.inner]
    rcases classify_body h with rfl | hmem
    · omega
    · have := Node.size_le_sizeAll hmem
      have := body.size_eq
      omega
  | _ => simp only [Item.inner]; omega

/-- The visits of a walk that has the given nodes pending. -/
def walk (source : String) : List (Node × Context) → List Visit
  | [] => []
  | (n, context) :: pending =>
    let item := classify source n
    { node := n, item, context } ::
      walk source ((item.inner n).map (·, context.inside n item) ++ pending)
termination_by stack => Node.sizeAll (stack.map (·.1))
decreasing_by
  have h := sizeAll_inner_lt source n
  simp only [List.map_append, List.map_map, Function.comp_def, List.map_id', Node.sizeAll_append, List.map_cons,
    Node.sizeAll]
  omega

/-- A walk visits no node twice. -/
theorem length_walk_le (source : String) (stack : List (Node × Context)) :
    (walk source stack).length ≤ Node.sizeAll (stack.map (·.1)) := by
  fun_induction walk source stack with
  | case1 => simp
  | case2 n context pending item ih =>
    have h : Node.sizeAll (item.inner n) < n.size := sizeAll_inner_lt source n
    simp only [List.map_append, List.map_map, Function.comp_def, List.map_id', Node.sizeAll_append] at ih
    simp only [List.length_cons, List.map_cons, Node.sizeAll]
    omega

/-- The visits of a whole tree, in document order. -/
def visits (source : String) (root : Node) : List Visit :=
  walk source [(root, {})]

/-- A tree has no more visits than nodes. -/
theorem length_visits_le (source : String) (root : Node) : (visits source root).length ≤ root.size := by
  have h := length_walk_le source [(root, {})]
  simpa [visits, Node.sizeAll] using h

end BlockingCalls.Tree
