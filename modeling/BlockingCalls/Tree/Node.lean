/-!
# Syntax trees

A node has a kind, a byte range, the name of the field it fills in its parent, two marks set by the parser, and
its children in source order. A tree is given as rows in document order, each with its depth; `Node.ofRows?` puts
the rows together.
-/

namespace BlockingCalls.Tree

/-- A node of a syntax tree. `index` is the node's place in document order. -/
structure Node where
  kind : String
  start : Nat
  stop : Nat
  field : Option String := none
  hasError : Bool := false
  isMissing : Bool := false
  index : Nat := 0
  children : List Node := []
  deriving Repr, Inhabited

namespace Node

/-- The first child that fills a field. -/
def child? (n : Node) (field : String) : Option Node :=
  n.children.find? (fun c => c.field == some field)

mutual

/-- Number of nodes of the tree below and including a node. -/
def size : Node → Nat
  | ⟨_, _, _, _, _, _, _, children⟩ => sizeAll children + 1

/-- Number of nodes of a list of trees. -/
def sizeAll : List Node → Nat
  | [] => 0
  | n :: rest => n.size + sizeAll rest

end

mutual

/-- The node and all nodes below it, in document order. -/
def preorder : Node → List Node
  | ⟨kind, start, stop, field, hasError, isMissing, index, children⟩ =>
    ⟨kind, start, stop, field, hasError, isMissing, index, children⟩ :: preorderAll children

/-- The nodes of a list of trees, in document order. -/
def preorderAll : List Node → List Node
  | [] => []
  | n :: rest => n.preorder ++ preorderAll rest

end

theorem size_eq (n : Node) : n.size = sizeAll n.children + 1 := by
  cases n
  rfl

theorem sizeAll_append (a b : List Node) : sizeAll (a ++ b) = sizeAll a + sizeAll b := by
  induction a with
  | nil => simp [sizeAll]
  | cons n rest ih => simp [sizeAll, ih, Nat.add_assoc]

theorem size_le_sizeAll {n : Node} {ns : List Node} (h : n ∈ ns) : n.size ≤ sizeAll ns := by
  induction ns with
  | nil => cases h
  | cons m rest ih =>
    rcases List.mem_cons.mp h with rfl | h
    · simp [sizeAll]
    · have := ih h
      simp only [sizeAll]
      omega

theorem child?_mem {n c : Node} {field : String} (h : n.child? field = some c) : c ∈ n.children :=
  List.mem_of_find?_eq_some h

/-! ## Reading rows -/

/-- One node of a tree in document order, with its distance from the root. -/
structure Row where
  depth : Nat
  kind : String
  start : Nat
  stop : Nat
  field : Option String := none
  hasError : Bool := false
  isMissing : Bool := false
  deriving Repr

/-- Rows are attached from the last to the first: the trees that follow a row and lie deeper than it are its
children. -/
def attach (row : Row × Nat) (later : List (Nat × Node)) : List (Nat × Node) :=
  let deeper := fun (t : Nat × Node) => decide (row.1.depth < t.1)
  let node : Node :=
    { kind := row.1.kind, start := row.1.start, stop := row.1.stop, field := row.1.field
      hasError := row.1.hasError, isMissing := row.1.isMissing, index := row.2
      children := (later.takeWhile deeper).map (·.2) }
  (row.1.depth, node) :: later.dropWhile deeper

/-- The tree whose nodes in document order are the rows; `none` where there is no row. -/
def ofRows? (rows : List Row) : Option Node :=
  ((rows.zipIdx.foldr attach []).head?).map (·.2)

end Node

end BlockingCalls.Tree
