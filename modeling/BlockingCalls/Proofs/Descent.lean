import BlockingCalls.Proofs.Enclosing
import Mathlib.Data.List.Basic

/-!
# Walks as recursion on the tree

A walk keeps its pending nodes on a stack, each with its context. It is equivalent to a structural recursion on the tree, in
which a node hands a context to the nodes inside it, in order. `descend` is this recursion, for an arbitrary type of
contexts; `inside` is the context that a node hands down. The nodes inside a node are its children, except for a binding
whose value is a function: there they are the children of the value.

The recursion commutes with maps of contexts that commute with `inside` (`descend_map`). The most informative context is
the list of the nodes around a node (`withAround`), of which the nearest function and whether an `await` is possible are
functions (`Context.ofAround`).

## Results

* `walk_eq_descend`, `visits_eq_descend` — the visits of a walk are those of the recursion, in order.
* `descend_map`                          — the recursion commutes with maps of contexts.
* `withNames_eq`, `withContexts_eq`      — names, and contexts as functions of the nodes around.
-/

namespace BlockingCalls.Tree

-- ---------------------------------------------------------------------------
-- The recursion
-- ---------------------------------------------------------------------------

/-- The node is a binding whose value is a function. -/
def bindsFunction (source : String) (n : Node) : Bool :=
  match classify source n with
  | .function _ _ _ => (valueBindings.lookup n.kind).isSome
  | _ => false

section Descent

variable {κ : Type} (source : String) (inside : κ → Node → κ)

mutual

/-- The nodes visited from a node down, in document order, each with its context. -/
def descend (context : κ) : Node → List (Node × κ)
  | ⟨kind, start, stop, field, hasError, isMissing, index, children⟩ =>
    let n : Node := ⟨kind, start, stop, field, hasError, isMissing, index, children⟩
    (n, context) ::
      if bindsFunction source n then descendValue (inside context n) children
      else descendAll (inside context n) children

/-- The nodes visited from several nodes down. -/
def descendAll (context : κ) : List Node → List (Node × κ)
  | [] => []
  | n :: rest => descend context n ++ descendAll context rest

/-- The nodes visited below the first of several nodes that is a value. -/
def descendValue (context : κ) : List Node → List (Node × κ)
  | [] => []
  | ⟨_, _, _, field, _, _, _, children⟩ :: rest =>
    if field == some "value" then descendAll context children else descendValue context rest

end

/-- Several nodes are visited one after the other. -/
theorem descendAll_eq (context : κ) (ns : List Node) :
    descendAll source inside context ns = ns.flatMap (descend source inside context) := by
  induction ns with
  | nil => rw [descendAll, List.flatMap_nil]
  | cons n rest ih => rw [descendAll, List.flatMap_cons, ih]

/-- The nodes visited for a binding are those below its value. -/
theorem descendValue_eq (context : κ) {ns : List Node} {value : Node}
    (h : ns.find? (fun c => c.field == some "value") = some value) :
    descendValue source inside context ns = descendAll source inside context value.children := by
  induction ns with
  | nil => cases h
  | cons n rest ih =>
    obtain ⟨kind, start, stop, field, hasError, isMissing, index, children⟩ := n
    rw [descendValue]
    cases hvalue : field == some "value" with
    | true =>
      simp only [List.find?_cons, hvalue, Option.some.injEq] at h
      subst h
      rfl
    | false =>
      simp only [List.find?_cons, hvalue] at h
      exact ih h

end Descent

-- ---------------------------------------------------------------------------
-- The nodes inside a node
-- ---------------------------------------------------------------------------

/-- A binding is classified by its value. -/
theorem classify_of_lookup {source : String} {n : Node} {nameField : String}
    (h : valueBindings.lookup n.kind = some nameField) : classify source n = classifyBinding source n nameField := by
  -- no binding is a function declaration
  have hkind : ¬ functionDeclarations.contains n.kind = true := by
    intro hcontains
    simp only [functionDeclarations, List.contains_cons, List.contains_nil, Bool.or_eq_true, beq_iff_eq,
      Bool.false_eq_true, or_false] at hcontains
    rcases hcontains with hk | hk | hk
    all_goals
      rw [hk] at h
      cases h
  rw [classify, if_neg hkind, h]

/-- The body of a function that is no binding is the function itself. -/
theorem body_eq_of_lookup_eq_none {source : String} {n : Node} {name : Name} {isAsync : Bool} {body : Node}
    (hitem : classify source n = .function name isAsync body) (h : valueBindings.lookup n.kind = none) : body = n := by
  rw [classify, h] at hitem
  simp only at hitem
  split at hitem
  · exact classifyFunction_body hitem
  · split at hitem
    · exact classifyFunction_body hitem
    · split at hitem
      · cases hitem
      · split at hitem
        · split at hitem <;> cases hitem
        · split at hitem <;> cases hitem

/-- The body of a function that is bound is the value of the binding. -/
theorem child?_of_classifyBinding {source : String} {n : Node} {field : String} {name : Name} {isAsync : Bool}
    {body : Node} (h : classifyBinding source n field = .function name isAsync body) : n.child? "value" = some body := by
  unfold classifyBinding at h
  split at h
  · rename_i value _ hvalue
    split at h
    · cases h
      exact hvalue
    · cases h
  · cases h

/-- The body of a binding whose value is a function is its value. -/
theorem child?_of_bindsFunction {source : String} {n : Node} (h : bindsFunction source n = true) :
    ∃ value, n.child? "value" = some value ∧ (classify source n).inner n = value.children := by
  unfold bindsFunction at h
  split at h
  · rename_i name isAsync body hitem
    obtain ⟨nameField, hlookup⟩ := Option.isSome_iff_exists.mp h
    refine ⟨body, child?_of_classifyBinding ((classify_of_lookup hlookup).symm.trans hitem), ?_⟩
    rw [hitem]
    rfl
  · cases h

/-- The nodes inside any other node are its children. -/
theorem inner_eq_children {source : String} {n : Node} (h : bindsFunction source n = false) :
    (classify source n).inner n = n.children := by
  cases hitem : classify source n with
  | function name isAsync body =>
    have hlookup : valueBindings.lookup n.kind = none := by
      rw [bindsFunction, hitem] at h
      exact Option.isSome_eq_false_iff.mp h |> Option.isNone_iff_eq_none.mp
    rw [Item.inner, body_eq_of_lookup_eq_none hitem hlookup]
  | _ => rfl

section Descent

variable {κ κ' : Type} (source : String) (inside : κ → Node → κ)

/-- The recursion at a node, in terms of the nodes inside it. -/
theorem descend_eq (context : κ) (n : Node) :
    descend source inside context n =
      (n, context) :: ((classify source n).inner n).flatMap (descend source inside (inside context n)) := by
  have hunfold : descend source inside context n = (n, context) ::
      if bindsFunction source n then descendValue source inside (inside context n) n.children
      else descendAll source inside (inside context n) n.children := by
    obtain ⟨kind, start, stop, field, hasError, isMissing, index, children⟩ := n
    rw [descend]
  rw [hunfold]
  by_cases hbinds : bindsFunction source n = true
  · -- a binding whose value is a function
    obtain ⟨value, hvalue, hinner⟩ := child?_of_bindsFunction hbinds
    rw [if_pos hbinds, descendValue_eq source inside _ hvalue, hinner, descendAll_eq]
  · -- any other node
    rw [if_neg hbinds, inner_eq_children (by simpa using hbinds), descendAll_eq]

/-- The recursion at a node, in terms of its children. -/
theorem descend_children (context : κ) (n : Node) :
    descend source inside context n = (n, context) ::
      (if bindsFunction source n then ((n.child? "value").map (·.children)).getD [] else n.children).flatMap
        (descend source inside (inside context n)) := by
  rw [descend_eq]
  by_cases hbinds : bindsFunction source n = true
  · obtain ⟨value, hvalue, hinner⟩ := child?_of_bindsFunction hbinds
    rw [if_pos hbinds, hinner, hvalue, Option.map_some, Option.getD_some]
  · rw [if_neg hbinds, inner_eq_children (by simpa using hbinds)]

/-- Induction on the nodes that a walk visits: what holds of a node if it holds of all nodes inside it holds of every
node. -/
theorem inner_induction {P : Node → Prop} (h : ∀ n, (∀ c ∈ (classify source n).inner n, P c) → P n) (n : Node) : P n := by
  apply h
  intro c hc
  have hless : c.size < n.size :=
    Nat.lt_of_le_of_lt (Node.size_le_sizeAll hc) (sizeAll_inner_lt source n)
  exact inner_induction h c
termination_by n.size

/-- **The recursion commutes with a map of contexts** that commutes with `inside`. -/
theorem descend_map {inside' : κ' → Node → κ'} {f : κ → κ'} (hinside : ∀ k n, f (inside k n) = inside' (f k) n)
    (context : κ) (n : Node) :
    descend source inside' (f context) n = (descend source inside context n).map fun v => (v.1, f v.2) := by
  induction n using inner_induction source generalizing context with
  | h n ih =>
    rw [descend_eq, descend_eq, List.map_cons, List.map_flatMap, ← hinside]
    congr 1
    exact List.flatMap_congr fun c hc => ih c hc _

end Descent

-- ---------------------------------------------------------------------------
-- The walk
-- ---------------------------------------------------------------------------

/-- The context that a walk hands down at a node. -/
def Context.enter (source : String) (context : Context) (n : Node) : Context :=
  context.inside n (classify source n)

/-- A node with its context, as a visit. -/
def Visit.ofDescent (source : String) (v : Node × Context) : Visit :=
  ⟨v.1, classify source v.1, v.2⟩

/-- **A walk is the recursion from each of its pending nodes, in order.** By induction along the walk. -/
theorem walk_eq_descend (source : String) (stack : List (Node × Context)) :
    walk source stack =
      (stack.flatMap fun e => descend source (Context.enter source) e.2 e.1).map (Visit.ofDescent source) := by
  fun_induction walk source stack with
  | case1 => rfl
  | case2 n context pending item ih =>
    rw [ih, List.flatMap_append, List.flatMap_map, List.flatMap_cons, descend_eq]
    rfl

/-- The nodes visited in a tree, each with the nearest named function around it, and whether the innermost function of any
sort is async. -/
def withContexts (source : String) (root : Node) : List (Node × Context) :=
  descend source (Context.enter source) {} root

theorem visits_eq_descend (source : String) (root : Node) :
    visits source root = (withContexts source root).map (Visit.ofDescent source) := by
  rw [visits, walk_eq_descend, List.flatMap_singleton]
  rfl

-- ---------------------------------------------------------------------------
-- The functions around a node
-- ---------------------------------------------------------------------------

/-- The name of the nearest named function, handed on at a node. -/
def nameInside (source : String) (outer : Option Name) (n : Node) : Option Name :=
  match classify source n with
  | .function name _ _ => some name
  | _ => outer

/-- The nodes visited in a tree, each with the name of the nearest named function around it. -/
def withNames (source : String) (root : Node) : List (Node × Option Name) :=
  descend source (nameInside source) none root

/-- The name of the nearest named function can be handed down alone. -/
theorem withNames_eq (source : String) (root : Node) :
    withNames source root = (withContexts source root).map fun v => (v.1, v.2.enclosing.map (·.name)) := by
  refine descend_map source (Context.enter source) (f := fun context => context.enclosing.map (·.name)) ?_ {} root
  intro context n
  unfold Context.enter nameInside
  cases classify source n <;> rfl

/-- The function that a node is, if it has a name. -/
def namedFunction? (source : String) (n : Node) : Option Enclosing :=
  match classify source n with
  | .function name isAsync _ => some { name, isAsync }
  | _ => none

/-- Whether the function that a node is, named or not, is async. -/
def asyncFunction? (source : String) (n : Node) : Option Bool :=
  match classify source n with
  | .function _ isAsync _ => some isAsync
  | .anonymousFunction => some n.isAsync
  | _ => none

/-- The context that is determined by the nodes around a node, nearest first: the nearest named function, and whether
the innermost of all is async. -/
def Context.ofAround (source : String) (outer : List Node) : Context where
  enclosing := outer.findSome? (namedFunction? source)
  awaitable := (outer.findSome? (asyncFunction? source)).getD false

/-- One more node around. -/
theorem Context.ofAround_cons (source : String) (n : Node) (outer : List Node) :
    Context.ofAround source (n :: outer) = (Context.ofAround source outer).enter source n := by
  unfold Context.ofAround Context.enter
  rw [List.findSome?_cons, List.findSome?_cons]
  unfold namedFunction? asyncFunction?
  cases classify source n <;> rfl

/-- The nodes visited in a tree, each with the nodes around it, nearest first. -/
def withAround (source : String) (root : Node) : List (Node × List Node) :=
  descend source (fun outer n => n :: outer) [] root

/-- The context of a node is determined by the nodes around it. -/
theorem withContexts_eq (source : String) (root : Node) :
    withContexts source root = (withAround source root).map fun v => (v.1, Context.ofAround source v.2) :=
  descend_map source (fun outer n => n :: outer) (fun outer n => Context.ofAround_cons source n outer) [] root

end BlockingCalls.Tree
