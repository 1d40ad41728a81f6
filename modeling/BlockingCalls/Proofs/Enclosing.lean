import BlockingCalls.Tree.Visit
import Mathlib.Logic.Relation

/-!
# The function around a node

A walk keeps its pending nodes on a stack. What it visits has a description without the stack: a node is visited if it is
reached from the root by descending, from a named function to the children of its body and from any other node to its own
children. The descent carries the nearest named function (`Within`).

`mem_walk_iff` eliminates the stack: the visits of a walk are the descents from its pending nodes. The relation `Within`
keeps of a descent what the call graph needs.

## Results

* `mem_walk_iff`           — the visits of a walk are the descents from its pending nodes.
* `within_iff_mem_visits`  — the visits of a tree, with the function around each, are those of `Within`.
-/

namespace BlockingCalls.Tree

/-- One step of a descent: from a node with its context to a node inside it. -/
def Descends (source : String) (a b : Node × Context) : Prop :=
  b.1 ∈ (classify source a.1).inner a.1 ∧ b.2 = a.2.inside a.1 (classify source a.1)

/-- **A walk visits exactly what is reached by descending from a pending node.** By induction along the walk. -/
theorem mem_walk_iff {source : String} {stack : List (Node × Context)} {v : Visit} :
    v ∈ walk source stack ↔ v.item = classify source v.node ∧
      ∃ start ∈ stack, Relation.ReflTransGen (Descends source) start (v.node, v.context) := by
  fun_induction walk source stack with
  | case1 => simp
  | case2 n context pending item ih =>
    rw [List.mem_cons, ih]
    constructor
    · rintro (rfl | ⟨hitem, start, hstart, hdown⟩)
      · exact ⟨rfl, (n, context), List.mem_cons_self, .refl⟩
      · refine ⟨hitem, ?_⟩
        rcases List.mem_append.mp hstart with hinner | hpending
        · -- a descent from a node pushed for the top one: one step more from the top one
          obtain ⟨child, hchild, rfl⟩ := List.mem_map.mp hinner
          exact ⟨(n, context), List.mem_cons_self, .head ⟨hchild, rfl⟩ hdown⟩
        · -- a descent from a node that was pending before
          exact ⟨start, List.mem_cons_of_mem _ hpending, hdown⟩
    · rintro ⟨hitem, start, hstart, hdown⟩
      rcases List.mem_cons.mp hstart with rfl | hpending
      · -- either the visit is that of the top node, or the first step leads to one of the nodes pushed for it
        rcases Relation.ReflTransGen.cases_head hdown with heq | ⟨⟨child, inner⟩, ⟨hchild, rfl⟩, hrest⟩
        · obtain ⟨vnode, vitem, vcontext⟩ := v
          cases heq
          simp only at hitem
          subst hitem
          exact .inl rfl
        · refine .inr ⟨hitem, _, List.mem_append_left _ (List.mem_map.mpr ⟨child, hchild, rfl⟩), hrest⟩
      · exact .inr ⟨hitem, start, List.mem_append_right _ hpending, hdown⟩

/-- `Within source root n f`: the node `n` is visited in the tree below `root`, and `f` is the name of the nearest named
function around it, if there is one. -/
inductive Within (source : String) (root : Node) : Node → Option Name → Prop
  | root : Within source root root none
  | function {n c : Node} {f : Option Name} {name : Name} {isAsync : Bool} {body : Node} (outer : Within source root n f)
      (item : classify source n = .function name isAsync body) (child : c ∈ body.children) :
      Within source root c (some name)
  | other {n c : Node} {f : Option Name} (outer : Within source root n f)
      (item : ∀ name isAsync body, classify source n ≠ .function name isAsync body) (child : c ∈ n.children) :
      Within source root c f

/-- A descent from the root, with the name that its context has. -/
theorem within_of_descends {source : String} {root n : Node} {context : Context}
    (h : Relation.ReflTransGen (Descends source) (root, {}) (n, context)) :
    Within source root n (context.enclosing.map (·.name)) := by
  generalize hstart : ((root, {}) : Node × Context) = start at h
  generalize hstop : (n, context) = stop at h
  induction h generalizing n context with
  | refl =>
    cases hstart
    cases hstop
    exact .root
  | @tail a b _ hstep ih =>
    cases hstop
    obtain ⟨hchild, rfl⟩ := hstep
    have houter := ih rfl
    cases hitem : classify source a.1 with
    | function name isAsync body =>
      rw [hitem] at hchild
      exact .function houter hitem hchild
    | _ =>
      rw [hitem] at hchild
      exact .other houter (by simp [hitem]) hchild

/-- Conversely, each visited node is reached by a descent whose context has that name. -/
theorem descends_of_within {source : String} {root n : Node} {f : Option Name} (h : Within source root n f) :
    ∃ context : Context, context.enclosing.map (·.name) = f ∧
      Relation.ReflTransGen (Descends source) (root, {}) (n, context) := by
  induction h with
  | root => exact ⟨{}, rfl, .refl⟩
  | @function n c f name isAsync body outer item child ih =>
    obtain ⟨context, _, hdown⟩ := ih
    refine ⟨context.inside n (classify source n), ?_, hdown.tail ⟨?_, rfl⟩⟩
    · rw [item]
      rfl
    · rw [item]
      exact child
  | @other n c f outer item child ih =>
    obtain ⟨context, hname, hdown⟩ := ih
    refine ⟨context.inside n (classify source n), ?_, hdown.tail ⟨?_, rfl⟩⟩
    · -- every item but a named function leaves the enclosing function unchanged
      cases hitem : classify source n with
      | function name isAsync body => exact absurd hitem (item name isAsync body)
      | _ => exact hname
    · cases hitem : classify source n with
      | function name isAsync body => exact absurd hitem (item name isAsync body)
      | _ => exact child

/-- **The visits of a tree, with the function around each, are those of `Within`.** -/
theorem within_iff_mem_visits {source : String} {root n : Node} {f : Option Name} :
    Within source root n f ↔
      ∃ v ∈ visits source root, v.node = n ∧ v.item = classify source n ∧ v.context.enclosing.map (·.name) = f := by
  constructor
  · intro h
    obtain ⟨context, hname, hdown⟩ := descends_of_within h
    refine ⟨⟨n, classify source n, context⟩, ?_, rfl, rfl, hname⟩
    exact mem_walk_iff.mpr ⟨rfl, (root, {}), List.mem_cons_self, hdown⟩
  · rintro ⟨v, hv, rfl, _, rfl⟩
    obtain ⟨_, start, hstart, hdown⟩ := mem_walk_iff.mp hv
    rw [List.mem_singleton.mp hstart] at hdown
    exact within_of_descends hdown

end BlockingCalls.Tree
