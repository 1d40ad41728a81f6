import BlockingCalls.Proofs.Passes
import Mathlib.Data.List.Forall2

/-!
# Callees in any order

The callees of a caller are a set, whose enumeration order may differ from one iteration over it to the next. A pass iterates
over the calls twice and changes the set of blocking names meanwhile, so that it could depend on the order of the calls. It
does depend on the order of the callers: with a callee's own calls before those of its caller, one pass may do what
otherwise takes two. It does not depend on the order of the callees of one caller. Its calls are consecutive, they can add
only the caller itself, and once it is added they add nothing; so whether it is added depends only on the set before the
first of them.

This holds for both parts of a pass that iterate over calls, and for every pass. So the callees may be enumerated
differently each time: what each pass adds is the same, pass by pass.

## Results

* `foldl_addIf_block`           — what the calls of one caller add.
* `Enumeration.foldl_edges`     — a part of a pass does not depend on the order of callees.
* `turns_along_any_enumeration` — the loop of passes does not either.
-/

namespace BlockingCalls

namespace Program

open StateTransition (eval)

-- ---------------------------------------------------------------------------
-- Enumerations of the calls
-- ---------------------------------------------------------------------------

/-- The calls, enumerated with the callers in the order of the graph and the callees of each in whatever order. -/
structure Enumeration (g : CallGraph) where
  blocks : List (Name × List Name)
  listed : List.Forall₂ (fun known block => block.1 = known.1 ∧ block.2.Perm known.2) g.calls.entries blocks

/-- The callees in the order in which the graph has them. -/
instance (g : CallGraph) : Inhabited (Enumeration g) :=
  ⟨⟨g.calls.entries, List.forall₂_same.mpr fun _ _ => ⟨rfl, .refl _⟩⟩⟩

/-- The calls in the order of the enumeration, as pairs of caller and callee. -/
def Enumeration.edges {g : CallGraph} (e : Enumeration g) : List (Name × Name) :=
  e.blocks.flatMap fun block => block.2.map fun callee => (block.1, callee)

/-- A pass with given enumerations of the calls, which may differ from pass to pass, and between the first part of a
pass and the last. -/
def passAlong (p : Program) (order : Nat → Enumeration p.calls × Enumeration p.calls) (number : Nat)
    (blocking : List Name) : List Name :=
  p.addChained (order number).2.edges (p.addImported (addCallers (order number).1.edges blocking))

-- ---------------------------------------------------------------------------
-- The calls of one caller
-- ---------------------------------------------------------------------------

/-- Adds the caller of a call if the call passes a test. -/
def addIf (test : List Name → Name × Name → Bool) (blocking : List Name) (e : Name × Name) : List Name :=
  if test blocking e then blocking.insert e.1 else blocking

theorem addCallers_eq_foldl (edges : List (Name × Name)) (blocking : List Name) :
    addCallers edges blocking = edges.foldl (addIf fun b e => b.contains e.2) blocking :=
  rfl

/-- The last part of a pass as such a fold. -/
theorem addChained_eq_foldl (p : Program) (edges : List (Name × Name)) (blocking : List Name) :
    p.addChained edges blocking =
      edges.foldl (addIf fun b e => !(b.contains e.1 || b.contains e.2) && p.leadsToBlocking b e.2) blocking := by
  unfold addChained
  congr 1
  funext b e
  unfold addIf
  beta_reduce
  cases b.contains e.1 || b.contains e.2 with
  | true => rw [if_pos rfl, Bool.not_true, Bool.false_and, if_neg Bool.false_ne_true]
  | false => rw [if_neg Bool.false_ne_true, Bool.not_false, Bool.true_and]

/-- **The calls of one caller add the caller if and only if one of them would do so by itself.** -/
theorem foldl_addIf_block (test : List Name → Name × Name → Bool) (caller : Name) (callees blocking : List Name) :
    (callees.map fun callee => (caller, callee)).foldl (addIf test) blocking =
      if callees.any fun callee => test blocking (caller, callee) then blocking.insert caller else blocking := by
  induction callees generalizing blocking with
  | nil => rfl
  | cons callee rest ih =>
    rw [List.map_cons, List.foldl_cons, ih, List.any_cons]
    cases htest : test blocking (caller, callee) with
    | true =>
      -- the caller is there from now on, whatever the other calls are tested for
      have hadd : addIf test blocking (caller, callee) = blocking.insert caller := by simp [addIf, htest]
      have hagain : (blocking.insert caller).insert caller = blocking.insert caller :=
        List.insert_of_mem List.mem_insert_self
      rw [hadd, hagain, ite_self, Bool.true_or, if_pos rfl]
    | false =>
      -- the set is unchanged, and the other calls decide
      have hskip : addIf test blocking (caller, callee) = blocking := by simp [addIf, htest]
      rw [hskip, Bool.false_or]

/-- **A part of a pass that iterates over the calls does not depend on their enumeration.** By induction on the callers.
-/
theorem Enumeration.foldl_edges {g : CallGraph} (e : Enumeration g) (test : List Name → Name × Name → Bool)
    (blocking : List Name) : e.edges.foldl (addIf test) blocking = g.edges.foldl (addIf test) blocking := by
  obtain ⟨blocks, hlisted⟩ := e
  unfold Enumeration.edges CallGraph.edges
  simp only
  generalize g.calls.entries = entries at hlisted
  induction hlisted generalizing blocking with
  | nil => rfl
  | @cons known block _ _ hblock _ ih =>
    obtain ⟨hcaller, hperm⟩ := hblock
    rw [List.flatMap_cons, List.flatMap_cons, List.foldl_append, List.foldl_append, ih, foldl_addIf_block,
      foldl_addIf_block, hcaller, hperm.any_eq]

-- ---------------------------------------------------------------------------
-- Passes and the loop
-- ---------------------------------------------------------------------------

/-- A pass does not depend on the enumerations. -/
theorem passAlong_eq_pass (p : Program) (order : Nat → Enumeration p.calls × Enumeration p.calls) :
    p.passAlong order = fun _ => p.pass := by
  funext number blocking
  rw [passAlong, pass, addCallers_eq_foldl, addChained_eq_foldl, addCallers_eq_foldl, addChained_eq_foldl,
    Enumeration.foldl_edges, Enumeration.foldl_edges]

/-- **Callees in any order.** However the callees of each caller are enumerated, in each pass and in each part of it,
the loop of passes terminates with the same outcome: with the same names, and with the same names added by each pass. -/
theorem turns_along_any_enumeration (p : Program) (seed : List Name)
    (order order' : Nat → Enumeration p.calls × Enumeration p.calls) :
    eval (Outcome.turn? (p.passAlong order)) (.start seed) = eval (Outcome.turn? (p.passAlong order')) (.start seed) ∧
    eval (Outcome.turn? (p.passAlong order)) (.start seed) = Part.some (p.propagate seed) := by
  rw [passAlong_eq_pass, passAlong_eq_pass]
  exact ⟨rfl, p.eval_turns seed⟩

/-- Callers in another order: the caller of `k` comes before `k` in one and behind it in the other, and what one pass adds
takes two. -/
example :
    (sample.propagate ["m"]).addedPerPass = [["g", "k"], ["h"], []] ∧
    (sampleReversed.propagate ["m"]).addedPerPass = [["g", "h", "k"], []] := by
  decide +kernel

end Program

end BlockingCalls
