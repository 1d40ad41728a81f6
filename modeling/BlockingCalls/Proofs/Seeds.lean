import BlockingCalls.Proofs.Passes

/-!
# Propagation as a function of the seed

Passes from different seeds cannot be compared one by one: a name may be added early from one seed, late from another, and
by another part of a pass from both together. Their outcomes are compared through closed sets. Each of the closure rules
has at most one name as its premise, so a union of closed sets is closed. Hence what blocks because of two seeds together
blocks because of one of them.

A closed set is a fixed point of each part of a pass, also of the one that searches chains of imports. So propagation from
the outcome of propagation makes one pass, which adds nothing.

## Results

* `Closed.union`              — a union of closed sets is closed.
* `pass_eq_self`              — a closed set is a fixed point of a pass.
* `propagate_eq_of_closed`    — propagation from a closed set makes one pass.
* `propagate_preserves_union` — propagation is a closure operator on seeds, and preserves unions.
-/

namespace BlockingCalls

namespace Program

-- ---------------------------------------------------------------------------
-- Unions of closed sets
-- ---------------------------------------------------------------------------

/-- The rule for imports has at most one name as its premise. -/
theorem StandsFor.of_union {p : Program} {B C : Set Name} {ref : Alias} (h : p.StandsFor (B ∪ C) ref) :
    p.StandsFor B ref ∨ p.StandsFor C ref := by
  rcases h with hdirect | (horigin | horigin) | (hname | hname)
  · exact .inl (.inl hdirect)
  · exact .inl (.inr (.inl horigin))
  · exact .inr (.inr (.inl horigin))
  · exact .inl (.inr (.inr hname))
  · exact .inr (.inr (.inr hname))

/-- **A union of closed sets is closed.** -/
theorem Closed.union {p : Program} {B C : Set Name} (hB : p.Closed B) (hC : p.Closed C) : p.Closed (B ∪ C) where
  call caller callee he hcallee := hcallee.imp (hB.call caller callee he) (hC.call caller callee he)
  imported moduleId localName ref hi hstands :=
    hstands.of_union.imp (hB.imported moduleId localName ref hi) (hC.imported moduleId localName ref hi)

theorem propagate_mono (p : Program) {S T : List Name} (h : S ⊆ T) :
    (p.propagate S).blocking ⊆ (p.propagate T).blocking := fun x hx =>
  propagate_subset (p.propagate_closed T) (fun _ hy => p.mem_propagate_of_mem_seed (h hy)) x hx

/-- **Propagation preserves unions.** -/
theorem mem_propagate_union (p : Program) (S T : List Name) (x : Name) :
    x ∈ (p.propagate (S ∪ T)).blocking ↔ x ∈ (p.propagate S).blocking ∨ x ∈ (p.propagate T).blocking := by
  constructor
  · -- the union of the two outcomes is closed, and contains both seeds
    refine propagate_subset ((p.propagate_closed S).union (p.propagate_closed T)) (fun y hy => ?_) x
    exact (List.mem_union_iff.mp hy).imp p.mem_propagate_of_mem_seed p.mem_propagate_of_mem_seed
  · rintro (hS | hT)
    · exact p.propagate_mono (fun y hy => List.mem_union_iff.mpr (.inl hy)) hS
    · exact p.propagate_mono (fun y hy => List.mem_union_iff.mpr (.inr hy)) hT

-- ---------------------------------------------------------------------------
-- Closed sets are fixed points
-- ---------------------------------------------------------------------------

/-- A fold whose steps change nothing changes nothing. -/
theorem foldl_eq_self {α : Type} {step : List Name → α → List Name} {items : List α} {a : List Name}
    (h : ∀ i ∈ items, step a i = a) : items.foldl step a = a := by
  induction items with
  | nil => rfl
  | cons i rest ih =>
    rw [List.foldl_cons, h i List.mem_cons_self]
    exact ih fun j hj => h j (List.mem_cons_of_mem _ hj)

/-- The callers of a closed set are in it. -/
theorem addCallers_eq_self {p : Program} {blocking : List Name} (h : p.Closed {x | x ∈ blocking}) :
    addCallers p.calls.edges blocking = blocking := by
  refine foldl_eq_self fun e he => ?_
  split
  · rename_i hcallee
    exact List.insert_of_mem (h.call e.1 e.2 he (List.contains_iff_mem.mp hcallee))
  · rfl

/-- So are the local names of imports that stand for one of its names. -/
theorem addImported_eq_self {p : Program} {blocking : List Name} (h : p.Closed {x | x ∈ blocking}) :
    p.addImported blocking = blocking := by
  refine foldl_eq_self fun i hi => ?_
  split
  · rename_i hblocks
    exact List.insert_of_mem (h.imported i.1 i.2.1 i.2.2 hi (aliasBlocks_iff.mp hblocks))
  · rfl

/-- So are the callers of names with a chain to one of its names. -/
theorem addChained_eq_self {p : Program} {blocking : List Name} (h : p.Closed {x | x ∈ blocking}) :
    p.addChained p.calls.edges blocking = blocking := by
  refine foldl_eq_self fun e he => ?_
  split
  · rfl
  · split
    · rename_i hleads
      exact List.insert_of_mem (h.call e.1 e.2 he (leadsToBlocking_sound h (fun _ hx => hx) hleads))
    · rfl

/-- **A closed set is a fixed point of a pass.** -/
theorem pass_eq_self {p : Program} {blocking : List Name} (h : p.Closed {x | x ∈ blocking}) :
    p.pass blocking = blocking := by
  rw [pass, addCallers_eq_self h, addImported_eq_self h, addChained_eq_self h]

/-- From a closed set one pass is made, and it adds nothing. -/
theorem propagate_eq_of_closed {p : Program} {seed : List Name} (h : p.Closed {x | x ∈ seed}) :
    p.propagate seed = { blocking := seed.eraseDups, addedPerPass := [[]] } := by
  have hclosed : p.Closed {x | x ∈ seed.eraseDups} := by
    simpa only [List.mem_eraseDups] using h
  have hadded : added seed.eraseDups (p.pass seed.eraseDups) = [] := by
    rw [pass_eq_self hclosed]
    exact added_eq_nil_iff.mpr fun _ hx => hx
  rw [propagate, passesFrom, dif_pos hadded, pass_eq_self hclosed]

theorem eraseDups_of_nodup {names : List Name} (h : names.Nodup) : names.eraseDups = names := by
  induction names with
  | nil => rfl
  | cons x rest ih =>
    obtain ⟨hnot, hrest⟩ := List.nodup_cons.mp h
    have hfilter : rest.filter (fun y => !y == x) = rest :=
      List.filter_eq_self.mpr fun y hy => by simpa using fun heq : y = x => hnot (heq ▸ hy)
    rw [List.eraseDups_cons, hfilter, ih hrest]

/-- **Propagation is a closure operator on seeds, and preserves unions.** The seed is blocking. What blocks because of
two seeds together blocks because of one of them, so the blocking names are monotone in the seed. Propagation from the
outcome of propagation takes one pass, which adds nothing, and has the same outcome. -/
theorem propagate_preserves_union (p : Program) (S T : List Name) :
    S ⊆ (p.propagate S).blocking ∧
    (∀ x, x ∈ (p.propagate (S ∪ T)).blocking ↔ x ∈ (p.propagate S).blocking ∨ x ∈ (p.propagate T).blocking) ∧
    (S ⊆ T → (p.propagate S).blocking ⊆ (p.propagate T).blocking) ∧
    p.propagate (p.propagate S).blocking = { blocking := (p.propagate S).blocking, addedPerPass := [[]] } ∧
    (p.propagate (p.propagate S).blocking).passes = 1 := by
  have hagain : p.propagate (p.propagate S).blocking =
      { blocking := (p.propagate S).blocking, addedPerPass := [[]] } := by
    rw [propagate_eq_of_closed (p.propagate_closed S), eraseDups_of_nodup (p.nodup_propagate S)]
  refine ⟨fun x hx => p.mem_propagate_of_mem_seed hx, p.mem_propagate_union S T, p.propagate_mono, hagain, ?_⟩
  rw [hagain]
  rfl

/-- With `y` in the seed besides, `x` of the second module blocks as well. -/
theorem propagate_preserves_union_sample :
    ["m"] ⊆ ["y", "m"] ∧
    (sample.propagate ["m"]).blocking = ["h", "g", "k", "m"] ∧
    (sample.propagate ["y", "m"]).blocking = ["h", "x", "g", "k", "y", "m"] ∧
    (sample.propagate ["m"]).blocking ⊆ (sample.propagate ["y", "m"]).blocking := by
  have hsub : ["m"] ⊆ ["y", "m"] := by simp
  refine ⟨hsub, by decide +kernel, by decide +kernel, ?_⟩
  exact (propagate_preserves_union sample ["m"] ["y", "m"]).2.2.1 hsub

end Program

end BlockingCalls
