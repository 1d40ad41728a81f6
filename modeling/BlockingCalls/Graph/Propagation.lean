import BlockingCalls.Graph.Alias
import BlockingCalls.Graph.Calls
import BlockingCalls.Graph.Registry

/-!
# Which functions block

A function blocks where it calls a blocking operation, where it calls a function that blocks, or where it is the
local name of an import that stands for one. The set is grown in passes until a pass adds nothing. A pass has three
parts, each of which sees what the parts before it added: callers of blocking names, imported names of blocking
functions, and callers of names that lead to a blocking function through a chain of imports.

Passes end because each but the last adds a caller or an imported name that was not in the set, and there are
finitely many of them; a chain ends because it never uses one import twice.
-/

namespace BlockingCalls

/-- What propagation reads: calls, imports and records. -/
structure Program where
  calls : CallGraph := {}
  aliases : Aliases := {}
  modules : Registry := {}
  deriving Repr

namespace Program

/-- The name in its own module of what an alias stands for. -/
def originOf (p : Program) (ref : Alias) : Name :=
  p.modules.exportedName ref.source ref.name

/-- Does an alias stand for a name that blocks? -/
def aliasBlocks (p : Program) (blocking : List Name) (ref : Alias) : Bool :=
  let origin := p.originOf ref
  (p.modules.directBlocking ref.source).contains origin || blocking.contains origin ||
    blocking.contains ref.name

/-- The import that an alias leads on to, where the name it stands for is itself imported. -/
def nextAlias? (p : Program) (ref : Alias) : Option (ModuleId × Alias) :=
  (p.aliases.get? ref.source (p.originOf ref)).map fun next => (ref.source, next)

/-! ## Chains of imports -/

/-- The key under which a chain remembers an import: the importing module and the imported name. -/
def chainKey (link : ModuleId × Alias) : ModuleId × Name :=
  (link.1, link.2.name)

/-- The keys that remain unused once a key is used. -/
def useKey (key : ModuleId × Name) (unused : List (ModuleId × Name)) : List (ModuleId × Name) :=
  unused.filter (· != key)

/-- A search uses up one key with each step. -/
theorem length_useKey_lt {key : ModuleId × Name} {unused : List (ModuleId × Name)}
    (h : unused.contains key = true) : (useKey key unused).length < unused.length :=
  List.length_filter_lt_length_iff_exists.mpr ⟨key, List.contains_iff_mem.mp h, by simp⟩

/-- Searches chains of imports for one that blocks. An import is followed while its key is unused; the imports still
to be looked at are taken from the top. -/
def searchChains (p : Program) (blocking : List Name) (unused : List (ModuleId × Name)) :
    List (ModuleId × Alias) → Bool
  | [] => false
  | link :: pending =>
    -- the key counts as used even where the import leads nowhere
    if unused.contains (chainKey link) then
      p.aliasBlocks blocking link.2 ||
        p.searchChains blocking (useKey (chainKey link) unused) ((p.nextAlias? link.2).toList ++ pending)
    else p.searchChains blocking unused pending
termination_by pending => (unused.length, pending.length)
decreasing_by
  · rename_i h
    exact Prod.Lex.left _ _ (length_useKey_lt h)
  · apply Prod.Lex.right
    simp

/-- The keys of all recorded imports. -/
def chainKeys (p : Program) : List (ModuleId × Name) :=
  p.aliases.items.map fun i => (i.1, i.2.2.name)

/-- Does some chain of imports that starts at a local name reach a name that blocks? The latest module that imports
the name is tried first. -/
def leadsToBlocking (p : Program) (blocking : List Name) (localName : Name) : Bool :=
  p.searchChains blocking p.chainKeys (p.aliases.forLocal localName).reverse

/-! ## One pass -/

/-- Callers of blocking names, one call after the other. -/
def addCallers (edges : List (Name × Name)) (blocking : List Name) : List Name :=
  edges.foldl (fun blocking e => if blocking.contains e.2 then blocking.insert e.1 else blocking) blocking

/-- Local names of imports that stand for blocking names. -/
def addImported (p : Program) (blocking : List Name) : List Name :=
  p.aliases.items.foldl
    (fun blocking i => if p.aliasBlocks blocking i.2.2 then blocking.insert i.2.1 else blocking) blocking

/-- Callers of names that lead to a blocking name; calls with a blocking end are passed over. -/
def addChained (p : Program) (edges : List (Name × Name)) (blocking : List Name) : List Name :=
  edges.foldl
    (fun blocking e =>
      -- a blocking callee was dealt with in the first part of the pass
      if blocking.contains e.1 || blocking.contains e.2 then blocking
      else if p.leadsToBlocking blocking e.2 then blocking.insert e.1
      else blocking)
    blocking

/-- One pass over calls and imports. -/
def pass (p : Program) (blocking : List Name) : List Name :=
  p.addChained p.calls.edges (p.addImported (addCallers p.calls.edges blocking))

/-- The names that a pass may add: callers and local names of imports. -/
def candidates (p : Program) : List Name :=
  p.calls.callers ++ p.aliases.items.map (·.2.1)

/-! ## A pass adds candidates only -/

/-- Every name of `b` was in `a` or is a candidate, and no name of `a` is missing in `b`. -/
def Grows (candidates a b : List Name) : Prop :=
  (∀ x ∈ b, x ∈ a ∨ x ∈ candidates) ∧ ∀ x ∈ a, x ∈ b

theorem Grows.refl (candidates a : List Name) : Grows candidates a a :=
  ⟨fun _ h => .inl h, fun _ h => h⟩

theorem Grows.trans {candidates a b c : List Name} (h : Grows candidates a b) (h' : Grows candidates b c) :
    Grows candidates a c :=
  ⟨fun x hx => (h'.1 x hx).elim (h.1 x) .inr, fun x hx => h'.2 x (h.2 x hx)⟩

theorem Grows.insert {candidates : List Name} (a : List Name) {x : Name} (h : x ∈ candidates) :
    Grows candidates a (a.insert x) := by
  constructor
  · intro y hy
    rcases List.mem_insert_iff.mp hy with rfl | hy
    · exact .inr h
    · exact .inl hy
  · intro y hy
    exact List.mem_insert_iff.mpr (.inr hy)

/-- A fold whose steps add candidates only adds candidates only. -/
theorem Grows.foldl {α : Type} {candidates : List Name} {step : List Name → α → List Name} {items : List α}
    (h : ∀ b, ∀ i ∈ items, Grows candidates b (step b i)) (a : List Name) :
    Grows candidates a (items.foldl step a) := by
  induction items generalizing a with
  | nil => exact .refl _ _
  | cons i rest ih =>
    refine (h a i (by simp)).trans (ih (fun b j hj => h b j (by simp [hj])) _)

theorem mem_callers_of_mem_edges {g : CallGraph} {e : Name × Name} (h : e ∈ g.edges) : e.1 ∈ g.callers := by
  simp only [CallGraph.edges, List.mem_flatMap, List.mem_map] at h
  obtain ⟨entry, hentry, _, _, rfl⟩ := h
  exact List.mem_map.mpr ⟨entry, hentry, rfl⟩

/-- A pass adds candidates only. -/
theorem grows_pass (p : Program) (blocking : List Name) : Grows p.candidates blocking (p.pass blocking) := by
  have hcaller : ∀ e ∈ p.calls.edges, e.1 ∈ p.candidates := fun e he =>
    List.mem_append_left _ (mem_callers_of_mem_edges he)
  have himported : ∀ i ∈ p.aliases.items, i.2.1 ∈ p.candidates := fun i hi =>
    List.mem_append_right _ (List.mem_map.mpr ⟨i, hi, rfl⟩)
  refine ((Grows.foldl ?_ _).trans (Grows.foldl ?_ _)).trans (Grows.foldl ?_ _)
  · intro b e he
    split
    · exact .insert b (hcaller e he)
    · exact .refl _ b
  · intro b i hi
    split
    · exact .insert b (himported i hi)
    · exact .refl _ b
  · intro b e he
    split
    · exact .refl _ b
    · split
      · exact .insert b (hcaller e he)
      · exact .refl _ b

/-! ## Passes until nothing is added -/

/-- The set of blocking names and what each pass added; the last pass adds nothing. -/
structure Outcome where
  blocking : List Name
  addedPerPass : List (List Name)
  deriving Repr, BEq, DecidableEq

def Outcome.passes (o : Outcome) : Nat :=
  o.addedPerPass.length

/-- The names of `b` that are not in `a`. -/
def added (a b : List Name) : List Name :=
  b.filter fun x => !a.contains x

/-- A pass that adds a name leaves fewer candidates to be added. -/
theorem candidates_decrease {p : Program} {blocking : List Name} (h : added blocking (p.pass blocking) ≠ []) :
    (p.candidates.filter fun x => !(p.pass blocking).contains x).length <
      (p.candidates.filter fun x => !blocking.contains x).length := by
  obtain ⟨x, hx⟩ := List.exists_mem_of_ne_nil _ h
  simp only [added, List.mem_filter, Bool.not_eq_true', List.contains_eq_mem, decide_eq_false_iff_not] at hx
  have hgrows := p.grows_pass blocking
  have hcand : x ∈ p.candidates := (hgrows.1 x hx.1).resolve_left hx.2
  -- what the larger set leaves open, the smaller one leaves open too, and `x` besides
  have hsub : (p.candidates.filter fun x => !(p.pass blocking).contains x) =
      (p.candidates.filter fun x => !blocking.contains x).filter fun x => !(p.pass blocking).contains x := by
    rw [List.filter_filter]
    apply List.filter_congr
    intro y _
    by_cases hy : y ∈ blocking
    · simp [hy, hgrows.2 y hy]
    · simp [hy]
  rw [hsub]
  apply List.length_filter_lt_length_iff_exists.mpr
  exact ⟨x, by simp [hcand, hx.2], by simp [hx.1]⟩

/-- Passes from a set of blocking names on, until one adds nothing. -/
def passesFrom (p : Program) (blocking : List Name) : Outcome :=
  if _h : added blocking (p.pass blocking) = [] then
    { blocking := p.pass blocking, addedPerPass := [[]] }
  else
    let rest := p.passesFrom (p.pass blocking)
    { rest with addedPerPass := added blocking (p.pass blocking) :: rest.addedPerPass }
termination_by (p.candidates.filter fun x => !blocking.contains x).length
decreasing_by exact candidates_decrease _h

/-- The blocking names of a program, starting from a seed in which a name counts once. -/
def propagate (p : Program) (seed : List Name) : Outcome :=
  p.passesFrom seed.eraseDups

end Program

end BlockingCalls
