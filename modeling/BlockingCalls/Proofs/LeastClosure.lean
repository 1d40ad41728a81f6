import BlockingCalls.Graph.Propagation
import BlockingCalls.Proofs.Table
import Mathlib.Order.Bounds.Basic

/-!
# Blocking names as a least closed set

A set of names is *closed* for a program if it is closed under two rules, which follow calls and imports backwards: with a
callee it contains every caller, and with what an import stands for it contains the local name of the import. Propagation
computes the least closed set that contains its seed.

The third part of a pass searches chains of imports and is the only part that is not one of the two rules. It adds nothing
to a closed set: the name at the end of a chain is in the set, and by the rule for imports so are the names before it, up to
the one at the front (`searchChains_sound`). So a pass stays inside every closed set that contains what it started from,
and the set at which passes stop is a fixed point, hence closed.

## Results

* `leadsToBlocking_sound`     — a name that leads to a blocking one is in every closed set.
* `pass_subset`               — a pass stays inside closed sets.
* `propagate_closed`          — the outcome is closed.
* `propagate_subset`          — the outcome is inside every closed set that holds the seed.
* `propagate_isLeast_closed`  — the outcome is the least closed set, and the order of tables does not matter.
-/

namespace BlockingCalls

namespace Program

-- ---------------------------------------------------------------------------
-- Closed sets
-- ---------------------------------------------------------------------------

/-- What an import stands for is in the set, or blocks by itself in the module it comes from. -/
def StandsFor (p : Program) (B : Set Name) (ref : Alias) : Prop :=
  p.originOf ref ∈ p.modules.directBlocking ref.source ∨ p.originOf ref ∈ B ∨ ref.name ∈ B

/-- A set of names that follows calls and imports backwards. -/
structure Closed (p : Program) (B : Set Name) : Prop where
  call : ∀ caller callee, (caller, callee) ∈ p.calls.edges → callee ∈ B → caller ∈ B
  imported : ∀ moduleId localName ref, (moduleId, localName, ref) ∈ p.aliases.items →
    p.StandsFor B ref → localName ∈ B

theorem StandsFor.mono {p : Program} {B C : Set Name} (h : ∀ x ∈ B, x ∈ C) {ref : Alias} (href : p.StandsFor B ref) :
    p.StandsFor C ref :=
  href.imp id (Or.imp (h _) (h _))

theorem aliasBlocks_iff {p : Program} {blocking : List Name} {ref : Alias} :
    p.aliasBlocks blocking ref = true ↔ p.StandsFor {x | x ∈ blocking} ref := by
  simp [aliasBlocks, StandsFor, or_assoc]

-- ---------------------------------------------------------------------------
-- Chains of imports
-- ---------------------------------------------------------------------------

/-- **The search of chains is sound**: a search that succeeds has an import in its pending list that stands for a name
of the closed set. -/
theorem searchChains_sound {p : Program} {B : Set Name} (hB : p.Closed B) {blocking : List Name}
    (hsub : ∀ x ∈ blocking, x ∈ B) (unused : List (ModuleId × Name)) (pending : List (ModuleId × Alias))
    (h : p.searchChains blocking unused pending = true) : ∃ link ∈ pending, p.StandsFor B link.2 := by
  fun_induction searchChains p blocking unused pending with
  | case1 => cases h
  | case2 unused link pending _ ih =>
    rcases Bool.or_eq_true_iff.mp h with hhere | hlater
    · -- the import itself blocks
      exact ⟨link, List.mem_cons_self, (aliasBlocks_iff.mp hhere).mono hsub⟩
    · obtain ⟨next, hnext, hstands⟩ := ih hlater
      rcases List.mem_append.mp hnext with hchain | hpending
      · -- the chain continues in the source module: its local name there is what `link` stands for
        obtain ⟨ref, href, rfl⟩ := Option.map_eq_some_iff.mp (Option.mem_toList.mp hchain)
        have horigin : p.originOf link.2 ∈ B :=
          hB.imported _ _ _ (Aliases.mem_items_of_get?_eq_some href) hstands
        exact ⟨link, List.mem_cons_self, .inr (.inl horigin)⟩
      · -- one of the imports that were pending before
        exact ⟨next, List.mem_cons_of_mem _ hpending, hstands⟩
  | case3 unused link pending _ ih =>
    -- the import was passed before and is dropped
    obtain ⟨next, hnext, hstands⟩ := ih h
    exact ⟨next, List.mem_cons_of_mem _ hnext, hstands⟩

/-- A name from which a chain leads to a blocking one is in every closed set. -/
theorem leadsToBlocking_sound {p : Program} {B : Set Name} (hB : p.Closed B) {blocking : List Name}
    (hsub : ∀ x ∈ blocking, x ∈ B) {localName : Name} (h : p.leadsToBlocking blocking localName = true) :
    localName ∈ B := by
  obtain ⟨link, hlink, hstands⟩ := searchChains_sound hB hsub _ _ h
  rw [List.mem_reverse] at hlink
  exact hB.imported _ _ _ (Aliases.mem_items_of_mem_forLocal hlink) hstands

-- ---------------------------------------------------------------------------
-- One pass
-- ---------------------------------------------------------------------------

/-- A fold whose steps stay inside a set stays inside it. -/
theorem foldl_subset {α : Type} {B : Set Name} {step : List Name → α → List Name} {items : List α}
    (h : ∀ b, (∀ x ∈ b, x ∈ B) → ∀ i ∈ items, ∀ x ∈ step b i, x ∈ B) {a : List Name} (ha : ∀ x ∈ a, x ∈ B) :
    ∀ x ∈ items.foldl step a, x ∈ B := by
  induction items generalizing a with
  | nil => exact ha
  | cons i rest ih =>
    exact ih (fun b hb j hj => h b hb j (List.mem_cons_of_mem _ hj)) (h a ha i List.mem_cons_self)

/-- A fold whose steps lose nothing loses nothing. -/
theorem mem_foldl_of_mem {α : Type} {step : List Name → α → List Name} (hgrow : ∀ b i, ∀ x ∈ b, x ∈ step b i)
    (items : List α) {a : List Name} {x : Name} (hx : x ∈ a) : x ∈ items.foldl step a := by
  induction items generalizing a with
  | nil => exact hx
  | cons i rest ih => exact ih (hgrow a i x hx)

/-- What a step adds, whatever was added before it, is in the result of a growing fold. -/
theorem mem_foldl_of_step {α : Type} {step : List Name → α → List Name} (hgrow : ∀ b i, ∀ x ∈ b, x ∈ step b i)
    {items : List α} {a : List Name} {i : α} (hi : i ∈ items) {x : Name}
    (hx : ∀ b, (∀ y ∈ a, y ∈ b) → x ∈ step b i) : x ∈ items.foldl step a := by
  induction items generalizing a with
  | nil => cases hi
  | cons j rest ih =>
    rcases List.mem_cons.mp hi with rfl | hi
    · exact mem_foldl_of_mem hgrow rest (hx a fun _ hy => hy)
    · exact ih hi fun b hb => hx b fun y hy => hb y (hgrow a j y hy)

/-- The first part of a pass is the rule for calls. -/
theorem addCallers_subset {p : Program} {B : Set Name} (hB : p.Closed B) {blocking : List Name}
    (hsub : ∀ x ∈ blocking, x ∈ B) : ∀ x ∈ addCallers p.calls.edges blocking, x ∈ B := by
  refine foldl_subset ?_ hsub
  rintro b hb ⟨caller, callee⟩ he x hx
  split at hx
  · rename_i hcallee
    rcases List.mem_insert_iff.mp hx with rfl | hx
    · exact hB.call _ _ he (hb _ (List.contains_iff_mem.mp hcallee))
    · exact hb x hx
  · exact hb x hx

/-- The second part is the rule for imports. -/
theorem addImported_subset {p : Program} {B : Set Name} (hB : p.Closed B) {blocking : List Name}
    (hsub : ∀ x ∈ blocking, x ∈ B) : ∀ x ∈ p.addImported blocking, x ∈ B := by
  refine foldl_subset ?_ hsub
  rintro b hb ⟨moduleId, localName, ref⟩ hi x hx
  split at hx
  · rename_i hblocks
    rcases List.mem_insert_iff.mp hx with rfl | hx
    · exact hB.imported _ _ _ hi ((aliasBlocks_iff.mp hblocks).mono hb)
    · exact hb x hx
  · exact hb x hx

/-- The third part, which searches chains of imports, adds nothing to a closed set. -/
theorem addChained_subset {p : Program} {B : Set Name} (hB : p.Closed B) {blocking : List Name}
    (hsub : ∀ x ∈ blocking, x ∈ B) : ∀ x ∈ p.addChained p.calls.edges blocking, x ∈ B := by
  refine foldl_subset ?_ hsub
  rintro b hb ⟨caller, callee⟩ he x hx
  split at hx
  · -- the caller or the callee is blocking already
    exact hb x hx
  · split at hx
    · rename_i hleads
      rcases List.mem_insert_iff.mp hx with rfl | hx
      · exact hB.call _ _ he (leadsToBlocking_sound hB hb hleads)
      · exact hb x hx
    · exact hb x hx

/-- **A pass stays inside closed sets.** -/
theorem pass_subset {p : Program} {B : Set Name} (hB : p.Closed B) {blocking : List Name}
    (hsub : ∀ x ∈ blocking, x ∈ B) : ∀ x ∈ p.pass blocking, x ∈ B :=
  addChained_subset hB (addImported_subset hB (addCallers_subset hB hsub))

-- What the first two parts of a pass find is in its result: no part loses a name.

/-- An insertion under a condition loses nothing. -/
theorem mem_ite_insert {test : Bool} {b : List Name} {name x : Name} (h : x ∈ b) :
    x ∈ if test then b.insert name else b := by
  split
  · exact List.mem_insert_of_mem h
  · exact h

theorem mem_addImported_of_mem {p : Program} {blocking : List Name} {x : Name} (h : x ∈ blocking) :
    x ∈ p.addImported blocking :=
  mem_foldl_of_mem (fun _ _ _ hx => mem_ite_insert hx) _ h

theorem mem_addChained_of_mem {p : Program} {edges : List (Name × Name)} {blocking : List Name} {x : Name}
    (h : x ∈ blocking) : x ∈ p.addChained edges blocking := by
  refine mem_foldl_of_mem ?_ _ h
  intro b e y hy
  split
  · exact hy
  · exact mem_ite_insert hy

/-- A pass contains the callers of what it started from. -/
theorem mem_pass_of_call {p : Program} {blocking : List Name} {caller callee : Name}
    (he : (caller, callee) ∈ p.calls.edges) (h : callee ∈ blocking) : caller ∈ p.pass blocking := by
  apply mem_addChained_of_mem
  apply mem_addImported_of_mem
  refine mem_foldl_of_step (fun _ _ _ hx => mem_ite_insert hx) he ?_
  intro b hb
  rw [if_pos (List.contains_iff_mem.mpr (hb callee h))]
  exact List.mem_insert_self

/-- A pass contains the local names of imports that stand for what it started from. -/
theorem mem_pass_of_import {p : Program} {blocking : List Name} {moduleId : ModuleId} {localName : Name} {ref : Alias}
    (hi : (moduleId, localName, ref) ∈ p.aliases.items) (h : p.StandsFor {x | x ∈ blocking} ref) :
    localName ∈ p.pass blocking := by
  apply mem_addChained_of_mem
  refine mem_foldl_of_step (fun _ _ _ hx => mem_ite_insert hx) hi ?_
  intro b hb
  have hcallers : ∀ x ∈ blocking, x ∈ b := fun x hx =>
    hb x (mem_foldl_of_mem (fun _ _ _ hx => mem_ite_insert hx) _ hx)
  rw [if_pos (aliasBlocks_iff.mpr (h.mono hcallers))]
  exact List.mem_insert_self

-- ---------------------------------------------------------------------------
-- Passes until nothing is added
-- ---------------------------------------------------------------------------

theorem added_eq_nil_iff {a b : List Name} : added a b = [] ↔ ∀ x ∈ b, x ∈ a := by
  simp [added]

/-- A set to which a pass adds nothing is closed. -/
theorem closed_of_added_eq_nil {p : Program} {blocking : List Name} (h : added blocking (p.pass blocking) = []) :
    p.Closed {x | x ∈ blocking} where
  call _ _ he hcallee := added_eq_nil_iff.mp h _ (mem_pass_of_call he hcallee)
  imported _ _ _ hi hstands := added_eq_nil_iff.mp h _ (mem_pass_of_import hi hstands)

/-- The set at which passes stop is closed. By induction along the passes. -/
theorem passesFrom_closed (p : Program) (blocking : List Name) :
    p.Closed {x | x ∈ (p.passesFrom blocking).blocking} := by
  fun_induction passesFrom p blocking with
  | case1 blocking hdone =>
    -- the last pass gives back the set it was given
    have heq : {x | x ∈ p.pass blocking} = {x | x ∈ blocking} := by
      ext x
      exact ⟨added_eq_nil_iff.mp hdone x, (p.grows_pass blocking).2 x⟩
    rw [heq]
    exact closed_of_added_eq_nil hdone
  | case2 blocking _ rest ih => exact ih

/-- Passes stay inside closed sets. -/
theorem passesFrom_subset {p : Program} {B : Set Name} (hB : p.Closed B) (blocking : List Name)
    (hsub : ∀ x ∈ blocking, x ∈ B) : ∀ x ∈ (p.passesFrom blocking).blocking, x ∈ B := by
  fun_induction passesFrom p blocking with
  | case1 blocking _ => exact pass_subset hB hsub
  | case2 blocking _ rest ih => exact ih (pass_subset hB hsub)

/-- Passes lose nothing. -/
theorem mem_passesFrom_of_mem (p : Program) (blocking : List Name) :
    ∀ x ∈ blocking, x ∈ (p.passesFrom blocking).blocking := by
  fun_induction passesFrom p blocking with
  | case1 blocking _ => exact (p.grows_pass blocking).2
  | case2 blocking _ rest ih => exact fun x hx => ih x ((p.grows_pass blocking).2 x hx)

/-- **The outcome of propagation is closed.** -/
theorem propagate_closed (p : Program) (seed : List Name) : p.Closed {x | x ∈ (p.propagate seed).blocking} :=
  passesFrom_closed p _

theorem mem_propagate_of_mem_seed (p : Program) {seed : List Name} {x : Name} (h : x ∈ seed) :
    x ∈ (p.propagate seed).blocking :=
  mem_passesFrom_of_mem p _ x (List.mem_eraseDups.mpr h)

/-- **The outcome is contained in every closed set that contains the seed.** -/
theorem propagate_subset {p : Program} {B : Set Name} (hB : p.Closed B) {seed : List Name}
    (hseed : ∀ x ∈ seed, x ∈ B) : ∀ x ∈ (p.propagate seed).blocking, x ∈ B :=
  passesFrom_subset hB _ fun x hx => hseed x (List.mem_eraseDups.mp hx)

-- ---------------------------------------------------------------------------
-- Order does not matter
-- ---------------------------------------------------------------------------

/-- Two programs have the same calls, the same imports and the same of each record that propagation reads, in whatever
order. -/
structure SameContent (p q : Program) : Prop where
  calls : ∀ e, e ∈ p.calls.edges ↔ e ∈ q.calls.edges
  imports : ∀ i, i ∈ p.aliases.items ↔ i ∈ q.aliases.items
  exported : ∀ moduleId name, p.modules.exportedName moduleId name = q.modules.exportedName moduleId name
  direct : ∀ moduleId name, name ∈ p.modules.directBlocking moduleId ↔ name ∈ q.modules.directBlocking moduleId

theorem SameContent.symm {p q : Program} (h : p.SameContent q) : q.SameContent p where
  calls e := (h.calls e).symm
  imports i := (h.imports i).symm
  exported moduleId name := (h.exported moduleId name).symm
  direct moduleId name := (h.direct moduleId name).symm

/-- Programs with the same content have the same closed sets. -/
theorem SameContent.closed {p q : Program} (h : p.SameContent q) {B : Set Name} (hB : p.Closed B) : q.Closed B where
  call caller callee he := hB.call caller callee ((h.calls _).mpr he)
  imported moduleId localName ref hi hstands := by
    apply hB.imported moduleId localName ref ((h.imports _).mpr hi)
    unfold StandsFor originOf at hstands ⊢
    rwa [h.exported, h.direct]

theorem SameContent.propagate_subset {p q : Program} (h : p.SameContent q) {seed seed' : List Name}
    (hseed : ∀ x ∈ seed, x ∈ seed') : ∀ x ∈ (p.propagate seed).blocking, x ∈ (q.propagate seed').blocking :=
  Program.propagate_subset (h.symm.closed (q.propagate_closed seed')) fun _ hx =>
    q.mem_propagate_of_mem_seed (hseed _ hx)

/-- **Blocking names are the least closed set that contains the seed.** The part of a pass that searches chains of
imports never leaves it, and tables with the same content give the same set. -/
theorem propagate_isLeast_closed (p : Program) (seed : List Name) :
    IsLeast {B : Set Name | (∀ x ∈ seed, x ∈ B) ∧ p.Closed B} {x | x ∈ (p.propagate seed).blocking} ∧
    (∀ blocking : List Name, (∀ x ∈ blocking, x ∈ (p.propagate seed).blocking) →
      ∀ x ∈ p.addChained p.calls.edges blocking, x ∈ (p.propagate seed).blocking) ∧
    ∀ (q : Program) (seed' : List Name), p.SameContent q → (∀ x, x ∈ seed ↔ x ∈ seed') →
      ∀ x, x ∈ (p.propagate seed).blocking ↔ x ∈ (q.propagate seed').blocking := by
  refine ⟨⟨⟨fun x hx => p.mem_propagate_of_mem_seed hx, p.propagate_closed seed⟩, ?_⟩, ?_, ?_⟩
  · -- least
    rintro B ⟨hseed, hB⟩
    exact propagate_subset hB hseed
  · -- chains
    intro blocking hsub
    exact addChained_subset (p.propagate_closed seed) hsub
  · -- order
    intro q seed' hsame hseed x
    exact ⟨hsame.propagate_subset (fun y hy => (hseed y).mp hy) x,
      hsame.symm.propagate_subset (fun y hy => (hseed y).mpr hy) x⟩

/-- `h` calls `g`, which stands for the default of `/b`, and `k`; `k` calls `m`. One import leads to a module without a
record. -/
def sample : Program where
  calls := ⟨⟨[("h", ["g", "k"]), ("k", ["m"])]⟩⟩
  aliases := ⟨⟨[("/a", ⟨[("g", ⟨"/b", "default"⟩)]⟩), ("/b", ⟨[("x", ⟨"/c", "y"⟩)]⟩)]⟩⟩
  modules := ⟨⟨[("/b", { moduleId := "/b", directBlocking := ["f"], exports := ⟨[("default", "f")]⟩ })]⟩⟩

/-- The same calls and imports, put in the other way round. -/
def sampleReversed : Program :=
  { sample with
    calls := ⟨⟨[("k", ["m"]), ("h", ["k", "g"])]⟩⟩
    aliases := ⟨⟨sample.aliases.modules.entries.reverse⟩⟩ }

/-- The same tables in another order, with a seed that is repeated. -/
theorem propagate_isLeast_closed_reversed :
    sample.SameContent sampleReversed ∧
    ∀ x, x ∈ (sample.propagate ["m"]).blocking ↔ x ∈ (sampleReversed.propagate ["m", "m"]).blocking := by
  have hcalls : sample.calls.edges.Perm sampleReversed.calls.edges := by decide
  have himports : sample.aliases.items.Perm sampleReversed.aliases.items := by decide
  have hsame : sample.SameContent sampleReversed :=
    ⟨fun _ => hcalls.mem_iff, fun _ => himports.mem_iff, fun _ _ => rfl, fun _ _ => Iff.rfl⟩
  exact ⟨hsame, (propagate_isLeast_closed sample ["m"]).2.2 sampleReversed ["m", "m"] hsame (by simp)⟩

end Program

end BlockingCalls
