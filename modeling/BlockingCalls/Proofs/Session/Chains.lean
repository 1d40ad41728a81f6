import BlockingCalls.Proofs.Session.Complete
import Mathlib.Logic.Relation

/-!
# Why a name is blocking

After an analysis a name is blocking if and only if there is a derivation of it from the trees of the reachable modules: a
chain of names that starts with it, leads from callers to callees and from local names of imports to what they stand for,
and ends with a function that calls a blocking operation itself. Calls and blocking operations are those of the visits of a
tree (`Tree.CallsIn`, `Tree.BlocksIn`). The bindings of imports and the exported names are those that the summary of a tree
lists (`Summary.ofTree`), with specifiers resolved. A chain does not depend on the tables of a session.

The proof compares two closures. Propagation computes the least set closed under calls and imports of the *tables*; the
names with a chain are closed under these too, since the tables of a complete session are those of the reachable modules
(`closed_blocked`). Conversely a chain is carried into the computed set from its end to its front (`mem_of_blocked`).

## Results

* `Complete.closed_blocked`         — the names with a chain are a closed set.
* `Complete.mem_of_blocked`         — every closed set that holds the direct names holds the names with a chain.
* `analyze_isBlocking_iff_chain`    — blocking names are the names with a chain.
-/

namespace BlockingCalls

namespace Codebase

variable (c : Codebase) (root : ModuleId)

/-- In a reachable module the function calls a blocking operation. -/
def Direct (f : Name) : Prop :=
  ∃ x, c.Reachable root x ∧ ∃ p, c.find? x = some p ∧ Tree.BlocksIn c.resolver.config p.text p.root f

/-- In some reachable module the first name calls the second, or its last import stands for the second: for the name that
is imported, or for what that is called inside the module it comes from. -/
inductive Leads : Name → Name → Prop
  | call {x : ModuleId} {p : Parsed} {f g : Name} (reached : c.Reachable root x) (parsed : c.find? x = some p)
      (calls : Tree.CallsIn c.resolver.config p.text p.root f g) : Leads f g
  | imported {x : ModuleId} {p : Parsed} {f : Name} {ref : Alias} (reached : c.Reachable root x)
      (parsed : c.find? x = some p) (binds : LastBinding (c.bindingsOf p) f ref) : Leads f ref.name
  | original {x : ModuleId} {p q : Parsed} {f g : Name} {ref : Alias} (reached : c.Reachable root x)
      (parsed : c.find? x = some p) (binds : LastBinding (c.bindingsOf p) f ref) (source : c.find? ref.source = some q)
      (exports : (c.summary q).exports.get? ref.name = some g) : Leads f g

/-- There is a chain from the name to a function that calls a blocking operation. -/
def Blocked (f : Name) : Prop :=
  ∃ last, Relation.ReflTransGen (c.Leads root) f last ∧ c.Direct root last

variable {c : Codebase} {root : ModuleId}

theorem Blocked.of_direct {f : Name} (h : c.Direct root f) : c.Blocked root f :=
  ⟨f, .refl, h⟩

theorem Blocked.of_leads {f g : Name} (h : c.Leads root f g) (hg : c.Blocked root g) : c.Blocked root f := by
  obtain ⟨last, hchain, hlast⟩ := hg
  exact ⟨last, .head h hchain, hlast⟩

/-- The direct blocking functions in terms of the summaries. -/
theorem direct_iff {f : Name} :
    c.Direct root f ↔
      ∃ x, c.Reachable root x ∧ ∃ p, c.find? x = some p ∧ f ∈ (c.summary p).directBlocking := by
  unfold Direct summary
  simp only [Summary.mem_directBlocking_ofTree]

theorem mem_calls_summary {p : Parsed} {f g : Name} :
    (f, g) ∈ (CallGraph.mk (c.summary p).calls).edges ↔ Tree.CallsIn c.resolver.config p.text p.root f g :=
  Summary.mem_edges_ofTree

end Codebase

namespace Session.Complete

variable {c : Codebase} {mode : Mode} {root : ModuleId} {s : Session}

/-- What an import of a reachable module stands for, by the tables and by the codebase. -/
theorem leads_originOf (h : Complete c mode root s) {x : ModuleId} {p : Parsed} {f : Name} {ref : Alias}
    (hx : c.Reachable root x) (hp : c.find? x = some p) (hbinds : LastBinding (c.bindingsOf p) f ref) :
    c.Leads root f (s.program.originOf ref) := by
  have hsource : c.Reachable root ref.source := hx.imports (Codebase.imports_of_lastBinding hp hbinds)
  unfold Program.originOf
  rw [h.exportedName_eq hsource]
  cases hq : c.find? ref.source with
  | none =>
    -- the source module cannot be parsed, so it exports nothing
    exact .imported hx hp hbinds
  | some q =>
    cases hname : (c.summary q).exports.get? ref.name with
    | none =>
      -- a name that is not exported stands for itself
      simp only [Option.bind_some, hname, Option.getD_none]
      exact .imported hx hp hbinds
    | some g =>
      -- a name that is exported stands for what it is called inside
      simp only [Option.bind_some, hname, Option.getD_some]
      exact .original hx hp hbinds hq hname

/-- The names with a chain are closed under the calls and imports that the session holds. -/
theorem closed_blocked (h : Complete c mode root s) : s.program.Closed {f | c.Blocked root f} where
  call f g hedge hg := by
    obtain ⟨x, hx, p, hp, hcall⟩ := (h.edges (f, g)).mp hedge
    exact .of_leads (.call hx hp (Codebase.mem_calls_summary.mp hcall)) hg
  imported x localName ref hitem hstands := by
    obtain ⟨hx, p, hp, hbinds⟩ := h.mem_imports.mp hitem
    have horigin := h.leads_originOf hx hp hbinds
    rcases hstands with hdirect | hblocked | hblocked
    · -- the import stands for a direct blocking function of its source module
      have hdirect' : s.program.originOf ref ∈ s.directBlocking ref.source := hdirect
      obtain ⟨hsource, q, hq, hname⟩ := h.mem_directBlocking.mp hdirect'
      exact .of_leads horigin (.of_direct (Codebase.direct_iff.mpr ⟨_, hsource, q, hq, hname⟩))
    · -- for a name that is blocked under its original name
      exact .of_leads horigin hblocked
    · -- or under the imported one
      exact .of_leads (.imported hx hp hbinds) hblocked

/-- One link of a chain, carried backwards into a closed set. -/
theorem mem_of_leads (h : Complete c mode root s) {B : Set Name} (hB : s.program.Closed B) {f g : Name}
    (hleads : c.Leads root f g) (hg : g ∈ B) : f ∈ B := by
  cases hleads with
  | call hx hp hcalls =>
    exact hB.call f g ((h.edges _).mpr ⟨_, hx, _, hp, Codebase.mem_calls_summary.mpr hcalls⟩) hg
  | imported hx hp hbinds => exact hB.imported _ f _ (h.mem_imports.mpr ⟨hx, _, hp, hbinds⟩) (.inr (.inr hg))
  | @original x p q _ _ ref hx hp hbinds hq hname =>
    have hsource : c.Reachable root ref.source := hx.imports (Codebase.imports_of_lastBinding hp hbinds)
    have horigin : s.program.originOf ref = g := by
      unfold Program.originOf
      rw [h.exportedName_eq hsource, hq, Option.bind_some, hname, Option.getD_some]
    exact hB.imported _ f _ (h.mem_imports.mpr ⟨hx, _, hp, hbinds⟩) (.inr (.inl (horigin ▸ hg)))

/-- A chain is carried backwards from its end, one link after the other. -/
theorem mem_of_blocked (h : Complete c mode root s) {B : Set Name} (hB : s.program.Closed B)
    (hdirect : ∀ f, c.Direct root f → f ∈ B) {f : Name} (hf : c.Blocked root f) : f ∈ B := by
  obtain ⟨last, hchain, hlast⟩ := hf
  induction hchain using Relation.ReflTransGen.head_induction_on with
  | refl => exact hdirect last hlast
  | head hleads _ ih => exact h.mem_of_leads hB hleads ih

/-- **Propagation computes the names with a chain**: they are a closed set, and contained in every closed set. -/
theorem mem_propagate_iff (h : Complete c mode root s) {f : Name} :
    f ∈ (s.program.propagate s.seed).blocking ↔ c.Blocked root f := by
  constructor
  · -- what is computed is the least closed set
    intro hf
    apply Program.propagate_subset h.closed_blocked _ f hf
    intro g hg
    exact .of_direct (Codebase.direct_iff.mpr (h.mem_seed.mp hg))
  · -- what is computed is closed and has the direct names
    intro hf
    apply h.mem_of_blocked (s.program.propagate_closed s.seed) _ hf
    intro g hg
    exact s.program.mem_propagate_of_mem_seed (h.mem_seed.mpr (Codebase.direct_iff.mp hg))

end Session.Complete

namespace Session

/-- **Blocking names are exactly the derivable ones**: after a depth-first analysis of a new session has returned, a
name is blocking if and only if a chain of calls and imports leads from it to a function that calls a blocking
operation, all in modules that are reachable from the root. -/
theorem analyze_isBlocking_iff_chain (config : Config) (deno : String) (s : Session) (hs : start config deno = .ok s)
    (w : World) (path : String) (s' : Session) (snap : Snapshot) (h : s.analyze w path = (s', .ok snap)) (f : Name) :
    s'.isBlocking f = true ↔
      ∃ last, Relation.ReflTransGen ((s.codebase w).Leads (s.resolver.rootModule w.current path)) f last ∧
        (s.codebase w).Direct (s.resolver.rootModule w.current path) last := by
  obtain ⟨entry, t, names, hmodule, rfl, _⟩ := analyze_ok h
  have hcomplete : Complete (s.codebase w) .waiting (s.resolver.rootModule w.current path) t.session :=
    (analyzeModule_complete ((fresh_start hs).noteRoot _ entry) hmodule).1
  rw [isBlocking_finish, hcomplete.mem_propagate_iff]
  rfl

/-- In a cycle of imports `h` is blocking because it calls `g`, which stands for the `f` of the other module. -/
theorem analyze_isBlocking_iff_chain_cycle :
    ∃ s' snap, start Sample.config "deno" = .ok Sample.session ∧
      Sample.session.analyze Sample.world "a.ts" = (s', .ok snap) ∧ s'.isBlocking "h" = true ∧
      ∃ last, Relation.ReflTransGen ((Sample.session.codebase Sample.world).Leads "/work/a.ts") "h" last ∧
        (Sample.session.codebase Sample.world).Direct "/work/a.ts" last := by
  have hsnap : Sample.session.analyze Sample.world "a.ts" = (_, .ok Sample.snapshot) :=
    Prod.ext rfl (by decide +kernel)
  have hblocking : (Sample.session.analyze Sample.world "a.ts").1.isBlocking "h" = true := by decide +kernel
  have hroot : Sample.session.resolver.rootModule Sample.world.current "a.ts" = "/work/a.ts" := by decide +kernel
  have hiff := analyze_isBlocking_iff_chain _ _ _ Sample.start_eq _ _ _ _ hsnap "h"
  rw [hroot] at hiff
  exact ⟨_, _, Sample.start_eq, hsnap, hblocking, hiff.mp hblocking⟩

end Session

end BlockingCalls
