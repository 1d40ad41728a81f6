import BlockingCalls.Proofs.Session.Frozen
import BlockingCalls.Proofs.Session.Returns

/-!
# Roots in any order

After roots have been analysed one after the other on one session, the tables hold the modules reachable from any of them,
each settled as if it had been the first to be read. The finished modules are closed under imports, so a depth-first
analysis that stops at one of them misses nothing: all that is reachable through it is finished as well. The final tables
therefore depend on the set of roots and not on their order, and so does whether every analysis returns.

The program for more roots *extends* the one for fewer. It has more calls and more imports, and it has records that were
missing before, which may change what a name stands for. But names are imported only from modules that were read together
with the importing one, so no import of the smaller program changes its meaning. A set of names that is closed for the
larger program is then closed for the smaller one, and the least such set is monotone in the roots.

## Results

* `Program.Extends.propagate_subset`  — a program that extends another has all its blocking names.
* `Gathered.analyze`                  — one more root: what is reachable from it is added.
* `Gathered.analyze_returns`          — it returns if no module that is reachable from it dangles.
* `Gathered.program_extends`          — more roots give a program that extends the one of fewer.
* `roots_in_any_order`                — any order of the roots returns and leaves the same behind.
-/

namespace BlockingCalls

-- ---------------------------------------------------------------------------
-- Programs that extend others
-- ---------------------------------------------------------------------------

namespace Program

/-- All that is known in the second program is known in the first, and its imports mean the same there. -/
structure Extends (q p : Program) : Prop where
  calls : ∀ e ∈ p.calls.edges, e ∈ q.calls.edges
  imports : ∀ i ∈ p.aliases.items, i ∈ q.aliases.items
  origins : ∀ moduleId localName ref, (moduleId, localName, ref) ∈ p.aliases.items → q.originOf ref = p.originOf ref
  direct : ∀ moduleId name, name ∈ p.modules.directBlocking moduleId → name ∈ q.modules.directBlocking moduleId

/-- A set of names closed for a program is closed for every program that it extends. -/
theorem Extends.closed {p q : Program} (h : q.Extends p) {B : Set Name} (hB : q.Closed B) : p.Closed B where
  call caller callee he := hB.call caller callee (h.calls _ he)
  imported moduleId localName ref hi hstands := by
    apply hB.imported moduleId localName ref (h.imports _ hi)
    unfold StandsFor at hstands ⊢
    rw [h.origins moduleId localName ref hi]
    exact hstands.imp_left (h.direct _ _)

/-- **Propagation is monotone**: a program that extends another has all its blocking names. -/
theorem Extends.propagate_subset {p q : Program} (h : q.Extends p) {seed seed' : List Name}
    (hseed : ∀ x ∈ seed, x ∈ seed') : ∀ x ∈ (p.propagate seed).blocking, x ∈ (q.propagate seed').blocking :=
  Program.propagate_subset (h.closed (q.propagate_closed seed')) fun _ hx =>
    q.mem_propagate_of_mem_seed (hseed _ hx)

end Program

-- ---------------------------------------------------------------------------
-- What several roots reach
-- ---------------------------------------------------------------------------

namespace Codebase

/-- Imports lead to the module from a root that one of the paths names. -/
def Spanned (c : Codebase) (paths : List String) (x : ModuleId) : Prop :=
  ∃ path ∈ paths, c.Reachable (c.resolver.rootModule c.world.current path) x

variable {c : Codebase} {paths paths' : List String} {x y : ModuleId}

theorem Spanned.imports (h : c.Spanned paths x) (himports : c.Imports x y) : c.Spanned paths y := by
  obtain ⟨path, hpath, hreach⟩ := h
  exact ⟨path, hpath, hreach.imports himports⟩

theorem Spanned.mono (hsub : paths ⊆ paths') (h : c.Spanned paths x) : c.Spanned paths' x := by
  obtain ⟨path, hpath, hreach⟩ := h
  exact ⟨path, hsub hpath, hreach⟩

theorem spanned_concat {path : String} :
    c.Spanned (paths ++ [path]) x ↔
      c.Spanned paths x ∨ c.Reachable (c.resolver.rootModule c.world.current path) x := by
  simp only [Spanned, List.mem_append, List.mem_singleton, or_and_right, exists_or, exists_eq_left]

/-- Where the modules to stop at are closed under imports, a reachable module is one of them or is reached without
passing one. -/
theorem reachable_cases {stop : ModuleId → Prop} (hclosed : ∀ x y, stop x → c.Imports x y → stop y) {root : ModuleId}
    (h : c.Reachable root x) : stop x ∨ c.Reach stop root x := by
  induction h with
  | root _ =>
    by_cases hstop : stop root
    · exact .inl hstop
    · exact .inr (.root hstop)
  | @step x y _ himports _ ih =>
    by_cases hstop : stop y
    · exact .inl hstop
    · refine .inr ?_
      rcases ih with hx | hx
      · -- the importing module is one to stop at, and so is `y`
        exact absurd (hclosed x y hx himports) hstop
      · exact .step hx himports hstop

end Codebase

namespace Session

-- ---------------------------------------------------------------------------
-- Sessions that have gathered what several roots reach
-- ---------------------------------------------------------------------------

/-- The invariant of a sequence of analyses: what is reachable from one of the roots is settled as if nothing had been
known before, and nothing else is known. -/
structure Gathered (c : Codebase) (paths : List String) (s : Session) : Prop where
  codebase : s.codebase c.world = c
  schemes : c.reader.remoteSchemes = c.resolver.config.remoteSchemes
  wellFormed : s.WellFormed
  resolved : ∀ x fault, c.Spanned paths x → ¬ c.Dangling x fault
  inside : ∀ x, c.Spanned paths x → s.view x = c.settled .waiting x .empty
  outside : ∀ x, ¬ c.Spanned paths x → s.view x = .empty
  edges : ∀ e, e ∈ s.program.calls.edges ↔
    ∃ x, c.Spanned paths x ∧ ∃ p, c.find? x = some p ∧ e ∈ (CallGraph.mk (c.summary p).calls).edges
  callers : ∀ f, f ∈ s.program.calls.callers ↔
    ∃ x, c.Spanned paths x ∧ ∃ p, c.find? x = some p ∧ f ∈ (c.summary p).calls.keys

/-- The blocking names are the propagation of what the tables hold. -/
def UpToDate (s : Session) : Prop :=
  ∀ name, name ∈ s.blocking ↔ name ∈ (s.program.propagate s.seed).blocking

/-- In a new session nothing has been gathered. -/
theorem gathered_start {config : Config} {deno : String} {s : Session} (h : start config deno = .ok s) (w : World) :
    Gathered (s.codebase w) [] s := by
  have hfresh := fresh_start h
  obtain ⟨hconfig, hreader⟩ := config_start h
  have hnone : ∀ x, ¬ (s.codebase w).Spanned [] x := by simp [Codebase.Spanned]
  refine ⟨rfl, ?_, hfresh.wellFormed, ?_, ?_, ?_, ?_, ?_⟩
  · show s.reader.remoteSchemes = s.resolver.config.remoteSchemes
    rw [hconfig, hreader]
  · exact fun x _ hx => absurd hx (hnone x)
  · exact fun x hx => absurd hx (hnone x)
  · exact fun x _ => hfresh.views x
  · intro e
    rw [hfresh.calls]
    simp [hnone, CallGraph.edges]
  · intro f
    rw [hfresh.calls]
    simp [hnone, CallGraph.callers, Table.keys]

/-- In a new session nothing is blocking, and its empty tables give nothing. -/
theorem upToDate_start {config : Config} {deno : String} {s : Session} (h : start config deno = .ok s) : s.UpToDate := by
  have hfresh := fresh_start h
  have hnone : s.blocking = [] := by
    unfold start at h
    cases hresolver : Resolver.ofConfig config with
    | error fault =>
      rw [hresolver] at h
      cases h
    | ok resolver =>
      rw [hresolver] at h
      cases h
      rfl
  have hdirect : ∀ x name, name ∉ s.program.modules.directBlocking x := by
    intro x name
    show name ∉ s.directBlocking x
    rw [directBlocking_eq, hfresh.views]
    simp [View.empty]
  -- the empty set is closed for the empty program
  have hclosed : s.program.Closed ∅ := by
    refine ⟨fun _ _ _ hcallee => hcallee, fun _ _ ref _ hstands => ?_⟩
    rcases hstands with hdirectly | hin | hin
    · exact absurd hdirectly (hdirect _ _)
    · exact hin
    · exact hin
  have hseed : ∀ name ∈ s.seed, name ∈ (∅ : Set Name) := by
    intro name hname
    obtain ⟨record, hrecord, hmem⟩ := mem_seed_iff.mp hname
    rw [hfresh.wellFormed.mem_values_iff, hfresh.views] at hrecord
    cases hrecord
  intro name
  rw [hnone]
  exact ⟨fun hname => absurd hname List.not_mem_nil, fun hname => (Program.propagate_subset hclosed hseed name hname).elim⟩

namespace Gathered

variable {c : Codebase} {paths paths' : List String} {s s' : Session}

/-- The invariant does not depend on the root, on the log or on what was computed from the tables. -/
theorem congr (h : Gathered c paths s) (hresolver : s'.resolver = s.resolver) (hreader : s'.reader = s.reader)
    (hprogram : s'.program = s.program) (hparsed : s'.parsed = s.parsed) : Gathered c paths s' := by
  have hview : ∀ x, s'.view x = s.view x := by
    intro x
    simp only [view, hprogram, hparsed]
  refine ⟨?_, h.schemes, ⟨?_, ?_, ?_⟩, h.resolved, ?_, ?_, ?_, ?_⟩
  · rw [← h.codebase, Session.codebase, Session.codebase, hresolver, hreader]
  · rw [hprogram]
    exact h.wellFormed.records
  · intro x record hrecord
    rw [hview] at hrecord
    exact h.wellFormed.owners x record hrecord
  · rw [hprogram]
    exact h.wellFormed.aliases
  · exact fun x hx => (hview x).trans (h.inside x hx)
  · exact fun x hx => (hview x).trans (h.outside x hx)
  · rw [hprogram]
    exact h.edges
  · rw [hprogram]
    exact h.callers

/-- The finished modules are those spanned by the roots. -/
theorem isFinished_iff (h : Gathered c paths s) (x : ModuleId) : s.isFinished x = true ↔ c.Spanned paths x := by
  rw [isFinished_eq]
  by_cases hx : c.Spanned paths x
  · rw [h.inside x hx]
    exact iff_of_true (c.isFinished_settled ..) hx
  · rw [h.outside x hx]
    exact iff_of_false (by simp [View.empty, View.isFinished]) hx

/-- **One more root.** An analysis that returns adds what is reachable from its root, and nothing else. -/
theorem analyze (h : Gathered c paths s) {path : String} {snap : Snapshot}
    (hreturns : s.analyze c.world path = (s', .ok snap)) : Gathered c (paths ++ [path]) s' ∧ s'.UpToDate := by
  obtain ⟨entry, t, names, hmodule, rfl, rfl⟩ := analyze_ok hreturns
  have hresolver : s.resolver = c.resolver := congrArg Codebase.resolver h.codebase
  have hroot : s.resolver.rootModule c.world.current path = c.resolver.rootModule c.world.current path := by
    rw [hresolver]
  rw [hroot] at hmodule
  have hnoted : Gathered c paths
      ({ s with root := some (c.resolver.rootModule c.world.current path) }.note entry) := h.congr rfl rfl rfl rfl
  generalize { s with root := some (c.resolver.rootModule c.world.current path) }.note entry = noted at hmodule hnoted
  obtain ⟨ids, hentered, hids⟩ := analyzeModule_entered hmodule
  have hent := hentered path
  rw [hnoted.codebase] at hent hids
  -- the analysis stops at what was reached before, which is closed under imports
  have hstop : (fun y => y ∈ ([] : List ModuleId) ∨ noted.isFinished y = true) = c.Spanned paths := by
    funext y
    simp [hnoted.isFinished_iff]
  rw [hstop] at hids
  have hfresh : ∀ x ∈ ids, ¬ c.Spanned paths x := by
    intro x hx hspanned
    exact hent.fresh x hx (.inr ((hnoted.isFinished_iff x).mpr hspanned))
  -- what is newly spanned is what was entered
  have hspanned : ∀ x, c.Spanned (paths ++ [path]) x ↔ c.Spanned paths x ∨ x ∈ ids := by
    intro x
    rw [Codebase.spanned_concat, hids]
    constructor
    · rintro (hx | hx)
      · exact .inl hx
      · exact Codebase.reachable_cases (fun _ _ => Codebase.Spanned.imports) hx
    · exact Or.imp_right fun hx => hx.anti fun _ => False.elim
  have hgathered : Gathered c (paths ++ [path]) t.session := by
    refine ⟨?_, h.schemes, hent.merged.wellFormed hnoted.wellFormed, ?_, ?_, ?_, ?_, ?_⟩
    · rw [hent.merged.codebase, hnoted.codebase]
    · -- resolved: the modules entered have targets
      intro x fault hx hdangling
      rcases (hspanned x).mp hx with hx | hx
      · exact h.resolved x fault hx hdangling
      · obtain ⟨p, hp, _⟩ := id hdangling
        obtain ⟨ts, hts⟩ := hent.resolved x hx p hp
        exact Codebase.Opens.not_dangling ⟨p, hp, hts⟩ fault hdangling
    · -- inside: entered now, or gathered before and untouched
      intro x hx
      by_cases hin : x ∈ ids
      · rw [hent.inside x hin]
        show c.settled .waiting x (noted.view x) = _
        rw [hnoted.outside x (hfresh x hin)]
      · rw [hent.view_of_not_mem hin]
        exact hnoted.inside x (((hspanned x).mp hx).resolve_right hin)
    · -- outside: neither entered now nor gathered before
      intro x hx
      rw [hspanned, not_or] at hx
      rw [hent.view_of_not_mem hx.2]
      exact hnoted.outside x hx.1
    · -- edges
      intro e
      rw [hent.merged.edges, hnoted.edges]
      simp only [hspanned, or_and_right, exists_or]
    · -- callers
      intro f
      rw [hent.merged.callers, hnoted.callers]
      simp only [hspanned, or_and_right, exists_or]
  exact ⟨hgathered.congr rfl rfl rfl rfl, fun _ => Iff.rfl⟩

/-- An analysis returns if no module that is reachable from its root dangles. -/
theorem analyze_returns (h : Gathered c paths s) {path : String}
    (hopen : ∀ x fault, c.Reachable (c.resolver.rootModule c.world.current path) x → ¬ c.Dangling x fault) :
    ∃ s' snap, s.analyze c.world path = (s', .ok snap) := by
  have hresolver : s.resolver = c.resolver := congrArg Codebase.resolver h.codebase
  have hreader : s.reader = c.reader := congrArg Codebase.reader h.codebase
  cases hresult : s.analyze c.world path with
  | mk s' result =>
    cases result with
    | ok snap => exact ⟨s', snap, rfl⟩
    | error fault =>
      have hschemes : s.reader.remoteSchemes = s.resolver.config.remoteSchemes := by rw [hresolver, hreader, h.schemes]
      obtain ⟨x, hreach, hdangling⟩ := analyze_error_dangling hschemes c.world path hresult
      rw [h.codebase, hresolver] at hreach
      rw [h.codebase] at hdangling
      exact absurd hdangling (hopen x fault hreach)

-- ---------------------------------------------------------------------------
-- One root after the other
-- ---------------------------------------------------------------------------

/-- A sequence of analyses that return adds what is reachable from their roots. -/
theorem runs {more : List String} (h : Gathered c paths s) (hup : s.UpToDate)
    (hruns : Runs s (more.map (Call.mk .waiting c.world)) s') : Gathered c (paths ++ more) s' ∧ s'.UpToDate := by
  induction more generalizing s paths with
  | nil =>
    cases hruns
    rw [List.append_nil]
    exact ⟨h, hup⟩
  | cons path more ih =>
    obtain _ | ⟨hfirst, hrest⟩ := hruns
    obtain ⟨hnext, hnextUp⟩ := h.analyze hfirst
    rw [List.append_cons]
    exact ih hnext hnextUp hrest

/-- A sequence of analyses returns if no module that is reachable from their roots dangles. -/
theorem exists_runs {more : List String} (h : Gathered c paths s)
    (hopen : ∀ x fault, c.Spanned more x → ¬ c.Dangling x fault) :
    ∃ s', Runs s (more.map (Call.mk .waiting c.world)) s' := by
  induction more generalizing s paths with
  | nil => exact ⟨s, .nil s⟩
  | cons path more ih =>
    obtain ⟨s₁, snap, hfirst⟩ := @analyze_returns _ _ _ h path fun x fault hx =>
      hopen x fault ⟨path, List.mem_cons_self, hx⟩
    obtain ⟨s', hrest⟩ := ih (h.analyze hfirst).1 fun x fault hx =>
      hopen x fault (hx.mono (List.subset_cons_self path more))
    exact ⟨s', .cons hfirst hrest⟩

-- ---------------------------------------------------------------------------
-- More roots and fewer
-- ---------------------------------------------------------------------------

/-- What fewer roots span has the same view when more roots have been analysed. -/
theorem view_eq (h : Gathered c paths s) (h' : Gathered c paths' s') (hsub : paths ⊆ paths') {x : ModuleId}
    (hx : c.Spanned paths x) : s'.view x = s.view x := by
  rw [h.inside x hx, h'.inside x (hx.mono hsub)]

/-- A module with an alias was reached, and it imports the module that the alias refers to. -/
theorem imports_of_mem_items (h : Gathered c paths s) {x : ModuleId} {localName : Name} {ref : Alias}
    (hi : (x, localName, ref) ∈ s.program.aliases.items) : c.Spanned paths x ∧ c.Imports x ref.source := by
  rw [Aliases.mem_items_iff_get? h.wellFormed.aliases] at hi
  have hview : (s.view x).aliases.bind (·.get? localName) = some ref := hi
  by_cases hx : c.Spanned paths x
  · refine ⟨hx, ?_⟩
    rw [h.inside x hx] at hview
    cases hp : c.find? x with
    | none =>
      -- a module that cannot be parsed has no aliases
      obtain ⟨fault, hfault⟩ := @Codebase.parse_eq_error_of_find? c .waiting x hp
      rw [Codebase.settled_of_parse_error hfault] at hview
      cases hview
    | some p =>
      rcases Codebase.opens_or_dangling hp with ⟨ts, q, hq, hts⟩ | ⟨fault, hdangling⟩
      · rw [Codebase.settled_of_targets_ok (Codebase.parse_eq_ok_of_find? hq) hts, View.get?_bind_iff _ _ rfl] at hview
        exact Codebase.imports_of_lastBinding hq hview
      · -- nothing that was gathered dangles
        exact absurd hdangling (h.resolved x fault hx)
  · -- what was not gathered has no aliases
    rw [h.outside x hx] at hview
    cases hview

/-- More roots give a program that extends the one for fewer. -/
theorem program_extends (h : Gathered c paths s) (h' : Gathered c paths' s') (hsub : paths ⊆ paths') :
    s'.program.Extends s.program where
  calls e he := by
    obtain ⟨x, hx, hedge⟩ := (h.edges e).mp he
    exact (h'.edges e).mpr ⟨x, hx.mono hsub, hedge⟩
  imports := by
    rintro ⟨x, localName, ref⟩ hi
    obtain ⟨hx, _⟩ := h.imports_of_mem_items hi
    rw [Aliases.mem_items_iff_get? h.wellFormed.aliases] at hi
    rw [Aliases.mem_items_iff_get? h'.wellFormed.aliases]
    show (s'.view x).aliases.bind (·.get? localName) = some ref
    rw [h.view_eq h' hsub hx]
    exact hi
  origins x localName ref hi := by
    -- the module that is imported from was reached together with the importing one
    obtain ⟨hx, himports⟩ := h.imports_of_mem_items hi
    show ((s'.view ref.source).record.bind (·.exports.get? ref.name)).getD ref.name = _
    rw [h.view_eq h' hsub (hx.imports himports)]
    rfl
  direct x name hname := by
    by_cases hx : c.Spanned paths x
    · -- the module was gathered in both
      show name ∈ s'.directBlocking x
      rw [directBlocking_eq, h.view_eq h' hsub hx, ← directBlocking_eq]
      exact hname
    · -- what was not gathered blocks nothing directly
      have hview : name ∈ s.directBlocking x := hname
      rw [directBlocking_eq, h.outside x hx] at hview
      cases hview

/-- More roots have more direct blocking names. -/
theorem seed_subset (h : Gathered c paths s) (h' : Gathered c paths' s') (hsub : paths ⊆ paths') :
    ∀ name ∈ s.seed, name ∈ s'.seed := by
  intro name hname
  obtain ⟨record, hrecord, hmem⟩ := mem_seed_iff.mp hname
  rw [h.wellFormed.mem_values_iff] at hrecord
  refine mem_seed_iff.mpr ⟨record, ?_, hmem⟩
  by_cases hx : c.Spanned paths record.moduleId
  · rw [h'.wellFormed.mem_values_iff, h.view_eq h' hsub hx]
    exact hrecord
  · rw [h.outside _ hx] at hrecord
    cases hrecord

/-- The blocking names are monotone in the roots. -/
theorem blocking_subset (h : Gathered c paths s) (hup : s.UpToDate) (h' : Gathered c paths' s') (hup' : s'.UpToDate)
    (hsub : paths ⊆ paths') : ∀ name ∈ s.blocking, name ∈ s'.blocking := by
  intro name hname
  rw [hup] at hname
  rw [hup']
  exact (h.program_extends h' hsub).propagate_subset (h.seed_subset h' hsub) name hname

end Gathered

-- ---------------------------------------------------------------------------
-- The same roots in another order
-- ---------------------------------------------------------------------------

/-- Two sessions hold the same, up to the order of their tables. -/
structure Coincides (s s' : Session) : Prop where
  blocking : ∀ name, name ∈ s.blocking ↔ name ∈ s'.blocking
  directBlocking : s.snapshot.directBlocking.Perm s'.snapshot.directBlocking
  callers : ∀ f, f ∈ s.program.calls.callers ↔ f ∈ s'.program.calls.callers
  edges : ∀ e, e ∈ s.program.calls.edges ↔ e ∈ s'.program.calls.edges
  aliases : ∀ x, s.program.aliases.modules.get? x = s'.program.aliases.modules.get? x
  failed : s.snapshot.failed.Perm s'.snapshot.failed

/-- Sessions with the same views have the same records up to order. -/
theorem WellFormed.perm_records {s s' : Session} (h : s.WellFormed) (h' : s'.WellFormed)
    (hview : ∀ x, s.view x = s'.view x) :
    s.program.modules.records.values.Perm s'.program.modules.records.values := by
  have hentries : s.program.modules.records.entries.Perm s'.program.modules.records.entries := by
    rw [List.perm_ext_iff_of_nodup (List.Nodup.of_map _ h.records) (List.Nodup.of_map _ h'.records)]
    rintro ⟨x, record⟩
    have hrecord : s.program.modules.records.get? x = s'.program.modules.records.get? x :=
      congrArg View.record (hview x)
    rw [← Table.get?_eq_some_iff h.records, ← Table.get?_eq_some_iff h'.records, hrecord]
  exact hentries.map _

/-- The same roots in another order give coinciding sessions. -/
theorem Gathered.coincides {c : Codebase} {paths paths' : List String} {s s' : Session} (h : Gathered c paths s)
    (hup : s.UpToDate) (h' : Gathered c paths' s') (hup' : s'.UpToDate) (hperm : paths.Perm paths') :
    s.Coincides s' := by
  have hspanned : ∀ x, c.Spanned paths x ↔ c.Spanned paths' x := fun x =>
    ⟨.mono hperm.subset, .mono hperm.symm.subset⟩
  -- both sessions have the same views, and all else is derived from these
  have hview : ∀ x, s.view x = s'.view x := by
    intro x
    by_cases hx : c.Spanned paths x
    · rw [h.view_eq h' hperm.subset hx]
    · rw [h.outside x hx, h'.outside x fun hx' => hx ((hspanned x).mpr hx')]
  have hrecords := h.wellFormed.perm_records h'.wellFormed hview
  refine ⟨fun name => ⟨?_, ?_⟩, hrecords.map _, fun f => ?_, fun e => ?_, ?_, (hrecords.filter _).map _⟩
  · exact h.blocking_subset hup h' hup' hperm.subset name
  · exact h'.blocking_subset hup' h hup hperm.symm.subset name
  · rw [h.callers, h'.callers]
    simp only [hspanned]
  · rw [h.edges, h'.edges]
    simp only [hspanned]
  · exact fun x => congrArg View.aliases (hview x)

/-- **The order of roots is immaterial.** If the analyses of some roots, one after the other on a new session and in one
world, all return, then they do so in any other order, and both orders leave the same blocking names, the same direct
ones of each module, the same calls of each caller, the same aliases of each module and the same failed modules with the
same texts. A name that blocks after some of these roots have been analysed, in any order, blocks when all of them have
been. -/
theorem roots_in_any_order (config : Config) (deno : String) (s₀ : Session) (hs : start config deno = .ok s₀) (w : World)
    (paths : List String) (s : Session) (h : Runs s₀ (paths.map (Call.mk .waiting w)) s) :
    (∀ paths' : List String, paths'.Perm paths → ∃ s', Runs s₀ (paths'.map (Call.mk .waiting w)) s' ∧ s'.Coincides s) ∧
    ∀ fewer, fewer ⊆ paths → ∀ s₁, Runs s₀ (fewer.map (Call.mk .waiting w)) s₁ →
      ∀ name ∈ s₁.blocking, name ∈ s.blocking := by
  have hstart := gathered_start hs w
  have hupStart := upToDate_start hs
  obtain ⟨hgathered, hup⟩ := hstart.runs hupStart h
  rw [List.nil_append] at hgathered
  constructor
  · -- no module spanned by the roots dangles, whatever their order
    intro paths' hperm
    have hopen : ∀ x fault, (s₀.codebase w).Spanned paths' x → ¬ (s₀.codebase w).Dangling x fault := fun x fault hx =>
      hgathered.resolved x fault (hx.mono hperm.subset)
    obtain ⟨s', hruns⟩ := hstart.exists_runs hopen
    obtain ⟨hgathered', hup'⟩ := hstart.runs hupStart hruns
    exact ⟨s', hruns, hgathered'.coincides hup' hgathered hup hperm⟩
  · -- fewer roots
    intro fewer hsub s₁ hruns
    obtain ⟨hgathered₁, hup₁⟩ := hstart.runs hupStart hruns
    exact hgathered₁.blocking_subset hup₁ hgathered hup hsub

end Session

/-- What is known after an analysis of the first sample file and one of a file that does not exist. -/
def Sample.snapshotWithMissing : Session.Snapshot :=
  { snapshot with
    root := "/work/gone.ts"
    directBlocking := [("/work/a.ts", []), ("/work/b.ts", ["f"]), ("/work/gone.ts", [])]
    failed := [("/work/gone.ts", "/work/gone.ts: [Errno 2] No such file or directory: '/work/gone.ts'")] }

namespace Session

/-- Two files that import each other, and a root that does not exist: whichever root comes first, the missing one is known
to have failed, and what the other one has found to block is blocking. -/
theorem roots_in_any_order_missing :
    ∃ s s', start Sample.config "deno" = .ok Sample.session ∧
      Runs Sample.session (["a.ts", "gone.ts"].map (Call.mk .waiting Sample.world)) s ∧
      Runs Sample.session (["gone.ts", "a.ts"].map (Call.mk .waiting Sample.world)) s' ∧
      s.snapshot = Sample.snapshotWithMissing ∧ s'.Coincides s ∧
      ∀ name ∈ Sample.snapshot.blocking, name ∈ s.blocking := by
  have hsecond : (Sample.session.answer ⟨.waiting, Sample.world, "a.ts"⟩).1.answer
      ⟨.waiting, Sample.world, "gone.ts"⟩ = (_, .ok Sample.snapshotWithMissing) := Prod.ext rfl (by decide +kernel)
  have hruns : Runs Sample.session (["a.ts", "gone.ts"].map (Call.mk .waiting Sample.world)) _ :=
    .cons Sample.answer_first (.cons hsecond (.nil _))
  obtain ⟨hother, hgrow⟩ := roots_in_any_order _ _ _ Sample.start_eq _ _ _ hruns
  obtain ⟨s', hruns', hcoincides⟩ := hother ["gone.ts", "a.ts"] (by decide)
  refine ⟨_, s', Sample.start_eq, hruns, hruns', snapshot_of_answer hsecond, hcoincides, ?_⟩
  have hblocking := hgrow ["a.ts"] (by decide) _ (.cons Sample.answer_first (.nil _))
  have hsame := congrArg Snapshot.blocking (snapshot_of_answer Sample.answer_first)
  intro name hname
  rw [← hsame] at hname
  exact hblocking name hname

end Session

end BlockingCalls
