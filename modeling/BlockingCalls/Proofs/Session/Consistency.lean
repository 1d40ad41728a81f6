import BlockingCalls.Proofs.Session.Returns

/-!
# The tables of a session agree with each other

A session holds several tables about the same modules and names: locations of functions, calls, records of modules, trees,
aliases. In every session that is reachable from a new one these tables agree (`Consistent`), whatever operations were
performed, in whatever worlds, and whether they returned or not.

That the callers are the located names follows from what is merged of one module: both are the functions declared in its
tree. The rest is a property of views, one module at a time. An operation that returns has settled or linked the modules
that it has read and left the views of all others unchanged, so the property carries over. A depth-first analysis that
fails is interrupted while following imports; for this case the proof is by induction on the recursion
(`enter_consistent`).

## Results

* `View.Consistent.settled`, `View.Consistent.linked`  — the view of a module that was read.
* `Traversal.enter_consistent`, `consistent_of_ended`  — both ways of analysing.
* `blocking_located_or_imported`                       — each blocking name is located or imported.
* `reached_consistent`                                 — every session that can be reached is consistent.
-/

namespace BlockingCalls

namespace Session

-- ---------------------------------------------------------------------------
-- Views
-- ---------------------------------------------------------------------------

/-- The parts of the view of a module agree with each other and with the callers. -/
structure View.Consistent (callers : List Name) (v : View) : Prop where
  direct : ∀ record, v.record = some record → ∀ f ∈ record.directBlocking, f ∈ callers
  failed : ∀ record, v.record = some record → record.progress = .failed →
    record.directBlocking = [] ∧ record.error.isSome
  done : ∀ record, v.record = some record → record.progress = .done → record.error = none ∧ v.parsed.isSome
  aliased : v.aliases.isSome → v.parsed.isSome

namespace View.Consistent

variable {callers callers' : List Name} {v : View}

/-- More callers keep a view consistent. -/
theorem mono (h : v.Consistent callers) (hcallers : ∀ f ∈ callers, f ∈ callers') : v.Consistent callers' where
  direct record hrecord f hf := hcallers f (h.direct record hrecord f hf)
  failed := h.failed
  done := h.done
  aliased := h.aliased

/-- An empty view is consistent. -/
theorem empty : View.empty.Consistent callers where
  direct _ h := nomatch h
  failed _ h := nomatch h
  done _ h := nomatch h
  aliased h := nomatch h

/-- A module that fails loses its direct blocking names and gets an error text. -/
theorem fail (h : v.Consistent callers) (moduleId : ModuleId) (fault : Fault) :
    (v.fail moduleId fault).Consistent callers where
  direct record hrecord f hf := by
    cases hrecord
    cases hf
  failed record hrecord _ := by
    cases hrecord
    exact ⟨rfl, rfl⟩
  done record hrecord hdone := by
    cases hrecord
    cases hdone
  aliased := h.aliased

/-- Aliases may be added to a module that has a tree. -/
theorem bind (h : v.Consistent callers) (hparsed : v.parsed.isSome) (bindings : List (Name × Alias)) :
    (v.bind bindings).Consistent callers where
  direct := h.direct
  failed := h.failed
  done := h.done
  aliased _ := hparsed

/-- A module that is taken up and registered. -/
theorem register (p : Parsed) (summary : Summary) (x : ModuleId) (hdirect : ∀ f ∈ summary.directBlocking, f ∈ callers) :
    ((v.begin x).register p summary).Consistent callers where
  direct record hrecord f hf := by
    cases hrecord
    exact hdirect f hf
  failed record hrecord hfailed := by
    cases hrecord
    cases hfailed
  done record hrecord hdone := by
    cases hrecord
    cases hdone
  aliased _ := rfl

variable {c : Codebase} {x : ModuleId}

/-- The view of a module that was read and whose imports were linked. -/
theorem linked (h : v.Consistent callers) (mode : Mode)
    (hdirect : ∀ p, c.find? x = some p → ∀ f ∈ (c.summary p).directBlocking, f ∈ callers) :
    (c.linked mode x v).Consistent callers := by
  unfold Codebase.linked
  split
  · -- the module could not be parsed: it was taken up and has failed
    have hbegin : (v.begin x).Consistent callers :=
      { direct := fun record hrecord f hf => by cases hrecord; cases hf
        failed := fun record hrecord hfailed => by cases hrecord; cases hfailed
        done := fun record hrecord hdone => by cases hrecord; cases hdone
        aliased := h.aliased }
    exact hbegin.fail ..
  · -- the module was registered, and its imports were bound
    rename_i p hp
    exact (register p (c.summary p) x (hdirect p (Codebase.find?_eq_some_of_parse hp))).bind rfl _

/-- The view of a module that was settled. -/
theorem settled (h : v.Consistent callers) (mode : Mode)
    (hdirect : ∀ p, c.find? x = some p → ∀ f ∈ (c.summary p).directBlocking, f ∈ callers) :
    (c.settled mode x v).Consistent callers := by
  have hlinked := h.linked mode hdirect
  cases hp : c.find? x with
  | none =>
    -- a module that could not be parsed has failed when it was linked
    obtain ⟨fault, hfault⟩ := @Codebase.parse_eq_error_of_find? c mode x hp
    have heq : c.settled mode x v = c.linked mode x v := by simp [Codebase.settled, hfault]
    rw [heq]
    exact hlinked
  | some p =>
    rcases Codebase.opens_or_dangling hp with ⟨ts, q, hq, hts⟩ | ⟨fault, hdangling⟩
    · -- all imports can be resolved: the module is done
      rw [hp] at hq
      cases hq
      have hparse := @Codebase.parse_eq_ok_of_find? c mode x p hp
      rw [Codebase.settled_of_targets_ok hparse hts]
      refine ⟨?_, ?_, ?_, fun _ => rfl⟩
      · intro record hrecord f hf
        cases hrecord
        exact hdirect p hp f hf
      · intro record hrecord hfailed
        cases hrecord
        cases hfailed
      · intro record hrecord _
        cases hrecord
        exact ⟨rfl, rfl⟩
    · -- the module dangles: it has failed after it was linked
      rw [Codebase.settled_of_dangling hdangling]
      exact hlinked.fail ..

end View.Consistent

-- ---------------------------------------------------------------------------
-- Sessions
-- ---------------------------------------------------------------------------

/-- The tables of a session agree: the located names are the callers; names that block by themselves are callers; a failed
record has no such names but an error text; a done one has no error text but a tree; modules with aliases have a tree. -/
structure Consistent (s : Session) : Prop where
  located : ∀ f, f ∈ s.locations.keys ↔ f ∈ s.program.calls.callers
  direct : ∀ x record, s.program.modules.records.get? x = some record → ∀ f ∈ record.directBlocking,
    f ∈ s.program.calls.callers
  failed : ∀ x record, s.program.modules.records.get? x = some record → record.progress = .failed →
    record.directBlocking = [] ∧ record.error.isSome
  done : ∀ x record, s.program.modules.records.get? x = some record → record.progress = .done →
    record.error = none ∧ (s.parsed.get? x).isSome
  aliased : ∀ x, (s.program.aliases.modules.get? x).isSome → (s.parsed.get? x).isSome

namespace Consistent

variable {s s' : Session} {c : Codebase} {mode : Mode} {ids : List ModuleId}

/-- The view of each module in a consistent session. -/
theorem view (h : s.Consistent) (x : ModuleId) : (s.view x).Consistent s.program.calls.callers where
  direct := h.direct x
  failed := h.failed x
  done := h.done x
  aliased := h.aliased x

/-- A session is consistent if its views are and the callers are the located names. -/
theorem of_views (hlocated : ∀ f, f ∈ s.locations.keys ↔ f ∈ s.program.calls.callers)
    (hviews : ∀ x, (s.view x).Consistent s.program.calls.callers) : s.Consistent where
  located := hlocated
  direct x := (hviews x).direct
  failed x := (hviews x).failed
  done x := (hviews x).done
  aliased x := (hviews x).aliased

/-- A module adds the same names to the located ones and to the callers: the functions that are declared in its tree. -/
theorem located_of_merged (h : s.Consistent) (hmerged : Merged c mode s s' ids) (f : Name) :
    f ∈ s'.locations.keys ↔ f ∈ s'.program.calls.callers := by
  rw [hmerged.declared, hmerged.callers, h.located]
  refine or_congr_right (exists_congr fun x => and_congr_right fun _ => exists_congr fun p => and_congr_right fun _ => ?_)
  rw [Codebase.summary, Summary.mem_keys_locations_ofTree, Summary.mem_keys_calls_ofTree]

/-- The direct blocking names of a module that was merged are callers. -/
theorem direct_of_merged (hmerged : Merged c mode s s' ids) {x : ModuleId} (hx : x ∈ ids) {p : Parsed}
    (hp : c.find? x = some p) {f : Name} (hf : f ∈ (c.summary p).directBlocking) : f ∈ s'.program.calls.callers := by
  refine (hmerged.callers f).mpr (.inr ⟨x, hx, p, hp, ?_⟩)
  rw [Codebase.summary, Summary.mem_keys_calls_ofTree]
  exact Tree.declaredIn_of_blocksIn (Summary.mem_directBlocking_ofTree.mp hf)

theorem callers_mono (hmerged : Merged c mode s s' ids) {f : Name} (hf : f ∈ s.program.calls.callers) :
    f ∈ s'.program.calls.callers :=
  (hmerged.callers f).mpr (.inl hf)

/-- A session stays consistent if what was read is settled or linked, and other modules are unchanged. -/
theorem of_merged (h : s.Consistent) (hmerged : Merged c mode s s' ids)
    (hinside : ∀ x ∈ ids, s'.view x = c.settled mode x (s.view x) ∨ s'.view x = c.linked mode x (s.view x))
    (houtside : ∀ x, x ∉ ids → s'.view x = s.view x) : s'.Consistent := by
  refine .of_views (h.located_of_merged hmerged) ?_
  intro x
  have hbefore := (h.view x).mono fun f hf => callers_mono hmerged hf
  by_cases hx : x ∈ ids
  · -- read: its direct blocking names are callers now
    have hdirect : ∀ p, c.find? x = some p → ∀ f ∈ (c.summary p).directBlocking, f ∈ s'.program.calls.callers :=
      fun p hp f hf => direct_of_merged hmerged hx hp hf
    rcases hinside x hx with hview | hview
    · rw [hview]
      exact hbefore.settled mode hdirect
    · rw [hview]
      exact hbefore.linked mode hdirect
  · -- not read: its view is the same, and there are more callers
    rw [houtside x hx]
    exact hbefore

/-- Linking an import of a module that has a tree keeps the session consistent. -/
theorem link (h : s.Consistent) (m : Loaded) (d : ImportDeclaration)
    (hparsed : (s.view m.summary.moduleId).parsed.isSome) : (s.link m d).1.Consistent := by
  let w : World := {}
  have hmerged : Merged (s.codebase w) .waiting s (s.link m d).1 [] := merged_link s m d
  refine .of_views (h.located_of_merged hmerged) ?_
  intro x
  have hbefore := (h.view x).mono fun f hf => callers_mono hmerged hf
  rw [view_link s w]
  split
  · rename_i hx
    exact hbefore.bind (hx ▸ hparsed) _
  · exact hbefore

end Consistent

end Session

-- ---------------------------------------------------------------------------
-- Depth-first analysis
-- ---------------------------------------------------------------------------

namespace Traversal

open Session (Merged Loaded Consistent View)

variable {c : Codebase} {w : World}

/-- An entry that returns keeps the session consistent. -/
theorem Entered.consistent {t t' : Traversal} {ids : List ModuleId} (h : ∀ owner, Entered c owner [] t t' ids)
    (hconsistent : t.session.Consistent) : t'.session.Consistent := by
  exact hconsistent.of_merged (h "").merged (fun x hx => .inl ((h "").inside x hx)) fun x hx => (h "").view_of_not_mem hx

/-- Following imports of a module that has a tree keeps the session consistent if it ends with a fault. By induction on
the imports; `henter` and `herror` are the statements for the calls below. -/
theorem follow_consistent {enter : Traversal → ModuleId → Traversal × Except Fault (List Name)}
    (henter : ∀ t x t' names, t.session.codebase w = c → enter t x = (t', .ok names) → Enters c t t' x)
    (herror : ∀ t x t' fault, t.session.codebase w = c → t.session.Consistent → enter t x = (t', .error fault) →
      (∃ ids, Merged c .waiting t.session t'.session ids) ∧ t'.session.Consistent)
    (m : Loaded) (imports : List ImportDeclaration) (t t' : Traversal) (fault : Fault) (hc : t.session.codebase w = c)
    (howner : m.summary.moduleId ∈ t.visiting) (hparsed : (t.session.view m.summary.moduleId).parsed.isSome)
    (hconsistent : t.session.Consistent) (h : follow enter m t imports = (t', .error fault)) :
    (∃ ids, Merged c .waiting t.session t'.session ids) ∧ t'.session.Consistent := by
  induction imports generalizing t with
  | nil => cases h
  | cons d rest ih =>
    have hlinked := entered_link hc m d
    have hlinkedConsistent := hconsistent.link m d hparsed
    have hc₁ := (hlinked.merged.codebase w).trans hc
    have hparsed₁ : ((t.session.link m d).1.view m.summary.moduleId).parsed.isSome := by
      rw [Session.view_link _ w, if_pos rfl]
      exact hparsed
    rw [follow] at h
    rcases Session.link_cases t.session m d with ⟨cause, _, hlink⟩ | ⟨reason, _, hlink⟩ | ⟨target, isRemote, _, hlink⟩
    · -- the import cannot be resolved: the session is unchanged
      rw [hlink] at h
      cases h
      exact ⟨⟨[], .refl _⟩, hconsistent⟩
    · -- the import is skipped
      rw [hlink] at h
      obtain ⟨⟨ids, hmerged⟩, hafter⟩ := ih _ hc₁ howner hparsed₁ hlinkedConsistent h
      exact ⟨⟨_, hlinked.merged.trans hmerged⟩, hafter⟩
    · rw [hlink] at h
      simp only at h
      split at h
      · -- the call for the target has failed
        rename_i t₁ cause hcall
        cases h
        obtain ⟨⟨ids, hmerged⟩, hafter⟩ := herror _ _ _ _ hc₁ hlinkedConsistent hcall
        exact ⟨⟨_, hlinked.merged.trans hmerged⟩, hafter⟩
      · rename_i t₁ names hcall
        obtain ⟨ids₁, hentered₁, _, _⟩ := henter _ _ _ _ hc₁ hcall
        have hent := hentered₁ m.summary.moduleId
        have howner₁ : m.summary.moduleId ∈ t₁.visiting := (hent.visiting _).mpr (.inl howner)
        -- the owner is being visited, so it was not entered again
        have hview := hent.view_of_not_mem fun hmem => hent.fresh m.summary.moduleId hmem (.inl howner)
        obtain ⟨⟨ids, hmerged⟩, hafter⟩ :=
          ih t₁ ((hent.merged.codebase w).trans hc₁) howner₁ (by rw [hview]; exact hparsed₁)
            (Entered.consistent hentered₁ hlinkedConsistent) h
        exact ⟨⟨_, (hlinked.merged.trans hent.merged).trans hmerged⟩, hafter⟩

/-- A module that is taken up and parsed has a tree, and the session is consistent. -/
theorem loading_consistent {t : Traversal} (hc : t.session.codebase w = c) {x : ModuleId} {p : Parsed}
    (hp : c.parse .waiting x = .ok p) (hconsistent : t.session.Consistent) :
    (t.loading w x).session.Consistent ∧ ((t.loading w x).session.view x).parsed.isSome := by
  have hmerged := merged_loading hc x
  have hview := view_loading hc x
  have hself : (t.loading w x).session.view x = ((t.session.view x).begin x).register p (c.summary p) := by
    rw [hview, if_pos rfl]
    simp [Codebase.load, hp]
  refine ⟨.of_views (hconsistent.located_of_merged hmerged) ?_, by rw [hself]; rfl⟩
  intro y
  by_cases hy : y = x
  · -- the module itself: it has been registered
    subst hy
    rw [hself]
    refine .register p (c.summary p) y fun f hf => ?_
    exact Consistent.direct_of_merged hmerged List.mem_cons_self (Codebase.find?_eq_some_of_parse hp) hf
  · -- another module
    rw [hview, if_neg hy]
    exact (hconsistent.view y).mono fun f hf => Consistent.callers_mono hmerged hf

/-- **An entry that ends with a fault keeps the session consistent.** By induction on the depth. -/
theorem enter_consistent (depth : Nat) (t : Traversal) (x : ModuleId) (t' : Traversal) (fault : Fault)
    (hc : t.session.codebase w = c) (hconsistent : t.session.Consistent) (h : enter w depth t x = (t', .error fault)) :
    (∃ ids, Merged c .waiting t.session t'.session ids) ∧ t'.session.Consistent := by
  induction depth generalizing t x t' fault with
  | zero =>
    cases h
    exact ⟨⟨[], .refl _⟩, hconsistent⟩
  | succ depth ih =>
    rw [enter] at h
    split at h
    · cases h
    · cases hp : c.parse .waiting x with
      | error cause =>
        -- a module that cannot be parsed is no fault of the entry
        simp only [load_begin_of_error hc x hp] at h
        cases h
      | ok p =>
        simp only [load_begin_of_ok hc x hp] at h
        split at h
        · rename_i t₁ cause hfollow
          cases h
          have hmerged := merged_loading hc x
          have hid : (c.summary p).moduleId = x := Codebase.moduleId_summary hp
          have hvisiting : (c.summary p).moduleId ∈ (t.loading w x).visiting := by simp [hid, loading, begin]
          obtain ⟨hloaded, hparsed⟩ := loading_consistent hc hp hconsistent
          have hparsed' : ((t.loading w x).session.view (c.summary p).moduleId).parsed.isSome := by
            rw [hid]
            exact hparsed
          obtain ⟨⟨ids, hrest⟩, hafter⟩ :=
            follow_consistent (enter_entered depth) ih ⟨p.location, c.summary p⟩ _ _ _ _ ((hmerged.codebase w).trans hc)
              hvisiting hparsed' hloaded hfollow
          exact ⟨⟨_, hmerged.trans hrest⟩, hafter⟩
        · cases h

end Traversal

namespace Session

open Traversal (Entered)

/-- A depth-first analysis keeps the session consistent, whether it returns or not. -/
theorem analyzeModule_consistent {s : Session} (h : s.Consistent) (w : World) (moduleId : ModuleId)
    (visiting : List ModuleId) :
    (∃ ids, Merged (s.codebase w) .waiting s (s.analyzeModule w moduleId visiting).1.session ids) ∧
      (s.analyzeModule w moduleId visiting).1.session.Consistent := by
  cases hresult : s.analyzeModule w moduleId visiting with
  | mk t result =>
    cases result with
    | error fault => exact Traversal.enter_consistent _ { session := s, visiting } _ _ _ rfl h hresult
    | ok names =>
      obtain ⟨ids, hentered, _⟩ := analyzeModule_entered hresult
      exact ⟨⟨ids, (hentered moduleId).merged⟩, Entered.consistent hentered h⟩

-- ---------------------------------------------------------------------------
-- Concurrent analysis
-- ---------------------------------------------------------------------------

/-- **A concurrent analysis that has ended keeps the session consistent**, whatever its result: every module it has read
is settled or, if the root dangles, linked. -/
theorem consistent_of_ended {c : Codebase} {root : ModuleId} {s s' : Session} {result : Except Fault (List Name)}
    {ids : List ModuleId} (h : Ended c root s s' result ids) (hconsistent : s.Consistent) : s'.Consistent :=
  hconsistent.of_merged h.merged (fun x hx => (h.inside x hx).imp id And.left) h.outside

/-- With a negative number of permits no module is taken up. -/
theorem analyzeModuleConcurrently_of_negative {s : Session} (h : s.resolver.config.maxConcurrency < 0) (w : World)
    (root : ModuleId) : (s.analyzeModuleConcurrently w root).1 = s := by
  -- the only task ends at once, in the same session
  have hstart : ∃ outcome, Pool.startTask w { session := s } root none = { session := s, result := some outcome } := by
    unfold Pool.startTask
    split
    · exact ⟨_, rfl⟩
    · split
      · exact ⟨_, rfl⟩
      · exact absurd h ‹_›
  obtain ⟨outcome, hstart⟩ := hstart
  unfold analyzeModuleConcurrently
  rw [Pool.run_of_startTask hstart]

/-- A concurrent analysis keeps the session consistent, whether it returns or not. -/
theorem analyzeModuleConcurrently_consistent {s : Session}
    (hschemes : s.reader.remoteSchemes = s.resolver.config.remoteSchemes) (h : s.Consistent) (w : World)
    (root : ModuleId) :
    (∃ ids, Merged (s.codebase w) .concurrent s (s.analyzeModuleConcurrently w root).1 ids) ∧
      (s.analyzeModuleConcurrently w root).1.Consistent := by
  by_cases hcapacity : 0 ≤ s.resolver.config.maxConcurrency
  · obtain ⟨ids, hended⟩ := analyzeModuleConcurrently_ended s w root hschemes hcapacity
    exact ⟨⟨ids, hended.merged⟩, consistent_of_ended hended h⟩
  · -- no permits: nothing is changed
    rw [analyzeModuleConcurrently_of_negative (by omega)]
    exact ⟨⟨[], .refl s⟩, h⟩

-- ---------------------------------------------------------------------------
-- Sessions that can be reached
-- ---------------------------------------------------------------------------

/-- The operations of a session that change its tables. -/
inductive Operation where
  | analyze (path : String)
  | analyzeConcurrently (path : String)
  | analyzeModule (moduleId : ModuleId) (visiting : List ModuleId)
  | analyzeModuleConcurrently (moduleId : ModuleId)

/-- The session after an operation, whether it has returned or not. -/
def perform (s : Session) (w : World) : Operation → Session
  | .analyze path => (s.analyze w path).1
  | .analyzeConcurrently path => (s.analyzeConcurrently w path).1
  | .analyzeModule moduleId visiting => (s.analyzeModule w moduleId visiting).1.session
  | .analyzeModuleConcurrently moduleId => (s.analyzeModuleConcurrently w moduleId).1

/-- The session can be reached from a new one by operations, each in a world of its own. -/
inductive Reached (config : Config) (deno : String) : Session → Prop
  | start {s : Session} (new : start config deno = .ok s) : Reached config deno s
  | step {s : Session} (reached : Reached config deno s) (w : World) (operation : Operation) :
      Reached config deno (s.perform w operation)

/-- The invariant of all operations. -/
structure Sound (s : Session) : Prop where
  schemes : s.reader.remoteSchemes = s.resolver.config.remoteSchemes
  wellFormed : s.WellFormed
  consistent : s.Consistent

namespace Sound

variable {s s' : Session}

/-- The invariant under a change of the tables as `Merged` describes it. -/
theorem of_merged {c : Codebase} {mode : Mode} {ids : List ModuleId} (h : s.Sound) (hmerged : Merged c mode s s' ids)
    (hconsistent : s'.Consistent) : s'.Sound where
  schemes := by rw [hmerged.reader, hmerged.resolver, h.schemes]
  wellFormed := hmerged.wellFormed h.wellFormed
  consistent := hconsistent

/-- A new session is sound. -/
theorem start {config : Config} {deno : String} (h : start config deno = .ok s) : s.Sound := by
  have hfresh := fresh_start h
  obtain ⟨hconfig, hreader⟩ := config_start h
  refine ⟨by rw [hconfig, hreader], hfresh.wellFormed, .of_views ?_ ?_⟩
  · intro f
    rw [hfresh.locations, hfresh.calls]
    rfl
  · intro x
    rw [hfresh.views]
    exact .empty

/-- Soundness does not depend on the root, on the log, on what is in flight or on what was computed from the tables. -/
theorem congr (h : s.Sound) (hresolver : s'.resolver = s.resolver) (hreader : s'.reader = s.reader)
    (hprogram : s'.program = s.program) (hlocations : s'.locations = s.locations) (hparsed : s'.parsed = s.parsed) :
    s'.Sound := by
  obtain ⟨resolver, reader, program, locations, parsed, inFlight, root, propagation, reads, requests, log⟩ := s'
  cases hresolver
  cases hreader
  cases hprogram
  cases hlocations
  cases hparsed
  exact ⟨h.schemes, ⟨h.wellFormed.records, h.wellFormed.owners, h.wellFormed.aliases⟩,
    ⟨h.consistent.located, h.consistent.direct, h.consistent.failed, h.consistent.done, h.consistent.aliased⟩⟩

theorem analyzeModule (h : s.Sound) (w : World) (moduleId : ModuleId) (visiting : List ModuleId) :
    (s.analyzeModule w moduleId visiting).1.session.Sound := by
  obtain ⟨⟨ids, hmerged⟩, hconsistent⟩ := analyzeModule_consistent h.consistent w moduleId visiting
  exact h.of_merged hmerged hconsistent

theorem analyzeModuleConcurrently (h : s.Sound) (w : World) (moduleId : ModuleId) :
    (s.analyzeModuleConcurrently w moduleId).1.Sound := by
  obtain ⟨⟨ids, hmerged⟩, hconsistent⟩ := analyzeModuleConcurrently_consistent h.schemes h.consistent w moduleId
  exact h.of_merged hmerged hconsistent

theorem noteRoot (h : s.Sound) (root : ModuleId) (entry : LogEntry) : ({ s with root := some root }.note entry).Sound :=
  h.congr rfl rfl rfl rfl rfl

theorem finish (h : s.Sound) : s.finish.Sound :=
  h.congr rfl rfl rfl rfl rfl

/-- A depth-first analysis that returns has propagated in a sound session. -/
theorem exists_finish_of_analyze (h : s.Sound) {w : World} {path : String} {snap : Snapshot}
    (hok : s.analyze w path = (s', .ok snap)) : ∃ t : Session, t.Sound ∧ s' = t.finish := by
  obtain ⟨entry, t, names, hmodule, rfl, _⟩ := analyze_ok hok
  have hsound := (h.noteRoot (s.resolver.rootModule w.current path) entry).analyzeModule w
    (s.resolver.rootModule w.current path) []
  rw [hmodule] at hsound
  exact ⟨t.session, hsound, rfl⟩

/-- A depth-first analysis of a root file keeps a session sound. -/
theorem analyze (h : s.Sound) (w : World) (path : String) : (s.analyze w path).1.Sound := by
  cases hresult : s.analyze w path with
  | mk s' result =>
    cases result with
    | error fault =>
      obtain ⟨entry, t, hmodule, rfl⟩ := analyze_error hresult
      have hsound := (h.noteRoot (s.resolver.rootModule w.current path) entry).analyzeModule w
        (s.resolver.rootModule w.current path) []
      rw [hmodule] at hsound
      exact hsound
    | ok snap =>
      obtain ⟨t, hsound, rfl⟩ := h.exists_finish_of_analyze hresult
      exact hsound.finish

/-- A concurrent analysis that returns has propagated in a sound session. -/
theorem exists_finish_of_analyzeConcurrently (h : s.Sound) {w : World} {path : String} {snap : Snapshot}
    (hok : s.analyzeConcurrently w path = (s', .ok snap)) : ∃ t : Session, t.Sound ∧ s' = t.finish := by
  obtain ⟨entry, t, names, hmodule, rfl⟩ := analyzeConcurrently_ok hok
  have hsound := (h.noteRoot (s.resolver.rootModule w.current path) entry).analyzeModuleConcurrently w
    (s.resolver.rootModule w.current path)
  rw [hmodule] at hsound
  exact ⟨{ t with inFlight := [] }, hsound.congr rfl rfl rfl rfl rfl, rfl⟩

/-- A concurrent analysis of a root file keeps a session sound. -/
theorem analyzeConcurrently (h : s.Sound) (w : World) (path : String) : (s.analyzeConcurrently w path).1.Sound := by
  cases hresult : s.analyzeConcurrently w path with
  | mk s' result =>
    cases result with
    | error fault =>
      obtain ⟨entry, rfl | ⟨t, hmodule, rfl⟩⟩ := analyzeConcurrently_error hresult
      · exact h.noteRoot ..
      · have hsound := (h.noteRoot (s.resolver.rootModule w.current path) entry).analyzeModuleConcurrently w
          (s.resolver.rootModule w.current path)
        rw [hmodule] at hsound
        exact hsound.congr rfl rfl rfl rfl rfl
    | ok snap =>
      obtain ⟨t, hsound, rfl⟩ := h.exists_finish_of_analyzeConcurrently hresult
      exact hsound.finish

/-- Every session that is reachable is sound, by induction on the operations. -/
theorem of_reached {config : Config} {deno : String} (h : Reached config deno s) : s.Sound := by
  induction h with
  | start new => exact .start new
  | step _ w operation ih =>
    cases operation with
    | analyze path => exact ih.analyze w path
    | analyzeConcurrently path => exact ih.analyzeConcurrently w path
    | analyzeModule moduleId visiting => exact ih.analyzeModule w moduleId visiting
    | analyzeModuleConcurrently moduleId => exact ih.analyzeModuleConcurrently w moduleId

end Sound

/-- Propagation adds only callers and local names of imports: the seed together with these is closed. -/
theorem mem_seed_or_candidates {p : Program} {seed : List Name} {name : Name} (h : name ∈ (p.propagate seed).blocking) :
    name ∈ seed ∨ name ∈ p.candidates := by
  have hclosed : p.Closed {x | x ∈ seed ∨ x ∈ p.candidates} := by
    refine ⟨?_, ?_⟩
    · intro caller callee hcall _
      exact .inr (List.mem_append_left _ (Program.mem_callers_of_mem_edges hcall))
    · intro x localName ref himport _
      exact .inr (List.mem_append_right _ (List.mem_map.mpr ⟨_, himport, rfl⟩))
  exact Program.propagate_subset hclosed (fun x hx => .inl hx) name h

/-- Each blocking name of a sound session has a location or is the local name of an import. -/
theorem blocking_located_or_imported {s : Session} (h : s.Sound) {name : Name} (hname : name ∈ s.finish.blocking) :
    name ∈ s.finish.locations.keys ∨ ∃ x ref, (x, name, ref) ∈ s.finish.program.aliases.items := by
  have hblocking : name ∈ (s.program.propagate s.seed).blocking := hname
  have hlocated : name ∈ s.program.calls.callers → name ∈ s.finish.locations.keys := (h.consistent.located name).mpr
  rcases mem_seed_or_candidates hblocking with hseed | hcandidate
  · -- a direct blocking name is a caller
    obtain ⟨record, hrecord, hdirect⟩ := mem_seed_iff.mp hseed
    exact .inl (hlocated (h.consistent.direct _ record (h.wellFormed.mem_values_iff.mp hrecord) name hdirect))
  · rcases List.mem_append.mp hcandidate with hcaller | himported
    · -- a caller is located
      exact .inl (hlocated hcaller)
    · -- a local name of an import
      obtain ⟨⟨x, localName, ref⟩, hitem, rfl⟩ := List.mem_map.mp himported
      exact .inr ⟨x, ref, hitem⟩

/-- **The tables of a session agree**, whatever operations were performed in whatever worlds and whether they returned
or not. After an analysis that returns, each blocking name has a location or is the local name of an import. -/
theorem reached_consistent (config : Config) (deno : String) (s : Session) (h : Reached config deno s) :
    s.Consistent ∧ ∀ w path s' snap,
      s.analyze w path = (s', .ok snap) ∨ s.analyzeConcurrently w path = (s', .ok snap) →
      ∀ name ∈ s'.blocking, name ∈ s'.locations.keys ∨ ∃ x ref, (x, name, ref) ∈ s'.program.aliases.items := by
  have hsound := Sound.of_reached h
  refine ⟨hsound.consistent, ?_⟩
  rintro w path s' snap (hok | hok) name hname
  · obtain ⟨t, ht, rfl⟩ := hsound.exists_finish_of_analyze hok
    exact blocking_located_or_imported ht hname
  · obtain ⟨t, ht, rfl⟩ := hsound.exists_finish_of_analyzeConcurrently hok
    exact blocking_located_or_imported ht hname

/-- A session in which an analysis has not returned, and what a second one finds in it. -/
theorem reached_consistent_remote :
    ∃ s s' snap, Reached Sample.remoteConfig "deno" s ∧
      Sample.remoteSession.analyze Sample.danglingWorld "a.ts" = (s, .error (.badUrl .misplacedBrackets)) ∧
      s.Consistent ∧ s.analyzeConcurrently Sample.danglingWorld "a.ts" = (s', .ok snap) ∧ "f" ∈ s'.blocking ∧
      ("f" ∈ s'.locations.keys ∨ ∃ x ref, (x, "f", ref) ∈ s'.program.aliases.items) := by
  have hanalyze : Sample.remoteSession.analyze Sample.danglingWorld "a.ts" = (_, .error (.badUrl .misplacedBrackets)) :=
    Prod.ext rfl (by decide +kernel)
  have hreached : Reached Sample.remoteConfig "deno" (Sample.remoteSession.analyze Sample.danglingWorld "a.ts").1 :=
    .step (.start Sample.remoteStart_eq) Sample.danglingWorld (.analyze "a.ts")
  have hconcurrent : (Sample.remoteSession.analyze Sample.danglingWorld "a.ts").1.analyzeConcurrently
      Sample.danglingWorld "a.ts" = (_, .ok Sample.danglingSnapshot) := Prod.ext rfl (by decide +kernel)
  have hblocking : "f" ∈ ((Sample.remoteSession.analyze Sample.danglingWorld "a.ts").1.analyzeConcurrently
      Sample.danglingWorld "a.ts").1.blocking := by decide +kernel
  obtain ⟨hconsistent, hnames⟩ := reached_consistent _ _ _ hreached
  exact ⟨_, _, _, hreached, hanalyze, hconsistent, hconcurrent, hblocking,
    hnames _ _ _ _ (.inr hconcurrent) "f" hblocking⟩

end Session

end BlockingCalls
