import BlockingCalls.Proofs.LeastClosure
import BlockingCalls.Proofs.Session.Reach
import Mathlib.Data.List.Induction

/-!
# Sessions after an analysis

After an analysis of a fresh session has ended, all that propagation reads is a function of the codebase and the root: the
calls, the imports and the records are those of the reachable modules. `Complete` is this specification of a session,
independent of the traversal. Its consequences are stated once, table by table.

Where one local name is imported several times in a module, the last import counts (`LastBinding`).

## Results

* `Complete.mem_directBlocking`, `Complete.exportedName_eq`, `Complete.mem_imports`, `Complete.mem_seed` — the tables.
* `Complete.sameContent`  — two complete sessions of one codebase and root hold the same.
* `analyze_complete`      — a depth-first analysis that returns leaves a complete session.
-/

namespace BlockingCalls

open Session (View)

-- ---------------------------------------------------------------------------
-- The last import of a name
-- ---------------------------------------------------------------------------

/-- The last of the bindings of a name is to the given alias. -/
def LastBinding (bindings : List (Name × Alias)) (localName : Name) (ref : Alias) : Prop :=
  ∃ before after, bindings = before ++ (localName, ref) :: after ∧ ∀ b ∈ after, b.1 ≠ localName

theorem not_lastBinding_nil (localName : Name) (ref : Alias) : ¬ LastBinding [] localName ref := by
  rintro ⟨before, after, h, _⟩
  simp at h

/-- The last of more bindings is the added one, if it is of the same name, and the last of the others otherwise. -/
theorem lastBinding_concat {bindings : List (Name × Alias)} {b : Name × Alias} {localName : Name} {ref : Alias} :
    LastBinding (bindings ++ [b]) localName ref ↔
      if b.1 = localName then b.2 = ref else LastBinding bindings localName ref := by
  constructor
  · rintro ⟨before, after, h, hafter⟩
    rcases List.eq_nil_or_concat' after with rfl | ⟨init, last, rfl⟩
    · -- the added binding is the last of the name
      obtain ⟨_, hb⟩ := List.append_inj' h rfl
      cases hb
      simp
    · -- the added binding is one of those after the last of the name
      have hsplit : bindings ++ [b] = (before ++ (localName, ref) :: init) ++ [last] := by
        rw [h, List.append_assoc]
        rfl
      obtain ⟨rfl, hb⟩ := List.append_inj' hsplit rfl
      cases hb
      rw [if_neg (hafter b (by simp))]
      exact ⟨before, init, rfl, fun c hc => hafter c (by simp [hc])⟩
  · intro h
    split at h
    · rename_i hname
      exact ⟨bindings, [], by rw [← hname, ← h], by simp⟩
    · rename_i hname
      obtain ⟨before, after, rfl, hafter⟩ := h
      refine ⟨before, after ++ [b], by simp, ?_⟩
      intro c hc
      rcases List.mem_append.mp hc with hc | hc
      · exact hafter c hc
      · rw [List.mem_singleton.mp hc]
        exact hname

namespace Session

/-- The view of a module that nothing is known of. -/
def View.empty : View :=
  ⟨none, none, none⟩

/-- What a name stands for after bindings have been added to a view without any: what its last binding says. -/
theorem View.get?_bind_iff (bindings : List (Name × Alias)) (v : View) (hv : v.aliases = none) (localName : Name)
    (ref : Alias) :
    (v.bind bindings).aliases.bind (·.get? localName) = some ref ↔ LastBinding bindings localName ref := by
  induction bindings using List.reverseRecOn with
  | nil => simp [hv, not_lastBinding_nil]
  | append_singleton bindings b ih =>
    rw [lastBinding_concat, View.bind_append]
    have hput : ((v.bind bindings).bind [b]).aliases =
        some (((v.bind bindings).aliases.getD {}).put b.1 b.2) := rfl
    rw [hput, Option.bind_some, Table.get?_put]
    split
    · simp
    · rw [← ih]
      cases (v.bind bindings).aliases with
      | none => simp
      | some names => simp

end Session

namespace Codebase

/-- What a name is bound to comes from a module that is imported. -/
theorem imports_of_lastBinding {c : Codebase} {x : ModuleId} {p : Parsed} {localName : Name} {ref : Alias}
    (hp : c.find? x = some p) (h : LastBinding (c.bindingsOf p) localName ref) : c.Imports x ref.source := by
  obtain ⟨before, after, hsplit, _⟩ := h
  have hmem : (localName, ref) ∈ c.bindingsOf p := by simp [hsplit]
  exact ⟨p, hp, mem_bindings hmem⟩

end Codebase

namespace Session

-- ---------------------------------------------------------------------------
-- Complete sessions
-- ---------------------------------------------------------------------------

/-- What is reachable from the root has been read, each module once, merged and settled; nothing else is known. -/
structure Complete (c : Codebase) (mode : Mode) (root : ModuleId) (s : Session) : Prop where
  wellFormed : s.WellFormed
  nodup : s.reads.Nodup
  reads : ∀ x, x ∈ s.reads ↔ c.Reachable root x
  resolved : ∀ x, c.Reachable root x → ∀ p, c.find? x = some p → ∃ ts, c.targetsOf p = .ok ts
  inside : ∀ x, c.Reachable root x → s.view x = c.settled mode x .empty
  outside : ∀ x, ¬ c.Reachable root x → s.view x = .empty
  edges : ∀ e, e ∈ s.program.calls.edges ↔
    ∃ x, c.Reachable root x ∧ ∃ p, c.find? x = some p ∧ e ∈ (CallGraph.mk (c.summary p).calls).edges
  callers : ∀ f, f ∈ s.program.calls.callers ↔
    ∃ x, c.Reachable root x ∧ ∃ p, c.find? x = some p ∧ f ∈ (c.summary p).calls.keys

/-- A new session knows of no module. -/
structure Fresh (s : Session) : Prop where
  wellFormed : s.WellFormed
  views : ∀ x, s.view x = .empty
  calls : s.program.calls = {}
  locations : s.locations = {}
  reads : s.reads = []
  inFlight : s.inFlight = []

/-- A new session is fresh. -/
theorem fresh_start {config : Config} {deno : String} {s : Session} (h : start config deno = .ok s) : s.Fresh := by
  have hwell := wellFormed_start h
  unfold start at h
  cases hresolver : Resolver.ofConfig config with
  | error fault =>
    rw [hresolver] at h
    cases h
  | ok resolver =>
    rw [hresolver] at h
    cases h
    exact ⟨hwell, fun _ => rfl, rfl, rfl, rfl, rfl⟩

/-- A new session has the given configuration, and its reader the remote schemes of it. -/
theorem config_start {config : Config} {deno : String} {s : Session} (h : start config deno = .ok s) :
    s.resolver.config = config ∧ s.reader.remoteSchemes = config.remoteSchemes := by
  unfold start Resolver.ofConfig at h
  cases hrules : Ignore.rulesOf config.ignorePatterns with
  | error fault =>
    rw [hrules] at h
    cases h
  | ok ignore =>
    rw [hrules] at h
    cases h
    exact ⟨rfl, rfl⟩

/-- The seed of propagation holds what is recorded to block by itself. -/
theorem mem_seed_iff {s : Session} {name : Name} :
    name ∈ s.seed ↔ ∃ record ∈ s.program.modules.records.values, name ∈ record.directBlocking := by
  rw [seed, CallGraph.mem_foldl_insert, List.mem_flatMap]
  simp

namespace Complete

variable {c : Codebase} {mode mode' : Mode} {root : ModuleId} {s s' : Session}

/-- A fresh session is complete once what is reachable has been merged into it and settled. -/
theorem of_merged (hs : s.Fresh) (hmerged : Merged c mode s s' s'.reads) (hnodup : s'.reads.Nodup)
    (hreads : ∀ x, x ∈ s'.reads ↔ c.Reachable root x)
    (hresolved : ∀ x, c.Reachable root x → ∀ p, c.find? x = some p → ∃ ts, c.targetsOf p = .ok ts)
    (hinside : ∀ x, c.Reachable root x → s'.view x = c.settled mode x .empty)
    (houtside : ∀ x, ¬ c.Reachable root x → s'.view x = .empty) : Complete c mode root s' where
  wellFormed := hmerged.wellFormed hs.wellFormed
  nodup := hnodup
  reads := hreads
  resolved := hresolved
  inside := hinside
  outside := houtside
  edges e := by
    rw [hmerged.edges, hs.calls]
    simp [hreads, CallGraph.edges]
  callers f := by
    rw [hmerged.callers, hs.calls]
    simp [hreads, CallGraph.callers, Table.keys]

/-- The view of a module that was reached and parsed. -/
theorem view_of_parsed (h : Complete c mode root s) {x : ModuleId} {p : Parsed} (hx : c.Reachable root x)
    (hp : c.find? x = some p) :
    s.view x = View.bind (c.bindingsOf p)
      { View.empty with
        parsed := some p
        record := some
          { moduleId := x, progress := .done
            directBlocking := (c.summary p).directBlocking, exports := (c.summary p).exports } } := by
  obtain ⟨ts, hts⟩ := h.resolved x hx p hp
  rw [h.inside x hx, Codebase.settled_of_targets_ok (Codebase.parse_eq_ok_of_find? hp) hts]

/-- The view of a module that was reached and could not be parsed. -/
theorem view_of_failed (h : Complete c mode root s) {x : ModuleId} (hx : c.Reachable root x) (hp : c.find? x = none) :
    ∃ message, s.view x =
      { View.empty with record := some { moduleId := x, progress := .failed, error := some message } } := by
  obtain ⟨fault, hfault⟩ := @Codebase.parse_eq_error_of_find? c mode x hp
  exact ⟨fault.message, by rw [h.inside x hx, Codebase.settled_of_parse_error hfault]⟩

/-- The directly blocking names of a module in a complete session are those of its summary, if it is reachable. -/
theorem mem_directBlocking (h : Complete c mode root s) {x : ModuleId} {name : Name} :
    name ∈ s.directBlocking x ↔
      c.Reachable root x ∧ ∃ p, c.find? x = some p ∧ name ∈ (c.summary p).directBlocking := by
  rw [directBlocking_eq]
  -- a reachable module was parsed or has failed, and any other is unknown
  by_cases hx : c.Reachable root x
  · cases hp : c.find? x with
    | none =>
      obtain ⟨message, hview⟩ := h.view_of_failed hx hp
      simp [hview]
    | some p => simp [h.view_of_parsed hx hp, hx]
  · simp [h.outside x hx, View.empty, hx]

/-- The exported names of a reachable module are those of its summary. -/
theorem exportedName_eq (h : Complete c mode root s) {x : ModuleId} (hx : c.Reachable root x) (name : Name) :
    s.program.modules.exportedName x name =
      ((c.find? x).bind fun p => (c.summary p).exports.get? name).getD name := by
  have hview : s.program.modules.exportedName x name =
      ((s.view x).record.bind (·.exports.get? name)).getD name := rfl
  rw [hview]
  -- a module that has failed exports nothing
  cases hp : c.find? x with
  | none =>
    obtain ⟨message, hview⟩ := h.view_of_failed hx hp
    simp [hview]
  | some p => simp [h.view_of_parsed hx hp]

/-- Nothing is exported by a module that is not reachable. -/
theorem exportedName_of_not_reachable (h : Complete c mode root s) {x : ModuleId} (hx : ¬ c.Reachable root x)
    (name : Name) : s.program.modules.exportedName x name = name := by
  have hview : s.program.modules.exportedName x name =
      ((s.view x).record.bind (·.exports.get? name)).getD name := rfl
  simp [hview, h.outside x hx, View.empty]

/-- The aliases in a complete session are the last bindings of the reachable modules. -/
theorem mem_imports (h : Complete c mode root s) {x : ModuleId} {localName : Name} {ref : Alias} :
    (x, localName, ref) ∈ s.program.aliases.items ↔
      c.Reachable root x ∧ ∃ p, c.find? x = some p ∧ LastBinding (c.bindingsOf p) localName ref := by
  have hview : s.program.aliases.get? x localName = (s.view x).aliases.bind (·.get? localName) := rfl
  rw [Aliases.mem_items_iff_get? h.wellFormed.aliases, hview]
  by_cases hx : c.Reachable root x
  · cases hp : c.find? x with
    | none =>
      obtain ⟨message, hview⟩ := h.view_of_failed hx hp
      simp [hview, View.empty]
    | some p =>
      rw [h.view_of_parsed hx hp, View.get?_bind_iff _ _ rfl]
      simp [hx]
  · simp [h.outside x hx, View.empty, hx]

/-- The seed of propagation: what blocks by itself in some module. -/
theorem mem_seed (h : Complete c mode root s) {name : Name} :
    name ∈ s.seed ↔ ∃ x, c.Reachable root x ∧ ∃ p, c.find? x = some p ∧ name ∈ (c.summary p).directBlocking := by
  -- a record is found in the view of the module whose id it carries
  have hrecords : (∃ record ∈ s.program.modules.records.values, name ∈ record.directBlocking) ↔
      ∃ x, name ∈ s.directBlocking x := by
    simp only [directBlocking_eq]
    constructor
    · rintro ⟨record, hrecord, hname⟩
      refine ⟨record.moduleId, ?_⟩
      rw [h.wellFormed.mem_values_iff.mp hrecord]
      exact hname
    · rintro ⟨x, hname⟩
      cases hview : (s.view x).record with
      | none =>
        rw [hview] at hname
        cases hname
      | some record =>
        rw [hview] at hname
        exact ⟨record, mem_values_of_view hview, hname⟩
  rw [mem_seed_iff, hrecords]
  exact exists_congr fun x => h.mem_directBlocking

/-- Two analyses of one codebase from one root leave the same content behind, whichever way they took. -/
theorem sameContent (h : Complete c mode root s) (h' : Complete c mode' root s') :
    s.program.SameContent s'.program where
  calls e := (h.edges e).trans (h'.edges e).symm
  imports i := h.mem_imports.trans h'.mem_imports.symm
  exported x name := by
    by_cases hx : c.Reachable root x
    · rw [h.exportedName_eq hx, h'.exportedName_eq hx]
    · rw [h.exportedName_of_not_reachable hx, h'.exportedName_of_not_reachable hx]
  direct x name := h.mem_directBlocking.trans h'.mem_directBlocking.symm

end Complete

-- ---------------------------------------------------------------------------
-- A depth-first analysis
-- ---------------------------------------------------------------------------

/-- An analysis that returns has analysed its root and computed the blocking names. -/
theorem analyze_ok {s s' : Session} {w : World} {path : String} {snap : Snapshot}
    (h : s.analyze w path = (s', .ok snap)) :
    ∃ entry t names,
      ({ s with root := some (s.resolver.rootModule w.current path) }.note entry).analyzeModule w
        (s.resolver.rootModule w.current path) [] = (t, .ok names) ∧
      s' = t.session.finish ∧ snap = t.session.finish.snapshot := by
  unfold analyze at h
  simp only at h
  split at h
  · cases h
  · rename_i t names heq
    cases h
    exact ⟨_, t, names, heq, rfl, rfl⟩

/-- A depth-first analysis that does not return has the result of the analysis of its root. -/
theorem analyze_error {s s' : Session} {w : World} {path : String} {fault : Fault}
    (h : s.analyze w path = (s', .error fault)) :
    ∃ entry t,
      ({ s with root := some (s.resolver.rootModule w.current path) }.note entry).analyzeModule w
        (s.resolver.rootModule w.current path) [] = (t, .error fault) ∧ s' = t.session := by
  unfold analyze at h
  simp only at h
  split at h
  · rename_i t cause heq
    cases h
    exact ⟨_, t, heq, rfl⟩
  · cases h

/-- A depth-first analysis of a fresh session that returns leaves it complete. -/
theorem analyzeModule_complete {s : Session} (hs : s.Fresh) {w : World} {moduleId : ModuleId} {t : Traversal}
    {names : List Name} (h : s.analyzeModule w moduleId [] = (t, .ok names)) :
    Complete (s.codebase w) .waiting moduleId t.session ∧ t.session.root = s.root := by
  obtain ⟨ids, hentered, hids⟩ := analyzeModule_entered h
  have hent := hentered moduleId
  -- on a fresh session there is nothing to stop at
  have hstop : (fun y => y ∈ ([] : List ModuleId) ∨ s.isFinished y = true) = fun _ => False := by
    funext y
    simp [isFinished_eq, hs.views, View.empty, View.isFinished]
  have hmem : ∀ x, x ∈ ids ↔ (s.codebase w).Reachable moduleId x := by
    intro x
    rw [hids, hstop, Codebase.Reachable]
  have hreads : t.session.reads = ids := by rw [hent.merged.reads, hs.reads, List.nil_append]
  rw [← hreads] at hent hmem
  refine ⟨.of_merged hs hent.merged hent.nodup hmem ?_ ?_ ?_, hent.merged.root⟩
  · intro x hx
    exact hent.resolved x ((hmem x).mpr hx)
  · intro x hx
    rw [hent.inside x ((hmem x).mpr hx), hs.views]
  · intro x hx
    rw [hent.view_of_not_mem fun hin => hx ((hmem x).mp hin), hs.views]

/-- A new session in which a root is noted is as good as new. -/
theorem Fresh.noteRoot {s : Session} (h : s.Fresh) (root : ModuleId) (entry : LogEntry) :
    ({ s with root := some root }.note entry).Fresh where
  wellFormed := ⟨h.wellFormed.records, h.wellFormed.owners, h.wellFormed.aliases⟩
  views := h.views
  calls := h.calls
  locations := h.locations
  reads := h.reads
  inFlight := h.inFlight

/-- A name is blocking after `finish` iff propagation has reached it. -/
theorem isBlocking_finish (s : Session) (name : Name) :
    s.finish.isBlocking name = true ↔ name ∈ (s.program.propagate s.seed).blocking := by
  simp [isBlocking, blocking, finish, note]

end Session

end BlockingCalls
