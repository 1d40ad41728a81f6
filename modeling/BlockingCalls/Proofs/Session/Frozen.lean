import BlockingCalls.Proofs.Session.Held
import BlockingCalls.Proofs.Session.Modes

/-!
# Finished modules are frozen

A session may be used for any number of analyses, of any roots, in either mode, while files are replaced between them. As
long as every one of them returns, a module is read at most once and its view is constant from the moment it is finished:
neither a later analysis changes it nor the remainder of the one that has finished it.

The property holds of every single update of the session (`Advances`). A depth-first analysis takes up a module only if it
is neither being visited nor finished, and all that was read is one or the other (`Traversal.Guarded`); the module whose
imports it follows is being visited until they all have been. For concurrent analyses it is shown in `Held`. Between two
analyses the session is *at rest*: what was read is finished, and no record is left open. So `Guarded` holds initially in
the next one.

## Results

* `enter_advances`, `analyzeModuleConcurrently_advances`  — an analysis advances the session.
* `AtRest.answered`                                       — a call that returns leaves the session at rest.
* `answer_of_finished`                                    — a root that is finished is not analysed again.
* `finished_modules_frozen`                               — all of it, for any sequence of calls that return.
-/

namespace BlockingCalls

open Session (View Merged Loaded Advances advance_aside advance_markVisiting advance_load advance_link advance_markDone)

-- ---------------------------------------------------------------------------
-- Depth-first analyses
-- ---------------------------------------------------------------------------

namespace Traversal

/-- What was read so far is being visited or finished. -/
def Guarded (t : Traversal) : Prop :=
  ∀ y ∈ t.session.reads, t.Stops y

variable {c : Codebase} {w : World} {t t' : Traversal} {x : ModuleId}

/-- What was entered was read and is stopped at. -/
theorem Entered.guarded {owner : ModuleId} {bindings : List (Name × Alias)} {ids : List ModuleId}
    (h : Entered c owner bindings t t' ids) (ht : t.Guarded) : t'.Guarded := by
  intro y hy
  rw [h.merged.reads, List.mem_append] at hy
  exact (h.stops_iff y).mpr (hy.imp (ht y) id)

/-- The module whose imports are followed is not finished before they all have been. -/
theorem Entered.isFinished_owner {owner : ModuleId} {bindings : List (Name × Alias)} {ids : List ModuleId}
    (h : Entered c owner bindings t t' ids) (howner : owner ∈ t.visiting) :
    t'.session.isFinished owner = t.session.isFinished owner := by
  have hnot : owner ∉ ids := fun hmem => h.fresh owner hmem (.inl howner)
  rw [Session.isFinished_eq, Session.isFinished_eq, h.outside owner hnot, if_pos rfl]
  rfl

/-- Following imports advances the session, if entering a module does. -/
theorem follow_advances {enter : Traversal → ModuleId → Traversal × Except Fault (List Name)}
    (henters : ∀ t x t' names, t.session.codebase w = c → enter t x = (t', .ok names) → Enters c t t' x)
    (hadvances : ∀ t x, t.session.codebase w = c → t.Guarded → Advances t.session (enter t x).1.session)
    (m : Loaded) (imports : List ImportDeclaration) (hc : t.session.codebase w = c)
    (howner : m.summary.moduleId ∈ t.visiting) (hopen : t.session.isFinished m.summary.moduleId = false)
    (hguarded : t.Guarded) : Advances t.session (follow enter m t imports).1.session := by
  induction imports generalizing t with
  | nil => exact .refl
  | cons d rest ih =>
    have hlinked := entered_link hc m d
    have hlink := advance_link hopen d
    have hc₁ := (hlinked.merged.codebase w).trans hc
    have hopen₁ := (hlinked.isFinished_owner howner).trans hopen
    rw [follow]
    rcases Session.link_cases t.session m d with ⟨fault, _, heq⟩ | ⟨reason, _, heq⟩ | ⟨target, isRemote, _, heq⟩
    · rw [heq]
    · rw [heq]
      exact .head hlink (ih hc₁ howner hopen₁ (hlinked.guarded hguarded))
    · rw [heq]
      simp only
      have hcall := hadvances _ target hc₁ (hlinked.guarded hguarded)
      split
      · -- the call has failed, and the rest is not followed
        rename_i t₂ fault hresult
        rw [hresult] at hcall
        exact .head hlink hcall
      · -- the call has returned: the owner is still open, and the induction hypothesis applies to the rest
        rename_i t₂ names hresult
        rw [hresult] at hcall
        obtain ⟨ids, hentered, _, _⟩ := henters _ _ _ _ hc₁ hresult
        have howner₂ : m.summary.moduleId ∈ t₂.visiting := ((hentered m.summary.moduleId).visiting _).mpr (.inl howner)
        have hopen₂ := ((hentered m.summary.moduleId).isFinished_owner howner).trans hopen₁
        have hguarded₂ := (hentered m.summary.moduleId).guarded (hlinked.guarded hguarded)
        have hc₂ := ((hentered m.summary.moduleId).merged.codebase w).trans hc₁
        exact .head hlink (hcall.trans (ih hc₂ howner₂ hopen₂ hguarded₂))

/-- A module that is taken up is neither finished nor read before, so that it can be loaded. -/
theorem loading_advances (hgo : ¬ t.Stops x) (hguarded : t.Guarded) : Advances t.session (t.loading w x).session := by
  have hopen : t.session.isFinished x = false := by
    rw [← Bool.not_eq_true]
    exact fun hfinished => hgo (.inr hfinished)
  have hunread : x ∉ (t.begin x).session.reads := fun hread => hgo (hguarded x hread)
  have hload := advance_load (Session.isFinished_markVisiting t.session x) hunread .waiting w
  exact .tail (.single (advance_markVisiting hopen)) hload

theorem loading_guarded (hc : t.session.codebase w = c) (hguarded : t.Guarded) : (t.loading w x).Guarded := by
  intro y hy
  rw [(merged_loading hc x).reads, List.mem_append, List.mem_singleton] at hy
  exact (stops_loading hc x y).mpr (hy.imp (hguarded y) id)

/-- **An entry advances the session**, whether it returns or not. By induction on the depth. -/
theorem enter_advances (depth : Nat) (t : Traversal) (x : ModuleId) (hc : t.session.codebase w = c)
    (hguarded : t.Guarded) : Advances t.session (enter w depth t x).1.session := by
  induction depth generalizing t x with
  | zero => exact .refl
  | succ depth ih =>
    rw [enter]
    split
    · -- the traversal stops at the module, and only logs a line
      exact .single (advance_aside rfl rfl rfl rfl rfl)
    · rename_i hgo
      rw [stops_iff_contains] at hgo
      have hloading := @loading_advances w t x hgo hguarded
      have hmerged := merged_loading hc x
      cases hp : c.parse .waiting x with
      | error fault =>
        -- the module has failed, which loading has recorded
        simp only [load_begin_of_error hc x hp]
        exact hloading
      | ok p =>
        have hid : (c.summary p).moduleId = x := Codebase.moduleId_summary hp
        have hvisiting : (c.summary p).moduleId ∈ (t.loading w x).visiting := by simp [hid, loading, begin]
        have hsome : ((t.begin x).session.load .waiting w x).2 = some ⟨p.location, c.summary p⟩ := by
          rw [load_begin_of_ok hc x hp]
        have hopen : (t.loading w x).session.isFinished (c.summary p).moduleId = false := by
          rw [hid]
          exact Session.isFinished_load (Session.isFinished_markVisiting t.session x) hsome
        have hc₁ := (hmerged.codebase w).trans hc
        have henters := @enter_entered c w depth
        have hfollow := follow_advances henters ih ⟨p.location, c.summary p⟩ (c.summary p).imports hc₁ hvisiting hopen
          (loading_guarded hc hguarded)
        -- whatever following the imports returns, it has advanced the session
        have hends : ∀ t₁ result, follow (enter w depth) ⟨p.location, c.summary p⟩ (t.loading w x)
            (c.summary p).imports = (t₁, result) → Advances (t.loading w x).session t₁.session := by
          intro t₁ result hresult
          rwa [hresult] at hfollow
        simp only [load_begin_of_ok hc x hp]
        split
        · rename_i t₁ fault hresult
          exact hloading.trans (hends t₁ _ hresult)
        · rename_i t₁ hresult
          -- only now is the module finished
          obtain ⟨ids, ts, _, hentered, _⟩ := follow_entered henters ⟨p.location, c.summary p⟩ _ _ t₁ hc₁ hvisiting hresult
          have hopen₁ := (hentered.isFinished_owner hvisiting).trans hopen
          simp only [hid] at hopen₁
          exact (hloading.trans (hends t₁ _ hresult)).tail (advance_markDone hopen₁)

/-- Following imports leaves what is in flight unchanged, if entering a module does. -/
theorem inFlight_follow {enter : Traversal → ModuleId → Traversal × Except Fault (List Name)}
    (henter : ∀ t x, (enter t x).1.session.inFlight = t.session.inFlight) (m : Loaded) (imports : List ImportDeclaration)
    (t : Traversal) : (follow enter m t imports).1.session.inFlight = t.session.inFlight := by
  induction imports generalizing t with
  | nil => rfl
  | cons d rest ih =>
    have hlink := Session.inFlight_link t.session m d
    rw [follow]
    split
    · rename_i s fault hresult
      rwa [hresult] at hlink
    · rename_i s hresult
      rw [hresult] at hlink
      exact (ih _).trans hlink
    · rename_i s target hresult
      rw [hresult] at hlink
      have hcall := henter { t with session := s } target
      split
      · rename_i t₁ fault hcalled
        rw [hcalled] at hcall
        exact hcall.trans hlink
      · rename_i t₁ names hcalled
        rw [hcalled] at hcall
        exact (ih t₁).trans (hcall.trans hlink)

/-- An entry leaves what concurrent analyses have in flight unchanged. -/
theorem inFlight_enter (depth : Nat) (t : Traversal) (x : ModuleId) :
    (enter w depth t x).1.session.inFlight = t.session.inFlight := by
  induction depth generalizing t x with
  | zero => rfl
  | succ depth ih =>
    have hload := Session.inFlight_load (t.begin x).session .waiting w x
    rw [enter]
    split
    · rfl
    · simp only
      split
      · rename_i s hresult
        rwa [hresult] at hload
      · rename_i s m hresult
        rw [hresult] at hload
        have hfollow := inFlight_follow ih m m.summary.imports { t.begin x with session := s }
        split
        · rename_i t₁ fault hfollowed
          rw [hfollowed] at hfollow
          exact hfollow.trans hload
        · rename_i t₁ hfollowed
          rw [hfollowed] at hfollow
          exact hfollow.trans hload

end Traversal

/-- A settled module is finished, as done or as failed. -/
theorem Codebase.isFinished_settled (c : Codebase) (mode : Mode) (x : ModuleId) (v : View) :
    (c.settled mode x v).isFinished = true := by
  cases hp : c.parse mode x with
  | error fault => rw [settled_of_parse_error hp]; rfl
  | ok p =>
    cases hts : c.targetsOf p with
    | error fault => rw [settled_of_dangling ⟨p, find?_eq_some_of_parse hp, hts⟩]; rfl
    | ok ts => rw [settled_of_targets_ok hp hts]; rfl

namespace Session

/-- A concurrent analysis advances the session, if nothing is in flight when it begins and what was read is finished. -/
theorem analyzeModuleConcurrently_advances {s : Session} (hinFlight : s.inFlight = [])
    (hfinished : ∀ x ∈ s.reads, s.isFinished x = true) (hcapacity : 0 ≤ s.config.maxConcurrency) (w : World)
    (root : ModuleId) : Advances s (s.analyzeModuleConcurrently w root).1 := by
  have hrests : (Loop.initial s root 1).Rests { session := s, queue := [.start root none] } :=
    ⟨rfl, Nat.one_pos, rfl, rfl, rfl, by simp [hinFlight]⟩
  obtain ⟨l, hreaches, hend⟩ := Loop.run_reaches w (turnBound w) hrests hcapacity
  have hadvances := Loop.advances_of_reaches hinFlight hfinished hreaches.reaches
  rwa [hend.pool] at hadvances

-- ---------------------------------------------------------------------------
-- Calls
-- ---------------------------------------------------------------------------

/-- An analysis of a root file, in a mode and in the world as it is then. -/
structure Call where
  mode : Mode
  world : World
  path : String

/-- The analysis that a call asks for. -/
def answer (s : Session) (call : Call) : Session × Except Fault Snapshot :=
  match call.mode with
  | .waiting => s.analyze call.world call.path
  | .concurrent => s.analyzeConcurrently call.world call.path

/-- The session has answered the calls one after the other, and every one of them has returned. -/
inductive Runs : Session → List Call → Session → Prop
  | nil (s : Session) : Runs s [] s
  | cons {s s' s'' : Session} {call : Call} {calls : List Call} {snap : Snapshot}
      (first : s.answer call = (s', .ok snap)) (rest : Runs s' calls s'') : Runs s (call :: calls) s''

/-- The module that a call is about. -/
def rootOf (s : Session) (call : Call) : ModuleId :=
  s.resolver.rootModule call.world.current call.path

/-- What a path means depends on the working directory and on nothing else of the world. -/
theorem rootOf_eq {s s' : Session} (hresolver : s'.resolver = s.resolver) (call : Call) {w : World}
    (hcurrent : w.current = call.world.current) : s'.rootOf { call with world := w } = s.rootOf call := by
  show s'.resolver.rootModule w.current call.path = s.resolver.rootModule call.world.current call.path
  rw [hresolver, hcurrent]

/-- No analysis is under way: what was read was read once and is finished, no record is open, nothing is in flight. -/
structure AtRest (s : Session) : Prop where
  schemes : s.reader.remoteSchemes = s.resolver.config.remoteSchemes
  inFlight : s.inFlight = []
  reads : s.reads.Nodup
  finished : ∀ x ∈ s.reads, s.isFinished x = true
  recorded : ∀ x record, (s.view x).record = some record → record.progress ≠ .visiting

/-- A new session is at rest. -/
theorem atRest_start {config : Config} {deno : String} {s : Session} (h : start config deno = .ok s) : s.AtRest := by
  have hfresh := fresh_start h
  obtain ⟨hconfig, hreader⟩ := config_start h
  refine ⟨by rw [hconfig, hreader], hfresh.inFlight, ?_, ?_, ?_⟩
  · rw [hfresh.reads]
    exact List.nodup_nil
  · intro x hx
    rw [hfresh.reads] at hx
    cases hx
  · intro x record hrecord
    rw [hfresh.views] at hrecord
    cases hrecord

/-- What an analysis of a module that returns does to a session: it advances it, and settles what it reads. -/
structure Analyses (c : Codebase) (mode : Mode) (root : ModuleId) (s s' : Session) (ids : List ModuleId) : Prop where
  merged : Merged c mode s s' ids
  advances : Advances s s'
  inside : ∀ x ∈ ids, s'.view x = c.settled mode x (s.view x)
  outside : ∀ x, x ∉ ids → s'.view x = s.view x
  root : root ∈ ids ∨ s.isFinished root = true

/-- A session at rest in which a module is analysed is at rest again. -/
theorem AtRest.of_analyses {c : Codebase} {mode : Mode} {root : ModuleId} {s s' : Session} {ids : List ModuleId}
    (h : s.AtRest) (hanalyses : Analyses c mode root s s' ids) (hinFlight : s'.inFlight = []) : s'.AtRest := by
  have hinside : ∀ x ∈ ids, s'.isFinished x = true := by
    intro x hx
    rw [isFinished_eq, hanalyses.inside x hx]
    exact c.isFinished_settled mode x _
  refine ⟨?_, hinFlight, hanalyses.advances.nodup_reads h.reads, ?_, ?_⟩
  · -- the configuration is unchanged
    rw [hanalyses.merged.reader, hanalyses.merged.resolver, h.schemes]
  · -- what was read before stays finished; what was read now is settled
    intro x hx
    rw [hanalyses.merged.reads, List.mem_append] at hx
    rcases hx with hx | hx
    · exact hanalyses.advances.frozen.isFinished (h.finished x hx)
    · exact hinside x hx
  · -- an open record would belong to a module that was not read, and was open before
    intro x record hrecord
    by_cases hx : x ∈ ids
    · intro hvisiting
      have hfinished := hinside x hx
      rw [isFinished_eq, View.isFinished, hrecord, Option.any_some, hvisiting] at hfinished
      cases hfinished
    · rw [hanalyses.outside x hx] at hrecord
      exact h.recorded x record hrecord

/-- Being at rest does not depend on the root, on the log or on what was computed from the tables. -/
theorem AtRest.congr {s s' : Session} (h : s.AtRest) (hresolver : s'.resolver = s.resolver)
    (hreader : s'.reader = s.reader) (hprogram : s'.program = s.program) (hinFlight : s'.inFlight = s.inFlight)
    (hreads : s'.reads = s.reads) : s'.AtRest := by
  obtain ⟨resolver, reader, program, locations, parsed, inFlight, root, propagation, reads, requests, log⟩ := s'
  cases hresolver
  cases hreader
  cases hprogram
  cases hinFlight
  cases hreads
  exact ⟨h.schemes, h.inFlight, h.reads, h.finished, h.recorded⟩

/-- A depth-first analysis on a session at rest. -/
theorem analyzeModule_analyses {s : Session} (hs : s.AtRest) {w : World} {root : ModuleId} {t : Traversal}
    {names : List Name} (h : s.analyzeModule w root [] = (t, .ok names)) :
    ∃ ids, Analyses (s.codebase w) .waiting root s t.session ids ∧ t.session.inFlight = [] := by
  obtain ⟨ids, hentered, hids⟩ := analyzeModule_entered h
  have hguarded : Traversal.Guarded { session := s, visiting := [] } := fun y hy => .inr (hs.finished y hy)
  have hadvances := @Traversal.enter_advances _ w (w.moduleBound + 1) { session := s, visiting := [] } root rfl hguarded
  have hinFlight := @Traversal.inFlight_enter w (w.moduleBound + 1) { session := s, visiting := [] } root
  unfold analyzeModule at h
  rw [h] at hadvances hinFlight
  refine ⟨ids, ⟨(hentered root).merged, hadvances, (hentered root).inside, ?_, ?_⟩, hinFlight.trans hs.inFlight⟩
  · exact fun x hx => (hentered root).view_of_not_mem hx
  · by_cases hfinished : s.isFinished root = true
    · exact .inr hfinished
    · refine .inl ((hids root).mpr (.root ?_))
      simp [hfinished]

/-- A concurrent analysis on a session at rest. -/
theorem analyzeModuleConcurrently_analyses {s : Session} (hs : s.AtRest) {w : World} {root : ModuleId} {t : Session}
    {names : List Name} (hcapacity : 0 ≤ s.config.maxConcurrency)
    (h : s.analyzeModuleConcurrently w root = (t, .ok names)) :
    ∃ ids, Analyses (s.codebase w) .concurrent root s t ids := by
  obtain ⟨ids, hended⟩ := analyzeModuleConcurrently_ended s w root hs.schemes hcapacity
  have hadvances := analyzeModuleConcurrently_advances hs.inFlight hs.finished hcapacity w root
  rw [h] at hended hadvances
  refine ⟨ids, hended.merged, hadvances, ?_, hended.outside, ?_⟩
  · exact fun x hx => (hended.inside x hx).resolve_right fun ⟨_, _, herror⟩ => by cases herror
  · by_cases hfinished : s.isFinished root = true
    · exact .inr hfinished
    · refine .inl ((hended.mem_iff root).mpr (.root ?_))
      simp [Pool.Stops, hs.inFlight, hfinished]

-- ---------------------------------------------------------------------------
-- Calls that return
-- ---------------------------------------------------------------------------

/-- A concurrent analysis returns only where the number of permits is not negative. -/
theorem capacity_of_analyzeConcurrently {s s' : Session} {w : World} {path : String} {snap : Snapshot}
    (h : s.analyzeConcurrently w path = (s', .ok snap)) : 0 ≤ s.config.maxConcurrency ∧ snap = s'.snapshot := by
  unfold analyzeConcurrently at h
  simp only at h
  split at h
  · cases h
  · rename_i hcapacity
    split at h
    · cases h
    · cases h
      exact ⟨Int.not_lt.mp hcapacity, rfl⟩

/-- A call returns a snapshot of the session that it leaves behind. -/
theorem snapshot_of_answer {s s' : Session} {call : Call} {snap : Snapshot} (h : s.answer call = (s', .ok snap)) :
    s'.snapshot = snap := by
  obtain ⟨mode, w, path⟩ := call
  cases mode with
  | waiting =>
    obtain ⟨entry, t, names, _, rfl, rfl⟩ := analyze_ok h
    rfl
  | concurrent => exact (capacity_of_analyzeConcurrently h).2.symm

/-- What a call that returns leaves behind. -/
structure Answered (s : Session) (call : Call) (s' : Session) (snap : Snapshot) : Prop where
  advances : Advances s s'
  atRest : s'.AtRest
  resolver : s'.resolver = s.resolver
  finished : s'.isFinished (s.rootOf call) = true
  capacity : call.mode = .concurrent → 0 ≤ s.config.maxConcurrency
  root : s'.root = some (s.rootOf call)
  propagation : s'.propagation = some (s'.program.propagate s'.seed)
  snapshot : snap = s'.snapshot

/-- A call sets the root and logs a line, analyses the root, and then empties what is in flight and propagates. The
steps around the analysis touch no module. -/
theorem AtRest.answered_of_analyses {s t : Session} (hs : s.AtRest) {call : Call} {c : Codebase} {ids : List ModuleId}
    {entry : LogEntry}
    (h : Analyses c call.mode (s.rootOf call) ({ s with root := some (s.rootOf call) }.note entry) t ids)
    (hcapacity : call.mode = .concurrent → 0 ≤ s.config.maxConcurrency) :
    Answered s call { t with inFlight := [] }.finish { t with inFlight := [] }.finish.snapshot := by
  have hnoted : AtRest ({ s with root := some (s.rootOf call) }.note entry) := hs.congr rfl rfl rfl rfl rfl
  have hbefore : Advance s ({ s with root := some (s.rootOf call) }.note entry) := advance_aside rfl rfl rfl rfl rfl
  have hafter : Advance t { t with inFlight := [] }.finish := advance_aside rfl rfl rfl rfl rfl
  have hend : Analyses c call.mode (s.rootOf call) ({ s with root := some (s.rootOf call) }.note entry)
      { t with inFlight := [] }.finish ids := by
    have hfinish : Merged c call.mode t { t with inFlight := [] }.finish [] :=
      .of_eq rfl rfl rfl rfl rfl rfl rfl fun hwell => ⟨hwell.records, hwell.owners, hwell.aliases⟩
    have hmerged := h.merged.trans hfinish
    rw [List.append_nil] at hmerged
    exact ⟨hmerged, h.advances.tail hafter, h.inside, h.outside, h.root⟩
  have hfinished : { t with inFlight := [] }.finish.isFinished (s.rootOf call) = true := by
    rcases hend.root with hmem | hfinished
    · rw [isFinished_eq, hend.inside _ hmem]
      exact c.isFinished_settled ..
    · exact hend.advances.frozen.isFinished hfinished
  exact ⟨.head hbefore hend.advances, hnoted.of_analyses hend rfl, hend.merged.resolver, hfinished, hcapacity,
    hend.merged.root, rfl, rfl⟩

/-- A call that returns advances the session and leaves it at rest, with its root finished. -/
theorem AtRest.answered {s s' : Session} (hs : s.AtRest) {call : Call} {snap : Snapshot}
    (h : s.answer call = (s', .ok snap)) : Answered s call s' snap := by
  obtain ⟨mode, w, path⟩ := call
  have hnoted : ∀ entry, AtRest ({ s with root := some (s.resolver.rootModule w.current path) }.note entry) :=
    fun entry => hs.congr rfl rfl rfl rfl rfl
  cases mode with
  | waiting =>
    obtain ⟨entry, t, names, hmodule, rfl, rfl⟩ := analyze_ok h
    obtain ⟨ids, hanalyses, hinFlight⟩ := analyzeModule_analyses (hnoted entry) hmodule
    have hsame : { t.session with inFlight := [] } = t.session := by rw [← hinFlight]
    have hanswered := @answered_of_analyses s t.session hs ⟨.waiting, w, path⟩ _ ids entry hanalyses nofun
    rwa [hsame] at hanswered
  | concurrent =>
    have hresult : s.analyzeConcurrently w path = (s', .ok snap) := h
    obtain ⟨hcapacity, rfl⟩ := capacity_of_analyzeConcurrently hresult
    obtain ⟨entry, t, names, hmodule, rfl⟩ := analyzeConcurrently_ok hresult
    obtain ⟨ids, hanalyses⟩ := analyzeModuleConcurrently_analyses (hnoted entry) hcapacity hmodule
    exact @answered_of_analyses s t hs ⟨.concurrent, w, path⟩ _ ids entry hanalyses fun _ => hcapacity

-- ---------------------------------------------------------------------------
-- Calls that are repeated
-- ---------------------------------------------------------------------------

/-- An analysis returns where the analysis of its root does. -/
theorem analyze_of_ok (s : Session) (w : World) (path : String) :
    ∃ entry, ∀ t names,
      ({ s with root := some (s.resolver.rootModule w.current path) }.note entry).analyzeModule w
        (s.resolver.rootModule w.current path) [] = (t, .ok names) →
      s.analyze w path = (t.session.finish, .ok t.session.finish.snapshot) := by
  refine ⟨.info ("[Session] Analyzing " ++ s.resolver.rootModule w.current path), fun t names h => ?_⟩
  unfold analyze
  simp only [h]

/-- A depth-first analysis of a finished module logs a line and returns. -/
theorem analyzeModule_of_finished {s : Session} {root : ModuleId} (h : s.isFinished root = true) (w : World) :
    ∃ entry names, s.analyzeModule w root [] = ({ session := s.note entry }, .ok names) := by
  unfold analyzeModule
  rw [Traversal.enter, if_pos (by simp [h])]
  exact ⟨_, _, rfl⟩

/-- A concurrent analysis of a finished module returns in its first turn. -/
theorem analyzeModuleConcurrently_of_finished {s : Session} {root : ModuleId} (h : s.isFinished root = true) (w : World) :
    ∃ names, s.analyzeModuleConcurrently w root = (s, .ok names) := by
  -- the one task of the pool finds its module finished and delivers the result
  have hstart : Pool.startTask w { session := s } root none =
      { session := s, result := some (.ok (s.directBlocking root)) } := by
    simp only [Pool.startTask, h, Bool.or_true, if_true]
    rfl
  refine ⟨s.directBlocking root, ?_⟩
  unfold analyzeModuleConcurrently
  rw [Pool.run_of_startTask hstart]
  rfl

/-- A snapshot is a function of the tables and of the root. -/
theorem snapshot_finish {s t : Session} {root : ModuleId} (hprogram : t.program = s.program) (hroot : t.root = some root)
    (hpropagation : s.propagation = some (s.program.propagate s.seed)) :
    t.finish.snapshot = { s.snapshot with root } := by
  have hseed : t.seed = s.seed := by rw [seed, seed, hprogram]
  have hblocking : t.finish.blocking = s.blocking := by
    show (t.program.propagate t.seed).blocking = _
    rw [hprogram, hseed, blocking, hpropagation]
    rfl
  unfold snapshot
  rw [hblocking]
  show Snapshot.mk (t.root.getD "") _ (t.program.modules.records.values.map _) t.program.calls t.program.modules.failed = _
  rw [hroot, hprogram]
  rfl

/-- A call whose root is finished reads nothing, requests nothing of the world, and returns a snapshot of the tables as
they are. -/
theorem answer_of_finished {s : Session} {call : Call} (hroot : s.isFinished (s.rootOf call) = true)
    (hcapacity : call.mode = .concurrent → 0 ≤ s.config.maxConcurrency)
    (hpropagation : s.propagation = some (s.program.propagate s.seed)) :
    ∃ t, s.answer call = (t, .ok { s.snapshot with root := s.rootOf call }) ∧ t.reads = s.reads ∧
      t.requests = s.requests := by
  obtain ⟨mode, w, path⟩ := call
  cases mode with
  | waiting =>
    obtain ⟨entry, hreturns⟩ := s.analyze_of_ok w path
    obtain ⟨entry', names, hmodule⟩ := @analyzeModule_of_finished
      ({ s with root := some (s.resolver.rootModule w.current path) }.note entry) _ hroot w
    refine ⟨_, (hreturns _ names hmodule).trans (Prod.ext rfl (congrArg Except.ok ?_)), rfl, rfl⟩
    exact snapshot_finish rfl rfl hpropagation
  | concurrent =>
    obtain ⟨entry, hreturns⟩ := s.analyzeConcurrently_of_ok w path (hcapacity rfl)
    obtain ⟨names, hmodule⟩ := @analyzeModuleConcurrently_of_finished
      ({ s with root := some (s.resolver.rootModule w.current path) }.note entry) _ hroot w
    refine ⟨_, (hreturns _ names hmodule).trans (Prod.ext rfl (congrArg Except.ok ?_)), rfl, rfl⟩
    exact snapshot_finish rfl rfl hpropagation

-- ---------------------------------------------------------------------------
-- Histories
-- ---------------------------------------------------------------------------

/-- What a sequence of calls that have all returned leaves behind. -/
structure History (s : Session) (calls : List Call) (s' : Session) : Prop where
  advances : Advances s s'
  atRest : s'.AtRest
  resolver : s'.resolver = s.resolver
  finished : ∀ call ∈ calls, s'.isFinished (s.rootOf call) = true
  capacity : ∀ call ∈ calls, call.mode = .concurrent → 0 ≤ s.config.maxConcurrency
  propagation : calls ≠ [] → s'.propagation = some (s'.program.propagate s'.seed)

/-- By induction on the calls: each leaves the session at rest, so that the next can begin. -/
theorem AtRest.history {s s' : Session} (hs : s.AtRest) {calls : List Call} (h : Runs s calls s') : History s calls s' := by
  induction h with
  | nil s => exact ⟨.refl, hs, rfl, nofun, nofun, fun hne => absurd rfl hne⟩
  | @cons s s₁ s' call calls snap first rest ih =>
    have hfirst := hs.answered first
    have hrest := ih hfirst.atRest
    have hroot : ∀ other, s₁.rootOf other = s.rootOf other := fun other => rootOf_eq hfirst.resolver other rfl
    have hconfig : s₁.config = s.config := congrArg Resolver.config hfirst.resolver
    refine ⟨hfirst.advances.trans hrest.advances, hrest.atRest, hrest.resolver.trans hfirst.resolver, ?_, ?_, ?_⟩
    · -- the roots of all calls are finished
      intro other hother
      rcases List.mem_cons.mp hother with rfl | hother
      · exact hrest.advances.frozen.isFinished hfirst.finished
      · rw [← hroot]
        exact hrest.finished other hother
    · -- the permits of all concurrent calls
      intro other hother
      rcases List.mem_cons.mp hother with rfl | hother
      · exact hfirst.capacity
      · rw [← hconfig]
        exact hrest.capacity other hother
    · -- the last call has propagated
      intro _
      cases rest with
      | nil => exact hfirst.propagation
      | cons => exact hrest.propagation (List.cons_ne_nil _ _)

/-- **Finished modules are frozen.** For any sequence of calls on a new session that have all returned, of any roots, in
any modes and each in a world of its own: no module was read twice and no record is open. Whatever calls follow, the
session changes by single updates none of which touches a module that is finished by then or reads a module again; so
the record, the tree and the aliases of what is finished now stay as they are. A call that is repeated, in a world where
its path resolves to the same module, reads nothing, requests nothing of the world and returns a snapshot of the tables
as they are; if it was the last one, this is the snapshot that it returned before. -/
theorem finished_modules_frozen (config : Config) (deno : String) (s₀ : Session) (hs : start config deno = .ok s₀)
    (calls : List Call) (s : Session) (h : Runs s₀ calls s) :
    s.reads.Nodup ∧
    (∀ x record, s.program.modules.records.get? x = some record → record.progress ≠ .visiting) ∧
    (∀ more s', Runs s more s' → Advances s s' ∧
      ∀ x, s.isFinished x = true →
        s'.program.modules.records.get? x = s.program.modules.records.get? x ∧
        s'.parsed.get? x = s.parsed.get? x ∧
        s'.program.aliases.modules.get? x = s.program.aliases.modules.get? x) ∧
    (∀ call ∈ calls, ∀ w, w.current = call.world.current →
      ∃ s', s.answer { call with world := w } =
          (s', .ok { s.snapshot with root := s.resolver.rootModule call.world.current call.path }) ∧
        s'.reads = s.reads ∧ s'.requests = s.requests) ∧
    ∀ earlier before call snap, Runs s₀ earlier before → before.answer call = (s, .ok snap) →
      ∀ w, w.current = call.world.current →
        ∃ s', s.answer { call with world := w } = (s', .ok snap) ∧ s'.reads = s.reads ∧ s'.requests = s.requests := by
  have hhistory := (atRest_start hs).history h
  have hrest := hhistory.atRest
  refine ⟨hrest.reads, hrest.recorded, ?_, ?_, ?_⟩
  · -- calls that follow
    intro more s' hmore
    have hadvances := (hrest.history hmore).advances
    refine ⟨hadvances, fun x hx => ?_⟩
    have hview := hadvances.frozen x hx
    exact ⟨congrArg View.record hview, congrArg View.parsed hview, congrArg View.aliases hview⟩
  · -- a call that is repeated
    intro call hcall w hcurrent
    have hroot := rootOf_eq hhistory.resolver call hcurrent
    have hsame : s.resolver.rootModule call.world.current call.path = s.rootOf { call with world := w } := by
      rw [hroot, hhistory.resolver]
      rfl
    have hconfig : s.config = s₀.config := congrArg Resolver.config hhistory.resolver
    rw [hsame]
    refine answer_of_finished ?_ ?_ (hhistory.propagation (List.ne_nil_of_mem hcall))
    · rw [hroot]
      exact hhistory.finished call hcall
    · rw [hconfig]
      exact hhistory.capacity call hcall
  · -- the last call, repeated: the root of the snapshot is the same too
    intro earlier before call snap hearlier hcall w hcurrent
    have hanswered := ((atRest_start hs).history hearlier).atRest.answered hcall
    have hroot := rootOf_eq hanswered.resolver call hcurrent
    have hconfig : s.config = before.config := congrArg Resolver.config hanswered.resolver
    obtain ⟨s', hagain, hreads, hrequests⟩ := @answer_of_finished s { call with world := w }
      (hroot ▸ hanswered.finished) (hconfig ▸ hanswered.capacity) hanswered.propagation
    refine ⟨s', hagain.trans ?_, hreads, hrequests⟩
    have hsnap : { s.snapshot with root := s.rootOf { call with world := w } } = snap := by
      rw [hroot, hanswered.snapshot]
      have hsame : s.snapshot.root = before.rootOf call := by
        show s.root.getD "" = _
        rw [hanswered.root]
        rfl
      rw [← hsame]
    rw [hsnap]

end Session

theorem Sample.answer_first :
    session.answer ⟨.waiting, world, "a.ts"⟩ = ((session.answer ⟨.waiting, world, "a.ts"⟩).1, .ok snapshot) :=
  Prod.ext rfl (by decide +kernel)

namespace Session

/-- Of two files that import each other the first is analysed, and the second concurrently when no files are left. The
first call, repeated then, reads nothing and gives the snapshot that it gave. -/
theorem finished_modules_frozen_removed :
    ∃ s s', start Sample.config "deno" = .ok Sample.session ∧
      Runs Sample.session [⟨.waiting, Sample.world, "a.ts"⟩, ⟨.concurrent, {}, "b.ts"⟩] s ∧ s.reads.Nodup ∧
      s.isFinished "/work/b.ts" = true ∧
      s.answer ⟨.waiting, {}, "a.ts"⟩ = (s', .ok Sample.snapshot) ∧ s'.reads = s.reads := by
  have hsecond : (Sample.session.answer ⟨.waiting, Sample.world, "a.ts"⟩).1.answer ⟨.concurrent, {}, "b.ts"⟩ =
      (_, .ok { Sample.snapshot with root := "/work/b.ts" }) := Prod.ext rfl (by decide +kernel)
  have hruns := Runs.cons Sample.answer_first (.cons hsecond (.nil _))
  have hhistory := (atRest_start Sample.start_eq).history hruns
  have hroot : Sample.session.rootOf ⟨.concurrent, {}, "b.ts"⟩ = "/work/b.ts" := by decide +kernel
  have hfinished := hhistory.finished ⟨.concurrent, {}, "b.ts"⟩ (List.mem_cons_of_mem _ List.mem_cons_self)
  rw [hroot] at hfinished
  obtain ⟨hreads, _, _, hrepeated, _⟩ := finished_modules_frozen _ _ _ Sample.start_eq _ _ hruns
  obtain ⟨s', hanswer, hsame, _⟩ := hrepeated ⟨.waiting, Sample.world, "a.ts"⟩ List.mem_cons_self {} rfl
  rw [snapshot_of_answer hsecond, hhistory.resolver] at hanswer
  refine ⟨_, s', Sample.start_eq, hruns, hreads, hfinished, hanswer.trans (Prod.ext rfl ?_), hsame⟩
  exact congrArg Except.ok (by decide +kernel)

end Session

end BlockingCalls
