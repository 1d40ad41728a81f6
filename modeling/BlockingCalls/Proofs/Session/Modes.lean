import BlockingCalls.Proofs.Session.Concurrent

/-!
# Both ways of analysing agree

A depth-first and a concurrent analysis visit modules in different orders, settle them at different moments and read them
by different readers. Their results agree: if the depth-first analysis returns, every import of a reachable module can be
resolved, so the concurrent one returns too; both then leave a complete session of one codebase and root, and the snapshot
of a complete session is determined by these up to order. Only the texts of faults may differ.

## Results

* `Complete.record_eq`              — the records of two complete sessions differ in nothing but the texts of faults.
* `Complete.snapshot_agrees`        — the snapshots of two complete sessions agree.
* `analyzeConcurrently_agrees`      — a concurrent analysis returns where a depth-first one does, with the same snapshot.
-/

namespace BlockingCalls.Session

/-- Two snapshots agree up to order and up to the texts of faults. -/
structure Snapshot.Agrees (a b : Snapshot) : Prop where
  root : a.root = b.root
  blocking : ∀ f, f ∈ a.blocking ↔ f ∈ b.blocking
  directBlocking : a.directBlocking.Perm b.directBlocking
  callers : ∀ f, f ∈ a.calls.callers ↔ f ∈ b.calls.callers
  edges : ∀ e, e ∈ a.calls.edges ↔ e ∈ b.calls.edges
  failed : ∀ x, x ∈ a.failed.map (·.1) ↔ x ∈ b.failed.map (·.1)

-- ---------------------------------------------------------------------------
-- Records in a snapshot
-- ---------------------------------------------------------------------------

namespace WellFormed

variable {s : Session}

/-- A snapshot lists the directly blocking names of all views that have a record. -/
theorem mem_snapshot_directBlocking (h : s.WellFormed) {x : ModuleId} {names : List Name} :
    (x, names) ∈ s.snapshot.directBlocking ↔ (s.view x).record.map (·.directBlocking) = some names := by
  constructor
  · intro hmem
    obtain ⟨record, hrecord, heq⟩ := List.mem_map.mp hmem
    cases heq
    exact Option.map_eq_some_iff.mpr ⟨record, h.mem_values_iff.mp hrecord, rfl⟩
  · intro hview
    obtain ⟨record, hrecord, rfl⟩ := Option.map_eq_some_iff.mp hview
    have howner := h.owners x record hrecord
    exact List.mem_map.mpr ⟨record, mem_values_of_view hrecord, by rw [howner]⟩

/-- A snapshot lists each module once. -/
theorem nodup_snapshot_directBlocking (h : s.WellFormed) : s.snapshot.directBlocking.Nodup := by
  have hids : s.snapshot.directBlocking.map (·.1) = s.program.modules.records.keys := by
    unfold snapshot Table.values Table.keys
    rw [List.map_map, List.map_map]
    apply List.map_congr_left
    intro entry hentry
    exact h.owners entry.1 entry.2 ((Table.get?_eq_some_iff h.records).mpr hentry)
  exact List.Nodup.of_map _ (hids ▸ h.records)

/-- The test for failed records is exact. -/
theorem beq_failed_iff {progress : Progress} : (progress == .failed) = true ↔ progress = .failed := by
  cases progress <;> decide

/-- A snapshot lists a module as failed iff its record is. -/
theorem mem_snapshot_failed (h : s.WellFormed) {x : ModuleId} :
    x ∈ s.snapshot.failed.map (·.1) ↔ (s.view x).record.map (·.progress) = some .failed := by
  constructor
  · intro hmem
    obtain ⟨pair, hpair, rfl⟩ := List.mem_map.mp hmem
    obtain ⟨record, hrecord, rfl⟩ := List.mem_map.mp hpair
    obtain ⟨hvalue, hfailed⟩ := List.mem_filter.mp hrecord
    exact Option.map_eq_some_iff.mpr ⟨record, h.mem_values_iff.mp hvalue, beq_failed_iff.mp hfailed⟩
  · intro hview
    obtain ⟨record, hrecord, hfailed⟩ := Option.map_eq_some_iff.mp hview
    have howner := h.owners x record hrecord
    have hvalue : record ∈ s.program.modules.records.values.filter (·.progress == .failed) :=
      List.mem_filter.mpr ⟨mem_values_of_view hrecord, beq_failed_iff.mpr hfailed⟩
    exact List.mem_map.mpr ⟨_, List.mem_map.mpr ⟨record, hvalue, rfl⟩, howner⟩

end WellFormed

-- ---------------------------------------------------------------------------
-- Two complete sessions
-- ---------------------------------------------------------------------------

namespace Complete

variable {c : Codebase} {mode mode' : Mode} {root : ModuleId} {s s' : Session}

/-- The records of two complete sessions differ in nothing but the texts of faults. -/
theorem record_eq (h : Complete c mode root s) (h' : Complete c mode' root s') (x : ModuleId) :
    (s.view x).record.map ({ · with error := none }) = (s'.view x).record.map ({ · with error := none }) := by
  -- a reachable module has failed in both, or was parsed in both; any other has no record
  by_cases hx : c.Reachable root x
  · cases hp : c.find? x with
    | none =>
      obtain ⟨_, hview⟩ := h.view_of_failed hx hp
      obtain ⟨_, hview'⟩ := h'.view_of_failed hx hp
      rw [hview, hview']
      rfl
    | some p => rw [h.view_of_parsed hx hp, h'.view_of_parsed hx hp]
  · rw [h.outside x hx, h'.outside x hx]

/-- A function of records that ignores the text of a fault has the same values on both. -/
theorem map_record_eq (h : Complete c mode root s) (h' : Complete c mode' root s') {α : Type} (f : Record → α)
    (hf : ∀ record, f { record with error := none } = f record) (x : ModuleId) :
    (s.view x).record.map f = (s'.view x).record.map f := by
  have hboth := congrArg (Option.map f) (h.record_eq h' x)
  rw [Option.map_map, Option.map_map] at hboth
  have hcomp : (f ∘ fun record : Record => { record with error := none }) = f := funext hf
  rwa [hcomp] at hboth

/-- The snapshots of two complete sessions of one codebase and root agree. -/
theorem snapshot_agrees (h : Complete c mode root s) (h' : Complete c mode' root s') (hroot : s.root = s'.root) :
    s.finish.snapshot.Agrees s'.finish.snapshot := by
  have hseed : ∀ f, f ∈ s.seed ↔ f ∈ s'.seed := fun f => h.mem_seed.trans h'.mem_seed.symm
  have hsame := h.sameContent h'
  refine ⟨?_, ?_, ?_, ?_, ?_, ?_⟩
  · show s.root.getD "" = s'.root.getD ""
    rw [hroot]
  · -- propagation is monotone in the seed and in the tables, in both directions
    intro f
    exact ⟨hsame.propagate_subset (fun g hg => (hseed g).mp hg) f,
      hsame.symm.propagate_subset (fun g hg => (hseed g).mpr hg) f⟩
  · -- two lists without repetitions and with the same members
    show s.snapshot.directBlocking.Perm s'.snapshot.directBlocking
    rw [List.perm_ext_iff_of_nodup h.wellFormed.nodup_snapshot_directBlocking
      h'.wellFormed.nodup_snapshot_directBlocking]
    rintro ⟨x, names⟩
    rw [h.wellFormed.mem_snapshot_directBlocking, h'.wellFormed.mem_snapshot_directBlocking,
      h.map_record_eq h' _ (fun _ => rfl)]
  · exact fun f => (h.callers f).trans (h'.callers f).symm
  · exact fun e => (h.edges e).trans (h'.edges e).symm
  · -- failed records are the same, since their texts are not compared
    intro x
    show x ∈ s.snapshot.failed.map (·.1) ↔ x ∈ s'.snapshot.failed.map (·.1)
    rw [h.wellFormed.mem_snapshot_failed, h'.wellFormed.mem_snapshot_failed, h.map_record_eq h' _ (fun _ => rfl)]

end Complete

-- ---------------------------------------------------------------------------
-- Two analyses
-- ---------------------------------------------------------------------------

/-- A concurrent analysis returns with a snapshot of what it leaves behind, once its root has been analysed. -/
theorem analyzeConcurrently_of_ok (s : Session) (w : World) (path : String)
    (hcapacity : 0 ≤ s.resolver.config.maxConcurrency) :
    ∃ entry, ∀ s' names,
      ({ s with root := some (s.resolver.rootModule w.current path) }.note entry).analyzeModuleConcurrently w
        (s.resolver.rootModule w.current path) = (s', .ok names) →
      s.analyzeConcurrently w path =
        ({ s' with inFlight := [] }.finish, .ok { s' with inFlight := [] }.finish.snapshot) := by
  refine ⟨.info ("[Session] Analyzing " ++ s.resolver.rootModule w.current path ++ " (async)"), ?_⟩
  intro s' names h
  have hnot : ¬ s.resolver.config.maxConcurrency < 0 := by omega
  unfold analyzeConcurrently
  simp only
  split
  · rename_i hnegative
    exact absurd hnegative hnot
  · rw [h]

/-- **Both traversals agree**: if a depth-first analysis of a new session returns a snapshot, a concurrent one that may
read at least one module at a time returns too. The snapshots agree, and both read the same modules, each of them once.
-/
theorem analyzeConcurrently_agrees (config : Config) (deno : String) (s : Session) (hs : start config deno = .ok s)
    (hcapacity : 1 ≤ config.maxConcurrency) (w : World) (path : String) (s₁ : Session) (snap₁ : Snapshot)
    (h : s.analyze w path = (s₁, .ok snap₁)) :
    ∃ s₂ snap₂, s.analyzeConcurrently w path = (s₂, .ok snap₂) ∧ snap₁.Agrees snap₂ ∧
      s₁.reads.Nodup ∧ s₂.reads.Nodup ∧ ∀ x, x ∈ s₁.reads ↔ x ∈ s₂.reads := by
  obtain ⟨hconfig, hreader⟩ := config_start hs
  have hschemes : s.reader.remoteSchemes = s.resolver.config.remoteSchemes := by rw [hconfig, hreader]
  have hcapacity' : 0 ≤ s.resolver.config.maxConcurrency := by
    rw [hconfig]
    omega
  obtain ⟨entry, t, names, hmodule, rfl, rfl⟩ := analyze_ok h
  have hfresh := fresh_start hs
  obtain ⟨hcomplete₁, hroot₁⟩ := analyzeModule_complete (hfresh.noteRoot _ entry) hmodule
  -- all imports of reachable modules can be resolved, or the first analysis would not have returned
  obtain ⟨entry₂, hreturns⟩ := s.analyzeConcurrently_of_ok w path hcapacity'
  obtain ⟨s₂, names₂, hmodule₂, hcomplete₂, hroot₂⟩ :=
    analyzeModuleConcurrently_complete (hfresh.noteRoot (s.resolver.rootModule w.current path) entry₂) w
      (s.resolver.rootModule w.current path) hschemes hcapacity' hcomplete₁.resolved
  refine ⟨_, _, hreturns s₂ names₂ hmodule₂, ?_, hcomplete₁.nodup, hcomplete₂.nodup, ?_⟩
  · have hsame : Complete (s.codebase w) .concurrent (s.resolver.rootModule w.current path) s₂ := hcomplete₂
    have hagrees := hcomplete₁.snapshot_agrees hsame (hroot₁.trans hroot₂.symm)
    exact hagrees
  · exact fun x => (hcomplete₁.reads x).trans (hcomplete₂.reads x).symm

/-- In a cycle of imports the second analysis returns the same as the first. -/
theorem analyzeConcurrently_agrees_cycle :
    ∃ s₁ s₂ snap₂, start Sample.config "deno" = .ok Sample.session ∧ 1 ≤ Sample.config.maxConcurrency ∧
      Sample.session.analyze Sample.world "a.ts" = (s₁, .ok Sample.snapshot) ∧
      Sample.session.analyzeConcurrently Sample.world "a.ts" = (s₂, .ok snap₂) ∧ Sample.snapshot.Agrees snap₂ ∧
      ∀ x, x ∈ s₁.reads ↔ x ∈ s₂.reads := by
  have hsnap : Sample.session.analyze Sample.world "a.ts" = (_, .ok Sample.snapshot) :=
    Prod.ext rfl (by decide +kernel)
  obtain ⟨s₂, snap₂, hreturns, hagrees, _, _, hreads⟩ :=
    analyzeConcurrently_agrees _ _ _ Sample.start_eq (by decide) _ _ _ _ hsnap
  exact ⟨_, s₂, snap₂, Sample.start_eq, by decide, hsnap, hreturns, hagrees, hreads⟩

end BlockingCalls.Session
