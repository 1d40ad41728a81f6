import BlockingCalls.Proofs.Session.Returns

/-!
# What is kept of modules that have failed

A module that cannot be read or parsed fails before anything of it is merged, so nothing of it is kept. A module that
dangles has been merged by the time its imports are linked. A depth-first analysis does not return in that case. In a
concurrent one the module is recorded as failed, and of what was merged only the direct blocking names are removed: the
exports, the tree, the aliases, the calls and the locations stay. So nothing is kept of failed modules if and only if no
module to which the analysis spreads dangles.

## Results

* `AllSettled.keepsNothingOfFailed_iff` — nothing is kept of failed modules iff none of those read dangles.
* `AllSettled.kept_of_dangling`         — what is kept of a module that dangles.
* `failed_modules_kept_iff`             — both ways of analysing side by side.
-/

namespace BlockingCalls

namespace Session

/-- Of a module that has failed, no names that block, no exports, no tree and no aliases are kept, and each call and each
location comes from a module that has not failed. -/
structure KeepsNothingOfFailed (s : Session) : Prop where
  tables : ∀ x record, s.program.modules.records.get? x = some record → record.progress = .failed →
    record.directBlocking = [] ∧ record.exports = {} ∧ s.parsed.get? x = none ∧ s.program.aliases.modules.get? x = none
  edges : ∀ e ∈ s.program.calls.edges, ∃ x record p, s.program.modules.records.get? x = some record ∧
    record.progress ≠ .failed ∧ s.parsed.get? x = some p ∧
    e ∈ (CallGraph.mk (Summary.ofTree s.config p.moduleId p.text p.root).calls).edges
  locations : ∀ e ∈ s.locations.entries, ∃ x record p, s.program.modules.records.get? x = some record ∧
    record.progress ≠ .failed ∧ s.parsed.get? x = some p ∧
    e ∈ (Summary.ofTree s.config p.moduleId p.text p.root).locations.entries

-- ---------------------------------------------------------------------------
-- Sessions in which all that was read is settled
-- ---------------------------------------------------------------------------

/-- The modules `ids` have been merged and settled, and no table holds anything of others. -/
structure AllSettled (c : Codebase) (mode : Mode) (ids : List ModuleId) (s : Session) : Prop where
  config : s.config = c.resolver.config
  inside : ∀ x ∈ ids, s.view x = c.settled mode x .empty
  outside : ∀ x, x ∉ ids → s.view x = .empty
  edges : ∀ e ∈ s.program.calls.edges,
    ∃ x ∈ ids, ∃ p, c.find? x = some p ∧ e ∈ (CallGraph.mk (c.summary p).calls).edges
  locations : ∀ e ∈ s.locations.entries, ∃ x ∈ ids, ∃ p, c.find? x = some p ∧ e ∈ (c.summary p).locations.entries

namespace AllSettled

variable {c : Codebase} {mode : Mode} {ids : List ModuleId} {s s' : Session}

/-- A fresh session into which modules have been merged and in which each of them was settled. -/
theorem of_merged (hs : s.Fresh) (hresolver : s.resolver = c.resolver) (hmerged : Merged c mode s s' ids)
    (hinside : ∀ x ∈ ids, s'.view x = c.settled mode x (s.view x)) (houtside : ∀ x, x ∉ ids → s'.view x = s.view x) :
    AllSettled c mode ids s' where
  config := by
    unfold Session.config
    rw [hmerged.resolver, hresolver]
  inside x hx := by rw [hinside x hx, hs.views]
  outside x hx := by rw [houtside x hx, hs.views]
  edges e he := by
    have hedges := (hmerged.edges e).mp he
    rw [hs.calls] at hedges
    exact hedges.resolve_left (by simp [CallGraph.edges])
  locations e he := by
    have hlocations := hmerged.locations e he
    rw [hs.locations] at hlocations
    exact hlocations.resolve_left (by simp)

/-- The view of a module that was read and whose imports can all be resolved. -/
theorem view_of_opens (h : AllSettled c mode ids s) {x : ModuleId} (hx : x ∈ ids) {p : Parsed} (hp : c.find? x = some p)
    {ts : List ModuleId} (hopens : c.Opens x ts) :
    ∃ record, (s.view x).record = some record ∧ record.progress = .done ∧ (s.view x).parsed = some p := by
  obtain ⟨q, hq, hts⟩ := hopens
  rw [hp] at hq
  cases hq
  rw [h.inside x hx, Codebase.settled_of_targets_ok (Codebase.parse_eq_ok_of_find? hp) hts]
  exact ⟨_, rfl, rfl, rfl⟩

/-- All that was merged of a module that dangles is kept, except the direct blocking names. -/
theorem kept_of_dangling (h : AllSettled c mode ids s) {x : ModuleId} (hx : x ∈ ids) {fault : Fault}
    (hdangling : c.Dangling x fault) :
    ∃ record p, (s.view x).record = some record ∧ record.progress = .failed ∧ record.directBlocking = [] ∧
      c.find? x = some p ∧ record.exports = (c.summary p).exports ∧ (s.view x).parsed = some p ∧
      (s.view x).aliases = (View.empty.bind (c.bindingsOf p)).aliases := by
  have hview := h.inside x hx
  rw [Codebase.settled_of_dangling hdangling] at hview
  obtain ⟨p, hp, _⟩ := hdangling
  have hlinked : c.linked mode x .empty = ((View.empty.begin x).register p (c.summary p)).bind (c.bindingsOf p) := by
    simp [Codebase.linked, @Codebase.parse_eq_ok_of_find? c mode x p hp]
  rw [hview, hlinked]
  exact ⟨_, p, rfl, rfl, rfl, hp, rfl, rfl, rfl⟩

/-- A module that has failed could not be parsed, or dangles. -/
theorem cases_of_failed (h : AllSettled c mode ids s) {x : ModuleId} {record : Record}
    (hrecord : (s.view x).record = some record) (hfailed : record.progress = .failed) :
    x ∈ ids ∧ (s.view x = { View.empty with record := some { moduleId := x, progress := .failed, error := record.error } } ∨
      ∃ fault, c.Dangling x fault) := by
  -- a module that was not read has no record
  have hx : x ∈ ids := by
    by_contra hnot
    rw [h.outside x hnot] at hrecord
    cases hrecord
  refine ⟨hx, ?_⟩
  cases hp : c.find? x with
  | none =>
    -- it could not be parsed: the view holds the failed record and nothing else
    obtain ⟨fault, hfault⟩ := @Codebase.parse_eq_error_of_find? c mode x hp
    have hview := h.inside x hx
    rw [Codebase.settled_of_parse_error hfault] at hview
    rw [hview] at hrecord
    cases hrecord
    exact .inl hview
  | some p =>
    rcases Codebase.opens_or_dangling hp with ⟨ts, hopens⟩ | hdangling
    · -- its imports can be resolved: it would be done
      obtain ⟨other, hother, hdone, _⟩ := h.view_of_opens hx hp hopens
      rw [hrecord] at hother
      cases hother
      rw [hfailed] at hdone
      cases hdone
    · exact .inr hdangling

/-- No failed module has direct blocking names. -/
theorem directBlocking_of_failed (h : AllSettled c mode ids s) {x : ModuleId} {record : Record}
    (hrecord : (s.view x).record = some record) (hfailed : record.progress = .failed) : record.directBlocking = [] := by
  obtain ⟨hx, hview | ⟨fault, hdangling⟩⟩ := h.cases_of_failed hrecord hfailed
  · rw [hview] at hrecord
    have heq := Option.some.inj hrecord
    rw [← heq]
  · obtain ⟨other, _, hother, _, hempty, _⟩ := h.kept_of_dangling hx hdangling
    rw [hrecord] at hother
    cases hother
    exact hempty

/-- Of a module that has failed and does not dangle no table holds anything. -/
theorem tables_of_failed (h : AllSettled c mode ids s) {x : ModuleId} {record : Record}
    (hrecord : (s.view x).record = some record) (hfailed : record.progress = .failed)
    (hopen : ∀ fault, ¬ c.Dangling x fault) :
    record.directBlocking = [] ∧ record.exports = {} ∧ (s.view x).parsed = none ∧ (s.view x).aliases = none := by
  obtain ⟨_, hview | ⟨fault, hdangling⟩⟩ := h.cases_of_failed hrecord hfailed
  · rw [hview] at hrecord ⊢
    have heq := Option.some.inj hrecord
    rw [← heq]
    exact ⟨rfl, rfl, rfl, rfl⟩
  · exact absurd hdangling (hopen fault)

/-- A module that was merged and does not dangle is done. -/
theorem done_of_find? (h : AllSettled c mode ids s) {x : ModuleId} (hx : x ∈ ids) {p : Parsed} (hp : c.find? x = some p)
    (hopen : ∀ fault, ¬ c.Dangling x fault) :
    ∃ record, (s.view x).record = some record ∧ record.progress ≠ .failed ∧ (s.view x).parsed = some p := by
  rcases Codebase.opens_or_dangling hp with ⟨ts, hopens⟩ | ⟨fault, hdangling⟩
  · obtain ⟨record, hrecord, hprogress, hparsed⟩ := h.view_of_opens hx hp hopens
    refine ⟨record, hrecord, ?_, hparsed⟩
    rw [hprogress]
    decide
  · exact absurd hdangling (hopen fault)

/-- **Nothing is kept of failed modules if and only if none of the modules that were read dangles.** -/
theorem keepsNothingOfFailed_iff (h : AllSettled c mode ids s) :
    s.KeepsNothingOfFailed ↔ ∀ x ∈ ids, ∀ fault, ¬ c.Dangling x fault := by
  constructor
  · -- of a module that dangles the tree is kept
    intro hkeeps x hx fault hdangling
    obtain ⟨record, p, hrecord, hfailed, _, _, _, hparsed, _⟩ := h.kept_of_dangling hx hdangling
    obtain ⟨_, _, hnone, _⟩ := hkeeps.tables x record hrecord hfailed
    have hparsed' : s.parsed.get? x = some p := hparsed
    rw [hnone] at hparsed'
    cases hparsed'
  · -- where none dangles, a failed module could not be parsed, and what was merged is done
    intro hopen
    have hsummary : ∀ p, Summary.ofTree s.config p.moduleId p.text p.root = c.summary p := by
      intro p
      rw [h.config]
      rfl
    refine ⟨?_, ?_, ?_⟩
    · intro x record hrecord hfailed
      obtain ⟨hx, _⟩ := h.cases_of_failed hrecord hfailed
      exact h.tables_of_failed hrecord hfailed (hopen x hx)
    · intro e he
      obtain ⟨x, hx, p, hp, hmem⟩ := h.edges e he
      obtain ⟨record, hrecord, hprogress, hparsed⟩ := h.done_of_find? hx hp (hopen x hx)
      exact ⟨x, record, p, hrecord, hprogress, hparsed, by rw [hsummary]; exact hmem⟩
    · intro e he
      obtain ⟨x, hx, p, hp, hmem⟩ := h.locations e he
      obtain ⟨record, hrecord, hprogress, hparsed⟩ := h.done_of_find? hx hp (hopen x hx)
      exact ⟨x, record, p, hrecord, hprogress, hparsed, by rw [hsummary]; exact hmem⟩

end AllSettled

-- ---------------------------------------------------------------------------
-- Both ways of analysing
-- ---------------------------------------------------------------------------

/-- A depth-first analysis of a fresh session that returns has settled all that it has read, and none of that dangles. -/
theorem analyze_allSettled {s : Session} (hs : s.Fresh) {w : World} {path : String} {s' : Session} {snap : Snapshot}
    (h : s.analyze w path = (s', .ok snap)) :
    ∃ ids, AllSettled (s.codebase w) .waiting ids s' ∧ ∀ x ∈ ids, ∀ fault, ¬ (s.codebase w).Dangling x fault := by
  obtain ⟨entry, t, names, hmodule, rfl, _⟩ := analyze_ok h
  obtain ⟨ids, hentered, _⟩ := analyzeModule_entered hmodule
  have hent := hentered (s.resolver.rootModule w.current path)
  have hfresh := hs.noteRoot (s.resolver.rootModule w.current path) entry
  have hsettled : AllSettled (s.codebase w) .waiting ids t.session :=
    .of_merged hfresh rfl hent.merged hent.inside fun x hx => hent.view_of_not_mem hx
  refine ⟨ids, ⟨hsettled.config, hsettled.inside, hsettled.outside, hsettled.edges, hsettled.locations⟩, ?_⟩
  rintro x hx fault ⟨p, hp, hfault⟩
  obtain ⟨ts, hts⟩ := hent.resolved x hx p hp
  have hts' : (s.codebase w).targetsOf p = .ok ts := hts
  rw [hts'] at hfault
  cases hfault

/-- A concurrent analysis of a fresh session that returns has read what spreads from the root, and settled it. -/
theorem analyzeConcurrently_allSettled {s : Session} (hs : s.Fresh)
    (hschemes : s.reader.remoteSchemes = s.resolver.config.remoteSchemes)
    (hcapacity : 0 ≤ s.resolver.config.maxConcurrency) {w : World} {path : String} {s' : Session} {snap : Snapshot}
    (h : s.analyzeConcurrently w path = (s', .ok snap)) :
    ∃ ids, AllSettled (s.codebase w) .concurrent ids s' ∧
      ∀ x, x ∈ ids ↔ (s.codebase w).Spreads (fun _ => False) (s.resolver.rootModule w.current path) x := by
  obtain ⟨entry, t, result, ids, hended, heq⟩ := analyzeConcurrently_ended s w path hschemes hcapacity
  have hfresh := hs.noteRoot (s.resolver.rootModule w.current path) entry
  rw [heq] at h
  cases result with
  | error fault => cases h
  | ok names =>
    cases h
    have hsettled : AllSettled (s.codebase w) .concurrent ids t := by
      refine .of_merged hfresh rfl hended.merged ?_ hended.outside
      intro x hx
      rcases hended.inside x hx with hview | ⟨_, fault, hfault⟩
      · exact hview
      · cases hfault
    refine ⟨ids, ⟨hsettled.config, hsettled.inside, hsettled.outside, hsettled.edges, hsettled.locations⟩, ?_⟩
    intro x
    rw [hended.mem_iff, hfresh.stops_iff]

end Session

/-! A page that dangles, like the one before, but with an alias, a function, a call and an export of its own. -/

namespace Sample

/-- The world with that page. -/
def exportingWorld : World :=
  remoteWorld "import{z}from'//z';import'./y';const k=()=>z();export{k}"
    [{ depth := 0, kind := "program", start := 0, stop := 56 },
     { depth := 1, kind := "import_statement", start := 0, stop := 19 },
     { depth := 2, kind := "import_clause", start := 6, stop := 9 },
     { depth := 3, kind := "named_imports", start := 6, stop := 9 },
     { depth := 4, kind := "import_specifier", start := 7, stop := 8 },
     { depth := 5, kind := "identifier", start := 7, stop := 8, field := "name" },
     { depth := 2, kind := "string", start := 13, stop := 18, field := "source" },
     { depth := 1, kind := "import_statement", start := 19, stop := 31 },
     { depth := 2, kind := "string", start := 25, stop := 30, field := "source" },
     { depth := 1, kind := "lexical_declaration", start := 31, stop := 47 },
     { depth := 2, kind := "variable_declarator", start := 37, stop := 46 },
     { depth := 3, kind := "identifier", start := 37, stop := 38, field := "name" },
     { depth := 3, kind := "arrow_function", start := 39, stop := 46, field := "value" },
     { depth := 4, kind := "call_expression", start := 43, stop := 46, field := "body" },
     { depth := 5, kind := "identifier", start := 43, stop := 44, field := "function" },
     { depth := 1, kind := "export_statement", start := 47, stop := 56 },
     { depth := 2, kind := "export_clause", start := 53, stop := 56 },
     { depth := 3, kind := "export_specifier", start := 54, stop := 55 },
     { depth := 4, kind := "identifier", start := 54, stop := 55, field := "name" }]

/-- The record of the page after a concurrent analysis of the first file. -/
def pageRecord : Record where
  moduleId := "//["
  progress := .failed
  exports := ⟨[("k", "k")]⟩
  error := some "Invalid IPv6 URL"

/-- The session after a concurrent analysis of the first file. -/
def exportingSession : Session :=
  (remoteSession.analyzeConcurrently exportingWorld "a.ts").1

/-- The concurrent analysis of the first file returns, although the page dangles. -/
theorem exporting_returns :
    ∃ snap, remoteSession.analyzeConcurrently exportingWorld "a.ts" = (exportingSession, .ok snap) := by
  have hok : (remoteSession.analyzeConcurrently exportingWorld "a.ts").2.toBool = true := by decide +kernel
  cases hresult : (remoteSession.analyzeConcurrently exportingWorld "a.ts").2 with
  | error fault =>
    rw [hresult] at hok
    cases hok
  | ok snap => exact ⟨snap, Prod.ext rfl hresult⟩

/-- What is kept of the page. -/
theorem exporting_kept :
    exportingSession.program.modules.records.get? "//[" = some pageRecord ∧
      (exportingSession.parsed.get? "//[").isSome ∧
      exportingSession.program.aliases.modules.get? "//[" = some ⟨[("z", ⟨"//z", "z"⟩)]⟩ ∧
      ("k", "z") ∈ exportingSession.program.calls.edges ∧ "k" ∈ exportingSession.locations.keys := by
  decide +kernel

end Sample

namespace Session

/-- **What is kept of failed modules.** Where a depth-first analysis of a new session returns, nothing is kept of
modules that have failed. Where a concurrent one returns, that is so if and only if no module to which it spreads
dangles; of a module that does, all that was merged before it failed is kept, except the direct blocking names. -/
theorem failed_modules_kept_iff (config : Config) (deno : String) (s : Session) (hs : start config deno = .ok s)
    (hcapacity : 1 ≤ config.maxConcurrency) (w : World) (path : String) :
    (∀ s₁ snap, s.analyze w path = (s₁, .ok snap) → s₁.KeepsNothingOfFailed) ∧
    ∀ s₂ snap, s.analyzeConcurrently w path = (s₂, .ok snap) →
      (s₂.KeepsNothingOfFailed ↔
        ∀ x fault, (s.codebase w).Spreads (fun _ => False) (s.resolver.rootModule w.current path) x →
          ¬ (s.codebase w).Dangling x fault) ∧
      (∀ x record, s₂.program.modules.records.get? x = some record → record.progress = .failed →
        record.directBlocking = []) ∧
      ∀ x fault, (s.codebase w).Spreads (fun _ => False) (s.resolver.rootModule w.current path) x →
        (s.codebase w).Dangling x fault →
        ∃ record p, s₂.program.modules.records.get? x = some record ∧ record.progress = .failed ∧
          (s.codebase w).find? x = some p ∧ record.exports = ((s.codebase w).summary p).exports ∧
          s₂.parsed.get? x = some p ∧
          s₂.program.aliases.modules.get? x = (View.empty.bind ((s.codebase w).bindingsOf p)).aliases := by
  obtain ⟨hconfig, hreader⟩ := config_start hs
  have hschemes : s.reader.remoteSchemes = s.resolver.config.remoteSchemes := by rw [hconfig, hreader]
  have hcapacity' : 0 ≤ s.resolver.config.maxConcurrency := by
    rw [hconfig]
    omega
  have hfresh := fresh_start hs
  refine ⟨?_, ?_⟩
  · -- depth-first: an analysis that returns has met no module that dangles
    intro s₁ snap h
    obtain ⟨ids, hsettled, hopen⟩ := analyze_allSettled hfresh h
    exact hsettled.keepsNothingOfFailed_iff.mpr hopen
  · -- concurrent: the modules read are those to which the analysis spreads
    intro s₂ snap h
    obtain ⟨ids, hsettled, hmem⟩ := analyzeConcurrently_allSettled hfresh hschemes hcapacity' h
    refine ⟨?_, fun x record => hsettled.directBlocking_of_failed, ?_⟩
    · rw [hsettled.keepsNothingOfFailed_iff]
      constructor
      · exact fun hopen x fault hx => hopen x ((hmem x).mpr hx) fault
      · exact fun hopen x hx fault => hopen x fault ((hmem x).mp hx)
    · intro x fault hx hdangling
      obtain ⟨record, p, hrecord, hfailed, _, hkept⟩ := hsettled.kept_of_dangling ((hmem x).mpr hx) hdangling
      exact ⟨record, p, hrecord, hfailed, hkept⟩

/-- Two files that import each other, and the page that dangles. -/
theorem failed_modules_kept_iff_remote :
    (∃ s₁, start Sample.config "deno" = .ok Sample.session ∧ 1 ≤ Sample.config.maxConcurrency ∧
      Sample.session.analyze Sample.world "a.ts" = (s₁, .ok Sample.snapshot) ∧ s₁.KeepsNothingOfFailed) ∧
    ∃ s₂ snap, start Sample.remoteConfig "deno" = .ok Sample.remoteSession ∧ 1 ≤ Sample.remoteConfig.maxConcurrency ∧
      Sample.remoteSession.analyzeConcurrently Sample.exportingWorld "a.ts" = (s₂, .ok snap) ∧
      s₂.program.modules.records.get? "//[" = some Sample.pageRecord ∧ Sample.pageRecord.directBlocking = [] := by
  have hanalyze : Sample.session.analyze Sample.world "a.ts" = (_, .ok Sample.snapshot) :=
    Prod.ext rfl (by decide +kernel)
  obtain ⟨snap, hconcurrent⟩ := Sample.exporting_returns
  obtain ⟨hrecord, _⟩ := Sample.exporting_kept
  obtain ⟨hkeeps, _⟩ := failed_modules_kept_iff _ _ _ Sample.start_eq (by decide) Sample.world "a.ts"
  obtain ⟨_, hkept⟩ := failed_modules_kept_iff _ _ _ Sample.remoteStart_eq (by decide) Sample.exportingWorld "a.ts"
  obtain ⟨_, hdirect, _⟩ := hkept _ _ hconcurrent
  exact ⟨⟨_, Sample.start_eq, by decide, hanalyze, hkeeps _ _ hanalyze⟩,
    _, snap, Sample.remoteStart_eq, by decide, hconcurrent, hrecord, hdirect _ _ hrecord rfl⟩

/-- After a concurrent analysis the page has failed, and its exports, its tree, its aliases, its call and the location of
its function are there. -/
theorem concurrent_keeps_parts_of_failed :
    ∃ s₂ snap, start Sample.remoteConfig "deno" = .ok Sample.remoteSession ∧ 1 ≤ Sample.remoteConfig.maxConcurrency ∧
      Sample.remoteSession.analyzeConcurrently Sample.exportingWorld "a.ts" = (s₂, .ok snap) ∧
      s₂.program.modules.records.get? "//[" = some Sample.pageRecord ∧ (s₂.parsed.get? "//[").isSome ∧
      s₂.program.aliases.modules.get? "//[" = some ⟨[("z", ⟨"//z", "z"⟩)]⟩ ∧ ("k", "z") ∈ s₂.program.calls.edges ∧
      "k" ∈ s₂.locations.keys ∧ ¬ s₂.KeepsNothingOfFailed := by
  obtain ⟨snap, hreturns⟩ := Sample.exporting_returns
  obtain ⟨hrecord, hparsed, haliases, hedge, hlocation⟩ := Sample.exporting_kept
  refine ⟨_, snap, Sample.remoteStart_eq, by decide, hreturns, hrecord, hparsed, haliases, hedge, hlocation, ?_⟩
  intro hkeeps
  obtain ⟨_, hexports, _⟩ := hkeeps.tables _ _ hrecord rfl
  exact absurd hexports (by decide)

end Session

end BlockingCalls
