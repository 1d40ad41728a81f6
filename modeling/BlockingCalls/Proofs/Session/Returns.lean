import BlockingCalls.Proofs.Session.Concurrent
import Mathlib.Data.Finset.Card
import Mathlib.Data.Finset.SDiff

/-!
# When an analysis returns

A module that cannot be read or parsed is recorded as failed in either way of analysing. What is different is what
becomes of a module that *dangles*, that is, has an import that cannot be resolved.

In a depth-first analysis the fault propagates from one entry to the enclosing one, up to the caller. So the analysis
returns if and only if no reachable module dangles, and otherwise ends with the fault of one that does. The bound on the
depth of nesting plays no part: each nested entry visits one more module of the extent (`unvisited_loading_lt`).

In a concurrent analysis the parent of the module records the fault and continues. So the analysis returns if and only if
the root does not dangle, and has then settled all that spreads from the root.

## Results

* `Traversal.enter_error`         — an entry fails with the fault of a module that it reaches.
* `analyzeModule_error`           — the same for a whole analysis of a module.
* `analyze_returns_iff`, `analyzeConcurrently_returns_iff` — when analyses of a fresh session return.
* `returns_iff_not_dangling`      — both ways side by side.
-/

namespace BlockingCalls

open Session (View Merged Loaded)

namespace Traversal

-- ---------------------------------------------------------------------------
-- Depth
-- ---------------------------------------------------------------------------

/-- How many modules of the extent of the root are not being visited. -/
def unvisited (c : Codebase) (root : ModuleId) (t : Traversal) : Nat :=
  ((c.extent root).toFinset \ t.visiting.toFinset).card

/-- Visiting more modules leaves fewer unvisited. -/
theorem unvisited_mono {c : Codebase} {root : ModuleId} {t t' : Traversal} (h : ∀ x ∈ t.visiting, x ∈ t'.visiting) :
    t'.unvisited c root ≤ t.unvisited c root := by
  apply Finset.card_le_card
  apply Finset.sdiff_subset_sdiff (Finset.Subset.refl _)
  intro x hx
  exact List.mem_toFinset.mpr (h x (List.mem_toFinset.mp hx))

/-- **The measure of the recursion decreases**: a module of the extent that is taken up is one less that is not being
visited. -/
theorem unvisited_loading_lt {c : Codebase} {root x : ModuleId} {t : Traversal} (w : World) (hx : x ∈ c.extent root)
    (hnew : x ∉ t.visiting) : (t.loading w x).unvisited c root < t.unvisited c root := by
  have hvisiting : ∀ y, y ∈ (t.loading w x).visiting ↔ y = x ∨ y ∈ t.visiting := by simp [loading, begin]
  have hbefore : x ∈ (c.extent root).toFinset \ t.visiting.toFinset := by
    rw [Finset.mem_sdiff, List.mem_toFinset, List.mem_toFinset]
    exact ⟨hx, hnew⟩
  have hafter : x ∉ (c.extent root).toFinset \ (t.loading w x).visiting.toFinset := by
    rw [Finset.mem_sdiff, List.mem_toFinset, List.mem_toFinset, hvisiting]
    exact fun h => h.2 (.inl rfl)
  refine Finset.card_lt_card ⟨?_, fun hback => hafter (hback hbefore)⟩
  intro y hy
  rw [Finset.mem_sdiff, List.mem_toFinset, List.mem_toFinset, hvisiting, not_or] at hy
  rw [Finset.mem_sdiff, List.mem_toFinset, List.mem_toFinset]
  exact ⟨hy.1, hy.2.2⟩

/-- Initially the measure is at most the length of the extent. -/
theorem unvisited_le_length (c : Codebase) (root : ModuleId) (t : Traversal) :
    t.unvisited c root ≤ (c.extent root).length :=
  calc t.unvisited c root
    _ ≤ (c.extent root).toFinset.card := Finset.card_le_card Finset.sdiff_subset
    _ ≤ (c.extent root).length := List.toFinset_card_le _

-- ---------------------------------------------------------------------------
-- Faults of a depth-first analysis
-- ---------------------------------------------------------------------------

/-- One of the imports is resolved to the given module. -/
def LeadsTo (c : Codebase) (location : String) (imports : List ImportDeclaration) (y : ModuleId) : Prop :=
  ∃ d ∈ imports, ∃ isRemote, c.resolver.resolve d.source location = .ok (.found y isRemote)

/-- Following a list of imports fails if one of them cannot be resolved, or if the entry of a module to which they lead
fails. By induction on the imports; `henter` and `herror` are the statements for the calls below. -/
theorem follow_error {c : Codebase} {w : World} {root : ModuleId} {depth : Nat}
    {enter : Traversal → ModuleId → Traversal × Except Fault (List Name)}
    (henter : ∀ t x t' names, t.session.codebase w = c → enter t x = (t', .ok names) → Enters c t t' x)
    (herror : ∀ t x t' fault, t.session.codebase w = c → c.Reachable root x → t.unvisited c root < depth →
      enter t x = (t', .error fault) → ∃ y, c.Reach t.Stops x y ∧ c.Dangling y fault)
    (m : Loaded) (imports : List ImportDeclaration) (t t' : Traversal) (fault : Fault) (hc : t.session.codebase w = c)
    (howner : m.summary.moduleId ∈ t.visiting) (hreachable : ∀ y, LeadsTo c m.location imports y → c.Reachable root y)
    (hdepth : t.unvisited c root < depth) (h : follow enter m t imports = (t', .error fault)) :
    c.targets m.location imports = .error fault ∨
      ∃ y, LeadsTo c m.location imports y ∧ ∃ z, c.Reach t.Stops y z ∧ c.Dangling z fault := by
  induction imports generalizing t with
  | nil => cases h
  | cons d rest ih =>
    have hresolver : t.session.resolver = c.resolver := by rw [← hc]; rfl
    have hlinked := entered_link hc m d
    have hstops := hlinked.stops_iff
    simp only [List.not_mem_nil, or_false] at hstops
    have hrest : ∀ y, LeadsTo c m.location rest y → LeadsTo c m.location (d :: rest) y :=
      fun y ⟨e, he, hfound⟩ => ⟨e, List.mem_cons_of_mem _ he, hfound⟩
    rw [follow] at h
    rcases Session.link_cases t.session m d with ⟨cause, hresolve, hlink⟩ | ⟨reason, hresolve, hlink⟩ |
      ⟨target, isRemote, hresolve, hlink⟩
    · -- the import cannot be resolved
      rw [hresolver] at hresolve
      rw [hlink] at h
      cases h
      rw [Codebase.targets, hresolve]
      exact .inl rfl
    · -- the import is skipped
      rw [hresolver] at hresolve
      rw [hlink] at h
      rw [Codebase.targets, hresolve]
      rcases ih _ ((hlinked.merged.codebase w).trans hc) howner (fun y hy => hreachable y (hrest y hy)) hdepth h with
        htargets | ⟨y, hy, z, hreach, hdangling⟩
      · exact .inl htargets
      · exact .inr ⟨y, hrest y hy, z, hreach.anti fun a ha => (hstops a).mpr ha, hdangling⟩
    · -- the import is resolved to a module
      rw [hresolver] at hresolve
      rw [hlink] at h
      rw [Codebase.targets, hresolve]
      have hc₁ := (hlinked.merged.codebase w).trans hc
      have htarget : LeadsTo c m.location (d :: rest) target := ⟨d, List.mem_cons_self, isRemote, hresolve⟩
      simp only at h
      split at h
      · -- the entry of its target fails
        rename_i t₁ cause hcall
        cases h
        obtain ⟨z, hreach, hdangling⟩ := herror _ _ _ _ hc₁ (hreachable target htarget) hdepth hcall
        exact .inr ⟨target, htarget, z, hreach.anti fun a ha => (hstops a).mpr ha, hdangling⟩
      · -- the entry returns: fewer modules are unvisited, and the rest is followed
        rename_i t₁ names hcall
        obtain ⟨ids₁, hentered₁, _, _⟩ := henter _ _ _ _ hc₁ hcall
        have hboth := hlinked.trans howner (hentered₁ m.summary.moduleId)
        have hvisiting : ∀ x ∈ t.visiting, x ∈ t₁.visiting := fun x hx => (hboth.visiting x).mpr (.inl hx)
        rcases ih t₁ ((hboth.merged.codebase w).trans hc) (hvisiting _ howner) (fun y hy => hreachable y (hrest y hy))
          (Nat.lt_of_le_of_lt (unvisited_mono hvisiting) hdepth) h with htargets | ⟨y, hy, z, hreach, hdangling⟩
        · refine .inl ?_
          simp only
          rw [htargets]
          rfl
        · exact .inr ⟨y, hrest y hy, z, hreach.anti fun a ha => (hboth.stops_iff a).mpr (.inl ha), hdangling⟩

/-- **The fault of an entry is that of a module that it reaches**, provided the depth exceeds the number of modules that
can still be visited. By induction on the depth. -/
theorem enter_error {c : Codebase} (hschemes : c.reader.remoteSchemes = c.resolver.config.remoteSchemes) {w : World}
    {root : ModuleId} (depth : Nat) (t : Traversal) (x : ModuleId) (t' : Traversal) (fault : Fault)
    (hc : t.session.codebase w = c) (hroot : c.Reachable root x) (hdepth : t.unvisited c root < depth)
    (h : enter w depth t x = (t', .error fault)) : ∃ y, c.Reach t.Stops x y ∧ c.Dangling y fault := by
  induction depth generalizing t x t' fault with
  | zero => omega
  | succ depth ih =>
    rw [enter] at h
    split at h
    · cases h
    · rename_i hgo
      rw [stops_iff_contains] at hgo
      cases hp : c.parse .waiting x with
      | error cause =>
        -- a module that cannot be parsed is no fault of the entry
        simp only [load_begin_of_error hc x hp] at h
        cases h
      | ok p =>
        simp only [load_begin_of_ok hc x hp] at h
        split at h
        · rename_i t₁ cause hfollow
          cases h
          have hfind := Codebase.find?_eq_some_of_parse hp
          have himports : ∀ y, LeadsTo c p.location (c.summary p).imports y → c.Imports x y :=
            fun y hy => ⟨p, hfind, hy⟩
          have hid : (c.summary p).moduleId = x := Codebase.moduleId_summary hp
          have hvisiting : (c.summary p).moduleId ∈ (t.loading w x).visiting := by simp [hid, loading, begin]
          have hless := unvisited_loading_lt w (Codebase.mem_extent hschemes hroot hfind) fun hmem => hgo (.inl hmem)
          have hcodebase := ((merged_loading hc x).codebase w).trans hc
          rcases follow_error (enter_entered depth) ih ⟨p.location, c.summary p⟩ _ _ _ _ hcodebase hvisiting
            (fun y hy => hroot.imports (himports y hy)) (by omega) hfollow with htargets | ⟨y, hy, z, hreach, hdangling⟩
          · -- the module itself dangles
            exact ⟨x, .root hgo, p, hfind, htargets⟩
          · -- a module that is reached through one of the imports dangles
            refine ⟨z, (Codebase.Reach.root hgo).through (himports y hy) ?_, hdangling⟩
            exact hreach.anti fun a ha => (stops_loading hc x a).mpr (.inl ha)
        · cases h

end Traversal

namespace Session

/-- The fault of an analysis of a module is that of a module that it reaches, and never that of the bound on the depth.
-/
theorem analyzeModule_error {s : Session} (hschemes : s.reader.remoteSchemes = s.resolver.config.remoteSchemes) {w : World}
    {moduleId : ModuleId} {visiting : List ModuleId} {t : Traversal} {fault : Fault}
    (h : s.analyzeModule w moduleId visiting = (t, .error fault)) :
    ∃ x, (s.codebase w).Reach (fun y => y ∈ visiting ∨ s.isFinished y = true) moduleId x ∧
      (s.codebase w).Dangling x fault := by
  have hextent := (s.codebase w).length_extent_le moduleId
  have hunvisited := Traversal.unvisited_le_length (s.codebase w) moduleId { session := s, visiting }
  have hworld : (s.codebase w).world = w := rfl
  rw [hworld] at hextent
  exact @Traversal.enter_error (s.codebase w) hschemes w moduleId _ { session := s, visiting } _ _ _ rfl (.root id)
    (by omega) h

-- ---------------------------------------------------------------------------
-- Analyses of a root file
-- ---------------------------------------------------------------------------

section Fresh

variable {s : Session} (hs : s.Fresh) (hschemes : s.reader.remoteSchemes = s.resolver.config.remoteSchemes) (w : World)
  (path : String)

include hschemes

/-- A depth-first analysis that does not return ends with the fault of a reachable module. -/
theorem analyze_error_dangling {s' : Session} {fault : Fault} (h : s.analyze w path = (s', .error fault)) :
    ∃ x, (s.codebase w).Reachable (s.resolver.rootModule w.current path) x ∧ (s.codebase w).Dangling x fault := by
  obtain ⟨entry, t, hmodule, _⟩ := analyze_error h
  obtain ⟨x, hreach, hdangling⟩ := @analyzeModule_error
    ({ s with root := some (s.resolver.rootModule w.current path) }.note entry) hschemes _ _ _ _ _ hmodule
  exact ⟨x, hreach.anti fun _ => False.elim, hdangling⟩

include hs

/-- A depth-first analysis of a fresh session returns if and only if no reachable module dangles. -/
theorem analyze_returns_iff :
    (∃ s' snap, s.analyze w path = (s', .ok snap)) ↔
      ∀ x fault, (s.codebase w).Reachable (s.resolver.rootModule w.current path) x → ¬ (s.codebase w).Dangling x fault := by
  constructor
  · -- an analysis that returns is complete, so all imports were resolved
    rintro ⟨s', snap, h⟩ x fault hx
    obtain ⟨entry, t, names, hmodule, _, _⟩ := analyze_ok h
    obtain ⟨hcomplete, _⟩ := analyzeModule_complete (hs.noteRoot _ entry) hmodule
    exact Pool.AllResolved.not_dangling hcomplete.resolved hx fault
  · -- an analysis that fails has met a module that dangles
    intro hopen
    cases h : s.analyze w path with
    | mk s' result =>
      cases result with
      | ok snap => exact ⟨s', snap, rfl⟩
      | error fault =>
        obtain ⟨x, hreach, hdangling⟩ := analyze_error_dangling hschemes w path h
        exact absurd hdangling (hopen x fault hreach)

variable (hcapacity : 0 ≤ s.resolver.config.maxConcurrency)

include hcapacity

/-- A concurrent analysis of a fresh session either returns, with all settled that spreads from the root, or ends with
the fault of the root. -/
theorem analyzeConcurrently_settled :
    (∃ s' snap, s.analyzeConcurrently w path = (s', .ok snap) ∧
      (∀ fault, ¬ (s.codebase w).Dangling (s.resolver.rootModule w.current path) fault) ∧
      ∀ x, (s.codebase w).Spreads (fun _ => False) (s.resolver.rootModule w.current path) x →
        s'.view x = (s.codebase w).settled .concurrent x .empty) ∨
    ∃ s' fault, s.analyzeConcurrently w path = (s', .error fault) ∧
      (s.codebase w).Dangling (s.resolver.rootModule w.current path) fault := by
  obtain ⟨entry, t, result, ids, hended, heq⟩ := analyzeConcurrently_ended s w path hschemes hcapacity
  have hfresh := hs.noteRoot (s.resolver.rootModule w.current path) entry
  have hstops : ∀ x, ¬ Pool.Stops ({ s with root := some (s.resolver.rootModule w.current path) }.note entry) x := by
    simp [hfresh.stops_iff]
  cases result with
  | error fault => exact .inr ⟨_, fault, heq, ((hended.error_iff fault).mp rfl).2⟩
  | ok names =>
    refine .inl ⟨_, _, heq, ?_, ?_⟩
    · -- the root does not dangle, as the result would be its fault
      intro fault hdangling
      have hfault := (hended.error_iff fault).mpr ⟨hstops _, hdangling⟩
      cases hfault
    · -- whatever is read is settled, as the result is no fault
      intro x hx
      rw [← hfresh.stops_iff] at hx
      rcases hended.inside x ((hended.mem_iff x).mpr hx) with hview | ⟨_, fault, hfault⟩
      · rw [hfresh.views] at hview
        exact hview
      · cases hfault

/-- A concurrent analysis of a fresh session returns if and only if the root does not dangle. -/
theorem analyzeConcurrently_returns_iff :
    (∃ s' snap, s.analyzeConcurrently w path = (s', .ok snap)) ↔
      ∀ fault, ¬ (s.codebase w).Dangling (s.resolver.rootModule w.current path) fault := by
  rcases analyzeConcurrently_settled hs hschemes w path hcapacity with ⟨s', snap, heq, hopen, _⟩ | ⟨s', fault, heq, hdangling⟩
  · exact ⟨fun _ => hopen, fun _ => ⟨s', snap, heq⟩⟩
  · constructor
    · rintro ⟨s'', snap, heq'⟩
      rw [heq] at heq'
      cases heq'
    · exact fun hopen => absurd hdangling (hopen fault)

end Fresh

/-- The record of a settled module: it is done if all imports can be resolved, and failed with the fault if the module
dangles or cannot be read and parsed. -/
theorem record_of_settled {c : Codebase} {mode : Mode} {x : ModuleId} {v : View} (h : v = c.settled mode x .empty) :
    (∀ ts, c.Opens x ts → ∃ record, v.record = some record ∧ record.progress = .done) ∧
    ∀ fault, c.Dangling x fault ∨ c.parse mode x = .error fault →
      ∃ record, v.record = some record ∧ record.progress = .failed ∧ record.error = some fault.message := by
  subst h
  constructor
  · rintro ts ⟨p, hp, hts⟩
    rw [Codebase.settled_of_targets_ok (Codebase.parse_eq_ok_of_find? hp) hts]
    exact ⟨_, rfl, rfl⟩
  · rintro fault (hdangling | hparse)
    · rw [Codebase.settled_of_dangling hdangling]
      exact ⟨_, rfl, rfl, rfl⟩
    · rw [Codebase.settled_of_parse_error hparse]
      exact ⟨_, rfl, rfl, rfl⟩

end Session

-- ---------------------------------------------------------------------------
-- A world with a page that dangles
-- ---------------------------------------------------------------------------

/-! A file imports a page and another file. The id of the page begins like that of a host in brackets that are never
closed, so that no relative specifier can be joined to it. The other file has a function that blocks. -/

namespace Sample

open BlockingCalls.Tree (Node)

/-- A configuration in which ids that begin with two slashes are remote. -/
def remoteConfig : Config :=
  { ignorePatterns := [], remoteSchemes := ["//"] }

def remoteSession : Session where
  resolver := { config := remoteConfig, ignore := [] }
  reader := { remoteSchemes := remoteConfig.remoteSchemes, denoExecutable := "deno" }

theorem remoteStart_eq : Session.start remoteConfig "deno" = .ok remoteSession := rfl

def importerText : String :=
  "import'//[';import'./c'"

def importerRows : List Node.Row :=
  [{ depth := 0, kind := "program", start := 0, stop := 23 },
   { depth := 1, kind := "import_statement", start := 0, stop := 12 },
   { depth := 2, kind := "string", start := 6, stop := 11, field := "source" },
   { depth := 1, kind := "import_statement", start := 12, stop := 23 },
   { depth := 2, kind := "string", start := 18, stop := 23, field := "source" }]

def siblingText : String :=
  "const f=()=>Deno.xSync()"

def siblingRows : List Node.Row :=
  [{ depth := 0, kind := "program", start := 0, stop := 24 },
   { depth := 1, kind := "lexical_declaration", start := 0, stop := 24 },
   { depth := 2, kind := "variable_declarator", start := 6, stop := 24 },
   { depth := 3, kind := "identifier", start := 6, stop := 7, field := "name" },
   { depth := 3, kind := "arrow_function", start := 8, stop := 24, field := "value" },
   { depth := 4, kind := "call_expression", start := 12, stop := 24, field := "body" },
   { depth := 5, kind := "member_expression", start := 12, stop := 22, field := "function" },
   { depth := 6, kind := "identifier", start := 12, stop := 16, field := "object" },
   { depth := 6, kind := "property_identifier", start := 17, stop := 22, field := "property" }]

/-- The world with the given page. -/
def remoteWorld (pageText : String) (pageRows : List Node.Row) : World where
  files := .ofList [("/work/a.ts", .text importerText), ("/work/c.ts", .text siblingText)]
  web := .ofList [("//[", .page pageText none)]
  trees := fun _ => .ofList <|
    [(importerText, importerRows), (siblingText, siblingRows), (pageText, pageRows)].filterMap fun e =>
      (Node.ofRows? e.2).map (e.1, ·)

/-- The world with a page that has one import, which is relative. -/
def danglingWorld : World :=
  remoteWorld "import'./y'"
    [{ depth := 0, kind := "program", start := 0, stop := 11 },
     { depth := 1, kind := "import_statement", start := 0, stop := 11 },
     { depth := 2, kind := "string", start := 6, stop := 11, field := "source" }]

/-- What is known after a concurrent analysis of the first file. -/
def danglingSnapshot : Session.Snapshot where
  root := "/work/a.ts"
  blocking := ["f"]
  directBlocking := [("/work/a.ts", []), ("//[", []), ("/work/c.ts", ["f"])]
  calls := ⟨⟨[("f", [])]⟩⟩
  failed := [("//[", "Invalid IPv6 URL")]

end Sample

namespace Session

/-- **When an analysis returns**: a depth-first analysis of a new session returns if and only if no reachable module
dangles, and otherwise ends with the fault of a module that does. A concurrent one returns if and only if the root does not
dangle. Every module that spreads from the root is then recorded: as done if all its imports can be resolved, and as failed
with its fault if it dangles or cannot be read and parsed. -/
theorem returns_iff_not_dangling (config : Config) (deno : String) (s : Session) (hs : start config deno = .ok s)
    (hcapacity : 1 ≤ config.maxConcurrency) (w : World) (path : String) :
    ((∃ s₁ snap, s.analyze w path = (s₁, .ok snap)) ↔
      ∀ x fault, (s.codebase w).Reachable (s.resolver.rootModule w.current path) x → ¬ (s.codebase w).Dangling x fault) ∧
    (∀ s₁ fault, s.analyze w path = (s₁, .error fault) →
      ∃ x, (s.codebase w).Reachable (s.resolver.rootModule w.current path) x ∧ (s.codebase w).Dangling x fault) ∧
    ((∃ s₂ snap, s.analyzeConcurrently w path = (s₂, .ok snap)) ↔
      ∀ fault, ¬ (s.codebase w).Dangling (s.resolver.rootModule w.current path) fault) ∧
    ∀ s₂ snap, s.analyzeConcurrently w path = (s₂, .ok snap) →
      ∀ x, (s.codebase w).Spreads (fun _ => False) (s.resolver.rootModule w.current path) x →
        (∀ ts, (s.codebase w).Opens x ts →
          ∃ record, s₂.program.modules.records.get? x = some record ∧ record.progress = .done) ∧
        ∀ fault, (s.codebase w).Dangling x fault ∨ (s.codebase w).parse .concurrent x = .error fault →
          ∃ record, s₂.program.modules.records.get? x = some record ∧ record.progress = .failed ∧
            record.error = some fault.message := by
  obtain ⟨hconfig, hreader⟩ := config_start hs
  have hschemes : s.reader.remoteSchemes = s.resolver.config.remoteSchemes := by rw [hconfig, hreader]
  have hcapacity' : 0 ≤ s.resolver.config.maxConcurrency := by
    rw [hconfig]
    omega
  have hfresh := fresh_start hs
  refine ⟨analyze_returns_iff hfresh hschemes w path, fun s₁ fault => analyze_error_dangling hschemes w path,
    analyzeConcurrently_returns_iff hfresh hschemes w path hcapacity', ?_⟩
  intro s₂ snap heq x hx
  rcases analyzeConcurrently_settled hfresh hschemes w path hcapacity' with
    ⟨s', snap', heq', _, hsettled⟩ | ⟨s', fault, heq', _⟩
  · rw [heq] at heq'
    cases heq'
    exact record_of_settled (hsettled x hx)
  · rw [heq] at heq'
    cases heq'

/-- With the page that dangles: some module that the first file leads to dangles, and it is not the first file. -/
theorem returns_iff_not_dangling_remote :
    start Sample.remoteConfig "deno" = .ok Sample.remoteSession ∧ 1 ≤ Sample.remoteConfig.maxConcurrency ∧
    (∃ x, (Sample.remoteSession.codebase Sample.danglingWorld).Reachable "/work/a.ts" x ∧
      (Sample.remoteSession.codebase Sample.danglingWorld).Dangling x (.badUrl .misplacedBrackets)) ∧
    ∀ fault, ¬ (Sample.remoteSession.codebase Sample.danglingWorld).Dangling "/work/a.ts" fault := by
  obtain ⟨_, herror, hreturns, _⟩ :=
    returns_iff_not_dangling Sample.remoteConfig "deno" Sample.remoteSession Sample.remoteStart_eq (by decide)
      Sample.danglingWorld "a.ts"
  have hanalyze : Sample.remoteSession.analyze Sample.danglingWorld "a.ts" = (_, .error (.badUrl .misplacedBrackets)) :=
    Prod.ext rfl (by decide +kernel)
  have hconcurrent : Sample.remoteSession.analyzeConcurrently Sample.danglingWorld "a.ts" =
      (_, .ok Sample.danglingSnapshot) := Prod.ext rfl (by decide +kernel)
  exact ⟨Sample.remoteStart_eq, by decide, herror _ _ hanalyze, hreturns.mp ⟨_, _, hconcurrent⟩⟩

/-- The page dangles and the root does not: the concurrent analysis returns and records the failure, the depth-first one
ends with the fault of the page. -/
theorem analyze_escapes_where_concurrent_returns :
    start Sample.remoteConfig "deno" = .ok Sample.remoteSession ∧ 1 ≤ Sample.remoteConfig.maxConcurrency ∧
    (∃ s₂, Sample.remoteSession.analyzeConcurrently Sample.danglingWorld "a.ts" = (s₂, .ok Sample.danglingSnapshot)) ∧
    ∃ s₁, Sample.remoteSession.analyze Sample.danglingWorld "a.ts" = (s₁, .error (.badUrl .misplacedBrackets)) :=
  ⟨Sample.remoteStart_eq, by decide, ⟨_, Prod.ext rfl (by decide +kernel)⟩, _, Prod.ext rfl (by decide +kernel)⟩

end Session

end BlockingCalls
