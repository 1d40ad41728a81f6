import BlockingCalls.Proofs.Readers
import BlockingCalls.Proofs.Summary
import BlockingCalls.Session.Basic

/-!
# Codebases

A world, together with a reader of modules and a resolver of specifiers, is a codebase. The modules, their trees and their
imports are determined by the codebase alone; a session only discovers them. The definitions here are the declarative side
of the analysis, to which the tables of a session are compared.

A module that cannot be read or parsed has no imports. The two ways of reading a module differ in nothing but the text
of a fault (`toOption_parse`), so there is one codebase for both.

## Results

* `Codebase.toOption_parse`     — what can be parsed does not depend on the way of reading.
* `Codebase.mem_targets`        — the targets of imports, as a list and import by import.
* `Codebase.Reach.anti`         — with more modules to stop at fewer are reached.
* `Codebase.mem_of_reach`       — a list that is closed under imports contains what is reached.
* `Codebase.spreads_iff_reach`  — where every import can be resolved, both kinds of reachability agree.
-/

namespace BlockingCalls

-- ---------------------------------------------------------------------------
-- Two ways of reading
-- ---------------------------------------------------------------------------

/-- Both ways of reading succeed on the same modules and with the same source. -/
theorem Reader.toOption_outcome_read (r : Reader) (mode mode' : Mode) (w : World) (moduleId : ModuleId) :
    (r.read mode w moduleId).outcome.toOption = (r.read mode' w moduleId).outcome.toOption := by
  have hagree := r.toOption_outcome_readConcurrently w moduleId
  cases mode <;> cases mode'
  · rfl
  · exact hagree.symm
  · exact hagree
  · rfl

/-- A source is that of the module that was asked for. -/
theorem Reader.moduleId_of_read {r : Reader} {mode : Mode} {w : World} {moduleId : ModuleId} {source : Source}
    (h : (r.read mode w moduleId).outcome = .ok source) : source.moduleId = moduleId := by
  have hfetch : ∀ target, (fetch w moduleId target).outcome = .ok source → source.moduleId = moduleId := by
    intro target hfetch
    obtain ⟨_, _, _, rfl⟩ := page_of_fetch hfetch
    rfl
  rw [read_eq] at h
  split at h
  · -- a remote module; a specifier of the registry is resolved first
    split at h
    · obtain ⟨target, _, htarget⟩ := Traced.outcome_bind_eq_ok_iff.mp h
      exact hfetch target htarget
    · exact hfetch (.ofText moduleId) h
  · -- a file
    exact (file_of_readFile h).2.1

-- ---------------------------------------------------------------------------
-- Modules
-- ---------------------------------------------------------------------------

/-- A world with the reader and the resolver of an analysis. -/
structure Codebase where
  world : World
  resolver : Resolver
  reader : Reader

namespace Codebase

/-- The result of reading and parsing a module. -/
def parse (c : Codebase) (mode : Mode) (moduleId : ModuleId) : Except Fault Parsed :=
  (c.reader.read mode c.world moduleId).outcome.bind (Parsed.ofSource c.world)

/-- The module of an id, where there is one that can be read and parsed. -/
def find? (c : Codebase) (moduleId : ModuleId) : Option Parsed :=
  (c.parse .waiting moduleId).toOption

/-- The summary of a parsed module. -/
def summary (c : Codebase) (p : Parsed) : Summary :=
  Summary.ofTree c.resolver.config p.moduleId p.text p.root

/-- What can be parsed does not depend on the way of reading. -/
theorem toOption_parse (c : Codebase) (mode : Mode) (moduleId : ModuleId) :
    (c.parse mode moduleId).toOption = c.find? moduleId := by
  have hread := c.reader.toOption_outcome_read mode .waiting c.world moduleId
  unfold find? parse
  cases ha : (c.reader.read mode c.world moduleId).outcome <;>
    cases hb : (c.reader.read .waiting c.world moduleId).outcome <;>
      rw [ha, hb] at hread <;> simp_all [Except.toOption, Except.bind]

theorem find?_eq_some_of_parse {c : Codebase} {mode : Mode} {moduleId : ModuleId} {p : Parsed}
    (h : c.parse mode moduleId = .ok p) : c.find? moduleId = some p := by
  rw [← c.toOption_parse mode, h]
  rfl

theorem find?_eq_none_of_parse {c : Codebase} {mode : Mode} {moduleId : ModuleId} {fault : Fault}
    (h : c.parse mode moduleId = .error fault) : c.find? moduleId = none := by
  rw [← c.toOption_parse mode, h]
  rfl

/-- A module that is found is parsed in either mode. -/
theorem parse_eq_ok_of_find? {c : Codebase} {mode : Mode} {x : ModuleId} {p : Parsed} (h : c.find? x = some p) :
    c.parse mode x = .ok p := by
  rw [← c.toOption_parse mode] at h
  cases hp : c.parse mode x with
  | error fault =>
    rw [hp] at h
    cases h
  | ok q =>
    rw [hp] at h
    cases h
    rfl

/-- A module that is not found fails in either mode, with a fault that depends on the mode. -/
theorem parse_eq_error_of_find? {c : Codebase} {mode : Mode} {x : ModuleId} (h : c.find? x = none) :
    ∃ fault, c.parse mode x = .error fault := by
  rw [← c.toOption_parse mode] at h
  cases hp : c.parse mode x with
  | error fault => exact ⟨fault, rfl⟩
  | ok q =>
    rw [hp] at h
    cases h

/-- A parsed module has the id by which it was read. -/
theorem moduleId_of_parse {c : Codebase} {mode : Mode} {moduleId : ModuleId} {p : Parsed}
    (h : c.parse mode moduleId = .ok p) : p.moduleId = moduleId := by
  unfold parse at h
  cases hread : (c.reader.read mode c.world moduleId).outcome with
  | error fault =>
    rw [hread] at h
    cases h
  | ok source =>
    -- parsing keeps the id of the source, in each of its branches
    rw [hread] at h
    have hsource : Parsed.ofSource c.world source = .ok p := h
    unfold Parsed.ofSource at hsource
    rw [← Reader.moduleId_of_read hread]
    split at hsource
    · cases hsource
    · simp only at hsource
      split at hsource <;> cases hsource
      rfl

theorem moduleId_summary {c : Codebase} {mode : Mode} {moduleId : ModuleId} {p : Parsed}
    (h : c.parse mode moduleId = .ok p) : (c.summary p).moduleId = moduleId := by
  rw [summary, Summary.moduleId_ofTree, moduleId_of_parse h]

-- ---------------------------------------------------------------------------
-- Imports
-- ---------------------------------------------------------------------------

/-- The modules to which imports of a location are resolved, in order; a fault if one of them cannot be resolved. -/
def targets (c : Codebase) (location : String) : List ImportDeclaration → Except Fault (List ModuleId)
  | [] => .ok []
  | d :: rest =>
    match c.resolver.resolve d.source location with
    | .error fault => .error (.badUrl fault)
    | .ok (.skipped _) => c.targets location rest
    | .ok (.found target _) => (c.targets location rest).map (target :: ·)

/-- The aliases that imports bind to local names, in order, up to the first import that cannot be resolved. -/
def bindings (c : Codebase) (location : String) : List ImportDeclaration → List (Name × Alias)
  | [] => []
  | d :: rest =>
    match c.resolver.resolve d.source location with
    | .error _ => []
    | .ok (.skipped _) => c.bindings location rest
    | .ok (.found target _) => d.bindings.map (fun b => (b.localName, ⟨target, b.imported⟩)) ++ c.bindings location rest

/-- The aliases that the imports of a module bind. -/
def bindingsOf (c : Codebase) (p : Parsed) : List (Name × Alias) :=
  c.bindings p.location (c.summary p).imports

/-- The modules to which the imports of a module are resolved. -/
def targetsOf (c : Codebase) (p : Parsed) : Except Fault (List ModuleId) :=
  c.targets p.location (c.summary p).imports

/-- An import of the first module is resolved to the second, and not skipped. -/
def Imports (c : Codebase) (x y : ModuleId) : Prop :=
  ∃ p, c.find? x = some p ∧ ∃ d ∈ (c.summary p).imports, ∃ isRemote,
    c.resolver.resolve d.source p.location = .ok (.found y isRemote)

/-- The first import is skipped, or is resolved to the first target. -/
theorem targets_cons_ok {c : Codebase} {location : String} {d : ImportDeclaration} {rest : List ImportDeclaration}
    {ts : List ModuleId} (h : c.targets location (d :: rest) = .ok ts) :
    (∃ reason, c.resolver.resolve d.source location = .ok (.skipped reason) ∧ c.targets location rest = .ok ts) ∨
    ∃ target isRemote more, c.resolver.resolve d.source location = .ok (.found target isRemote) ∧
      c.targets location rest = .ok more ∧ ts = target :: more := by
  rw [targets] at h
  split at h
  · cases h
  · rename_i reason hresolve
    exact .inl ⟨reason, hresolve, h⟩
  · rename_i target isRemote hresolve
    cases hmore : c.targets location rest with
    | error fault =>
      rw [hmore] at h
      cases h
    | ok more =>
      rw [hmore] at h
      cases h
      exact .inr ⟨target, isRemote, more, hresolve, rfl, rfl⟩

/-- **The targets as a list and import by import.** -/
theorem mem_targets {c : Codebase} {location : String} {imports : List ImportDeclaration} {ts : List ModuleId}
    (h : c.targets location imports = .ok ts) {y : ModuleId} :
    y ∈ ts ↔ ∃ d ∈ imports, ∃ isRemote, c.resolver.resolve d.source location = .ok (.found y isRemote) := by
  induction imports generalizing ts with
  | nil =>
    cases h
    simp
  | cons d rest ih =>
    rcases targets_cons_ok h with ⟨reason, hresolve, hrest⟩ | ⟨target, isRemote, more, hresolve, hrest, rfl⟩
    · simp [ih hrest, hresolve]
    · cases isRemote <;> simp [ih hrest, hresolve, @eq_comm _ y]

/-- The import relation in terms of the targets. -/
theorem imports_iff_mem_targets {c : Codebase} {x y : ModuleId} {p : Parsed} {ts : List ModuleId}
    (hp : c.find? x = some p) (hts : c.targetsOf p = .ok ts) : c.Imports x y ↔ y ∈ ts := by
  rw [mem_targets hts]
  constructor
  · rintro ⟨q, hq, htarget⟩
    rw [hp] at hq
    cases hq
    exact htarget
  · exact fun htarget => ⟨p, hp, htarget⟩

/-- The module can be parsed, and all its imports can be resolved, to the given modules. -/
def Opens (c : Codebase) (x : ModuleId) (ts : List ModuleId) : Prop :=
  ∃ p, c.find? x = some p ∧ c.targetsOf p = .ok ts

/-- The module can be parsed, but one of its imports cannot be resolved; the fault is that of the first. -/
def Dangling (c : Codebase) (x : ModuleId) (fault : Fault) : Prop :=
  ∃ p, c.find? x = some p ∧ c.targetsOf p = .error fault

theorem Opens.imports {c : Codebase} {x y : ModuleId} {ts : List ModuleId} (h : c.Opens x ts) (hy : y ∈ ts) :
    c.Imports x y := by
  obtain ⟨p, hp, hts⟩ := h
  exact (imports_iff_mem_targets hp hts).mpr hy

/-- A module opens one list. -/
theorem Opens.unique {c : Codebase} {x : ModuleId} {ts ts' : List ModuleId} (h : c.Opens x ts) (h' : c.Opens x ts') :
    ts = ts' := by
  obtain ⟨p, hp, hts⟩ := h
  obtain ⟨q, hq, hts'⟩ := h'
  rw [hp] at hq
  cases hq
  rw [hts] at hts'
  cases hts'
  rfl

/-- A module dangles with one fault. -/
theorem Dangling.unique {c : Codebase} {x : ModuleId} {fault fault' : Fault} (h : c.Dangling x fault)
    (h' : c.Dangling x fault') : fault = fault' := by
  obtain ⟨p, hp, hts⟩ := h
  obtain ⟨q, hq, hts'⟩ := h'
  rw [hp] at hq
  cases hq
  rw [hts] at hts'
  cases hts'
  rfl

/-- A module that opens does not dangle. -/
theorem Opens.not_dangling {c : Codebase} {x : ModuleId} {ts : List ModuleId} (h : c.Opens x ts) (fault : Fault) :
    ¬ c.Dangling x fault := by
  rintro ⟨q, hq, hfault⟩
  obtain ⟨p, hp, hts⟩ := h
  rw [hp] at hq
  cases hq
  rw [hts] at hfault
  cases hfault

/-- A module that can be parsed either opens or dangles. -/
theorem opens_or_dangling {c : Codebase} {x : ModuleId} {p : Parsed} (h : c.find? x = some p) :
    (∃ ts, c.Opens x ts) ∨ ∃ fault, c.Dangling x fault := by
  cases hts : c.targetsOf p with
  | error fault => exact .inr ⟨fault, p, h, hts⟩
  | ok ts => exact .inl ⟨ts, p, h, hts⟩

/-- The bindings of a list of imports, one import at a time. -/
theorem bindings_cons_of_ok {c : Codebase} {location : String} {d : ImportDeclaration} {rest : List ImportDeclaration}
    {resolution : Resolution} (h : c.resolver.resolve d.source location = .ok resolution) :
    c.bindings location (d :: rest) = c.bindings location [d] ++ c.bindings location rest := by
  simp only [bindings, h]
  cases resolution with
  | skipped reason => rfl
  | found target isRemote => simp

/-- The source of an alias that imports bind is the target of one of them. -/
theorem mem_bindings {c : Codebase} {location : String} {imports : List ImportDeclaration} {b : Name × Alias}
    (h : b ∈ c.bindings location imports) :
    ∃ d ∈ imports, ∃ isRemote, c.resolver.resolve d.source location = .ok (.found b.2.source isRemote) := by
  induction imports with
  | nil => cases h
  | cons d rest ih =>
    rw [bindings] at h
    split at h
    · cases h
    · obtain ⟨d', hd', hfound⟩ := ih h
      exact ⟨d', List.mem_cons_of_mem _ hd', hfound⟩
    · rename_i target isRemote hresolve
      rcases List.mem_append.mp h with h | h
      · obtain ⟨binding, _, rfl⟩ := List.mem_map.mp h
        exact ⟨d, List.mem_cons_self, isRemote, hresolve⟩
      · obtain ⟨d', hd', hfound⟩ := ih h
        exact ⟨d', List.mem_cons_of_mem _ hd', hfound⟩

-- ---------------------------------------------------------------------------
-- Reachability
-- ---------------------------------------------------------------------------

/-- Reachability along imports, through modules at which the path does not stop. -/
inductive Reach (c : Codebase) (stop : ModuleId → Prop) (root : ModuleId) : ModuleId → Prop
  | root (go : ¬ stop root) : Reach c stop root root
  | step {x y : ModuleId} (reached : Reach c stop root x) (imports : c.Imports x y) (go : ¬ stop y) :
      Reach c stop root y

/-- With more modules to stop at fewer are reached. -/
theorem Reach.anti {c : Codebase} {stop stop' : ModuleId → Prop} (hstop : ∀ x, stop x → stop' x) {root x : ModuleId}
    (h : c.Reach stop' root x) : c.Reach stop root x := by
  induction h with
  | root go => exact .root fun hroot => go (hstop _ hroot)
  | step _ himports go ih => exact .step ih himports fun hy => go (hstop _ hy)

/-- Paths compose: what is reached from an import of a reached module is reached. -/
theorem Reach.through {c : Codebase} {stop : ModuleId → Prop} {root x y z : ModuleId} (h : c.Reach stop root x)
    (himports : c.Imports x y) (hz : c.Reach stop y z) : c.Reach stop root z := by
  induction hz with
  | root go => exact .step h himports go
  | step _ himports' go ih => exact .step ih himports' go

/-- A list that contains the root and is closed under imports contains what is reached. -/
theorem mem_of_reach {c : Codebase} {stop : ModuleId → Prop} {root : ModuleId} {ids : List ModuleId}
    (hroot : root ∈ ids ∨ stop root) (hclosed : ∀ x ∈ ids, ∀ y, c.Imports x y → y ∈ ids ∨ stop y) {x : ModuleId}
    (h : c.Reach stop root x) : x ∈ ids := by
  induction h with
  | root go => exact hroot.resolve_right go
  | step _ himports go ih => exact (hclosed _ ih _ himports).resolve_right go

/-- Reachability along imports without modules to stop at. -/
def Reachable (c : Codebase) (root x : ModuleId) : Prop :=
  c.Reach (fun _ => False) root x

theorem Reachable.imports {c : Codebase} {root x y : ModuleId} (h : c.Reachable root x) (himports : c.Imports x y) :
    c.Reachable root y :=
  .step h himports id

/-- Reachability where all imports of a module are resolved before one of them is followed: nothing is reached through a
module that dangles, not even along those of its imports that can be resolved. -/
inductive Spreads (c : Codebase) (stop : ModuleId → Prop) (root : ModuleId) : ModuleId → Prop
  | root (go : ¬ stop root) : Spreads c stop root root
  | step {x y : ModuleId} {ts : List ModuleId} (reached : Spreads c stop root x) (opens : c.Opens x ts) (mem : y ∈ ts)
      (go : ¬ stop y) : Spreads c stop root y

/-- What is reached in this sense is reachable. -/
theorem Spreads.reach {c : Codebase} {stop : ModuleId → Prop} {root x : ModuleId} (h : c.Spreads stop root x) :
    c.Reach stop root x := by
  induction h with
  | root go => exact .root go
  | step _ opens mem go ih => exact .step ih (opens.imports mem) go

/-- **Where every import of what is reached can be resolved, both kinds of reachability agree.** -/
theorem spreads_iff_reach {c : Codebase} {stop : ModuleId → Prop} {root : ModuleId}
    (h : ∀ x, c.Reach stop root x → ∀ fault, ¬ c.Dangling x fault) {x : ModuleId} :
    c.Spreads stop root x ↔ c.Reach stop root x := by
  refine ⟨Spreads.reach, fun hx => ?_⟩
  induction hx with
  | root go => exact .root go
  | step reached imports go ih =>
    obtain ⟨p, hp, htarget⟩ := imports
    rcases opens_or_dangling hp with ⟨ts, hopens⟩ | ⟨fault, hdangling⟩
    · -- the module opens, and the import is one of its targets
      obtain ⟨q, hq, hts⟩ := hopens
      exact .step ih ⟨q, hq, hts⟩ ((imports_iff_mem_targets hq hts).mp ⟨p, hp, htarget⟩) go
    · -- nothing that is reached dangles
      exact absurd hdangling (h _ reached fault)

/-- A list that contains the root and all that its modules open contains what is reached. -/
theorem mem_of_spreads {c : Codebase} {stop : ModuleId → Prop} {root : ModuleId} {ids : List ModuleId}
    (hroot : root ∈ ids ∨ stop root)
    (hclosed : ∀ x ∈ ids, ∀ ts, c.Opens x ts → ∀ y ∈ ts, y ∈ ids ∨ stop y) {x : ModuleId}
    (h : c.Spreads stop root x) : x ∈ ids := by
  induction h with
  | root go => exact hroot.resolve_right go
  | step _ opens mem go ih => exact (hclosed _ ih _ opens _ mem).resolve_right go

end Codebase

-- ---------------------------------------------------------------------------
-- A world with a cycle of imports
-- ---------------------------------------------------------------------------

/-! Two files import each other. In the first, `h` calls `g`, which stands for what the second exports as its default;
that is `f`, which calls a blocking operation. -/

namespace Sample

open BlockingCalls.Tree (Node)

def firstText : String :=
  "import g from'./b';const h=()=>g()"

def secondText : String :=
  "import'./a';const f=()=>Deno.readSync();export default f"

def firstRows : List Node.Row :=
  [{ depth := 0, kind := "program", start := 0, stop := 34 },
   { depth := 1, kind := "import_statement", start := 0, stop := 19 },
   { depth := 2, kind := "import_clause", start := 7, stop := 8 },
   { depth := 3, kind := "identifier", start := 7, stop := 8 },
   { depth := 2, kind := "string", start := 13, stop := 18, field := "source" },
   { depth := 1, kind := "lexical_declaration", start := 19, stop := 34 },
   { depth := 2, kind := "variable_declarator", start := 25, stop := 34 },
   { depth := 3, kind := "identifier", start := 25, stop := 26, field := "name" },
   { depth := 3, kind := "arrow_function", start := 27, stop := 34, field := "value" },
   { depth := 4, kind := "call_expression", start := 31, stop := 34, field := "body" },
   { depth := 5, kind := "identifier", start := 31, stop := 32, field := "function" }]

def secondRows : List Node.Row :=
  [{ depth := 0, kind := "program", start := 0, stop := 56 },
   { depth := 1, kind := "import_statement", start := 0, stop := 12 },
   { depth := 2, kind := "string", start := 6, stop := 11, field := "source" },
   { depth := 1, kind := "lexical_declaration", start := 12, stop := 40 },
   { depth := 2, kind := "variable_declarator", start := 18, stop := 39 },
   { depth := 3, kind := "identifier", start := 18, stop := 19, field := "name" },
   { depth := 3, kind := "arrow_function", start := 20, stop := 39, field := "value" },
   { depth := 4, kind := "call_expression", start := 24, stop := 39, field := "body" },
   { depth := 5, kind := "member_expression", start := 24, stop := 37, field := "function" },
   { depth := 6, kind := "identifier", start := 24, stop := 28, field := "object" },
   { depth := 6, kind := "property_identifier", start := 29, stop := 37, field := "property" },
   { depth := 1, kind := "export_statement", start := 40, stop := 56 },
   { depth := 2, kind := "default", start := 47, stop := 54 },
   { depth := 2, kind := "identifier", start := 55, stop := 56, field := "value" }]

/-- The tree of each text, where its rows make one. -/
def trees : List (String × Node) :=
  [(firstText, firstRows), (secondText, secondRows)].filterMap fun e => (Node.ofRows? e.2).map (e.1, ·)

def world : World where
  files := .ofList [("/work/a.ts", .text firstText), ("/work/b.ts", .text secondText)]
  trees := fun _ => .ofList trees

/-- A configuration with no ignore patterns. -/
def config : Config :=
  { ignorePatterns := [] }

/-- The session with this configuration in which nothing has been analysed yet. -/
def session : Session where
  resolver := { config, ignore := [] }
  reader := { remoteSchemes := config.remoteSchemes, denoExecutable := "deno" }

theorem start_eq : Session.start config "deno" = .ok session := rfl

/-- What is known after an analysis of the first file. -/
def snapshot : Session.Snapshot where
  root := "/work/a.ts"
  blocking := ["h", "g", "f"]
  directBlocking := [("/work/a.ts", []), ("/work/b.ts", ["f"])]
  calls := ⟨⟨[("h", ["g"]), ("f", [])]⟩⟩
  failed := []

end Sample

end BlockingCalls
