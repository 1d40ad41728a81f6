import BlockingCalls.Proofs.Codebase
import BlockingCalls.Proofs.Path
import BlockingCalls.World.Extent
import Mathlib.Algebra.Order.BigOperators.Group.List
import Mathlib.Algebra.Order.Ring.Nat

/-!
# The extent of a codebase

Only finitely many modules that can be loaded are reachable from one root, though there are infinitely many specifiers. A
module that can be loaded is the root, or has an entry of its own in the web or in the answers of `deno`, or is a path. A
path is imported by a page, by one of finitely many specifiers, or by a file; then it is a normal path, and boundedly many
of those name one file (`Path.mem_naming`). `extent` lists all of them.

## Results

* `Codebase.mem_extent`          — what is reachable and can be loaded is in the extent.
* `Codebase.length_extent_le`    — the extent is not longer than the bound of the world.
* `Codebase.fanOut_le`           — a module has no more targets than there are nodes.
* `Codebase.mem_enterable`       — what is reachable, loaded or not, is one of finitely many modules.
-/

namespace BlockingCalls

open BlockingCalls.Tree (Node Visit visits)

namespace World

/-- The final locations of the pages of the web, after redirects. -/
def pageLocations (w : World) : List String :=
  w.web.entries.map fun e =>
    match e.2 with
    | .page _ location => location.getD e.1
    | _ => e.1

/-- The texts with their trees, in all languages. -/
def parses (w : World) : List (String × Node) :=
  Tree.Language.all.flatMap fun language => (w.trees language).entries

/-- The specifiers of all imports of all trees. -/
def specifiers (w : World) : List String :=
  w.parses.flatMap fun e => ((visits e.1 e.2).flatMap (·.declarations e.1)).map (·.source)

/-- The number of nodes of all trees. -/
theorem nodeCount_eq (w : World) : w.nodeCount = (w.parses.map (·.2.size)).sum := by
  unfold nodeCount parses Table.values
  rw [List.map_flatMap, List.map_flatMap]
  simp only [List.map_map]
  rfl

theorem mem_parses {w : World} {language : Tree.Language} {text : String} {tree : Node}
    (h : (w.trees language).get? text = some tree) : (text, tree) ∈ w.parses :=
  List.mem_flatMap.mpr ⟨language, language.mem_all, Table.mem_entries_of_get?_eq_some h⟩

theorem length_declarations_le (source : String) (v : Visit) : (v.declarations source).length ≤ 1 := by
  unfold Visit.declarations
  simp only
  split <;> simp

/-- A tree has no more imports than nodes. -/
theorem length_flatMap_declarations_le (source : String) (root : Node) :
    ((visits source root).flatMap (·.declarations source)).length ≤ root.size := by
  have hvisits : ∀ vs : List Visit, (vs.flatMap (·.declarations source)).length ≤ vs.length := by
    intro vs
    induction vs with
    | nil => simp
    | cons v rest ih =>
      have hone := length_declarations_le source v
      rw [List.flatMap_cons, List.length_append, List.length_cons]
      omega
  exact Nat.le_trans (hvisits _) (Tree.length_visits_le source root)

/-- There are no more specifiers than nodes. -/
theorem length_specifiers_le (w : World) : w.specifiers.length ≤ w.nodeCount := by
  rw [nodeCount_eq, specifiers]
  induction w.parses with
  | nil => simp
  | cons e rest ih =>
    have hone := length_flatMap_declarations_le e.1 e.2
    rw [List.flatMap_cons, List.length_append, List.length_map, List.map_cons, List.sum_cons]
    omega

section Text

variable {w : World} {language : Tree.Language} {text : String}

/-- A text without a tree has no imports. -/
theorem declarations_of_no_tree (h : (w.trees language).get? text = none) :
    (visits text (w.treeOf language text)).flatMap (·.declarations text) = [] := by
  have hother : Tree.classify text (w.treeOf language text) = .other := by
    rw [treeOf, h]
    rfl
  have hchildren : (w.treeOf language text).children = [] := by
    rw [treeOf, h]
    rfl
  simp [visits, Tree.walk, hother, Tree.Item.inner, hchildren, Visit.declarations]

/-- The imports of the tree of a text are among all imports. -/
theorem mem_specifiers_of_mem_declarations {d : ImportDeclaration}
    (h : d ∈ (visits text (w.treeOf language text)).flatMap (·.declarations text)) : d.source ∈ w.specifiers := by
  cases htree : (w.trees language).get? text with
  | none =>
    rw [declarations_of_no_tree htree] at h
    cases h
  | some tree =>
    rw [treeOf, htree] at h
    exact List.mem_flatMap.mpr ⟨(text, tree), mem_parses htree, List.mem_map.mpr ⟨d, h, rfl⟩⟩

/-- The tree of a text has no more imports than all trees have nodes. -/
theorem length_declarations_treeOf_le (w : World) (language : Tree.Language) (text : String) :
    ((visits text (w.treeOf language text)).flatMap (·.declarations text)).length ≤ w.nodeCount := by
  cases htree : (w.trees language).get? text with
  | none =>
    rw [declarations_of_no_tree htree]
    exact Nat.zero_le _
  | some tree =>
    have hmem : tree.size ∈ w.parses.map (·.2.size) := List.mem_map.mpr ⟨(text, tree), mem_parses htree, rfl⟩
    have hsize : tree.size ≤ w.nodeCount := w.nodeCount_eq ▸ List.le_sum_of_mem hmem
    rw [treeOf, htree]
    exact Nat.le_trans (length_flatMap_declarations_le text tree) hsize

end Text

end World

-- ---------------------------------------------------------------------------
-- What can be read
-- ---------------------------------------------------------------------------

namespace Reader

/-- What was fetched was found under a URL of the web. -/
theorem fetch_ok {w : World} {moduleId : ModuleId} {target : Json.Value} {source : Source}
    (h : (fetch w moduleId target).outcome = .ok source) :
    (∃ url ∈ w.web.keys, target = .ofText url) ∧ source.location ∈ w.pageLocations := by
  obtain ⟨text, location, hpage, rfl⟩ := page_of_fetch h
  -- a value that is no text is refused
  have hrefused : ∀ value, (w.refusal value).entry ≠ .page text location := by
    intro value
    cases w.refusal value <;> exact fun hentry => by cases hentry
  cases target with
  | string characters =>
    cases characters with
    | whole url =>
      cases hentry : w.web.get? url with
      | none =>
        -- no entry: the request fails
        simp only [World.page, hentry] at hpage
        cases hpage
      | some entry =>
        simp only [World.page, hentry, Option.getD_some] at hpage
        subst hpage
        have hkey : url ∈ w.web.keys := Table.isSome_get?_iff.mp (by simp [hentry])
        exact ⟨⟨url, hkey, rfl⟩, List.mem_map.mpr ⟨_, Table.mem_entries_of_get?_eq_some hentry, rfl⟩⟩
    | broken points => exact absurd hpage (hrefused _)
  | _ => exact absurd hpage (hrefused _)

/-- A specifier that has a redirect was answered by `deno`. -/
theorem mem_keys_of_resolveWaiting {r : Reader} {w : World} {specifier : String} {target : Json.Value}
    (h : (r.resolveWaiting w specifier).outcome = .ok target) : specifier ∈ w.deno.keys := by
  obtain ⟨output, houtput, _⟩ := Traced.outcome_bind_eq_ok_iff.mp h
  obtain ⟨entry, hentry, hrun⟩ := Traced.outcome_bind_eq_ok_iff.mp houtput
  obtain rfl := Except.ok.inj hentry
  refine Table.isSome_get?_iff.mp ?_
  cases hanswer : w.deno.get? specifier with
  | none =>
    rw [World.answer, hanswer] at hrun
    cases hrun
  | some answer => rfl

/-- A module that can be read has an entry, or is a path that names a file. -/
theorem read_ok {r : Reader} {w : World} {moduleId : ModuleId} {source : Source}
    (h : (r.read .waiting w moduleId).outcome = .ok source) :
    (Config.beginsWithAny r.remoteSchemes moduleId = true ∧ (moduleId ∈ w.deno.keys ∨ moduleId ∈ w.web.keys) ∧
        source.location ∈ w.pageLocations) ∨
      (Config.beginsWithAny r.remoteSchemes moduleId = false ∧ Path.lookupForm moduleId ∈ w.files.keys ∧
        source.location = moduleId) := by
  rw [read_eq] at h
  split at h
  · rename_i hremote
    refine .inl ⟨hremote, ?_⟩
    split at h
    · -- a specifier of the registry: `deno` has answered
      obtain ⟨target, htarget, hfetch⟩ := Traced.outcome_bind_eq_ok_iff.mp h
      exact ⟨.inl (mem_keys_of_resolveWaiting htarget), (fetch_ok hfetch).2⟩
    · -- a URL: it is fetched itself
      obtain ⟨⟨url, hurl, htarget⟩, hlocation⟩ := fetch_ok h
      injection htarget with hcharacters
      injection hcharacters with hself
      exact ⟨.inr (hself ▸ hurl), hlocation⟩
  · -- a file
    rename_i hlocal
    obtain ⟨hfound, _, hlocation⟩ := file_of_readFile h
    refine .inr ⟨by simpa using hlocal, Table.isSome_get?_iff.mp ?_, hlocation⟩
    cases hentry : w.files.get? (Path.lookupForm moduleId) with
    | none => exact absurd (by rw [World.file, hentry]; rfl) (hfound .notFound)
    | some entry => rfl

end Reader

/-- Where a specifier is resolved to a module: relative to a remote location, relative to a path, or as a remote
specifier. -/
theorem Resolver.resolve_found {r : Resolver} {specifier location : String} {x : ModuleId} {isRemote : Bool}
    (h : r.resolve specifier location = .ok (.found x isRemote)) :
    r.config.isRemote location = true ∨
    x = Resolver.withExtension r.config (Path.normalize (Path.join (Path.directory location) specifier)) ∨
    r.config.isRemote x = true := by
  unfold Resolver.resolve at h
  split at h
  · -- a relative specifier
    split at h
    · rename_i hremote
      exact .inl hremote
    · unfold Resolver.resolveLocal at h
      simp only at h
      split at h
      · injection h with hskipped
        cases hskipped
      · injection h with hfound
        injection hfound with hpath
        exact .inr (.inl hpath.symm)
  · -- any other specifier
    split at h
    · cases h
    · split at h
      · rename_i hremote
        split at h
        · cases h
          exact .inr (.inr hremote)
        · cases h
      · cases h

-- ---------------------------------------------------------------------------
-- What can be loaded
-- ---------------------------------------------------------------------------

namespace Codebase

/-- The source of a parsed module, and its tree. -/
theorem source_of_find? {c : Codebase} {x : ModuleId} {p : Parsed} (h : c.find? x = some p) :
    ∃ source, (c.reader.read .waiting c.world x).outcome = .ok source ∧ p.location = source.location ∧
      p.root = c.world.treeOf p.language p.text := by
  have hp : c.parse .waiting x = .ok p := parse_eq_ok_of_find? h
  unfold parse at hp
  cases hread : (c.reader.read .waiting c.world x).outcome with
  | error fault =>
    rw [hread] at hp
    cases hp
  | ok source =>
    rw [hread] at hp
    have hsource : Parsed.ofSource c.world source = .ok p := hp
    unfold Parsed.ofSource at hsource
    split at hsource
    · cases hsource
    · simp only at hsource
      split at hsource <;> cases hsource
      exact ⟨source, rfl, rfl, rfl⟩

/-- The imports of a module are those of the tree of its text. -/
theorem imports_summary {c : Codebase} {x : ModuleId} {p : Parsed} (h : c.find? x = some p) :
    (c.summary p).imports =
      (visits p.text (c.world.treeOf p.language p.text)).flatMap (·.declarations p.text) := by
  obtain ⟨_, _, _, hroot⟩ := source_of_find? h
  rw [summary, Summary.imports_ofTree, hroot]

/-- The module to which a specifier is resolved, if to any. -/
def foundFrom? (c : Codebase) (location specifier : String) : Option ModuleId :=
  match c.resolver.resolve specifier location with
  | .ok (.found moduleId _) => some moduleId
  | _ => none

/-- The modules to which a specifier can be resolved from a page. -/
def pageTargets (c : Codebase) : List ModuleId :=
  c.world.pageLocations.flatMap fun location => c.world.specifiers.filterMap (c.foundFrom? location)

/-- The normal paths that can name a file. -/
def filePaths (c : Codebase) : List ModuleId :=
  c.world.files.keys.flatMap (Path.naming c.resolver.config.defaultExtension)

/-- All modules that can be loaded in an analysis of the root. -/
def extent (c : Codebase) (root : ModuleId) : List ModuleId :=
  root :: (c.world.deno.keys ++ (c.world.web.keys ++ (c.pageTargets ++ c.filePaths)))

/-- The length of a list of bounded pieces. -/
theorem length_flatMap_le {α β : Type} {f : α → List β} {n : Nat} (h : ∀ a, (f a).length ≤ n) (l : List α) :
    (l.flatMap f).length ≤ l.length * n := by
  induction l with
  | nil => simp
  | cons a rest ih =>
    have hone := h a
    rw [List.flatMap_cons, List.length_append, List.length_cons, Nat.succ_mul]
    omega

/-- Pages and specifiers are finitely many. -/
theorem length_pageTargets_le (c : Codebase) : c.pageTargets.length ≤ c.world.web.size * c.world.nodeCount := by
  have hone : ∀ location, (c.world.specifiers.filterMap (c.foundFrom? location)).length ≤ c.world.nodeCount :=
    fun location => Nat.le_trans (List.length_filterMap_le _ _) c.world.length_specifiers_le
  have hall := length_flatMap_le hone c.world.pageLocations
  rwa [World.pageLocations, List.length_map] at hall

theorem length_filePaths_le (c : Codebase) : c.filePaths.length ≤ c.world.files.size * 5 := by
  have hone : ∀ key, (Path.naming c.resolver.config.defaultExtension key).length ≤ 5 := fun _ => Nat.le_refl 5
  have hall := length_flatMap_le hone c.world.files.keys
  rwa [Table.keys, List.length_map] at hall

/-- **The extent is not longer than the bound of the world.** -/
theorem length_extent_le (c : Codebase) (root : ModuleId) : (c.extent root).length ≤ c.world.moduleBound := by
  have hpages := c.length_pageTargets_le
  have hfiles := c.length_filePaths_le
  have hdeno : c.world.deno.keys.length = c.world.deno.size := List.length_map _
  have hweb : c.world.web.keys.length = c.world.web.size := List.length_map _
  unfold extent World.moduleBound
  rw [List.length_cons, List.length_append, List.length_append, List.length_append, hdeno, hweb, Nat.mul_add,
    Nat.mul_one]
  omega

/-- An imported local module that names a file: if it is imported by a page it is one of finitely many, else it is a
normal path. -/
theorem mem_of_imports {c : Codebase} (hc : c.reader.remoteSchemes = c.resolver.config.remoteSchemes)
    {x y : ModuleId} (h : c.Imports y x) (hlocal : Config.beginsWithAny c.reader.remoteSchemes x = false)
    (hfile : Path.lookupForm x ∈ c.world.files.keys) : x ∈ c.pageTargets ∨ x ∈ c.filePaths := by
  obtain ⟨p, hp, d, hd, isRemote, hresolve⟩ := h
  have hspecifier : d.source ∈ c.world.specifiers := by
    rw [imports_summary hp] at hd
    exact World.mem_specifiers_of_mem_declarations hd
  obtain ⟨source, hread, hlocation, _⟩ := source_of_find? hp
  rcases c.resolver.resolve_found hresolve with hremote | hpath | hself
  · -- the import is relative to a remote location, which is that of a page
    rcases Reader.read_ok hread with ⟨_, _, hpage⟩ | ⟨hnot, _, hname⟩
    · -- the importing module is remote, so it was fetched
      have hfound : c.foundFrom? p.location d.source = some x := by
        unfold foundFrom?
        rw [hresolve]
      have hmem : x ∈ c.world.specifiers.filterMap (c.foundFrom? p.location) :=
        List.mem_filterMap.mpr ⟨d.source, hspecifier, hfound⟩
      rw [← hlocation] at hpage
      exact .inl (List.mem_flatMap.mpr ⟨p.location, hpage, hmem⟩)
    · -- a file does not lie at a remote location
      rw [hlocation, hname, Config.isRemote, ← hc, hnot] at hremote
      cases hremote
  · -- the import is relative to a path
    have hnaming : x ∈ Path.naming c.resolver.config.defaultExtension (Path.lookupForm x) := by
      rw [hpath]
      exact Path.mem_naming ..
    exact .inr (List.mem_flatMap.mpr ⟨Path.lookupForm x, hfile, hnaming⟩)
  · -- a remote specifier stands for itself, and is no path
    rw [Config.isRemote, ← hc, hlocal] at hself
    cases hself

/-- **What is reachable and can be loaded is in the extent.** -/
theorem mem_extent {c : Codebase} (hc : c.reader.remoteSchemes = c.resolver.config.remoteSchemes)
    {root x : ModuleId} {p : Parsed} (h : c.Reachable root x) (hp : c.find? x = some p) : x ∈ c.extent root := by
  obtain ⟨source, hread, _, _⟩ := source_of_find? hp
  rw [extent, List.mem_cons, List.mem_append, List.mem_append, List.mem_append]
  rcases Reader.read_ok hread with ⟨_, hentry, _⟩ | ⟨hlocal, hfile, _⟩
  · -- a remote module has an entry
    rcases hentry with hdeno | hweb
    · exact .inr (.inl hdeno)
    · exact .inr (.inr (.inl hweb))
  · -- a file is the root, or was imported
    cases h with
    | root _ => exact .inl rfl
    | step _ himports _ => exact .inr (.inr (.inr (mem_of_imports hc himports hlocal hfile)))

-- ---------------------------------------------------------------------------
-- How many modules a module leads to
-- ---------------------------------------------------------------------------

/-- Each import has at most one target. -/
theorem length_targets_le {c : Codebase} {location : String} {imports : List ImportDeclaration} {ts : List ModuleId}
    (h : c.targets location imports = .ok ts) : ts.length ≤ imports.length := by
  induction imports generalizing ts with
  | nil =>
    cases h
    simp
  | cons d rest ih =>
    rcases targets_cons_ok h with ⟨_, _, hrest⟩ | ⟨_, _, more, _, hrest, rfl⟩
    · exact Nat.le_succ_of_le (ih hrest)
    · exact Nat.succ_le_succ (ih hrest)

theorem length_imports_le {c : Codebase} {x : ModuleId} {p : Parsed} (h : c.find? x = some p) :
    (c.summary p).imports.length ≤ c.world.nodeCount := by
  rw [imports_summary h]
  exact c.world.length_declarations_treeOf_le p.language p.text

/-- The number of targets of the imports of a module, with repetitions. -/
def fanOut (c : Codebase) (x : ModuleId) : Nat :=
  ((c.find? x).bind fun p => (c.targetsOf p).toOption.map (·.length)).getD 0

theorem fanOut_eq {c : Codebase} {x : ModuleId} {p : Parsed} {ts : List ModuleId} (hp : c.find? x = some p)
    (hts : c.targetsOf p = .ok ts) : c.fanOut x = ts.length := by
  rw [fanOut, hp, Option.bind_some, hts]
  rfl

/-- A module has no more targets than the trees have nodes. -/
theorem fanOut_le (c : Codebase) (x : ModuleId) : c.fanOut x ≤ c.world.nodeCount := by
  cases hp : c.find? x with
  | none =>
    rw [fanOut, hp]
    exact Nat.zero_le _
  | some p =>
    cases hts : c.targetsOf p with
    | error fault =>
      rw [fanOut, hp, Option.bind_some, hts]
      exact Nat.zero_le _
    | ok ts =>
      rw [fanOut_eq hp hts]
      exact Nat.le_trans (length_targets_le hts) (length_imports_le hp)

/-- The modules to which imports of a module are resolved, with repetitions. Imports that cannot be resolved are
omitted. -/
def leadsFrom (c : Codebase) (x : ModuleId) : List ModuleId :=
  (c.find? x).toList.flatMap fun p => (c.summary p).imports.filterMap fun d => c.foundFrom? p.location d.source

theorem mem_leadsFrom {c : Codebase} {x y : ModuleId} (h : c.Imports x y) : y ∈ c.leadsFrom x := by
  obtain ⟨p, hp, d, hd, isRemote, hresolve⟩ := h
  refine List.mem_flatMap.mpr ⟨p, Option.mem_toList.mpr hp, List.mem_filterMap.mpr ⟨d, hd, ?_⟩⟩
  rw [foundFrom?, hresolve]

/-- There are no more of them than the trees have nodes. -/
theorem length_leadsFrom_le (c : Codebase) (x : ModuleId) : (c.leadsFrom x).length ≤ c.world.nodeCount := by
  unfold leadsFrom
  cases hp : c.find? x with
  | none => exact Nat.zero_le _
  | some p =>
    rw [Option.toList_some, List.flatMap_singleton]
    exact Nat.le_trans (List.length_filterMap_le _ _) (length_imports_le hp)

/-- All modules that can be entered in an analysis of the root: the root, and the targets of the modules of the extent.
A module that cannot be loaded may be among them, but has no imports. -/
def enterable (c : Codebase) (root : ModuleId) : List ModuleId :=
  root :: (c.extent root).flatMap c.leadsFrom

/-- **What is reachable is one of finitely many modules.** -/
theorem mem_enterable {c : Codebase} (hc : c.reader.remoteSchemes = c.resolver.config.remoteSchemes)
    {root x : ModuleId} (h : c.Reachable root x) : x ∈ c.enterable root := by
  cases h with
  | root _ => exact List.mem_cons_self
  | step reached imports _ =>
    obtain ⟨p, hp, htarget⟩ := imports
    have hextent := mem_extent hc reached hp
    exact List.mem_cons_of_mem _ (List.mem_flatMap.mpr ⟨_, hextent, mem_leadsFrom ⟨p, hp, htarget⟩⟩)

/-- How many these are at most. -/
theorem length_enterable_le (c : Codebase) (root : ModuleId) :
    (c.enterable root).length ≤ c.world.moduleBound * c.world.nodeCount + 1 := by
  have hall := length_flatMap_le c.length_leadsFrom_le (c.extent root)
  have hextent := Nat.mul_le_mul_right c.world.nodeCount (c.length_extent_le root)
  rw [enterable, List.length_cons]
  omega

/-- The total number of targets of the modules of a list, except for the given ones. -/
def fanOutBeside (c : Codebase) (ids seen : List ModuleId) : Nat :=
  (ids.map fun x => if x ∈ seen then 0 else c.fanOut x).sum

/-- It is bounded by the length of the list and the number of nodes. -/
theorem fanOutBeside_le (c : Codebase) (ids seen : List ModuleId) :
    c.fanOutBeside ids seen ≤ ids.length * c.world.nodeCount := by
  unfold fanOutBeside
  induction ids with
  | nil => exact Nat.zero_le _
  | cons x rest ih =>
    have hone : (if x ∈ seen then 0 else c.fanOut x) ≤ c.world.nodeCount := by
      split
      · exact Nat.zero_le _
      · exact c.fanOut_le x
    rw [List.map_cons, List.sum_cons, List.length_cons, Nat.succ_mul]
    omega

/-- It does not grow when one more module is excluded. -/
theorem fanOutBeside_concat_le (c : Codebase) (ids seen : List ModuleId) (x : ModuleId) :
    c.fanOutBeside ids (seen ++ [x]) ≤ c.fanOutBeside ids seen := by
  unfold fanOutBeside
  induction ids with
  | nil => exact Nat.le_refl _
  | cons y rest ih =>
    have hone : (if y ∈ seen ++ [x] then 0 else c.fanOut y) ≤ if y ∈ seen then 0 else c.fanOut y := by
      by_cases hy : y ∈ seen
      · rw [if_pos (List.mem_append_left _ hy)]
        exact Nat.zero_le _
      · rw [if_neg hy]
        split
        · exact Nat.zero_le _
        · exact Nat.le_refl _
    rw [List.map_cons, List.sum_cons, List.map_cons, List.sum_cons]
    omega

/-- If that module was counted before, it decreases by the number of its targets. -/
theorem fanOutBeside_concat_add_le (c : Codebase) {ids seen : List ModuleId} {x : ModuleId} (hx : x ∈ ids)
    (hnew : x ∉ seen) : c.fanOutBeside ids (seen ++ [x]) + c.fanOut x ≤ c.fanOutBeside ids seen := by
  induction ids with
  | nil => cases hx
  | cons y rest ih =>
    have hrest := c.fanOutBeside_concat_le rest seen x
    unfold fanOutBeside at *
    rw [List.map_cons, List.sum_cons, List.map_cons, List.sum_cons]
    rcases List.mem_cons.mp hx with rfl | hx
    · rw [if_pos (by simp), if_neg hnew]
      omega
    · have hcounted := ih hx
      by_cases hy : y ∈ seen
      · rw [if_pos (List.mem_append_left _ hy), if_pos hy]
        omega
      · rw [if_neg hy]
        split <;> omega

end Codebase

end BlockingCalls
