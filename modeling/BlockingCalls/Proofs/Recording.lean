import BlockingCalls.Proofs.Descent
import BlockingCalls.Proofs.Summary

/-!
# What a summary records

A summary is computed as a fold over the visits of a walk. Independently of the walk, it is determined by the recursion on
the tree, of which it needs no more than the visited nodes in document order, each with the name of the nearest named
function around it.

Three components of a summary depend on the order of visits: callers stand in the order of their first declarations, and
of several declarations or exports of one name the last one counts. That a caller is declared before any call in it is
recorded is an invariant of the stack: the names around pending nodes are known (`keys_calls_foldl_walk`).

## Results

* `foldl_recordAt`         — of the functions around a node only the nearest name matters.
* `keys_calls_ofTree`, `locations_foldl_recordAt`, `exports_foldl_recordAt` — the components that depend on the order.
* `ofTree_records_descent` — all components of a summary, by recursion on the tree.
-/

namespace BlockingCalls

open BlockingCalls.Tree (Node Item Visit Context Callee classify visits walk Within withNames withContexts)

-- ---------------------------------------------------------------------------
-- What a node declares and exports
-- ---------------------------------------------------------------------------

namespace Tree

/-- The name of the function that a node declares, if it is one. -/
def declaredAt (source : String) (n : Node) : Option Name :=
  match classify source n with
  | .function name _ _ => some name
  | _ => none

/-- The exports that a node adds, from exported names to names inside the module; a name that is passed on from another
module is a name of this module under its exported name. -/
def exportsAt (source : String) (n : Node) : List (Name × Name) :=
  match classify source n with
  | .exporting none specifiers => specifiers.map fun e => (e.exported, e.localName)
  | .exporting (some _) specifiers => specifiers.map fun e => (e.exported, e.exported)
  | _ => []

/-- The import that a node adds, if it is one or passes on names of another module. -/
def importsAt (source : String) (n : Node) : List ImportDeclaration :=
  (Visit.ofDescent source (n, {})).declarations source

/-- The recursion visits the nodes of `Within`, with the same names. -/
theorem mem_withNames_iff {source : String} {root n : Node} {f : Option Name} :
    (n, f) ∈ withNames source root ↔ Within source root n f := by
  rw [withNames_eq, within_iff_mem_visits, visits_eq_descend]
  simp only [List.mem_map, Prod.mk.injEq, exists_exists_and_eq_and]
  constructor
  · rintro ⟨v, hv, rfl, rfl⟩
    exact ⟨v, hv, rfl, rfl, rfl⟩
  · rintro ⟨v, hv, rfl, _, rfl⟩
    exact ⟨v, hv, rfl, rfl⟩

end Tree

namespace Summary

variable {config : Config} {text : String}

-- ---------------------------------------------------------------------------
-- The nearest name is enough
-- ---------------------------------------------------------------------------

/-- What a node adds to a summary, given the name of the nearest function around it. -/
def recordAt (config : Config) (text : String) (s : Summary) (v : Node × Option Name) : Summary :=
  s.add config text ⟨v.1, classify text v.1, { enclosing := v.2.map fun name => { name, isAsync := false } }⟩

/-- A visit adds what its node adds under that name. -/
theorem add_ofDescent (s : Summary) (v : Node × Context) :
    s.add config text (Visit.ofDescent text v) = s.recordAt config text (v.1, v.2.enclosing.map (·.name)) := by
  obtain ⟨n, enclosing, awaitable⟩ := v
  unfold recordAt Visit.ofDescent add
  cases hitem : classify text n with
  | call callee => cases enclosing <;> cases callee <;> rfl
  | _ => rfl

/-- **A summary is determined by the recursion on the tree**: it is the fold over the visited nodes with their names. -/
theorem foldl_recordAt (moduleId : ModuleId) (root : Node) :
    ofTree config moduleId text root = (withNames text root).foldl (recordAt config text) { moduleId } := by
  rw [ofTree, Tree.visits_eq_descend, Tree.withNames_eq, List.foldl_map, List.foldl_map]
  congr 1
  funext s v
  exact add_ofDescent s v

-- ---------------------------------------------------------------------------
-- Callers in order
-- ---------------------------------------------------------------------------

/-- A call in a known function adds no caller. -/
theorem keys_calls_addCall {s : Summary} {caller : Name} (hknown : caller ∈ s.calls.keys) (callee : Callee) :
    (s.addCall config caller callee).calls.keys = s.calls.keys := by
  unfold addCall
  split
  · rfl
  · split
    · exact (Table.keys_put ..).trans (if_pos hknown)
    · rfl

/-- A visit adds the function that it declares to the callers, in order; the function around a call is one of them
already. -/
theorem keys_calls_addVisit {s : Summary} {v : Visit} (hitem : v.item = classify text v.node)
    (hknown : ∀ f, v.context.enclosing.map (·.name) = some f → f ∈ s.calls.keys) :
    (s.add config text v).calls.keys = (Tree.declaredAt text v.node).toList.foldl Table.withKey s.calls.keys := by
  obtain ⟨n, item, enclosing, awaitable⟩ := v
  simp only at hitem hknown
  subst hitem
  unfold add Tree.declaredAt
  simp only
  cases classify text n with
  | function name isAsync body => exact Table.keys_put ..
  | call callee =>
    -- the function around the call is known, so no key is added
    cases enclosing with
    | none => rfl
    | some enclosing =>
      cases callee with
      | none => rfl
      | some callee => exact keys_calls_addCall (hknown enclosing.name rfl) callee
  | exporting source specifiers => cases source <;> rfl
  | _ => rfl

/-- The function around what is inside a node is the one that the visit of the node has declared, or one known before.
-/
theorem mem_keys_calls_of_inside {s : Summary} {n : Node} {item : Item} {context : Context}
    (hknown : ∀ f, context.enclosing.map (·.name) = some f → f ∈ s.calls.keys) {f : Name}
    (h : (context.inside n item).enclosing.map (·.name) = some f) :
    f ∈ (s.add config text ⟨n, item, context⟩).calls.keys := by
  rw [mem_keys_calls_addVisit]
  cases item with
  | function name isAsync body =>
    cases h
    exact .inr (.inl ⟨isAsync, body, rfl⟩)
  | _ => exact .inl (hknown f h)

/-- **The callers are the declared functions in order**, as long as the names around pending nodes are known. By
induction along the walk. -/
theorem keys_calls_foldl_walk (stack : List (Node × Context)) :
    ∀ s : Summary, (∀ e ∈ stack, ∀ f, e.2.enclosing.map (·.name) = some f → f ∈ s.calls.keys) →
      ((walk text stack).foldl (add config text) s).calls.keys =
        ((walk text stack).filterMap fun v => Tree.declaredAt text v.node).foldl Table.withKey s.calls.keys := by
  fun_induction walk text stack with
  | case1 => exact fun _ _ => rfl
  | case2 n context pending item ih =>
    intro s hknown
    have hhere : ∀ f, context.enclosing.map (·.name) = some f → f ∈ s.calls.keys := hknown _ List.mem_cons_self
    -- the names around the nodes that are pending next are known
    have hnext : ∀ e ∈ (item.inner n).map (·, context.inside n item) ++ pending,
        ∀ f, e.2.enclosing.map (·.name) = some f → f ∈ (s.add config text ⟨n, item, context⟩).calls.keys := by
      intro e he f hf
      rcases List.mem_append.mp he with hinner | hpending
      · obtain ⟨child, _, rfl⟩ := List.mem_map.mp hinner
        exact mem_keys_calls_of_inside hhere hf
      · exact mem_keys_calls_addVisit.mpr (.inl (hknown e (List.mem_cons_of_mem _ hpending) f hf))
    rw [List.foldl_cons, ih _ hnext, keys_calls_addVisit rfl hhere, List.filterMap_cons]
    cases Tree.declaredAt text n <;> rfl

/-- The callers of a tree, in order. -/
theorem keys_calls_ofTree (moduleId : ModuleId) (root : Node) :
    (ofTree config moduleId text root).calls.keys =
      ((withNames text root).filterMap fun v => Tree.declaredAt text v.1).eraseDups := by
  have hkeys := @keys_calls_foldl_walk config text [(root, {})] { moduleId } (by simp)
  rw [ofTree, visits, hkeys, ← visits, Tree.visits_eq_descend, Tree.withNames_eq, List.filterMap_map,
    List.filterMap_map]
  exact Table.foldl_withKey _

-- ---------------------------------------------------------------------------
-- Declarations and exports, of which the last one counts
-- ---------------------------------------------------------------------------

/-- Where a node declares a function, if it does. -/
def declarationAt (moduleId : ModuleId) (text : String) (n : Node) : Option (Name × Location) :=
  (Tree.declaredAt text n).map (·, Location.ofOffset moduleId text n.start)

/-- A call adds no export. -/
theorem exports_addCall (s : Summary) (caller : Name) (callee : Callee) :
    (s.addCall config caller callee).exports = s.exports := by
  unfold addCall
  split
  · rfl
  · split <;> rfl

/-- A node puts the location of the function that it declares. -/
theorem locations_recordAt (s : Summary) (v : Node × Option Name) :
    (s.recordAt config text v).locations = s.locations.putAll (declarationAt s.moduleId text v.1).toList := by
  obtain ⟨n, outer⟩ := v
  unfold recordAt add declarationAt Tree.declaredAt
  simp only
  cases classify text n with
  | call callee =>
    cases outer with
    | none => rfl
    | some caller =>
      cases callee with
      | none => rfl
      | some callee => exact locations_addCall ..
  | exporting source specifiers => cases source <;> rfl
  | _ => rfl

/-- A node puts its exports. -/
theorem exports_recordAt (s : Summary) (v : Node × Option Name) :
    (s.recordAt config text v).exports = s.exports.putAll (Tree.exportsAt text v.1) := by
  obtain ⟨n, outer⟩ := v
  unfold recordAt add Tree.exportsAt
  simp only
  cases classify text n with
  | call callee =>
    cases outer with
    | none => rfl
    | some caller =>
      cases callee with
      | none => rfl
      | some callee => exact exports_addCall ..
  | exporting source specifiers => cases source <;> rfl
  | _ => rfl

/-- The locations are all declarations, put one after the other. -/
theorem locations_foldl_recordAt (visited : List (Node × Option Name)) (s : Summary) :
    (visited.foldl (recordAt config text) s).locations =
      s.locations.putAll (visited.filterMap fun v => declarationAt s.moduleId text v.1) := by
  induction visited generalizing s with
  | nil => rfl
  | cons v rest ih =>
    have hid : (s.recordAt config text v).moduleId = s.moduleId := moduleId_addVisit ..
    rw [List.foldl_cons, ih, hid, locations_recordAt, ← Table.putAll_append, List.filterMap_cons]
    cases declarationAt s.moduleId text v.1 <;> rfl

/-- The exports are those of all nodes, put one after the other. -/
theorem exports_foldl_recordAt (visited : List (Node × Option Name)) (s : Summary) :
    (visited.foldl (recordAt config text) s).exports =
      s.exports.putAll (visited.flatMap fun v => Tree.exportsAt text v.1) := by
  induction visited generalizing s with
  | nil => rfl
  | cons v rest ih => rw [List.foldl_cons, ih, exports_recordAt, ← Table.putAll_append, List.flatMap_cons]

-- ---------------------------------------------------------------------------
-- All parts
-- ---------------------------------------------------------------------------

/-- The components of the summary in terms of the visited nodes, each of which is given with the name of the nearest
named function around it. -/
structure Records (config : Config) (text : String) (visited : List (Node × Option Name)) (s : Summary) : Prop where
  /-- A function blocks by itself if a call in it is a blocking operation. -/
  directBlocking : ∀ f, f ∈ s.directBlocking ↔
    ∃ n callee, (n, some f) ∈ visited ∧ classify text n = .call (some callee) ∧ config.isSyncOperation callee = true
  /-- A function has a callee if a call in it is by the callee's name and is no blocking operation. -/
  callees : ∀ f g, (∃ callees, s.calls.get? f = some callees ∧ g ∈ callees) ↔
    ∃ n callee, (n, some f) ∈ visited ∧ classify text n = .call (some callee) ∧
      config.isSyncOperation callee = false ∧ config.edgeName callee = some g
  /-- The callers are the named functions, in the order in which they are first visited. -/
  callers : s.calls.keys = (visited.filterMap fun v => Tree.declaredAt text v.1).eraseDups
  /-- A name is located where it is declared last. -/
  locations : ∀ f, s.locations.get? f =
    Table.lookup f (visited.filterMap fun v => declarationAt s.moduleId text v.1).reverse
  /-- The imports stand in document order. -/
  imports : s.imports = visited.flatMap fun v => Tree.importsAt text v.1
  /-- An exported name stands for what it is exported as last. -/
  exports : ∀ name, s.exports.get? name =
    Table.lookup name (visited.flatMap fun v => Tree.exportsAt text v.1).reverse

/-- The callees found under a caller are those of its calls in the tree. -/
theorem mem_callees_ofTree {moduleId : ModuleId} {root : Node} {f g : Name} :
    (∃ callees, (ofTree config moduleId text root).calls.get? f = some callees ∧ g ∈ callees) ↔
      Tree.CallsIn config text root f g := by
  have hnodup : (ofTree config moduleId text root).calls.keys.Nodup := by
    rw [keys_calls_ofTree]
    exact nodup_eraseDups _
  have hedges := @mem_edges_ofTree config text moduleId root f g
  rw [← hedges, CallGraph.mem_edges_iff]
  simp only [Table.get?_eq_some_iff hnodup]

theorem imports_withNames (moduleId : ModuleId) (root : Node) :
    (ofTree config moduleId text root).imports = (withNames text root).flatMap fun v => Tree.importsAt text v.1 := by
  rw [imports_ofTree, Tree.visits_eq_descend, Tree.withNames_eq, List.flatMap_map, List.flatMap_map]
  rfl

/-- The summary of a tree has all these components. -/
theorem records_ofTree (moduleId : ModuleId) (root : Node) :
    (ofTree config moduleId text root).Records config text (withNames text root) where
  directBlocking f := by
    simp only [Tree.mem_withNames_iff]
    exact mem_directBlocking_ofTree
  callees f g := by
    simp only [Tree.mem_withNames_iff]
    rw [mem_callees_ofTree]
    constructor
    · rintro ⟨n, callee, hwithin, hcall, hname⟩
      refine ⟨n, callee, hwithin, hcall, ?_, hname⟩
      -- a blocking operation would have no name
      by_contra hsync
      rw [Config.edgeName_eq_none_of_isSyncOperation (by simpa using hsync)] at hname
      cases hname
    · rintro ⟨n, callee, hwithin, hcall, _, hname⟩
      exact ⟨n, callee, hwithin, hcall, hname⟩
  callers := keys_calls_ofTree moduleId root
  locations f := by
    rw [moduleId_ofTree, foldl_recordAt, locations_foldl_recordAt, Table.get?_putAll]
    exact Option.or_none
  imports := imports_withNames moduleId root
  exports name := by
    rw [foldl_recordAt, exports_foldl_recordAt, Table.get?_putAll]
    exact Option.or_none

/-- **A summary records the descent.** The summary of a tree is the one that the recursion on the tree gives, which
hands down the name of the nearest named function, and its components are determined by the visited nodes. Visited is
what is reached from the root by going from a node to its children, and from a binding whose value is a function to the
children of the value. -/
theorem ofTree_records_descent (config : Config) (moduleId : ModuleId) (text : String) (root : Node) :
    ofTree config moduleId text root = (withNames text root).foldl (recordAt config text) { moduleId } ∧
      (ofTree config moduleId text root).moduleId = moduleId ∧
      (ofTree config moduleId text root).Records config text (withNames text root) ∧
      (∀ n f, (n, f) ∈ withNames text root ↔ Within text root n f) ∧
      ∀ outer n, Tree.descend text (Tree.nameInside text) outer n = (n, outer) ::
        (if Tree.bindsFunction text n then ((n.child? "value").map (·.children)).getD [] else n.children).flatMap
          (Tree.descend text (Tree.nameInside text) (Tree.nameInside text outer n)) := by
  exact ⟨foldl_recordAt moduleId root, moduleId_ofTree moduleId root, records_ofTree moduleId root,
    fun n f => Tree.mem_withNames_iff, Tree.descend_children text (Tree.nameInside text)⟩

end Summary

end BlockingCalls
