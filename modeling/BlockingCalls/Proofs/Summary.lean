import BlockingCalls.Proofs.Enclosing
import BlockingCalls.Proofs.Table

/-!
# What a summary holds

A summary is a fold over the visits of a tree. Each of its components is the union of what the visits contribute to it, and
so has a description in terms of the tree: the direct blocking functions, the calls between names, the imports, the
declared functions. Callers and located names are the declared functions, since the function around a call is visited
before the call.

## Results

* `Summary.mem_directBlocking_ofTree` — which functions block by themselves.
* `Summary.mem_edges_ofTree`          — which calls there are.
* `Summary.imports_ofTree`            — the imports, in document order; their number is bounded by that of the nodes.
* `Summary.mem_keys_calls_ofTree`, `Summary.mem_keys_locations_ofTree` — callers and located names.
-/

namespace BlockingCalls

open BlockingCalls.Tree (Node Item Visit Callee classify visits Within within_iff_mem_visits)

namespace Tree

/-- In the tree there is a call of a blocking operation, and the nearest named function around it is called `f`. -/
def BlocksIn (config : Config) (source : String) (root : Node) (f : Name) : Prop :=
  ∃ n callee, Within source root n (some f) ∧ classify source n = .call (some callee) ∧
    config.isSyncOperation callee = true

/-- In the tree there is a call by the name `g`, and the nearest named function around it is called `f`. -/
def CallsIn (config : Config) (source : String) (root : Node) (f g : Name) : Prop :=
  ∃ n callee, Within source root n (some f) ∧ classify source n = .call (some callee) ∧
    config.edgeName callee = some g

/-- In the tree there is a named function that is called `f`. -/
def DeclaredIn (source : String) (root : Node) (f : Name) : Prop :=
  ∃ n outer isAsync body, Within source root n outer ∧ classify source n = .function f isAsync body

/-- The call of a blocking operation, seen from its visit. -/
def Visit.Blocks (config : Config) (v : Visit) (f : Name) : Prop :=
  ∃ callee, v.item = .call (some callee) ∧ v.context.enclosing.map (·.name) = some f ∧
    config.isSyncOperation callee = true

/-- A call by a name, seen from its visit. -/
def Visit.Calls (config : Config) (v : Visit) (f g : Name) : Prop :=
  ∃ callee, v.item = .call (some callee) ∧ v.context.enclosing.map (·.name) = some f ∧
    config.edgeName callee = some g

/-- A named function, seen from its visit. -/
def Visit.Declares (v : Visit) (f : Name) : Prop :=
  ∃ isAsync body, v.item = .function f isAsync body

/-- The import that a visit adds, if it is one. -/
def Visit.declarations (source : String) (v : Visit) : List ImportDeclaration :=
  let line := (Text.positionAt source v.node.start).row + 1
  match v.item with
  | .importing source bindings => [{ source, bindings, line }]
  | .exporting (some source) specifiers =>
    [{ source, line, bindings := specifiers.map fun e => { localName := e.exported, imported := e.localName } }]
  | _ => []

/-- Calls with a property, in terms of visits and in terms of the tree. -/
theorem exists_visit_call_iff (P : Callee → Prop) {source : String} {root : Node} {f : Name} :
    (∃ v ∈ visits source root, ∃ callee, v.item = .call (some callee) ∧
        v.context.enclosing.map (·.name) = some f ∧ P callee) ↔
      ∃ n callee, Within source root n (some f) ∧ classify source n = .call (some callee) ∧ P callee := by
  constructor
  · rintro ⟨v, hv, callee, hitem, hname, hcallee⟩
    have hmeaning : v.item = classify source v.node := (mem_walk_iff.mp hv).1
    refine ⟨v.node, callee, within_iff_mem_visits.mpr ⟨v, hv, rfl, hmeaning, hname⟩, ?_, hcallee⟩
    rw [← hmeaning, hitem]
  · rintro ⟨n, callee, hwithin, hitem, hcallee⟩
    obtain ⟨v, hv, rfl, hmeaning, hname⟩ := within_iff_mem_visits.mp hwithin
    exact ⟨v, hv, callee, hmeaning.trans hitem, hname, hcallee⟩

theorem exists_visit_blocks_iff {config : Config} {source : String} {root : Node} {f : Name} :
    (∃ v ∈ visits source root, v.Blocks config f) ↔ BlocksIn config source root f :=
  exists_visit_call_iff fun callee => config.isSyncOperation callee = true

theorem exists_visit_calls_iff {config : Config} {source : String} {root : Node} {f g : Name} :
    (∃ v ∈ visits source root, v.Calls config f g) ↔ CallsIn config source root f g :=
  exists_visit_call_iff fun callee => config.edgeName callee = some g

/-- Named functions, in terms of visits and in terms of the tree. -/
theorem exists_visit_declares_iff {source : String} {root : Node} {f : Name} :
    (∃ v ∈ visits source root, v.Declares f) ↔ DeclaredIn source root f := by
  constructor
  · rintro ⟨v, hv, isAsync, body, hitem⟩
    have hmeaning : v.item = classify source v.node := (mem_walk_iff.mp hv).1
    refine ⟨v.node, _, isAsync, body, within_iff_mem_visits.mpr ⟨v, hv, rfl, hmeaning, rfl⟩, ?_⟩
    rw [← hmeaning, hitem]
  · rintro ⟨n, outer, isAsync, body, hwithin, hitem⟩
    obtain ⟨v, hv, rfl, hmeaning, _⟩ := within_iff_mem_visits.mp hwithin
    exact ⟨v, hv, isAsync, body, hmeaning.trans hitem⟩

/-- The nearest named function around a node is a function of the tree. -/
theorem declaredIn_of_within {source : String} {root n : Node} {f : Name} (h : Within source root n (some f)) :
    DeclaredIn source root f := by
  generalize hname : some f = name at h
  induction h with
  | root => cases hname
  | function outer item child _ =>
    cases hname
    exact ⟨_, _, _, _, outer, item⟩
  | other outer item child ih => exact ih hname

theorem declaredIn_of_blocksIn {config : Config} {source : String} {root : Node} {f : Name}
    (h : BlocksIn config source root f) : DeclaredIn source root f := by
  obtain ⟨n, callee, hwithin, _, _⟩ := h
  exact declaredIn_of_within hwithin

theorem declaredIn_of_callsIn {config : Config} {source : String} {root : Node} {f g : Name}
    (h : CallsIn config source root f g) : DeclaredIn source root f := by
  obtain ⟨n, callee, hwithin, _, _⟩ := h
  exact declaredIn_of_within hwithin

end Tree

/-- A blocking operation has no name under which it could become an edge. -/
theorem Config.edgeName_eq_none_of_isSyncOperation {config : Config} {callee : Callee}
    (h : config.isSyncOperation callee = true) : config.edgeName callee = none := by
  unfold isSyncOperation at h
  rw [Bool.and_eq_true] at h
  rw [edgeName, if_pos h.1]

namespace Summary

variable {config : Config} {text : String}

-- ---------------------------------------------------------------------------
-- What one visit adds
-- ---------------------------------------------------------------------------

/-- The direct blocking functions after a call. -/
theorem mem_directBlocking_addCall {s : Summary} {caller f : Name} {callee : Callee} :
    f ∈ (s.addCall config caller callee).directBlocking ↔
      f ∈ s.directBlocking ∨ f = caller ∧ config.isSyncOperation callee = true := by
  unfold addCall
  split
  · rename_i hsync
    simp [hsync, or_comm]
  · rename_i hsync
    split <;> simp [hsync]

/-- The calls after a call. A blocking operation is no edge. -/
theorem mem_edges_addCall {s : Summary} {caller f g : Name} {callee : Callee} :
    (f, g) ∈ (CallGraph.mk (s.addCall config caller callee).calls).edges ↔
      (f, g) ∈ (CallGraph.mk s.calls).edges ∨ f = caller ∧ config.edgeName callee = some g := by
  unfold addCall
  split
  · -- a blocking operation
    rename_i hsync
    simp [Config.edgeName_eq_none_of_isSyncOperation hsync]
  · split
    · -- a call by a name
      rename_i name hname
      have hinsert : ∀ (known : List Name) (x : Name), x ∈ known.insert name ↔ x ∈ known ∨ x ∈ [name] := by
        intro known x
        rw [List.mem_insert_iff, List.mem_singleton, or_comm]
      rw [CallGraph.mem_edges_alter hinsert, hname, List.mem_singleton, Option.some.injEq, @eq_comm _ g]
    · -- a call without a name
      rename_i hnone
      simp [hnone]

/-- A visit to a function puts its name among the callers and adds no call. -/
theorem mem_edges_alter_id {calls : Table (List Name)} {name f g : Name} :
    (f, g) ∈ (CallGraph.mk (calls.alter name [] id)).edges ↔ (f, g) ∈ (CallGraph.mk calls).edges := by
  have hid : ∀ (known : List Name) (x : Name), x ∈ id known ↔ x ∈ known ∨ x ∈ [] := by simp
  rw [CallGraph.mem_edges_alter hid]
  simp

/-- The direct blocking functions after a visit. -/
theorem mem_directBlocking_addVisit {s : Summary} {v : Visit} {f : Name} :
    f ∈ (s.add config text v).directBlocking ↔ f ∈ s.directBlocking ∨ v.Blocks config f := by
  obtain ⟨node, item, context⟩ := v
  unfold add Visit.Blocks
  cases item with
  | call callee =>
    -- only a call with a callee, inside a named function, contributes
    obtain ⟨enclosing, awaitable⟩ := context
    cases callee with
    | none => cases enclosing <;> simp
    | some callee =>
      cases enclosing with
      | none => simp
      | some enclosing =>
        simp only [mem_directBlocking_addCall]
        simp [@eq_comm _ f]
  | exporting source specifiers => cases source <;> simp [addExport]
  | _ => simp

/-- The calls after a visit. -/
theorem mem_edges_addVisit {s : Summary} {v : Visit} {f g : Name} :
    (f, g) ∈ (CallGraph.mk (s.add config text v).calls).edges ↔
      (f, g) ∈ (CallGraph.mk s.calls).edges ∨ v.Calls config f g := by
  obtain ⟨node, item, context⟩ := v
  unfold add Visit.Calls
  cases item with
  | function name isAsync body => simp [mem_edges_alter_id]
  | call callee =>
    obtain ⟨enclosing, awaitable⟩ := context
    cases callee with
    | none => cases enclosing <;> simp
    | some callee =>
      cases enclosing with
      | none => simp
      | some enclosing =>
        simp only [mem_edges_addCall]
        simp [@eq_comm _ f]
  | exporting source specifiers => cases source <;> simp [addExport]
  | _ => simp

/-- The callers after a call. -/
theorem mem_keys_calls_addCall {s : Summary} {caller f : Name} {callee : Callee} :
    f ∈ (s.addCall config caller callee).calls.keys ↔
      f ∈ s.calls.keys ∨ f = caller ∧ ∃ g, config.edgeName callee = some g := by
  unfold addCall
  split
  · rename_i hsync
    simp [Config.edgeName_eq_none_of_isSyncOperation hsync]
  · split
    · rename_i name hname
      rw [Table.mem_keys_alter, hname, or_comm]
      simp
    · rename_i hnone
      simp [hnone]

/-- A visit adds the function that it declares to the callers, or the function around the call that it adds. -/
theorem mem_keys_calls_addVisit {s : Summary} {v : Visit} {f : Name} :
    f ∈ (s.add config text v).calls.keys ↔ f ∈ s.calls.keys ∨ (v.Declares f ∨ ∃ g, v.Calls config f g) := by
  obtain ⟨node, item, context⟩ := v
  unfold add Visit.Declares Visit.Calls
  cases item with
  | function name isAsync body =>
    simp only [Table.mem_keys_alter]
    simp [or_comm, @eq_comm _ f]
  | call callee =>
    obtain ⟨enclosing, awaitable⟩ := context
    cases callee with
    | none => cases enclosing <;> simp
    | some callee =>
      cases enclosing with
      | none => simp
      | some enclosing =>
        simp only [mem_keys_calls_addCall]
        simp [@eq_comm _ f]
  | exporting source specifiers => cases source <;> simp [addExport]
  | _ => simp

/-- A call adds no location. -/
theorem locations_addCall (s : Summary) (caller : Name) (callee : Callee) :
    (s.addCall config caller callee).locations = s.locations := by
  unfold addCall
  split
  · rfl
  · split <;> rfl

/-- The located names after a visit. -/
theorem mem_keys_locations_addVisit {s : Summary} {v : Visit} {f : Name} :
    f ∈ (s.add config text v).locations.keys ↔ f ∈ s.locations.keys ∨ v.Declares f := by
  obtain ⟨node, item, context⟩ := v
  unfold add Visit.Declares
  cases item with
  | function name isAsync body => simp [or_comm, @eq_comm _ f]
  | call callee =>
    obtain ⟨enclosing, awaitable⟩ := context
    cases callee with
    | none => cases enclosing <;> simp
    | some callee =>
      cases enclosing with
      | none => simp
      | some enclosing => simp [locations_addCall]
  | exporting source specifiers => cases source <;> simp [addExport]
  | _ => simp

/-- The imports after a visit. -/
theorem imports_addVisit (s : Summary) (v : Visit) :
    (s.add config text v).imports = s.imports ++ v.declarations text := by
  obtain ⟨node, item, context⟩ := v
  unfold add Visit.declarations
  cases item with
  | call callee =>
    obtain ⟨enclosing, awaitable⟩ := context
    cases callee with
    | none => cases enclosing <;> simp
    | some callee =>
      cases enclosing with
      | none => simp
      | some enclosing =>
        simp only [addCall]
        split
        · simp
        · split <;> simp
  | exporting source specifiers => cases source <;> simp [addExport]
  | _ => simp

theorem moduleId_addVisit (s : Summary) (v : Visit) : (s.add config text v).moduleId = s.moduleId := by
  obtain ⟨node, item, context⟩ := v
  unfold add
  cases item with
  | call callee =>
    obtain ⟨enclosing, awaitable⟩ := context
    cases callee with
    | none => cases enclosing <;> rfl
    | some callee =>
      cases enclosing with
      | none => rfl
      | some enclosing =>
        simp only [addCall]
        split
        · rfl
        · split <;> rfl
  | exporting source specifiers => cases source <;> rfl
  | _ => rfl

-- ---------------------------------------------------------------------------
-- The whole tree
-- ---------------------------------------------------------------------------

/-- A property of summaries to which each visit may contribute holds of the fold if and only if it held initially or
some visit contributed it. -/
theorem foldl_add_iff (P : Summary → Prop) (Q : Visit → Prop)
    (h : ∀ s v, P (s.add config text v) ↔ P s ∨ Q v) (vs : List Visit) (s : Summary) :
    P (vs.foldl (add config text) s) ↔ P s ∨ ∃ v ∈ vs, Q v := by
  induction vs generalizing s with
  | nil => simp
  | cons v rest ih => simp [ih, h, or_assoc]

/-- **The direct blocking functions** are those with a call of a blocking operation. -/
theorem mem_directBlocking_ofTree {moduleId : ModuleId} {root : Node} {f : Name} :
    f ∈ (ofTree config moduleId text root).directBlocking ↔ Tree.BlocksIn config text root f := by
  rw [← Tree.exists_visit_blocks_iff]
  refine (foldl_add_iff (f ∈ ·.directBlocking) (·.Blocks config f) (fun _ _ => mem_directBlocking_addVisit)
    (visits text root) { moduleId }).trans ?_
  simp

/-- **The calls** are those of the tree. -/
theorem mem_edges_ofTree {moduleId : ModuleId} {root : Node} {f g : Name} :
    (f, g) ∈ (CallGraph.mk (ofTree config moduleId text root).calls).edges ↔ Tree.CallsIn config text root f g := by
  rw [← Tree.exists_visit_calls_iff]
  refine (foldl_add_iff (fun s => (f, g) ∈ (CallGraph.mk s.calls).edges) (·.Calls config f g)
    (fun _ _ => mem_edges_addVisit) (visits text root) { moduleId }).trans ?_
  simp [CallGraph.edges]

/-- **The callers** are the declared functions. -/
theorem mem_keys_calls_ofTree {moduleId : ModuleId} {root : Node} {f : Name} :
    f ∈ (ofTree config moduleId text root).calls.keys ↔ Tree.DeclaredIn text root f := by
  rw [← Tree.exists_visit_declares_iff]
  refine (foldl_add_iff (f ∈ ·.calls.keys) (fun v => v.Declares f ∨ ∃ g, v.Calls config f g)
    (fun _ _ => mem_keys_calls_addVisit) (visits text root) { moduleId }).trans ⟨?_, ?_⟩
  · rintro (hempty | ⟨v, hv, hdeclares | ⟨g, hcalls⟩⟩)
    · cases hempty
    · exact ⟨v, hv, hdeclares⟩
    · -- the function around a call is declared somewhere above it
      exact Tree.exists_visit_declares_iff.mpr
        (Tree.declaredIn_of_callsIn (Tree.exists_visit_calls_iff.mp ⟨v, hv, hcalls⟩))
  · rintro ⟨v, hv, hdeclares⟩
    exact .inr ⟨v, hv, .inl hdeclares⟩

/-- **The located names** are the declared functions. -/
theorem mem_keys_locations_ofTree {moduleId : ModuleId} {root : Node} {f : Name} :
    f ∈ (ofTree config moduleId text root).locations.keys ↔ Tree.DeclaredIn text root f := by
  rw [← Tree.exists_visit_declares_iff]
  refine (foldl_add_iff (f ∈ ·.locations.keys) (·.Declares f) (fun _ _ => mem_keys_locations_addVisit)
    (visits text root) { moduleId }).trans ?_
  simp [Table.keys]

/-- **The imports**, in document order. -/
theorem imports_ofTree (moduleId : ModuleId) (root : Node) :
    (ofTree config moduleId text root).imports = (visits text root).flatMap (·.declarations text) := by
  have hfold : ∀ (vs : List Visit) (s : Summary),
      (vs.foldl (add config text) s).imports = s.imports ++ vs.flatMap (·.declarations text) := by
    intro vs
    induction vs with
    | nil => simp
    | cons v rest ih => simp [ih, imports_addVisit]
  exact hfold _ _

theorem moduleId_ofTree (moduleId : ModuleId) (root : Node) : (ofTree config moduleId text root).moduleId = moduleId := by
  have hfold : ∀ (vs : List Visit) (s : Summary), (vs.foldl (add config text) s).moduleId = s.moduleId := by
    intro vs
    induction vs with
    | nil => simp
    | cons v rest ih => simp [ih, moduleId_addVisit]
  exact hfold _ _

end Summary

end BlockingCalls
