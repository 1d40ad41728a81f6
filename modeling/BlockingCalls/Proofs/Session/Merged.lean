import BlockingCalls.Proofs.Session.View

/-!
# What all modules share in a session

Beside the views of single modules a session holds what is common to all of them: how modules are read and resolved,
the root, what was read so far, the merged calls, where functions are declared. `Merged` is the frame condition for this
part of a session: between two moments certain modules were read, each of which has added its calls and declarations, and
nothing else has changed. The invariant of the tables (`WellFormed`) is preserved.

Every step is one lemma (`merged_load`, `merged_link`, …); `Merged.trans` composes steps.

## Results

* `WellFormed.mem_values_iff`                        — the records are those found in views.
* `Merged.of_eq`, `Merged.refl`, `Merged.trans`      — steps that read nothing, and composition.
* `merged_load`                                      — a load reads one module and merges it.
-/

namespace BlockingCalls

namespace Session

/-- Each key has one entry, and each record is that of the module under whose id it stands. -/
structure WellFormed (s : Session) : Prop where
  records : s.program.modules.records.keys.Nodup
  owners : ∀ x record, (s.view x).record = some record → record.moduleId = x
  aliases : s.program.aliases.TellsApart

theorem mem_values_of_view {s : Session} {x : ModuleId} {record : Record}
    (h : (s.view x).record = some record) : record ∈ s.program.modules.records.values :=
  List.mem_map.mpr ⟨_, Table.mem_entries_of_get?_eq_some h, rfl⟩

/-- Each record is found under the id it carries. -/
theorem WellFormed.mem_values_iff {s : Session} (h : s.WellFormed) {record : Record} :
    record ∈ s.program.modules.records.values ↔ (s.view record.moduleId).record = some record := by
  refine ⟨fun hmem => ?_, mem_values_of_view⟩
  obtain ⟨⟨key, _⟩, hentry, rfl⟩ := List.mem_map.mp hmem
  have hview : (s.view key).record = some _ := (Table.get?_eq_some_iff h.records).mpr hentry
  rw [h.owners key _ hview]
  exact hview

/-- A new session is well-formed: all tables are empty. -/
theorem wellFormed_start {config : Config} {deno : String} {s : Session} (h : start config deno = .ok s) :
    s.WellFormed := by
  unfold start at h
  cases hresolver : Resolver.ofConfig config with
  | error fault =>
    rw [hresolver] at h
    cases h
  | ok resolver =>
    rw [hresolver] at h
    cases h
    refine ⟨List.nodup_nil, ?_, .empty⟩
    intro x record hrecord
    cases hrecord

/-- Between `s` and `s'` the modules `ids` were read and merged, in this order. -/
structure Merged (c : Codebase) (mode : Mode) (s s' : Session) (ids : List ModuleId) : Prop where
  resolver : s'.resolver = s.resolver
  reader : s'.reader = s.reader
  root : s'.root = s.root
  reads : s'.reads = s.reads ++ ids
  requests : s'.requests = s.requests ++ ids.flatMap fun x => (c.reader.read mode c.world x).requests
  edges : ∀ e, e ∈ s'.program.calls.edges ↔ e ∈ s.program.calls.edges ∨
    ∃ x ∈ ids, ∃ p, c.find? x = some p ∧ e ∈ (CallGraph.mk (c.summary p).calls).edges
  callers : ∀ f, f ∈ s'.program.calls.callers ↔ f ∈ s.program.calls.callers ∨
    ∃ x ∈ ids, ∃ p, c.find? x = some p ∧ f ∈ (c.summary p).calls.keys
  declared : ∀ f, f ∈ s'.locations.keys ↔ f ∈ s.locations.keys ∨
    ∃ x ∈ ids, ∃ p, c.find? x = some p ∧ f ∈ (c.summary p).locations.keys
  locations : ∀ e ∈ s'.locations.entries, e ∈ s.locations.entries ∨
    ∃ x ∈ ids, ∃ p, c.find? x = some p ∧ e ∈ (c.summary p).locations.entries
  wellFormed : s.WellFormed → s'.WellFormed

namespace Merged

variable {c : Codebase} {mode : Mode}

/-- A step that changes views only reads and merges nothing. -/
theorem of_eq {s s' : Session} (hresolver : s'.resolver = s.resolver) (hreader : s'.reader = s.reader)
    (hroot : s'.root = s.root) (hreads : s'.reads = s.reads) (hrequests : s'.requests = s.requests)
    (hcalls : s'.program.calls = s.program.calls) (hlocations : s'.locations = s.locations)
    (hwell : s.WellFormed → s'.WellFormed) : Merged c mode s s' [] where
  resolver := hresolver
  reader := hreader
  root := hroot
  reads := by rw [hreads, List.append_nil]
  requests := by rw [hrequests, List.flatMap_nil, List.append_nil]
  edges := by simp [hcalls]
  callers := by simp [hcalls]
  declared := by simp [hlocations]
  locations := by simp [hlocations]
  wellFormed := hwell

theorem refl (s : Session) : Merged c mode s s [] :=
  of_eq rfl rfl rfl rfl rfl rfl rfl id

/-- Steps compose: the modules read in both are read one after the other. Each field is the union over the concatenated
list. -/
theorem trans {s s' s'' : Session} {ids ids' : List ModuleId} (h : Merged c mode s s' ids)
    (h' : Merged c mode s' s'' ids') : Merged c mode s s'' (ids ++ ids') where
  resolver := h'.resolver.trans h.resolver
  reader := h'.reader.trans h.reader
  root := h'.root.trans h.root
  reads := by rw [h'.reads, h.reads, List.append_assoc]
  requests := by rw [h'.requests, h.requests, List.flatMap_append, List.append_assoc]
  edges e := by
    rw [h'.edges, h.edges, or_assoc]
    simp only [List.mem_append, or_and_right, exists_or]
  callers f := by
    rw [h'.callers, h.callers, or_assoc]
    simp only [List.mem_append, or_and_right, exists_or]
  declared f := by
    rw [h'.declared, h.declared, or_assoc]
    simp only [List.mem_append, or_and_right, exists_or]
  locations e he := by
    rcases h'.locations e he with he | ⟨x, hx, hp⟩
    · rcases h.locations e he with he | ⟨x, hx, hp⟩
      · exact .inl he
      · exact .inr ⟨x, List.mem_append_left _ hx, hp⟩
    · exact .inr ⟨x, List.mem_append_right _ hx, hp⟩
  wellFormed hs := h'.wellFormed (h.wellFormed hs)

/-- A session sees the same codebase as before, since its resolver and its reader are unchanged. -/
theorem codebase {s s' : Session} {ids : List ModuleId} (h : Merged c mode s s' ids) (w : World) :
    s'.codebase w = s.codebase w := by
  unfold Session.codebase
  rw [h.resolver, h.reader]

end Merged

-- ---------------------------------------------------------------------------
-- Steps that read nothing
-- ---------------------------------------------------------------------------

section Steps

variable {c : Codebase} {mode : Mode}

theorem merged_note (s : Session) (entry : LogEntry) : Merged c mode s (s.note entry) [] :=
  .of_eq rfl rfl rfl rfl rfl rfl rfl fun h => ⟨h.records, h.owners, h.aliases⟩

/-- Taking up a module reads and merges nothing; its new record carries the id of the module. -/
theorem merged_markVisiting (s : Session) (moduleId : ModuleId) : Merged c mode s (s.markVisiting moduleId) [] := by
  refine .of_eq rfl rfl rfl rfl rfl rfl rfl fun h => ⟨Table.nodup_keys_put h.records .., ?_, h.aliases⟩
  intro x record hrecord
  rw [view_markVisiting] at hrecord
  split at hrecord
  · rename_i hx
    cases hrecord
    exact hx.symm
  · exact h.owners x record hrecord

/-- Recording a failure reads and merges nothing; the record keeps its id. -/
theorem merged_fail (s : Session) (moduleId : ModuleId) (fault : Fault) : Merged c mode s (s.fail moduleId fault) [] := by
  refine .of_eq rfl rfl rfl rfl rfl rfl rfl fun h => ⟨Table.nodup_keys_put h.records .., ?_, h.aliases⟩
  intro x record hrecord
  rw [view_fail] at hrecord
  split at hrecord
  · rename_i hx
    cases hrecord
    cases hold : (s.view x).record with
    | none => exact hx.symm
    | some old => exact h.owners x old hold
  · exact h.owners x record hrecord

/-- Marking a module as done reads and merges nothing. -/
theorem merged_markDone (s : Session) (moduleId : ModuleId) : Merged c mode s (s.markDone moduleId) [] := by
  have hnodup : s.WellFormed → (s.markDone moduleId).program.modules.records.keys.Nodup := by
    intro h
    unfold markDone Registry.markDone? setModules
    cases s.program.modules.records.get? moduleId with
    | none => exact h.records
    | some record => exact Table.nodup_keys_put h.records ..
  -- only the progress of a record changes, so that it still belongs to its module
  refine .of_eq rfl rfl rfl rfl rfl rfl rfl fun h => ⟨hnodup h, ?_, h.aliases⟩
  intro x record hrecord
  rw [view_markDone] at hrecord
  split at hrecord
  · obtain ⟨old, hold, rfl⟩ := Option.map_eq_some_iff.mp hrecord
    exact h.owners x old hold
  · exact h.owners x record hrecord

/-- Recording aliases keeps the keys of all alias tables distinct. -/
theorem tellsApart_foldl_record {a : Aliases} (h : a.TellsApart) (bindings : List Tree.Binding)
    (moduleId target : ModuleId) :
    (bindings.foldl (fun a b => a.record moduleId b.localName ⟨target, b.imported⟩) a).TellsApart := by
  induction bindings generalizing a with
  | nil => exact h
  | cons b rest ih => exact ih (h.record ..)

/-- Linking an import reads and merges nothing. -/
theorem merged_link (s : Session) (m : Loaded) (d : ImportDeclaration) : Merged c mode s (s.link m d).1 [] := by
  unfold link
  split
  · exact .refl s
  · exact merged_note ..
  · refine .of_eq rfl rfl rfl rfl rfl rfl rfl fun h => ⟨h.records, ?_, tellsApart_foldl_record h.aliases ..⟩
    intro x record hrecord
    rw [view_recordAliases] at hrecord
    split at hrecord
    · exact h.owners x record hrecord
    · exact h.owners x record hrecord

end Steps

-- ---------------------------------------------------------------------------
-- Loading a module
-- ---------------------------------------------------------------------------

/-- Registering a parsed module preserves well-formedness. -/
theorem wellFormed_register {s : Session} (h : s.WellFormed) (p : Parsed) (summary : Summary) :
    (s.register p summary).WellFormed := by
  refine ⟨Table.nodup_keys_alter h.records .., ?_, h.aliases⟩
  intro x record hrecord
  rw [view_register] at hrecord
  split at hrecord
  · rename_i hx
    cases hrecord
    cases hold : (s.view x).record with
    | none => exact hx.symm
    | some old => exact h.owners x old hold
  · exact h.owners x record hrecord

/-- A load reads its module and, where it can be parsed, merges its calls. -/
theorem merged_load (s : Session) (mode : Mode) (w : World) (moduleId : ModuleId) :
    Merged (s.codebase w) mode s (s.load mode w moduleId).1 [moduleId] := by
  cases h : (s.codebase w).parse mode moduleId with
  | error fault =>
    rw [load_of_parse_error h]
    -- the read itself, and the record of the failure on top of it
    have hfail : Merged (s.codebase w) mode _ _ [] :=
      merged_fail (s.afterRead moduleId (s.reader.read mode w moduleId)) moduleId fault
    have hnone := Codebase.find?_eq_none_of_parse h
    have hread : Merged (s.codebase w) mode s (s.afterRead moduleId (s.reader.read mode w moduleId)) [moduleId] :=
      { resolver := rfl, reader := rfl, root := rfl, reads := rfl
        requests := by simp [afterRead, codebase]
        edges := by simp [hnone, afterRead]
        callers := by simp [hnone, afterRead]
        declared := by simp [hnone, afterRead]
        locations := fun e he => .inl he
        wellFormed := fun hs => ⟨hs.records, hs.owners, hs.aliases⟩ }
    exact hread.trans hfail
  | ok p =>
    rw [load_of_parse_ok h]
    have hsome := Codebase.find?_eq_some_of_parse h
    -- edges, callers and declared names grow by those of the summary
    exact
      { resolver := rfl, reader := rfl, root := rfl, reads := rfl
        requests := by simp [afterRead, register, note, codebase]
        edges := fun e => by simp [hsome, register, afterRead, note, CallGraph.mem_edges_add]
        callers := fun f => by simp [hsome, register, afterRead, note, CallGraph.mem_callers_add]
        declared := fun f => by
          rw [register, Table.mem_keys_putAll]
          simp [hsome, afterRead, Table.keys]
        locations := fun e he => by
          rcases Table.mem_entries_putAll he with he | he
          · exact .inl he
          · exact .inr ⟨moduleId, List.mem_singleton.mpr rfl, p, hsome, he⟩
        wellFormed := fun hs => by
          have hread : (s.afterRead moduleId (s.reader.read mode w moduleId)).WellFormed :=
            ⟨hs.records, hs.owners, hs.aliases⟩
          exact wellFormed_register hread p _ }

end Session

end BlockingCalls
