import BlockingCalls.Proofs.Codebase

/-!
# A session, module by module

Three tables of a session are indexed by module: the records, the parsed modules and the imports. What
they hold under one id is the *view* of that module. Every step of an analysis changes the view of one module and leaves
all others alone, so that what a run does to the tables can be said module by module, whatever the order of its steps.

The view of a module in the course of an analysis is a function of the codebase and of the view before: `Codebase.linked`
is the view once the imports are linked, `Codebase.concluded` the view when the task of the module proceeds, and
`Codebase.settled` the final view. The rest of a session is shared by all modules, and is treated in `Merged`.

## Results

* `view_load`, `view_link`, `view_markDone`, `view_fail`, `view_markVisiting` — the effect of each step on the views.
* `load_of_parse_ok`, `load_of_parse_error`, `link_cases`                     — the result of loading and of linking.
* `Codebase.settled_of_targets_ok`, `Codebase.settled_of_parse_error`         — the final view of a module.
-/

namespace BlockingCalls

namespace Session

/-- What a session holds under the id of one module. -/
structure View where
  record : Option Record
  parsed : Option Parsed
  aliases : Option (Table Alias)

/-- The view of a module in a session: one lookup in each of the three tables. -/
def view (s : Session) (moduleId : ModuleId) : View where
  record := s.program.modules.records.get? moduleId
  parsed := s.parsed.get? moduleId
  aliases := s.program.aliases.modules.get? moduleId

namespace View

/-- The record is there and no longer open. -/
def isFinished (v : View) : Bool :=
  v.record.any fun record => record.progress != .visiting

/-- The module is taken up; nothing is known of it yet. -/
def begin (moduleId : ModuleId) (v : View) : View :=
  { v with record := some { moduleId } }

/-- The module is recorded as failed. -/
def fail (moduleId : ModuleId) (fault : Fault) (v : View) : View :=
  { v with
    record := some { v.record.getD { moduleId } with
      progress := .failed, directBlocking := [], error := some fault.message } }

/-- The module is parsed and summarised. -/
def register (p : Parsed) (summary : Summary) (v : View) : View :=
  { v with
    parsed := some p
    record := some { v.record.getD { moduleId := p.moduleId } with
      directBlocking := summary.directBlocking, exports := summary.exports } }

/-- Local names are bound, one after the other. -/
def bind (bindings : List (Name × Alias)) (v : View) : View :=
  { v with aliases := bindings.foldl (fun names b => some ((names.getD {}).put b.1 b.2)) v.aliases }

/-- The record ends as done, if there is one. -/
def markDone (v : View) : View :=
  { v with record := v.record.map ({ · with progress := .done }) }

@[simp] theorem bind_nil (v : View) : v.bind [] = v := rfl

/-- Binding is a fold, so that bindings can be split anywhere. -/
theorem bind_append (v : View) (a b : List (Name × Alias)) : v.bind (a ++ b) = (v.bind a).bind b := by
  simp [bind]

@[simp] theorem record_bind (v : View) (bindings : List (Name × Alias)) : (v.bind bindings).record = v.record := rfl

theorem markDone_markDone (v : View) : v.markDone.markDone = v.markDone := by
  cases hrecord : v.record <;> simp [markDone, hrecord]

theorem fail_fail (v : View) (moduleId : ModuleId) (fault : Fault) :
    (v.fail moduleId fault).fail moduleId fault = v.fail moduleId fault :=
  rfl

end View

theorem isFinished_eq (s : Session) (moduleId : ModuleId) : s.isFinished moduleId = (s.view moduleId).isFinished := rfl

theorem directBlocking_eq (s : Session) (moduleId : ModuleId) :
    s.directBlocking moduleId = ((s.view moduleId).record.map (·.directBlocking)).getD [] := rfl

/-- The codebase that a session sees in a world. -/
def codebase (s : Session) (w : World) : Codebase :=
  ⟨w, s.resolver, s.reader⟩

-- ---------------------------------------------------------------------------
-- Views after a step
-- ---------------------------------------------------------------------------

@[simp] theorem view_note (s : Session) (entry : LogEntry) (x : ModuleId) : (s.note entry).view x = s.view x := rfl

@[simp] theorem view_afterRead (s : Session) (moduleId : ModuleId) (source : Traced Source) (x : ModuleId) :
    (s.afterRead moduleId source).view x = s.view x := rfl

/-- Taking up a module changes its own view only, and there only the record. -/
theorem view_markVisiting (s : Session) (moduleId x : ModuleId) :
    (s.markVisiting moduleId).view x = if x = moduleId then (s.view x).begin moduleId else s.view x := by
  by_cases h : moduleId = x
  · subst h
    simp [view, markVisiting, setModules, Registry.markVisiting, View.begin]
  · simp [view, markVisiting, setModules, Registry.markVisiting, h, Ne.symm h]

/-- Recording a failure changes the view of the failed module only. -/
theorem view_fail (s : Session) (moduleId : ModuleId) (fault : Fault) (x : ModuleId) :
    (s.fail moduleId fault).view x = if x = moduleId then (s.view x).fail moduleId fault else s.view x := by
  by_cases h : moduleId = x
  · subst h
    simp [view, fail, setModules, Registry.markFailed, View.fail, note]
  · simp [view, fail, setModules, Registry.markFailed, note, h, Ne.symm h]

/-- Marking a module as done changes its own view only. -/
theorem view_markDone (s : Session) (moduleId x : ModuleId) :
    (s.markDone moduleId).view x = if x = moduleId then (s.view x).markDone else s.view x := by
  unfold markDone Registry.markDone?
  by_cases h : moduleId = x
  · subst h
    -- a module without a record stays without one
    cases hrecord : s.program.modules.records.get? moduleId with
    | none => simp [view, setModules, View.markDone, hrecord]
    | some record => simp [view, setModules, View.markDone, hrecord]
  · -- another module is looked up
    cases hrecord : s.program.modules.records.get? moduleId with
    | none => simp [view, setModules, Ne.symm h]
    | some record => simp [view, setModules, h, Ne.symm h]

/-- Registering a parsed module changes the view under the id of the parsed module only. -/
theorem view_register (s : Session) (p : Parsed) (summary : Summary) (x : ModuleId) :
    (s.register p summary).view x = if x = p.moduleId then (s.view x).register p summary else s.view x := by
  by_cases h : p.moduleId = x
  · subst h
    simp [view, register, Registry.store, View.register, note]
  · simp [view, register, Registry.store, note, h, Ne.symm h]

end Session

-- ---------------------------------------------------------------------------
-- What becomes of a module
-- ---------------------------------------------------------------------------

namespace Codebase

open Session (View)

/-- What a load makes of the view of its module. -/
def load (c : Codebase) (mode : Mode) (moduleId : ModuleId) (v : View) : View :=
  match c.parse mode moduleId with
  | .error fault => v.fail moduleId fault
  | .ok p => v.register p (c.summary p)

/-- The view of a module that was taken up, loaded and linked, as far as it could be. -/
def linked (c : Codebase) (mode : Mode) (moduleId : ModuleId) (v : View) : View :=
  match c.parse mode moduleId with
  | .error fault => (v.begin moduleId).fail moduleId fault
  | .ok p => ((v.begin moduleId).register p (c.summary p)).bind (c.bindingsOf p)

/-- The view of a module at the end of its analysis. -/
def settled (c : Codebase) (mode : Mode) (moduleId : ModuleId) (v : View) : View :=
  match c.parse mode moduleId with
  | .error _ => c.linked mode moduleId v
  | .ok p =>
    match c.targetsOf p with
    | .error fault => (c.linked mode moduleId v).fail moduleId fault
    | .ok _ => (c.linked mode moduleId v).markDone

/-- The view of a module after its task has loaded it and linked its imports: marked as done if there is no module to wait
for, and failed if the module cannot be read and parsed. -/
def concluded (c : Codebase) (x : ModuleId) (v : View) : View :=
  match c.parse .concurrent x with
  | .error fault => v.fail x fault
  | .ok q =>
    match c.targetsOf q with
    | .ok [] => ((v.register q (c.summary q)).bind (c.bindingsOf q)).markDone
    | _ => (v.register q (c.summary q)).bind (c.bindingsOf q)

/-- The final view of a module that cannot be read and parsed: a failed record, and nothing else is changed. -/
theorem settled_of_parse_error {c : Codebase} {mode : Mode} {moduleId : ModuleId} {fault : Fault}
    (h : c.parse mode moduleId = .error fault) (v : View) :
    c.settled mode moduleId v =
      { v with record := some { moduleId, progress := .failed, error := some fault.message } } := by
  simp [settled, linked, h, View.begin, View.fail]

/-- The final view of a module all of whose imports can be resolved: its tree, its summary as a record that is done, and
its bindings. -/
theorem settled_of_targets_ok {c : Codebase} {mode : Mode} {moduleId : ModuleId} {p : Parsed}
    {ts : List ModuleId} (h : c.parse mode moduleId = .ok p) (hts : c.targetsOf p = .ok ts) (v : View) :
    c.settled mode moduleId v = View.bind (c.bindingsOf p)
      { v with
        parsed := some p
        record := some
          { moduleId, progress := .done
            directBlocking := (c.summary p).directBlocking, exports := (c.summary p).exports } } := by
  simp [settled, linked, h, hts, View.begin, View.register, View.markDone, View.bind]

theorem settled_of_opens {c : Codebase} {mode : Mode} {moduleId : ModuleId} {ts : List ModuleId}
    (h : c.Opens moduleId ts) (v : View) : c.settled mode moduleId v = (c.linked mode moduleId v).markDone := by
  obtain ⟨p, hp, hts⟩ := h
  simp [settled, parse_eq_ok_of_find? hp, hts]

/-- A module that dangles is recorded as failed after its links, so that its tree and its bindings are kept. -/
theorem settled_of_dangling {c : Codebase} {mode : Mode} {moduleId : ModuleId} {fault : Fault}
    (h : c.Dangling moduleId fault) (v : View) :
    c.settled mode moduleId v = (c.linked mode moduleId v).fail moduleId fault := by
  obtain ⟨p, hp, hfault⟩ := h
  simp [settled, parse_eq_ok_of_find? hp, hfault]

end Codebase

namespace Session

/-- A load of a module that cannot be read and parsed records the failure and returns nothing. -/
theorem load_of_parse_error {s : Session} {mode : Mode} {w : World} {moduleId : ModuleId} {fault : Fault}
    (h : (s.codebase w).parse mode moduleId = .error fault) :
    s.load mode w moduleId = ((s.afterRead moduleId (s.reader.read mode w moduleId)).fail moduleId fault, none) := by
  unfold load
  have hparse : (s.reader.read mode w moduleId).outcome.bind (Parsed.ofSource w) = .error fault := h
  simp only
  rw [hparse]

/-- A load of a module that can be read and parsed registers it, and returns its location and its summary. -/
theorem load_of_parse_ok {s : Session} {mode : Mode} {w : World} {moduleId : ModuleId} {p : Parsed}
    (h : (s.codebase w).parse mode moduleId = .ok p) :
    s.load mode w moduleId =
      ((s.afterRead moduleId (s.reader.read mode w moduleId)).register p ((s.codebase w).summary p),
        some ⟨p.location, (s.codebase w).summary p⟩) := by
  unfold load
  have hparse : (s.reader.read mode w moduleId).outcome.bind (Parsed.ofSource w) = .ok p := h
  simp only
  rw [hparse]
  -- the summary is made under the id that was asked for, which is that of the module
  rw [Codebase.summary, Codebase.moduleId_of_parse h]
  rfl

/-- A load changes the view of its module only, by `Codebase.load`. -/
theorem view_load (s : Session) (mode : Mode) (w : World) (moduleId x : ModuleId) :
    (s.load mode w moduleId).1.view x =
      if x = moduleId then (s.codebase w).load mode moduleId (s.view x) else s.view x := by
  unfold Codebase.load
  cases h : (s.codebase w).parse mode moduleId with
  | error fault => rw [load_of_parse_error h, view_fail, view_afterRead]
  | ok p => rw [load_of_parse_ok h, view_register, view_afterRead, Codebase.moduleId_of_parse h]

/-- Recording aliases of one module, one after the other: lookups of that module see the fold over the bindings, and
lookups of any other module are unchanged. By induction on the bindings. -/
theorem get?_modules_foldl_record (bindings : List Tree.Binding) (a : Aliases) (moduleId target x : ModuleId) :
    (bindings.foldl (fun a b => a.record moduleId b.localName ⟨target, b.imported⟩) a).modules.get? x =
      if x = moduleId then
        (bindings.map fun b => (b.localName, (⟨target, b.imported⟩ : Alias))).foldl
          (fun names b => some ((names.getD {}).put b.1 b.2)) (a.modules.get? x)
      else a.modules.get? x := by
  induction bindings generalizing a with
  | nil => simp
  | cons b rest ih =>
    -- the first binding is recorded before the others, so that the induction hypothesis speaks of a table with it
    rw [List.foldl_cons, ih]
    by_cases h : moduleId = x
    · subst h
      simp [Aliases.record]
    · simp [Aliases.record, h, Ne.symm h]

/-- Recording the aliases of an import binds them in the view of the importing module. -/
theorem view_recordAliases (s : Session) (moduleId target : ModuleId) (bindings : List Tree.Binding) (x : ModuleId) :
    (s.recordAliases moduleId target bindings).view x =
      if x = moduleId then (s.view x).bind (bindings.map fun b => (b.localName, ⟨target, b.imported⟩))
      else s.view x := by
  unfold view recordAliases
  simp only [get?_modules_foldl_record]
  split <;> rfl

/-- The three results of a link, by the resolution of the specifier: a fault, nothing for a skipped import, and the
target otherwise. -/
theorem link_cases (s : Session) (m : Loaded) (d : ImportDeclaration) :
    (∃ fault, s.resolver.resolve d.source m.location = .error fault ∧ s.link m d = (s, .error (.badUrl fault))) ∨
    (∃ reason, s.resolver.resolve d.source m.location = .ok (.skipped reason) ∧
      s.link m d = ((s.link m d).1, .ok none)) ∨
    ∃ target isRemote, s.resolver.resolve d.source m.location = .ok (.found target isRemote) ∧
      s.link m d = ((s.link m d).1, .ok (some target)) := by
  unfold link
  cases s.resolver.resolve d.source m.location with
  | error fault => exact .inl ⟨fault, rfl, rfl⟩
  | ok resolution =>
    cases resolution with
    | skipped reason => exact .inr (.inl ⟨reason, rfl, rfl⟩)
    | found target isRemote => exact .inr (.inr ⟨target, isRemote, rfl, rfl⟩)

/-- Linking an import binds its local names in the view of the importing module. -/
theorem view_link (s : Session) (w : World) (m : Loaded) (d : ImportDeclaration) (x : ModuleId) :
    (s.link m d).1.view x =
      if x = m.summary.moduleId then (s.view x).bind ((s.codebase w).bindings m.location [d]) else s.view x := by
  unfold link Codebase.bindings
  have hresolver : (s.codebase w).resolver = s.resolver := rfl
  rw [hresolver]
  -- an import that is skipped or cannot be resolved binds nothing, on both sides
  cases s.resolver.resolve d.source m.location with
  | error fault => simp
  | ok resolution =>
    cases resolution with
    | skipped reason => simp [Codebase.bindings]
    | found target isRemote => simp [Codebase.bindings, view_recordAliases]

end Session

end BlockingCalls
