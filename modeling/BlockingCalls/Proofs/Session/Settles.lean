import BlockingCalls.Proofs.Session.Covers

/-!
# How modules that tasks take up are settled

A module that was taken up is linked at once, as far as possible, and settled later: when its task is resumed, or, if its
imports could not be resolved, when the task of its parent is resumed and records the fault. Until then it is *pending*, and
there is an unfinished task that will settle it. Only if the root itself dangles nobody is left to record the fault, which
is then the result of the analysis.

For this to be an invariant, each fault that a task has in store must be the fault of the module under which it is stored,
and each task that is about to start must have its place among the children of its parent (`Wired`).

## Results

* `view_failChildren_of_mem`                          — the faults in store are recorded when a task resumes.
* `Wired.finishTask`, `Wired.suspend`, `Wired.report` — the effect of each kind of turn on the tasks.
* `Settles.finishTask_ok`, `Settles.unlinked`, `Settles.suspend`, `Settles.report`, `Settles.resume`
                                                      — the effect of each kind of turn on the modules that were read.
-/

namespace BlockingCalls.Session.Pool

open BlockingCalls.Session (View Merged Loaded)

-- ---------------------------------------------------------------------------
-- Tasks after a turn
-- ---------------------------------------------------------------------------

/-- The task with the given number after another one has ended and reported. -/
def answered (outcome : Except Fault (List Name)) (reportTo : ReportTo) (i : Nat) (task : Suspended) : Suspended :=
  match outcome, reportTo with
  | .error fault, some (parent, place) => if parent = i then setFault (some fault) place task else task
  | _, _ => task

/-- A task that ends changes at most its parent. -/
theorem getElem?_suspended_finishTask (p : Pool) (outcome : Except Fault (List Name)) (reportTo : ReportTo) (i : Nat) :
    (p.finishTask outcome reportTo).suspended[i]? = (p.suspended[i]?).map (answered outcome reportTo i) := by
  have hsame : p.suspended[i]? = (p.suspended[i]?).map fun task => task := Option.map_id'.symm
  cases reportTo with
  | none => cases outcome <;> exact hsame
  | some place =>
    cases outcome with
    | ok names => exact hsame
    | error fault => exact List.getElem?_modify ..

/-- The task with the given number after a report has arrived. -/
def noted (parent i : Nat) (task : Suspended) : Suspended :=
  if parent = i then { task with missing := task.missing - 1 } else task

/-- A report that arrives changes only the task to which it is sent. -/
theorem getElem?_suspended_report (p : Pool) (parent i : Nat) :
    (p.report parent).suspended[i]? = (p.suspended[i]?).map (noted parent i) := by
  unfold report
  cases htask : p.suspended[parent]? with
  | none =>
    simp only
    cases hi : p.suspended[i]? with
    | none => rfl
    | some other =>
      have hne : parent ≠ i := by
        rintro rfl
        rw [htask] at hi
        cases hi
      simp [noted, hne]
  | some task =>
    have hlt : parent < p.suspended.length := (List.getElem?_eq_some_iff.mp htask).1
    simp only
    by_cases hi : parent = i
    · subst hi
      rw [List.getElem?_set_self hlt, htask, Option.map_some, noted, if_pos rfl]
    · rw [List.getElem?_set_ne hi]
      cases p.suspended[i]? with
      | none => rfl
      | some other => rw [Option.map_some, noted, if_neg hi]

theorem getElem?_suspend_of_some {p : Pool} {i : Nat} {task : Suspended} (h : p.suspended[i]? = some task) (m : Loaded)
    (reportTo : ReportTo) (targets : List ModuleId) : (p.suspend m reportTo targets).suspended[i]? = some task := by
  have hlt : i < p.suspended.length := (List.getElem?_eq_some_iff.mp h).1
  exact (List.getElem?_append_left hlt).trans h

/-- A task that is suspended stands behind all others; none of its children has reported. -/
theorem getElem?_suspend_new (p : Pool) (m : Loaded) (reportTo : ReportTo) (targets : List ModuleId) :
    ∃ task, (p.suspend m reportTo targets).suspended[p.suspended.length]? = some task ∧
      task.moduleId = m.summary.moduleId ∧ task.reportTo = reportTo ∧ task.children = targets.map (·, none) ∧
      task.missing = targets.length :=
  ⟨_, List.getElem?_concat_length, rfl, rfl, rfl, rfl⟩

/-- A fault that was recorded stands in the place of the child that it is about; the others are as they were. -/
theorem mem_children_setFault {task : Suspended} {fault : Option Fault} {place : Nat}
    {child : ModuleId × Option Fault} (h : child ∈ (setFault fault place task).children) :
    child ∈ task.children ∨ (task.children[place]?).map (·.1) = some child.1 ∧ child.2 = fault := by
  obtain ⟨k, hk⟩ := List.mem_iff_getElem?.mp h
  rw [setFault, List.getElem?_modify] at hk
  obtain ⟨old, hold, rfl⟩ := Option.map_eq_some_iff.mp hk
  split
  · rename_i hplace
    subst hplace
    exact .inr ⟨by rw [hold]; rfl, rfl⟩
  · exact .inl (List.mem_of_getElem? hold)

/-- Storing a fault does not change for which modules the children stand. -/
theorem map_fst_children_setFault (task : Suspended) (fault : Option Fault) (place k : Nat) :
    ((setFault fault place task).children[k]?).map (·.1) = (task.children[k]?).map (·.1) := by
  rw [setFault, List.getElem?_modify]
  cases task.children[k]? with
  | none => rfl
  | some child =>
    by_cases h : place = k
    · simp [h]
    · simp [h]

/-- A child for which a fault is in store still has one after another fault was recorded. -/
theorem exists_fault_setFault {task : Suspended} {y : ModuleId} {old : Fault} (h : (y, some old) ∈ task.children)
    (fault : Fault) (place : Nat) : ∃ new, (y, some new) ∈ (setFault (some fault) place task).children := by
  obtain ⟨k, hk⟩ := List.mem_iff_getElem?.mp h
  have hget : (setFault (some fault) place task).children[k]? =
      some (if place = k then (y, some fault) else (y, some old)) := by
    rw [setFault, List.getElem?_modify, hk]
    rfl
  by_cases hplace : place = k
  · rw [if_pos hplace] at hget
    exact ⟨fault, List.mem_of_getElem? hget⟩
  · rw [if_neg hplace] at hget
    exact ⟨old, List.mem_of_getElem? hget⟩

-- ---------------------------------------------------------------------------
-- Recording the faults in store
-- ---------------------------------------------------------------------------

theorem failChildren_cons (s : Session) (child : ModuleId × Option Fault) (rest : List (ModuleId × Option Fault)) :
    failChildren s (child :: rest) = failChildren ((child.2.map (s.fail child.1)).getD s) rest :=
  rfl

/-- Recording the faults in store reads and merges nothing. -/
theorem merged_failChildren {c : Codebase} {mode : Mode} (children : List (ModuleId × Option Fault)) (s : Session) :
    Merged c mode s (failChildren s children) [] := by
  induction children generalizing s with
  | nil => exact .refl s
  | cons child rest ih =>
    obtain ⟨y, fault⟩ := child
    rw [failChildren_cons]
    cases fault with
    | none => exact ih s
    | some fault => exact (merged_fail s y fault).trans (ih _)

/-- Recording the faults in store takes up no module. -/
theorem inFlight_failChildren (children : List (ModuleId × Option Fault)) (s : Session) :
    (failChildren s children).inFlight = s.inFlight := by
  induction children generalizing s with
  | nil => rfl
  | cons child rest ih =>
    obtain ⟨y, fault⟩ := child
    rw [failChildren_cons, ih]
    cases fault <;> rfl

/-- A module for which no fault is in store is left alone. -/
theorem view_failChildren_of_not_mem {children : List (ModuleId × Option Fault)} {s : Session} {x : ModuleId}
    (h : ∀ fault, (x, some fault) ∉ children) : (failChildren s children).view x = s.view x := by
  induction children generalizing s with
  | nil => rfl
  | cons child rest ih =>
    obtain ⟨y, fault⟩ := child
    rw [failChildren_cons, ih fun fault hmem => h fault (List.mem_cons_of_mem _ hmem)]
    cases fault with
    | none => rfl
    | some fault =>
      have hne : x ≠ y := fun heq => h fault (by rw [heq]; exact List.mem_cons_self)
      exact (view_fail ..).trans (if_neg hne)

/-- A module for which one fault is in store, perhaps in several places, has failed with it. -/
theorem view_failChildren_of_mem {children : List (ModuleId × Option Fault)} {s : Session} {x : ModuleId} {fault : Fault}
    (h : (x, some fault) ∈ children) (hall : ∀ other, (x, some other) ∈ children → other = fault) :
    (failChildren s children).view x = (s.view x).fail x fault := by
  induction children generalizing s with
  | nil => cases h
  | cons child rest ih =>
    obtain ⟨y, stored⟩ := child
    rw [failChildren_cons]
    have hrest : ∀ other, (x, some other) ∈ rest → other = fault :=
      fun other hmem => hall other (List.mem_cons_of_mem _ hmem)
    -- either the first child is the one, and the rest records the same fault again or nothing; or it is another child
    by_cases hchild : (y, stored) = (x, some fault)
    · cases hchild
      have hview : (s.fail x fault).view x = (s.view x).fail x fault := (view_fail ..).trans (if_pos rfl)
      by_cases hmem : (x, some fault) ∈ rest
      · rw [ih hmem hrest]
        show ((s.fail x fault).view x).fail x fault = _
        rw [hview, View.fail_fail]
      · have hnone : ∀ other, (x, some other) ∉ rest := fun other hother => hmem (hrest other hother ▸ hother)
        rw [view_failChildren_of_not_mem hnone]
        exact hview
    · have hmem : (x, some fault) ∈ rest := (List.mem_cons.mp h).resolve_left fun heq => hchild heq.symm
      rw [ih hmem hrest]
      cases stored with
      | none => rfl
      | some other =>
        have hne : x ≠ y := by
          rintro rfl
          exact hchild (by rw [hall other List.mem_cons_self])
        show ((s.fail y other).view x).fail x fault = _
        rw [view_fail, if_neg hne]

-- ---------------------------------------------------------------------------
-- Tasks and their children
-- ---------------------------------------------------------------------------

/-- A task stands for a module that was read and opens others; the faults that it has in store are those of its children;
only the task of the root reports to the caller. -/
structure Sound (c : Codebase) (root : ModuleId) (ids : List ModuleId) (task : Suspended) : Prop where
  read : task.moduleId ∈ ids
  opens : ∃ ts, c.Opens task.moduleId ts
  faults : ∀ y fault, (y, some fault) ∈ task.children → y ∈ ids ∧ c.Dangling y fault
  caller : task.reportTo = none → task.moduleId = root

namespace Sound

variable {c : Codebase} {root : ModuleId} {ids : List ModuleId} {task : Suspended}

/-- Soundness of a task is monotone in the modules that were read. -/
theorem concat (h : Sound c root ids task) (x : ModuleId) : Sound c root (ids ++ [x]) task where
  read := List.mem_append_left _ h.read
  opens := h.opens
  faults y fault hmem := ⟨List.mem_append_left _ (h.faults y fault hmem).1, (h.faults y fault hmem).2⟩
  caller := h.caller

/-- Storing the fault of a child that dangles keeps a task sound. -/
theorem setFault (h : Sound c root ids task) {x : ModuleId} {place : Nat} {fault : Fault} (hx : x ∈ ids)
    (hplace : (task.children[place]?).map (·.1) = some x) (hdangling : c.Dangling x fault) :
    Sound c root ids (Pool.setFault (some fault) place task) where
  read := h.read
  opens := h.opens
  faults y other hmem := by
    rcases mem_children_setFault hmem with hold | ⟨hy, heq⟩
    · exact h.faults y other hold
    · cases heq
      rw [hplace] at hy
      cases hy
      exact ⟨hx, hdangling⟩
  caller := h.caller

end Sound

/-- Every task is sound, and each task that is about to start stands in its place among the children of its parent. -/
structure Wired (c : Codebase) (root : ModuleId) (ids : List ModuleId) (p : Pool) : Prop where
  tasks : ∀ (i : Nat) (task : Suspended), p.suspended[i]? = some task → Sound c root ids task
  starts : ∀ y i place, .start y (some (i, place)) ∈ p.queue →
    ∃ task, p.suspended[i]? = some task ∧ (task.children[place]?).map (·.1) = some y

namespace Wired

variable {c : Codebase} {root : ModuleId} {ids : List ModuleId} {p : Pool}

theorem pop (h : Wired c root ids p) {turn : Turn} {rest : List Turn} (hqueue : p.queue = turn :: rest)
    (s : Session) : Wired c root ids { p with queue := rest, session := s } where
  tasks := h.tasks
  starts y i place hstart := h.starts y i place (by rw [hqueue]; exact List.mem_cons_of_mem _ hstart)

theorem concat (h : Wired c root ids p) (x : ModuleId) : Wired c root (ids ++ [x]) p where
  tasks i task htask := (h.tasks i task htask).concat x
  starts := h.starts

/-- A task ends, and if it was with a fault, its parent keeps that in store. -/
theorem finishTask (h : Wired c root ids p) {outcome : Except Fault (List Name)} {reportTo : ReportTo}
    (hfault : ∀ fault i place, outcome = .error fault → reportTo = some (i, place) →
      ∃ x ∈ ids, c.Dangling x fault ∧
        ∃ task, p.suspended[i]? = some task ∧ (task.children[place]?).map (·.1) = some x) :
    Wired c root ids (p.finishTask outcome reportTo) := by
  refine ⟨?_, ?_⟩
  · -- the parent keeps the fault in store, at the place of the child that it belongs to
    intro i task' htask'
    rw [getElem?_suspended_finishTask] at htask'
    obtain ⟨task, htask, rfl⟩ := Option.map_eq_some_iff.mp htask'
    have hsound := h.tasks i task htask
    unfold answered
    split
    · rename_i fault parent place
      split
      · rename_i hparent
        subst hparent
        obtain ⟨x, hx, hdangling, other, hother, hplace⟩ := hfault fault parent place rfl rfl
        rw [htask] at hother
        cases hother
        exact hsound.setFault hx hplace hdangling
      · exact hsound
    · exact hsound
  · -- places are unchanged, and no task is started
    intro y i place hstart
    rcases mem_queue_finishTask.mp hstart with hstart | ⟨_, _, heq⟩
    · obtain ⟨task, htask, hplace⟩ := h.starts y i place hstart
      refine ⟨answered outcome reportTo i task, by rw [getElem?_suspended_finishTask, htask]; rfl, ?_⟩
      unfold answered
      split
      · split
        · rw [map_fst_children_setFault]
          exact hplace
        · exact hplace
      · exact hplace
    · cases heq

/-- A task waits for the children that it starts. -/
theorem suspend (h : Wired c root ids p) {x : ModuleId} {q : Parsed} {ts : List ModuleId} {reportTo : ReportTo}
    (hx : x ∈ ids) (hq : c.find? x = some q) (hts : c.targetsOf q = .ok ts) (hcaller : reportTo = none → x = root) :
    Wired c root ids (p.suspend ⟨q.location, c.summary q⟩ reportTo ts) := by
  have hid : (c.summary q).moduleId = x :=
    Codebase.moduleId_summary (@Codebase.parse_eq_ok_of_find? c .concurrent x q hq)
  refine ⟨?_, ?_⟩
  · intro i task htask
    rcases List.mem_append.mp (List.mem_of_getElem? htask) with hmem | hmem
    · obtain ⟨k, hk⟩ := List.mem_iff_getElem?.mp hmem
      exact h.tasks k task hk
    · rw [List.mem_singleton.mp hmem]
      refine ⟨hid ▸ hx, ⟨ts, q, hid ▸ hq, hts⟩, ?_, fun hnone => hid.trans (hcaller hnone)⟩
      intro y fault hchild
      obtain ⟨_, _, heq⟩ := List.mem_map.mp hchild
      cases heq
  · intro y i place hstart
    rcases mem_queue_suspend.mp hstart with hstart | ⟨target, k, hk, heq⟩
    · obtain ⟨task, htask, hplace⟩ := h.starts y i place hstart
      exact ⟨task, getElem?_suspend_of_some htask .., hplace⟩
    · -- a child that the new task starts
      cases heq
      obtain ⟨task, htask, _, _, hchildren, _⟩ := p.getElem?_suspend_new ⟨q.location, c.summary q⟩ reportTo ts
      refine ⟨task, htask, ?_⟩
      rw [hchildren, List.getElem?_map, hk]
      rfl

/-- A report that arrives preserves the wiring. -/
theorem report (h : Wired c root ids p) (parent : Nat) : Wired c root ids (p.report parent) := by
  refine ⟨?_, ?_⟩
  · intro i task' htask'
    rw [getElem?_suspended_report] at htask'
    obtain ⟨task, htask, rfl⟩ := Option.map_eq_some_iff.mp htask'
    have hsound := h.tasks i task htask
    unfold noted
    split
    · exact ⟨hsound.read, hsound.opens, hsound.faults, hsound.caller⟩
    · exact hsound
  · intro y i place hstart
    obtain ⟨task, htask, hplace⟩ := h.starts y i place ((mem_queue_report hstart).resolve_right (by simp))
    refine ⟨noted parent i task, by rw [getElem?_suspended_report, htask]; rfl, ?_⟩
    unfold noted
    split
    · exact hplace
    · exact hplace

end Wired

-- ---------------------------------------------------------------------------
-- Modules that are not settled yet
-- ---------------------------------------------------------------------------

/-- The task waits for reports or is about to resume. -/
structure Unfinished (p : Pool) (i : Nat) (task : Suspended) : Prop where
  known : p.suspended[i]? = some task
  waits : 0 < task.missing ∨ .resume i ∈ p.queue

/-- Why a module that was read need not be settled. -/
inductive Pending (p : Pool) (root x : ModuleId) : Prop
  /-- Its own task has not finished. -/
  | own {i : Nat} {task : Suspended} (unfinished : p.Unfinished i task) (owner : task.moduleId = x)
  /-- Its task has ended with a fault, which its parent has in store. -/
  | child {i : Nat} {task : Suspended} {fault : Fault} (unfinished : p.Unfinished i task)
      (stored : (x, some fault) ∈ task.children)
  /-- Its task has ended with a fault, which is the result of the analysis. -/
  | escaped {fault : Fault} (result : p.result = some (.error fault)) (atRoot : x = root)

/-- What is pending remains so while tasks do not finish and keep what they have in store. -/
theorem Pending.mono {p p' : Pool} {root x : ModuleId} (h : p.Pending root x)
    (htasks : ∀ i task, p.Unfinished i task → (task.moduleId = x ∨ ∃ fault, (x, some fault) ∈ task.children) →
      ∃ task', p'.Unfinished i task' ∧ task'.moduleId = task.moduleId ∧
        ∀ y fault, (y, some fault) ∈ task.children → ∃ fault', (y, some fault') ∈ task'.children)
    (hresult : ∀ fault, p.result = some (.error fault) → ∃ fault', p'.result = some (.error fault')) :
    p'.Pending root x := by
  -- each reason for being pending is carried over by the corresponding hypothesis
  cases h with
  | own unfinished owner =>
    obtain ⟨task', hunfinished, hid, _⟩ := htasks _ _ unfinished (.inl owner)
    exact .own hunfinished (hid.trans owner)
  | child unfinished stored =>
    obtain ⟨task', hunfinished, _, hstored⟩ := htasks _ _ unfinished (.inr ⟨_, stored⟩)
    obtain ⟨fault', hfault'⟩ := hstored _ _ stored
    exact .child hunfinished hfault'
  | escaped result atRoot =>
    obtain ⟨fault', hfault'⟩ := hresult _ result
    exact .escaped hfault' atRoot

/-- What is pending does not depend on the session. -/
theorem Pending.withSession {p : Pool} {root x : ModuleId} (h : p.Pending root x) (s : Session) :
    { p with session := s }.Pending root x := by
  refine h.mono ?_ fun fault hfault => ⟨fault, hfault⟩
  intro i task hunfinished _
  exact ⟨task, ⟨hunfinished.known, hunfinished.waits⟩, rfl, fun y fault hy => ⟨fault, hy⟩⟩

/-- What is pending remains so when another task is suspended. -/
theorem Pending.suspend {p : Pool} {root x : ModuleId} (h : p.Pending root x) (m : Loaded) (reportTo : ReportTo)
    (targets : List ModuleId) : (p.suspend m reportTo targets).Pending root x := by
  refine h.mono ?_ fun fault hfault => ⟨fault, hfault⟩
  intro i task hunfinished _
  refine ⟨task, ⟨getElem?_suspend_of_some hunfinished.known .., ?_⟩, rfl, fun y fault hy => ⟨fault, hy⟩⟩
  exact hunfinished.waits.imp id fun hmem => mem_queue_suspend.mpr (.inl hmem)

/-- A task that has not finished remains so when another one ends. -/
theorem Unfinished.finishTask {p : Pool} {i : Nat} {task : Suspended} (h : p.Unfinished i task)
    (outcome : Except Fault (List Name)) (reportTo : ReportTo) :
    (p.finishTask outcome reportTo).Unfinished i (answered outcome reportTo i task) := by
  refine ⟨by rw [getElem?_suspended_finishTask, h.known]; rfl, ?_⟩
  refine h.waits.imp (fun hopen => ?_) fun hmem => mem_queue_finishTask.mpr (.inl hmem)
  unfold answered
  split
  · split
    · exact hopen
    · exact hopen
  · exact hopen

/-- What is pending remains so when a task ends, unless the caller gets another result. -/
theorem Pending.finishTask {p : Pool} {root x : ModuleId} (h : p.Pending root x) {outcome : Except Fault (List Name)}
    {reportTo : ReportTo}
    (hresult : ∀ fault, reportTo = none → p.result = some (.error fault) → ∃ fault', outcome = .error fault') :
    (p.finishTask outcome reportTo).Pending root x := by
  refine h.mono ?_ ?_
  · intro i task hunfinished _
    refine ⟨_, hunfinished.finishTask outcome reportTo, ?_, ?_⟩
    · unfold answered
      split
      · split <;> rfl
      · rfl
    · intro y fault hmem
      unfold answered
      split
      · split
        · exact exists_fault_setFault hmem ..
        · exact ⟨fault, hmem⟩
      · exact ⟨fault, hmem⟩
  · intro fault hfault
    cases reportTo with
    | none =>
      obtain ⟨fault', rfl⟩ := hresult fault rfl hfault
      exact ⟨fault', rfl⟩
    | some place => exact ⟨fault, hfault⟩

-- ---------------------------------------------------------------------------
-- Settling
-- ---------------------------------------------------------------------------

/-- What was read since the session `s₀` is settled or pending; the result of the analysis is a fault only if it is that
of the root. -/
structure Settles (c : Codebase) (root : ModuleId) (s₀ : Session) (ids : List ModuleId) (p : Pool) : Prop where
  inside : ∀ x ∈ ids, p.session.view x = c.settled .concurrent x (s₀.view x) ∨
    p.session.view x = c.linked .concurrent x (s₀.view x) ∧ p.Pending root x
  returned : ∀ names, p.result = some (.ok names) → Stops s₀ root ∨ ∀ fault, ¬ c.Dangling root fault
  escaped : ∀ fault, p.result = some (.error fault) → ¬ Stops s₀ root ∧ c.Dangling root fault

namespace Settles

variable {c : Codebase} {root : ModuleId} {s₀ : Session} {ids : List ModuleId} {p : Pool}

/-- Taking a turn from the queue in which no task resumes. -/
theorem pop (h : Settles c root s₀ ids p) {turn : Turn} {rest : List Turn} (hqueue : p.queue = turn :: rest)
    (hturn : ∀ i, turn ≠ .resume i) : Settles c root s₀ ids { p with queue := rest } where
  inside x hx := by
    rcases h.inside x hx with hview | ⟨hview, hpending⟩
    · exact .inl hview
    · refine .inr ⟨hview, hpending.mono ?_ fun fault hfault => ⟨fault, hfault⟩⟩
      intro i task hunfinished _
      refine ⟨task, ⟨hunfinished.known, hunfinished.waits.imp id fun hmem => ?_⟩, rfl, fun y fault hy => ⟨fault, hy⟩⟩
      rw [hqueue] at hmem
      exact (List.mem_cons.mp hmem).resolve_left (hturn i).symm
  returned := h.returned
  escaped := h.escaped

/-- A task that ends without a fault keeps everything settled or pending. If it reports to the caller, the root must not
dangle. -/
theorem finishTask_ok (h : Settles c root s₀ ids p) (names : List Name) {reportTo : ReportTo}
    (hcaller : reportTo = none → Stops s₀ root ∨ ∀ fault, ¬ c.Dangling root fault) :
    Settles c root s₀ ids (p.finishTask (.ok names) reportTo) := by
  have hno : ∀ fault, reportTo = none → p.result ≠ some (.error fault) := by
    intro fault hnone hfault
    obtain ⟨hgo, hdangling⟩ := h.escaped fault hfault
    rcases hcaller hnone with hstop | hopen
    · exact hgo hstop
    · exact hopen fault hdangling
  refine ⟨?_, ?_, ?_⟩
  · -- no view changes, and nothing stops being pending
    intro x hx
    rw [session_finishTask]
    refine (h.inside x hx).imp id fun ⟨hview, hpending⟩ => ⟨hview, hpending.finishTask ?_⟩
    intro fault hnone hfault
    exact absurd hfault (hno fault hnone)
  · -- the result is that of the task only if it reports to the caller
    intro names' hresult
    cases reportTo with
    | none => exact hcaller rfl
    | some place => exact h.returned names' hresult
  · intro fault hresult
    cases reportTo with
    | none => cases hresult
    | some place => exact h.escaped fault hresult

/-- What was read before is as it was when another module is taken up. -/
theorem inside_of_takenUp (h : Settles c root s₀ ids p) {x : ModuleId} {s : Session} (htaken : TakenUp c x p.session s)
    (hx : x ∉ ids) {y : ModuleId} (hy : y ∈ ids) : s.view y = c.settled .concurrent y (s₀.view y) ∨
      s.view y = c.linked .concurrent y (s₀.view y) ∧ p.Pending root y := by
  have hne : y ≠ x := fun heq => hx (heq ▸ hy)
  rw [htaken.others y hne]
  exact h.inside y hy

/-- A module is taken up and settled in one turn. -/
theorem takeUp (h : Settles c root s₀ ids p) {x : ModuleId} {s : Session} (htaken : TakenUp c x p.session s)
    (hx : x ∉ ids) (hview : s.view x = c.settled .concurrent x (s₀.view x)) :
    Settles c root s₀ (ids ++ [x]) { p with session := s } := by
  refine ⟨?_, h.returned, h.escaped⟩
  intro y hy
  rcases List.mem_append.mp hy with hy | hy
  · exact (h.inside_of_takenUp htaken hx hy).imp id fun ⟨hview, hpending⟩ => ⟨hview, hpending.withSession s⟩
  · rw [List.mem_singleton.mp hy]
    exact .inl hview

/-- A module is taken up whose imports cannot all be resolved: its parent, which waits for its report, has the fault in
store, or it is the root, and the fault is the result of the analysis. -/
theorem unlinked (h : Settles c root s₀ ids p) {x : ModuleId} {s : Session} {fault : Fault} {reportTo : ReportTo}
    (htaken : TakenUp c x p.session s) (hx : x ∉ ids) (hview : s.view x = c.linked .concurrent x (s₀.view x))
    (hdangling : c.Dangling x fault) (hcaller : reportTo = none → x = root ∧ ¬ Stops s₀ root)
    (hparent : ∀ i place, reportTo = some (i, place) →
      ∃ task, p.suspended[i]? = some task ∧ (task.children[place]?).map (·.1) = some x ∧ 0 < task.missing) :
    Settles c root s₀ (ids ++ [x]) ({ p with session := s }.finishTask (.error fault) reportTo) := by
  have hkept : ∀ y, p.Pending root y → ({ p with session := s }.finishTask (.error fault) reportTo).Pending root y := by
    intro y hpending
    exact (hpending.withSession s).finishTask fun _ _ _ => ⟨fault, rfl⟩
  refine ⟨?_, ?_, ?_⟩
  · -- the modules read before are as they were; the new one is pending
    intro y hy
    rw [session_finishTask]
    rcases List.mem_append.mp hy with hy | hy
    · exact (h.inside_of_takenUp htaken hx hy).imp id fun ⟨hview, hpending⟩ => ⟨hview, hkept y hpending⟩
    · rw [List.mem_singleton.mp hy]
      refine .inr ⟨hview, ?_⟩
      cases reportTo with
      | none =>
        -- the root itself: its fault is the result
        exact .escaped rfl (hcaller rfl).1
      | some parent =>
        -- the parent waits for the report and stores the fault
        obtain ⟨i, place⟩ := parent
        obtain ⟨task, htask, hplace, hopen⟩ := hparent i place rfl
        obtain ⟨child, hchild, rfl⟩ := Option.map_eq_some_iff.mp hplace
        have hunfinished : { p with session := s }.Unfinished i task := ⟨htask, .inl hopen⟩
        have hstored : (child.1, some fault) ∈ (answered (.error fault) (some (i, place)) i task).children := by
          rw [answered, if_pos rfl]
          refine @List.mem_of_getElem? _ _ place _ ?_
          rw [setFault, List.getElem?_modify_eq, hchild]
          rfl
        exact .child (hunfinished.finishTask ..) hstored
  · intro names hresult
    cases reportTo with
    | none => cases hresult
    | some place => exact h.returned names hresult
  · intro other hresult
    cases reportTo with
    | none =>
      obtain ⟨rfl, hgo⟩ := hcaller rfl
      cases hresult
      exact ⟨hgo, hdangling⟩
    | some place => exact h.escaped other hresult

/-- A module is taken up and waits for those that it opens. -/
theorem suspend (h : Settles c root s₀ ids p) {x : ModuleId} {s : Session} (htaken : TakenUp c x p.session s)
    (hx : x ∉ ids) (hview : s.view x = c.linked .concurrent x (s₀.view x)) {q : Parsed} (hq : c.find? x = some q)
    {ts : List ModuleId} (hne : ts ≠ []) (reportTo : ReportTo) :
    Settles c root s₀ (ids ++ [x]) ({ p with session := s }.suspend ⟨q.location, c.summary q⟩ reportTo ts) := by
  have hid : (c.summary q).moduleId = x :=
    Codebase.moduleId_summary (@Codebase.parse_eq_ok_of_find? c .concurrent x q hq)
  refine ⟨?_, h.returned, h.escaped⟩
  intro y hy
  show s.view y = _ ∨ s.view y = _ ∧ _
  rcases List.mem_append.mp hy with hy | hy
  · exact (h.inside_of_takenUp htaken hx hy).imp id fun ⟨hview, hpending⟩ =>
      ⟨hview, (hpending.withSession s).suspend ..⟩
  · -- the new task waits for at least one report
    rw [List.mem_singleton.mp hy]
    obtain ⟨task, htask, howner, _, _, hmissing⟩ :=
      getElem?_suspend_new { p with session := s } ⟨q.location, c.summary q⟩ reportTo ts
    have hopen : 0 < task.missing := by
      rw [hmissing]
      exact List.length_pos_iff.mpr hne
    exact .inr ⟨hview, .own ⟨htask, .inl hopen⟩ (howner.trans hid)⟩

/-- A report arrives: a task that has waited still waits or is about to resume. -/
theorem report (h : Settles c root s₀ ids p) (parent : Nat) : Settles c root s₀ ids (p.report parent) := by
  have hresult : (p.report parent).result = p.result := by
    unfold Pool.report
    split <;> rfl
  refine ⟨?_, fun names hnames => h.returned names (hresult ▸ hnames), fun fault hfault => h.escaped fault (hresult ▸ hfault)⟩
  intro x hx
  rw [session_report]
  -- the session is unchanged; what was pending is pending still
  refine (h.inside x hx).imp id fun ⟨hview, hpending⟩ => ⟨hview, hpending.mono ?_ fun fault hfault => ⟨fault, ?_⟩⟩
  · intro i task hunfinished _
    refine ⟨noted parent i task, ⟨by rw [getElem?_suspended_report, hunfinished.known]; rfl, ?_⟩, ?_, ?_⟩
    · rcases hunfinished.waits with hopen | hresume
      · unfold noted
        split
        · rename_i hparent
          subst hparent
          by_cases hone : task.missing = 1
          · -- the last report: the task resumes
            refine .inr ?_
            rw [Pool.report, hunfinished.known]
            show _ ∈ ite _ _ _
            rw [if_pos hone]
            exact List.mem_append_right _ (List.mem_singleton.mpr rfl)
          · refine .inl ?_
            show 0 < task.missing - 1
            omega
        · exact .inl hopen
      · exact .inr (mem_queue_report_of_mem hresume parent)
    · unfold noted
      split <;> rfl
    · intro y fault hy
      refine ⟨fault, ?_⟩
      unfold noted
      split
      · exact hy
      · exact hy
  · rw [hresult]
    exact hfault

/-- A task resumes: its module is settled, and so are those children for which it has a fault in store. -/
theorem resume (h : Settles c root s₀ ids p) (hwired : Wired c root ids p) {i : Nat} {rest : List Turn}
    (hqueue : p.queue = .resume i :: rest) {task : Suspended} (htask : p.suspended[i]? = some task) :
    Settles c root s₀ ids
      { p with queue := rest, session := (failChildren p.session task.children).markDone task.moduleId } := by
  have hsound := hwired.tasks i task htask
  obtain ⟨ts, hopens⟩ := hsound.opens
  refine ⟨?_, h.returned, h.escaped⟩
  intro x hx
  show ((failChildren p.session task.children).markDone task.moduleId).view x = _ ∨
    ((failChildren p.session task.children).markDone task.moduleId).view x = _ ∧ _
  rw [view_markDone]
  by_cases hid : x = task.moduleId
  · -- its own module opens others, so there is no fault in store for it
    subst hid
    have hnone : ∀ fault, (task.moduleId, some fault) ∉ task.children :=
      fun fault hmem => hopens.not_dangling fault (hsound.faults _ fault hmem).2
    rw [if_pos rfl, view_failChildren_of_not_mem hnone, Codebase.settled_of_opens hopens]
    rcases h.inside _ hx with hview | ⟨hview, _⟩
    · rw [hview, Codebase.settled_of_opens hopens, View.markDone_markDone]
      exact .inl rfl
    · rw [hview]
      exact .inl rfl
  · rw [if_neg hid]
    by_cases hstored : ∃ fault, (x, some fault) ∈ task.children
    · obtain ⟨fault, hmem⟩ := hstored
      have hdangling := (hsound.faults x fault hmem).2
      have hall : ∀ other, (x, some other) ∈ task.children → other = fault :=
        fun other hother => (hsound.faults x other hother).2.unique hdangling
      rw [view_failChildren_of_mem hmem hall, Codebase.settled_of_dangling hdangling]
      rcases h.inside x hx with hview | ⟨hview, _⟩
      · rw [hview, Codebase.settled_of_dangling hdangling, View.fail_fail]
        exact .inl rfl
      · rw [hview]
        exact .inl rfl
    · -- a module that this task is not about
      have hnone : ∀ fault, (x, some fault) ∉ task.children := fun fault hmem => hstored ⟨fault, hmem⟩
      rw [view_failChildren_of_not_mem hnone]
      refine (h.inside x hx).imp id fun ⟨hview, hpending⟩ => ⟨hview, hpending.mono ?_ fun f hf => ⟨f, hf⟩⟩
      intro k other hunfinished habout
      refine ⟨other, ⟨hunfinished.known, hunfinished.waits.imp id fun hmem => ?_⟩, rfl, fun y f hy => ⟨f, hy⟩⟩
      rw [hqueue] at hmem
      refine (List.mem_cons.mp hmem).resolve_left fun heq => ?_
      cases heq
      have hsame := hunfinished.known
      rw [htask] at hsame
      cases hsame
      rcases habout with hown | hchild
      · exact hid hown.symm
      · exact hstored hchild

end Settles

end BlockingCalls.Session.Pool
