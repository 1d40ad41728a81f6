import BlockingCalls.Proofs.Session.Settles
import Mathlib.Data.List.Nodup

/-!
# Pools in order

The invariants that keep the tasks of a pool apart do not depend on the order of the queue. A task is identified by where it
reports to: the root by the caller, every other task by its parent and its place there. In an *orderly* pool the reports are
balanced, no two tasks have the same identity, each task that is about to start stands in its place among the children of
its parent, and no task is about to be resumed twice.

Every turn preserves order, whichever turn of the queue is taken.

## Results

* `Orderly.of_alike`                                                    — the order of the queue does not matter.
* `Orderly.finishTask`, `Orderly.suspend`, `Orderly.report`, `Orderly.resumeTask` — the effect of each kind of turn.
-/

namespace BlockingCalls.Session.Pool

open BlockingCalls.Session (Loaded)

/-- The task that a turn starts. -/
def startedTask? : Turn → Option ReportTo
  | .start _ reportTo => some reportTo
  | _ => none

/-- The task that resumes in a turn. -/
def resumedTask? : Turn → Option Nat
  | .resume task => some task
  | _ => none

/-- All tasks by where they report to: those that have waited for others, and those that are about to start. -/
def tasks (p : Pool) : List ReportTo :=
  p.suspended.map (·.reportTo) ++ p.queue.filterMap startedTask?

/-- The module stands in the given place among the children of a task. -/
def Seated (p : Pool) (y : ModuleId) (i place : Nat) : Prop :=
  ∃ task, p.suspended[i]? = some task ∧ (task.children[place]?).map (·.1) = some y

/-- The invariant of the tasks of a pool: balanced reports, distinct identities, places among children, and at most one
resumption of each task. -/
structure Orderly (p : Pool) : Prop where
  balanced : p.IsBalanced
  tasks : p.tasks.Nodup
  seated : ∀ y i place, .start y (some (i, place)) ∈ p.queue → p.Seated y i place
  resumes : (p.queue.filterMap resumedTask?).Nodup

-- ---------------------------------------------------------------------------
-- The order of the queue
-- ---------------------------------------------------------------------------

/-- The same up to the session and the order of the queue. -/
structure Alike (p p' : Pool) : Prop where
  suspended : p'.suspended = p.suspended
  queue : p'.queue.Perm p.queue
  result : p'.result = p.result

/-- The balance does not depend on the order of the queue, since it counts reports. -/
theorem Balanced.perm {queue queue' : List Turn} {slots : List Slot} {answered : Bool}
    (h : Balanced queue slots answered) (hperm : queue'.Perm queue) : Balanced queue' slots answered := by
  have hdue : (due queue' slots).Perm (due queue slots) := (hperm.map _).append_right _
  refine ⟨fun turn hturn => h.known turn (hperm.mem_iff.mp hturn), h.older, ?_, ?_⟩
  · intro i slot hslot
    rw [hdue.count_eq]
    exact h.missing i slot hslot
  · rw [hdue.count_eq]
    exact h.caller

theorem Alike.tasks {p p' : Pool} (h : Alike p p') : p'.tasks.Perm p.tasks := by
  unfold Pool.tasks
  rw [h.suspended]
  exact (h.queue.filterMap _).append_left _

/-- Order is invariant under permutations of the queue and under changes of the session. -/
theorem Orderly.of_alike {p p' : Pool} (h : p.Orderly) (halike : Alike p p') : p'.Orderly where
  balanced := by
    unfold IsBalanced slots
    rw [halike.suspended, halike.result]
    exact h.balanced.perm halike.queue
  tasks := halike.tasks.nodup_iff.mpr h.tasks
  seated y i place hstart := by
    unfold Seated
    rw [halike.suspended]
    exact h.seated y i place (halike.queue.mem_iff.mp hstart)
  resumes := (halike.queue.filterMap _).nodup_iff.mpr h.resumes

-- ---------------------------------------------------------------------------
-- Places among children
-- ---------------------------------------------------------------------------

/-- Places among children are kept when a task ends. -/
theorem Seated.finishTask {p : Pool} {y : ModuleId} {i place : Nat} (h : p.Seated y i place)
    (outcome : Except Fault (List Name)) (reportTo : ReportTo) : (p.finishTask outcome reportTo).Seated y i place := by
  obtain ⟨task, htask, hplace⟩ := h
  refine ⟨answered outcome reportTo i task, by rw [getElem?_suspended_finishTask, htask]; rfl, ?_⟩
  unfold answered
  split
  · split
    · rw [map_fst_children_setFault]
      exact hplace
    · exact hplace
  · exact hplace

/-- Places among children are kept when a report arrives. -/
theorem Seated.report {p : Pool} {y : ModuleId} {i place : Nat} (h : p.Seated y i place) (parent : Nat) :
    (p.report parent).Seated y i place := by
  obtain ⟨task, htask, hplace⟩ := h
  refine ⟨noted parent i task, by rw [getElem?_suspended_report, htask]; rfl, ?_⟩
  unfold noted
  split
  · exact hplace
  · exact hplace

-- ---------------------------------------------------------------------------
-- The tasks of a pool after a turn
-- ---------------------------------------------------------------------------

/-- A task that ends queues its report, if it reports to a task. -/
theorem queue_finishTask (p : Pool) (outcome : Except Fault (List Name)) (reportTo : ReportTo) :
    (p.finishTask outcome reportTo).queue = p.queue ++ reportTo.toList.map fun place => .childEnded place.1 := by
  cases reportTo with
  | none => exact (List.append_nil _).symm
  | some place => rfl

/-- A task that ends changes the identity of no task. -/
theorem map_reportTo_suspended_finishTask (p : Pool) (outcome : Except Fault (List Name)) (reportTo : ReportTo) :
    (p.finishTask outcome reportTo).suspended.map (·.reportTo) = p.suspended.map (·.reportTo) := by
  apply List.ext_getElem?
  intro i
  rw [List.getElem?_map, List.getElem?_map, getElem?_suspended_finishTask, Option.map_map]
  congr 1
  funext task
  show (answered outcome reportTo i task).reportTo = task.reportTo
  unfold answered
  split
  · split <;> rfl
  · rfl

/-- The turn in which a task resumes, if the next report is the last one that it waits for. -/
def resumption (p : Pool) (parent : Nat) : List Turn :=
  match p.suspended[parent]? with
  | none => []
  | some task => if task.missing = 1 then [.resume parent] else []

/-- A report that arrives queues a resumption, if it is the last one. -/
theorem queue_report (p : Pool) (parent : Nat) : (p.report parent).queue = p.queue ++ p.resumption parent := by
  unfold report resumption
  cases p.suspended[parent]? with
  | none => exact (List.append_nil _).symm
  | some task =>
    simp only
    split
    · rfl
    · exact (List.append_nil _).symm

/-- A resumption is queued only for a task that misses exactly one report. -/
theorem mem_resumption {p : Pool} {parent : Nat} {turn : Turn} (h : turn ∈ p.resumption parent) :
    turn = .resume parent ∧ ∃ task, p.suspended[parent]? = some task ∧ task.missing = 1 := by
  unfold resumption at h
  cases htask : p.suspended[parent]? with
  | none =>
    rw [htask] at h
    cases h
  | some task =>
    simp only [htask] at h
    split at h
    · rename_i hone
      exact ⟨List.mem_singleton.mp h, task, rfl, hone⟩
    · cases h

/-- A report that arrives changes the identity of no task. -/
theorem map_reportTo_suspended_report (p : Pool) (parent : Nat) :
    (p.report parent).suspended.map (·.reportTo) = p.suspended.map (·.reportTo) := by
  apply List.ext_getElem?
  intro i
  rw [List.getElem?_map, List.getElem?_map, getElem?_suspended_report, Option.map_map]
  congr 1
  funext task
  show (noted parent i task).reportTo = task.reportTo
  unfold noted
  split <;> rfl

/-- Reports start no task, and no task resumes with them. -/
theorem filterMap_reports {α : Type} (f : Turn → Option α) (hf : ∀ i, f (.childEnded i) = none) (reportTo : ReportTo) :
    (reportTo.toList.map fun place => Turn.childEnded place.1).filterMap f = [] := by
  cases reportTo with
  | none => rfl
  | some place => exact List.filterMap_cons_none (hf _)

/-- A task reports to one that there is. -/
theorem IsBalanced.lt_of_mem_tasks {p : Pool} (h : p.IsBalanced) {i place : Nat} (hmem : some (i, place) ∈ p.tasks) :
    i < p.suspended.length := by
  have hlength : p.slots.length = p.suspended.length := List.length_map _
  rcases List.mem_append.mp hmem with hmem | hmem
  · -- a task that has been suspended reports to an older one
    obtain ⟨k, hk⟩ := List.mem_iff_getElem?.mp hmem
    rw [List.getElem?_map] at hk
    obtain ⟨task, htask, hreport⟩ := Option.map_eq_some_iff.mp hk
    have hlt : k < p.suspended.length := (List.getElem?_eq_some_iff.mp htask).1
    have hslot : p.slots[k]? = some (slot task) := by rw [getElem?_slots, htask]; rfl
    have holder := h.older k (slot task) hslot i (by rw [slot, hreport]; rfl)
    omega
  · -- a task that is about to start is known
    obtain ⟨turn, hturn, hstarted⟩ := List.mem_filterMap.mp hmem
    cases turn with
    | start x reportTo =>
      cases hstarted
      have hknown : i < p.slots.length := h.known _ hturn i rfl
      omega
    | childEnded parent => cases hstarted
    | resume task => cases hstarted

/-- The tasks that a task starts are known by its number and their places. -/
theorem filterMap_startedTask?_suspend (n : Nat) (targets : List ModuleId) :
    (targets.zipIdx.map fun target => Turn.start target.1 (some (n, target.2))).filterMap startedTask? =
      (List.range targets.length).map fun place => some (n, place) := by
  have hsnd : targets.zipIdx.map (·.2) = List.range targets.length := by
    rw [List.zipIdx_map_snd, List.range_eq_range']
  rw [← hsnd, List.map_map, List.filterMap_map]
  exact congrFun List.filterMap_eq_map targets.zipIdx

-- ---------------------------------------------------------------------------
-- Turns
-- ---------------------------------------------------------------------------

namespace Orderly

variable {p : Pool} {turn : Turn} {rest : List Turn}

/-- A task that ends: one turn is removed, and a report is queued. -/
theorem finishTask (h : p.Orderly) (hqueue : p.queue = turn :: rest) (s : Session)
    (outcome : Except Fault (List Name)) {reportTo : ReportTo} (hdue : dueTo p.slots turn = reportTo.map (·.1)) :
    ({ p with queue := rest, session := s }.finishTask outcome reportTo).Orderly where
  balanced := by
    have hbalanced : Balanced (turn :: rest) p.slots p.result.isSome := hqueue ▸ h.balanced
    exact @isBalanced_finishTask { p with queue := rest, session := s } turn hbalanced outcome reportTo hdue
  tasks := by
    have htasks := h.tasks
    unfold Pool.tasks at htasks ⊢
    -- reports are no tasks, so that only the turn itself is gone
    rw [map_reportTo_suspended_finishTask, queue_finishTask, List.filterMap_append,
      filterMap_reports startedTask? fun _ => rfl, List.append_nil]
    rw [hqueue] at htasks
    exact htasks.sublist (((List.sublist_cons_self turn rest).filterMap startedTask?).append_left _)
  seated y i place hstart := by
    rcases mem_queue_finishTask.mp hstart with hstart | ⟨_, _, heq⟩
    · have hseated := h.seated y i place (hqueue ▸ List.mem_cons_of_mem _ hstart)
      exact @Seated.finishTask { p with queue := rest, session := s } y i place hseated outcome reportTo
    · cases heq
  resumes := by
    have hresumes := h.resumes
    rw [queue_finishTask, List.filterMap_append, filterMap_reports resumedTask? fun _ => rfl, List.append_nil]
    rw [hqueue] at hresumes
    exact hresumes.sublist ((List.sublist_cons_self turn rest).filterMap resumedTask?)

/-- A task that starts children: they are identified by its number, which is new. -/
theorem suspend {x : ModuleId} {reportTo : ReportTo} (h : p.Orderly) (hqueue : p.queue = .start x reportTo :: rest)
    (s : Session) (m : Loaded) {targets : List ModuleId} (hne : targets ≠ []) :
    ({ p with queue := rest, session := s }.suspend m reportTo targets).Orderly where
  balanced := by
    have hbalanced : Balanced (.start x reportTo :: rest) p.slots p.result.isSome := hqueue ▸ h.balanced
    exact @isBalanced_suspend { p with queue := rest, session := s } x reportTo hbalanced m targets hne
  tasks := by
    -- the task that waits has changed its place only, and its children are new
    have hperm : ({ p with queue := rest, session := s }.suspend m reportTo targets).tasks.Perm
        (p.tasks ++ (List.range targets.length).map fun place => some (p.suspended.length, place)) := by
      unfold Pool.tasks
      rw [hqueue]
      show (List.map Suspended.reportTo (p.suspended ++ [_]) ++ (rest ++ _).filterMap startedTask?).Perm _
      rw [List.map_append, List.filterMap_append, filterMap_startedTask?_suspend, ← List.append_assoc,
        List.append_assoc (p.suspended.map _)]
      exact .refl _
    refine hperm.nodup_iff.mpr (List.nodup_append.mpr ⟨h.tasks, ?_, ?_⟩)
    · refine List.Nodup.map ?_ List.nodup_range
      intro a b hab
      cases hab
      rfl
    · intro task htask other hother heq
      obtain ⟨place, _, rfl⟩ := List.mem_map.mp hother
      rw [heq] at htask
      exact Nat.lt_irrefl _ (h.balanced.lt_of_mem_tasks htask)
  seated y i place hstart := by
    rcases mem_queue_suspend.mp hstart with hstart | ⟨target, k, hk, heq⟩
    · obtain ⟨task, htask, hplace⟩ := h.seated y i place (hqueue ▸ List.mem_cons_of_mem _ hstart)
      have hkept : { p with queue := rest, session := s }.suspended[i]? = some task := htask
      exact ⟨task, getElem?_suspend_of_some hkept m reportTo targets, hplace⟩
    · cases heq
      obtain ⟨task, htask, _, _, hchildren, _⟩ :=
        getElem?_suspend_new { p with queue := rest, session := s } m reportTo targets
      refine ⟨task, htask, ?_⟩
      rw [hchildren, List.getElem?_map, hk]
      rfl
  resumes := by
    have hresumes := h.resumes
    rw [hqueue] at hresumes
    show ((rest ++ _).filterMap resumedTask?).Nodup
    rw [List.filterMap_append]
    have hnone : (targets.zipIdx.map fun target =>
        Turn.start target.1 (some (p.suspended.length, target.2))).filterMap resumedTask? = [] := by
      rw [List.filterMap_map]
      exact List.filterMap_eq_nil_iff.mpr fun _ _ => rfl
    rw [hnone, List.append_nil]
    exact hresumes

/-- A report that arrives: a task is resumed only when its last report is in, and hence not twice. -/
theorem report {parent : Nat} (h : p.Orderly) (hqueue : p.queue = .childEnded parent :: rest) :
    ({ p with queue := rest }.report parent).Orderly where
  balanced := by
    have hbalanced : Balanced (.childEnded parent :: rest) p.slots p.result.isSome := hqueue ▸ h.balanced
    exact @isBalanced_report { p with queue := rest } parent hbalanced
  tasks := by
    have hnone : (resumption { p with queue := rest } parent).filterMap startedTask? = [] := by
      refine List.filterMap_eq_nil_iff.mpr fun turn hturn => ?_
      rw [(mem_resumption hturn).1]
      rfl
    have htasks := h.tasks
    unfold Pool.tasks at htasks ⊢
    rw [map_reportTo_suspended_report, queue_report, List.filterMap_append, hnone, List.append_nil]
    rw [hqueue] at htasks
    exact htasks
  seated y i place hstart := by
    have hstart := (mem_queue_report hstart).resolve_right (by simp)
    have hseated := h.seated y i place (hqueue ▸ List.mem_cons_of_mem _ hstart)
    exact @Seated.report { p with queue := rest } y i place hseated parent
  resumes := by
    have hresumes := h.resumes
    rw [hqueue] at hresumes
    rw [queue_report, List.filterMap_append]
    refine List.nodup_append.mpr ⟨hresumes, ?_, ?_⟩
    · unfold resumption
      split
      · exact List.nodup_nil
      · split
        · exact List.nodup_singleton _
        · exact List.nodup_nil
    · -- a task that still waits for a report is not about to resume
      rintro i hi j hj rfl
      obtain ⟨turn, hturn, hresumed⟩ := List.mem_filterMap.mp hi
      obtain ⟨turn', hturn', hresumed'⟩ := List.mem_filterMap.mp hj
      obtain ⟨rfl, task, htask, hone⟩ := mem_resumption hturn'
      cases hresumed'
      cases turn with
      | start y reportTo => cases hresumed
      | childEnded other => cases hresumed
      | resume other =>
        cases hresumed
        obtain ⟨slot, hslot, hzero⟩ := h.balanced.known (.resume parent) (hqueue ▸ List.mem_cons_of_mem _ hturn)
        have htask : p.suspended[parent]? = some task := htask
        rw [getElem?_slots, htask] at hslot
        cases hslot
        have hmissing : task.missing = 0 := hzero
        omega

/-- A task that is resumed ends. -/
theorem resumeTask {i : Nat} (h : p.Orderly) (hqueue : p.queue = .resume i :: rest) :
    ({ p with queue := rest }.resumeTask i).Orderly := by
  obtain ⟨_, hslot, _⟩ := h.balanced.known (.resume i) (hqueue ▸ List.mem_cons_self)
  rw [getElem?_slots] at hslot
  obtain ⟨task, htask, _⟩ := Option.map_eq_some_iff.mp hslot
  have hdue : dueTo p.slots (.resume i) = task.reportTo.map (·.1) := by
    rw [dueTo, getElem?_slots, htask]
    rfl
  unfold Pool.resumeTask
  simp only [htask]
  exact h.finishTask hqueue _ _ hdue

end Orderly

end BlockingCalls.Session.Pool
