import BlockingCalls.Proofs.Extent
import BlockingCalls.Proofs.Session.Complete
import BlockingCalls.Proofs.Session.Settles

/-!
# Total correctness of a concurrent analysis

The invariant of a concurrent analysis has four parts. What was read and what is about to be started *covers* what spreads
from the root. Tasks are *wired* to their children. What was read is *settled* or pending. And the pool is *balanced*.
If no turn is left, nothing is about to be started and no task waits, so that what spreads from the root has been read,
and nothing is pending except a root that dangles (`Running.ended`).

Termination is by a measure. A turn takes more from the effort that is left than it adds, except that a module that is
taken up adds the tasks it starts; but each module is taken up once, so all that can be added is bounded by the imports of
the modules in the extent (`measure_turned`).

The initial session is arbitrary. If it is fresh and all imports of reachable modules can be resolved, the final session is
complete (`Ended.complete`).

## Results

* `running_turned`                      — a turn preserves the invariant.
* `measure_turned`                      — a turn decreases the measure.
* `analyzeModuleConcurrently_ended`     — the analysis terminates; its final session, and when its result is a fault.
* `analyzeModuleConcurrently_complete`  — if all imports can be resolved it returns and leaves the session complete.
-/

namespace BlockingCalls.Session.Pool

open BlockingCalls.Session (View Merged Loaded)

-- ---------------------------------------------------------------------------
-- The invariant of a run
-- ---------------------------------------------------------------------------

/-- The invariant of a concurrent analysis that started from the session `s₀` and has read the modules `ids` since. -/
structure Running (c : Codebase) (root : ModuleId) (s₀ : Session) (ids : List ModuleId) (p : Pool) : Prop where
  balanced : p.IsBalanced
  covers : Covers c root s₀ p.session ids p.Starting
  wired : Wired c root ids p
  settles : Settles c root s₀ ids p
  /-- The task that reports to the caller is the first of all. -/
  first : ∀ x, .start x none ∈ p.queue → p.queue = [.start root none] ∧ ids = []

/-- No turn queues a task that reports to the caller. -/
theorem start_caller_of_turned {c : Codebase} {p p' : Pool} {turn : Turn} (hturn : Turned c p turn p') {x : ModuleId}
    (h : .start x none ∈ p'.queue) : .start x none ∈ p.queue := by
  have hfinish : ∀ (s : Session) outcome reportTo,
      .start x none ∈ ({ p with session := s }.finishTask outcome reportTo).queue → .start x none ∈ p.queue :=
    fun _ _ _ hmem => (mem_queue_finishTask.mp hmem).resolve_right (by simp)
  cases hturn with
  | passedOver stop => exact hfinish p.session _ _ h
  | ended go taken view childless => exact hfinish _ _ _ h
  | unlinked go taken view parsed targets => exact hfinish _ _ _ h
  | waits go taken view parsed targets some_target => exact (mem_queue_suspend.mp h).resolve_right (by simp)
  | reported parent => exact (mem_queue_report h).resolve_right (by simp)
  | resumed task =>
    unfold resumeTask at h
    split at h
    · exact h
    · exact hfinish _ _ _ h

/-- A task that is about to start has a parent that waits for its report. -/
theorem missing_pos_of_start {p : Pool} (h : p.IsBalanced) {x : ModuleId} {i place : Nat} {rest : List Turn}
    (hqueue : p.queue = .start x (some (i, place)) :: rest) {task : Suspended} (htask : p.suspended[i]? = some task) :
    0 < task.missing := by
  have hslot : p.slots[i]? = some (slot task) := by
    rw [getElem?_slots, htask]
    rfl
  have hmissing : (due p.queue p.slots).count (some i) = task.missing := h.missing i (slot task) hslot
  rw [← hmissing, hqueue, due_cons]
  exact List.count_pos_iff.mpr List.mem_cons_self

namespace Running

variable {c : Codebase} {root : ModuleId} {s₀ : Session} {ids : List ModuleId} {p p' : Pool}

/-- A task that reports to the caller is that of the root, before anything was read. -/
theorem atRoot (h : Running c root s₀ ids p) {x : ModuleId} {rest : List Turn} (hqueue : p.queue = .start x none :: rest) :
    x = root ∧ ids = [] := by
  obtain ⟨hfirst, hids⟩ := h.first x (by rw [hqueue]; exact List.mem_cons_self)
  rw [hqueue] at hfirst
  cases hfirst
  exact ⟨rfl, hids⟩

/-- After a turn no queued task reports to the caller. -/
theorem no_start_caller (h : Running c root s₀ ids p) {turn : Turn} {rest : List Turn} (hqueue : p.queue = turn :: rest)
    (hturn : Turned c { p with queue := rest } turn p') (x : ModuleId) : .start x none ∉ p'.queue := by
  intro hmem
  have hrest : .start x none ∈ rest := start_caller_of_turned hturn hmem
  obtain ⟨hfirst, _⟩ := h.first x (by rw [hqueue]; exact List.mem_cons_of_mem _ hrest)
  rw [hqueue] at hfirst
  cases hfirst
  cases hrest

/-- What is known of a module that is taken up: it was not read before, and it is as it was at the beginning. -/
theorem view_of_go (h : Running c root s₀ ids p) {x : ModuleId} (hgo : ¬ Stops p.session x) :
    x ∉ ids ∧ p.session.view x = s₀.view x := by
  have hnew := h.covers.not_mem_of_go hgo
  exact ⟨hnew, h.covers.outside x hnew⟩

/-- A module that opens no other is taken up, and its task ends. -/
theorem covers_finishTask (h : Running c root s₀ ids p) {x : ModuleId} {reportTo : ReportTo} {rest : List Turn}
    (hqueue : p.queue = .start x reportTo :: rest) (hgo : ¬ Stops p.session x) {s : Session}
    (htaken : TakenUp c x p.session s) (hopens : ∀ ts, c.Opens x ts → ts = []) (outcome : Except Fault (List Name)) :
    Covers c root s₀ ({ p with queue := rest, session := s }.finishTask outcome reportTo).session (ids ++ [x])
      ({ p with queue := rest, session := s }.finishTask outcome reportTo).Starting := by
  obtain ⟨hstart, hback, hforth⟩ := starting_pop hqueue
  rw [session_finishTask]
  refine h.covers.takeUp hstart hgo htaken ?_ ?_ ?_
  · intro y hy
    have hrest := starting_finishTask.mp hy
    exact .inl (hback y hrest)
  · intro y hy
    exact (hforth y hy).imp id fun hrest => starting_finishTask.mpr hrest
  · intro ts hts y hy
    rw [hopens ts hts] at hy
    cases hy

/-- A module is taken up, and a task is started for each that it opens. -/
theorem covers_suspend (h : Running c root s₀ ids p) {x : ModuleId} {reportTo : ReportTo} {rest : List Turn}
    (hqueue : p.queue = .start x reportTo :: rest) (hgo : ¬ Stops p.session x) {s : Session}
    (htaken : TakenUp c x p.session s) {ts : List ModuleId} (hopens : c.Opens x ts) (m : Loaded) :
    Covers c root s₀ s (ids ++ [x]) ({ p with queue := rest, session := s }.suspend m reportTo ts).Starting := by
  obtain ⟨hstart, hback, hforth⟩ := starting_pop hqueue
  refine h.covers.takeUp hstart hgo htaken ?_ ?_ ?_
  · intro y hy
    rcases starting_suspend.mp hy with hrest | htarget
    · exact .inl (hback y hrest)
    · exact .inr ⟨ts, hopens, htarget⟩
  · intro y hy
    exact (hforth y hy).imp id fun hrest => starting_suspend.mpr (.inl hrest)
  · intro ts' hopens' y hy
    rw [hopens'.unique hopens] at hy
    exact starting_suspend.mpr (.inr hy)

/-- A task that is resumed records failures of its children, all of which were read, and ends. -/
theorem covers_resume (h : Running c root s₀ ids p) {i : Nat} {rest : List Turn} (hqueue : p.queue = .resume i :: rest)
    {task : Suspended} (htask : p.suspended[i]? = some task) :
    Covers c root s₀ ((failChildren p.session task.children).markDone task.moduleId) ids
      ({ p with
          queue := rest
          session := (failChildren p.session task.children).markDone task.moduleId }.finishTask
        (.ok task.directBlocking) task.reportTo).Starting := by
  have hsound := h.wired.tasks i task htask
  have hstarting : ∀ s : Session, ({ p with queue := rest, session := s }.finishTask (.ok task.directBlocking)
      task.reportTo).Starting = p.Starting :=
    fun s => funext fun y => propext (starting_finishTask.trans (starting_pop_iff hqueue (by simp)))
  rw [hstarting]
  refine h.covers.settle ((merged_failChildren _ _).trans (merged_markDone _ _)) (inFlight_failChildren _ _) ?_
  intro y hy
  have hown : y ≠ task.moduleId := fun heq => hy (heq ▸ hsound.read)
  rw [view_markDone, if_neg hown]
  exact view_failChildren_of_not_mem fun fault hmem => hy (hsound.faults y fault hmem).1

/-- A task that is about to start is a child of the one it reports to, which waits for its report. -/
theorem parent_of_start (h : Running c root s₀ ids p) {x : ModuleId} {i place : Nat} {rest : List Turn}
    (hqueue : p.queue = .start x (some (i, place)) :: rest) :
    ∃ task, p.suspended[i]? = some task ∧ (task.children[place]?).map (·.1) = some x ∧ 0 < task.missing := by
  obtain ⟨task, htask, hplace⟩ := h.wired.starts x i place (by rw [hqueue]; exact List.mem_cons_self)
  exact ⟨task, htask, hplace, missing_pos_of_start h.balanced hqueue htask⟩

/-- A task whose turn is in the queue is known. -/
theorem exists_suspended (h : Running c root s₀ ids p) {i : Nat} {rest : List Turn} (hqueue : p.queue = .resume i :: rest) :
    ∃ task, p.suspended[i]? = some task := by
  have hknown : Known p.slots (.resume i) := h.balanced.known _ (by rw [hqueue]; exact List.mem_cons_self)
  obtain ⟨_, hslot, _⟩ := hknown
  rw [getElem?_slots] at hslot
  obtain ⟨task, htask, _⟩ := Option.map_eq_some_iff.mp hslot
  exact ⟨task, htask⟩

end Running

/-- Resuming a task that there is. -/
theorem resumeTask_eq {p : Pool} {i : Nat} {task : Suspended} (htask : p.suspended[i]? = some task) :
    p.resumeTask i =
      { p with session := (failChildren p.session task.children).markDone task.moduleId }.finishTask
        (.ok task.directBlocking) task.reportTo := by
  unfold resumeTask
  simp only [htask]

/-- A turn preserves the invariant. By cases on the effect of the turn. -/
theorem running_turned {c : Codebase} {root : ModuleId} {s₀ : Session} {ids : List ModuleId} {p p' : Pool} {turn : Turn}
    {rest : List Turn} (h : Running c root s₀ ids p) (hqueue : p.queue = turn :: rest)
    (hturn : Turned c { p with queue := rest } turn p') : ∃ ids', Running c root s₀ ids' p' := by
  have hbalanced := isBalanced_turned h.balanced hqueue hturn
  have hfirst : ∀ x (ids' : List ModuleId), .start x none ∈ p'.queue → p'.queue = [.start root none] ∧ ids' = [] :=
    fun x _ hmem => absurd hmem (h.no_start_caller hqueue hturn x)
  cases hturn with
  | passedOver stop =>
    -- the session is unchanged; the module is stopped at, so that it is covered without its task
    obtain ⟨_, hback, hforth⟩ := starting_pop hqueue
    refine ⟨ids, hbalanced, ?_, (h.wired.pop hqueue _).finishTask (by simp), ?_, fun x => hfirst x ids⟩
    · rw [session_finishTask]
      exact h.covers.passOver stop (fun y hy => hback y (starting_finishTask.mp hy))
        fun y hy => (hforth y hy).imp id starting_finishTask.mpr
    · refine (h.settles.pop hqueue (by simp)).finishTask_ok _ fun hnone => .inl ?_
      -- at the beginning nothing was read yet
      obtain ⟨rfl, rfl⟩ := h.atRoot (hnone ▸ hqueue)
      exact (h.covers.stops_iff.mp stop).resolve_right (by simp)
  | @ended x reportTo s names go taken view childless =>
    -- the module is new; it opens nothing, and is settled in this turn
    obtain ⟨hnew, hbefore⟩ := h.view_of_go go
    refine ⟨ids ++ [x], hbalanced, h.covers_finishTask hqueue go taken ?_ _,
      ((h.wired.pop hqueue s).concat x).finishTask (by simp), ?_, fun y => hfirst y _⟩
    · rintro ts ⟨q, hq, hts⟩
      rw [childless q hq] at hts
      cases hts
      rfl
    · refine ((h.settles.pop hqueue (by simp)).takeUp taken hnew ?_).finishTask_ok _ fun hnone => .inr ?_
      · exact view.trans (congrArg _ hbefore)
      · obtain ⟨rfl, _⟩ := h.atRoot (hnone ▸ hqueue)
        rintro fault ⟨q, hq, hfault⟩
        rw [childless q hq] at hfault
        cases hfault
  | @unlinked x reportTo s q fault go taken view parsed targets =>
    obtain ⟨hnew, hbefore⟩ := h.view_of_go go
    -- the module dangles: its fault is stored in its parent, or is the result
    have hdangling : c.Dangling x fault := ⟨q, parsed, targets⟩
    have hparent : ∀ i place, reportTo = some (i, place) →
        ∃ task, p.suspended[i]? = some task ∧ (task.children[place]?).map (·.1) = some x ∧ 0 < task.missing := by
      rintro i place rfl
      exact h.parent_of_start hqueue
    refine ⟨ids ++ [x], hbalanced, h.covers_finishTask hqueue go taken ?_ _,
      ((h.wired.pop hqueue s).concat x).finishTask ?_, ?_, fun y => hfirst y _⟩
    · exact fun ts hopens => absurd hdangling (hopens.not_dangling fault)
    · rintro other i place heq hreport
      cases heq
      obtain ⟨task, htask, hplace, _⟩ := hparent i place hreport
      exact ⟨x, by simp, hdangling, task, htask, hplace⟩
    · refine (h.settles.pop hqueue (by simp)).unlinked taken hnew (view.trans (congrArg _ hbefore)) hdangling ?_ hparent
      intro hnone
      obtain ⟨rfl, _⟩ := h.atRoot (hnone ▸ hqueue)
      exact ⟨rfl, fun hstop => go (h.covers.stops_iff.mpr (.inl hstop))⟩
  | @waits x reportTo s q ts go taken view parsed targets some_target =>
    obtain ⟨hnew, hbefore⟩ := h.view_of_go go
    -- the module is linked, and its targets are about to be started
    refine ⟨ids ++ [x], hbalanced, h.covers_suspend hqueue go taken ⟨q, parsed, targets⟩ _,
      ((h.wired.pop hqueue s).concat x).suspend (by simp) parsed targets ?_, ?_, fun y => hfirst y _⟩
    · exact fun hnone => (h.atRoot (hnone ▸ hqueue)).1
    · exact (h.settles.pop hqueue (by simp)).suspend taken hnew (view.trans (congrArg _ hbefore)) parsed some_target _
  | reported parent =>
    -- the session is unchanged
    refine ⟨ids, hbalanced, ?_, (h.wired.pop hqueue _).report parent, (h.settles.pop hqueue (by simp)).report parent,
      fun x => hfirst x ids⟩
    have hstarting : ({ p with queue := rest }.report parent).Starting = p.Starting :=
      funext fun y => propext (starting_report.trans (starting_pop_iff hqueue (by simp)))
    rw [session_report, hstarting]
    exact h.covers
  | resumed i =>
    -- the task settles its own module, which opens others, and the children with a fault in store
    obtain ⟨task, htask⟩ := h.exists_suspended hqueue
    have hsound := h.wired.tasks i task htask
    obtain ⟨ts, hopens⟩ := hsound.opens
    have heq := resumeTask_eq (p := { p with queue := rest }) htask
    rw [heq] at hbalanced hfirst ⊢
    refine ⟨ids, hbalanced, ?_, (h.wired.pop hqueue _).finishTask (by simp),
      (h.settles.resume h.wired hqueue htask).finishTask_ok _ fun hnone => .inr ?_, fun x => hfirst x ids⟩
    · rw [session_finishTask]
      exact h.covers_resume hqueue htask
    · rw [← hsound.caller hnone]
      exact hopens.not_dangling

-- ---------------------------------------------------------------------------
-- The end of a run
-- ---------------------------------------------------------------------------

/-- The modules that were read between two moments. -/
def newReads (s₀ s : Session) : List ModuleId :=
  s.reads.drop s₀.reads.length

theorem newReads_of_merged {c : Codebase} {mode : Mode} {s₀ s : Session} {ids : List ModuleId}
    (h : Merged c mode s₀ s ids) : newReads s₀ s = ids := by
  rw [newReads, h.reads, List.drop_left]

/-- The effort that is left, with that of all tasks that modules not read yet can start. -/
def measure (c : Codebase) (root : ModuleId) (s₀ : Session) (p : Pool) : Nat :=
  p.effort + 3 * c.fanOutBeside (c.extent root) (newReads s₀ p.session)

/-- The effort of a queue is that of its first turn and that of the rest. -/
theorem effort_pop {p : Pool} {turn : Turn} {rest : List Turn} (hqueue : p.queue = turn :: rest) :
    p.effort = Turn.effort turn + { p with queue := rest }.effort := by
  unfold effort
  rw [hqueue, List.map_cons, List.sum_cons, Nat.add_assoc]
  rfl

/-- A task that ends takes more from the effort than its report adds. -/
theorem measure_finishTask_lt {c : Codebase} {root : ModuleId} {s₀ : Session} {ids more : List ModuleId} {p : Pool}
    {turn : Turn} {rest : List Turn} (h : Running c root s₀ ids p) (hqueue : p.queue = turn :: rest)
    (hturn : 2 ≤ Turn.effort turn) {s : Session} (hmerged : Merged c .concurrent p.session s more)
    (hmore : more = [] ∨ ∃ x, more = [x]) (outcome : Except Fault (List Name)) (reportTo : ReportTo) :
    measure c root s₀ ({ p with queue := rest, session := s }.finishTask outcome reportTo) < measure c root s₀ p := by
  have hpop := effort_pop hqueue
  have heffort := effort_finishTask_le { p with queue := rest, session := s } outcome reportTo
  have hsession : { p with queue := rest, session := s }.effort = { p with queue := rest }.effort := rfl
  -- what can be added by other modules does not grow when one more is read
  have hseen : c.fanOutBeside (c.extent root) (ids ++ more) ≤ c.fanOutBeside (c.extent root) ids := by
    rcases hmore with rfl | ⟨x, rfl⟩
    · rw [List.append_nil]
    · exact c.fanOutBeside_concat_le _ _ x
  unfold measure
  rw [session_finishTask, newReads_of_merged h.covers.merged]
  show _ + 3 * c.fanOutBeside _ (newReads s₀ s) < _
  rw [newReads_of_merged (h.covers.merged.trans hmerged)]
  omega

/-- A turn decreases the measure: what a module that is taken up adds was counted already. -/
theorem measure_turned {c : Codebase} (hc : c.reader.remoteSchemes = c.resolver.config.remoteSchemes)
    {root : ModuleId} {s₀ : Session} {ids : List ModuleId} {p p' : Pool} {turn : Turn} {rest : List Turn}
    (h : Running c root s₀ ids p) (hqueue : p.queue = turn :: rest)
    (hturn : Turned c { p with queue := rest } turn p') : measure c root s₀ p' < measure c root s₀ p := by
  have hpop := effort_pop hqueue
  cases hturn with
  | passedOver stop => exact measure_finishTask_lt h hqueue (Nat.le_succ 2) (.refl _) (.inl rfl) _ _
  | ended go taken view childless =>
    exact measure_finishTask_lt h hqueue (Nat.le_succ 2) taken.merged (.inr ⟨_, rfl⟩) _ _
  | unlinked go taken view parsed targets =>
    exact measure_finishTask_lt h hqueue (Nat.le_succ 2) taken.merged (.inr ⟨_, rfl⟩) _ _
  | @waits x reportTo s q ts go taken view parsed targets some_target =>
    -- the module is new in the extent, and its targets are part of what can still be added
    have hstart : p.Starting x := ⟨reportTo, by simp [hqueue]⟩
    have hnew : x ∉ ids := h.covers.not_mem_of_go go
    have hreach : c.Reachable root x := (h.covers.spreads_of_starting hstart go).reach.anti fun _ => False.elim
    have hextent : x ∈ c.extent root := Codebase.mem_extent hc hreach parsed
    have hseen := c.fanOutBeside_concat_add_le hextent hnew
    rw [Codebase.fanOut_eq parsed targets] at hseen
    have heffort := effort_suspend { p with queue := rest, session := s } ⟨q.location, c.summary q⟩ reportTo some_target
    have hsession : { p with queue := rest, session := s }.effort = { p with queue := rest }.effort := rfl
    have hturn : Turn.effort (.start x reportTo) = 3 := rfl
    unfold measure
    show ({ p with queue := rest, session := s }.suspend _ reportTo ts).effort +
      3 * c.fanOutBeside _ (newReads s₀ s) < _
    rw [newReads_of_merged h.covers.merged, newReads_of_merged (h.covers.merged.trans taken.merged)]
    omega
  | reported parent =>
    have heffort := effort_report_le { p with queue := rest } parent
    have hturn : Turn.effort (.childEnded parent) = 1 := rfl
    unfold measure
    rw [session_report]
    show _ + 3 * c.fanOutBeside _ (newReads s₀ p.session) < _
    omega
  | resumed i =>
    unfold resumeTask
    split
    · have hturn : Turn.effort (.resume i) = 2 := rfl
      unfold measure
      show _ + 3 * c.fanOutBeside _ (newReads s₀ p.session) < _
      omega
    · rename_i task _
      have hmerged : Merged c .concurrent p.session ((failChildren p.session task.children).markDone task.moduleId) [] :=
        (merged_failChildren _ _).trans (merged_markDone _ _)
      exact measure_finishTask_lt h hqueue (Nat.le_refl 2) hmerged (.inl rfl) _ _

/-- An analysis begins with a single task for the root. -/
theorem running_initial (c : Codebase) (s : Session) (root : ModuleId) :
    Running c root s [] { session := s, queue := [.start root none] } where
  balanced := ⟨by simp [Known], by simp [slots], by simp [slots], rfl⟩
  covers :=
    { merged := .refl s
      nodup := List.nodup_nil
      inFlight := by simp
      reached := by simp
      due := by
        rintro x ⟨r, hr⟩
        rw [List.mem_singleton] at hr
        cases hr
        exact .inl rfl
      root := .inr ⟨none, List.mem_singleton.mpr rfl⟩
      closed := by simp
      outside := fun _ _ => rfl }
  wired := ⟨by simp, by simp⟩
  settles := ⟨by simp, by simp, by simp⟩
  first := by simp

end BlockingCalls.Session.Pool

namespace BlockingCalls.Session

open Pool (Running Stops)

/-- The final state of a concurrent analysis with the initial session `s₀`. -/
structure Ended (c : Codebase) (root : ModuleId) (s₀ s : Session) (result : Except Fault (List Name))
    (ids : List ModuleId) : Prop where
  merged : Merged c .concurrent s₀ s ids
  nodup : ids.Nodup
  inFlight : ∀ x, x ∈ s.inFlight ↔ x ∈ s₀.inFlight ∨ x ∈ ids
  mem_iff : ∀ x, x ∈ ids ↔ c.Spreads (Stops s₀) root x
  inside : ∀ x ∈ ids, s.view x = c.settled .concurrent x (s₀.view x) ∨
    s.view x = c.linked .concurrent x (s₀.view x) ∧ ∃ fault, result = .error fault
  outside : ∀ x, x ∉ ids → s.view x = s₀.view x
  error_iff : ∀ fault, result = .error fault ↔ ¬ Stops s₀ root ∧ c.Dangling root fault

/-- The invariant of a pool without turns implies that the analysis has ended. -/
theorem Pool.Running.ended {c : Codebase} {root : ModuleId} {s₀ : Session} {ids : List ModuleId} {p : Pool}
    (h : Running c root s₀ ids p) (hqueue : p.queue = []) :
    ∃ result, p.result = some result ∧ Ended c root s₀ p.session result ids := by
  have hbalanced : Pool.Balanced [] p.slots p.result.isSome := hqueue ▸ h.balanced
  obtain ⟨hmissing, hresult⟩ := hbalanced.done
  obtain ⟨result, hsome⟩ := Option.isSome_iff_exists.mp hresult
  have hnone : ∀ y, ¬ p.Starting y := by
    rintro y ⟨r, hr⟩
    rw [hqueue] at hr
    cases hr
  -- no task waits any more, and none is about to resume
  have hfinished : ∀ i task, ¬ p.Unfinished i task := by
    intro i task hunfinished
    have hmem : Pool.slot task ∈ p.slots := List.mem_map.mpr ⟨task, List.mem_of_getElem? hunfinished.known, rfl⟩
    have hzero : task.missing = 0 := hmissing (Pool.slot task) hmem
    rcases hunfinished.waits with hopen | hresume
    · omega
    · rw [hqueue] at hresume
      cases hresume
  refine ⟨result, hsome, h.covers.merged, h.covers.nodup, h.covers.inFlight, fun x => h.covers.mem_iff hnone, ?_,
    h.covers.outside, ?_⟩
  · -- what is not settled is pending, and nothing is pending but the root
    intro x hx
    refine (h.settles.inside x hx).imp id fun ⟨hview, hpending⟩ => ⟨hview, ?_⟩
    cases hpending with
    | own unfinished owner => exact absurd unfinished (hfinished _ _)
    | child unfinished stored => exact absurd unfinished (hfinished _ _)
    | escaped hescaped atRoot =>
      rw [hsome] at hescaped
      exact ⟨_, Option.some.inj hescaped⟩
  · -- the result is a fault iff the root dangles and was entered
    intro fault
    constructor
    · rintro rfl
      exact h.settles.escaped fault hsome
    · rintro ⟨hgo, hdangling⟩
      cases result with
      | error other => rw [hdangling.unique (h.settles.escaped other hsome).2]
      | ok names =>
        rcases h.settles.returned names hsome with hstop | hopen
        · exact absurd hstop hgo
        · exact absurd hdangling (hopen fault)

/-- A concurrent analysis terminates, whatever its initial session is. -/
theorem analyzeModuleConcurrently_ended (s : Session) (w : World) (root : ModuleId)
    (hschemes : s.reader.remoteSchemes = s.resolver.config.remoteSchemes)
    (hcapacity : 0 ≤ s.resolver.config.maxConcurrency) :
    ∃ ids, Ended (s.codebase w) root s (s.analyzeModuleConcurrently w root).1
      (s.analyzeModuleConcurrently w root).2 ids := by
  -- the bound on turns is at least the measure of the first pool
  have hbound : Pool.measure (s.codebase w) root s { session := s, queue := [.start root none] } ≤ turnBound w := by
    have hfan := (s.codebase w).fanOutBeside_le ((s.codebase w).extent root) (Pool.newReads s s)
    have hextent := (s.codebase w).length_extent_le root
    have hproduct := Nat.mul_le_mul_right w.nodeCount hextent
    unfold Pool.measure turnBound
    show 3 + 3 * (s.codebase w).fanOutBeside _ (Pool.newReads s s) ≤ _
    have hworld : (s.codebase w).world = w := rfl
    rw [hworld] at hfan hproduct
    omega
  -- a turn preserves the invariant and decreases the measure
  have hstep : ∀ p turn rest, (∃ ids, Running (s.codebase w) root s ids p) → p.queue = turn :: rest →
      (∃ ids, Running (s.codebase w) root s ids ({ p with queue := rest }.take w turn)) ∧
        Pool.measure (s.codebase w) root s ({ p with queue := rest }.take w turn) <
          Pool.measure (s.codebase w) root s p := by
    rintro p turn rest ⟨ids, hp⟩ hqueue
    have hcodebase : { p with queue := rest }.session.codebase w = s.codebase w := hp.covers.merged.codebase w
    have hturn := Pool.take_turned hcodebase hcapacity turn
    exact ⟨Pool.running_turned hp hqueue hturn, Pool.measure_turned hschemes hp hqueue hturn⟩
  obtain ⟨⟨ids, hrunning⟩, hqueue⟩ :=
    Pool.run_induction hstep (turnBound w) _ ⟨[], Pool.running_initial (s.codebase w) s root⟩ hbound
  obtain ⟨result, hresult, hended⟩ := hrunning.ended hqueue
  refine ⟨ids, ?_⟩
  have heq : (s.analyzeModuleConcurrently w root).2 = result := by
    unfold analyzeModuleConcurrently
    simp only
    rw [hresult]
    rfl
  rw [heq]
  exact hended

-- ---------------------------------------------------------------------------
-- Analyses of a root file
-- ---------------------------------------------------------------------------

/-- A concurrent analysis that returns has analysed its root and computed the blocking names. -/
theorem analyzeConcurrently_ok {s s' : Session} {w : World} {path : String} {snap : Snapshot}
    (h : s.analyzeConcurrently w path = (s', .ok snap)) :
    ∃ entry t names,
      ({ s with root := some (s.resolver.rootModule w.current path) }.note entry).analyzeModuleConcurrently w
        (s.resolver.rootModule w.current path) = (t, .ok names) ∧
      s' = { t with inFlight := [] }.finish := by
  unfold analyzeConcurrently at h
  simp only at h
  split at h
  · cases h
  · split at h
    · cases h
    · rename_i names heq
      cases h
      exact ⟨_, _, names, Prod.ext rfl heq, rfl⟩

/-- A concurrent analysis that does not return has not begun, or has the result of the analysis of its root. -/
theorem analyzeConcurrently_error {s s' : Session} {w : World} {path : String} {fault : Fault}
    (h : s.analyzeConcurrently w path = (s', .error fault)) :
    ∃ entry, s' = { s with root := some (s.resolver.rootModule w.current path) }.note entry ∨
      ∃ t, ({ s with root := some (s.resolver.rootModule w.current path) }.note entry).analyzeModuleConcurrently w
        (s.resolver.rootModule w.current path) = (t, .error fault) ∧ s' = { t with inFlight := [] } := by
  unfold analyzeConcurrently at h
  simp only at h
  split at h
  · cases h
    exact ⟨_, .inl rfl⟩
  · split at h
    · rename_i cause heq
      cases h
      exact ⟨_, .inr ⟨_, Prod.ext rfl heq, rfl⟩⟩
    · cases h

/-- A concurrent analysis of a root file, if there is a capacity for tasks: its result is that of the analysis of the
root, and nothing is in flight afterwards. -/
theorem analyzeConcurrently_ended (s : Session) (w : World) (path : String)
    (hschemes : s.reader.remoteSchemes = s.resolver.config.remoteSchemes)
    (hcapacity : 0 ≤ s.resolver.config.maxConcurrency) :
    ∃ entry t result ids,
      Ended (s.codebase w) (s.resolver.rootModule w.current path)
        ({ s with root := some (s.resolver.rootModule w.current path) }.note entry) t result ids ∧
      s.analyzeConcurrently w path =
        match result with
        | .error fault => ({ t with inFlight := [] }, .error fault)
        | .ok _ => ({ t with inFlight := [] }.finish, .ok { t with inFlight := [] }.finish.snapshot) := by
  have hnot : ¬ s.resolver.config.maxConcurrency < 0 := by omega
  let entry : LogEntry := .info ("[Session] Analyzing " ++ s.resolver.rootModule w.current path ++ " (async)")
  let s₀ := { s with root := some (s.resolver.rootModule w.current path) }.note entry
  obtain ⟨ids, hended⟩ := analyzeModuleConcurrently_ended s₀ w (s.resolver.rootModule w.current path) hschemes hcapacity
  refine ⟨entry, _, _, ids, hended, ?_⟩
  unfold analyzeConcurrently
  simp only
  split
  · rename_i hnegative
    exact absurd hnegative hnot
  · rfl

-- ---------------------------------------------------------------------------
-- Where all imports can be resolved
-- ---------------------------------------------------------------------------

/-- Every import of a reachable module can be resolved. -/
def Pool.AllResolved (c : Codebase) (root : ModuleId) : Prop :=
  ∀ x, c.Reachable root x → ∀ q, c.find? x = some q → ∃ ts, c.targetsOf q = .ok ts

/-- If all imports can be resolved no reachable module dangles. -/
theorem Pool.AllResolved.not_dangling {c : Codebase} {root : ModuleId} (h : Pool.AllResolved c root) {x : ModuleId}
    (hx : c.Reachable root x) (fault : Fault) : ¬ c.Dangling x fault := by
  rintro ⟨q, hq, hfault⟩
  obtain ⟨ts, hts⟩ := h x hx q hq
  rw [hts] at hfault
  cases hfault

/-- A concurrent analysis of a fresh session stops nowhere. -/
theorem Fresh.stops_iff {s : Session} (h : s.Fresh) : Stops s = fun _ => False := by
  funext x
  simp [Stops, isFinished_eq, h.views, h.inFlight, View.empty, View.isFinished]

/-- A concurrent analysis of a fresh session that has ended has returned and left the session complete, if all
imports of reachable modules can be resolved. -/
theorem Ended.complete {c : Codebase} {root : ModuleId} {s s' : Session} {result : Except Fault (List Name)}
    {ids : List ModuleId} (h : Ended c root s s' result ids) (hs : s.Fresh) (hresolved : Pool.AllResolved c root) :
    ∃ names, result = .ok names ∧ Complete c .concurrent root s' := by
  have hmem : ∀ x, x ∈ ids ↔ c.Reachable root x := by
    intro x
    rw [h.mem_iff, hs.stops_iff, Codebase.spreads_iff_reach fun y hy => hresolved.not_dangling hy]
    rfl
  cases result with
  | error fault => exact absurd ((h.error_iff fault).mp rfl).2 (hresolved.not_dangling (.root id) fault)
  | ok names =>
    have hreads : s'.reads = ids := by rw [h.merged.reads, hs.reads, List.nil_append]
    rw [← hreads] at h hmem
    refine ⟨names, rfl, .of_merged hs h.merged h.nodup hmem hresolved ?_ ?_⟩
    · intro x hx
      rcases h.inside x ((hmem x).mpr hx) with hview | ⟨_, fault, hfault⟩
      · rw [hview, hs.views]
      · cases hfault
    · intro x hx
      rw [h.outside x fun hin => hx ((hmem x).mp hin), hs.views]

/-- A concurrent analysis of a fresh session ends, returns, and leaves the session complete, if all imports of
reachable modules can be resolved. -/
theorem analyzeModuleConcurrently_complete {s : Session} (hs : s.Fresh) (w : World) (root : ModuleId)
    (hschemes : s.reader.remoteSchemes = s.resolver.config.remoteSchemes)
    (hcapacity : 0 ≤ s.resolver.config.maxConcurrency) (hresolved : Pool.AllResolved (s.codebase w) root) :
    ∃ s' names, s.analyzeModuleConcurrently w root = (s', .ok names) ∧
      Complete (s.codebase w) .concurrent root s' ∧ s'.root = s.root := by
  obtain ⟨ids, hended⟩ := analyzeModuleConcurrently_ended s w root hschemes hcapacity
  obtain ⟨names, hresult, hcomplete⟩ := hended.complete hs hresolved
  exact ⟨_, names, Prod.ext rfl hresult, hcomplete, hended.merged.root⟩

end BlockingCalls.Session
