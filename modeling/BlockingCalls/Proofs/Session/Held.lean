import BlockingCalls.Proofs.Session.Concurrent
import BlockingCalls.Proofs.Session.Waiting

/-!
# Who will finish a module

A module that was taken up is finished later, and by one task: by its own task, which reads it, waits for the modules that
it leads to and marks it as done; or, if its imports could not be resolved, by the task of its parent, which has the fault
in store and records it when it is resumed. Until then the module is *held* in one place, and it is not finished. The
invariant is mutual exclusion: no module is held in two places, so no task finishes a module that another one has finished,
in whatever order they take their steps.

Hence every step of a concurrent analysis advances the session: it leaves finished modules alone and reads nothing twice.

## Results

* `Held.replace`, `Held.mono`    — the invariant when one module changes hands, or when some are released.
* `held_step`                    — a step preserves the invariant.
* `advances_of_reaches`          — every interleaving advances the session.
-/

namespace BlockingCalls.Session

namespace Pool

-- ---------------------------------------------------------------------------
-- Tasks that have not finished
-- ---------------------------------------------------------------------------

/-- Tasks that have not finished then had not finished before, and had the same in store. -/
def KeepsTasks (p p' : Pool) : Prop :=
  ∀ i task', p'.Unfinished i task' →
    ∃ task, p.Unfinished i task ∧ task'.moduleId = task.moduleId ∧ task'.children = task.children

/-- Tasks are kept by two changes one after the other. -/
theorem KeepsTasks.trans {p p' p'' : Pool} (h : KeepsTasks p p') (h' : KeepsTasks p' p'') : KeepsTasks p p'' := by
  intro i task'' hunfinished
  obtain ⟨task', hunfinished', hid', hchildren'⟩ := h' i task'' hunfinished
  obtain ⟨task, hunfinished'', hid, hchildren⟩ := h i task' hunfinished'
  exact ⟨task, hunfinished'', hid'.trans hid, hchildren'.trans hchildren⟩

theorem mem_of_mem_removed {before after : List Turn} {turn other : Turn} (h : other ∈ before ++ after) :
    other ∈ before ++ turn :: after :=
  List.mem_append.mpr ((List.mem_append.mp h).imp id (List.mem_cons_of_mem _))

/-- Taking a turn from the queue finishes no task but that of the turn. -/
theorem keepsTasks_pop {p : Pool} {before after : List Turn} {turn : Turn} (hqueue : p.queue = before ++ turn :: after)
    (s : Session) : KeepsTasks p { p with queue := before ++ after, session := s } := by
  intro i task hunfinished
  refine ⟨task, ⟨hunfinished.known, hunfinished.waits.imp id fun hmem => ?_⟩, rfl, rfl⟩
  rw [hqueue]
  exact mem_of_mem_removed hmem

/-- A task that ends without a fault keeps all others, and what they have in store. -/
theorem keepsTasks_finishTask_ok (p : Pool) (s : Session) (names : List Name) (reportTo : ReportTo) :
    KeepsTasks p ({ p with session := s }.finishTask (.ok names) reportTo) := by
  intro i task hunfinished
  refine ⟨task, ⟨?_, hunfinished.waits.imp id fun hmem => ?_⟩, rfl, rfl⟩
  · have hknown := hunfinished.known
    cases reportTo <;> exact hknown
  · exact (mem_queue_finishTask.mp hmem).resolve_right (by rintro ⟨_, _, heq⟩; cases heq)

/-- A report that arrives keeps all tasks: one that is about to be resumed then has waited before. -/
theorem keepsTasks_report (p : Pool) (parent : Nat) : KeepsTasks p (p.report parent) := by
  intro i task' hunfinished
  have hknown := hunfinished.known
  rw [getElem?_suspended_report] at hknown
  obtain ⟨task, htask, rfl⟩ := Option.map_eq_some_iff.mp hknown
  refine ⟨task, ⟨htask, ?_⟩, ?_, ?_⟩
  · rcases hunfinished.waits with hopen | hmem
    · -- the task waits: it has waited for at least as many reports before
      refine .inl (Nat.lt_of_lt_of_le hopen ?_)
      unfold noted
      split
      · exact Nat.sub_le _ _
      · exact Nat.le_refl _
    · -- with its last report the task is about to resume
      rw [queue_report] at hmem
      rcases List.mem_append.mp hmem with hmem | hmem
      · exact .inr hmem
      · obtain ⟨heq, other, hother, hone⟩ := mem_resumption hmem
        cases heq
        rw [htask] at hother
        cases hother
        exact .inl (by omega)
  · unfold noted
    split <;> rfl
  · unfold noted
    split <;> rfl

/-- A task that has not finished after another one was suspended is that one, or had not finished before. -/
theorem Unfinished.of_suspend {p : Pool} {m : Loaded} {reportTo : ReportTo} {targets : List ModuleId} {i : Nat}
    {task : Suspended} (h : (p.suspend m reportTo targets).Unfinished i task) :
    p.Unfinished i task ∨
      i = p.suspended.length ∧ task.moduleId = m.summary.moduleId ∧ task.children = targets.map (·, none) := by
  have hknown : (p.suspended ++ [_])[i]? = some task := h.known
  rcases Nat.lt_or_ge i p.suspended.length with hi | hi
  · -- one of the tasks that there were before
    rw [List.getElem?_append_left hi] at hknown
    refine .inl ⟨hknown, h.waits.imp id fun hmem => ?_⟩
    exact (mem_queue_suspend.mp hmem).resolve_right (by rintro ⟨_, _, _, heq⟩; cases heq)
  · -- the task that was suspended
    rw [List.getElem?_append_right hi] at hknown
    obtain ⟨hlt, rfl⟩ := List.getElem?_eq_some_iff.mp hknown
    have hlast : i - p.suspended.length < 1 := hlt
    have hzero : i - p.suspended.length = 0 := by omega
    refine .inr ⟨by omega, ?_⟩
    simp [hzero]

/-- A task that has not finished after another one has ended with a fault had not finished before. It has in store what it
had, and if it is the parent of that task, the fault. -/
theorem Unfinished.of_finishTask_error {p : Pool} {fault : Fault} {parent place i : Nat} {task' : Suspended}
    (h : (p.finishTask (.error fault) (some (parent, place))).Unfinished i task') :
    ∃ task, p.Unfinished i task ∧ task'.moduleId = task.moduleId ∧
      ∀ (k : Nat) (x : ModuleId) (f : Fault), task'.children[k]? = some (x, some f) →
        task.children[k]? = some (x, some f) ∨ i = parent ∧ k = place ∧ (task.children[k]?).map (·.1) = some x := by
  have hknown := h.known
  rw [getElem?_suspended_finishTask] at hknown
  obtain ⟨task, htask, rfl⟩ := Option.map_eq_some_iff.mp hknown
  -- the parent gets the fault at the place of its child, any other task is unchanged
  by_cases hparent : parent = i
  · have hanswered : answered (.error fault) (some (parent, place)) i task = setFault (some fault) place task := by
      rw [answered, if_pos hparent]
    rw [hanswered] at h ⊢
    refine ⟨task, ⟨htask, h.waits.imp id fun hmem => ?_⟩, rfl, ?_⟩
    · exact (mem_queue_finishTask.mp hmem).resolve_right (by rintro ⟨_, _, heq⟩; cases heq)
    · intro k x f hk
      rw [setFault, List.getElem?_modify] at hk
      obtain ⟨old, hold, heq⟩ := Option.map_eq_some_iff.mp hk
      by_cases hplace : place = k
      · rw [if_pos hplace] at heq
        cases heq
        exact .inr ⟨hparent.symm, hplace.symm, by rw [hold]; rfl⟩
      · rw [if_neg hplace] at heq
        cases heq
        exact .inl hold
  · have hanswered : answered (.error fault) (some (parent, place)) i task = task := by
      rw [answered, if_neg hparent]
    rw [hanswered] at h ⊢
    refine ⟨task, ⟨htask, h.waits.imp id fun hmem => ?_⟩, rfl, fun k x f hk => .inl hk⟩
    exact (mem_queue_finishTask.mp hmem).resolve_right (by rintro ⟨_, _, heq⟩; cases heq)

/-- The faults in store are recorded of modules that are not finished, each of them once. -/
theorem advances_failChildren {children : List (ModuleId × Option Fault)} {s : Session}
    (hopen : ∀ (k : Nat) (x : ModuleId) (f : Fault), children[k]? = some (x, some f) → s.isFinished x = false)
    (hapart : ∀ (j k : Nat) (x : ModuleId) (f g : Fault),
      children[j]? = some (x, some f) → children[k]? = some (x, some g) → j = k) :
    Advances s (failChildren s children) := by
  induction children generalizing s with
  | nil => exact .refl
  | cons child rest ih =>
    obtain ⟨y, stored⟩ := child
    have hrest : ∀ (j k : Nat) (x : ModuleId) (f g : Fault),
        rest[j]? = some (x, some f) → rest[k]? = some (x, some g) → j = k := by
      intro j k x f g hj hk
      have hsucc := hapart (j + 1) (k + 1) x f g hj hk
      omega
    rw [failChildren_cons]
    cases stored with
    | none =>
      -- no fault is in store for the first child
      exact ih (fun k x f hk => hopen (k + 1) x f hk) hrest
    | some fault =>
      -- the first child is recorded as failed; the others are different modules, and not finished
      refine .head (advance_fail (hopen 0 y fault rfl) fault) (ih ?_ hrest)
      intro k x f hk
      have hne : x ≠ y := by
        rintro rfl
        have hzero := hapart 0 (k + 1) x fault f rfl hk
        omega
      have hview : (s.fail y fault).view x = s.view x := (view_fail ..).trans (if_neg hne)
      show (s.fail y fault).isFinished x = false
      rw [isFinished_of_view hview]
      exact hopen (k + 1) x f hk

end Pool

namespace Loop

-- ---------------------------------------------------------------------------
-- Places
-- ---------------------------------------------------------------------------

/-- Where a module that was taken up and is not finished is held. -/
inductive Place where
  /-- Its task has not finished the read. -/
  | job
  /-- Its task waits for others. -/
  | task (i : Nat)
  /-- Its task has ended with a fault, which the parent has in store. -/
  | fault (i place : Nat)

/-- The module is held in the place. -/
inductive Holds (l : Loop) : Place → ModuleId → Prop
  | job {job : Job} (owns : job ∈ l.owners) : Holds l .job job.moduleId
  | task {i : Nat} {task : Suspended} (unfinished : l.pool.Unfinished i task) : Holds l (.task i) task.moduleId
  | fault {i place : Nat} {task : Suspended} {x : ModuleId} {fault : Fault} (unfinished : l.pool.Unfinished i task)
      (stored : task.children[place]? = some (x, some fault)) : Holds l (.fault i place) x

/-- Since the session `s₀`, in which all that was read is finished, modules that were taken up are held in one place each
until they are finished. -/
structure Held (s₀ : Session) (l : Loop) : Prop where
  alone : ∀ a b x, l.Holds a x → l.Holds b x → a = b
  unfinished : ∀ a x, l.Holds a x → l.pool.session.isFinished x = false
  inFlight : ∀ a x, l.Holds a x → x ∈ l.pool.session.inFlight
  reads : l.pool.session.reads = s₀.reads ++ l.built
  advances : Advances s₀ l.pool.session

variable {s₀ : Session} {l l' : Loop}

/-- Where tasks keep what they have, a module is held by a job, or where it was held before. -/
theorem Holds.of_tasks {a : Place} {x : ModuleId} (h : l'.Holds a x) (htasks : Pool.KeepsTasks l.pool l'.pool) :
    (∃ job ∈ l'.owners, a = .job ∧ x = job.moduleId) ∨ a ≠ .job ∧ l.Holds a x := by
  cases h with
  | job owns => exact .inl ⟨_, owns, rfl, rfl⟩
  | task unfinished =>
    obtain ⟨task, hunfinished, hid, _⟩ := htasks _ _ unfinished
    exact .inr ⟨nofun, hid ▸ .task hunfinished⟩
  | fault unfinished stored =>
    obtain ⟨task, hunfinished, _, hchildren⟩ := htasks _ _ unfinished
    exact .inr ⟨nofun, .fault hunfinished (hchildren ▸ stored)⟩

namespace Held

/-- Some modules are released, and those that are still held have the same view. -/
theorem mono (h : Held s₀ l)
    (hholds : ∀ a x, l'.Holds a x → l.Holds a x ∧ l'.pool.session.view x = l.pool.session.view x)
    (hinFlight : l'.pool.session.inFlight = l.pool.session.inFlight)
    (hreads : l'.pool.session.reads = l.pool.session.reads) (hbuilt : l'.built = l.built)
    (hadvances : Advances l.pool.session l'.pool.session) : Held s₀ l' where
  alone a b x ha hb := h.alone a b x (hholds a x ha).1 (hholds b x hb).1
  unfinished a x ha := by
    rw [isFinished_of_view (hholds a x ha).2]
    exact h.unfinished a x (hholds a x ha).1
  inFlight a x ha := by
    rw [hinFlight]
    exact h.inFlight a x (hholds a x ha).1
  reads := by rw [hreads, hbuilt, h.reads]
  advances := h.advances.trans hadvances

/-- One module changes hands, or is released; the others are held where they were. -/
theorem replace (h : Held s₀ l) {x : ModuleId} {place : Place}
    (hholds : ∀ a y, l'.Holds a y →
      l.Holds a y ∧ y ≠ x ∨ a = place ∧ y = x ∧ l'.pool.session.isFinished x = false ∧ x ∈ l'.pool.session.inFlight)
    (hothers : ∀ y, y ≠ x → l'.pool.session.view y = l.pool.session.view y)
    (hinFlight : ∀ y ∈ l.pool.session.inFlight, y ∈ l'.pool.session.inFlight)
    (hreads : l'.pool.session.reads = s₀.reads ++ l'.built)
    (hadvances : Advances l.pool.session l'.pool.session) : Held s₀ l' where
  alone a b y ha hb := by
    -- both places are those before, or both are the new one
    rcases hholds a y ha with ⟨ha, hne⟩ | ⟨rfl, rfl, _⟩
    · rcases hholds b y hb with ⟨hb, _⟩ | ⟨_, heq, _⟩
      · exact h.alone a b y ha hb
      · exact absurd heq hne
    · rcases hholds b _ hb with ⟨_, hne⟩ | ⟨rfl, _, _⟩
      · exact absurd rfl hne
      · rfl
  unfinished a y ha := by
    rcases hholds a y ha with ⟨ha, hne⟩ | ⟨_, rfl, hunfinished, _⟩
    · rw [isFinished_of_view (hothers y hne)]
      exact h.unfinished a y ha
    · exact hunfinished
  inFlight a y ha := by
    rcases hholds a y ha with ⟨ha, _⟩ | ⟨_, rfl, _, hmem⟩
    · exact hinFlight y (h.inFlight a y ha)
    · exact hmem
  reads := hreads
  advances := h.advances.trans hadvances

/-- A module that is held and not built was not read, neither since the beginning nor before. -/
theorem not_mem_reads (h : Held s₀ l) (hs₀ : ∀ x ∈ s₀.reads, s₀.isFinished x = true) {capacity : Nat}
    (howned : Owned capacity l) {job : Job} (hjob : job ∈ l.owners) : job.moduleId ∉ l.pool.session.reads := by
  rw [h.reads, List.mem_append]
  rintro (hread | hbuilt)
  · have hfinished := h.advances.frozen.isFinished (hs₀ _ hread)
    rw [h.unfinished .job _ (.job hjob)] at hfinished
    cases hfinished
  · exact howned.not_built_of_owned hjob hbuilt

end Held

-- ---------------------------------------------------------------------------
-- Steps
-- ---------------------------------------------------------------------------

/-- A step in which no module changes hands. -/
theorem Held.of_keepsTasks (h : Held s₀ l) (howners : ∀ job ∈ l'.owners, job ∈ l.owners)
    (htasks : Pool.KeepsTasks l.pool l'.pool) (hsession : l'.pool.session = l.pool.session) (hbuilt : l'.built = l.built) :
    Held s₀ l' := by
  refine h.mono ?_ (congrArg Session.inFlight hsession) (congrArg Session.reads hsession) hbuilt ?_
  · intro a x ha
    refine ⟨?_, by rw [hsession]⟩
    rcases ha.of_tasks htasks with ⟨job, hjob, rfl, rfl⟩ | ⟨_, hold⟩
    · exact .job (howners job hjob)
    · exact hold
  · rw [hsession]

/-- A module is taken up: from now on its task holds it. -/
theorem held_takeUp (h : Held s₀ l) {before after : List Turn} {x : ModuleId} {reportTo : ReportTo}
    (hqueue : l.pool.queue = before ++ .start x reportTo :: after) (hfree : x ∉ l.pool.session.inFlight)
    (hopen : l.pool.session.isFinished x = false) :
    Held s₀ { l with
      pool := { l.pool with queue := before ++ after, session := Pool.begin l.pool.session x }
      acquiring := l.acquiring ++ [⟨x, reportTo⟩] } := by
  -- what is in flight cannot be the module that is taken up
  have hne : ∀ a y, l.Holds a y → y ≠ x := by
    rintro a y ha rfl
    exact hfree (h.inFlight a y ha)
  have hmem : x ∈ (Pool.begin l.pool.session x).inFlight := List.mem_insert_self ..
  have hview : ∀ y, y ≠ x → (Pool.begin l.pool.session x).view y = l.pool.session.view y := by
    intro y hy
    have hvisiting : (Pool.begin l.pool.session x).view y = (l.pool.session.markVisiting x).view y := rfl
    rw [hvisiting, view_markVisiting, if_neg hy]
  have hbegun : (Pool.begin l.pool.session x).isFinished x = false := isFinished_markVisiting l.pool.session x
  refine @Held.replace s₀ l _ h x .job ?_ hview (fun y hy => List.mem_insert_of_mem hy) h.reads ?_
  · -- the only new place is the job of the module
    intro a y ha
    rcases ha.of_tasks (Pool.keepsTasks_pop hqueue (Pool.begin l.pool.session x)) with ⟨job, hjob, rfl, rfl⟩ | ⟨_, hold⟩
    · have hjob : job ∈ l.acquiring ++ [⟨x, reportTo⟩] ++ l.reading := hjob
      rw [List.append_assoc, List.mem_append, List.mem_append, List.mem_singleton] at hjob
      rcases hjob with hjob | rfl | hjob
      · have hold : l.Holds .job job.moduleId := .job (List.mem_append_left _ hjob)
        exact .inl ⟨hold, hne _ _ hold⟩
      · exact .inr ⟨rfl, rfl, hbegun, hmem⟩
      · have hold : l.Holds .job job.moduleId := .job (List.mem_append_right _ hjob)
        exact .inl ⟨hold, hne _ _ hold⟩
    · exact .inl ⟨hold, hne _ _ hold⟩
  · -- taking up a module that is not finished, and putting it in flight
    refine .tail (.single (advance_markVisiting hopen)) ?_
    exact advance_aside rfl rfl rfl rfl rfl

theorem owners_subset_jobs {job : Job} (h : job ∈ l.owners) : job ∈ l.jobs := by
  rw [jobs, List.append_assoc]
  exact List.mem_append_right _ h

section Conclude

variable {capacity : Nat} {before after : List Job} {job : Job}

/-- The read of a module ends, and its job with it. If the module is still held, it is in another place and not
finished. -/
theorem held_handled (h : Held s₀ l) (hs₀ : ∀ x ∈ s₀.reads, s₀.isFinished x = true) (howned : Owned capacity l)
    (hreading : l.reading = before ++ job :: after) {p : Pool} (place : Place)
    (hhandled : Pool.Handled job.moduleId l.pool.session p.session)
    (hholds : ∀ a y, a ≠ .job → Holds { l with pool := p } a y →
      l.Holds a y ∨ a = place ∧ y = job.moduleId ∧ p.session.isFinished job.moduleId = false) :
    Held s₀ { l with
      pool := p, reading := before ++ after, permits := l.permits + 1, built := l.built ++ [job.moduleId] } := by
  have hjob : job ∈ l.owners := (perm_owners_conclude hreading).mem_iff.mpr List.mem_cons_self
  have hself : l.Holds .job job.moduleId := .job hjob
  have hinFlight := hhandled.inFlight
  -- the other jobs are for other modules
  have hjobs : ∀ other ∈ l.acquiring ++ (before ++ after), other ∈ l.owners ∧ other.moduleId ≠ job.moduleId :=
    fun other hother => ⟨(perm_owners_conclude hreading).mem_iff.mpr (List.mem_cons_of_mem _ hother),
      howned.ne_of_reading hreading hother⟩
  have hother : ∀ a y, a ≠ .job → l.Holds a y → y ≠ job.moduleId := by
    rintro a _ hne ha rfl
    exact hne (h.alone a .job _ ha hself)
  refine @Held.replace s₀ l _ h job.moduleId place ?_ hhandled.others (fun y hy => hinFlight ▸ hy) ?_ ?_
  · intro a y ha
    have hcases : (∃ other ∈ l.acquiring ++ (before ++ after), a = .job ∧ y = other.moduleId) ∨
        a ≠ .job ∧ Holds { l with pool := p } a y := by
      cases ha with
      | job owns => exact .inl ⟨_, owns, rfl, rfl⟩
      | task unfinished => exact .inr ⟨by simp, .task unfinished⟩
      | fault unfinished stored => exact .inr ⟨by simp, .fault unfinished stored⟩
    rcases hcases with ⟨other, hmem, rfl, rfl⟩ | ⟨hne, ha⟩
    · exact .inl ⟨.job (hjobs other hmem).1, (hjobs other hmem).2⟩
    · rcases hholds a y hne ha with hold | ⟨hplace, hy, hunfinished⟩
      · exact .inl ⟨hold, hother a y hne hold⟩
      · exact .inr ⟨hplace, hy, hunfinished, hinFlight ▸ h.inFlight .job _ hself⟩
  · show p.session.reads = s₀.reads ++ (l.built ++ [job.moduleId])
    rw [hhandled.reads, h.reads, List.append_assoc]
  · exact hhandled.advances (h.unfinished .job _ hself) (h.not_mem_reads hs₀ howned hjob)

/-- A task finishes its read: it ends, or it waits and holds its module, or its parent does. -/
theorem held_conclude (h : Held s₀ l) (hs₀ : ∀ x ∈ s₀.reads, s₀.isFinished x = true) (horderly : l.account.Orderly)
    (howned : Owned capacity l) (hreading : l.reading = before ++ job :: after) (w : World) :
    Held s₀ { l with
      pool := l.pool.conclude w job.moduleId job.reportTo
      reading := before ++ after, permits := l.permits + 1, built := l.built ++ [job.moduleId] } := by
  have hjob : job ∈ l.owners := (perm_owners_conclude hreading).mem_iff.mpr List.mem_cons_self
  have hopen := h.unfinished .job _ (.job hjob)
  have hconcluded := Pool.conclude_concluded w l.pool job.moduleId job.reportTo
  generalize l.pool.conclude w job.moduleId job.reportTo = p at hconcluded
  cases hconcluded with
  | @ended s names handled =>
    have hsession := Pool.session_finishTask { l.pool with session := s } (.ok names) job.reportTo
    -- the task has ended: its module is released
    refine held_handled h hs₀ howned hreading .job (hsession ▸ handled) fun a y hne ha => .inl ?_
    rcases ha.of_tasks (Pool.keepsTasks_finishTask_ok l.pool s names job.reportTo) with ⟨_, _, hjob, _⟩ | ⟨_, hold⟩
    · exact absurd hjob hne
    · exact hold
  | @unlinked s fault handled unfinished =>
    cases hreport : job.reportTo with
    | none =>
      -- the task of the root: the fault is the result, and no task has it in store
      refine held_handled h hs₀ howned hreading .job handled fun a y hne ha => .inl ?_
      have htasks : Pool.KeepsTasks l.pool ({ l.pool with session := s }.finishTask (.error fault) none) :=
        fun i task hold => ⟨task, ⟨hold.known, hold.waits⟩, rfl, rfl⟩
      rcases ha.of_tasks htasks with ⟨_, _, hjob, _⟩ | ⟨_, hold⟩
      · exact absurd hjob hne
      · exact hold
    | some parent =>
      obtain ⟨i, k⟩ := parent
      -- the parent has the module in its place among the children
      have hturn : .start job.moduleId (some (i, k)) ∈ l.account.queue := by
        rw [← hreport]
        exact List.mem_append_right _ (List.mem_map_of_mem (owners_subset_jobs hjob))
      obtain ⟨seat, hseat, hplace⟩ := horderly.seated job.moduleId i k hturn
      refine held_handled h hs₀ howned hreading (.fault i k) handled fun a y hne ha => ?_
      cases ha with
      | job owns => exact absurd rfl hne
      | task hunfinished =>
        obtain ⟨task, hold, hid, _⟩ := hunfinished.of_finishTask_error
        exact .inl (hid ▸ .task ⟨hold.known, hold.waits⟩)
      | fault hunfinished stored =>
        obtain ⟨task, hold, _, hstored⟩ := hunfinished.of_finishTask_error
        rcases hstored _ _ _ stored with hkept | ⟨rfl, rfl, hy⟩
        · exact .inl (.fault ⟨hold.known, hold.waits⟩ hkept)
        · have hsame : some seat = some task := hseat.symm.trans hold.known
          cases hsame
          rw [hplace] at hy
          cases hy
          exact .inr ⟨rfl, rfl, unfinished hopen⟩
  | @waits s m targets handled unfinished owner some_target =>
    -- the task waits, and from now on holds the module under its number
    refine held_handled h hs₀ howned hreading (.task l.pool.suspended.length) handled fun a y hne ha => ?_
    cases ha with
    | job owns => exact absurd rfl hne
    | @task i task hunfinished =>
      rcases Pool.Unfinished.of_suspend hunfinished with hold | ⟨rfl, hid, _⟩
      · exact .inl (.task ⟨hold.known, hold.waits⟩)
      · exact .inr ⟨rfl, hid.trans owner, unfinished hopen⟩
    | @fault i k task x f hunfinished stored =>
      rcases Pool.Unfinished.of_suspend hunfinished with hold | ⟨rfl, _, hchildren⟩
      · exact .inl (.fault ⟨hold.known, hold.waits⟩ stored)
      · -- a task that has just been suspended has nothing in store
        rw [hchildren, List.getElem?_map] at stored
        obtain ⟨_, _, heq⟩ := Option.map_eq_some_iff.mp stored
        cases heq

end Conclude

/-- A task is resumed: it releases its own module and the children for which it has a fault in store. -/
theorem held_resume (h : Held s₀ l) (horderly : l.account.Orderly) {before after : List Turn} {i : Nat}
    (hqueue : l.pool.queue = before ++ .resume i :: after) :
    Held s₀ { l with pool := { l.pool with queue := before ++ after }.resumeTask i } := by
  have hmem : .resume i ∈ l.pool.queue := by
    rw [hqueue]
    exact List.mem_append_right _ List.mem_cons_self
  -- the task is known and waits for no report
  obtain ⟨_, hslot, hzero⟩ := horderly.balanced.known (.resume i) (List.mem_append_left _ hmem)
  rw [Pool.getElem?_slots] at hslot
  obtain ⟨task, htask, rfl⟩ := Option.map_eq_some_iff.mp hslot
  have htask : l.pool.suspended[i]? = some task := htask
  have hunfinished : l.pool.Unfinished i task := ⟨htask, .inr hmem⟩
  -- the task is about to resume only once
  have honce : .resume i ∉ before ++ after := by
    have hresumes : ((l.pool.queue ++ l.jobs.map Job.turn).filterMap Pool.resumedTask?).Nodup := horderly.resumes
    rw [hqueue] at hresumes
    have hperm := ((List.perm_middle.append_right (l.jobs.map Job.turn)).filterMap Pool.resumedTask?).nodup_iff.mp hresumes
    intro hagain
    refine (List.nodup_cons.mp hperm).1 (List.mem_filterMap.mpr ⟨.resume i, ?_, rfl⟩)
    exact List.mem_append_left _ hagain
  -- what the task holds: its own module, and the children with a fault in store
  have hown : l.Holds (.task i) task.moduleId := .task hunfinished
  have hstored : ∀ (k : Nat) (x : ModuleId) (f : Fault), task.children[k]? = some (x, some f) → l.Holds (.fault i k) x :=
    fun k x f hk => .fault hunfinished hk
  -- its own module is none of these children, since it is held in one place only
  have hnot : ∀ f, (task.moduleId, some f) ∉ task.children := by
    intro f hchild
    obtain ⟨k, hk⟩ := List.mem_iff_getElem?.mp hchild
    cases h.alone _ _ _ hown (hstored k _ f hk)
  -- recording the faults and marking the module as done advances the session: none of them was finished
  have hfail : Advances l.pool.session (Pool.failChildren l.pool.session task.children) := by
    refine Pool.advances_failChildren (fun k x f hk => h.unfinished _ _ (hstored k x f hk)) ?_
    intro j k x f g hj hk
    cases h.alone _ _ _ (hstored j x f hj) (hstored k x g hk)
    rfl
  have hdone : Advance (Pool.failChildren l.pool.session task.children)
      ((Pool.failChildren l.pool.session task.children).markDone task.moduleId) := by
    refine advance_markDone ?_
    rw [isFinished_of_view (Pool.view_failChildren_of_not_mem hnot)]
    exact h.unfinished _ _ hown
  -- from here on the session afterwards is a variable, and the tasks are compared
  rw [@Pool.resumeTask_eq { l.pool with queue := before ++ after } i task htask]
  generalize hs : (Pool.failChildren l.pool.session task.children).markDone task.moduleId = s
  have hsession := Pool.session_finishTask { l.pool with queue := before ++ after, session := s }
    (.ok task.directBlocking) task.reportTo
  have hpopped := Pool.keepsTasks_pop hqueue l.pool.session
  have hended := Pool.keepsTasks_finishTask_ok { l.pool with queue := before ++ after } s task.directBlocking task.reportTo
  -- the task itself has finished now
  have hgone : ∀ other, ¬ Pool.Unfinished (Pool.finishTask { l.pool with queue := before ++ after, session := s }
      (.ok task.directBlocking) task.reportTo) i other := by
    intro other hother
    obtain ⟨same, hsame, _⟩ := hended i other hother
    have heq : some same = some task := hsame.known.symm.trans htask
    cases heq
    rcases hsame.waits with hopen | hagain
    · have hmissing : task.missing = 0 := hzero
      omega
    · exact honce hagain
  -- what is held afterwards was held before, in a place of another task, and has the same view
  refine h.mono ?_ ?_ ?_ rfl ?_
  · intro a x ha
    -- the places of the resumed task are gone
    have hplace : a ≠ .task i ∧ ∀ k, a ≠ .fault i k := by
      constructor
      · rintro rfl
        cases ha with
        | task hother => exact hgone _ hother
      · rintro k rfl
        cases ha with
        | fault hother _ => exact hgone _ hother
    have hold : l.Holds a x := by
      rcases ha.of_tasks (hpopped.trans hended) with ⟨job, hjob, rfl, rfl⟩ | ⟨_, hold⟩
      · exact .job hjob
      · exact hold
    refine ⟨hold, ?_⟩
    -- another place, so another module
    have hne : x ≠ task.moduleId := by
      rintro rfl
      exact hplace.1 (h.alone _ _ _ hold hown)
    have hnone : ∀ f, (x, some f) ∉ task.children := by
      intro f hchild
      obtain ⟨k, hk⟩ := List.mem_iff_getElem?.mp hchild
      exact hplace.2 k (h.alone _ _ _ hold (hstored k x f hk))
    rw [hsession, ← hs]
    show ((Pool.failChildren l.pool.session task.children).markDone task.moduleId).view x = _
    rw [view_markDone, if_neg hne, Pool.view_failChildren_of_not_mem hnone]
  · rw [hsession, ← hs]
    exact Pool.inFlight_failChildren ..
  · rw [hsession, ← hs]
    have hmerged := @Pool.merged_failChildren (l.pool.session.codebase {}) .concurrent task.children l.pool.session
    exact hmerged.reads.trans (List.append_nil _)
  · rw [hsession, ← hs]
    exact hfail.tail hdone

/-- A step preserves the invariant. By cases on the step: a module changes hands only when it is taken up, when its read
ends and when a task is resumed. -/
theorem held_step {capacity : Nat} (h : Held s₀ l) (hs₀ : ∀ x ∈ s₀.reads, s₀.isFinished x = true)
    (horderly : l.account.Orderly) (howned : Owned capacity l) (hstep : l.Step l') : Held s₀ l' := by
  cases hstep with
  | await queued taken =>
    exact h.of_keepsTasks (fun _ hjob => hjob) (Pool.keepsTasks_pop queued l.pool.session) rfl rfl
  | @passOver before after x reportTo queued free finished =>
    have htasks := (Pool.keepsTasks_pop queued l.pool.session).trans
      (Pool.keepsTasks_finishTask_ok _ l.pool.session (l.pool.session.directBlocking x) reportTo)
    exact h.of_keepsTasks (fun _ hjob => hjob) htasks (Pool.session_finishTask ..) rfl
  | takeUp queued free unfinished => exact held_takeUp h queued free unfinished
  | @acquire before after job waiting permit =>
    refine h.of_keepsTasks ?_ (fun i task hold => ⟨task, hold, rfl, rfl⟩) rfl rfl
    exact fun other hother => (perm_owners_acquire waiting).mem_iff.mp hother
  | conclude w underWay => exact held_conclude h hs₀ horderly howned underWay w
  | @wake before after job waiting ready =>
    have htasks := Pool.keepsTasks_finishTask_ok l.pool l.pool.session (l.pool.session.directBlocking job.moduleId)
      job.reportTo
    exact h.of_keepsTasks (fun _ hjob => hjob) htasks (Pool.session_finishTask ..) rfl
  | @report before after parent queued =>
    have htasks := (Pool.keepsTasks_pop queued l.pool.session).trans (Pool.keepsTasks_report _ parent)
    exact h.of_keepsTasks (fun _ hjob => hjob) htasks (Pool.session_report ..) rfl
  | resume queued => exact held_resume h horderly queued

/-- Nothing is held in the beginning. -/
theorem held_initial (s : Session) (root : ModuleId) (permits : Nat) : Held s (initial s root permits) := by
  have hnone : ∀ a x, ¬ (initial s root permits).Holds a x := by
    intro a x ha
    cases ha with
    | job owns => cases owns
    | task unfinished => cases unfinished.known
    | fault unfinished stored => cases unfinished.known
  refine ⟨fun a _ x ha => absurd ha (hnone a x), fun a x ha => absurd ha (hnone a x),
    fun a x ha => absurd ha (hnone a x), (List.append_nil _).symm, .refl⟩

/-- Every interleaving of a concurrent analysis advances its initial session. By induction on the steps. -/
theorem advances_of_reaches {s : Session} (hs : s.inFlight = []) (hreads : ∀ x ∈ s.reads, s.isFinished x = true)
    {root : ModuleId} {permits : Nat} (h : (initial s root permits).Reaches l) : Advances s l.pool.session := by
  have hheld : Held s l := by
    induction h with
    | refl => exact held_initial s root permits
    | tail hbefore hstep ih =>
      obtain ⟨horderly, howned⟩ := reaches_induction hs hbefore
      exact held_step ih hreads horderly howned hstep
  exact hheld.advances

end Loop

end BlockingCalls.Session
