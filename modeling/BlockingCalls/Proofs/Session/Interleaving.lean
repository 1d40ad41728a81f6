import BlockingCalls.Proofs.Session.Orderly
import BlockingCalls.Proofs.Session.Updates

/-!
# Tasks in any order

The pool takes its turns in the order in which they were queued, and reads a module in the turn in which its task starts.
Under a scheduler neither is guaranteed: reads take time, a semaphore bounds the number of reads under way, and in the
meantime other tasks take their steps. A *loop* is a pool with these suspension points: a task that has taken up a module
first waits for a permit to read it, then for the read; a task that finds its module taken up by another waits until that
one has built it. `Step` is nondeterministic: any task that is not blocked may take the next step, and each read may end in
any world, so that it may succeed or fail. `StepIn` restricts it to reads in one fixed world.

A run of the pool is one such interleaving, in which each task goes through its read without a pause.

## Results

* `Pool.conclude_concluded`  — the effect of a task on the pool once its module was read.
* `run_reaches`              — a run of the pool is an interleaving of a loop in the same world.
* `orderly_step`             — a step preserves the order of tasks.
-/

namespace BlockingCalls.Session

open Relation (ReflTransGen)

/-- A task that has started no others: the module it is for, and where it reports to. -/
structure Job where
  moduleId : ModuleId
  reportTo : ReportTo

namespace Job

/-- The turn that starts the task of a job. -/
def turn (job : Job) : Turn :=
  .start job.moduleId job.reportTo

end Job

namespace Pool

-- ---------------------------------------------------------------------------
-- Concluding a read
-- ---------------------------------------------------------------------------

/-- Between two moments one module was loaded and linked, and nothing else was touched. -/
structure Handled (x : ModuleId) (s s' : Session) : Prop where
  inFlight : s'.inFlight = s.inFlight
  reads : s'.reads = s.reads ++ [x]
  others : ∀ y, y ≠ x → s'.view y = s.view y
  advances : s.isFinished x = false → x ∉ s.reads → Advances s s'

/-- What a task can do once its module was read: end, or wait for others. While it waits, and where an import could not
be resolved, its module is not finished. -/
inductive Concluded (p : Pool) (x : ModuleId) (reportTo : ReportTo) : Pool → Prop
  | ended {s : Session} {names : List Name} (handled : Handled x p.session s) :
      Concluded p x reportTo ({ p with session := s }.finishTask (.ok names) reportTo)
  | unlinked {s : Session} {fault : Fault} (handled : Handled x p.session s)
      (unfinished : p.session.isFinished x = false → s.isFinished x = false) :
      Concluded p x reportTo ({ p with session := s }.finishTask (.error fault) reportTo)
  | waits {s : Session} {m : Loaded} {targets : List ModuleId} (handled : Handled x p.session s)
      (unfinished : p.session.isFinished x = false → s.isFinished x = false) (owner : m.summary.moduleId = x)
      (some_target : targets ≠ []) : Concluded p x reportTo ({ p with session := s }.suspend m reportTo targets)

/-- A load handles its module. -/
theorem handled_load (s : Session) (w : World) (x : ModuleId) : Handled x s (s.load .concurrent w x).1 where
  inFlight := inFlight_load s .concurrent w x
  reads := (merged_load s .concurrent w x).reads
  others y hy := by rw [view_load, if_neg hy]
  advances hx hunread := .single (advance_load hx hunread .concurrent w)

/-- Linking the imports of a module that is not finished advances the session, and the module is not finished then. -/
theorem advances_linkAll {m : Loaded} (imports : List ImportDeclaration) {s : Session}
    (hm : s.isFinished m.summary.moduleId = false) :
    Advances s (linkAll m s imports).1 ∧ (linkAll m s imports).1.isFinished m.summary.moduleId = false := by
  induction imports generalizing s with
  | nil => exact ⟨.refl, hm⟩
  | cons d rest ih =>
    have hlink := advance_link hm d
    have hlinked := (isFinished_link s m d m.summary.moduleId).trans hm
    rw [linkAll]
    rcases link_cases s m d with ⟨fault, _, heq⟩ | ⟨reason, _, heq⟩ | ⟨target, isRemote, _, heq⟩
    · -- an import that cannot be resolved ends the links
      rw [heq]
      exact ⟨.refl, hm⟩
    · rw [heq]
      exact ⟨.head hlink (ih hlinked).1, (ih hlinked).2⟩
    · rw [heq]
      exact ⟨.head hlink (ih hlinked).1, (ih hlinked).2⟩

/-- A module that was loaded, after its imports have been linked. -/
theorem handled_linkAll {s : Session} {w : World} {x : ModuleId} {m : Loaded}
    (hload : (s.load .concurrent w x).2 = some m) (hid : m.summary.moduleId = x) :
    Handled x s (linkAll m (s.load .concurrent w x).1 m.summary.imports).1 ∧
      (s.isFinished x = false → (linkAll m (s.load .concurrent w x).1 m.summary.imports).1.isFinished x = false) := by
  have hhandled := handled_load s w x
  have hlinked := (@linkAll_linkedFrom _ .concurrent w m m.summary.imports (s.load .concurrent w x).1 rfl).1
  have hreads := hlinked.merged.reads
  rw [List.append_nil] at hreads
  -- the module is not finished between its load and its links
  have hopen : s.isFinished x = false → (s.load .concurrent w x).1.isFinished m.summary.moduleId = false :=
    fun hx => hid.symm ▸ isFinished_load hx hload
  refine ⟨⟨hlinked.inFlight.trans hhandled.inFlight, hreads.trans hhandled.reads, ?_, ?_⟩, ?_⟩
  · intro y hy
    rw [hlinked.view, hid, if_neg hy, hhandled.others y hy]
  · intro hx hunread
    exact (hhandled.advances hx hunread).trans (advances_linkAll m.summary.imports (hopen hx)).1
  · intro hx
    have hfinished := (advances_linkAll m.summary.imports (hopen hx)).2
    rwa [hid] at hfinished

/-- Marking a module that was handled as done. -/
theorem Handled.markDone {x : ModuleId} {s s' : Session} (h : Handled x s s')
    (hopen : s.isFinished x = false → s'.isFinished x = false) : Handled x s (s'.markDone x) where
  inFlight := h.inFlight
  reads := h.reads
  others y hy := by rw [view_markDone, if_neg hy, h.others y hy]
  advances hx hunread := (h.advances hx hunread).tail (advance_markDone (hopen hx))

/-- What a load returns carries the id that was asked for. -/
theorem moduleId_of_load {s : Session} {mode : Mode} {w : World} {x : ModuleId} {m : Loaded}
    (h : (s.load mode w x).2 = some m) : m.summary.moduleId = x := by
  cases hp : (s.codebase w).parse mode x with
  | error fault =>
    rw [load_of_parse_error hp] at h
    cases h
  | ok q =>
    rw [load_of_parse_ok hp] at h
    cases h
    exact Codebase.moduleId_summary hp

/-- A task that has read its module does one of the things listed. By cases on the load, and on the targets of its
links. -/
theorem conclude_concluded (w : World) (p : Pool) (x : ModuleId) (reportTo : ReportTo) :
    Concluded p x reportTo (p.conclude w x reportTo) := by
  unfold conclude
  cases hload : (p.session.load .concurrent w x).2 with
  | none =>
    rw [show p.session.load .concurrent w x = (_, none) from Prod.ext rfl hload]
    exact .ended (handled_load p.session w x)
  | some m =>
    have hid := moduleId_of_load hload
    obtain ⟨hhandled, hopen⟩ := handled_linkAll hload hid
    rw [show p.session.load .concurrent w x = (_, some m) from Prod.ext rfl hload]
    simp only
    split
    · -- an import cannot be resolved
      rename_i s fault hlink
      rw [hlink] at hhandled hopen
      exact .unlinked hhandled hopen
    · -- there is no module to wait for
      rename_i s hlink
      rw [hlink] at hhandled hopen
      exact .ended (hhandled.markDone hopen)
    · -- the task waits for its targets
      rename_i s targets hne hlink
      rw [hlink] at hhandled hopen
      exact .waits hhandled hopen hid hne

/-- Concluding a read takes up no module. -/
theorem inFlight_conclude (w : World) (p : Pool) (x : ModuleId) (reportTo : ReportTo) :
    (p.conclude w x reportTo).session.inFlight = p.session.inFlight := by
  have hconcluded := conclude_concluded w p x reportTo
  generalize p.conclude w x reportTo = p' at hconcluded ⊢
  cases hconcluded with
  | ended handled =>
    rw [session_finishTask]
    exact handled.inFlight
  | unlinked handled unfinished =>
    rw [session_finishTask]
    exact handled.inFlight
  | waits handled unfinished owner some_target => exact handled.inFlight

/-- No turn changes the resolver. -/
theorem resolver_turned {c : Codebase} {p p' : Pool} {turn : Turn} (h : Turned c p turn p') :
    p'.session.resolver = p.session.resolver := by
  cases h with
  | passedOver stop => rw [session_finishTask]
  | ended go taken view childless =>
    rw [session_finishTask]
    exact taken.merged.resolver
  | unlinked go taken view parsed targets =>
    rw [session_finishTask]
    exact taken.merged.resolver
  | waits go taken view parsed targets some_target => exact taken.merged.resolver
  | reported parent => rw [session_report]
  | resumed task =>
    unfold resumeTask
    split
    · rfl
    · rw [session_finishTask]
      exact (@merged_failChildren c .concurrent _ p.session).resolver

/-- Resuming a task takes up no module. -/
theorem inFlight_resumeTask (p : Pool) (i : Nat) : (p.resumeTask i).session.inFlight = p.session.inFlight := by
  unfold resumeTask
  split
  · rfl
  · rw [session_finishTask]
    exact inFlight_failChildren ..

-- ---------------------------------------------------------------------------
-- More turns in the queue
-- ---------------------------------------------------------------------------

/-- The pool with more turns at the end of its queue. -/
def withTurns (p : Pool) (more : List Turn) : Pool :=
  { p with queue := p.queue ++ more }

theorem perm_append_swap {α : Type} (a b c : List α) : (a ++ b ++ c).Perm (a ++ c ++ b) := by
  rw [List.append_assoc, List.append_assoc]
  exact List.perm_append_comm.append_left a

/-- More turns in the queue do not change how a task ends. -/
theorem alike_finishTask_withTurns (p : Pool) (more : List Turn) (outcome : Except Fault (List Name))
    (reportTo : ReportTo) :
    Alike ((p.withTurns more).finishTask outcome reportTo) ((p.finishTask outcome reportTo).withTurns more) := by
  refine ⟨by cases reportTo <;> rfl, ?_, by cases reportTo <;> rfl⟩
  show List.Perm ((p.finishTask outcome reportTo).queue ++ more) _
  rw [queue_finishTask, queue_finishTask]
  exact perm_append_swap ..

theorem alike_suspend_withTurns (p : Pool) (more : List Turn) (m : Loaded) (reportTo : ReportTo)
    (targets : List ModuleId) :
    Alike ((p.withTurns more).suspend m reportTo targets) ((p.suspend m reportTo targets).withTurns more) :=
  ⟨rfl, perm_append_swap .., rfl⟩

/-- More turns in the queue do not change how a task is resumed. -/
theorem alike_resumeTask_withTurns (p : Pool) (more : List Turn) (i : Nat) :
    Alike ((p.withTurns more).resumeTask i) ((p.resumeTask i).withTurns more) := by
  have hsuspended : (p.withTurns more).suspended = p.suspended := rfl
  unfold resumeTask
  rw [hsuspended]
  cases p.suspended[i]? with
  | none => exact ⟨rfl, .refl _, rfl⟩
  | some task =>
    exact alike_finishTask_withTurns
      { p with session := (failChildren p.session task.children).markDone task.moduleId } ..

theorem result_report (p : Pool) (parent : Nat) : (p.report parent).result = p.result := by
  unfold report
  split <;> rfl

/-- More turns in the queue do not change how a report is noted. -/
theorem alike_report_withTurns (p : Pool) (more : List Turn) (parent : Nat) :
    Alike ((p.withTurns more).report parent) ((p.report parent).withTurns more) := by
  refine ⟨?_, ?_, ?_⟩
  · apply List.ext_getElem?
    intro i
    show (p.report parent).suspended[i]? = _
    rw [getElem?_suspended_report, getElem?_suspended_report]
    rfl
  · show List.Perm ((p.report parent).queue ++ more) _
    rw [queue_report, queue_report]
    exact perm_append_swap ..
  · show (p.report parent).result = _
    rw [result_report, result_report]
    rfl

end Pool

-- ---------------------------------------------------------------------------
-- Loops
-- ---------------------------------------------------------------------------

/-- A concurrent analysis whose reads take time. -/
structure Loop where
  pool : Pool
  /-- How many more reads may be under way. -/
  permits : Nat
  /-- Tasks that wait for another one to build their module. -/
  awaiting : List Job := []
  /-- Tasks that have taken up their module and wait for a permit to read it. -/
  acquiring : List Job := []
  /-- Tasks whose module is being read. -/
  reading : List Job := []
  /-- The modules whose read was started, in order. -/
  started : List ModuleId := []
  /-- The modules that were built, or have failed, since they were taken up. Nobody waits for them any more. -/
  built : List ModuleId := []

namespace Loop

/-- One task takes a step. Whichever can take one may be next. -/
inductive Step (l : Loop) : Loop → Prop
  /-- A task starts whose module another one has taken up. -/
  | await {before after : List Turn} {x : ModuleId} {reportTo : ReportTo}
      (queued : l.pool.queue = before ++ .start x reportTo :: after) (taken : x ∈ l.pool.session.inFlight) :
      Step l { l with pool := { l.pool with queue := before ++ after }, awaiting := l.awaiting ++ [⟨x, reportTo⟩] }
  /-- A task starts whose module is finished, and ends. -/
  | passOver {before after : List Turn} {x : ModuleId} {reportTo : ReportTo}
      (queued : l.pool.queue = before ++ .start x reportTo :: after) (free : x ∉ l.pool.session.inFlight)
      (finished : l.pool.session.isFinished x = true) :
      Step l { l with pool :=
        { l.pool with queue := before ++ after }.finishTask (.ok (l.pool.session.directBlocking x)) reportTo }
  /-- A task starts and takes up its module. -/
  | takeUp {before after : List Turn} {x : ModuleId} {reportTo : ReportTo}
      (queued : l.pool.queue = before ++ .start x reportTo :: after) (free : x ∉ l.pool.session.inFlight)
      (unfinished : l.pool.session.isFinished x = false) :
      Step l { l with
        pool := { l.pool with queue := before ++ after, session := Pool.begin l.pool.session x }
        acquiring := l.acquiring ++ [⟨x, reportTo⟩] }
  /-- A task gets a permit, and the read of its module starts. -/
  | acquire {before after : List Job} {job : Job} (waiting : l.acquiring = before ++ job :: after)
      (permit : 0 < l.permits) :
      Step l { l with
        acquiring := before ++ after, permits := l.permits - 1
        reading := l.reading ++ [job], started := l.started ++ [job.moduleId] }
  /-- A read ends, well or badly; the permit is given back, and those who wait for the module may resume. -/
  | conclude (w : World) {before after : List Job} {job : Job} (underWay : l.reading = before ++ job :: after) :
      Step l { l with
        pool := l.pool.conclude w job.moduleId job.reportTo
        reading := before ++ after, permits := l.permits + 1, built := l.built ++ [job.moduleId] }
  /-- A task that has waited for another one to build its module ends. -/
  | wake {before after : List Job} {job : Job} (waiting : l.awaiting = before ++ job :: after)
      (ready : job.moduleId ∈ l.built) :
      Step l { l with
        pool := l.pool.finishTask (.ok (l.pool.session.directBlocking job.moduleId)) job.reportTo
        awaiting := before ++ after }
  | report {before after : List Turn} {parent : Nat} (queued : l.pool.queue = before ++ .childEnded parent :: after) :
      Step l { l with pool := { l.pool with queue := before ++ after }.report parent }
  | resume {before after : List Turn} {i : Nat} (queued : l.pool.queue = before ++ .resume i :: after) :
      Step l { l with pool := { l.pool with queue := before ++ after }.resumeTask i }

/-- Any number of steps. -/
abbrev Reaches : Loop → Loop → Prop :=
  ReflTransGen Step

/-- One task takes a step in a fixed world: a read that ends is a read of that world. -/
inductive StepIn (w : World) (l : Loop) : Loop → Prop
  | conclude {before after : List Job} {job : Job} (underWay : l.reading = before ++ job :: after) :
      StepIn w l { l with
        pool := l.pool.conclude w job.moduleId job.reportTo
        reading := before ++ after, permits := l.permits + 1, built := l.built ++ [job.moduleId] }
  /-- Any step in which no read ends. -/
  | other {l' : Loop} (step : l.Step l') (unread : l'.built = l.built) : StepIn w l l'

/-- Any number of steps in a fixed world. -/
abbrev ReachesIn (w : World) : Loop → Loop → Prop :=
  ReflTransGen (StepIn w)

theorem StepIn.step {w : World} {l l' : Loop} (h : l.StepIn w l') : l.Step l' := by
  cases h with
  | conclude underWay => exact .conclude w underWay
  | other step unread => exact step

theorem ReachesIn.reaches {w : World} {l l' : Loop} (h : l.ReachesIn w l') : l.Reaches l' := by
  induction h with
  | refl => exact .refl
  | tail _ hstep ih => exact ih.tail hstep.step

/-- A loop that can take a step can take one in the given world. -/
theorem exists_stepIn {l l' : Loop} (h : l.Step l') (w : World) : ∃ l'', l.StepIn w l'' := by
  cases h with
  | await queued taken => exact ⟨_, .other (.await queued taken) rfl⟩
  | passOver queued free finished => exact ⟨_, .other (.passOver queued free finished) rfl⟩
  | takeUp queued free unfinished => exact ⟨_, .other (.takeUp queued free unfinished) rfl⟩
  | acquire waiting permit => exact ⟨_, .other (.acquire waiting permit) rfl⟩
  | conclude _ underWay => exact ⟨_, .conclude underWay⟩
  | wake waiting ready => exact ⟨_, .other (.wake waiting ready) rfl⟩
  | report queued => exact ⟨_, .other (.report queued) rfl⟩
  | resume queued => exact ⟨_, .other (.resume queued) rfl⟩

/-- A loop that is about to start the task of the root. -/
def initial (s : Session) (root : ModuleId) (permits : Nat) : Loop where
  pool := { session := s, queue := [.start root none] }
  permits := permits

-- ---------------------------------------------------------------------------
-- The pool as a loop
-- ---------------------------------------------------------------------------

/-- Between two turns no task of the pool waits for a permit, a read or another task, and every module that was taken up
has been built. -/
structure Rests (l : Loop) (p : Pool) : Prop where
  pool : l.pool = p
  permits : 0 < l.permits
  awaiting : l.awaiting = []
  acquiring : l.acquiring = []
  reading : l.reading = []
  built : ∀ x ∈ p.session.inFlight, x ∈ l.built

/-- A task that starts goes through its read without a pause, or finds its module built. -/
theorem startTask_reaches {l : Loop} {p : Pool} (h : l.Rests p) {x : ModuleId} {reportTo : ReportTo} {rest : List Turn}
    (hqueue : p.queue = .start x reportTo :: rest) (hcapacity : 0 ≤ p.session.config.maxConcurrency) (w : World) :
    ∃ l', l.ReachesIn w l' ∧ l'.Rests ({ p with queue := rest }.startTask w x reportTo) := by
  obtain ⟨rfl, hpermits, hawaiting, hacquiring, hreading, hbuilt⟩ := h
  have hqueue : l.pool.queue = [] ++ .start x reportTo :: rest := hqueue
  unfold Pool.startTask
  by_cases htaken : x ∈ l.pool.session.inFlight
  · -- the module is in flight and hence built: the task waits for it and is woken at once
    rw [if_pos (by simp [htaken])]
    have hawait : l.ReachesIn w _ := .single (.other (.await hqueue htaken) rfl)
    have hwake := hawait.tail (.other (@Step.wake _ [] [] ⟨x, reportTo⟩ (by rw [hawaiting]) (hbuilt x htaken)) rfl)
    refine ⟨_, hwake, rfl, hpermits, rfl, hacquiring, hreading, ?_⟩
    rw [Pool.session_finishTask]
    exact hbuilt
  · by_cases hfinished : l.pool.session.isFinished x = true
    · -- the module is finished
      rw [if_pos (by simp [hfinished])]
      have hpass : l.ReachesIn w _ := .single (.other (.passOver hqueue htaken hfinished) rfl)
      refine ⟨_, hpass, rfl, hpermits, hawaiting, hacquiring, hreading, ?_⟩
      rw [Pool.session_finishTask]
      exact hbuilt
    · -- the task takes up the module, gets a permit and concludes, without a pause
      have hopen : l.pool.session.isFinished x = false := by simpa using hfinished
      have hnot : ¬ l.pool.session.config.maxConcurrency < 0 := by omega
      rw [if_neg (by simp [htaken, hopen]), if_neg hnot, Pool.takeUp_eq_conclude]
      have htake : l.ReachesIn w _ := .single (.other (.takeUp hqueue htaken hopen) rfl)
      have hacquire := htake.tail (.other (@Step.acquire _ [] [] ⟨x, reportTo⟩ (by rw [hacquiring]) hpermits) rfl)
      have hconclude := hacquire.tail (@StepIn.conclude w _ [] [] ⟨x, reportTo⟩ (by rw [hreading]))
      refine ⟨_, hconclude, rfl, ?_, hawaiting, rfl, rfl, ?_⟩
      · show 0 < _ + 1
        omega
      intro y hy
      rw [Pool.inFlight_conclude] at hy
      have hy : y ∈ l.pool.session.inFlight.insert x := hy
      rcases List.mem_insert_iff.mp hy with rfl | hy
      · exact List.mem_append_right _ (List.mem_singleton.mpr rfl)
      · exact List.mem_append_left _ (hbuilt y hy)

/-- A turn of the pool is a sequence of steps of a loop at rest. -/
theorem take_reaches {l : Loop} {p : Pool} (h : l.Rests p) {turn : Turn} {rest : List Turn}
    (hqueue : p.queue = turn :: rest) (hcapacity : 0 ≤ p.session.config.maxConcurrency) (w : World) :
    ∃ l', l.ReachesIn w l' ∧ l'.Rests ({ p with queue := rest }.take w turn) := by
  cases turn with
  | start x reportTo => exact startTask_reaches h hqueue hcapacity w
  | childEnded parent =>
    obtain ⟨rfl, hpermits, hawaiting, hacquiring, hreading, hbuilt⟩ := h
    have hreport : l.ReachesIn w _ := .single (.other (@Step.report l [] rest parent hqueue) rfl)
    refine ⟨_, hreport, rfl, hpermits, hawaiting, hacquiring, hreading, ?_⟩
    rw [Pool.take, Pool.session_report]
    exact hbuilt
  | resume i =>
    obtain ⟨rfl, hpermits, hawaiting, hacquiring, hreading, hbuilt⟩ := h
    have hresume : l.ReachesIn w _ := .single (.other (@Step.resume l [] rest i hqueue) rfl)
    refine ⟨_, hresume, rfl, hpermits, hawaiting, hacquiring, hreading, ?_⟩
    rw [Pool.take, Pool.inFlight_resumeTask]
    exact hbuilt

/-- A run of the pool is an interleaving that a loop allows, in the same world. By induction on the number of turns. -/
theorem run_reaches (w : World) (turns : Nat) {l : Loop} {p : Pool} (h : l.Rests p)
    (hcapacity : 0 ≤ p.session.config.maxConcurrency) : ∃ l', l.ReachesIn w l' ∧ l'.Rests (Pool.run w turns p) := by
  induction turns generalizing l p with
  | zero => exact ⟨l, .refl, h⟩
  | succ turns ih =>
    rw [Pool.run]
    cases hqueue : p.queue with
    | nil => exact ⟨l, .refl, h⟩
    | cons turn rest =>
      obtain ⟨next, hreaches, hrests⟩ := take_reaches h hqueue hcapacity w
      have hturned := @Pool.take_turned _ w { p with queue := rest } rfl hcapacity turn
      have hresolver := Pool.resolver_turned hturned
      have hconfig : ({ p with queue := rest }.take w turn).session.config = p.session.config :=
        congrArg Resolver.config hresolver
      obtain ⟨l', hreaches', hrests'⟩ := ih hrests (hconfig ▸ hcapacity)
      exact ⟨l', hreaches.trans hreaches', hrests'⟩

-- ---------------------------------------------------------------------------
-- Tasks stay in order
-- ---------------------------------------------------------------------------

/-- The tasks of a loop that have started no others and are no longer queued. -/
def jobs (l : Loop) : List Job :=
  l.awaiting ++ l.acquiring ++ l.reading

/-- The pool with all jobs put back into its queue. -/
def account (l : Loop) : Pool :=
  l.pool.withTurns (l.jobs.map Job.turn)

theorem perm_turns {jobs jobs' : List Job} {job : Job} (h : jobs.Perm (job :: jobs')) (queue : List Turn) :
    (queue ++ jobs.map Job.turn).Perm (job.turn :: (queue ++ jobs'.map Job.turn)) :=
  ((h.map Job.turn).append_left queue).trans List.perm_middle

section Places

variable {l : Loop} {before after : List Job} {job : Job}

/-- A turn of the queue is moved to the front of the account. -/
theorem perm_account {front back : List Turn} {turn : Turn} (h : l.pool.queue = front ++ turn :: back) :
    (turn :: (front ++ back ++ l.jobs.map Job.turn)).Perm l.account.queue := by
  show List.Perm _ (l.pool.queue ++ _)
  rw [h]
  exact (List.perm_middle.append_right _).symm

/-! The jobs before and after each step that moves one of them. -/

theorem perm_jobs_await (l : Loop) (job : Job) :
    (l.awaiting ++ [job] ++ l.acquiring ++ l.reading).Perm (job :: l.jobs) := by
  simp only [jobs, List.append_assoc]
  exact List.perm_middle

theorem perm_jobs_takeUp (l : Loop) (job : Job) :
    (l.awaiting ++ (l.acquiring ++ [job]) ++ l.reading).Perm (job :: l.jobs) := by
  rw [jobs, ← List.append_assoc, List.append_assoc _ [_]]
  exact List.perm_middle

theorem perm_jobs_acquire (h : l.acquiring = before ++ job :: after) :
    (l.awaiting ++ (before ++ after) ++ (l.reading ++ [job])).Perm l.jobs := by
  rw [jobs, h, ← List.append_assoc]
  exact (List.perm_append_singleton ..).trans
    (((List.perm_middle.append_left _).trans List.perm_middle).append_right _).symm

theorem perm_jobs_conclude (h : l.reading = before ++ job :: after) :
    l.jobs.Perm (job :: (l.awaiting ++ l.acquiring ++ (before ++ after))) := by
  rw [jobs, h, ← List.append_assoc, ← List.append_assoc]
  exact List.perm_middle

theorem perm_jobs_wake (h : l.awaiting = before ++ job :: after) :
    l.jobs.Perm (job :: (before ++ after ++ l.acquiring ++ l.reading)) := by
  rw [jobs, h]
  exact (List.perm_middle.append_right _).append_right _

end Places

/-- A step preserves the order of tasks. The turn of the step is moved to the front of the account, where the lemmas on
turns apply, since order is invariant under permutations of the queue. -/
theorem orderly_step {l l' : Loop} (h : l.account.Orderly) (hstep : l.Step l') : l'.account.Orderly := by
  -- the turn that is taken from the queue is put in front of all others first
  have hqueued : ∀ {before after : List Turn} {turn : Turn}, l.pool.queue = before ++ turn :: after →
      Pool.Orderly { l.pool with queue := turn :: (before ++ after ++ l.jobs.map Job.turn) } :=
    fun hqueue => h.of_alike ⟨rfl, perm_account hqueue, rfl⟩
  have hjob : ∀ {jobs : List Job} {job : Job}, l.jobs.Perm (job :: jobs) →
      Pool.Orderly { l.pool with queue := job.turn :: (l.pool.queue ++ jobs.map Job.turn) } :=
    fun hperm => h.of_alike ⟨rfl, (perm_turns hperm _).symm, rfl⟩
  cases hstep with
  | @await before after x reportTo queued taken =>
    -- the turn becomes a job that awaits another one
    exact (hqueued queued).of_alike ⟨rfl, perm_turns (perm_jobs_await l ⟨x, reportTo⟩) (before ++ after), rfl⟩
  | @passOver before after x reportTo queued free finished =>
    -- the task ends in its first turn
    have hfinish := (hqueued queued).finishTask rfl l.pool.session (.ok (l.pool.session.directBlocking x)) rfl
    exact hfinish.of_alike (Pool.alike_finishTask_withTurns { l.pool with queue := before ++ after } ..)
  | @takeUp before after x reportTo queued free unfinished =>
    -- the turn becomes a job that waits for a permit
    exact (hqueued queued).of_alike ⟨rfl, perm_turns (perm_jobs_takeUp l ⟨x, reportTo⟩) (before ++ after), rfl⟩
  | @acquire before after job waiting permit =>
    -- a job changes its place only
    exact h.of_alike ⟨rfl, ((perm_jobs_acquire waiting).map Job.turn).append_left l.pool.queue, rfl⟩
  | @conclude w before after job underWay =>
    -- the job becomes a turn again, which ends or suspends its task
    have hpop := hjob (perm_jobs_conclude underWay)
    have hconcluded := Pool.conclude_concluded w l.pool job.moduleId job.reportTo
    generalize l.pool.conclude w job.moduleId job.reportTo = p' at hconcluded
    cases hconcluded with
    | @ended s names handled =>
      exact (hpop.finishTask rfl s (.ok names) rfl).of_alike
        (Pool.alike_finishTask_withTurns { l.pool with session := s } ..)
    | @unlinked s fault handled unfinished =>
      exact (hpop.finishTask rfl s (.error fault) rfl).of_alike
        (Pool.alike_finishTask_withTurns { l.pool with session := s } ..)
    | @waits s m targets handled unfinished owner some_target =>
      exact (hpop.suspend rfl s m some_target).of_alike
        (Pool.alike_suspend_withTurns { l.pool with session := s } ..)
  | @wake before after job waiting ready =>
    have hpop := hjob (perm_jobs_wake waiting)
    exact (hpop.finishTask rfl l.pool.session (.ok (l.pool.session.directBlocking job.moduleId)) rfl).of_alike
      (Pool.alike_finishTask_withTurns l.pool ..)
  | @report before after parent queued =>
    exact ((hqueued queued).report rfl).of_alike
      (Pool.alike_report_withTurns { l.pool with queue := before ++ after } ..)
  | @resume before after i queued =>
    exact ((hqueued queued).resumeTask rfl).of_alike
      (Pool.alike_resumeTask_withTurns { l.pool with queue := before ++ after } ..)

end Loop

end BlockingCalls.Session
