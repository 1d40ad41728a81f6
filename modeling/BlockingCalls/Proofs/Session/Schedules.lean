import BlockingCalls.Proofs.Session.Modes
import BlockingCalls.Proofs.Session.Waiting

/-!
# All schedules end alike

The pool takes its turns first in, first out, has no semaphore, and reads a module in the turn that takes it up. A loop
(`Loop`) leaves the order of steps open, suspends a task before its read and during it, and bounds the reads under way by
its permits. Here it is shown that none of this changes what an analysis leaves behind: in a fixed world every schedule is
finite, and every schedule that cannot be continued has ended as `Ended` says, with what spreads from the root read once and
settled.

The proof is a **stuttering simulation** of loops by pools whose queue is taken in any order. The linearisation point of a
module is the end of its read: the pool takes up the module when the loop concludes it. In between the session of the pool
*lags* behind (`Lags`): what is owned in the loop has been begun there and is untouched in the pool, and all other views are
equal. A step of the loop is either matched by one turn of the pool (`Follows.turned`), which keeps the invariant of the
pool (`Pool.running_turned`) and makes its measure smaller (`Pool.measure_turned`); or it is a stutter, in which a task
starts to wait, takes up its module or gets a permit. The rank `pauses` excludes an infinite number of stutters.

## Results

* `follows_step`      — the simulation, one step: a turn of the pool, or a stutter of smaller rank.
* `acc_of_follows`    — no schedule is infinite.
* `schedules_end`     — every schedule is finite, and ends with a result and the session `Ended`.
* `schedules_agree`   — all schedules of a new session leave the same snapshot, which is that of a depth-first analysis.
-/

namespace BlockingCalls.Session

open Relation (ReflTransGen)

namespace Pool

-- ---------------------------------------------------------------------------
-- Turns in any order
-- ---------------------------------------------------------------------------

namespace Alike

variable {p p' q : Pool}

theorem symm (h : Alike p p') : Alike p' p :=
  ⟨h.suspended.symm, h.queue.symm, h.result.symm⟩

theorem trans (h : Alike p p') (h' : Alike p' q) : Alike p q :=
  ⟨h'.suspended.trans h.suspended, h'.queue.trans h.queue, h'.result.trans h.result⟩

/-- Pools that are alike remain so when a task ends in both. -/
theorem finishTask (h : Alike p p') (outcome : Except Fault (List Name)) (reportTo : ReportTo) :
    Alike (p.finishTask outcome reportTo) (p'.finishTask outcome reportTo) := by
  have hqueue := h.queue.append_right (reportTo.toList.map fun place => .childEnded place.1)
  rw [← queue_finishTask, ← queue_finishTask] at hqueue
  refine ⟨?_, hqueue, ?_⟩
  · apply List.ext_getElem?
    intro i
    rw [getElem?_suspended_finishTask, getElem?_suspended_finishTask, h.suspended]
  · cases reportTo with
    | none => rfl
    | some place => exact h.result

/-- Pools that are alike remain so when a task is suspended in both. -/
theorem suspend (h : Alike p p') (m : Loaded) (reportTo : ReportTo) (targets : List ModuleId) :
    Alike (p.suspend m reportTo targets) (p'.suspend m reportTo targets) := by
  unfold Pool.suspend
  rw [h.suspended]
  exact ⟨rfl, h.queue.append_right _, h.result⟩

/-- Pools that are alike remain so when a report arrives in both. -/
theorem report (h : Alike p p') (parent : Nat) : Alike (p.report parent) (p'.report parent) := by
  unfold Pool.report
  rw [h.suspended]
  cases p.suspended[parent]? with
  | none => exact h
  | some task =>
    refine ⟨rfl, ?_, h.result⟩
    show (ite _ _ _ : List Turn).Perm (ite _ _ _)
    split
    · exact h.queue.append_right _
    · exact h.queue

/-- Pools that are alike remain so when a task is resumed in both; the sessions may differ. -/
theorem resumeTask (h : Alike p p') (i : Nat) : Alike (p.resumeTask i) (p'.resumeTask i) := by
  cases htask : p.suspended[i]? with
  | none =>
    have htask' : p'.suspended[i]? = none := h.suspended ▸ htask
    unfold Pool.resumeTask
    rw [htask, htask']
    exact h
  | some task =>
    have htask' : p'.suspended[i]? = some task := h.suspended ▸ htask
    rw [resumeTask_eq htask, resumeTask_eq htask']
    have hsessions : Alike { p with session := (failChildren p.session task.children).markDone task.moduleId }
        { p' with session := (failChildren p'.session task.children).markDone task.moduleId } :=
      ⟨h.suspended, h.queue, h.result⟩
    exact hsessions.finishTask ..

/-- How a task proceeds does not depend on the session, nor on the order of the queue. -/
theorem proceed (h : Alike p p') (c : Codebase) (x : ModuleId) (reportTo : ReportTo) :
    Alike (p.proceed c x reportTo) (p'.proceed c x reportTo) := by
  unfold Pool.proceed
  split
  · exact h.finishTask ..
  · split
    · exact h.finishTask ..
    · exact h.finishTask ..
    · exact h.suspend ..

end Alike

/-- More turns in the queue do not change how a task proceeds. -/
theorem alike_proceed_withTurns (p : Pool) (more : List Turn) (c : Codebase) (x : ModuleId) (reportTo : ReportTo) :
    Alike ((p.withTurns more).proceed c x reportTo) ((p.proceed c x reportTo).withTurns more) := by
  unfold proceed
  split
  · exact alike_finishTask_withTurns ..
  · split
    · exact alike_finishTask_withTurns ..
    · exact alike_finishTask_withTurns ..
    · exact alike_suspend_withTurns ..

/-- How a task proceeds does not touch the session. -/
theorem session_proceed (c : Codebase) (x : ModuleId) (p : Pool) (reportTo : ReportTo) :
    (p.proceed c x reportTo).session = p.session := by
  unfold proceed
  split
  · exact session_finishTask ..
  · split
    · exact session_finishTask ..
    · exact session_finishTask ..
    · rfl

section Queue

variable {c : Codebase} {root : ModuleId} {s₀ : Session} {ids : List ModuleId} {p : Pool} {queue : List Turn}

/-- The invariant of a run does not depend on the order of the queue. -/
theorem Running.perm (h : Running c root s₀ ids p) (hperm : queue.Perm p.queue) :
    Running c root s₀ ids { p with queue } where
  balanced := h.balanced.perm hperm
  covers := by
    have hstarting : { p with queue }.Starting = p.Starting :=
      funext fun x => propext (exists_congr fun r => hperm.mem_iff)
    rw [hstarting]
    exact h.covers
  wired := ⟨h.wired.tasks, fun y i place hstart => h.wired.starts y i place (hperm.mem_iff.mp hstart)⟩
  settles := by
    refine ⟨fun x hx => ?_, h.settles.returned, h.settles.escaped⟩
    refine (h.settles.inside x hx).imp id fun ⟨hview, hpending⟩ => ⟨hview, ?_⟩
    refine hpending.mono (fun i task hunfinished _ => ?_) fun fault hfault => ⟨fault, hfault⟩
    exact ⟨task, ⟨hunfinished.known, hunfinished.waits.imp id hperm.mem_iff.mpr⟩, rfl, fun y fault hy => ⟨fault, hy⟩⟩
  first x hstart := by
    obtain ⟨hfirst, hids⟩ := h.first x (hperm.mem_iff.mp hstart)
    rw [hfirst] at hperm
    exact ⟨List.perm_singleton.mp hperm, hids⟩

/-- The measure does not depend on the order of the queue. -/
theorem measure_perm (hperm : queue.Perm p.queue) : measure c root s₀ { p with queue } = measure c root s₀ p := by
  have hsum : (queue.map Turn.effort).sum = (p.queue.map Turn.effort).sum := (hperm.map _).sum_nat
  unfold measure effort
  rw [← hsum]
  rfl

end Queue

/-- What a module has after faults were recorded depends on what it had, and on nothing else in the session. -/
theorem view_failChildren_congr {children : List (ModuleId × Option Fault)} {s t : Session} {x : ModuleId}
    (h : s.view x = t.view x) : (failChildren s children).view x = (failChildren t children).view x := by
  induction children generalizing s t with
  | nil => exact h
  | cons child rest ih =>
    obtain ⟨y, fault⟩ := child
    rw [failChildren_cons, failChildren_cons]
    cases fault with
    | none => exact ih h
    | some fault =>
      refine ih ?_
      show (s.fail y fault).view x = (t.fail y fault).view x
      rw [view_fail, view_fail, h]

end Pool

-- ---------------------------------------------------------------------------
-- A session that lags behind
-- ---------------------------------------------------------------------------

/-- The session `t` lags behind `s`: the owned modules have been taken up in `s`, where nothing but that is known of them,
and not in `t`. All other modules have the same view in both. -/
structure Lags (owned : ModuleId → Prop) (t s : Session) : Prop where
  inFlight : ∀ x, x ∈ s.inFlight ↔ owned x ∨ x ∈ t.inFlight
  untouched : ∀ x, owned x → ¬ Pool.Stops t x
  begun : ∀ x, owned x → s.view x = (t.view x).begin x
  same : ∀ x, ¬ owned x → s.view x = t.view x

namespace Lags

variable {owned owned' : ModuleId → Prop} {s s' t t' : Session} {x : ModuleId}

/-- Nothing is owned, and the sessions are the same. -/
theorem refl (s : Session) (hnone : ∀ x, ¬ owned x) : Lags owned s s where
  inFlight x := ⟨.inr, fun h => h.resolve_left (hnone x)⟩
  untouched x hx := absurd hx (hnone x)
  begun x hx := absurd hx (hnone x)
  same _ _ := rfl

theorem congr (h : Lags owned t s) (howned : ∀ x, owned' x ↔ owned x) : Lags owned' t s :=
  (funext fun x => propext (howned x) : owned' = owned) ▸ h

/-- What no task has in flight is not owned, and the lagging session stops at it iff it is finished. -/
theorem stops_iff_of_free (h : Lags owned t s) (hfree : x ∉ s.inFlight) :
    ¬ owned x ∧ (Pool.Stops t x ↔ s.isFinished x = true) := by
  have hboth := fun hx => hfree ((h.inFlight x).mpr hx)
  have hunowned : ¬ owned x := fun hx => hboth (.inl hx)
  refine ⟨hunowned, ?_⟩
  rw [isFinished_of_view (h.same x hunowned)]
  exact ⟨fun hstop => hstop.resolve_left fun hx => hboth (.inr hx), .inr⟩

/-- A task takes up a module. -/
theorem takeUp (h : Lags owned t s) (hfree : x ∉ s.inFlight) (hopen : s.isFinished x = false)
    (howned : ∀ y, owned' y ↔ owned y ∨ y = x) : Lags owned' t (Pool.begin s x) := by
  obtain ⟨hunowned, hstops⟩ := h.stops_iff_of_free hfree
  have hgo : ¬ Pool.Stops t x := by
    rw [hstops, hopen]
    exact Bool.false_ne_true
  refine ⟨fun y => ?_, fun y hy => ?_, fun y hy => ?_, fun y hy => ?_⟩
  · show y ∈ s.inFlight.insert x ↔ _
    rw [List.mem_insert_iff, h.inFlight, howned]
    tauto
  · rcases (howned y).mp hy with hy | rfl
    · exact h.untouched y hy
    · exact hgo
  · rw [Pool.view_begin]
    rcases (howned y).mp hy with hy | rfl
    · have hne : y ≠ x := fun heq => hunowned (heq ▸ hy)
      rw [if_neg hne, h.begun y hy]
    · rw [if_pos rfl, h.same y hunowned]
  · rw [howned, not_or] at hy
    rw [Pool.view_begin, if_neg hy.2, h.same y hy.1]

/-- A task concludes the module that it owns, and the lagging session catches up with it. -/
theorem conclude {c : Codebase} (h : Lags owned t s) (hx : owned x) (hs : Pool.Built c x s s')
    (ht : Pool.Built c x (Pool.begin t x) t') (howned : ∀ y, owned' y ↔ owned y ∧ y ≠ x) : Lags owned' t' s' := by
  have hinFlight : ∀ y, y ∈ t'.inFlight ↔ y = x ∨ y ∈ t.inFlight := by
    intro y
    rw [ht.inFlight]
    exact List.mem_insert_iff
  have hothers : ∀ y, y ≠ x → s'.view y = s.view y ∧ t'.view y = t.view y := by
    intro y hy
    rw [hs.view, if_neg hy, ht.view, if_neg hy, Pool.view_begin, if_neg hy]
    exact ⟨rfl, rfl⟩
  refine ⟨fun y => ?_, fun y hy => ?_, fun y hy => ?_, fun y hy => ?_⟩
  · rw [hs.inFlight, h.inFlight, hinFlight, howned]
    by_cases hyx : y = x
    · simp [hyx, hx]
    · simp [hyx]
  · obtain ⟨hy, hne⟩ := (howned y).mp hy
    rintro (hmem | hfinished)
    · exact h.untouched y hy (.inl (((hinFlight y).mp hmem).resolve_left hne))
    · exact h.untouched y hy (.inr ((isFinished_of_view (hothers y hne).2).symm.trans hfinished))
  · obtain ⟨hy, hne⟩ := (howned y).mp hy
    rw [(hothers y hne).1, (hothers y hne).2, h.begun y hy]
  · by_cases hyx : y = x
    · -- the module itself: what was begun is concluded in the same way on both sides
      subst hyx
      rw [hs.view, if_pos rfl, h.begun y hx, ht.view, if_pos rfl, Pool.view_begin, if_pos rfl]
    · have hunowned : ¬ owned y := fun hy' => hy ((howned y).mpr ⟨hy', hyx⟩)
      rw [(hothers y hyx).1, (hothers y hyx).2, h.same y hunowned]

/-- A task resumes and settles modules that nobody owns. -/
theorem settle (h : Lags owned t s) {children : List (ModuleId × Option Fault)} (hx : ¬ owned x)
    (hchildren : ∀ y fault, (y, some fault) ∈ children → ¬ owned y) :
    Lags owned ((Pool.failChildren t children).markDone x) ((Pool.failChildren s children).markDone x) := by
  have hother : ∀ (r : Session) y, owned y → ((Pool.failChildren r children).markDone x).view y = r.view y := by
    intro r y hy
    have hne : y ≠ x := fun heq => hx (heq ▸ hy)
    rw [view_markDone, if_neg hne]
    exact Pool.view_failChildren_of_not_mem fun fault hmem => hchildren y fault hmem hy
  have hinFlight : ∀ r : Session, ((Pool.failChildren r children).markDone x).inFlight = r.inFlight :=
    fun r => Pool.inFlight_failChildren children r
  refine ⟨fun y => ?_, fun y hy => ?_, fun y hy => ?_, fun y hy => ?_⟩
  · rw [hinFlight, hinFlight]
    exact h.inFlight y
  · unfold Pool.Stops
    rw [hinFlight, isFinished_of_view (hother t y hy)]
    exact h.untouched y hy
  · rw [hother s y hy, hother t y hy, h.begun y hy]
  · rw [view_markDone, view_markDone, Pool.view_failChildren_congr (h.same y hy)]

end Lags

namespace Loop

-- ---------------------------------------------------------------------------
-- The simulation
-- ---------------------------------------------------------------------------

/-- Some task has taken up the module and not finished its read. -/
def Owns (l : Loop) (x : ModuleId) : Prop :=
  ∃ job ∈ l.owners, job.moduleId = x

/-- The pool follows the loop: it has the same tasks, in any order and with all jobs put back into its queue; it keeps the
invariant of a run, with what the loop has built; and its session lags behind. -/
structure Follows (c : Codebase) (root : ModuleId) (s₀ : Session) (l : Loop) (p : Pool) : Prop where
  running : Pool.Running c root s₀ l.built p
  alike : Pool.Alike l.account p
  lags : Lags l.Owns p.session l.pool.session
  merged : Merged c .concurrent s₀ l.pool.session l.built

namespace Follows

variable {c : Codebase} {root : ModuleId} {s₀ : Session} {l l' : Loop} {p p' : Pool} {turn : Turn} {rest : List Turn}

theorem not_owns_of_built (h : Follows c root s₀ l p) {x : ModuleId} (hx : x ∈ l.built) :
    Pool.Stops p.session x ∧ ¬ l.Owns x := by
  have hstops : Pool.Stops p.session x := .inl ((h.running.covers.inFlight x).mpr (.inr hx))
  exact ⟨hstops, fun howned => h.lags.untouched x howned hstops⟩

/-- A step is matched by a turn of the pool, which may stand anywhere in the queue. -/
theorem turned (h : Follows c root s₀ l p) (hc : c.reader.remoteSchemes = c.resolver.config.remoteSchemes)
    (hperm : (turn :: rest).Perm l.account.queue) (hturn : Pool.Turned c { p with queue := rest } turn p')
    (hreads : p'.session.reads = s₀.reads ++ l'.built) (halike : Pool.Alike l'.account p')
    (hlags : Lags l'.Owns p'.session l'.pool.session) (hmerged : Merged c .concurrent s₀ l'.pool.session l'.built) :
    Follows c root s₀ l' p' ∧ Pool.measure c root s₀ p' < Pool.measure c root s₀ p := by
  have hqueue : (turn :: rest).Perm p.queue := hperm.trans h.alike.queue.symm
  have hrunning := h.running.perm hqueue
  obtain ⟨ids, hrunning'⟩ := Pool.running_turned hrunning rfl hturn
  have hids : l'.built = ids := List.append_cancel_left (hreads.symm.trans hrunning'.covers.merged.reads)
  refine ⟨⟨hids ▸ hrunning', halike, hlags, hmerged⟩, ?_⟩
  rw [← @Pool.measure_perm c root s₀ p _ hqueue]
  exact Pool.measure_turned hc hrunning rfl hturn

/-- A stutter: no turn of the pool is taken, and jobs only change their places. -/
theorem stutter (h : Follows c root s₀ l p) (hsuspended : l'.pool.suspended = l.pool.suspended)
    (hqueue : l'.account.queue.Perm l.account.queue) (hresult : l'.pool.result = l.pool.result)
    (hbuilt : l'.built = l.built) (hlags : Lags l'.Owns p.session l'.pool.session)
    (hmerged : Merged c .concurrent l.pool.session l'.pool.session []) : Follows c root s₀ l' p where
  running := hbuilt ▸ h.running
  alike := by
    have halike : Pool.Alike l'.account l.account := ⟨hsuspended.symm, hqueue.symm, hresult.symm⟩
    exact halike.trans h.alike
  lags := hlags
  merged := by
    have hboth := h.merged.trans hmerged
    rw [List.append_nil] at hboth
    rw [hbuilt]
    exact hboth

end Follows

/-- How often tasks can stutter before one of them makes the pool take a turn. -/
def pauses (l : Loop) : Nat :=
  2 * l.pool.queue.length + l.acquiring.length

section Steps

variable {c : Codebase} {root : ModuleId} {s₀ : Session} {l : Loop} {p : Pool}

/-- A task concludes its module, and the pool takes it up in one turn. -/
theorem follows_conclude {capacity : Nat} {w : World} (h : Follows c root s₀ l p) (howned : Owned capacity l)
    (hc : c.reader.remoteSchemes = c.resolver.config.remoteSchemes) (hworld : s₀.codebase w = c)
    {before after : List Job} {job : Job} (hreading : l.reading = before ++ job :: after) :
    ∃ p', Follows c root s₀
        { l with
          pool := l.pool.conclude w job.moduleId job.reportTo
          reading := before ++ after, permits := l.permits + 1, built := l.built ++ [job.moduleId] } p' ∧
      Pool.measure c root s₀ p' < Pool.measure c root s₀ p := by
  have howners := perm_owners_conclude hreading
  have howns : l.Owns job.moduleId := ⟨job, howners.mem_iff.mpr List.mem_cons_self, rfl⟩
  -- the loop reads and links in its session, the pool takes up, reads and links in the one that lags behind
  have hloop : l.pool.session.codebase w = c := (h.merged.codebase w).trans hworld
  have hpool : p.session.codebase w = c := (h.running.covers.merged.codebase w).trans hworld
  obtain ⟨s, hbuilt, heq⟩ := Pool.conclude_built hloop job.moduleId job.reportTo
  obtain ⟨rest, hrest⟩ : ∃ rest,
      rest = l.pool.queue ++ (l.awaiting ++ l.acquiring ++ (before ++ after)).map Job.turn := ⟨_, rfl⟩
  obtain ⟨t, hcaught, heq'⟩ := @Pool.conclude_built c w
    { p with queue := rest, session := Pool.begin p.session job.moduleId } hpool job.moduleId job.reportTo
  have hturn := @Pool.takeUp_turned c w { p with queue := rest } hpool job.moduleId (h.lags.untouched _ howns) job.reportTo
  rw [Pool.takeUp_eq_conclude, heq'] at hturn
  have hperm : (job.turn :: rest).Perm l.account.queue := hrest ▸ (perm_turns (perm_jobs_conclude hreading) _).symm
  refine ⟨_, h.turned hc hperm hturn ?_ ?_ ?_ ?_⟩
  · rw [Pool.session_proceed]
    have hreads := (h.running.covers.merged.trans hcaught.takenUp.1.merged).reads
    exact hreads
  · have hqueues : Pool.Alike ({ l.pool with session := s }.withTurns
        ((l.awaiting ++ l.acquiring ++ (before ++ after)).map Job.turn)) { p with queue := rest, session := t } :=
      ⟨h.alike.suspended, hrest ▸ .refl _, h.alike.result⟩
    show Pool.Alike ((l.pool.conclude w job.moduleId job.reportTo).withTurns _) _
    rw [heq]
    exact (Pool.alike_proceed_withTurns { l.pool with session := s } ..).symm.trans (hqueues.proceed ..)
  · rw [heq, Pool.session_proceed, Pool.session_proceed]
    refine h.lags.conclude howns hbuilt hcaught fun y => ?_
    -- the other owners are for other modules
    constructor
    · rintro ⟨other, hother, rfl⟩
      exact ⟨⟨other, howners.mem_iff.mpr (List.mem_cons_of_mem _ hother), rfl⟩, howned.ne_of_reading hreading hother⟩
    · rintro ⟨⟨other, hother, rfl⟩, hne⟩
      refine ⟨other, (List.mem_cons.mp (howners.mem_iff.mp hother)).resolve_left fun heq => ?_, rfl⟩
      exact hne (heq ▸ rfl)
  · rw [heq, Pool.session_proceed]
    exact h.merged.trans hbuilt.merged

/-- A task resumes in the loop and in the pool. -/
theorem follows_resume (h : Follows c root s₀ l p) (hc : c.reader.remoteSchemes = c.resolver.config.remoteSchemes)
    {before after : List Turn} {i : Nat} (hqueue : l.pool.queue = before ++ .resume i :: after) :
    ∃ p', Follows c root s₀ { l with pool := { l.pool with queue := before ++ after }.resumeTask i } p' ∧
      Pool.measure c root s₀ p' < Pool.measure c root s₀ p := by
  have hperm := perm_account hqueue
  have hrunning := h.running.perm (hperm.trans h.alike.queue.symm)
  obtain ⟨task, htask⟩ := hrunning.exists_suspended rfl
  have hsame : l.pool.suspended[i]? = some task := by
    rw [← htask]
    exact congrArg (·[i]?) h.alike.suspended.symm
  -- what the task settles was read, so that nobody owns it
  have hsound := h.running.wired.tasks i task htask
  have hown := (h.not_owns_of_built hsound.read).2
  have hchildren : ∀ y fault, (y, some fault) ∈ task.children → ¬ l.Owns y :=
    fun y fault hmem => (h.not_owns_of_built (hsound.faults y fault hmem).1).2
  have hmerged : ∀ r : Session, Merged c .concurrent r
      ((Pool.failChildren r task.children).markDone task.moduleId) [] :=
    fun r => (Pool.merged_failChildren _ r).trans (merged_markDone _ _)
  refine ⟨_, h.turned hc hperm (.resumed i) ?_ ?_ ?_ ?_⟩
  · rw [@Pool.resumeTask_eq { p with queue := before ++ after ++ l.jobs.map Job.turn } i task htask,
      Pool.session_finishTask]
    have hreads := (h.running.covers.merged.trans (hmerged p.session)).reads
    rw [List.append_nil] at hreads
    exact hreads
  · have hqueues : Pool.Alike ({ l.pool with queue := before ++ after }.withTurns (l.jobs.map Job.turn))
        { p with queue := before ++ after ++ l.jobs.map Job.turn } := ⟨h.alike.suspended, .refl _, h.alike.result⟩
    exact (Pool.alike_resumeTask_withTurns { l.pool with queue := before ++ after } ..).symm.trans (hqueues.resumeTask i)
  · rw [@Pool.resumeTask_eq { p with queue := before ++ after ++ l.jobs.map Job.turn } i task htask,
      @Pool.resumeTask_eq { l.pool with queue := before ++ after } i task hsame, Pool.session_finishTask,
      Pool.session_finishTask]
    exact h.lags.settle hown hchildren
  · rw [@Pool.resumeTask_eq { l.pool with queue := before ++ after } i task hsame, Pool.session_finishTask]
    have hboth := h.merged.trans (hmerged l.pool.session)
    rw [List.append_nil] at hboth
    exact hboth

/-- A task ends whose module another one has built or finished: it is passed over in the pool. -/
theorem follows_passOver (h : Follows c root s₀ l p) (hc : c.reader.remoteSchemes = c.resolver.config.remoteSchemes)
    {x : ModuleId} {reportTo : ReportTo} {queue : List Turn} {awaiting : List Job}
    (hperm : (.start x reportTo :: (queue ++ (awaiting ++ l.acquiring ++ l.reading).map Job.turn)).Perm l.account.queue)
    (hstop : Pool.Stops p.session x) (howned : ¬ l.Owns x) :
    ∃ p', Follows c root s₀
        { l with
          pool := { l.pool with queue }.finishTask (.ok (l.pool.session.directBlocking x)) reportTo
          awaiting } p' ∧
      Pool.measure c root s₀ p' < Pool.measure c root s₀ p := by
  have hnames : p.session.directBlocking x = l.pool.session.directBlocking x := by
    rw [directBlocking_eq, directBlocking_eq, h.lags.same x howned]
  have hturn := @Pool.Turned.passedOver c
    { p with queue := queue ++ (awaiting ++ l.acquiring ++ l.reading).map Job.turn } x reportTo hstop
  refine ⟨_, h.turned hc hperm hturn ?_ ?_ ?_ ?_⟩
  · rw [Pool.session_finishTask]
    exact h.running.covers.merged.reads
  · have hqueues : Pool.Alike ({ l.pool with queue }.withTurns ((awaiting ++ l.acquiring ++ l.reading).map Job.turn))
        { p with queue := queue ++ (awaiting ++ l.acquiring ++ l.reading).map Job.turn } :=
      ⟨h.alike.suspended, .refl _, h.alike.result⟩
    show Pool.Alike (Pool.withTurns _ _) (Pool.finishTask _ (.ok (p.session.directBlocking x)) reportTo)
    rw [hnames]
    exact (Pool.alike_finishTask_withTurns { l.pool with queue } ..).symm.trans (hqueues.finishTask ..)
  · rw [Pool.session_finishTask, Pool.session_finishTask]
    exact h.lags
  · rw [Pool.session_finishTask]
    exact h.merged

/-- **The simulation**: a step of the loop is a turn of the pool, which makes the measure smaller, or a stutter, which makes
the rank smaller. -/
theorem follows_step {capacity : Nat} {w : World} {l' : Loop} (h : Follows c root s₀ l p) (howned : Owned capacity l)
    (hc : c.reader.remoteSchemes = c.resolver.config.remoteSchemes) (hworld : s₀.codebase w = c) (hstep : l.StepIn w l') :
    (∃ p', Follows c root s₀ l' p' ∧ Pool.measure c root s₀ p' < Pool.measure c root s₀ p) ∨
      Follows c root s₀ l' p ∧ l'.pauses < l.pauses := by
  have hlength : ∀ {before after : List Turn} {turn : Turn}, l.pool.queue = before ++ turn :: after →
      l.pool.queue.length = (before ++ after).length + 1 := by
    intro before after turn hqueue
    rw [hqueue, List.perm_middle.length_eq, List.length_cons]
  cases hstep with
  | conclude underWay => exact .inl (follows_conclude h howned hc hworld underWay)
  | other step unread =>
    cases step with
    | @await before after x reportTo queued taken =>
      -- a stutter: the task only changes its place
      have hjobs := perm_turns (perm_jobs_await l ⟨x, reportTo⟩) (before ++ after)
      refine .inr ⟨h.stutter rfl (hjobs.trans (perm_account queued)) rfl rfl h.lags (.refl _), ?_⟩
      have hless := hlength queued
      show 2 * (before ++ after).length + l.acquiring.length < 2 * l.pool.queue.length + l.acquiring.length
      omega
    | @passOver before after x reportTo queued free finished =>
      -- a turn: the module was finished before, in both sessions
      obtain ⟨hunowned, hstops⟩ := h.lags.stops_iff_of_free free
      exact .inl (follows_passOver h hc (perm_account queued) (hstops.mpr finished) hunowned)
    | @takeUp before after x reportTo queued free unfinished =>
      -- a stutter: the module is owned from now on, and the lagging session does not know it
      have hjobs := perm_turns (perm_jobs_takeUp l ⟨x, reportTo⟩) (before ++ after)
      have howners := perm_owners_takeUp l ⟨x, reportTo⟩
      refine .inr ⟨h.stutter rfl (hjobs.trans (perm_account queued)) rfl rfl ?_ (Pool.merged_begin x), ?_⟩
      · refine h.lags.takeUp free unfinished fun y => ?_
        constructor
        · rintro ⟨job, hjob, rfl⟩
          rcases List.mem_cons.mp (howners.mem_iff.mp hjob) with rfl | hold
          · exact .inr rfl
          · exact .inl ⟨job, hold, rfl⟩
        · rintro (⟨job, hold, rfl⟩ | rfl)
          · exact ⟨job, howners.mem_iff.mpr (List.mem_cons_of_mem _ hold), rfl⟩
          · exact ⟨_, howners.mem_iff.mpr List.mem_cons_self, rfl⟩
      · have hless := hlength queued
        have hmore : (l.acquiring ++ [Job.mk x reportTo]).length = l.acquiring.length + 1 := List.length_append
        show 2 * (before ++ after).length + (l.acquiring ++ [_]).length < 2 * l.pool.queue.length + l.acquiring.length
        omega
    | @acquire before after job waiting permit =>
      -- a stutter: an owner gets its permit and remains an owner
      have hjobs := ((perm_jobs_acquire waiting).map Job.turn).append_left l.pool.queue
      refine .inr ⟨h.stutter rfl hjobs rfl rfl ?_ (.refl _), ?_⟩
      · exact h.lags.congr fun y => exists_congr fun other => and_congr_left' (perm_owners_acquire waiting).mem_iff
      · show 2 * l.pool.queue.length + (before ++ after).length < 2 * l.pool.queue.length + l.acquiring.length
        rw [waiting, List.perm_middle.length_eq, List.length_cons]
        omega
    | conclude _ underWay => exact absurd unread (by simp)
    | @wake before after job waiting ready =>
      -- a turn: the module that was awaited is built, and the pool passes it over
      obtain ⟨hstops, hunowned⟩ := h.not_owns_of_built ready
      have hjobs := perm_turns (perm_jobs_wake waiting) l.pool.queue
      exact .inl (follows_passOver h hc hjobs.symm hstops hunowned)
    | @report before after parent queued =>
      -- a turn, which leaves both sessions as they are
      refine .inl ⟨_, h.turned hc (perm_account queued) (.reported parent) ?_ ?_ ?_ ?_⟩
      · rw [Pool.session_report]
        exact h.running.covers.merged.reads
      · have hqueues : Pool.Alike ({ l.pool with queue := before ++ after }.withTurns (l.jobs.map Job.turn))
            { p with queue := before ++ after ++ l.jobs.map Job.turn } := ⟨h.alike.suspended, .refl _, h.alike.result⟩
        exact (Pool.alike_report_withTurns { l.pool with queue := before ++ after } ..).symm.trans (hqueues.report parent)
      · rw [Pool.session_report, Pool.session_report]
        exact h.lags
      · rw [Pool.session_report]
        exact h.merged
    | resume queued => exact .inl (follows_resume h hc queued)

end Steps

-- ---------------------------------------------------------------------------
-- Schedules
-- ---------------------------------------------------------------------------

section Schedules

variable {s : Session} {w : World} {root : ModuleId} {capacity : Nat} {l : Loop} {p : Pool}

/-- In the beginning the loop and the pool have the same single task, and the same session. -/
theorem follows_initial (s : Session) (w : World) (root : ModuleId) (capacity : Nat) :
    Follows (s.codebase w) root s (initial s root capacity) { session := s, queue := [.start root none] } where
  running := Pool.running_initial (s.codebase w) s root
  alike := ⟨rfl, .refl _, rfl⟩
  lags := .refl s (by rintro x ⟨job, hjob, _⟩; cases hjob)
  merged := .refl s

/-- No schedule is infinite. By induction on the measure of the pool that follows, and for the stutters on the rank. -/
theorem acc_of_follows (hc : s.reader.remoteSchemes = s.resolver.config.remoteSchemes)
    (h : Follows (s.codebase w) root s l p) (howned : Owned capacity l) :
    Acc (fun next l : Loop => l.StepIn w next) l := by
  induction hmeasure : Pool.measure (s.codebase w) root s p using Nat.strongRecOn generalizing l p with
  | ind m ihMeasure =>
    induction hpauses : l.pauses using Nat.strongRecOn generalizing l with
    | ind k ihPauses =>
      refine ⟨l, fun l' hstep => ?_⟩
      have howned' := owned_step howned hstep.step
      rcases follows_step h howned hc rfl hstep with ⟨p', hfollows, hless⟩ | ⟨hfollows, hless⟩
      · exact ihMeasure _ (hmeasure ▸ hless) hfollows howned' rfl
      · exact ihPauses _ (hpauses ▸ hless) hfollows howned' rfl

/-- Every state that a schedule reaches is followed by a pool. -/
theorem exists_follows (hs : s.inFlight = []) (hc : s.reader.remoteSchemes = s.resolver.config.remoteSchemes)
    (h : (initial s root capacity).ReachesIn w l) : ∃ p, Follows (s.codebase w) root s l p := by
  induction h with
  | refl => exact ⟨_, follows_initial s w root capacity⟩
  | tail hbefore hstep ih =>
    obtain ⟨p, hp⟩ := ih
    have howned := (reaches_induction hs (ReachesIn.reaches hbefore)).2
    rcases follows_step hp howned hc rfl hstep with ⟨p', hfollows, _⟩ | ⟨hfollows, _⟩
    · exact ⟨p', hfollows⟩
    · exact ⟨p, hfollows⟩

/-- If the caller has its result the analysis has ended: no task is left, so nothing is owned and the pool has caught up. -/
theorem Follows.ended {c : Codebase} {s₀ : Session} (h : Follows c root s₀ l p) {result : Except Fault (List Name)}
    (hresult : l.pool.result = some result) : Ended c root s₀ l.pool.session result l.built := by
  have hsome : p.result = some result := h.alike.result.trans hresult
  have hqueue : p.queue = [] := by
    have hbalanced := h.running.balanced
    unfold Pool.IsBalanced at hbalanced
    rw [hsome] at hbalanced
    exact hbalanced.queue_eq_nil
  have hnone : ∀ x, ¬ l.Owns x := by
    rintro x ⟨job, hjob, _⟩
    have hmem : job ∈ l.jobs := by
      rw [jobs, List.append_assoc]
      exact List.mem_append_right _ hjob
    have hturn : job.turn ∈ p.queue :=
      h.alike.queue.mem_iff.mpr (List.mem_append_right _ (List.mem_map_of_mem hmem))
    rw [hqueue] at hturn
    cases hturn
  have hview : ∀ x, l.pool.session.view x = p.session.view x := fun x => h.lags.same x (hnone x)
  obtain ⟨other, hother, hended⟩ := h.running.ended hqueue
  rw [hsome] at hother
  cases hother
  refine ⟨h.merged, hended.nodup, fun x => ?_, hended.mem_iff, fun x hx => ?_, fun x hx => ?_, hended.error_iff⟩
  · rw [h.lags.inFlight, ← hended.inFlight]
    exact ⟨fun hx => hx.resolve_left (hnone x), .inr⟩
  · rw [hview]
    exact hended.inside x hx
  · rw [hview]
    exact hended.outside x hx

end Schedules

end Loop

/-- **Every schedule ends**: a concurrent analysis in a fixed world, with room for at least one read, takes a finite number
of steps, in whatever order its tasks take them. As long as the caller has no result some task can take a step; and once it
has, the session is as `Ended` states, where the modules that were built are those that were read. -/
theorem schedules_end (s : Session) (w : World) (root : ModuleId) (hs : s.inFlight = [])
    (hschemes : s.reader.remoteSchemes = s.resolver.config.remoteSchemes) (hcapacity : 1 ≤ s.config.maxConcurrency) :
    Acc (fun next l : Loop => l.StepIn w next) (Loop.initial s root s.config.maxConcurrency.toNat) ∧
      ∀ l, (Loop.initial s root s.config.maxConcurrency.toNat).ReachesIn w l →
        (l.pool.result = none → ∃ l', l.StepIn w l') ∧
        ∀ result, l.pool.result = some result → Ended (s.codebase w) root s l.pool.session result l.built := by
  have hpermits : 0 < s.config.maxConcurrency.toNat := by omega
  refine ⟨Loop.acc_of_follows hschemes (Loop.follows_initial s w root _) (Loop.owned_initial hs root _), ?_⟩
  intro l hreaches
  obtain ⟨horderly, howned⟩ := Loop.reaches_induction hs hreaches.reaches
  refine ⟨fun hnone => ?_, fun result hresult => ?_⟩
  · obtain ⟨l', hstep⟩ := Loop.can_step horderly howned hpermits hnone
    exact Loop.exists_stepIn hstep w
  · obtain ⟨p, hfollows⟩ := Loop.exists_follows hs hschemes hreaches
    exact hfollows.ended hresult

/-- **All schedules agree**: where a depth-first analysis of a new session returns a snapshot, every schedule of a concurrent
one that has its result has returned too. It leaves a complete session, whose snapshot agrees with that of the depth-first
analysis, and has read the same modules, each of them once. -/
theorem schedules_agree (config : Config) (deno : String) (s : Session) (hs : start config deno = .ok s)
    (w : World) (path : String) (s₁ : Session) (snap₁ : Snapshot) (h : s.analyze w path = (s₁, .ok snap₁))
    (entry : LogEntry) (permits : Nat) (l : Loop)
    (hreaches : (Loop.initial ({ s with root := some (s.resolver.rootModule w.current path) }.note entry)
      (s.resolver.rootModule w.current path) permits).ReachesIn w l)
    (result : Except Fault (List Name)) (hresult : l.pool.result = some result) :
    ∃ names, result = .ok names ∧
      Complete (s.codebase w) .concurrent (s.resolver.rootModule w.current path) l.pool.session ∧
      snap₁.Agrees { l.pool.session with inFlight := [] }.finish.snapshot ∧
      l.pool.session.reads.Nodup ∧ ∀ x, x ∈ s₁.reads ↔ x ∈ l.pool.session.reads := by
  obtain ⟨hconfig, hreader⟩ := config_start hs
  have hschemes : s.reader.remoteSchemes = s.resolver.config.remoteSchemes := by rw [hconfig, hreader]
  obtain ⟨entry₁, t, names₁, hmodule, rfl, rfl⟩ := analyze_ok h
  have hfresh := fresh_start hs
  obtain ⟨hcomplete₁, hroot₁⟩ := analyzeModule_complete (hfresh.noteRoot _ entry₁) hmodule
  have hfresh₂ := hfresh.noteRoot (s.resolver.rootModule w.current path) entry
  obtain ⟨p, hfollows⟩ := Loop.exists_follows hfresh₂.inFlight hschemes hreaches
  have hended := hfollows.ended hresult
  -- all imports of reachable modules can be resolved, or the depth-first analysis would not have returned
  obtain ⟨names, rfl, hcomplete⟩ := hended.complete hfresh₂ hcomplete₁.resolved
  have hsame : Complete (s.codebase w) .concurrent (s.resolver.rootModule w.current path) l.pool.session := hcomplete
  refine ⟨names, rfl, hsame, ?_, hsame.nodup, fun x => (hcomplete₁.reads x).trans (hsame.reads x).symm⟩
  have hagrees := hcomplete₁.snapshot_agrees hsame (hroot₁.trans hended.merged.root.symm)
  exact hagrees

end BlockingCalls.Session
