import BlockingCalls.Proofs.Session.Interleaving
import Mathlib.Data.List.Basic

/-!
# Nobody waits in a circle

However the tasks of a concurrent analysis are interleaved, a module that was taken up has one owner, the task that has
taken it up, until it is built. While it is not built its owner waits for a permit or for the read and for nothing else.
A task can wait in three ways: for the owner of its module, for a permit that another one holds, and for its children.
The first two lead to owners only, and the third to tasks that were started later. So the wait-for relation is acyclic,
whatever the imports are, and there is no deadlock: unless the caller has its result, some task can take a step.

## Results

* `owned_step`           — a step preserves unique ownership.
* `idxOf_lt_of_waitsFor` — the wait-for relation is contained in a linear order of the tasks.
* `can_step`             — progress: a loop without a result can take a step.
* `interleavings_safe`   — all of it, in every reachable state.
-/

namespace BlockingCalls

namespace Session

open Relation (TransGen)

namespace Loop

-- ---------------------------------------------------------------------------
-- Owners
-- ---------------------------------------------------------------------------

/-- The tasks that own a module which is not built: they wait for a permit to read it, or read it. -/
def owners (l : Loop) : List Job :=
  l.acquiring ++ l.reading

/-- The modules that were taken up: those that are built, and those that are owned. -/
def claimed (l : Loop) : List ModuleId :=
  l.built ++ l.owners.map (·.moduleId)

section Places

variable {l : Loop} {before after : List Job} {job : Job}

/-! The owners before and after each step that moves one of them. -/

theorem perm_owners_takeUp (l : Loop) (job : Job) : (l.acquiring ++ [job] ++ l.reading).Perm (job :: l.owners) := by
  rw [owners, List.append_assoc]
  exact List.perm_middle

theorem perm_owners_acquire (h : l.acquiring = before ++ job :: after) :
    (before ++ after ++ (l.reading ++ [job])).Perm l.owners := by
  rw [owners, h, ← List.append_assoc]
  exact (List.perm_append_singleton ..).trans (List.perm_middle.append_right _).symm

theorem perm_owners_conclude (h : l.reading = before ++ job :: after) :
    l.owners.Perm (job :: (l.acquiring ++ (before ++ after))) := by
  rw [owners, h]
  exact (List.perm_middle.append_left _).trans List.perm_middle

end Places

/-- What is in flight was taken up by one task; what was read or is being read was started once; permits are neither lost
nor made up; and a task waits only for a module that is in flight. -/
structure Owned (capacity : Nat) (l : Loop) : Prop where
  nodup : l.claimed.Nodup
  inFlight : ∀ x, x ∈ l.pool.session.inFlight ↔ x ∈ l.claimed
  started : l.started.Perm (l.built ++ l.reading.map (·.moduleId))
  permits : l.permits + l.reading.length = capacity
  awaited : ∀ job ∈ l.awaiting, job.moduleId ∈ l.pool.session.inFlight

/-- A loop that begins with nothing in flight owns nothing. -/
theorem owned_initial {s : Session} (hs : s.inFlight = []) (root : ModuleId) (capacity : Nat) :
    Owned capacity (initial s root capacity) where
  nodup := List.nodup_nil
  inFlight x := by
    show x ∈ s.inFlight ↔ x ∈ []
    rw [hs]
  started := .refl _
  permits := rfl
  awaited _ hjob := by cases hjob

variable {capacity : Nat} {l l' : Loop}

/-- A step that leaves the reads alone, and takes up nothing, keeps the owners. -/
theorem Owned.of_eq (h : Owned capacity l) (hinFlight : l'.pool.session.inFlight = l.pool.session.inFlight)
    (hacquiring : l'.acquiring = l.acquiring) (hreading : l'.reading = l.reading) (hpermits : l'.permits = l.permits)
    (hstarted : l'.started = l.started) (hbuilt : l'.built = l.built)
    (hawaited : ∀ job ∈ l'.awaiting, job.moduleId ∈ l.pool.session.inFlight) : Owned capacity l' := by
  have hclaimed : l'.claimed = l.claimed := by rw [claimed, claimed, owners, owners, hacquiring, hreading, hbuilt]
  refine ⟨hclaimed ▸ h.nodup, ?_, ?_, ?_, ?_⟩
  · intro x
    rw [hinFlight, hclaimed]
    exact h.inFlight x
  · rw [hstarted, hbuilt, hreading]
    exact h.started
  · rw [hpermits, hreading]
    exact h.permits
  · rw [hinFlight]
    exact hawaited

/-- A step preserves unique ownership. By cases on the step. -/
theorem owned_step (h : Owned capacity l) (hstep : l.Step l') : Owned capacity l' := by
  cases hstep with
  | @await before after x reportTo queued taken =>
    -- a job joins those that await their module, which is in flight
    refine h.of_eq rfl rfl rfl rfl rfl rfl fun job hjob => ?_
    rcases List.mem_append.mp hjob with hjob | hjob
    · exact h.awaited job hjob
    · rw [List.mem_singleton.mp hjob]
      exact taken
  | passOver queued free finished =>
    exact h.of_eq (congrArg inFlight (Pool.session_finishTask ..)) rfl rfl rfl rfl rfl h.awaited
  | @takeUp before after x reportTo queued free unfinished =>
    -- the module is new among those that were taken up
    have hclaimed : (l.built ++ (l.acquiring ++ [Job.mk x reportTo] ++ l.reading).map (·.moduleId)).Perm
        (x :: l.claimed) :=
      (((perm_owners_takeUp l ⟨x, reportTo⟩).map _).append_left l.built).trans List.perm_middle
    have hmem : ∀ y, y ∈ l.pool.session.inFlight.insert x ↔ y ∈ x :: l.claimed := by
      intro y
      rw [List.mem_insert_iff, List.mem_cons, h.inFlight]
    refine ⟨hclaimed.nodup_iff.mpr (List.nodup_cons.mpr ⟨fun hx => free ((h.inFlight x).mpr hx), h.nodup⟩), ?_,
      h.started, h.permits, ?_⟩
    · exact fun y => (hmem y).trans hclaimed.mem_iff.symm
    · exact fun job hjob => List.mem_insert_of_mem (h.awaited job hjob)
  | @acquire before after job waiting permit =>
    -- the owners are permuted, and a permit is used
    have hclaimed := ((perm_owners_acquire waiting).map (·.moduleId)).append_left l.built
    refine ⟨hclaimed.nodup_iff.mpr h.nodup, fun x => (h.inFlight x).trans hclaimed.mem_iff.symm, ?_, ?_, h.awaited⟩
    · show (l.started ++ [job.moduleId]).Perm (l.built ++ (l.reading ++ [job]).map _)
      rw [List.map_append, ← List.append_assoc]
      exact h.started.append_right _
    · have hpermits := h.permits
      show l.permits - 1 + (l.reading ++ [job]).length = capacity
      rw [List.length_append, List.length_singleton]
      omega
  | @conclude w before after job underWay =>
    -- the module moves from the owned to the built ones, and the permit is returned
    have hbuilt : ∀ jobs : List Job, (l.built ++ [job.moduleId] ++ (jobs ++ (before ++ after)).map (·.moduleId)).Perm
        (l.built ++ (jobs ++ l.reading).map (·.moduleId)) := by
      intro jobs
      rw [underWay, List.append_assoc]
      have hperm : (jobs ++ (before ++ job :: after)).Perm (job :: (jobs ++ (before ++ after))) :=
        (List.perm_middle.append_left jobs).trans List.perm_middle
      exact ((hperm.map (·.moduleId)).append_left l.built).symm
    have hclaimed := hbuilt l.acquiring
    refine ⟨hclaimed.nodup_iff.mpr h.nodup, ?_, h.started.trans (hbuilt []).symm, ?_, ?_⟩
    · intro x
      show x ∈ (l.pool.conclude w job.moduleId job.reportTo).session.inFlight ↔ _
      rw [Pool.inFlight_conclude]
      exact (h.inFlight x).trans hclaimed.mem_iff.symm
    · have hpermits := h.permits
      rw [underWay, List.length_append, List.length_cons] at hpermits
      show l.permits + 1 + (before ++ after).length = capacity
      rw [List.length_append]
      omega
    · intro other hother
      show other.moduleId ∈ (l.pool.conclude w job.moduleId job.reportTo).session.inFlight
      rw [Pool.inFlight_conclude]
      exact h.awaited other hother
  | @wake before after job waiting ready =>
    -- a job leaves those that await their module
    refine h.of_eq (congrArg inFlight (Pool.session_finishTask ..)) rfl rfl rfl rfl rfl fun other hother => ?_
    refine h.awaited other ?_
    rw [waiting]
    exact List.mem_append.mpr ((List.mem_append.mp hother).imp id (List.mem_cons_of_mem _))
  | report queued => exact h.of_eq (congrArg inFlight (Pool.session_report ..)) rfl rfl rfl rfl rfl h.awaited
  | resume queued => exact h.of_eq (Pool.inFlight_resumeTask ..) rfl rfl rfl rfl rfl h.awaited

/-- The module of a task that waits for it is built, or the task waits for its owner. -/
theorem Owned.built_or_owned (h : Owned capacity l) {x : ModuleId} (hx : x ∈ l.pool.session.inFlight) :
    x ∈ l.built ∨ ∃ owner ∈ l.owners, owner.moduleId = x := by
  rcases List.mem_append.mp ((h.inFlight x).mp hx) with hbuilt | howned
  · exact .inl hbuilt
  · exact .inr (List.mem_map.mp howned)

theorem Owned.owner_unique (h : Owned capacity l) {a b : Job} (ha : a ∈ l.owners) (hb : b ∈ l.owners)
    (heq : a.moduleId = b.moduleId) : a = b :=
  List.inj_on_of_nodup_map (List.nodup_append.mp h.nodup).2.1 ha hb heq

/-- The other owners than a task that reads are for other modules. -/
theorem Owned.ne_of_reading (h : Owned capacity l) {before after : List Job} {job other : Job}
    (hreading : l.reading = before ++ job :: after) (hother : other ∈ l.acquiring ++ (before ++ after)) :
    other.moduleId ≠ job.moduleId := by
  have hnodup := ((perm_owners_conclude hreading).map (·.moduleId)).nodup_iff.mp (List.nodup_append.mp h.nodup).2.1
  exact fun heq => (List.nodup_cons.mp hnodup).1 (List.mem_map.mpr ⟨other, hother, heq⟩)

theorem Owned.not_built_of_owned (h : Owned capacity l) {owner : Job} (howner : owner ∈ l.owners) :
    owner.moduleId ∉ l.built :=
  fun hbuilt => (List.nodup_append.mp h.nodup).2.2 _ hbuilt _ (List.mem_map_of_mem howner) rfl

-- ---------------------------------------------------------------------------
-- Waiting
-- ---------------------------------------------------------------------------

/-- One task waits for another; tasks are known by where they report to. -/
inductive WaitsFor (l : Loop) : ReportTo → ReportTo → Prop
  /-- It waits for the owner of its module to build it. -/
  | owner {job owner : Job} (awaits : job ∈ l.awaiting) (owns : owner ∈ l.owners)
      (same : owner.moduleId = job.moduleId) : WaitsFor l job.reportTo owner.reportTo
  /-- It waits for a permit that the other one holds. -/
  | permit {job holder : Job} (waits : job ∈ l.acquiring) (holds : holder ∈ l.reading) :
      WaitsFor l job.reportTo holder.reportTo
  /-- It has started the other one and waits for the end of it. -/
  | child {i place : Nat} {task : Suspended} (waits : l.pool.suspended[i]? = some task) (missing : 0 < task.missing)
      (started : some (i, place) ∈ l.account.tasks) : WaitsFor l task.reportTo (some (i, place))

/-- All tasks: those that have started others in the order in which they did, those in the queue, and the jobs. -/
theorem tasks_account (l : Loop) : l.account.tasks =
    l.pool.suspended.map (·.reportTo) ++ l.pool.queue.filterMap Pool.startedTask? ++
      l.awaiting.map (·.reportTo) ++ l.acquiring.map (·.reportTo) ++ l.reading.map (·.reportTo) := by
  have hjobs : (l.jobs.map Job.turn).filterMap Pool.startedTask? = l.jobs.map (·.reportTo) := by
    rw [List.filterMap_map]
    exact congrFun List.filterMap_eq_map l.jobs
  show _ ++ (l.pool.queue ++ l.jobs.map Job.turn).filterMap _ = _
  rw [List.filterMap_append, hjobs, jobs, List.map_append, List.map_append]
  simp only [List.append_assoc]
  rfl

/-- In a list without repetitions what stands in the front part has a smaller index. -/
theorem idxOf_lt_idxOf {α : Type} [BEq α] [LawfulBEq α] {front back : List α} (h : (front ++ back).Nodup) {a b : α}
    (ha : a ∈ front) (hb : b ∈ back) : (front ++ back).idxOf a < (front ++ back).idxOf b := by
  have hb' : b ∉ front := fun hmem => (List.nodup_append.mp h).2.2 b hmem b hb rfl
  rw [List.idxOf_append_of_mem ha, List.idxOf_append_of_notMem hb']
  have hlt := List.idxOf_lt_length_of_mem ha
  omega

/-- In a list without repetitions the index of an element of the front part is its position there. -/
theorem idxOf_of_getElem?_front {α : Type} [BEq α] [LawfulBEq α] {front back : List α} (h : (front ++ back).Nodup)
    {i : Nat} {a : α} (hi : front[i]? = some a) : (front ++ back).idxOf a = i := by
  obtain ⟨hlt, rfl⟩ := List.getElem?_eq_some_iff.mp hi
  rw [List.idxOf_append_of_mem (List.getElem_mem hlt)]
  exact (List.nodup_append.mp h).1.idxOf_getElem i hlt

/-- A task waits only for tasks with a larger index in the list of all tasks: suspended tasks come first, then queued
ones, then those that await a module, those that wait for a permit, and those that read. -/
theorem idxOf_lt_of_waitsFor (h : l.account.Orderly) {a b : ReportTo} (hwaits : l.WaitsFor a b) :
    l.account.tasks.idxOf a < l.account.tasks.idxOf b := by
  have hnodup := h.tasks
  cases hwaits with
  | @owner job owner awaits owns same =>
    have hjob : job.reportTo ∈ l.pool.suspended.map (·.reportTo) ++ l.pool.queue.filterMap Pool.startedTask? ++
        l.awaiting.map (·.reportTo) := List.mem_append_right _ (List.mem_map_of_mem awaits)
    have howner : owner.reportTo ∈ l.acquiring.map (·.reportTo) ++ l.reading.map (·.reportTo) := by
      rw [← List.map_append]
      exact List.mem_map_of_mem owns
    rw [tasks_account, List.append_assoc _ (l.acquiring.map _)] at hnodup ⊢
    exact idxOf_lt_idxOf hnodup hjob howner
  | permit waits holds =>
    rw [tasks_account] at hnodup ⊢
    exact idxOf_lt_idxOf hnodup (List.mem_append_right _ (List.mem_map_of_mem waits)) (List.mem_map_of_mem holds)
  | @child i place task waits missing started =>
    have hmem : task.reportTo ∈ l.pool.suspended.map (·.reportTo) := List.mem_map_of_mem (List.mem_of_getElem? waits)
    rcases List.mem_append.mp started with hchild | hchild
    · -- the child has started others itself, after it was started
      obtain ⟨k, hk⟩ := List.mem_iff_getElem?.mp hchild
      have hplace := hk
      rw [List.getElem?_map] at hplace
      obtain ⟨other, hother, hreport⟩ := Option.map_eq_some_iff.mp hplace
      have hslot : l.account.slots[k]? = some (Pool.slot other) := by rw [Pool.getElem?_slots, hother]; rfl
      have hlater : i < k := h.balanced.older k _ hslot i (by rw [Pool.slot, hreport]; rfl)
      have hi : (l.account.suspended.map (·.reportTo))[i]? = some task.reportTo := by
        rw [List.getElem?_map]
        exact congrArg (Option.map _) waits
      have hparent : l.account.tasks.idxOf task.reportTo = i := idxOf_of_getElem?_front hnodup hi
      have hself : l.account.tasks.idxOf (some (i, place)) = k := idxOf_of_getElem?_front hnodup hk
      omega
    · exact idxOf_lt_idxOf hnodup hmem hchild

/-- The wait-for relation has no cycle: along a chain the index grows. By induction on the chain. -/
theorem not_waitsFor_self (h : l.account.Orderly) (task : ReportTo) : ¬ TransGen l.WaitsFor task task := by
  have hlt : ∀ {a b : ReportTo}, TransGen l.WaitsFor a b → l.account.tasks.idxOf a < l.account.tasks.idxOf b := by
    intro a b hchain
    induction hchain with
    | single hwaits => exact idxOf_lt_of_waitsFor h hwaits
    | tail _ hwaits ih => exact Nat.lt_trans ih (idxOf_lt_of_waitsFor h hwaits)
  exact fun hcycle => Nat.lt_irrefl _ (hlt hcycle)

-- ---------------------------------------------------------------------------
-- Going on
-- ---------------------------------------------------------------------------

/-- A turn of the queue can be taken, whatever it is. -/
theorem step_of_queued {before after : List Turn} {turn : Turn} (hqueue : l.pool.queue = before ++ turn :: after) :
    ∃ l', l.Step l' := by
  cases turn with
  | start x reportTo =>
    by_cases htaken : x ∈ l.pool.session.inFlight
    · exact ⟨_, .await hqueue htaken⟩
    · cases hfinished : l.pool.session.isFinished x with
      | true => exact ⟨_, .passOver hqueue htaken hfinished⟩
      | false => exact ⟨_, .takeUp hqueue htaken hfinished⟩
  | childEnded parent => exact ⟨_, .report hqueue⟩
  | resume i => exact ⟨_, .resume hqueue⟩

/-- A loop without a result can take a step: a turn is queued, or a read is under way, or one can be started, or a task
waits for a module that is built. Otherwise no report would be due, and the caller would have its result. -/
theorem can_step (horderly : l.account.Orderly) (howned : Owned capacity l) (hcapacity : 0 < capacity)
    (hresult : l.pool.result = none) : ∃ l', l.Step l' := by
  cases hqueue : l.pool.queue with
  | cons turn rest => exact @step_of_queued l [] rest turn hqueue
  | nil =>
    cases hreading : l.reading with
    | cons job rest =>
      -- a read is under way and may end
      exact ⟨_, @Step.conclude l {} [] rest job hreading⟩
    | nil =>
      cases hacquiring : l.acquiring with
      | cons job rest =>
        -- no read is under way, so that all permits are free
        have hpermits := howned.permits
        rw [hreading, List.length_nil] at hpermits
        exact ⟨_, @Step.acquire l [] rest job hacquiring (by omega)⟩
      | nil =>
        cases hawaiting : l.awaiting with
        | cons job rest =>
          -- nothing is owned, so that the module awaited is built
          have hinFlight := howned.awaited job (by rw [hawaiting]; exact List.mem_cons_self)
          rcases howned.built_or_owned hinFlight with hbuilt | ⟨owner, howner, _⟩
          · exact ⟨_, @Step.wake l [] rest job hawaiting hbuilt⟩
          · rw [owners, hacquiring, hreading] at howner
            cases howner
        | nil =>
          -- nothing is queued and nobody waits: no report is due, so the caller has its result
          have hnone : l.account.queue = [] := by
            show l.pool.queue ++ l.jobs.map Job.turn = []
            rw [hqueue, jobs, hawaiting, hacquiring, hreading]
            rfl
          have hbalanced := horderly.balanced
          rw [Pool.IsBalanced, hnone] at hbalanced
          have hanswered : l.pool.result.isSome = true := hbalanced.done.2
          rw [hresult] at hanswered
          cases hanswered

-- ---------------------------------------------------------------------------
-- All interleavings
-- ---------------------------------------------------------------------------

/-- What holds in every state of a concurrent analysis. -/
structure Safe (l : Loop) : Prop where
  /-- No read is started twice. -/
  readOnce : l.started.Nodup
  /-- A module in flight is not built iff exactly one task waits for a permit to read it, or reads it. -/
  owned : ∀ x ∈ l.pool.session.inFlight, x ∉ l.built ↔
    ∃! job, (job ∈ l.acquiring ∨ job ∈ l.reading) ∧ job.moduleId = x
  /-- Who waits for a module that is not built waits for such a task, and that task waits for no module. -/
  direct : ∀ job ∈ l.awaiting, job.moduleId ∉ l.built →
    ∃ owner, (owner ∈ l.acquiring ∨ owner ∈ l.reading) ∧ owner.moduleId = job.moduleId ∧
      ∀ other ∈ l.awaiting, other.reportTo ≠ owner.reportTo
  /-- No task waits for itself, not even through others. -/
  acyclic : ∀ task, ¬ TransGen l.WaitsFor task task
  /-- The caller has its result, or some task can take a step. -/
  progress : l.pool.result.isSome = true ∨ ∃ l', l.Step l'

/-- Safety follows from the order of tasks and unique ownership. -/
theorem safe_of_owned (horderly : l.account.Orderly) (howned : Owned capacity l) (hcapacity : 0 < capacity) :
    l.Safe where
  readOnce := by
    refine howned.started.nodup_iff.mpr (howned.nodup.sublist ?_)
    exact ((List.sublist_append_right l.acquiring l.reading).map _).append_left _
  owned x hx := by
    constructor
    · intro hunbuilt
      obtain ⟨owner, howner, heq⟩ := (howned.built_or_owned hx).resolve_left hunbuilt
      refine ⟨owner, ⟨List.mem_append.mp howner, heq⟩, ?_⟩
      rintro other ⟨hother, hsame⟩
      exact howned.owner_unique (List.mem_append.mpr hother) howner (hsame.trans heq.symm)
    · rintro ⟨owner, ⟨howner, rfl⟩, _⟩
      exact howned.not_built_of_owned (List.mem_append.mpr howner)
  direct job hjob hunbuilt := by
    obtain ⟨owner, howner, heq⟩ := (howned.built_or_owned (howned.awaited job hjob)).resolve_left hunbuilt
    refine ⟨owner, List.mem_append.mp howner, heq, ?_⟩
    -- a task that waited for a module and owned one would wait for itself
    intro other hother hsame
    have hnodup := horderly.tasks
    rw [tasks_account, List.append_assoc _ (l.acquiring.map _), ← List.map_append] at hnodup
    exact (List.nodup_append.mp hnodup).2.2 _ (List.mem_append_right _ (List.mem_map_of_mem hother)) _
      (List.mem_map_of_mem howner) hsame
  acyclic := not_waitsFor_self horderly
  progress := by
    cases hresult : l.pool.result with
    | some result => exact .inl rfl
    | none => exact .inr (can_step horderly howned hcapacity hresult)

/-- A loop with a single task is orderly. -/
theorem orderly_initial (s : Session) (root : ModuleId) (permits : Nat) : (initial s root permits).account.Orderly where
  balanced := ⟨by simp [account, initial, Pool.withTurns, jobs, Pool.Known],
    by simp [account, initial, Pool.withTurns, Pool.slots], by simp [account, initial, Pool.withTurns, Pool.slots], rfl⟩
  tasks := List.nodup_singleton _
  seated := by simp [account, initial, Pool.withTurns, jobs]
  resumes := List.nodup_nil

/-- The order of tasks and unique ownership hold in every state that is reached from a loop with nothing in flight. -/
theorem reaches_induction {s : Session} (hs : s.inFlight = []) {root : ModuleId}
    (hreaches : (initial s root capacity).Reaches l) : l.account.Orderly ∧ Owned capacity l := by
  induction hreaches with
  | refl => exact ⟨orderly_initial s root capacity, owned_initial hs root capacity⟩
  | tail _ hstep ih => exact ⟨orderly_step ih.1 hstep, owned_step ih.2 hstep⟩

end Loop

/-- **No deadlock and no double read**: a concurrent analysis with room for at least one read is safe in every reachable
state, in whatever order its tasks take their steps and however its reads end; and the analysis as it is run is one of
those interleavings. -/
theorem interleavings_safe (s : Session) (root : ModuleId) (hs : s.inFlight = [])
    (hcapacity : 1 ≤ s.config.maxConcurrency) :
    (∀ l, (Loop.initial s root s.config.maxConcurrency.toNat).Reaches l → l.Safe) ∧
      ∀ w, ∃ l, (Loop.initial s root s.config.maxConcurrency.toNat).Reaches l ∧
        (l.pool.session, l.pool.result.getD (.error .tooDeep)) = s.analyzeModuleConcurrently w root := by
  have hpermits : 0 < s.config.maxConcurrency.toNat := by omega
  constructor
  · intro l hreaches
    obtain ⟨horderly, howned⟩ := Loop.reaches_induction hs hreaches
    exact Loop.safe_of_owned horderly howned hpermits
  · intro w
    have hrests : (Loop.initial s root s.config.maxConcurrency.toNat).Rests
        { session := s, queue := [.start root none] } :=
      ⟨rfl, hpermits, rfl, rfl, rfl, by simp [hs]⟩
    obtain ⟨l, hreaches, hend⟩ := Loop.run_reaches w (turnBound w) hrests (by show 0 ≤ s.config.maxConcurrency; omega)
    refine ⟨l, hreaches.reaches, ?_⟩
    rw [hend.pool]
    rfl

end Session

namespace Sample

open BlockingCalls.Tree (Node)

def twiceText : String :=
  "import'./b';import'./b'"

def twiceRows : List Node.Row :=
  [{ depth := 0, kind := "program", start := 0, stop := 23 },
   { depth := 1, kind := "import_statement", start := 0, stop := 12 },
   { depth := 2, kind := "string", start := 6, stop := 11, field := "source" },
   { depth := 1, kind := "import_statement", start := 12, stop := 23 },
   { depth := 2, kind := "string", start := 18, stop := 23, field := "source" }]

/-- A world with one file, which imports one module twice. -/
def twiceWorld : World where
  files := .ofList [("/work/a.ts", .text twiceText)]
  trees := fun _ => .ofList ([(twiceText, twiceRows)].filterMap fun e => (Node.ofRows? e.2).map (e.1, ·))

end Sample

namespace Session

/-- With a file that imports one module twice, a task waits for a module that is not built yet. -/
theorem interleavings_safe_twice :
    Sample.session.inFlight = [] ∧ 1 ≤ Sample.session.config.maxConcurrency ∧
      ∃ l, (Loop.initial Sample.session "/work/a.ts" Sample.session.config.maxConcurrency.toNat).Reaches l ∧
        (∃ job ∈ l.awaiting, job.moduleId ∉ l.built) ∧ l.Safe := by
  have hroot := Relation.ReflTransGen.single
    (@Loop.Step.takeUp (Loop.initial Sample.session "/work/a.ts" 8) [] [] "/work/a.ts" none rfl (by decide) (by decide))
  have hacquire := hroot.tail (@Loop.Step.acquire _ [] [] ⟨"/work/a.ts", none⟩ rfl (by decide))
  have hread := hacquire.tail (@Loop.Step.conclude _ Sample.twiceWorld [] [] ⟨"/work/a.ts", none⟩ rfl)
  -- two tasks for the same module are queued now; the second one finds it taken up
  have hfirst := hread.tail (@Loop.Step.takeUp _ [] [.start "/work/b.ts" (some (0, 1))] "/work/b.ts" (some (0, 0))
    (by decide +kernel) (by decide +kernel) (by decide +kernel))
  have hsecond := hfirst.tail (@Loop.Step.await _ [] [] "/work/b.ts" (some (0, 1)) (by decide +kernel) (by decide +kernel))
  refine ⟨rfl, by decide, _, hsecond, ⟨_, List.mem_singleton.mpr rfl, by decide +kernel⟩, ?_⟩
  exact (interleavings_safe Sample.session "/work/a.ts" rfl (by decide)).1 _ hsecond

end Session

end BlockingCalls
