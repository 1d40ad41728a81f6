import BlockingCalls.Proofs.Session.Balance

/-!
# What tasks cover

A concurrent analysis reads a module when a task takes it up, and queues tasks for the modules that it opens. The invariant
is that of a worklist algorithm: what was read and what is about to be started *covers* what spreads from the root, that is,
each module opened by one that was read is read itself, or about to be started, or one at which the analysis would have
stopped in its initial session.

The initial session is arbitrary. The analysis stops at a module iff it would have stopped there initially or has read it
since (`Covers.stops_iff`), so that all statements refer to the initial session.

## Results

* `Covers.passOver`, `Covers.takeUp`, `Covers.settle`  — the effect of each kind of turn on a cover.
* `Covers.mem_iff`                                     — if nothing is about to be started, what was read is what spreads.
-/

namespace BlockingCalls.Session.Pool

open BlockingCalls.Session (View Merged Loaded)

/-- A task for the module is about to start. -/
def Starting (p : Pool) (x : ModuleId) : Prop :=
  ∃ reportTo, .start x reportTo ∈ p.queue

/-- Since the session `s₀` the modules `ids` were read. Together with what is about to be started they hold the root and
what they open; no more was read than what spreads from the root, and no other module was touched. -/
structure Covers (c : Codebase) (root : ModuleId) (s₀ s : Session) (ids : List ModuleId) (starting : ModuleId → Prop) :
    Prop where
  merged : Merged c .concurrent s₀ s ids
  nodup : ids.Nodup
  inFlight : ∀ x, x ∈ s.inFlight ↔ x ∈ s₀.inFlight ∨ x ∈ ids
  reached : ∀ x ∈ ids, c.Spreads (Stops s₀) root x
  due : ∀ x, starting x → x = root ∨ ∃ y ∈ ids, ∃ ts, c.Opens y ts ∧ x ∈ ts
  root : Stops s root ∨ starting root
  closed : ∀ x ∈ ids, ∀ ts, c.Opens x ts → ∀ y ∈ ts, Stops s y ∨ starting y
  outside : ∀ x, x ∉ ids → s.view x = s₀.view x

namespace Covers

variable {c : Codebase} {root : ModuleId} {s₀ s s' : Session} {ids : List ModuleId} {starting starting' : ModuleId → Prop}
  {x : ModuleId}

/-- The analysis stops where it would have stopped when it began, and at what was read since. -/
theorem stops_iff (h : Covers c root s₀ s ids starting) : Stops s x ↔ Stops s₀ x ∨ x ∈ ids := by
  unfold Stops
  rw [h.inFlight]
  -- what was read is in flight; everything else has the view of the initial session
  by_cases hx : x ∈ ids
  · simp [hx]
  · have hfinished : s.isFinished x = s₀.isFinished x := by
      rw [isFinished_eq, isFinished_eq, h.outside x hx]
    rw [hfinished]
    tauto

theorem not_mem_of_go (h : Covers c root s₀ s ids starting) (hgo : ¬ Stops s x) : x ∉ ids :=
  fun hmem => hgo (h.stops_iff.mpr (.inr hmem))

/-- A module that is about to be started and is not stopped at has been spread to. -/
theorem spreads_of_starting (h : Covers c root s₀ s ids starting) (hstart : starting x) (hgo : ¬ Stops s x) :
    c.Spreads (Stops s₀) root x := by
  have hgo₀ : ¬ Stops s₀ x := fun hstop => hgo (h.stops_iff.mpr (.inl hstop))
  rcases h.due x hstart with rfl | ⟨y, hy, ts, hopens, hmem⟩
  · exact .root hgo₀
  · exact .step (h.reached y hy) hopens hmem hgo₀

/-- A task for a module at which the analysis stops ends at once. -/
theorem passOver (h : Covers c root s₀ s ids starting) (hx : Stops s x) (hback : ∀ y, starting' y → starting y)
    (hforth : ∀ y, starting y → y = x ∨ starting' y) : Covers c root s₀ s ids starting' where
  merged := h.merged
  nodup := h.nodup
  inFlight := h.inFlight
  reached := h.reached
  due y hy := h.due y (hback y hy)
  root := by
    rcases h.root with hroot | hroot
    · exact .inl hroot
    · rcases hforth root hroot with rfl | hroot
      · exact .inl hx
      · exact .inr hroot
  closed z hz ts hopens y hy := by
    rcases h.closed z hz ts hopens y hy with hstop | hstart
    · exact .inl hstop
    · rcases hforth y hstart with rfl | hstart
      · exact .inl hx
      · exact .inr hstart
  outside := h.outside

/-- A module is taken up, and what it opens is about to be started. -/
theorem takeUp (h : Covers c root s₀ s ids starting) (hstart : starting x) (hgo : ¬ Stops s x)
    (htaken : TakenUp c x s s') (hback : ∀ y, starting' y → starting y ∨ ∃ ts, c.Opens x ts ∧ y ∈ ts)
    (hforth : ∀ y, starting y → y = x ∨ starting' y) (hopened : ∀ ts, c.Opens x ts → ∀ y ∈ ts, starting' y) :
    Covers c root s₀ s' (ids ++ [x]) starting' := by
  have hx : x ∉ ids := h.not_mem_of_go hgo
  have hmem : ∀ y, y ∈ ids ++ [x] ↔ y ∈ ids ∨ y = x := by simp
  have hinFlight : ∀ y, y ∈ s'.inFlight ↔ y = x ∨ y ∈ s.inFlight := by
    intro y
    rw [htaken.inFlight, List.mem_insert_iff]
  -- where the analysis has stopped it still stops, and at the module that was taken up
  have hstops : ∀ y, Stops s y → Stops s' y := by
    intro y hy
    by_cases hyx : y = x
    · exact .inl ((hinFlight y).mpr (.inl hyx))
    · rcases hy with hy | hy
      · exact .inl ((hinFlight y).mpr (.inr hy))
      · refine .inr ?_
        rw [isFinished_eq, htaken.others y hyx]
        exact hy
  have hstopsNew : Stops s' x := .inl ((hinFlight x).mpr (.inl rfl))
  have hkept : ∀ y, Stops s y ∨ starting y → Stops s' y ∨ starting' y := by
    rintro y (hy | hy)
    · exact .inl (hstops y hy)
    · rcases hforth y hy with rfl | hy
      · exact .inl hstopsNew
      · exact .inr hy
  refine ⟨h.merged.trans htaken.merged, ?_, ?_, ?_, ?_, hkept root h.root, ?_, ?_⟩
  · -- no module is read twice, since a module that was read is stopped at
    refine List.nodup_append.mpr ⟨h.nodup, by simp, ?_⟩
    intro y hy z hz heq
    rw [List.mem_singleton.mp hz] at heq
    exact hx (heq ▸ hy)
  · -- what is in flight: by the insertion of the module
    intro y
    rw [hinFlight, h.inFlight, hmem]
    tauto
  · -- what was read spreads from the root
    intro y hy
    rcases (hmem y).mp hy with hy | rfl
    · exact h.reached y hy
    · exact h.spreads_of_starting hstart hgo
  · -- what is about to be started is the root or opened by a module that was read
    intro y hy
    rcases hback y hy with hy | ⟨ts, hopens, hy⟩
    · rcases h.due y hy with hroot | ⟨z, hz, hopened⟩
      · exact .inl hroot
      · exact .inr ⟨z, (hmem z).mpr (.inl hz), hopened⟩
    · exact .inr ⟨x, (hmem x).mpr (.inr rfl), ts, hopens, hy⟩
  · -- what is opened by a module that was read before is still covered, and what the new one opens is about to be
    -- started
    intro z hz ts hopens y hy
    rcases (hmem z).mp hz with hz | rfl
    · exact hkept y (h.closed z hz ts hopens y hy)
    · exact .inr (hopened ts hopens y hy)
  · -- no other view has changed
    intro y hy
    rw [hmem, not_or] at hy
    rw [htaken.others y hy.2, h.outside y hy.1]

/-- Settling modules that were read changes nothing that matters here. -/
theorem settle (h : Covers c root s₀ s ids starting) (hmerged : Merged c .concurrent s s' [])
    (hinFlight : s'.inFlight = s.inFlight) (hview : ∀ y, y ∉ ids → s'.view y = s.view y) :
    Covers c root s₀ s' ids starting := by
  have hmerged' := h.merged.trans hmerged
  rw [List.append_nil] at hmerged'
  have hstops : ∀ y, Stops s y → Stops s' y := by
    intro y hy
    -- a module that was read is in flight; any other is finished iff it was
    by_cases hmem : y ∈ ids
    · refine .inl ?_
      rw [hinFlight]
      exact (h.inFlight y).mpr (.inr hmem)
    · unfold Stops at hy ⊢
      rwa [hinFlight, isFinished_eq, hview y hmem]
  refine ⟨hmerged', h.nodup, ?_, h.reached, h.due, h.root.imp (hstops root) id, ?_, ?_⟩
  · intro y
    rw [hinFlight]
    exact h.inFlight y
  · intro z hz ts hopens y hy
    exact (h.closed z hz ts hopens y hy).imp (hstops y) id
  · intro y hy
    rw [hview y hy, h.outside y hy]

/-- With nothing about to be started, what was read is what spreads from the root. -/
theorem mem_iff (h : Covers c root s₀ s ids starting) (hnone : ∀ y, ¬ starting y) :
    x ∈ ids ↔ c.Spreads (Stops s₀) root x := by
  refine ⟨h.reached x, Codebase.mem_of_spreads ?_ ?_⟩
  · exact (h.stops_iff.mp (h.root.resolve_right (hnone root))).symm
  · intro z hz ts hopens y hy
    exact (h.stops_iff.mp ((h.closed z hz ts hopens y hy).resolve_right (hnone y))).symm

end Covers

-- ---------------------------------------------------------------------------
-- What is about to be started
-- ---------------------------------------------------------------------------

/-- After a task has ended the queue holds the turns before and its report. -/
theorem mem_queue_finishTask {p : Pool} {outcome : Except Fault (List Name)} {reportTo : ReportTo} {turn : Turn} :
    turn ∈ (p.finishTask outcome reportTo).queue ↔
      turn ∈ p.queue ∨ ∃ place, reportTo = some place ∧ turn = .childEnded place.1 := by
  cases reportTo with
  | none => simp [finishTask]
  | some place => simp [finishTask]

theorem session_finishTask (p : Pool) (outcome : Except Fault (List Name)) (reportTo : ReportTo) :
    (p.finishTask outcome reportTo).session = p.session := by
  cases reportTo <;> rfl

theorem session_report (p : Pool) (parent : Nat) : (p.report parent).session = p.session := by
  unfold report
  split <;> rfl

/-- After a task was suspended the queue holds the turns before and the starts of its children, each with its place. -/
theorem mem_queue_suspend {p : Pool} {m : Loaded} {reportTo : ReportTo} {targets : List ModuleId} {turn : Turn} :
    turn ∈ (p.suspend m reportTo targets).queue ↔
      turn ∈ p.queue ∨ ∃ y place, targets[place]? = some y ∧ turn = .start y (some (p.suspended.length, place)) := by
  refine List.mem_append.trans (or_congr_right ⟨?_, ?_⟩)
  · intro hturn
    obtain ⟨target, htarget, rfl⟩ := List.mem_map.mp hturn
    exact ⟨target.1, target.2, List.mk_mem_zipIdx_iff_getElem?.mp htarget, rfl⟩
  · rintro ⟨y, place, hplace, rfl⟩
    exact List.mem_map.mpr ⟨(y, place), List.mk_mem_zipIdx_iff_getElem?.mpr hplace, rfl⟩

/-- A turn that is queued after a report was so before, or resumes the task that has got the report. -/
theorem mem_queue_report {p : Pool} {parent : Nat} {turn : Turn} (h : turn ∈ (p.report parent).queue) :
    turn ∈ p.queue ∨ turn = .resume parent := by
  unfold report at h
  cases htask : p.suspended[parent]? with
  | none =>
    rw [htask] at h
    exact .inl h
  | some task =>
    rw [htask] at h
    simp only at h
    split at h
    · exact (List.mem_append.mp h).imp id List.mem_singleton.mp
    · exact .inl h

/-- A report that arrives removes no turn from the queue. -/
theorem mem_queue_report_of_mem {p : Pool} {turn : Turn} (h : turn ∈ p.queue) (parent : Nat) :
    turn ∈ (p.report parent).queue := by
  unfold report
  cases p.suspended[parent]? with
  | none => exact h
  | some task =>
    show turn ∈ ite _ _ _
    split
    · exact List.mem_append_left _ h
    · exact h

theorem starting_finishTask {p : Pool} {outcome : Except Fault (List Name)} {reportTo : ReportTo} {x : ModuleId} :
    (p.finishTask outcome reportTo).Starting x ↔ p.Starting x := by
  simp [Starting, mem_queue_finishTask]

/-- A task that is suspended starts its targets. -/
theorem starting_suspend {p : Pool} {m : Loaded} {reportTo : ReportTo} {targets : List ModuleId} {x : ModuleId} :
    (p.suspend m reportTo targets).Starting x ↔ p.Starting x ∨ x ∈ targets := by
  constructor
  · rintro ⟨r, hr⟩
    rcases mem_queue_suspend.mp hr with hr | ⟨y, place, hplace, heq⟩
    · exact .inl ⟨r, hr⟩
    · cases heq
      exact .inr (List.mem_of_getElem? hplace)
  · rintro (⟨r, hr⟩ | hx)
    · exact ⟨r, mem_queue_suspend.mpr (.inl hr)⟩
    · obtain ⟨place, hplace⟩ := List.mem_iff_getElem?.mp hx
      exact ⟨_, mem_queue_suspend.mpr (.inr ⟨x, place, hplace, rfl⟩)⟩

/-- A report arrives without any task being started. -/
theorem starting_report {p : Pool} {parent : Nat} {x : ModuleId} : (p.report parent).Starting x ↔ p.Starting x := by
  constructor
  · rintro ⟨r, hr⟩
    exact ⟨r, (mem_queue_report hr).resolve_right (by simp)⟩
  · rintro ⟨r, hr⟩
    exact ⟨r, mem_queue_report_of_mem hr parent⟩

/-- When a task is taken from the queue to start, all that was starting is that task or is still starting. -/
theorem starting_pop {p : Pool} {x : ModuleId} {reportTo : ReportTo} {rest : List Turn}
    (hqueue : p.queue = .start x reportTo :: rest) :
    p.Starting x ∧ (∀ y, { p with queue := rest }.Starting y → p.Starting y) ∧
      ∀ y, p.Starting y → y = x ∨ { p with queue := rest }.Starting y := by
  refine ⟨⟨reportTo, by simp [hqueue]⟩, ?_, ?_⟩
  · rintro y ⟨r, hr⟩
    exact ⟨r, by rw [hqueue]; exact List.mem_cons_of_mem _ hr⟩
  · rintro y ⟨r, hr⟩
    rw [hqueue] at hr
    rcases List.mem_cons.mp hr with heq | hr
    · cases heq
      exact .inl rfl
    · exact .inr ⟨r, hr⟩

/-- Taking a turn from the queue that starts no task does not change what is starting. -/
theorem starting_pop_iff {p : Pool} {turn : Turn} {rest : List Turn} (hqueue : p.queue = turn :: rest)
    (hturn : ∀ x r, turn ≠ .start x r) {x : ModuleId} : { p with queue := rest }.Starting x ↔ p.Starting x := by
  refine exists_congr fun r => ?_
  rw [hqueue, List.mem_cons]
  exact ⟨.inr, fun h => h.resolve_left (hturn x r).symm⟩

end BlockingCalls.Session.Pool
