import BlockingCalls.Proofs.Session.Updates
import BlockingCalls.Session.Concurrent

/-!
# The effect of a turn

A concurrent analysis changes its pool one turn at a time. `Turned` is the inversion of `Pool.take`, with one constructor for
each effect of a turn: to pass over a module that was taken up before, to take up a module and end with it, to take it up
and wait for the modules it leads to, to note a report, to resume a task. For a module that is taken up it gives the new
session in terms of views and of `Merged`, so that invariants of the pool need not unfold loading and linking again.

A task concludes its module in the turn in which it takes it up; `conclude` is what it does from the end of the read on. Its
specification separates the session, which is built by one module (`Built`), from the task, which proceeds as the codebase
determines (`proceed`). Loops, whose reads take time, use it by itself.

## Results

* `linkAll_linkedFrom`  — linking all imports of a module.
* `conclude_built`      — the specification of `conclude`.
* `take_turned`         — every turn has one of the effects listed.
* `run_induction`       — an invariant of turns holds at the end of a run.
* `run_of_startTask`    — a run whose first task ends at once.
-/

namespace BlockingCalls.Session.Pool

open BlockingCalls.Session (View Merged Loaded)

-- ---------------------------------------------------------------------------
-- Linking all imports
-- ---------------------------------------------------------------------------

/-- Between two moments the imports of a module were linked, as far as they could be. -/
structure LinkedFrom (c : Codebase) (mode : Mode) (m : Loaded) (imports : List ImportDeclaration) (s s' : Session) :
    Prop where
  merged : Merged c mode s s' []
  inFlight : s'.inFlight = s.inFlight
  view : ∀ x, s'.view x =
    if x = m.summary.moduleId then (s.view x).bind (c.bindings m.location imports) else s.view x

section LinkAll

variable {c : Codebase} {mode : Mode} {w : World} {m : Loaded}

theorem linkedFrom_nil (s : Session) : LinkedFrom c mode m [] s s :=
  ⟨.refl s, rfl, fun x => by simp [Codebase.bindings]⟩

/-- Linking a single import. -/
theorem linkedFrom_link {s : Session} (hc : s.codebase w = c) (d : ImportDeclaration) :
    LinkedFrom c mode m [d] s (s.link m d).1 := by
  subst hc
  refine ⟨merged_link .., ?_, fun x => view_link ..⟩
  unfold link
  split <;> rfl

/-- Linking a first import that can be resolved, and then the others. -/
theorem LinkedFrom.cons {s s' s'' : Session} {d : ImportDeclaration} {rest : List ImportDeclaration}
    {resolution : Resolution} (hresolve : c.resolver.resolve d.source m.location = .ok resolution)
    (h : LinkedFrom c mode m [d] s s') (h' : LinkedFrom c mode m rest s' s'') :
    LinkedFrom c mode m (d :: rest) s s'' := by
  refine ⟨h.merged.trans h'.merged, h'.inFlight.trans h.inFlight, ?_⟩
  intro x
  rw [h'.view, h.view, @Codebase.bindings_cons_of_ok c m.location d rest resolution hresolve]
  split
  · rw [View.bind_append]
  · rfl

/-- Linking all imports in order returns their targets, or the fault of the first import that cannot be resolved. By
induction on the imports. -/
theorem linkAll_linkedFrom (imports : List ImportDeclaration) {s : Session} (hc : s.codebase w = c) :
    LinkedFrom c mode m imports s (linkAll m s imports).1 ∧
      (linkAll m s imports).2 = c.targets m.location imports := by
  induction imports generalizing s with
  | nil => exact ⟨linkedFrom_nil s, rfl⟩
  | cons d rest ih =>
    have hresolver : s.resolver = c.resolver := by
      rw [← hc]
      rfl
    have hlink : LinkedFrom c mode m [d] s (s.link m d).1 := linkedFrom_link hc d
    obtain ⟨hrest, htargets⟩ := ih ((hlink.merged.codebase w).trans hc)
    rw [linkAll, Codebase.targets]
    rcases link_cases s m d with ⟨fault, hresolve, heq⟩ | ⟨reason, hresolve, heq⟩ | ⟨target, isRemote, hresolve, heq⟩
    · -- the first import cannot be resolved: nothing is bound any more
      rw [hresolver] at hresolve
      rw [heq, hresolve]
      refine ⟨⟨.refl s, rfl, fun x => ?_⟩, rfl⟩
      simp [Codebase.bindings, hresolve]
    · -- the import is skipped: it has no target
      rw [hresolver] at hresolve
      rw [heq, hresolve]
      refine ⟨hlink.cons hresolve hrest, ?_⟩
      simp only [← htargets]
      cases (linkAll m (s.link m d).1 rest).2 <;> rfl
    · -- the import leads to a module, which is the first target
      rw [hresolver] at hresolve
      rw [heq, hresolve]
      refine ⟨hlink.cons hresolve hrest, ?_⟩
      simp only [← htargets]
      rfl

end LinkAll

-- ---------------------------------------------------------------------------
-- Concluding a read
-- ---------------------------------------------------------------------------

/-- What a task does with a module that it has taken up, once the read has ended. -/
def conclude (w : World) (p : Pool) (x : ModuleId) (reportTo : ReportTo) : Pool :=
  match p.session.load .concurrent w x with
  | (s, none) => { p with session := s }.finishTask (.ok []) reportTo
  | (s, some m) =>
    match linkAll m s m.summary.imports with
    | (s, .error fault) => { p with session := s }.finishTask (.error fault) reportTo
    | (s, .ok []) => { p with session := s.markDone x }.finishTask (.ok m.summary.directBlocking) reportTo
    | (s, .ok targets) => { p with session := s }.suspend m reportTo targets

theorem takeUp_eq_conclude (w : World) (p : Pool) (x : ModuleId) (reportTo : ReportTo) :
    p.takeUp w x reportTo = { p with session := begin p.session x }.conclude w x reportTo :=
  rfl

/-- How the task of a module proceeds after the links, in terms of the codebase alone: it ends, or waits for the targets. -/
def proceed (c : Codebase) (x : ModuleId) (p : Pool) (reportTo : ReportTo) : Pool :=
  match c.parse .concurrent x with
  | .error _ => p.finishTask (.ok []) reportTo
  | .ok q =>
    match c.targetsOf q with
    | .error fault => p.finishTask (.error fault) reportTo
    | .ok [] => p.finishTask (.ok (c.summary q).directBlocking) reportTo
    | .ok (target :: rest) => p.suspend ⟨q.location, c.summary q⟩ reportTo (target :: rest)

/-- Between two moments the task of `x` has loaded the module and linked its imports; no other view has changed. -/
structure Built (c : Codebase) (x : ModuleId) (s s' : Session) : Prop where
  merged : Merged c .concurrent s s' [x]
  inFlight : s'.inFlight = s.inFlight
  view : ∀ y, s'.view y = if y = x then c.concluded x (s.view y) else s.view y

section Conclude

variable {c : Codebase} {w : World} {s : Session}

/-- A load that fails concludes the module. -/
theorem built_of_parse_error (hc : s.codebase w = c) {x : ModuleId} {fault : Fault}
    (hp : c.parse .concurrent x = .error fault) : Built c x s (s.load .concurrent w x).1 := by
  subst hc
  refine ⟨merged_load s .concurrent w x, inFlight_load s .concurrent w x, fun y => ?_⟩
  simp only [view_load, Codebase.load, Codebase.concluded, hp]

/-- A module that was loaded, after its imports have been linked. -/
theorem linkedFrom_load (hc : s.codebase w = c) {x : ModuleId} {q : Parsed} (hp : c.parse .concurrent x = .ok q) :
    Merged c .concurrent s (linkAll ⟨q.location, c.summary q⟩ (s.load .concurrent w x).1 (c.summary q).imports).1 [x] ∧
      (linkAll ⟨q.location, c.summary q⟩ (s.load .concurrent w x).1 (c.summary q).imports).1.inFlight = s.inFlight ∧
      (∀ y, (linkAll ⟨q.location, c.summary q⟩ (s.load .concurrent w x).1 (c.summary q).imports).1.view y =
        if y = x then ((s.view y).register q (c.summary q)).bind (c.bindingsOf q) else s.view y) ∧
      (linkAll ⟨q.location, c.summary q⟩ (s.load .concurrent w x).1 (c.summary q).imports).2 = c.targetsOf q := by
  subst hc
  have hload := merged_load s .concurrent w x
  have hid : ((s.codebase w).summary q).moduleId = x := Codebase.moduleId_summary hp
  obtain ⟨hlinked, htargets⟩ := @linkAll_linkedFrom (s.codebase w) .concurrent w ⟨q.location, (s.codebase w).summary q⟩
    ((s.codebase w).summary q).imports _ (hload.codebase w)
  refine ⟨hload.trans hlinked.merged, hlinked.inFlight.trans (inFlight_load s .concurrent w x), fun y => ?_, htargets⟩
  rw [hlinked.view, hid, view_load, Codebase.load, hp]
  split <;> rfl

/-- **Specification of `conclude`**: the session is built by one module, and the task proceeds as the codebase says. -/
theorem conclude_built {p : Pool} (hc : p.session.codebase w = c) (x : ModuleId) (reportTo : ReportTo) :
    ∃ s, Built c x p.session s ∧ p.conclude w x reportTo = proceed c x { p with session := s } reportTo := by
  unfold conclude proceed
  cases hp : c.parse .concurrent x with
  | error fault =>
    have hnone : (p.session.load .concurrent w x).2 = none := by rw [load_of_parse_error (hc ▸ hp)]
    rw [show p.session.load .concurrent w x = (_, none) from Prod.ext rfl hnone]
    exact ⟨_, built_of_parse_error hc hp, rfl⟩
  | ok q =>
    have hsome : (p.session.load .concurrent w x).2 = some ⟨q.location, c.summary q⟩ := by
      rw [load_of_parse_ok (hc ▸ hp), hc]
    obtain ⟨hmerged, hinFlight, hview, htargets⟩ := linkedFrom_load hc hp
    rw [show p.session.load .concurrent w x = (_, some _) from Prod.ext rfl hsome]
    simp only
    generalize linkAll ⟨q.location, c.summary q⟩ (p.session.load .concurrent w x).1 (c.summary q).imports = linked at *
    obtain ⟨s, result⟩ := linked
    simp only at htargets hview hmerged hinFlight ⊢
    subst htargets
    -- without targets the module is marked as done in the same turn, and otherwise it stays as it was linked
    cases hts : c.targetsOf q with
    | error fault =>
      exact ⟨s, ⟨hmerged, hinFlight, fun y => by simp only [hview, Codebase.concluded, hp, hts]⟩, rfl⟩
    | ok targets =>
      cases targets with
      | nil =>
        refine ⟨s.markDone x, ⟨hmerged.trans (merged_markDone s x), hinFlight, fun y => ?_⟩, rfl⟩
        rw [view_markDone, hview]
        split
        · simp only [Codebase.concluded, hp, hts]
        · rfl
      | cons target rest =>
        exact ⟨s, ⟨hmerged, hinFlight, fun y => by simp only [hview, Codebase.concluded, hp, hts]⟩, rfl⟩

end Conclude

-- ---------------------------------------------------------------------------
-- Taking up a module
-- ---------------------------------------------------------------------------

/-- A module was taken up between two moments: it was read and merged, and no other module was touched. -/
structure TakenUp (c : Codebase) (x : ModuleId) (s s' : Session) : Prop where
  merged : Merged c .concurrent s s' [x]
  inFlight : s'.inFlight = s.inFlight.insert x
  others : ∀ y, y ≠ x → s'.view y = s.view y

/-- The task does not take up the module: another one has, or it is finished. -/
def Stops (s : Session) (x : ModuleId) : Prop :=
  x ∈ s.inFlight ∨ s.isFinished x = true

/-- The effect of a turn on a pool from whose queue it was taken. -/
inductive Turned (c : Codebase) (p : Pool) : Turn → Pool → Prop
  | passedOver {x : ModuleId} {reportTo : ReportTo} (stop : Stops p.session x) :
      Turned c p (.start x reportTo) (p.finishTask (.ok (p.session.directBlocking x)) reportTo)
  /-- The module cannot be parsed or leads nowhere. -/
  | ended {x : ModuleId} {reportTo : ReportTo} {s : Session} {names : List Name} (go : ¬ Stops p.session x)
      (taken : TakenUp c x p.session s) (view : s.view x = c.settled .concurrent x (p.session.view x))
      (childless : ∀ q, c.find? x = some q → c.targetsOf q = .ok []) :
      Turned c p (.start x reportTo) ({ p with session := s }.finishTask (.ok names) reportTo)
  | unlinked {x : ModuleId} {reportTo : ReportTo} {s : Session} {q : Parsed} {fault : Fault}
      (go : ¬ Stops p.session x) (taken : TakenUp c x p.session s)
      (view : s.view x = c.linked .concurrent x (p.session.view x)) (parsed : c.find? x = some q)
      (targets : c.targetsOf q = .error fault) :
      Turned c p (.start x reportTo) ({ p with session := s }.finishTask (.error fault) reportTo)
  | waits {x : ModuleId} {reportTo : ReportTo} {s : Session} {q : Parsed} {ts : List ModuleId}
      (go : ¬ Stops p.session x) (taken : TakenUp c x p.session s)
      (view : s.view x = c.linked .concurrent x (p.session.view x)) (parsed : c.find? x = some q)
      (targets : c.targetsOf q = .ok ts) (some_target : ts ≠ []) :
      Turned c p (.start x reportTo) ({ p with session := s }.suspend ⟨q.location, c.summary q⟩ reportTo ts)
  | reported (parent : Nat) : Turned c p (.childEnded parent) (p.report parent)
  | resumed (task : Nat) : Turned c p (.resume task) (p.resumeTask task)

section TakeUp

variable {c : Codebase} {w : World} {s : Session}

/-- Taking up a module reads and merges nothing. -/
theorem merged_begin (x : ModuleId) : Merged c .concurrent s (begin s x) [] := by
  have hvisiting : Merged c .concurrent s (s.markVisiting x) [] := merged_markVisiting s x
  refine .of_eq rfl rfl rfl rfl rfl rfl rfl fun hs => ?_
  have hwell := hvisiting.wellFormed hs
  exact ⟨hwell.records, hwell.owners, hwell.aliases⟩

theorem view_begin (s : Session) (x y : ModuleId) :
    (begin s x).view y = if y = x then (s.view y).begin x else s.view y :=
  view_markVisiting s x y

/-- A module that is taken up and concluded in one go. -/
theorem Built.takenUp {s' : Session} {x : ModuleId} (h : Built c x (begin s x) s') :
    TakenUp c x s s' ∧ s'.view x = c.concluded x ((s.view x).begin x) := by
  refine ⟨⟨(merged_begin x).trans h.merged, h.inFlight, fun y hy => ?_⟩, ?_⟩
  · rw [h.view, if_neg hy, view_begin, if_neg hy]
  · rw [h.view, if_pos rfl, view_begin, if_pos rfl]

/-- A module that no task has taken up is taken up in one of three ways. -/
theorem takeUp_turned {p : Pool} (hc : p.session.codebase w = c) {x : ModuleId} (hgo : ¬ Stops p.session x)
    (reportTo : ReportTo) : Turned c p (.start x reportTo) (p.takeUp w x reportTo) := by
  obtain ⟨s, hbuilt, heq⟩ := @conclude_built c w { p with session := begin p.session x } hc x reportTo
  obtain ⟨htaken, hview⟩ := hbuilt.takenUp
  rw [takeUp_eq_conclude, heq]
  unfold proceed
  cases hp : c.parse .concurrent x with
  | error fault =>
    -- the module has failed, and leads nowhere
    refine .ended hgo htaken ?_ ?_
    · rw [hview]
      simp only [Codebase.concluded, Codebase.settled, Codebase.linked, hp]
    · intro q hq
      rw [Codebase.find?_eq_none_of_parse hp] at hq
      cases hq
  | ok q =>
    have hfind := Codebase.find?_eq_some_of_parse hp
    simp only
    cases hts : c.targetsOf q with
    | error fault =>
      refine .unlinked hgo htaken ?_ hfind hts
      rw [hview]
      simp only [Codebase.concluded, Codebase.linked, hp, hts]
    | ok targets =>
      cases targets with
      | nil =>
        refine .ended hgo htaken ?_ ?_
        · rw [hview]
          simp only [Codebase.concluded, Codebase.settled, Codebase.linked, hp, hts]
        · intro q' hq'
          rw [hfind] at hq'
          cases hq'
          exact hts
      | cons target rest =>
        refine .waits hgo htaken ?_ hfind hts (List.cons_ne_nil target rest)
        rw [hview]
        simp only [Codebase.concluded, Codebase.linked, hp, hts]

end TakeUp

/-- Every turn has one of the effects listed. -/
theorem take_turned {c : Codebase} {w : World} {p : Pool} (hc : p.session.codebase w = c)
    (hcapacity : 0 ≤ c.resolver.config.maxConcurrency) (turn : Turn) : Turned c p turn (p.take w turn) := by
  cases turn with
  | start x reportTo =>
    show Turned c p _ (p.startTask w x reportTo)
    unfold startTask
    have hnot : ¬ p.session.config.maxConcurrency < 0 := by
      have hconfig : p.session.config = c.resolver.config := by
        rw [← hc]
        rfl
      rw [hconfig]
      omega
    split
    · -- the module is in flight or finished
      rename_i hstop
      exact .passedOver (by simpa [Stops] using hstop)
    · -- no task has taken up the module
      rename_i hgo
      exact takeUp_turned hc (by simpa [Stops] using hgo) reportTo
  | childEnded parent => exact .reported parent
  | resume task => exact .resumed task

/-- An invariant of turns holds at the end of a run; and if every turn decreases a measure that is bounded by the number
of turns, no turn is left then. By induction on the number of turns. -/
theorem run_induction {w : World} {P : Pool → Prop} {measure : Pool → Nat}
    (hstep : ∀ p turn rest, P p → p.queue = turn :: rest →
      P ({ p with queue := rest }.take w turn) ∧ measure ({ p with queue := rest }.take w turn) < measure p)
    (turns : Nat) (p : Pool) (hp : P p) (hmeasure : measure p ≤ turns) :
    P (run w turns p) ∧ (run w turns p).queue = [] := by
  induction turns generalizing p with
  | zero =>
    refine ⟨hp, ?_⟩
    cases hqueue : p.queue with
    | nil => exact hqueue
    | cons turn rest =>
      have hless := (hstep p turn rest hp hqueue).2
      omega
  | succ turns ih =>
    rw [run]
    cases hqueue : p.queue with
    | nil =>
      -- no turn is left
      exact ⟨hp, hqueue⟩
    | cons turn rest =>
      obtain ⟨hnext, hless⟩ := hstep p turn rest hp hqueue
      exact ih _ hnext (by omega)

/-- If the task of the root ends in its first turn and leaves the session as it is, the run ends with its outcome. -/
theorem run_of_startTask {w : World} {s : Session} {root : ModuleId} {outcome : Except Fault (List Name)}
    (h : startTask w { session := s } root none = { session := s, result := some outcome }) :
    run w (turnBound w) { session := s, queue := [.start root none] } = { session := s, result := some outcome } := by
  have hturns : turnBound w = (turnBound w - 1) + 1 := by
    unfold turnBound
    omega
  rw [hturns, run]
  show run w (turnBound w - 1) (startTask w { session := s } root none) = _
  rw [h]
  -- the queue is empty, however many turns are left
  cases turnBound w - 1 <;> rfl

end BlockingCalls.Session.Pool
