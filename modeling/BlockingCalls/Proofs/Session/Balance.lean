import BlockingCalls.Proofs.Session.Turns
import Mathlib.Algebra.GroupWithZero.Nat
import Mathlib.Data.List.Basic

/-!
# Every task gets its reports

A task that waits is resumed when as many reports have arrived as it has children. Liveness of the pool rests on an account
of the reports that are still *due*: a turn in the queue will cause a report of its task, and so will a task that waits,
once it is resumed. Each report is due to one task or, at the root, to the caller. The pool is *balanced* if each task waits
for exactly as many reports as are due to it, and the caller for one until there is a result.

Turns preserve the balance: a report is passed on, or replaced by those of the children and the one of the task that waits
for them. If no turn is left, reports can only be due from tasks that wait. A task reports to one that was suspended before
it, so the last task that waits would wait for nobody; hence none waits, and the caller has its result (`Balanced.done`).
Conversely, while any report is due one is due to the caller, so that a pool with a result has no turn left
(`Balanced.queue_eq_nil`).

Only the queue and the *slot* of each task matter here: where it reports to, and how many reports are missing.

## Results

* `Balanced.pass`, `Balanced.answer`, `Balanced.suspend`, `Balanced.report`  — the balance after each kind of turn.
* `Balanced.done`        — when the queue is empty no task waits and there is a result.
* `Balanced.queue_eq_nil` — if there is a result the queue is empty.
* `isBalanced_turned`    — a turn preserves the balance.
* `effort_finishTask_le`, `effort_suspend`, `effort_report_le`  — the effect of each kind of turn on the effort that is left.
-/

namespace BlockingCalls.Session.Pool

/-- What matters of a task for its reports: the task that it reports to, and the number of reports it waits for. -/
structure Slot where
  parent : Option Nat
  missing : Nat

/-- The task to which the task of a turn reports in the end; `none` stands for the caller. -/
def dueTo (slots : List Slot) : Turn → Option Nat
  | .start _ reportTo => reportTo.map (·.1)
  | .childEnded parent => some parent
  | .resume task => slots[task]?.bind (·.parent)

/-- The reports that are due from tasks that wait. -/
def dueLater (slots : List Slot) : List (Option Nat) :=
  slots.flatMap fun slot => if 0 < slot.missing then [slot.parent] else []

/-- All reports that are due. -/
def due (queue : List Turn) (slots : List Slot) : List (Option Nat) :=
  queue.map (dueTo slots) ++ dueLater slots

/-- The tasks that a turn speaks of are there, and a task that resumes waits for no report. -/
def Known (slots : List Slot) : Turn → Prop
  | .start _ reportTo => ∀ j, reportTo.map (·.1) = some j → j < slots.length
  | .childEnded parent => parent < slots.length
  | .resume task => ∃ slot, slots[task]? = some slot ∧ slot.missing = 0

/-- Each task waits for as many reports as are due to it, and so does the caller. -/
structure Balanced (queue : List Turn) (slots : List Slot) (answered : Bool) : Prop where
  known : ∀ turn ∈ queue, Known slots turn
  older : ∀ (i : Nat) (slot : Slot), slots[i]? = some slot → ∀ j, slot.parent = some j → j < i
  missing : ∀ (i : Nat) (slot : Slot), slots[i]? = some slot → (due queue slots).count (some i) = slot.missing
  caller : (due queue slots).count none = if answered then 0 else 1

-- ---------------------------------------------------------------------------
-- What is due when tasks change
-- ---------------------------------------------------------------------------

theorem due_cons (turn : Turn) (rest : List Turn) (slots : List Slot) :
    due (turn :: rest) slots = dueTo slots turn :: due rest slots :=
  rfl

/-- A turn that is queued last owes one report, up to the order of the list. -/
theorem due_concat (rest : List Turn) (turn : Turn) (slots : List Slot) :
    (due (rest ++ [turn]) slots).Perm (dueTo slots turn :: due rest slots) := by
  unfold due
  rw [List.map_append, List.append_assoc]
  exact List.perm_middle

theorem dueLater_append (a b : List Slot) : dueLater (a ++ b) = dueLater a ++ dueLater b :=
  List.flatMap_append

theorem dueLater_cons (slot : Slot) (rest : List Slot) :
    dueLater (slot :: rest) = (if 0 < slot.missing then [slot.parent] else []) ++ dueLater rest :=
  rfl

/-- What is due later when one task waits for another number of reports. -/
theorem dueLater_set {slots : List Slot} {i : Nat} {slot : Slot} (h : slots[i]? = some slot) (missing : Nat) :
    ((if 0 < slot.missing then [slot.parent] else []) ++ dueLater (slots.set i { slot with missing })).Perm
      ((if 0 < missing then [slot.parent] else []) ++ dueLater slots) := by
  induction slots generalizing i with
  | nil => cases h
  | cons first rest ih =>
    cases i with
    | zero =>
      -- the slot itself is replaced, and nothing behind it changes
      cases h
      rw [List.set_cons_zero, dueLater_cons, dueLater_cons]
      exact List.perm_append_comm_assoc ..
    | succ i =>
      -- the slot lies behind the first one, whose report is moved to the front and back
      rw [List.set_cons_succ, dueLater_cons, dueLater_cons]
      calc _ ++ (_ ++ dueLater (rest.set i { slot with missing }))
        List.Perm _ (_ ++ (_ ++ dueLater (rest.set i { slot with missing }))) := List.perm_append_comm_assoc ..
        List.Perm _ (_ ++ (_ ++ dueLater rest)) := (ih h).append_left _
        List.Perm _ _ := List.perm_append_comm_assoc ..

/-- A report that is due later is owed by a task that waits. -/
theorem mem_dueLater {slots : List Slot} {dest : Option Nat} (h : dest ∈ dueLater slots) :
    ∃ (i : Nat) (slot : Slot), slots[i]? = some slot ∧ 0 < slot.missing ∧ slot.parent = dest := by
  obtain ⟨slot, hslot, hdest⟩ := List.mem_flatMap.mp h
  obtain ⟨i, hi, rfl⟩ := List.mem_iff_getElem.mp hslot
  split at hdest
  · rename_i hopen
    exact ⟨i, _, List.getElem?_eq_getElem hi, hopen, (List.mem_singleton.mp hdest).symm⟩
  · cases hdest

/-- More tasks do not change what the turns of the others are about. -/
theorem dueTo_append {slots : List Slot} {turn : Turn} (h : Known slots turn) (more : List Slot) :
    dueTo (slots ++ more) turn = dueTo slots turn := by
  cases turn with
  | start x reportTo => rfl
  | childEnded parent => rfl
  | resume task =>
    obtain ⟨slot, hslot, _⟩ := h
    have hlt : task < slots.length := (List.getElem?_eq_some_iff.mp hslot).1
    rw [dueTo, dueTo, List.getElem?_append_left hlt]

/-- How many reports a task waits for does not change where it reports to. -/
theorem dueTo_set {slots : List Slot} {i : Nat} {slot : Slot} (h : slots[i]? = some slot) (missing : Nat)
    (turn : Turn) : dueTo (slots.set i { slot with missing }) turn = dueTo slots turn := by
  cases turn with
  | start x reportTo => rfl
  | childEnded parent => rfl
  | resume task =>
    rw [dueTo, dueTo, List.getElem?_set]
    by_cases htask : i = task
    · subst htask
      have hlt : i < slots.length := (List.getElem?_eq_some_iff.mp h).1
      rw [if_pos rfl, if_pos hlt, h]
      rfl
    · rw [if_neg htask]

/-- When a task has taken note of a report, the same is due as before beside that report: until the last one, its own
report is due from its slot, and then from the turn in which it resumes. -/
theorem due_set {slots : List Slot} {i : Nat} {slot : Slot} (hslot : slots[i]? = some slot) (hopen : 0 < slot.missing)
    (rest : List Turn) :
    (due (if slot.missing = 1 then rest ++ [.resume i] else rest)
      (slots.set i { slot with missing := slot.missing - 1 })).Perm (due rest slots) := by
  have hlater := dueLater_set hslot (slot.missing - 1)
  have hmap : rest.map (dueTo (slots.set i { slot with missing := slot.missing - 1 })) = rest.map (dueTo slots) :=
    List.map_congr_left fun turn _ => dueTo_set hslot _ turn
  rw [if_pos hopen] at hlater
  split
  · -- the last report: what was due from the slot is due from the turn in which the task is resumed
    rename_i hone
    rw [if_neg (by omega)] at hlater
    refine (due_concat ..).trans ?_
    rw [dueTo_set hslot, dueTo, hslot, due, due, hmap]
    exact List.perm_middle.symm.trans (hlater.append_left _)
  · -- another report is missing, so that the slot still owes its own
    rename_i hmore
    rw [if_pos (by omega), List.perm_append_left_iff] at hlater
    rw [due, due, hmap]
    exact hlater.append_left _

/-- A turn that is known remains so when tasks are added. -/
theorem known_append {slots : List Slot} {turn : Turn} (h : Known slots turn) (more : List Slot) :
    Known (slots ++ more) turn := by
  have hle : slots.length ≤ (slots ++ more).length := by simp
  cases turn with
  | start x reportTo => exact fun j hj => Nat.lt_of_lt_of_le (h j hj) hle
  | childEnded parent => exact Nat.lt_of_lt_of_le h hle
  | resume task =>
    obtain ⟨slot, hslot, hmissing⟩ := h
    have hlt : task < slots.length := (List.getElem?_eq_some_iff.mp hslot).1
    exact ⟨slot, by rw [List.getElem?_append_left hlt, hslot], hmissing⟩

/-- A turn of another task is known after a task has taken note of a report. -/
theorem known_set {slots : List Slot} {turn : Turn} (h : Known slots turn) {i : Nat} {slot : Slot}
    (hslot : slots[i]? = some slot) (hopen : 0 < slot.missing) (missing : Nat) :
    Known (slots.set i { slot with missing }) turn := by
  cases turn with
  | start x reportTo =>
    intro j hj
    rw [List.length_set]
    exact h j hj
  | childEnded parent =>
    show parent < _
    rw [List.length_set]
    exact h
  | resume task =>
    obtain ⟨other, hother, hmissing⟩ := h
    -- a task that is about to be resumed waits for nothing, so it is not the one that takes note
    have hne : i ≠ task := by
      rintro rfl
      rw [hslot] at hother
      cases hother
      omega
    exact ⟨other, by rw [List.getElem?_set_ne hne, hother], hmissing⟩

-- ---------------------------------------------------------------------------
-- Turns and the balance
-- ---------------------------------------------------------------------------

namespace Balanced

variable {turn : Turn} {rest : List Turn} {slots : List Slot} {answered : Bool}

/-- Reports are due to tasks that there are. -/
theorem lt_of_due {queue : List Turn} (h : Balanced queue slots answered) {j : Nat} (hj : some j ∈ due queue slots) :
    j < slots.length := by
  have hparent : ∀ (i : Nat) (slot : Slot), slots[i]? = some slot → slot.parent = some j → j < slots.length := by
    intro i slot hslot hparent
    have hi : i < slots.length := (List.getElem?_eq_some_iff.mp hslot).1
    exact Nat.lt_trans (h.older i slot hslot j hparent) hi
  -- the report is due from a turn, by case of the turn, or from a slot
  rcases List.mem_append.mp hj with hqueue | hlater
  · obtain ⟨turn, hturn, hdue⟩ := List.mem_map.mp hqueue
    have hknown := h.known turn hturn
    cases turn with
    | start x reportTo => exact hknown j hdue
    | childEnded parent =>
      cases hdue
      exact hknown
    | resume task =>
      obtain ⟨slot, hslot, _⟩ := hknown
      rw [dueTo, hslot] at hdue
      exact hparent task slot hslot hdue
  · obtain ⟨i, slot, hslot, _, hdue⟩ := mem_dueLater hlater
    exact hparent i slot hslot hdue

/-- The task of a turn ends, and its report is queued. -/
theorem pass (h : Balanced (turn :: rest) slots answered) {j : Nat} (hdue : dueTo slots turn = some j) :
    Balanced (rest ++ [.childEnded j]) slots answered := by
  -- what is due is the same up to order
  have hperm : (due (rest ++ [.childEnded j]) slots).Perm (due (turn :: rest) slots) := by
    rw [due_cons, hdue]
    exact due_concat rest (.childEnded j) slots
  refine ⟨?_, h.older, ?_, ?_⟩
  · -- the report is due to a task that there is
    intro other hother
    rcases List.mem_append.mp hother with hother | hother
    · exact h.known other (List.mem_cons_of_mem _ hother)
    · rw [List.mem_singleton.mp hother]
      exact h.lt_of_due (List.mem_append_left _ (List.mem_map.mpr ⟨turn, List.mem_cons_self, hdue⟩))
  · -- the counts of reports are those before
    intro i slot hslot
    rw [hperm.count_eq]
    exact h.missing i slot hslot
  · rw [hperm.count_eq]
    exact h.caller

/-- The task that reports to the caller ends. -/
theorem answer (h : Balanced (turn :: rest) slots answered) (hdue : dueTo slots turn = none) :
    Balanced rest slots true := by
  have hcons : due (turn :: rest) slots = none :: due rest slots := by rw [due_cons, hdue]
  refine ⟨fun other hother => h.known other (List.mem_cons_of_mem _ hother), h.older, ?_, ?_⟩
  · intro i slot hslot
    have hmissing := h.missing i slot hslot
    rw [hcons, List.count_cons_of_ne (by simp)] at hmissing
    exact hmissing
  · have hcaller := h.caller
    rw [hcons, List.count_cons_self] at hcaller
    -- the report was due, so there was no result yet
    split at hcaller
    · omega
    · rw [if_pos rfl]
      omega

/-- A task starts others and waits for them. -/
theorem suspend {x : ModuleId} {reportTo : ReportTo} (h : Balanced (.start x reportTo :: rest) slots answered)
    {starts : List Turn} (hpos : 0 < starts.length)
    (hstarts : ∀ turn ∈ starts, ∃ y place, turn = .start y (some (slots.length, place))) :
    Balanced (rest ++ starts) (slots ++ [⟨reportTo.map (·.1), starts.length⟩]) answered := by
  have hrest : ∀ turn ∈ rest, Known slots turn := fun turn hturn => h.known turn (List.mem_cons_of_mem _ hturn)
  have hmap : rest.map (dueTo (slots ++ [⟨reportTo.map (·.1), starts.length⟩])) = rest.map (dueTo slots) :=
    List.map_congr_left fun turn hturn => dueTo_append (hrest turn hturn) _
  have hstartsMap : starts.map (dueTo (slots ++ [⟨reportTo.map (·.1), starts.length⟩])) =
      List.replicate starts.length (some slots.length) := by
    rw [List.eq_replicate_iff]
    refine ⟨List.length_map _, ?_⟩
    intro dest hdest
    obtain ⟨turn, hturn, rfl⟩ := List.mem_map.mp hdest
    obtain ⟨y, place, rfl⟩ := hstarts turn hturn
    rfl
  -- what was due remains due, and the reports of the children besides
  have hcount : ∀ dest, (due (rest ++ starts) (slots ++ [⟨reportTo.map (·.1), starts.length⟩])).count dest =
      (due (.start x reportTo :: rest) slots).count dest +
        (List.replicate starts.length (some slots.length)).count dest := by
    intro dest
    have hlast : dueLater [⟨reportTo.map (·.1), starts.length⟩] = [reportTo.map (·.1)] := by
      rw [dueLater_cons, if_pos hpos]
      rfl
    unfold due
    rw [List.map_append, hmap, hstartsMap, dueLater_append, hlast, List.map_cons]
    simp only [List.count_append, List.count_cons, List.count_nil, dueTo]
    omega
  refine ⟨?_, ?_, ?_, ?_⟩
  · intro turn hturn
    rcases List.mem_append.mp hturn with hturn | hturn
    · exact known_append (hrest turn hturn) _
    · obtain ⟨y, place, rfl⟩ := hstarts turn hturn
      intro j hj
      cases hj
      simp
  · intro i slot hslot j hj
    rcases Nat.lt_or_ge i slots.length with hi | hi
    · rw [List.getElem?_append_left hi] at hslot
      exact h.older i slot hslot j hj
    · -- the new task reports to one that was there before
      have hknown : Known slots (.start x reportTo) := h.known _ List.mem_cons_self
      rw [List.getElem?_append_right hi] at hslot
      have hslot' := List.mem_singleton.mp (List.mem_of_getElem? hslot)
      subst hslot'
      exact Nat.lt_of_lt_of_le (hknown j hj) hi
  · intro i slot hslot
    rw [hcount]
    rcases Nat.lt_or_ge i slots.length with hi | hi
    · rw [List.getElem?_append_left hi] at hslot
      have hother : (List.replicate starts.length (some slots.length)).count (some i) = 0 := by
        rw [List.count_replicate, if_neg]
        rw [beq_iff_eq, Option.some.injEq]
        omega
      rw [h.missing i slot hslot, hother, Nat.add_zero]
    · have hi' : i = slots.length := by
        have hlt := (List.getElem?_eq_some_iff.mp hslot).1
        simp at hlt
        omega
      subst hi'
      -- nothing was due to a task that was not there
      have hnone : (due (.start x reportTo :: rest) slots).count (some slots.length) = 0 := by
        rw [List.count_eq_zero]
        exact fun hmem => Nat.lt_irrefl _ (h.lt_of_due hmem)
      rw [List.getElem?_append_right (Nat.le_refl _), Nat.sub_self] at hslot
      cases hslot
      rw [hnone, List.count_replicate_self, Nat.zero_add]
  · have hnone : (List.replicate starts.length (some slots.length)).count none = 0 := by
      rw [List.count_replicate, if_neg]
      simp
    rw [hcount, h.caller, hnone, Nat.add_zero]

/-- A report arrives; with the last one the task resumes. -/
theorem report {i : Nat} (h : Balanced (.childEnded i :: rest) slots answered) {slot : Slot}
    (hslot : slots[i]? = some slot) :
    Balanced (if slot.missing = 1 then rest ++ [.resume i] else rest)
      (slots.set i { slot with missing := slot.missing - 1 }) answered := by
  have hlt : i < slots.length := (List.getElem?_eq_some_iff.mp hslot).1
  have hopen : 0 < slot.missing := by
    rw [← h.missing i slot hslot, due_cons]
    exact List.count_pos_iff.mpr List.mem_cons_self
  have hrest : ∀ turn ∈ rest, Known (slots.set i { slot with missing := slot.missing - 1 }) turn :=
    fun turn hturn => known_set (h.known turn (List.mem_cons_of_mem _ hturn)) hslot hopen _
  have hperm : (some i :: due (if slot.missing = 1 then rest ++ [.resume i] else rest)
      (slots.set i { slot with missing := slot.missing - 1 })).Perm (due (.childEnded i :: rest) slots) := by
    rw [due_cons]
    exact (due_set hslot hopen rest).cons _
  refine ⟨?_, ?_, ?_, ?_⟩
  · -- turns are known: the others as before, and the resumption since nothing is missing then
    intro turn hturn
    split at hturn
    · rename_i hone
      rcases List.mem_append.mp hturn with hturn | hturn
      · exact hrest turn hturn
      · rw [List.mem_singleton.mp hturn]
        refine ⟨{ slot with missing := slot.missing - 1 }, List.getElem?_set_self hlt, ?_⟩
        show slot.missing - 1 = 0
        omega
    · exact hrest turn hturn
  · -- parents are older as before
    intro k other hother j hj
    rw [List.getElem?_set] at hother
    split at hother
    · rename_i hk
      cases hother
      exact hk ▸ h.older i slot hslot j hj
    · exact h.older k other hother j hj
  · -- the count of the task itself is one less, all others are unchanged
    intro k other hother
    have hcount := hperm.count_eq (some k)
    rw [List.getElem?_set] at hother
    split at hother
    · rename_i hk
      subst hk
      cases hother
      rw [List.count_cons_self, h.missing i slot hslot] at hcount
      show _ = slot.missing - 1
      omega
    · rename_i hk
      rw [List.count_cons_of_ne (by simpa using hk), h.missing k other hother] at hcount
      exact hcount
  · -- nothing has changed for the caller
    have hcount := hperm.count_eq none
    rw [List.count_cons_of_ne (by simp), h.caller] at hcount
    exact hcount

/-- When no turn is left no task waits. A task that waits would have a later one to wait for. -/
theorem missing_eq_zero (h : Balanced [] slots answered) (distance : Nat) (i : Nat) (slot : Slot)
    (hslot : slots[i]? = some slot) (hdistance : slots.length ≤ i + distance) : slot.missing = 0 := by
  induction distance generalizing i slot with
  | zero =>
    have hlt : i < slots.length := (List.getElem?_eq_some_iff.mp hslot).1
    omega
  | succ distance ih =>
    by_contra hopen
    have hdue : some i ∈ due [] slots := by
      rw [← List.count_pos_iff, h.missing i slot hslot]
      omega
    obtain ⟨k, other, hother, hwaits, hparent⟩ := mem_dueLater hdue
    have hlater : i < k := h.older k other hother i hparent
    have hzero := ih k other hother (by omega)
    omega

/-- When no turn is left no task waits, and there is a result. -/
theorem done (h : Balanced [] slots answered) : (∀ slot ∈ slots, slot.missing = 0) ∧ answered = true := by
  have hnone : ∀ slot ∈ slots, slot.missing = 0 := by
    intro slot hslot
    obtain ⟨i, hi, rfl⟩ := List.mem_iff_getElem.mp hslot
    exact h.missing_eq_zero slots.length i _ (List.getElem?_eq_getElem hi) (by omega)
  refine ⟨hnone, ?_⟩
  have hdue : due [] slots = [] := by
    rw [List.eq_nil_iff_forall_not_mem]
    intro dest hdest
    obtain ⟨i, slot, hslot, hopen, _⟩ := mem_dueLater hdest
    have hzero := hnone slot (List.mem_of_getElem? hslot)
    omega
  have hcaller := h.caller
  rw [hdue] at hcaller
  cases answered with
  | false => cases hcaller
  | true => rfl

/-- While any report is due, one is due to the caller. By induction on the number of the task to which it is due: that task
waits, so its own report is due to an older one or to the caller. -/
theorem none_mem_due {queue : List Turn} (h : Balanced queue slots answered) {dest : Option Nat}
    (hdest : dest ∈ due queue slots) : none ∈ due queue slots := by
  cases dest with
  | none => exact hdest
  | some i =>
    induction i using Nat.strongRecOn with
    | ind i ih =>
      obtain ⟨slot, hslot⟩ : ∃ slot, slots[i]? = some slot := ⟨_, List.getElem?_eq_getElem (h.lt_of_due hdest)⟩
      have hopen : 0 < slot.missing := by
        rw [← h.missing i slot hslot]
        exact List.count_pos_iff.mpr hdest
      have hparent : slot.parent ∈ due queue slots := by
        refine List.mem_append_right _ (List.mem_flatMap.mpr ⟨slot, List.mem_of_getElem? hslot, ?_⟩)
        rw [if_pos hopen]
        exact List.mem_singleton.mpr rfl
      cases hdue : slot.parent with
      | none => exact hdue ▸ hparent
      | some j => exact ih j (h.older i slot hslot j hdue) (hdue ▸ hparent)

/-- When there is a result no turn is left. -/
theorem queue_eq_nil {queue : List Turn} (h : Balanced queue slots true) : queue = [] := by
  cases queue with
  | nil => rfl
  | cons turn rest =>
    have hdue : dueTo slots turn ∈ due (turn :: rest) slots := List.mem_cons_self
    have hcaller := h.caller
    rw [if_pos rfl, List.count_eq_zero] at hcaller
    exact absurd (h.none_mem_due hdue) hcaller

end Balanced

-- ---------------------------------------------------------------------------
-- The balance of a pool
-- ---------------------------------------------------------------------------

/-- The slot of a suspended task. -/
def slot (task : Suspended) : Slot :=
  ⟨task.reportTo.map (·.1), task.missing⟩

/-- The slots of all suspended tasks, by number. -/
def slots (p : Pool) : List Slot :=
  p.suspended.map slot

theorem getElem?_slots (p : Pool) (i : Nat) : p.slots[i]? = (p.suspended[i]?).map slot :=
  List.getElem?_map ..

/-- The balance of a pool: of its queue, its slots and its result. -/
def IsBalanced (p : Pool) : Prop :=
  Balanced p.queue p.slots p.result.isSome

/-- Faults are recorded in tasks without touching their slots. -/
theorem map_slot_modify (tasks : List Suspended) (task place : Nat) (fault : Option Fault) :
    (tasks.modify task (setFault fault place)).map slot = tasks.map slot := by
  apply List.ext_getElem?
  intro i
  rw [List.getElem?_map, List.getElem?_map, List.getElem?_modify]
  cases tasks[i]? with
  | none => rfl
  | some t =>
    -- a fault is no part of a slot
    by_cases htask : task = i
    · simp [htask, slot, setFault]
    · simp [htask]

/-- A task that ends changes no slot: at most a fault is stored in its parent. -/
theorem slots_finishTask (p : Pool) (outcome : Except Fault (List Name)) (reportTo : ReportTo) :
    (p.finishTask outcome reportTo).slots = p.slots := by
  cases reportTo with
  | none => rfl
  | some place =>
    cases outcome with
    | ok names => rfl
    | error fault => exact map_slot_modify ..

theorem slots_suspend (p : Pool) (m : Loaded) (reportTo : ReportTo) (targets : List ModuleId) :
    (p.suspend m reportTo targets).slots = p.slots ++ [⟨reportTo.map (·.1), targets.length⟩] :=
  List.map_append

/-- A report that arrives reduces what its task waits for by one. -/
theorem slots_report {p : Pool} {parent : Nat} {task : Suspended} (h : p.suspended[parent]? = some task) :
    (p.report parent).slots = p.slots.set parent ⟨(slot task).parent, (slot task).missing - 1⟩ := by
  unfold report
  rw [h]
  exact List.map_set

/-- The task of a turn ends: the balance is kept whether it reports to a task or to the caller. -/
theorem isBalanced_finishTask {p : Pool} {turn : Turn} (h : Balanced (turn :: p.queue) p.slots p.result.isSome)
    (outcome : Except Fault (List Name)) {reportTo : ReportTo}
    (hdue : dueTo p.slots turn = reportTo.map (·.1)) : (p.finishTask outcome reportTo).IsBalanced := by
  unfold IsBalanced
  rw [slots_finishTask]
  cases reportTo with
  | none => exact h.answer hdue
  | some place => exact h.pass hdue

/-- A task that starts children and waits for them preserves the balance. -/
theorem isBalanced_suspend {p : Pool} {x : ModuleId} {reportTo : ReportTo}
    (h : Balanced (.start x reportTo :: p.queue) p.slots p.result.isSome) (m : Loaded) {targets : List ModuleId}
    (hne : targets ≠ []) : (p.suspend m reportTo targets).IsBalanced := by
  have hlength : p.suspended.length = p.slots.length := (List.length_map _).symm
  have hstarts : (targets.zipIdx.map fun target =>
      Turn.start target.1 (some (p.suspended.length, target.2))).length = targets.length := by simp
  unfold IsBalanced
  rw [slots_suspend, ← hstarts]
  refine h.suspend ?_ ?_
  · rw [hstarts]
    exact List.length_pos_iff.mpr hne
  · intro turn hturn
    obtain ⟨target, _, rfl⟩ := List.mem_map.mp hturn
    exact ⟨target.1, target.2, by rw [hlength]⟩

/-- A report that arrives preserves the balance. -/
theorem isBalanced_report {p : Pool} {parent : Nat}
    (h : Balanced (.childEnded parent :: p.queue) p.slots p.result.isSome) : (p.report parent).IsBalanced := by
  have hlt : parent < p.slots.length := h.known _ List.mem_cons_self
  rw [slots, List.length_map] at hlt
  obtain ⟨task, htask⟩ : ∃ task, p.suspended[parent]? = some task := ⟨_, List.getElem?_eq_getElem hlt⟩
  have hslot : p.slots[parent]? = some (slot task) := by rw [getElem?_slots, htask]; rfl
  unfold IsBalanced
  rw [slots_report htask, report, htask]
  exact h.report hslot

/-- A task that is resumed ends, which preserves the balance. -/
theorem isBalanced_resumeTask {p : Pool} {task : Nat}
    (h : Balanced (.resume task :: p.queue) p.slots p.result.isSome) : (p.resumeTask task).IsBalanced := by
  obtain ⟨_, hslot, _⟩ := h.known _ List.mem_cons_self
  rw [getElem?_slots] at hslot
  obtain ⟨t, ht, _⟩ := Option.map_eq_some_iff.mp hslot
  have hdue : dueTo p.slots (.resume task) = t.reportTo.map (·.1) := by
    rw [dueTo, getElem?_slots, ht]
    rfl
  unfold resumeTask
  rw [ht]
  exact @isBalanced_finishTask { p with session := (failChildren p.session t.children).markDone t.moduleId } _ h
    (.ok t.directBlocking) t.reportTo hdue

/-- A turn keeps the balance. -/
theorem isBalanced_turned {c : Codebase} {p p' : Pool} {turn : Turn} {rest : List Turn} (hp : p.IsBalanced)
    (hqueue : p.queue = turn :: rest) (hturn : Turned c { p with queue := rest } turn p') : p'.IsBalanced := by
  have h : Balanced (turn :: rest) p.slots p.result.isSome := hqueue ▸ hp
  -- one lemma for each kind of turn; the first three end the task of the turn
  cases hturn with
  | passedOver stop => exact isBalanced_finishTask h _ rfl
  | ended go taken view childless => exact isBalanced_finishTask h _ rfl
  | unlinked go taken view parsed targets => exact isBalanced_finishTask h _ rfl
  | waits go taken view parsed targets some_target => exact isBalanced_suspend h _ some_target
  | reported parent => exact isBalanced_report h
  | resumed task => exact isBalanced_resumeTask h

-- ---------------------------------------------------------------------------
-- Effort
-- ---------------------------------------------------------------------------

/-- What a turn and all that follows from it without starting tasks can cost. -/
def Turn.effort : Turn → Nat
  | .start _ _ => 3
  | .resume _ => 2
  | .childEnded _ => 1

/-- What is left to be done if no more tasks are started; a task that waits will resume. -/
def effort (p : Pool) : Nat :=
  (p.queue.map Turn.effort).sum + 2 * (dueLater p.slots).length

/-- A task that ends adds at most its report to the effort. -/
theorem effort_finishTask_le (p : Pool) (outcome : Except Fault (List Name)) (reportTo : ReportTo) :
    (p.finishTask outcome reportTo).effort ≤ p.effort + 1 := by
  unfold effort
  rw [slots_finishTask]
  cases reportTo with
  | none =>
    show (p.queue.map Turn.effort).sum + _ ≤ _
    omega
  | some place =>
    show ((p.queue ++ [Turn.childEnded place.1]).map Turn.effort).sum + _ ≤ _
    rw [List.map_append, List.sum_append]
    show _ + 1 + _ ≤ _
    omega

/-- The effort of the turns that start the children of a task. By induction on the children. -/
theorem sum_effort_starts (task : Nat) (targets : List (ModuleId × Nat)) :
    ((targets.map fun target => Turn.start target.1 (some (task, target.2))).map Turn.effort).sum =
      3 * targets.length := by
  induction targets with
  | nil => rfl
  | cons target rest ih =>
    rw [List.map_cons, List.map_cons, List.sum_cons, ih, List.length_cons]
    show 3 + _ = _
    omega

/-- A task that is suspended adds the effort of its children and that of its own resumption. -/
theorem effort_suspend (p : Pool) (m : Loaded) (reportTo : ReportTo) {targets : List ModuleId} (hne : targets ≠ []) :
    (p.suspend m reportTo targets).effort = p.effort + 3 * targets.length + 2 := by
  have hpos : 0 < targets.length := List.length_pos_iff.mpr hne
  have hstarts := sum_effort_starts p.suspended.length targets.zipIdx
  rw [List.length_zipIdx] at hstarts
  unfold effort
  rw [slots_suspend, dueLater_append, List.length_append, dueLater_cons, if_pos hpos]
  show ((p.queue ++ _).map Turn.effort).sum + 2 * (_ + 1) = _
  rw [List.map_append, List.sum_append, hstarts]
  omega

/-- A report that arrives costs nothing but its turn: with the last one, what was due from the slot of the task is due
from its turn. -/
theorem effort_report_le (p : Pool) (parent : Nat) : (p.report parent).effort ≤ p.effort := by
  cases htask : p.suspended[parent]? with
  | none =>
    have hself : p.report parent = p := by rw [report, htask]
    exact Nat.le_of_eq (congrArg effort hself)
  | some task =>
    have hslot : p.slots[parent]? = some (slot task) := by rw [getElem?_slots, htask]; rfl
    have hlength := (dueLater_set hslot ((slot task).missing - 1)).length_eq
    have hqueue : (p.report parent).queue =
        if (slot task).missing = 1 then p.queue ++ [.resume parent] else p.queue := by
      rw [report, htask]
      rfl
    rw [List.length_append, List.length_append] at hlength
    unfold effort
    rw [slots_report htask, hqueue]
    by_cases hone : (slot task).missing = 1
    · -- the last report
      rw [if_pos (by omega), if_neg (by omega), List.length_singleton, List.length_nil] at hlength
      rw [if_pos hone, List.map_append, List.sum_append]
      show _ + 2 + _ ≤ _
      omega
    · rw [if_neg hone]
      by_cases hzero : (slot task).missing = 0
      · rw [if_neg (by omega), if_neg (by omega)] at hlength
        omega
      · rw [if_pos (by omega), if_pos (by omega)] at hlength
        omega

end BlockingCalls.Session.Pool
