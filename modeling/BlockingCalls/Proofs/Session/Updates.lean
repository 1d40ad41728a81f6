import BlockingCalls.Proofs.Session.Merged
import Mathlib.Data.List.Nodup
import Mathlib.Logic.Relation

/-!
# The single changes of a session

An analysis changes a session by a handful of operations: a module is taken up, loaded, linked import by import, marked
as done or recorded as failed. Each of them is an *update*. An update *advances* the session when it leaves all modules
alone that are finished, and reads no module that was read before.

Whether an update advances the session depends on the state in which it is made: the operations themselves overwrite
whatever they find. Here each operation has its precondition; that the analyses make no other updates is shown where they
are treated.

## Results

* `advance_load`, `advance_link`, `advance_markDone`, `advance_fail`  — when an update advances the session.
* `Advances.frozen`, `Advances.nodup_reads`                           — what any number of such updates keeps.
-/

namespace BlockingCalls.Session

open Relation (ReflTransGen)

/-- One change of a session. -/
inductive Update : Session → Session → Prop
  /-- The tables stay as they are: the root, the log, the modules in flight or the outcome has changed. -/
  | aside {s s' : Session} (program : s'.program = s.program) (parsed : s'.parsed = s.parsed)
      (locations : s'.locations = s.locations) (reads : s'.reads = s.reads) (requests : s'.requests = s.requests) :
      Update s s'
  | markVisiting (s : Session) (x : ModuleId) : Update s (s.markVisiting x)
  | load (s : Session) (mode : Mode) (w : World) (x : ModuleId) : Update s (s.load mode w x).1
  | link (s : Session) (m : Loaded) (declaration : ImportDeclaration) : Update s (s.link m declaration).1
  | markDone (s : Session) (x : ModuleId) : Update s (s.markDone x)
  | fail (s : Session) (x : ModuleId) (fault : Fault) : Update s (s.fail x fault)

/-- What was finished is as it was: record, parsed tree and aliases. -/
def Frozen (s s' : Session) : Prop :=
  ∀ x, s.isFinished x = true → s'.view x = s.view x

/-- One change that leaves finished modules alone and reads at most one module, which was not read before. -/
structure Advance (s s' : Session) : Prop where
  update : Update s s'
  frozen : Frozen s s'
  reads : s'.reads = s.reads ∨ ∃ x, x ∉ s.reads ∧ s'.reads = s.reads ++ [x]

/-- Any number of such changes. -/
abbrev Advances : Session → Session → Prop :=
  ReflTransGen Advance

-- ---------------------------------------------------------------------------
-- Finished modules
-- ---------------------------------------------------------------------------

theorem isFinished_of_view {s s' : Session} {x : ModuleId} (h : s'.view x = s.view x) :
    s'.isFinished x = s.isFinished x := by
  rw [isFinished_eq, isFinished_eq, h]

theorem Frozen.isFinished {s s' : Session} {x : ModuleId} (h : Frozen s s') (hx : s.isFinished x = true) :
    s'.isFinished x = true := by
  rw [isFinished_of_view (h x hx), hx]

theorem Frozen.trans {s s' s'' : Session} (h : Frozen s s') (h' : Frozen s' s'') : Frozen s s'' := by
  intro x hx
  rw [h' x (h.isFinished hx), h x hx]

/-- A change to one module that is not finished leaves finished modules alone. -/
theorem frozen_of_others {s s' : Session} {x : ModuleId} (hx : s.isFinished x = false)
    (hothers : ∀ y, y ≠ x → s'.view y = s.view y) : Frozen s s' := by
  intro y hy
  refine hothers y ?_
  rintro rfl
  rw [hx] at hy
  cases hy

theorem isFinished_markVisiting (s : Session) (x : ModuleId) : (s.markVisiting x).isFinished x = false := by
  rw [isFinished_eq, view_markVisiting, if_pos rfl]
  rfl

/-- A load that succeeds does not finish its module. -/
theorem isFinished_load {s : Session} {mode : Mode} {w : World} {x : ModuleId} {m : Loaded}
    (hx : s.isFinished x = false) (hload : (s.load mode w x).2 = some m) : (s.load mode w x).1.isFinished x = false := by
  rw [isFinished_eq, view_load, if_pos rfl, Codebase.load]
  cases hp : (s.codebase w).parse mode x with
  | error fault =>
    -- a load that fails returns nothing
    rw [load_of_parse_error hp] at hload
    cases hload
  | ok p =>
    -- registering keeps the progress of the record
    rw [isFinished_eq] at hx
    unfold View.isFinished View.register at *
    cases hrecord : (s.view x).record with
    | none => rfl
    | some record => simpa [hrecord] using hx

/-- Linking an import does not change which modules are finished. -/
theorem isFinished_link (s : Session) (m : Loaded) (declaration : ImportDeclaration) (x : ModuleId) :
    (s.link m declaration).1.isFinished x = s.isFinished x := by
  unfold link
  split
  · rfl
  · rfl
  · rw [isFinished_eq, isFinished_eq, view_recordAliases]
    split <;> rfl

-- ---------------------------------------------------------------------------
-- What is in flight
-- ---------------------------------------------------------------------------

/-- A load takes up no module. -/
theorem inFlight_load (s : Session) (mode : Mode) (w : World) (x : ModuleId) :
    (s.load mode w x).1.inFlight = s.inFlight := by
  unfold load
  simp only
  split <;> rfl

theorem inFlight_link (s : Session) (m : Loaded) (declaration : ImportDeclaration) :
    (s.link m declaration).1.inFlight = s.inFlight := by
  unfold link
  split <;> rfl

-- ---------------------------------------------------------------------------
-- When an update advances the session
-- ---------------------------------------------------------------------------

/-- A change that leaves the tables alone advances the session. -/
theorem advance_aside {s s' : Session} (hprogram : s'.program = s.program) (hparsed : s'.parsed = s.parsed)
    (hlocations : s'.locations = s.locations) (hreads : s'.reads = s.reads) (hrequests : s'.requests = s.requests) :
    Advance s s' := by
  refine ⟨.aside hprogram hparsed hlocations hreads hrequests, ?_, .inl hreads⟩
  intro x _
  simp only [view, hprogram, hparsed]

theorem advance_markVisiting {s : Session} {x : ModuleId} (hx : s.isFinished x = false) :
    Advance s (s.markVisiting x) := by
  refine ⟨.markVisiting s x, frozen_of_others hx fun y hy => ?_, .inl rfl⟩
  rw [view_markVisiting, if_neg hy]

theorem advance_load {s : Session} {x : ModuleId} (hx : s.isFinished x = false) (hunread : x ∉ s.reads) (mode : Mode)
    (w : World) : Advance s (s.load mode w x).1 := by
  refine ⟨.load s mode w x, frozen_of_others hx fun y hy => ?_, .inr ⟨x, hunread, (merged_load s mode w x).reads⟩⟩
  rw [view_load, if_neg hy]

/-- Linking an import of a module that is not finished advances the session. -/
theorem advance_link {s : Session} {m : Loaded} (hm : s.isFinished m.summary.moduleId = false)
    (declaration : ImportDeclaration) : Advance s (s.link m declaration).1 := by
  refine ⟨.link s m declaration, frozen_of_others hm fun y hy => ?_, .inl ?_⟩
  · unfold link
    split
    · rfl
    · rfl
    · rw [view_recordAliases, if_neg hy]
  · unfold link
    split <;> rfl

theorem advance_markDone {s : Session} {x : ModuleId} (hx : s.isFinished x = false) : Advance s (s.markDone x) := by
  refine ⟨.markDone s x, frozen_of_others hx fun y hy => ?_, .inl rfl⟩
  rw [view_markDone, if_neg hy]

theorem advance_fail {s : Session} {x : ModuleId} (hx : s.isFinished x = false) (fault : Fault) :
    Advance s (s.fail x fault) := by
  refine ⟨.fail s x fault, frozen_of_others hx fun y hy => ?_, .inl rfl⟩
  rw [view_fail, if_neg hy]

-- ---------------------------------------------------------------------------
-- What advances keep
-- ---------------------------------------------------------------------------

/-- Any number of advances leaves finished modules alone. By induction on the chain. -/
theorem Advances.frozen {s s' : Session} (h : Advances s s') : Frozen s s' := by
  induction h with
  | refl => exact fun _ _ => rfl
  | tail _ hlast ih => exact ih.trans hlast.frozen

/-- Any number of advances reads no module twice. By induction on the chain: each advance appends a module that was not
read. -/
theorem Advances.nodup_reads {s s' : Session} (h : Advances s s') (hs : s.reads.Nodup) : s'.reads.Nodup := by
  induction h with
  | refl => exact hs
  | tail _ hlast ih =>
    rcases hlast.reads with heq | ⟨x, hx, heq⟩
    · rw [heq]
      exact ih
    · rw [heq, ← List.concat_eq_append]
      exact List.Nodup.concat hx ih

end BlockingCalls.Session
