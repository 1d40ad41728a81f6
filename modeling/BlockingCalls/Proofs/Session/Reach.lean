import BlockingCalls.Proofs.Session.Merged
import BlockingCalls.Session.Traversal

/-!
# What a depth-first analysis reaches

A module is entered unless it is being visited or finished; there the traversal *stops*. The modules that a terminating
analysis has entered are exactly those reachable along imports through modules at which the initial state does not stop.

Two things make that less than obvious. The set of modules to stop at grows during the traversal, and a module is marked
as done only after everything reachable through its imports has been entered. `Entered` is the invariant for both: it
relates two states of a traversal by the list of modules entered between them, gives the views of these modules in the
later state, and says that the list is closed under imports up to the modules at which the *earlier* state stops. Since
the later state stops at no module beside those and the ones in the list (`Entered.stops_iff`), the relation composes
(`Entered.trans`), and following a list of imports is an iterated composition.

While a module's imports are followed its own view is still open: each import adds local names to it. `Entered`
therefore has two more indices: one module, the owner, and the bindings added to its view.

## Results

* `enter_entered`              — what one entry does, by induction on the depth.
* `analyzeModule_entered`      — the same for a whole analysis, with reachability as an equivalence.
* `analyzeModule_exact_reach`  — exactly the reachable modules are read, once each, and settled; no other is touched.
-/

namespace BlockingCalls

open Session (View Merged Loaded)

namespace Traversal

/-- The traversal does not enter the module. -/
def Stops (t : Traversal) (x : ModuleId) : Prop :=
  x ∈ t.visiting ∨ t.session.isFinished x = true

/-- Between two moments of a traversal the modules `ids` were entered and settled, and beside that the owner's view
has gained the given bindings. -/
structure Entered (c : Codebase) (owner : ModuleId) (bindings : List (Name × Alias)) (t t' : Traversal)
    (ids : List ModuleId) : Prop where
  merged : Merged c .waiting t.session t'.session ids
  nodup : ids.Nodup
  fresh : ∀ x ∈ ids, ¬ t.Stops x
  visiting : ∀ x, x ∈ t'.visiting ↔ x ∈ t.visiting ∨ x ∈ ids
  resolved : ∀ x ∈ ids, ∀ p, c.find? x = some p → ∃ ts, c.targetsOf p = .ok ts
  inside : ∀ x ∈ ids, t'.session.view x = c.settled .waiting x (t.session.view x)
  outside : ∀ x, x ∉ ids →
    t'.session.view x = if x = owner then (t.session.view x).bind bindings else t.session.view x
  closed : ∀ x ∈ ids, ∀ y, c.Imports x y → y ∈ ids ∨ t.Stops y

namespace Entered

variable {c : Codebase} {owner : ModuleId} {bindings bindings' : List (Name × Alias)} {t t' t'' : Traversal}
  {ids ids' : List ModuleId}

/-- The later moment stops where the earlier one does, and at what was entered in between. -/
theorem stops_iff (h : Entered c owner bindings t t' ids) (x : ModuleId) : t'.Stops x ↔ t.Stops x ∨ x ∈ ids := by
  unfold Stops
  rw [h.visiting]
  by_cases hx : x ∈ ids
  · simp [hx]
  · have hfinished : t'.session.isFinished x = t.session.isFinished x := by
      rw [Session.isFinished_eq, Session.isFinished_eq, h.outside x hx]
      split <;> rfl
    rw [hfinished]
    tauto

/-- Where nothing is bound, modules that are not entered stay as they are. -/
theorem view_of_not_mem (h : Entered c owner [] t t' ids) {x : ModuleId} (hx : x ∉ ids) :
    t'.session.view x = t.session.view x := by
  have hview := h.outside x hx
  rwa [Session.View.bind_nil, ite_self] at hview

/-- A step that binds local names of the owner and enters nothing. -/
theorem of_link (hmerged : Merged c .waiting t.session t'.session []) (hvisiting : t'.visiting = t.visiting)
    (hview : ∀ x, t'.session.view x = if x = owner then (t.session.view x).bind bindings else t.session.view x) :
    Entered c owner bindings t t' [] where
  merged := hmerged
  nodup := List.nodup_nil
  fresh := by simp
  visiting := by simp [hvisiting]
  resolved := by simp
  inside := by simp
  outside x _ := hview x
  closed := by simp

theorem refl (t : Traversal) : Entered c owner [] t t [] :=
  .of_link (.refl _) rfl fun x => by simp

/-- **Entered segments compose.** The modules entered in the second segment are disjoint from those of the first, since
the state in between stops at the latter. The owner is being visited, so it is in neither. -/
theorem trans (howner : owner ∈ t.visiting) (h : Entered c owner bindings t t' ids)
    (h' : Entered c owner bindings' t' t'' ids') : Entered c owner (bindings ++ bindings') t t'' (ids ++ ids') := by
  have hdisjoint : ∀ x ∈ ids', x ∉ ids := fun x hx hmem => h'.fresh x hx ((h.stops_iff x).mpr (.inr hmem))
  have hne : ∀ x ∈ ids', x ≠ owner := by
    rintro x hx rfl
    exact h'.fresh x hx ((h.stops_iff x).mpr (.inl (.inl howner)))
  have hne_first : ∀ x ∈ ids, x ≠ owner := by
    rintro x hx rfl
    exact h.fresh x hx (.inl howner)
  refine ⟨h.merged.trans h'.merged, ?_, ?_, ?_, ?_, ?_, ?_, ?_⟩
  · -- no module is entered twice
    exact List.nodup_append.mpr ⟨h.nodup, h'.nodup, fun x hx y hy heq => hdisjoint y hy (heq ▸ hx)⟩
  · -- fresh: the state in between stops wherever the first one does
    intro x hx
    rcases List.mem_append.mp hx with hx | hx
    · exact h.fresh x hx
    · exact fun hstop => h'.fresh x hx ((h.stops_iff x).mpr (.inl hstop))
  · -- visiting: both segments add what they enter
    intro x
    rw [h'.visiting, h.visiting, List.mem_append, or_assoc]
  · -- resolved: inherited from both segments
    intro x hx
    rcases List.mem_append.mp hx with hx | hx
    · exact h.resolved x hx
    · exact h'.resolved x hx
  · -- inside: a module is settled in one segment and untouched in the other
    intro x hx
    rcases List.mem_append.mp hx with hx | hx
    · -- entered first: settled then, and untouched afterwards
      rw [h'.outside x fun hmem => hdisjoint x hmem hx, if_neg (hne_first x hx), h.inside x hx]
    · -- entered second: its view was still the initial one
      rw [h'.inside x hx, h.outside x (hdisjoint x hx), if_neg (hne x hx)]
  · -- outside: only the owner's view changes, by the bindings of both segments
    intro x hx
    rw [List.mem_append, not_or] at hx
    rw [h'.outside x hx.2, h.outside x hx.1]
    split
    · rw [View.bind_append]
    · rfl
  · -- closed: a module at which the second segment stops may have been entered in the first
    intro x hx y himports
    rcases List.mem_append.mp hx with hx | hx
    · rcases h.closed x hx y himports with hy | hy
      · exact .inl (List.mem_append_left _ hy)
      · exact .inr hy
    · rcases h'.closed x hx y himports with hy | hy
      · exact .inl (List.mem_append_right _ hy)
      · rcases (h.stops_iff y).mp hy with hy | hy
        · exact .inr hy
        · exact .inl (List.mem_append_left _ hy)

end Entered

-- ---------------------------------------------------------------------------
-- Following imports
-- ---------------------------------------------------------------------------

/-- What an entry at a module does when it returns: it stops there, or enters the module and what is reached from it. -/
def Enters (c : Codebase) (t t' : Traversal) (x : ModuleId) : Prop :=
  ∃ ids, (∀ owner, Entered c owner [] t t' ids) ∧ (x ∈ ids ∨ t.Stops x) ∧ ∀ y ∈ ids, c.Reach t.Stops x y

/-- Linking an import of the owner, seen as a step of the traversal. -/
theorem entered_link {c : Codebase} {w : World} {t : Traversal} (hc : t.session.codebase w = c) (m : Loaded)
    (d : ImportDeclaration) :
    Entered c m.summary.moduleId (c.bindings m.location [d]) t { t with session := (t.session.link m d).1 } [] := by
  subst hc
  exact .of_link (Session.merged_link ..) rfl fun x => Session.view_link ..

/-- Following a list of imports that all lead somewhere or are skipped. -/
theorem follow_entered {c : Codebase} {w : World} {enter : Traversal → ModuleId → Traversal × Except Fault (List Name)}
    (henter : ∀ t x t' names, t.session.codebase w = c → enter t x = (t', .ok names) → Enters c t t' x)
    (m : Loaded) (imports : List ImportDeclaration) (t t' : Traversal) (hc : t.session.codebase w = c)
    (howner : m.summary.moduleId ∈ t.visiting) (h : follow enter m t imports = (t', .ok ())) :
    ∃ ids ts, c.targets m.location imports = .ok ts ∧
      Entered c m.summary.moduleId (c.bindings m.location imports) t t' ids ∧
      (∀ y ∈ ts, y ∈ ids ∨ t.Stops y) ∧ ∀ x ∈ ids, ∃ y ∈ ts, c.Reach t.Stops y x := by
  induction imports generalizing t with
  | nil =>
    cases h
    exact ⟨[], [], rfl, .refl _, by simp, by simp⟩
  | cons d rest ih =>
    have hresolver : t.session.resolver = c.resolver := by rw [← hc]; rfl
    have hlinked := entered_link hc m d
    rw [follow] at h
    rcases Session.link_cases t.session m d with ⟨fault, _, hlink⟩ | ⟨reason, hresolve, hlink⟩ |
      ⟨target, isRemote, hresolve, hlink⟩
    · -- an unresolved import: nothing is returned
      rw [hlink] at h
      cases h
    · -- a skipped import: nothing is bound, nothing is entered
      rw [hresolver] at hresolve
      rw [hlink] at h
      obtain ⟨ids, ts, hts, hentered, hcover, hreach⟩ :=
        ih _ ((hlinked.merged.codebase w).trans hc) howner h
      have hstops := hlinked.stops_iff
      simp only [List.not_mem_nil, or_false] at hstops
      refine ⟨ids, ts, ?_, ?_, ?_, ?_⟩
      · rw [Codebase.targets, hresolve]
        exact hts
      · rw [Codebase.bindings_cons_of_ok hresolve]
        exact hlinked.trans howner hentered
      · intro y hy
        exact (hcover y hy).imp id (hstops y).mp
      · intro x hx
        obtain ⟨y, hy, hxy⟩ := hreach x hx
        exact ⟨y, hy, hxy.anti fun z hz => (hstops z).mpr hz⟩
    · -- the import leads to a module, which is entered before the rest is followed
      rw [hresolver] at hresolve
      rw [hlink] at h
      simp only at h
      split at h
      · -- the call has failed, and so has the whole list
        cases h
      · -- the call has returned: compose the link, the call and the rest
        rename_i t₁ names hcall
        have hc₁ := (hlinked.merged.codebase w).trans hc
        obtain ⟨ids₁, hentered₁, htarget, hreach₁⟩ := henter _ _ _ _ hc₁ hcall
        have hboth := hlinked.trans howner (hentered₁ m.summary.moduleId)
        rw [List.append_nil, List.nil_append] at hboth
        have howner₁ : m.summary.moduleId ∈ t₁.visiting := (hboth.visiting _).mpr (.inl howner)
        obtain ⟨ids, ts, hts, hentered, hcover, hreach⟩ :=
          ih t₁ ((hboth.merged.codebase w).trans hc) howner₁ h
        have hstops := hlinked.stops_iff
        simp only [List.not_mem_nil, or_false] at hstops
        refine ⟨ids₁ ++ ids, target :: ts, ?_, ?_, ?_, ?_⟩
        · rw [Codebase.targets, hresolve]
          simp only
          rw [hts]
          rfl
        · rw [Codebase.bindings_cons_of_ok hresolve]
          exact hboth.trans howner hentered
        · -- every target is entered in the call, in the rest, or stopped at initially
          intro y hy
          rcases List.mem_cons.mp hy with rfl | hy
          · exact htarget.imp (List.mem_append_left _) (hstops y).mp
          · rcases hcover y hy with hy | hy
            · exact .inl (List.mem_append_right _ hy)
            · rcases (hboth.stops_iff y).mp hy with hy | hy
              · exact .inr hy
              · exact .inl (List.mem_append_left _ hy)
        · -- reachability: the sets of modules to stop at only grow, so paths of later states are paths of the first one
          intro x hx
          rcases List.mem_append.mp hx with hx | hx
          · exact ⟨target, List.mem_cons_self, (hreach₁ x hx).anti fun z hz => (hstops z).mpr hz⟩
          · obtain ⟨y, hy, hxy⟩ := hreach x hx
            exact ⟨y, List.mem_cons_of_mem _ hy, hxy.anti fun z hz => (hboth.stops_iff z).mpr (.inl hz)⟩

-- ---------------------------------------------------------------------------
-- Entering a module
-- ---------------------------------------------------------------------------

theorem stops_iff_contains (t : Traversal) (x : ModuleId) :
    (t.visiting.contains x || t.session.isFinished x) = true ↔ t.Stops x := by
  simp [Stops]

/-- The traversal in which a module is taken up and loaded. -/
def loading (w : World) (t : Traversal) (x : ModuleId) : Traversal :=
  { t.begin x with session := ((t.begin x).session.load .waiting w x).1 }

section Loading

variable {c : Codebase} {w : World} {t : Traversal} (hc : t.session.codebase w = c) (x : ModuleId)

include hc

/-- Taking up and loading a module changes the session as `Merged` says: one module is read. -/
theorem merged_loading : Merged c .waiting t.session (t.loading w x).session [x] := by
  subst hc
  have hbegin : Merged (t.session.codebase w) .waiting t.session (t.begin x).session [] :=
    Session.merged_markVisiting ..
  have hload := Session.merged_load (t.begin x).session .waiting w x
  rw [hbegin.codebase w] at hload
  exact hbegin.trans hload

/-- Taking up and loading a module changes no view but its own. -/
theorem view_loading (y : ModuleId) :
    (t.loading w x).session.view y =
      if y = x then c.load .waiting x ((t.session.view x).begin x) else t.session.view y := by
  subst hc
  have hbegin : (t.begin x).session.codebase w = t.session.codebase w := rfl
  unfold loading
  rw [Session.view_load, hbegin]
  have hview : (t.begin x).session.view y = if y = x then (t.session.view y).begin x else t.session.view y :=
    Session.view_markVisiting ..
  rw [hview]
  by_cases h : y = x
  · simp [h]
  · simp [h]

/-- Once a module is taken up the traversal stops there too, because it is being visited. -/
theorem stops_loading (y : ModuleId) :
    (t.loading w x).Stops y ↔ t.Stops y ∨ y = x := by
  have hvisiting : y ∈ (t.loading w x).visiting ↔ y = x ∨ y ∈ t.visiting := by
    simp [loading, begin]
  unfold Stops
  rw [hvisiting, Session.isFinished_eq, view_loading hc]
  by_cases h : y = x
  · simp [h]
  · simp [h, Session.isFinished_eq]

/-- A module that cannot be read or parsed is loaded as nothing. -/
theorem load_begin_of_error {fault : Fault} (hp : c.parse .waiting x = .error fault) :
    (t.begin x).session.load .waiting w x = ((t.loading w x).session, none) := by
  subst hc
  have hp' : ((t.begin x).session.codebase w).parse .waiting x = .error fault := hp
  refine Prod.ext rfl ?_
  rw [Session.load_of_parse_error hp']

/-- A module that can be parsed is loaded as its location and its summary. -/
theorem load_begin_of_ok {p : Parsed} (hp : c.parse .waiting x = .ok p) :
    (t.begin x).session.load .waiting w x = ((t.loading w x).session, some ⟨p.location, c.summary p⟩) := by
  subst hc
  have hp' : ((t.begin x).session.codebase w).parse .waiting x = .ok p := hp
  refine Prod.ext rfl ?_
  rw [Session.load_of_parse_ok hp']
  rfl

end Loading

/-- The entry of a module is complete: its imports have been followed, and it is marked as done. The modules entered are
the module itself and those entered for its imports. -/
theorem entered_done {c : Codebase} {w : World} {t t₁ : Traversal} {x : ModuleId} {p : Parsed} {ids ts : List ModuleId}
    (hc : t.session.codebase w = c) (hp : c.parse .waiting x = .ok p) (hgo : ¬ t.Stops x) (hts : c.targetsOf p = .ok ts)
    (h : Entered c x (c.bindingsOf p) (t.loading w x) t₁ ids) (hcover : ∀ y ∈ ts, y ∈ ids ∨ (t.loading w x).Stops y)
    (owner : ModuleId) : Entered c owner [] t (t₁.onSession (·.markDone x)) (x :: ids) := by
  have hview := view_loading hc x
  have hstops := stops_loading hc x
  have hfind := Codebase.find?_eq_some_of_parse hp
  have hx : x ∉ ids := fun hmem => h.fresh x hmem ((hstops x).mpr (.inr rfl))
  have hdone : Merged c .waiting t₁.session (t₁.session.markDone x) [] := Session.merged_markDone ..
  -- what stops the traversal once the module is loaded: the module itself, or what has stopped it before
  have hback : ∀ y, y ∈ ids ∨ (t.loading w x).Stops y → y ∈ x :: ids ∨ t.Stops y := by
    intro y hy
    rw [hstops, List.mem_cons] at *
    tauto
  refine ⟨?_, List.nodup_cons.mpr ⟨hx, h.nodup⟩, ?_, ?_, ?_, ?_, ?_, ?_⟩
  · -- merged: loading, following and marking compose
    have hall := ((merged_loading hc x).trans h.merged).trans hdone
    rw [List.append_nil] at hall
    exact hall
  · -- fresh: once the module is loaded the traversal stops at more modules, not at fewer
    intro y hy
    rcases List.mem_cons.mp hy with rfl | hy
    · exact hgo
    · exact fun hstop => h.fresh y hy ((hstops y).mpr (.inl hstop))
  · -- visiting
    intro y
    have hloading : y ∈ (t.loading w x).visiting ↔ y = x ∨ y ∈ t.visiting := by simp [loading, begin]
    have hvisiting : y ∈ (t₁.onSession (·.markDone x)).visiting ↔ y ∈ (t.loading w x).visiting ∨ y ∈ ids := h.visiting y
    rw [hvisiting, hloading, List.mem_cons]
    tauto
  · -- resolved: the targets of the module itself are given
    intro y hy q hq
    rcases List.mem_cons.mp hy with rfl | hy
    · rw [hfind] at hq
      cases hq
      exact ⟨ts, hts⟩
    · exact h.resolved y hy q hq
  · intro y hy
    show (t₁.session.markDone x).view y = _
    rw [Session.view_markDone]
    rcases List.mem_cons.mp hy with rfl | hy
    · -- loaded, then bound by the links, then done: that is what settled means
      rw [if_pos rfl, h.outside y hx, if_pos rfl, hview, if_pos rfl]
      simp [Codebase.load, Codebase.settled, Codebase.linked, hp, hts]
    · -- entered for an import: the loading of `x` and its marking do not concern it
      have hne : y ≠ x := fun heq => hx (heq ▸ hy)
      rw [if_neg hne, h.inside y hy, hview, if_neg hne]
  · -- outside: neither the module itself nor one entered for it
    intro y hy
    rw [List.mem_cons, not_or] at hy
    show (t₁.session.markDone x).view y = _
    rw [Session.view_markDone, if_neg hy.1, h.outside y hy.2, if_neg hy.1, hview, if_neg hy.1]
    simp
  · -- closed: the targets of the module are covered, and the others are closed already
    intro y hy z himports
    apply hback
    rcases List.mem_cons.mp hy with rfl | hy
    · -- an import of the module itself
      obtain ⟨q, hq, htarget⟩ := himports
      rw [hfind] at hq
      cases hq
      exact hcover z ((Codebase.mem_targets hts).mpr htarget)
    · exact h.closed y hy z himports

/-- **What one entry does.** By induction on the depth, which decreases at the entries of the imports. -/
theorem enter_entered {c : Codebase} {w : World} (depth : Nat) (t : Traversal) (x : ModuleId) (t' : Traversal)
    (names : List Name) (hc : t.session.codebase w = c) (h : enter w depth t x = (t', .ok names)) : Enters c t t' x := by
  induction depth generalizing t x t' names with
  | zero => cases h
  | succ depth ih =>
    rw [enter] at h
    split at h
    · -- the module is being visited or finished
      rename_i hstop
      cases h
      refine ⟨[], fun owner => ?_, .inr ((t.stops_iff_contains x).mp hstop), by simp⟩
      exact .of_link (Session.merged_note ..) rfl fun y => by simp [onSession]
    · rename_i hgo
      rw [stops_iff_contains] at hgo
      have hmerged := merged_loading hc x
      have hview := view_loading hc x
      cases hp : c.parse .waiting x with
      | error fault =>
        -- the module has failed: it is entered, and leads nowhere
        simp only [load_begin_of_error hc x hp] at h
        cases h
        have hnone := Codebase.find?_eq_none_of_parse hp
        refine ⟨[x], fun owner => ⟨hmerged, by simp, by simpa using hgo, ?_, by simp [hnone], ?_, ?_, ?_⟩,
          .inl (by simp), by simpa using .root hgo⟩
        · -- visiting
          simp [begin, or_comm]
        · -- inside: settled as failed
          simp [hview, Codebase.load, Codebase.settled, Codebase.linked, hp]
        · intro y hy
          rw [List.mem_singleton] at hy
          simp [hview, hy]
        · -- closed: a module that cannot be parsed imports nothing
          rintro y hy z ⟨p, hfind, _⟩
          rw [List.mem_singleton.mp hy, hnone] at hfind
          cases hfind
      | ok p =>
        -- the module is loaded, and its imports are followed by the induction hypothesis
        simp only [load_begin_of_ok hc x hp] at h
        split at h
        · cases h
        · rename_i t₁ hfollow
          cases h
          have hid : (c.summary p).moduleId = x := Codebase.moduleId_summary hp
          have hvisiting : (c.summary p).moduleId ∈ (t.loading w x).visiting := by simp [hid, loading, begin]
          obtain ⟨ids, ts, hts, hentered, hcover, hreach⟩ :=
            follow_entered ih ⟨p.location, c.summary p⟩ _ (t.loading w x) t₁ ((hmerged.codebase w).trans hc) hvisiting
              hfollow
          simp only [hid] at hentered
          refine ⟨x :: ids, fun owner => entered_done hc hp hgo hts hentered hcover owner, .inl List.mem_cons_self, ?_⟩
          intro y hy
          rcases List.mem_cons.mp hy with rfl | hy
          · exact .root hgo
          · obtain ⟨z, hz, hzy⟩ := hreach y hy
            have himports : c.Imports x z :=
              ⟨p, Codebase.find?_eq_some_of_parse hp, (Codebase.mem_targets hts).mp hz⟩
            exact (Codebase.Reach.root hgo).through himports
              (hzy.anti fun a ha => (stops_loading hc x a).mpr (.inl ha))

end Traversal

-- ---------------------------------------------------------------------------
-- A whole analysis
-- ---------------------------------------------------------------------------

namespace Session

open Traversal (Entered)

/-- The modules entered by an analysis that returns are exactly those reachable without passing a module at which it
stops. -/
theorem analyzeModule_entered {s : Session} {w : World} {moduleId : ModuleId} {visiting : List ModuleId} {t : Traversal}
    {names : List Name} (h : s.analyzeModule w moduleId visiting = (t, .ok names)) :
    ∃ ids, (∀ owner, Entered (s.codebase w) owner [] { session := s, visiting } t ids) ∧
      ∀ x, x ∈ ids ↔ (s.codebase w).Reach (fun y => y ∈ visiting ∨ s.isFinished y = true) moduleId x := by
  obtain ⟨ids, hentered, hroot, hreach⟩ := Traversal.enter_entered _ { session := s, visiting } _ _ _ rfl h
  refine ⟨ids, hentered, fun x => ⟨hreach x, fun hx => ?_⟩⟩
  exact Codebase.mem_of_reach hroot (hentered moduleId).closed hx

/-- Imports lead from one module to another on a path on which no module is among the given ones or finished. -/
def Reaches (s : Session) (w : World) (visiting : List ModuleId) (moduleId x : ModuleId) : Prop :=
  (s.codebase w).Reach (fun y => y ∈ visiting ∨ s.isFinished y = true) moduleId x

/-- An analysis has read, visited and settled exactly the modules that were to be reached, and has touched no other. -/
structure ExactReach (s : Session) (w : World) (moduleId : ModuleId) (visiting : List ModuleId) (t : Traversal) :
    Prop where
  reads : ∃ ids : List ModuleId, ids.Nodup ∧ (∀ x, x ∈ ids ↔ s.Reaches w visiting moduleId x) ∧
    t.session.reads = s.reads ++ ids ∧
    t.session.requests = s.requests ++ ids.flatMap fun x => (s.reader.read .waiting w x).requests
  visited : ∀ x, x ∈ t.visiting ↔ x ∈ visiting ∨ s.Reaches w visiting moduleId x
  /-- A module is done where it can be read and parsed, else it is failed. -/
  settled : ∀ x, s.Reaches w visiting moduleId x →
    ∃ record, t.session.program.modules.records.get? x = some record ∧
      record.progress = if ((s.codebase w).find? x).isSome then .done else .failed
  untouched : ∀ x, ¬ s.Reaches w visiting moduleId x →
    t.session.program.modules.records.get? x = s.program.modules.records.get? x ∧
    t.session.parsed.get? x = s.parsed.get? x ∧
    t.session.program.aliases.modules.get? x = s.program.aliases.modules.get? x

/-- Whatever happened to the session before and whatever is being visited, an analysis that returns has exact reach. -/
theorem analyzeModule_exact_reach (s : Session) (w : World) (moduleId : ModuleId) (visiting : List ModuleId)
    (t : Traversal) (names : List Name) (h : s.analyzeModule w moduleId visiting = (t, .ok names)) :
    s.ExactReach w moduleId visiting t := by
  obtain ⟨ids, hentered, hids⟩ := analyzeModule_entered h
  have hent := hentered moduleId
  refine ⟨⟨ids, hent.nodup, hids, hent.merged.reads, hent.merged.requests⟩, ?_, ?_, ?_⟩
  · -- the modules being visited
    intro x
    have hx : s.Reaches w visiting moduleId x ↔ x ∈ ids := (hids x).symm
    rw [hx, hent.visiting]
  · -- the records of the modules reached, by whether they can be parsed
    intro x hx
    have hmem := (hids x).mpr hx
    have hview : (t.session.view x).record =
        ((s.codebase w).settled .waiting x (s.view x)).record := by rw [hent.inside x hmem]
    cases hp : (s.codebase w).parse .waiting x with
    | error fault =>
      rw [Codebase.settled_of_parse_error hp] at hview
      rw [Codebase.find?_eq_none_of_parse hp]
      exact ⟨_, hview, rfl⟩
    | ok p =>
      have hfind := Codebase.find?_eq_some_of_parse hp
      obtain ⟨ts, hts⟩ := hent.resolved x hmem p hfind
      rw [Codebase.settled_of_targets_ok hp hts] at hview
      rw [hfind]
      exact ⟨_, hview, rfl⟩
  · -- the modules not reached
    intro x hx
    have hview := hent.outside x fun hmem => hx ((hids x).mp hmem)
    rw [View.bind_nil, ite_self] at hview
    exact ⟨congrArg View.record hview, congrArg View.parsed hview, congrArg View.aliases hview⟩

/-- Two files that import each other, analysed while the second is being visited and then from scratch. -/
theorem analyzeModule_exact_reach_cycle :
    (∃ t, Sample.session.analyzeModule Sample.world "/work/a.ts" ["/work/b.ts"] = (t, .ok []) ∧
      Sample.session.ExactReach Sample.world "/work/a.ts" ["/work/b.ts"] t) ∧
    ∃ t, Sample.session.analyzeModule Sample.world "/work/b.ts" [] = (t, .ok ["f"]) ∧
      Sample.session.ExactReach Sample.world "/work/b.ts" [] t := by
  have hvisiting : Sample.session.analyzeModule Sample.world "/work/a.ts" ["/work/b.ts"] = (_, .ok []) :=
    Prod.ext rfl (by decide +kernel)
  have hscratch : Sample.session.analyzeModule Sample.world "/work/b.ts" [] = (_, .ok ["f"]) :=
    Prod.ext rfl (by decide +kernel)
  exact ⟨⟨_, hvisiting, analyzeModule_exact_reach _ _ _ _ _ _ hvisiting⟩,
    _, hscratch, analyzeModule_exact_reach _ _ _ _ _ _ hscratch⟩

end Session

end BlockingCalls
