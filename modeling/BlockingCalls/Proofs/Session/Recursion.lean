import BlockingCalls.Proofs.Session.Consistency

/-!
# The recursion of a depth-first analysis ends

An entry calls itself for each module that an import resolves to. In `Traversal.enter` the number of nested calls is bounded
by an argument, and a call with no depth left fails with a fault of its own. The unbounded recursion is given here as a
big-step evaluation relation: `Ends` relates a job, which is a call or a list of imports to follow, to the final state and
the result. It also records the modules entered, in order, and the depth to which calls are nested. Where a job evaluates,
the bounded recursion has the same result if and only if its bound exceeds the depth of nesting; below that it fails with
the fault of the bound. So the recorded depth is the actual one.

Termination rests on two facts. A module that is entered is being visited from then on, so no module is entered twice. And
a module that is entered is reachable from the root, which only finitely many are: although unboundedly many ids can be
composed from specifiers, imports are followed only from modules that can be loaded, and these lie in the extent of the
codebase.

## Results

* `Ends.run_eq`, `Ends.run_tooDeep` — a bound suffices if and only if it is not less than the depth of nesting.
* `Ends.unique`                     — evaluation is deterministic.
* `exists_ends_call`                — where `enter` does not fail with the fault of its bound, the recursion ends.
* `Ends.passed`                     — no module is entered twice, nor one that is being visited.
* `Ends.nesting_le`                 — calls are nested no deeper than there are modules entered.
* `Ends.reachable`                  — what is entered is reachable.
* `recursion_ends`                  — every call ends, in any session and world and whatever is being visited.
-/

namespace BlockingCalls

open Session (Merged Loaded)

namespace Traversal

-- ---------------------------------------------------------------------------
-- The evaluation relation
-- ---------------------------------------------------------------------------

/-- What a traversal evaluates: the entry of a module, or the imports of a loaded module that are still to be followed.
-/
inductive Job where
  | call (x : ModuleId)
  | imports (m : Loaded) (rest : List ImportDeclaration)

/-- `Ends w t job t' result ids depth`: from `t` the job evaluates to the state `t'` and the result, the modules `ids`
are entered in this order, and calls are nested below it to the depth. There is one rule for each way in which `enter`
and `follow` may proceed. Following imports gives no names. -/
inductive Ends (w : World) : Traversal → Job → Traversal → Except Fault (List Name) → List ModuleId → Nat → Prop
  | stop {t : Traversal} {x : ModuleId} (stops : t.Stops x) :
      Ends w t (.call x) (t.onSession (·.note (.debug ("[Session] Already visited " ++ x))))
        (.ok (t.session.directBlocking x)) [] 0
  | fail {t : Traversal} {x : ModuleId} (go : ¬ t.Stops x)
      (load : ((t.begin x).session.load .waiting w x).2 = none) : Ends w t (.call x) (t.loading w x) (.ok []) [x] 0
  | done {t t' : Traversal} {x : ModuleId} {m : Loaded} {names : List Name} {ids : List ModuleId} {depth : Nat}
      (go : ¬ t.Stops x) (load : ((t.begin x).session.load .waiting w x).2 = some m)
      (imports : Ends w (t.loading w x) (.imports m m.summary.imports) t' (.ok names) ids depth) :
      Ends w t (.call x) (t'.onSession (·.markDone x)) (.ok m.summary.directBlocking) (x :: ids) depth
  | fault {t t' : Traversal} {x : ModuleId} {m : Loaded} {fault : Fault} {ids : List ModuleId} {depth : Nat}
      (go : ¬ t.Stops x) (load : ((t.begin x).session.load .waiting w x).2 = some m)
      (imports : Ends w (t.loading w x) (.imports m m.summary.imports) t' (.error fault) ids depth) :
      Ends w t (.call x) t' (.error fault) (x :: ids) depth
  | nil {t : Traversal} {m : Loaded} : Ends w t (.imports m []) t (.ok []) [] 0
  | unresolved {t : Traversal} {m : Loaded} {d : ImportDeclaration} {rest : List ImportDeclaration} {s : Session}
      {fault : Fault} (link : t.session.link m d = (s, .error fault)) :
      Ends w t (.imports m (d :: rest)) { t with session := s } (.error fault) [] 0
  | skipped {t t' : Traversal} {m : Loaded} {d : ImportDeclaration} {rest : List ImportDeclaration} {s : Session}
      {result : Except Fault (List Name)} {ids : List ModuleId} {depth : Nat}
      (link : t.session.link m d = (s, .ok none))
      (others : Ends w { t with session := s } (.imports m rest) t' result ids depth) :
      Ends w t (.imports m (d :: rest)) t' result ids depth
  | broken {t t' : Traversal} {m : Loaded} {d : ImportDeclaration} {rest : List ImportDeclaration} {s : Session}
      {target : ModuleId} {fault : Fault} {ids : List ModuleId} {depth : Nat}
      (link : t.session.link m d = (s, .ok (some target)))
      (call : Ends w { t with session := s } (.call target) t' (.error fault) ids depth) :
      Ends w t (.imports m (d :: rest)) t' (.error fault) ids (depth + 1)
  | next {t t₁ t' : Traversal} {m : Loaded} {d : ImportDeclaration} {rest : List ImportDeclaration} {s : Session}
      {target : ModuleId} {names : List Name} {result : Except Fault (List Name)} {ids ids' : List ModuleId}
      {depth depth' : Nat} (link : t.session.link m d = (s, .ok (some target)))
      (call : Ends w { t with session := s } (.call target) t₁ (.ok names) ids depth)
      (others : Ends w t₁ (.imports m rest) t' result ids' depth') :
      Ends w t (.imports m (d :: rest)) t' result (ids ++ ids') (max (depth + 1) depth')

-- ---------------------------------------------------------------------------
-- The evaluation relation and the bounded recursion
-- ---------------------------------------------------------------------------

/-- The value of a job if the calls below it may be nested to a bounded depth. -/
def Job.run (w : World) (bound : Nat) (t : Traversal) : Job → Traversal × Except Fault (List Name)
  | .call x => enter w (bound + 1) t x
  | .imports m rest =>
    match follow (enter w bound) m t rest with
    | (t, .error fault) => (t, .error fault)
    | (t, .ok ()) => (t, .ok [])

section Bounded

variable {w : World} {t : Traversal} (bound : Nat)

theorem run_of_stops {x : ModuleId} (h : t.Stops x) :
    (Job.call x).run w bound t =
      (t.onSession (·.note (.debug ("[Session] Already visited " ++ x))), .ok (t.session.directBlocking x)) := by
  rw [Job.run, enter, if_pos ((t.stops_iff_contains x).mpr h)]

/-- A call for a module that cannot be loaded. -/
theorem run_of_load_eq_none {x : ModuleId} (hgo : ¬ t.Stops x) (h : ((t.begin x).session.load .waiting w x).2 = none) :
    (Job.call x).run w bound t = (t.loading w x, .ok []) := by
  have hload : (t.begin x).session.load .waiting w x = ((t.loading w x).session, none) := Prod.ext rfl h
  rw [Job.run, enter, if_neg fun hstop => hgo ((t.stops_iff_contains x).mp hstop)]
  simp only [hload]
  rfl

/-- A call for a module that is loaded, in terms of following its imports. -/
theorem run_of_load_eq_some {x : ModuleId} {m : Loaded} (hgo : ¬ t.Stops x)
    (h : ((t.begin x).session.load .waiting w x).2 = some m) :
    (Job.call x).run w bound t =
      match (Job.imports m m.summary.imports).run w bound (t.loading w x) with
      | (t, .error fault) => (t, .error fault)
      | (t, .ok _) => (t.onSession (·.markDone x), .ok m.summary.directBlocking) := by
  have hload : (t.begin x).session.load .waiting w x = ((t.loading w x).session, some m) := Prod.ext rfl h
  rw [Job.run, enter, if_neg fun hstop => hgo ((t.stops_iff_contains x).mp hstop)]
  simp only [hload]
  show (match follow (enter w bound) m (t.loading w x) m.summary.imports with
    | (t, .error fault) => _
    | (t, .ok ()) => _) = _
  rw [Job.run]
  split <;> rfl

theorem run_cons_of_error {m : Loaded} {d : ImportDeclaration} {rest : List ImportDeclaration} {s : Session} {fault : Fault}
    (h : t.session.link m d = (s, .error fault)) :
    (Job.imports m (d :: rest)).run w bound t = ({ t with session := s }, .error fault) := by
  rw [Job.run, follow, h]

/-- Following an import that is skipped. -/
theorem run_cons_of_none {m : Loaded} {d : ImportDeclaration} {rest : List ImportDeclaration} {s : Session}
    (h : t.session.link m d = (s, .ok none)) :
    (Job.imports m (d :: rest)).run w bound t = (Job.imports m rest).run w bound { t with session := s } := by
  rw [Job.run, follow, h]
  rfl

/-- Following an import that resolves to a module. -/
theorem run_cons_of_some {m : Loaded} {d : ImportDeclaration} {rest : List ImportDeclaration} {s : Session}
    {target : ModuleId} (h : t.session.link m d = (s, .ok (some target))) :
    (Job.imports m (d :: rest)).run w bound t =
      match enter w bound { t with session := s } target with
      | (t, .error fault) => (t, .error fault)
      | (t, .ok _) => (Job.imports m rest).run w bound t := by
  rw [Job.run, follow, h]
  simp only
  rcases enter w bound { t with session := s } target with ⟨t₁, fault | names⟩ <;> rfl

end Bounded

variable {w : World} {t t' : Traversal} {job : Job} {result : Except Fault (List Name)} {ids : List ModuleId} {depth : Nat}

/-- **A bound that is not less than the depth of nesting suffices**: the bounded recursion agrees with the evaluation
relation. -/
theorem Ends.run_eq (h : Ends w t job t' result ids depth) (bound : Nat) (hbound : depth ≤ bound) :
    job.run w bound t = (t', result) := by
  induction h generalizing bound with
  | stop stops => exact run_of_stops bound stops
  | fail go load => exact run_of_load_eq_none bound go load
  | done go load _ ih => rw [run_of_load_eq_some bound go load, ih bound hbound]
  | fault go load _ ih => rw [run_of_load_eq_some bound go load, ih bound hbound]
  | nil => rfl
  | unresolved link => exact run_cons_of_error bound link
  | skipped link _ ih => rw [run_cons_of_none bound link, ih bound hbound]
  | broken link _ ih =>
    -- one call deeper: the bound is positive, and what remains of it suffices for the call
    obtain ⟨below, rfl⟩ : ∃ k, bound = k + 1 := ⟨bound - 1, by omega⟩
    have hcall : enter w (below + 1) _ _ = _ := ih below (by omega)
    rw [run_cons_of_some _ link, hcall]
  | next link _ _ ihcall ihothers =>
    -- the bound suffices for the call and for the rest
    obtain ⟨below, rfl⟩ : ∃ k, bound = k + 1 := ⟨bound - 1, by omega⟩
    have hcall : enter w (below + 1) _ _ = _ := ihcall below (by omega)
    rw [run_cons_of_some _ link, hcall]
    exact ihothers _ (by omega)

/-- A call whose bound is at most the depth fails with the fault of the bound, if it does so for every smaller bound;
with no depth left it fails at once. -/
theorem enter_tooDeep {x : ModuleId} {bound : Nat} (hbound : bound ≤ depth)
    (h : ∀ below < depth, ∃ t₁, (Job.call x).run w below t = (t₁, .error .tooDeep)) :
    ∃ t₁, enter w bound t x = (t₁, .error .tooDeep) := by
  cases bound with
  | zero => exact ⟨t, rfl⟩
  | succ below => exact h below (by omega)

/-- **A smaller bound does not suffice**: the job fails with the fault of the bound. -/
theorem Ends.run_tooDeep (h : Ends w t job t' result ids depth) (bound : Nat) (hbound : bound < depth) :
    ∃ t₁, job.run w bound t = (t₁, .error .tooDeep) := by
  induction h generalizing bound with
  | stop => omega
  | fail => omega
  | done go load _ ih =>
    obtain ⟨t₁, hdeep⟩ := ih bound hbound
    rw [run_of_load_eq_some bound go load, hdeep]
    exact ⟨t₁, rfl⟩
  | fault go load _ ih =>
    obtain ⟨t₁, hdeep⟩ := ih bound hbound
    rw [run_of_load_eq_some bound go load, hdeep]
    exact ⟨t₁, rfl⟩
  | nil => omega
  | unresolved => omega
  | skipped link _ ih =>
    rw [run_cons_of_none bound link]
    exact ih bound hbound
  | broken link _ ih =>
    obtain ⟨t₁, hdeep⟩ := enter_tooDeep (Nat.le_of_lt_succ hbound) ih
    rw [run_cons_of_some bound link, hdeep]
    exact ⟨t₁, rfl⟩
  | @next _ _ _ _ _ _ _ _ _ _ _ _ depth depth' link call _ ihcall ihothers =>
    rcases Nat.lt_or_ge depth bound with hless | hge
    · -- the call has enough, so the others have not
      obtain ⟨below, rfl⟩ : ∃ k, bound = k + 1 := ⟨bound - 1, by omega⟩
      have hcall : enter w (below + 1) _ _ = _ := call.run_eq below (by omega)
      rw [run_cons_of_some _ link, hcall]
      exact ihothers _ (by omega)
    · -- the call itself is nested too deeply
      obtain ⟨t₁, hdeep⟩ := enter_tooDeep hge ihcall
      rw [run_cons_of_some bound link, hdeep]
      exact ⟨t₁, rfl⟩

/-- The fault of the bound is never a result of the evaluation relation. -/
theorem Ends.ne_tooDeep (h : Ends w t job t' result ids depth) : result ≠ .error .tooDeep := by
  induction h with
  | @unresolved t m d _ _ fault link =>
    -- the only rule with a fault of its own: it is that of a location
    rcases Session.link_cases t.session m d with ⟨cause, _, hlink⟩ | ⟨reason, _, hlink⟩ | ⟨y, isRemote, _, hlink⟩
    · rw [hlink] at link
      cases link
      simp
    · rw [hlink] at link
      cases link
    · rw [hlink] at link
      cases link
  | fault _ _ _ ih => exact ih
  | broken _ _ ih => exact ih
  | skipped _ _ ih => exact ih
  | next _ _ _ _ ih => exact ih
  | _ => simp

/-- Evaluation is deterministic, since by `run_eq` and `run_tooDeep` it is determined by the bounded recursion, which is
a function. -/
theorem Ends.unique {t₁ t₂ : Traversal} {result₁ result₂ : Except Fault (List Name)} {ids₁ ids₂ : List ModuleId}
    {depth₁ depth₂ : Nat} (h₁ : Ends w t job t₁ result₁ ids₁ depth₁) (h₂ : Ends w t job t₂ result₂ ids₂ depth₂) :
    t₁ = t₂ ∧ result₁ = result₂ ∧ depth₁ = depth₂ := by
  -- neither depth exceeds the other: the larger one would not suffice where it does
  have hbelow : ∀ {t₁ t₂ result₁ result₂ ids₁ ids₂ depth₁ depth₂}, Ends w t job t₁ result₁ ids₁ depth₁ →
      Ends w t job t₂ result₂ ids₂ depth₂ → depth₂ ≤ depth₁ := by
    intro t₁ t₂ result₁ result₂ ids₁ ids₂ depth₁ depth₂ h₁ h₂
    by_contra hless
    obtain ⟨t₃, hdeep⟩ := h₂.run_tooDeep depth₁ (by omega)
    rw [h₁.run_eq depth₁ (Nat.le_refl _)] at hdeep
    exact h₁.ne_tooDeep (congrArg Prod.snd hdeep)
  have hdepth := Nat.le_antisymm (hbelow h₂ h₁) (hbelow h₁ h₂)
  have hrun := h₁.run_eq depth₁ (Nat.le_refl _)
  rw [h₂.run_eq depth₁ (by omega)] at hrun
  cases hrun
  exact ⟨rfl, rfl, hdepth⟩

/-- If following imports with a bound does not fail with the fault of the bound, it evaluates to the same. By induction
on the imports; `hcall` is the statement for the calls below. -/
theorem exists_ends_imports {bound : Nat}
    (hcall : ∀ t x t' result, enter w bound t x = (t', result) → result ≠ .error .tooDeep →
      ∃ ids depth, Ends w t (.call x) t' result ids depth)
    (m : Loaded) (rest : List ImportDeclaration) (t t' : Traversal) (result : Except Fault (List Name))
    (h : (Job.imports m rest).run w bound t = (t', result)) (hresult : result ≠ .error .tooDeep) :
    ∃ ids depth, Ends w t (.imports m rest) t' result ids depth := by
  induction rest generalizing t with
  | nil =>
    cases h
    exact ⟨_, _, .nil⟩
  | cons d rest ih =>
    rcases Session.link_cases t.session m d with ⟨fault, _, hlink⟩ | ⟨reason, _, hlink⟩ | ⟨target, isRemote, _, hlink⟩
    · -- the import cannot be resolved
      rw [run_cons_of_error bound hlink] at h
      cases h
      exact ⟨_, _, .unresolved hlink⟩
    · -- the import is skipped
      rw [run_cons_of_none bound hlink] at h
      obtain ⟨ids, depth, hends⟩ := ih _ h
      exact ⟨_, _, .skipped hlink hends⟩
    · rw [run_cons_of_some bound hlink] at h
      split at h
      · -- the call fails, with a fault that is not that of the bound
        rename_i t₁ fault heq
        cases h
        have hfault : (.error fault : Except Fault (List Name)) ≠ .error .tooDeep := hresult
        obtain ⟨ids, depth, hends⟩ := hcall _ _ _ _ heq hfault
        exact ⟨_, _, .broken hlink hends⟩
      · -- the call returns, and the rest is followed
        rename_i t₁ names heq
        obtain ⟨ids, depth, hends⟩ := hcall _ _ _ _ heq (by simp)
        obtain ⟨ids', depth', hothers⟩ := ih _ h
        exact ⟨_, _, .next hlink hends hothers⟩

/-- If an entry with a bound does not fail with the fault of the bound, it evaluates to the same. By induction on the
bound. -/
theorem exists_ends_call (bound : Nat) (t : Traversal) (x : ModuleId) (t' : Traversal)
    (result : Except Fault (List Name)) (h : enter w bound t x = (t', result)) (hresult : result ≠ .error .tooDeep) :
    ∃ ids depth, Ends w t (.call x) t' result ids depth := by
  induction bound generalizing t x t' result with
  | zero =>
    -- with no depth left the fault is that of the bound
    cases h
    exact absurd rfl hresult
  | succ bound ih =>
    have hrun : (Job.call x).run w bound t = (t', result) := h
    by_cases hstops : t.Stops x
    · rw [run_of_stops bound hstops] at hrun
      cases hrun
      exact ⟨_, _, .stop hstops⟩
    · cases hload : ((t.begin x).session.load .waiting w x).2 with
      | none =>
        rw [run_of_load_eq_none bound hstops hload] at hrun
        cases hrun
        exact ⟨_, _, .fail hstops hload⟩
      | some m =>
        rw [run_of_load_eq_some bound hstops hload] at hrun
        split at hrun
        · -- an import has failed
          rename_i t₁ fault heq
          cases hrun
          obtain ⟨ids, depth, hends⟩ := exists_ends_imports ih m _ _ _ _ heq hresult
          exact ⟨_, _, .fault hstops hload hends⟩
        · -- all imports have been followed
          rename_i t₁ names heq
          cases hrun
          obtain ⟨ids, depth, hends⟩ := exists_ends_imports ih m _ _ _ _ heq (by simp)
          exact ⟨_, _, .done hstops hload hends⟩

-- ---------------------------------------------------------------------------
-- What is entered, and how deeply
-- ---------------------------------------------------------------------------

/-- Calls are nested no deeper than there are modules entered. Following imports may nest one call more, for a module at
which the traversal stops. -/
theorem Ends.nesting_le (h : Ends w t job t' result ids depth) :
    match job with
    | .call _ => depth ≤ ids.length
    | .imports _ _ => depth ≤ ids.length + 1 := by
  induction h with
  | stop => exact Nat.le_refl 0
  | fail => exact Nat.zero_le _
  | done _ _ _ ih => exact ih
  | fault _ _ _ ih => exact ih
  | nil => exact Nat.zero_le _
  | unresolved => exact Nat.zero_le _
  | skipped _ _ ih => exact ih
  | broken _ _ ih => exact Nat.succ_le_succ ih
  | next _ _ _ ihcall ihothers =>
    simp only [List.length_append] at *
    omega

/-- Between two states of a traversal the modules `ids` were read and entered, none of which was being visited before.
This is the part of `Entered` that also holds of evaluations that fail. -/
structure Passed (c : Codebase) (t t' : Traversal) (ids : List ModuleId) : Prop where
  merged : Merged c .waiting t.session t'.session ids
  nodup : ids.Nodup
  fresh : ∀ x ∈ ids, x ∉ t.visiting
  visiting : ∀ x, x ∈ t'.visiting ↔ x ∈ t.visiting ∨ x ∈ ids

namespace Passed

variable {c : Codebase} {t₁ : Traversal} {ids' : List ModuleId}

/-- A step that enters nothing. -/
theorem of_merged (hmerged : Merged c .waiting t.session t'.session []) (hvisiting : t'.visiting = t.visiting) :
    Passed c t t' [] where
  merged := hmerged
  nodup := List.nodup_nil
  fresh := by simp
  visiting := by simp [hvisiting]

/-- Passed segments compose. -/
theorem trans (h : Passed c t t₁ ids) (h' : Passed c t₁ t' ids') : Passed c t t' (ids ++ ids') where
  merged := h.merged.trans h'.merged
  nodup := by
    refine List.nodup_append.mpr ⟨h.nodup, h'.nodup, ?_⟩
    rintro x hx _ hx' rfl
    exact h'.fresh x hx' ((h.visiting x).mpr (.inr hx))
  fresh x hx := by
    rcases List.mem_append.mp hx with hx | hx
    · exact h.fresh x hx
    · exact fun hvisiting => h'.fresh x hx ((h.visiting x).mpr (.inl hvisiting))
  visiting x := by rw [h'.visiting, h.visiting, List.mem_append, or_assoc]

theorem codebase (h : Passed c t t' ids) (hc : t.session.codebase w = c) : t'.session.codebase w = c :=
  (h.merged.codebase w).trans hc

/-- Taking up and loading a module passes that module. -/
theorem loading {x : ModuleId} (hc : t.session.codebase w = c) (hgo : ¬ t.Stops x) : Passed c t (t.loading w x) [x] where
  merged := merged_loading hc x
  nodup := List.nodup_singleton x
  fresh := by
    rintro y hy hvisiting
    rw [List.mem_singleton.mp hy] at hvisiting
    exact hgo (.inl hvisiting)
  visiting y := by simp [Traversal.loading, begin, or_comm]

/-- Linking an import enters nothing. -/
theorem link (c : Codebase) {m : Loaded} {d : ImportDeclaration} {s : Session} {answer : Except Fault (Option ModuleId)}
    (h : t.session.link m d = (s, answer)) : Passed c t { t with session := s } [] := by
  have hmerged : Merged c .waiting t.session (t.session.link m d).1 [] := Session.merged_link ..
  rw [h] at hmerged
  exact .of_merged hmerged rfl

end Passed

/-- No module is entered twice, nor one that is being visited. -/
theorem Ends.passed {c : Codebase} (h : Ends w t job t' result ids depth) (hc : t.session.codebase w = c) :
    Passed c t t' ids := by
  induction h with
  | stop => exact .of_merged (Session.merged_note ..) rfl
  | fail go _ => exact .loading hc go
  | @done _ t₁ x _ _ _ _ go _ _ ih =>
    -- loading, following the imports, marking as done
    have hloading := Passed.loading hc go
    have hdone : Passed c t₁ (t₁.onSession (·.markDone x)) [] := .of_merged (Session.merged_markDone ..) rfl
    have hall := (hloading.trans (ih (hloading.codebase hc))).trans hdone
    rwa [List.append_nil] at hall
  | fault go _ _ ih =>
    have hloading := Passed.loading hc go
    exact hloading.trans (ih (hloading.codebase hc))
  | nil => exact .of_merged (.refl _) rfl
  | unresolved link => exact .link c link
  | skipped link _ ih =>
    have hlink := Passed.link c link
    exact hlink.trans (ih (hlink.codebase hc))
  | broken link _ ih =>
    have hlink := Passed.link c link
    exact hlink.trans (ih (hlink.codebase hc))
  | next link _ _ ihcall ihothers =>
    have hlink := Passed.link c link
    have hcall := hlink.trans (ihcall (hlink.codebase hc))
    exact hcall.trans (ihothers (hcall.codebase hc))

/-- A module that is loaded can be parsed, and is loaded as what was parsed. -/
theorem exists_parse_of_load {c : Codebase} {x : ModuleId} {m : Loaded} (hc : t.session.codebase w = c)
    (h : ((t.begin x).session.load .waiting w x).2 = some m) :
    ∃ p, c.find? x = some p ∧ m = ⟨p.location, c.summary p⟩ := by
  cases hp : c.parse .waiting x with
  | error fault =>
    rw [load_begin_of_error hc x hp] at h
    cases h
  | ok p =>
    rw [load_begin_of_ok hc x hp] at h
    cases h
    exact ⟨p, Codebase.find?_eq_some_of_parse hp, rfl⟩

/-- The target of a linked import is one that the imports lead to. -/
theorem leadsTo_of_link {c : Codebase} {m : Loaded} {d : ImportDeclaration} {rest : List ImportDeclaration} {s : Session}
    {target : ModuleId} (hc : t.session.codebase w = c) (h : t.session.link m d = (s, .ok (some target))) :
    LeadsTo c m.location (d :: rest) target := by
  subst hc
  rcases Session.link_cases t.session m d with ⟨fault, _, hlink⟩ | ⟨reason, _, hlink⟩ | ⟨y, isRemote, hresolve, hlink⟩
  · rw [hlink] at h
    cases h
  · rw [hlink] at h
    cases h
  · rw [hlink] at h
    cases h
    exact ⟨d, List.mem_cons_self, isRemote, hresolve⟩

theorem LeadsTo.cons {c : Codebase} {location : String} {d : ImportDeclaration} {rest : List ImportDeclaration}
    {y : ModuleId} (h : LeadsTo c location rest y) : LeadsTo c location (d :: rest) y := by
  obtain ⟨e, he, hfound⟩ := h
  exact ⟨e, List.mem_cons_of_mem _ he, hfound⟩

/-- If all that is entered for the imports of a module is reachable from their targets, it is reachable from the module.
-/
theorem reachable_cons {c : Codebase} {x : ModuleId} {m : Loaded} (hc : t.session.codebase w = c)
    (hload : ((t.begin x).session.load .waiting w x).2 = some m)
    (h : ∀ y ∈ ids, ∃ z, LeadsTo c m.location m.summary.imports z ∧ c.Reachable z y) :
    ∀ y ∈ x :: ids, c.Reachable x y := by
  obtain ⟨p, hp, rfl⟩ := exists_parse_of_load hc hload
  intro y hy
  rcases List.mem_cons.mp hy with rfl | hy
  · exact .root id
  · obtain ⟨z, hleads, hreach⟩ := h y hy
    exact (Codebase.Reach.root id).through ⟨p, hp, hleads⟩ hreach

/-- What is entered is reachable from the module called, or from a target of the imports followed. -/
theorem Ends.reachable {c : Codebase} (h : Ends w t job t' result ids depth) (hc : t.session.codebase w = c) :
    match job with
    | .call x => ∀ y ∈ ids, c.Reachable x y
    | .imports m rest => ∀ y ∈ ids, ∃ z, LeadsTo c m.location rest z ∧ c.Reachable z y := by
  induction h with
  | stop => simp
  | fail => simpa using .root id
  | done go load _ ih => exact reachable_cons hc load (ih ((Passed.loading hc go).codebase hc))
  | fault go load _ ih => exact reachable_cons hc load (ih ((Passed.loading hc go).codebase hc))
  | nil => simp
  | unresolved => simp
  | skipped link _ ih =>
    intro y hy
    obtain ⟨z, hleads, hreach⟩ := ih ((Passed.link c link).codebase hc) y hy
    exact ⟨z, hleads.cons, hreach⟩
  | broken link _ ih =>
    intro y hy
    exact ⟨_, leadsTo_of_link hc link, ih ((Passed.link c link).codebase hc) y hy⟩
  | next link call _ ihcall ihothers =>
    have hc₁ := (Passed.link c link).codebase hc
    intro y hy
    rcases List.mem_append.mp hy with hy | hy
    · exact ⟨_, leadsTo_of_link hc link, ihcall hc₁ y hy⟩
    · obtain ⟨z, hleads, hreach⟩ := ihothers ((call.passed hc₁).codebase hc₁) y hy
      exact ⟨z, hleads.cons, hreach⟩

end Traversal

-- ---------------------------------------------------------------------------
-- Every call ends
-- ---------------------------------------------------------------------------

namespace Session

open Traversal (Ends enter)

/-- The call for the root has ended: it evaluates to a unique result, with no module entered twice or while it is being
visited, and with calls nested no deeper than there are modules entered. The bounded recursion agrees if and only if its
bound exceeds the depth of nesting. -/
structure RecursionEnds (s : Session) (w : World) (root : ModuleId) (visiting : List ModuleId) (t : Traversal)
    (result : Except Fault (List Name)) (ids : List ModuleId) (depth : Nat) : Prop where
  ends : Ends w { session := s, visiting } (.call root) t result ids depth
  unique : ∀ t' result' ids' depth', Ends w { session := s, visiting } (.call root) t' result' ids' depth' →
    t' = t ∧ result' = result ∧ ids' = ids ∧ depth' = depth
  once : ids.Nodup
  fresh : ∀ x ∈ ids, x ∉ visiting
  enterable : ∀ x ∈ ids, x ∈ (s.codebase w).enterable root
  reads : t.session.reads = s.reads ++ ids
  nesting : depth ≤ ids.length
  analyzes : s.analyzeModule w root visiting = (t, result)
  enough : ∀ bound, depth < bound → enter w bound { session := s, visiting } root = (t, result)
  tooFew : ∀ bound, bound ≤ depth → ∃ t', enter w bound { session := s, visiting } root = (t', .error .tooDeep)

/-- Imports are unresolved because of a location, never because of a bound. -/
theorem ne_tooDeep_of_targets {c : Codebase} {location : String} {imports : List ImportDeclaration} {fault : Fault}
    (h : c.targets location imports = .error fault) : fault ≠ .tooDeep := by
  induction imports with
  | nil => cases h
  | cons d rest ih =>
    rw [Codebase.targets] at h
    split at h
    · cases h
      simp
    · exact ih h
    · cases hrest : c.targets location rest with
      | ok ts =>
        rw [hrest] at h
        cases h
      | error cause =>
        rw [hrest] at h
        cases h
        exact ih hrest

/-- What follows from an evaluation of the call for the root. -/
theorem recursionEnds_of_ends {s : Session} (hschemes : s.reader.remoteSchemes = s.resolver.config.remoteSchemes) {w : World}
    {root : ModuleId} {visiting : List ModuleId} {t : Traversal} {result : Except Fault (List Name)}
    {ids : List ModuleId} {depth : Nat} (h : Ends w { session := s, visiting } (.call root) t result ids depth)
    (hanalyzes : s.analyzeModule w root visiting = (t, result)) :
    s.RecursionEnds w root visiting t result ids depth := by
  have hpassed := h.passed (c := s.codebase w) rfl
  refine ⟨h, ?_, hpassed.nodup, hpassed.fresh, ?_, hpassed.merged.reads, h.nesting_le, hanalyzes, ?_, ?_⟩
  · intro t' result' ids' depth' h'
    obtain ⟨rfl, rfl, rfl⟩ := h'.unique h
    -- both have read what they have entered
    have hreads := (h'.passed (c := s.codebase w) rfl).merged.reads
    rw [hpassed.merged.reads] at hreads
    exact ⟨rfl, rfl, (List.append_cancel_left hreads).symm, rfl⟩
  · -- reachable modules can be entered
    exact fun x hx => Codebase.mem_enterable hschemes (h.reachable (c := s.codebase w) rfl x hx)
  · intro bound hbound
    obtain ⟨below, rfl⟩ : ∃ k, bound = k + 1 := ⟨bound - 1, by omega⟩
    exact h.run_eq below (by omega)
  · exact fun bound hbound => Traversal.enter_tooDeep hbound h.run_tooDeep

/-- **Termination.** In whatever session that was reached from a new one, in whatever world and with whatever modules
being visited, the recursion for a module ends. The modules that can be entered from it are finitely many; each is
entered at most once, and calls are nested no deeper than there are modules entered. -/
theorem recursion_ends (config : Config) (deno : String) (s : Session) (h : Reached config deno s) (w : World)
    (root : ModuleId) (visiting : List ModuleId) :
    (∀ x, (s.codebase w).Reachable root x → x ∈ (s.codebase w).enterable root) ∧
    ((s.codebase w).enterable root).length ≤ w.moduleBound * w.nodeCount + 1 ∧
    ∃ t result ids depth, s.RecursionEnds w root visiting t result ids depth := by
  have hschemes := (Sound.of_reached h).schemes
  -- the bound that `analyzeModule` uses suffices: its faults are those of locations
  have hnotDeep : (s.analyzeModule w root visiting).2 ≠ .error .tooDeep := by
    intro hdeep
    obtain ⟨x, _, p, _, htargets⟩ := analyzeModule_error hschemes (Prod.ext rfl hdeep)
    exact ne_tooDeep_of_targets htargets rfl
  obtain ⟨ids, depth, hends⟩ := Traversal.exists_ends_call _ _ _ _ _ rfl hnotDeep
  exact ⟨fun x => Codebase.mem_enterable hschemes, (s.codebase w).length_enterable_le root,
    _, _, ids, depth, recursionEnds_of_ends hschemes hends rfl⟩

/-- Two files that import each other: the entry of the first calls that of the second, and that calls for the first again,
at which it stops. -/
theorem recursion_ends_cycle :
    Reached Sample.config "deno" Sample.session ∧
    ∃ t result, Sample.session.RecursionEnds Sample.world "/work/a.ts" [] t result ["/work/a.ts", "/work/b.ts"] 2 := by
  have hreached : Reached Sample.config "deno" Sample.session := .start Sample.start_eq
  obtain ⟨_, _, t, result, ids, depth, hends⟩ := recursion_ends _ _ _ hreached Sample.world "/work/a.ts" []
  have hids : ids = ["/work/a.ts", "/work/b.ts"] := by
    have hreads : (Sample.session.analyzeModule Sample.world "/work/a.ts" []).1.session.reads =
        ["/work/a.ts", "/work/b.ts"] := by decide +kernel
    rw [hends.analyzes, hends.reads] at hreads
    exact hreads
  have hdepth : depth = 2 := by
    have hnesting := hends.nesting
    rw [hids, List.length_cons, List.length_singleton] at hnesting
    refine Nat.le_antisymm hnesting (Nat.le_of_not_lt fun hless => hends.ends.ne_tooDeep ?_)
    have hdeep : (enter Sample.world 2 { session := Sample.session, visiting := [] } "/work/a.ts").2 = .error .tooDeep := by
      decide +kernel
    rwa [hends.enough 2 hless] at hdeep
  rw [hids, hdepth] at hends
  exact ⟨hreached, t, result, hends⟩

end Session

end BlockingCalls
