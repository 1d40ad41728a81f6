import BlockingCalls.Proofs.LeastClosure
import Mathlib.Computability.StateTransition
import Mathlib.Data.Finset.Card

/-!
# Pass by pass

Propagation consists of two nested loops. The outer one makes passes as long as the latest pass has added a name. The inner
one follows chains of imports from a name, with a stack of pending imports and the keys that it has seen. Neither has a
bound on the number of its iterations. So both are given here as transition functions (`Outcome.turn?`, `Search.turn?`),
whose iteration, which may a priori diverge, is `StateTransition.eval`.

Termination is shown along the definitions that compute the same by well-founded recursion; their measures are the keys
that are not used yet, and the callers and imported names that are not in the set yet. What the passes add is determined by
one induction on the passes: no pass adds what is in the set before it, and each but the last adds something.

## Results

* `eval_search`            — a search along chains terminates, with the answer that a pass uses.
* `eval_turns`             — the loop of passes terminates with the outcome of propagation.
* `pairwise_disjoint_addedPerPass`, `mem_passesFrom_iff` — passes add disjoint sets, which make up all new names.
* `passes_passesFrom_le`   — there is at most one pass more than names that they could add.
* `propagate_pass_by_pass` — all this for propagation from a seed.
-/

namespace BlockingCalls

namespace Program

open StateTransition (Reaches eval mem_eval)

-- ---------------------------------------------------------------------------
-- A search along chains of imports, turn by turn
-- ---------------------------------------------------------------------------

/-- A search along chains of imports: the keys that it has seen and its stack of imports, until it has its answer. -/
inductive Search where
  | going (seen : List (ModuleId × Name)) (pending : List (ModuleId × Alias))
  | answered (answer : Bool)

/-- One turn of a search. An import whose key has been seen is dropped; another one answers the search if it blocks, and
else makes way for the import that it leads on to. -/
def Search.turn? (p : Program) (blocking : List Name) : Search → Option Search
  | .answered _ => none
  | .going _ [] => some (.answered false)
  | .going seen (link :: pending) =>
    if chainKey link ∈ seen then some (.going seen pending)
    else if p.aliasBlocks blocking link.2 then some (.answered true)
    else some (.going (chainKey link :: seen) ((p.nextAlias? link.2).toList ++ pending))

theorem mem_chainKeys_of_mem_items {p : Program} {moduleId : ModuleId} {localName : Name} {ref : Alias}
    (h : (moduleId, localName, ref) ∈ p.aliases.items) : chainKey (moduleId, ref) ∈ p.chainKeys :=
  List.mem_map.mpr ⟨_, h, rfl⟩

theorem mem_chainKeys_of_nextAlias? {p : Program} {ref : Alias} {next : ModuleId × Alias}
    (h : p.nextAlias? ref = some next) : chainKey next ∈ p.chainKeys := by
  obtain ⟨ref', href, rfl⟩ := Option.map_eq_some_iff.mp h
  exact mem_chainKeys_of_mem_items (Aliases.mem_items_of_get?_eq_some href)

theorem mem_useKey {key other : ModuleId × Name} {unused : List (ModuleId × Name)} :
    other ∈ useKey key unused ↔ other ∈ unused ∧ other ≠ key := by
  simp [useKey]

/-- **The search reaches the computed answer.** The invariant is that the unused keys of the computation are those of
imports that have not been seen. -/
theorem reaches_answered {p : Program} {blocking : List Name} (unused : List (ModuleId × Name))
    (pending : List (ModuleId × Alias)) : ∀ seen : List (ModuleId × Name),
    (∀ link ∈ pending, chainKey link ∈ p.chainKeys) → (∀ key ∈ p.chainKeys, key ∈ unused ↔ key ∉ seen) →
    Reaches (Search.turn? p blocking) (.going seen pending) (.answered (p.searchChains blocking unused pending)) := by
  fun_induction searchChains p blocking unused pending with
  | case1 unused =>
    intro seen _ _
    exact .single rfl
  | case2 unused link pending hunused ih =>
    -- the key is unused, so it has not been seen
    intro seen hpending hseen
    have hkey : chainKey link ∈ p.chainKeys := hpending link List.mem_cons_self
    have hnot : chainKey link ∉ seen := (hseen _ hkey).mp (List.contains_iff_mem.mp hunused)
    cases hblocks : p.aliasBlocks blocking link.2 with
    | true =>
      refine .single ?_
      simp [Search.turn?, hnot, hblocks]
    | false =>
      rw [Bool.false_or]
      have hturn : Search.turn? p blocking (.going seen (link :: pending)) =
          some (.going (chainKey link :: seen) ((p.nextAlias? link.2).toList ++ pending)) := by
        simp [Search.turn?, hnot, hblocks]
      refine .head hturn (ih (chainKey link :: seen) ?_ ?_)
      · -- the successor is an import of the program
        intro next hnext
        rcases List.mem_append.mp hnext with hleads | hrest
        · exact mem_chainKeys_of_nextAlias? (Option.mem_toList.mp hleads)
        · exact hpending next (List.mem_cons_of_mem _ hrest)
      · -- the key is used up and seen at once
        intro key hmem
        rw [mem_useKey, hseen key hmem, List.mem_cons, not_or, and_comm]
  | case3 unused link pending hused ih =>
    -- the key is used, so it has been seen and the import is dropped
    intro seen hpending hseen
    have hkey : chainKey link ∈ p.chainKeys := hpending link List.mem_cons_self
    have hmem : chainKey link ∈ seen := by
      by_contra hnot
      exact hused (List.contains_iff_mem.mpr ((hseen _ hkey).mpr hnot))
    have hturn : Search.turn? p blocking (.going seen (link :: pending)) = some (.going seen pending) := by
      simp [Search.turn?, hmem]
    exact .head hturn (ih seen (fun next hnext => hpending next (List.mem_cons_of_mem _ hnext)) hseen)

/-- **A search terminates**, whatever cycles the imports form. -/
theorem eval_search (p : Program) (blocking : List Name) (localName : Name) :
    eval (Search.turn? p blocking) (.going [] (p.aliases.forLocal localName).reverse) =
      Part.some (.answered (p.leadsToBlocking blocking localName)) := by
  refine Part.eq_some_iff.mpr (mem_eval.mpr ⟨reaches_answered _ _ _ ?_ ?_, rfl⟩)
  · intro link hlink
    exact mem_chainKeys_of_mem_items (Aliases.mem_items_of_mem_forLocal (List.mem_reverse.mp hlink))
  · intro key hkey
    simp [hkey]

-- ---------------------------------------------------------------------------
-- The loop of passes, turn by turn
-- ---------------------------------------------------------------------------

/-- One iteration of the loop of passes: a pass is made at the beginning, and then if the latest one has added a name.
The state consists of the names so far and of what each pass has added; `pass` is the effect of a pass, by its number.
-/
def Outcome.turn? (pass : Nat → List Name → List Name) (o : Outcome) : Option Outcome :=
  if o.addedPerPass.getLast? = some [] then none
  else
    some { blocking := pass o.passes o.blocking
           addedPerPass := o.addedPerPass ++ [added o.blocking (pass o.passes o.blocking)] }

/-- The loop of passes before the first pass. -/
def Outcome.start (seed : List Name) : Outcome :=
  { blocking := seed.eraseDups, addedPerPass := [] }

/-- The passes from a set of names are iterations of the loop, whatever the passes before them have added. -/
theorem reaches_passesFrom (p : Program) (blocking : List Name) : ∀ before : List (List Name), [] ∉ before →
    Reaches (Outcome.turn? fun _ => p.pass) { blocking, addedPerPass := before }
      { blocking := (p.passesFrom blocking).blocking
        addedPerPass := before ++ (p.passesFrom blocking).addedPerPass } := by
  have hturn : ∀ (blocking : List Name) (before : List (List Name)), [] ∉ before →
      Outcome.turn? (fun _ => p.pass) { blocking, addedPerPass := before } =
        some { blocking := p.pass blocking, addedPerPass := before ++ [added blocking (p.pass blocking)] } :=
    fun _ _ hbefore => if_neg fun hlast => hbefore (List.mem_of_getLast? hlast)
  fun_induction passesFrom p blocking with
  | case1 blocking hdone =>
    intro before hbefore
    refine .single ?_
    rw [hturn blocking before hbefore, hdone]
    rfl
  | case2 blocking hmore rest ih =>
    intro before hbefore
    refine .head (hturn blocking before hbefore) ?_
    have hrest := ih (before ++ [added blocking (p.pass blocking)]) (by simp [hbefore, Ne.symm hmore])
    rwa [List.append_assoc, List.singleton_append] at hrest

/-- The last pass adds nothing, and each one before it something. -/
theorem addedPerPass_eq_concat (p : Program) (blocking : List Name) :
    ∃ earlier, (p.passesFrom blocking).addedPerPass = earlier ++ [[]] ∧ ∀ names ∈ earlier, names ≠ [] := by
  fun_induction passesFrom p blocking with
  | case1 blocking _ => exact ⟨[], rfl, List.forall_mem_nil _⟩
  | case2 blocking hmore rest ih =>
    obtain ⟨earlier, hearlier, hne⟩ := ih
    refine ⟨added blocking (p.pass blocking) :: earlier, ?_, List.forall_mem_cons.mpr ⟨hmore, hne⟩⟩
    rw [hearlier, List.cons_append]

/-- **The loop of passes terminates with the outcome of propagation.** -/
theorem eval_turns (p : Program) (seed : List Name) :
    eval (Outcome.turn? fun _ => p.pass) (.start seed) = Part.some (p.propagate seed) := by
  refine Part.eq_some_iff.mpr (mem_eval.mpr ⟨?_, ?_⟩)
  · exact reaches_passesFrom p seed.eraseDups [] List.not_mem_nil
  · obtain ⟨earlier, hearlier, _⟩ := addedPerPass_eq_concat p seed.eraseDups
    refine if_pos ?_
    rw [propagate, hearlier, List.getLast?_concat]

-- ---------------------------------------------------------------------------
-- What the passes add
-- ---------------------------------------------------------------------------

theorem mem_added {a b : List Name} {x : Name} : x ∈ added a b ↔ x ∈ b ∧ x ∉ a := by
  simp [added]

theorem mem_pass_of_mem (p : Program) {blocking : List Name} {x : Name} (h : x ∈ blocking) : x ∈ p.pass blocking :=
  (p.grows_pass blocking).2 x h

/-- The names after the passes are those before them and those that were added. -/
theorem mem_passesFrom_iff (p : Program) (blocking : List Name) (x : Name) :
    x ∈ (p.passesFrom blocking).blocking ↔
      x ∈ blocking ∨ ∃ names ∈ (p.passesFrom blocking).addedPerPass, x ∈ names := by
  fun_induction passesFrom p blocking with
  | case1 blocking hdone =>
    have hsame : x ∈ p.pass blocking ↔ x ∈ blocking := ⟨added_eq_nil_iff.mp hdone x, p.mem_pass_of_mem⟩
    simp [hsame]
  | case2 blocking _ rest ih =>
    -- a pass has the names before it and those it adds
    have hpass : x ∈ p.pass blocking ↔ x ∈ blocking ∨ x ∈ added blocking (p.pass blocking) := by
      rw [mem_added]
      constructor
      · intro hx
        by_cases hmem : x ∈ blocking
        · exact .inl hmem
        · exact .inr ⟨hx, hmem⟩
      · rintro (hmem | ⟨hx, _⟩)
        · exact p.mem_pass_of_mem hmem
        · exact hx
    rw [ih, hpass, List.exists_mem_cons_iff, or_assoc]

/-- No pass adds an initial name. -/
theorem not_mem_of_mem_addedPerPass (p : Program) (blocking : List Name) :
    ∀ names ∈ (p.passesFrom blocking).addedPerPass, ∀ x ∈ names, x ∉ blocking := by
  fun_induction passesFrom p blocking with
  | case1 blocking _ => simp
  | case2 blocking _ rest ih =>
    refine List.forall_mem_cons.mpr ⟨fun x hx => (mem_added.mp hx).2, fun names hnames x hx hmem => ?_⟩
    exact ih names hnames x hx (p.mem_pass_of_mem hmem)

/-- **Different passes add different names.** -/
theorem pairwise_disjoint_addedPerPass (p : Program) (blocking : List Name) :
    (p.passesFrom blocking).addedPerPass.Pairwise List.Disjoint := by
  fun_induction passesFrom p blocking with
  | case1 blocking _ => exact List.pairwise_singleton _ _
  | case2 blocking _ rest ih =>
    refine List.pairwise_cons.mpr ⟨fun names hnames x hx hx' => ?_, ih⟩
    -- what this pass has added is there when the later ones are made
    exact not_mem_of_mem_addedPerPass p _ names hnames x hx' (mem_added.mp hx).1

/-- Passes add only callers and imported names. -/
theorem mem_candidates_of_mem_addedPerPass (p : Program) (blocking : List Name) :
    ∀ names ∈ (p.passesFrom blocking).addedPerPass, ∀ x ∈ names, x ∈ p.candidates := by
  fun_induction passesFrom p blocking with
  | case1 blocking _ => simp
  | case2 blocking _ rest ih =>
    refine List.forall_mem_cons.mpr ⟨fun x hx => ?_, ih⟩
    obtain ⟨hpass, hnot⟩ := mem_added.mp hx
    exact ((p.grows_pass blocking).1 x hpass).resolve_left hnot

/-- **The number of passes is bounded**: each pass but the last takes a candidate, so that fewer of them are left for
the passes after it. -/
theorem passes_passesFrom_le (p : Program) (blocking : List Name) :
    (p.passesFrom blocking).passes ≤ 1 + (p.candidates.toFinset \ blocking.toFinset).card := by
  fun_induction passesFrom p blocking with
  | case1 blocking _ => exact Nat.le_add_right _ _
  | case2 blocking hmore rest ih =>
    -- some name is added: it is a candidate, and no longer one that is left
    have hless : (p.candidates.toFinset \ (p.pass blocking).toFinset).card <
        (p.candidates.toFinset \ blocking.toFinset).card := by
      obtain ⟨x, hx⟩ := List.exists_mem_of_ne_nil _ hmore
      obtain ⟨hpass, hnot⟩ := mem_added.mp hx
      have hcandidate : x ∈ p.candidates := ((p.grows_pass blocking).1 x hpass).resolve_left hnot
      refine Finset.card_lt_card (Finset.ssubset_iff_of_subset ?_ |>.mpr ⟨x, ?_, ?_⟩)
      · refine Finset.sdiff_subset_sdiff (Finset.Subset.refl _) fun y hy => ?_
        exact List.mem_toFinset.mpr (p.mem_pass_of_mem (List.mem_toFinset.mp hy))
      · simp [hcandidate, hnot]
      · simp [hpass]
    show (added blocking (p.pass blocking) :: rest.addedPerPass).length ≤ _
    have hrest : rest.addedPerPass.length ≤ 1 + (p.candidates.toFinset \ (p.pass blocking).toFinset).card := ih
    rw [List.length_cons]
    omega

-- Names are kept in lists; no part of a pass inserts a name that is already there.

theorem nodup_foldl {α : Type} {step : List Name → α → List Name} (hstep : ∀ b i, b.Nodup → (step b i).Nodup)
    (items : List α) {a : List Name} (h : a.Nodup) : (items.foldl step a).Nodup := by
  induction items generalizing a with
  | nil => exact h
  | cons i rest ih => exact ih (hstep a i h)

theorem nodup_ite_insert {test : Bool} {b : List Name} {name : Name} (h : b.Nodup) :
    (if test then b.insert name else b).Nodup := by
  split
  · exact h.insert
  · exact h

/-- A pass adds no duplicate. -/
theorem nodup_pass (p : Program) {blocking : List Name} (h : blocking.Nodup) : (p.pass blocking).Nodup := by
  have hcallers : (addCallers p.calls.edges blocking).Nodup := nodup_foldl (fun _ _ hb => nodup_ite_insert hb) _ h
  have himported : (p.addImported (addCallers p.calls.edges blocking)).Nodup :=
    nodup_foldl (fun _ _ hb => nodup_ite_insert hb) _ hcallers
  refine nodup_foldl (fun b e hb => ?_) _ himported
  split
  · exact hb
  · exact nodup_ite_insert hb

/-- Neither do several passes, nor has what each of them adds duplicates. -/
theorem nodup_passesFrom (p : Program) (blocking : List Name) (h : blocking.Nodup) :
    (p.passesFrom blocking).blocking.Nodup ∧ ∀ names ∈ (p.passesFrom blocking).addedPerPass, names.Nodup := by
  fun_induction passesFrom p blocking with
  | case1 blocking _ => exact ⟨p.nodup_pass h, by simp⟩
  | case2 blocking _ rest ih =>
    obtain ⟨hblocking, hadded⟩ := ih (p.nodup_pass h)
    exact ⟨hblocking, List.forall_mem_cons.mpr ⟨(p.nodup_pass h).filter _, hadded⟩⟩

theorem nodup_propagate (p : Program) (seed : List Name) : (p.propagate seed).blocking.Nodup :=
  (nodup_passesFrom p _ (nodup_eraseDups seed)).1

-- ---------------------------------------------------------------------------
-- All of it
-- ---------------------------------------------------------------------------

/-- The course of the passes from a seed. -/
structure PassByPass (p : Program) (seed : List Name) (o : Outcome) : Prop where
  /-- The loop ends with the outcome, though nothing bounds its turns. -/
  ends : eval (Outcome.turn? fun _ => p.pass) (.start seed) = Part.some o
  /-- So does each search along chains of imports in a pass, with the answer that the pass goes by. -/
  searches : ∀ blocking localName,
    eval (Search.turn? p blocking) (.going [] (p.aliases.forLocal localName).reverse) =
      Part.some (.answered (p.leadsToBlocking blocking localName))
  /-- The last pass adds nothing, and each one before it something. -/
  last : ∃ earlier, o.addedPerPass = earlier ++ [[]] ∧ ∀ names ∈ earlier, names ≠ []
  disjoint : o.addedPerPass.Pairwise List.Disjoint
  fresh : ∀ names ∈ o.addedPerPass, names.Disjoint seed
  union : ∀ x, x ∈ o.blocking ↔ x ∈ seed ∨ ∃ names ∈ o.addedPerPass, x ∈ names
  /-- Names count once, in the outcome and in what a pass adds. -/
  once : o.blocking.Nodup ∧ ∀ names ∈ o.addedPerPass, names.Nodup
  candidates : ∀ names ∈ o.addedPerPass, ∀ x ∈ names,
    x ∈ p.calls.callers ∨ ∃ moduleId ref, (moduleId, x, ref) ∈ p.aliases.items
  /-- The different callers and imported names that are not in the seed bound the passes. -/
  passes_le : o.passes ≤ 1 + ((p.calls.callers ++ p.aliases.items.map (·.2.1)).toFinset \ seed.toFinset).card

/-- **Propagation, pass by pass.** Propagation terminates for every program and seed. Its last pass adds nothing, the
passes before it add disjoint sets of names that are not in the seed, and all of these are callers or imported names; so
there is at most one pass more than there are such names. -/
theorem propagate_pass_by_pass (p : Program) (seed : List Name) : p.PassByPass seed (p.propagate seed) where
  ends := p.eval_turns seed
  searches := p.eval_search
  last := addedPerPass_eq_concat p _
  disjoint := pairwise_disjoint_addedPerPass p _
  fresh names hnames x hx hseed :=
    not_mem_of_mem_addedPerPass p _ names hnames x hx (List.mem_eraseDups.mpr hseed)
  union x := by
    rw [propagate, mem_passesFrom_iff, List.mem_eraseDups]
  once := nodup_passesFrom p _ (nodup_eraseDups seed)
  candidates names hnames x hx := by
    refine (List.mem_append.mp (mem_candidates_of_mem_addedPerPass p _ names hnames x hx)).imp id fun himported => ?_
    obtain ⟨⟨moduleId, _, ref⟩, hitem, rfl⟩ := List.mem_map.mp himported
    exact ⟨moduleId, ref, hitem⟩
  passes_le := by
    have hseed : seed.eraseDups.toFinset = seed.toFinset := by
      ext x
      simp
    rw [← hseed]
    exact passes_passesFrom_le p _

end Program

end BlockingCalls
