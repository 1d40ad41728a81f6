import BlockingCalls.Proofs.Passes

/-!
# What a search along chains of imports looks at

An import stands for an export of another module, and that may be imported itself: the successor of an import is the import
that its source module has under the name it stands for, and each import of a name begins a *chain*. A name should lead to
a blocking one if and only if some import on one of its chains stands for a blocking name.

The search identifies an import by a key, the importing module and the imported name, and visits no key twice. But the key
does not contain the source of the import. A module that re-exports the defaults of two others under names of its own has
two imports with the same key, and the search visits only the one that it reaches first. The visited imports do not depend
on the blocking names: they lie on chains, they have different keys, and every import on a chain has the key of one of
them. So the search is sound, and it is complete if, on the chains of the name, no module imports one name from two
sources. What a pass misses in this way is not lost, because the rule for imported names propagates it along the chain in
later passes.

## Results

* `searchChains_eq_any`           — the search tests whether one of the visited imports blocks.
* `sweeps_swept`                  — one import is visited for each key on the chains.
* `Sweeps.mem_of_onChain`         — where keys identify imports, all of them are visited.
* `leadsToBlocking_by_key`        — soundness, and completeness where keys identify imports.
-/

namespace BlockingCalls

namespace Program

open StateTransition (eval)

-- ---------------------------------------------------------------------------
-- Chains
-- ---------------------------------------------------------------------------

/-- The imports on the chains of a name, each with the module that has it. A chain begins at each import that some
module has under the name, and continues from an import with that of its source module under the name that it stands
for. -/
inductive OnChain (p : Program) (name : Name) : ModuleId × Alias → Prop
  | first {link : ModuleId × Alias} (mem : link ∈ p.aliases.forLocal name) : OnChain p name link
  | next {link : ModuleId × Alias} {ref : Alias} (chain : OnChain p name link)
      (leads : p.aliases.get? link.2.source (p.modules.exportedName link.2.source link.2.name) = some ref) :
      OnChain p name (link.2.source, ref)

/-- Some import on the chains of a name stands for a name that blocks. -/
def ChainBlocks (p : Program) (blocking : List Name) (name : Name) : Prop :=
  ∃ link, p.OnChain name link ∧ p.aliasBlocks blocking link.2 = true

/-- On the chains of a name, no module imports one name from two sources. -/
def ToldApart (p : Program) (name : Name) : Prop :=
  ∀ link link', p.OnChain name link → p.OnChain name link' → link.1 = link'.1 → link.2.name = link'.2.name →
    link.2.source = link'.2.source

variable {p : Program} {name : Name}

theorem OnChain.nextAlias {link link' : ModuleId × Alias} (h : p.OnChain name link)
    (hleads : p.nextAlias? link.2 = some link') : p.OnChain name link' := by
  obtain ⟨ref, href, rfl⟩ := Option.map_eq_some_iff.mp hleads
  exact h.next href

theorem OnChain.mem_chainKeys {link : ModuleId × Alias} (h : p.OnChain name link) : chainKey link ∈ p.chainKeys := by
  cases h with
  | first mem => exact mem_chainKeys_of_mem_items (Aliases.mem_items_of_mem_forLocal mem)
  | next _ leads => exact mem_chainKeys_of_mem_items (Aliases.mem_items_of_get?_eq_some leads)

/-- If an import on a chain stands for a name of a closed set, the name at which the chain begins is in the set. -/
theorem Closed.mem_of_onChain {B : Set Name} (hB : p.Closed B) {link : ModuleId × Alias} (h : p.OnChain name link)
    (hstands : p.StandsFor B link.2) : name ∈ B := by
  induction h with
  | first mem => exact hB.imported _ _ _ (Aliases.mem_items_of_mem_forLocal mem) hstands
  | next _ leads ih =>
    -- the local name of the import is what the import before it stands for
    exact ih (.inr (.inl (hB.imported _ _ _ (Aliases.mem_items_of_get?_eq_some leads) hstands)))

-- ---------------------------------------------------------------------------
-- The imports that a search visits
-- ---------------------------------------------------------------------------

/-- The imports that a search visits, in order, as long as none of them blocks. -/
def sweep (p : Program) (unused : List (ModuleId × Name)) : List (ModuleId × Alias) → List (ModuleId × Alias)
  | [] => []
  | link :: pending =>
    if unused.contains (chainKey link) then
      link :: p.sweep (useKey (chainKey link) unused) ((p.nextAlias? link.2).toList ++ pending)
    else p.sweep unused pending
termination_by pending => (unused.length, pending.length)
decreasing_by
  · rename_i h
    exact Prod.Lex.left _ _ (length_useKey_lt h)
  · apply Prod.Lex.right
    simp

/-- The imports that the search from a name visits. -/
def swept (p : Program) (name : Name) : List (ModuleId × Alias) :=
  p.sweep p.chainKeys (p.aliases.forLocal name).reverse

/-- **A search tests whether one of the visited imports blocks.** -/
theorem searchChains_eq_any (p : Program) (blocking : List Name) (unused : List (ModuleId × Name))
    (pending : List (ModuleId × Alias)) :
    p.searchChains blocking unused pending =
      (p.sweep unused pending).any fun link => p.aliasBlocks blocking link.2 := by
  fun_induction sweep p unused pending with
  | case1 => rw [searchChains, List.any_nil]
  | case2 unused link pending hunused ih => rw [searchChains, if_pos hunused, ih, List.any_cons]
  | case3 unused link pending hused ih => rw [searchChains, if_neg hused, ih]

/-- An import with an unused key that does not block makes way for its successor. -/
theorem searchChains_of_unused {blocking : List Name} {unused : List (ModuleId × Name)} {link : ModuleId × Alias}
    {pending : List (ModuleId × Alias)} (hunused : chainKey link ∈ unused) (h : p.aliasBlocks blocking link.2 = false) :
    p.searchChains blocking unused (link :: pending) =
      p.searchChains blocking (useKey (chainKey link) unused) ((p.nextAlias? link.2).toList ++ pending) := by
  rw [searchChains, if_pos (List.contains_iff_mem.mpr hunused), h, Bool.false_or]

theorem searchChains_of_used {blocking : List Name} {unused : List (ModuleId × Name)} {link : ModuleId × Alias}
    {pending : List (ModuleId × Alias)} (hused : chainKey link ∉ unused) :
    p.searchChains blocking unused (link :: pending) = p.searchChains blocking unused pending := by
  rw [searchChains, if_neg fun hin => hused (List.contains_iff_mem.mp hin)]

/-- The keys of visited imports were unused. -/
theorem chainKey_mem_of_mem_sweep {unused : List (ModuleId × Name)} {pending : List (ModuleId × Alias)}
    {link : ModuleId × Alias} (h : link ∈ p.sweep unused pending) : chainKey link ∈ unused := by
  fun_induction sweep p unused pending with
  | case1 => cases h
  | case2 unused head pending hunused ih =>
    rcases List.mem_cons.mp h with rfl | hlater
    · exact List.contains_iff_mem.mp hunused
    · exact (mem_useKey.mp (ih hlater)).1
  | case3 unused head pending hused ih => exact ih h

/-- No key is visited twice. -/
theorem nodup_keys_sweep (unused : List (ModuleId × Name)) (pending : List (ModuleId × Alias)) :
    ((p.sweep unused pending).map chainKey).Nodup := by
  fun_induction sweep p unused pending with
  | case1 => exact List.nodup_nil
  | case2 unused link pending hunused ih =>
    rw [List.map_cons, List.nodup_cons]
    refine ⟨fun hmem => ?_, ih⟩
    -- the key is used up before the search continues
    obtain ⟨later, hlater, hkey⟩ := List.mem_map.mp hmem
    exact (mem_useKey.mp (chainKey_mem_of_mem_sweep hlater)).2 hkey
  | case3 unused link pending hused ih => exact ih

/-- Visited imports lie on chains. -/
theorem onChain_of_mem_sweep {unused : List (ModuleId × Name)} {pending : List (ModuleId × Alias)}
    (hpending : ∀ link ∈ pending, p.OnChain name link) : ∀ link ∈ p.sweep unused pending, p.OnChain name link := by
  fun_induction sweep p unused pending with
  | case1 => exact List.forall_mem_nil _
  | case2 unused head pending hunused ih =>
    rw [List.forall_mem_cons] at hpending ⊢
    refine ⟨hpending.1, ih fun link hlink => ?_⟩
    rcases List.mem_append.mp hlink with hleads | hrest
    · exact hpending.1.nextAlias (Option.mem_toList.mp hleads)
    · exact hpending.2 link hrest
  | case3 unused head pending hused ih =>
    exact ih fun link hlink => hpending link (List.mem_cons_of_mem _ hlink)

/-- What is pending, and the successors of visited imports, have the keys of visited imports, unless their keys were
used from the beginning. By induction along the search. -/
theorem chainKey_mem_keys_sweep (unused : List (ModuleId × Name)) (pending : List (ModuleId × Alias))
    {next : ModuleId × Alias}
    (hnext : next ∈ pending ∨ ∃ link ∈ p.sweep unused pending, p.nextAlias? link.2 = some next)
    (hkey : chainKey next ∈ unused) : chainKey next ∈ (p.sweep unused pending).map chainKey := by
  fun_induction sweep p unused pending with
  | case1 => simp at hnext
  | case2 unused head pending hunused ih =>
    -- the import at the top is visited, and its successor is pending then
    rw [List.map_cons, List.mem_cons]
    by_cases hsame : chainKey next = chainKey head
    · exact .inl hsame
    · refine .inr (ih ?_ (mem_useKey.mpr ⟨hkey, hsame⟩))
      rcases hnext with hmem | ⟨link, hlink, hleads⟩
      · rcases List.mem_cons.mp hmem with rfl | hrest
        · exact absurd rfl hsame
        · exact .inl (List.mem_append_right _ hrest)
      · rcases List.mem_cons.mp hlink with rfl | hlater
        · exact .inl (List.mem_append_left _ (Option.mem_toList.mpr hleads))
        · exact .inr ⟨link, hlater, hleads⟩
  | case3 unused head pending hused ih =>
    -- the import at the top is dropped; its key was used, so it is not `next`
    refine ih (hnext.imp_left fun hmem => ?_) hkey
    rcases List.mem_cons.mp hmem with rfl | hrest
    · exact absurd (List.contains_iff_mem.mpr hkey) hused
    · exact hrest

-- ---------------------------------------------------------------------------
-- One import for each key
-- ---------------------------------------------------------------------------

/-- The imports `looked` are visited on the chains of a name: one for each key, and successors are visited as long as
keys are new. -/
structure Sweeps (p : Program) (name : Name) (looked : List (ModuleId × Alias)) : Prop where
  onChain : ∀ link ∈ looked, p.OnChain name link
  nodup : (looked.map chainKey).Nodup
  first : ∀ link ∈ p.aliases.forLocal name, chainKey link ∈ looked.map chainKey
  next : ∀ link ∈ looked, ∀ link', p.nextAlias? link.2 = some link' → chainKey link' ∈ looked.map chainKey

/-- **One import is visited for each key on the chains.** -/
theorem sweeps_swept (p : Program) (name : Name) : p.Sweeps name (p.swept name) := by
  have hbegin : ∀ link ∈ (p.aliases.forLocal name).reverse, p.OnChain name link := fun link hlink =>
    .first (List.mem_reverse.mp hlink)
  have hchain : ∀ link ∈ p.swept name, p.OnChain name link := onChain_of_mem_sweep hbegin
  refine ⟨hchain, nodup_keys_sweep _ _, fun link hlink => ?_, fun link hlink link' hleads => ?_⟩
  · exact chainKey_mem_keys_sweep _ _ (.inl (List.mem_reverse.mpr hlink)) (OnChain.first hlink).mem_chainKeys
  · exact chainKey_mem_keys_sweep _ _ (.inr ⟨link, hlink, hleads⟩) ((hchain link hlink).nextAlias hleads).mem_chainKeys

theorem leadsToBlocking_eq_any (p : Program) (blocking : List Name) (name : Name) :
    p.leadsToBlocking blocking name = (p.swept name).any fun link => p.aliasBlocks blocking link.2 :=
  p.searchChains_eq_any blocking _ _

/-- Imports with the same key are equal, where keys identify the imports on chains. -/
theorem ToldApart.eq_of_chainKey (h : p.ToldApart name) {link link' : ModuleId × Alias} (hlink : p.OnChain name link)
    (hlink' : p.OnChain name link') (hkey : chainKey link = chainKey link') : link = link' := by
  obtain ⟨moduleId, source, imported⟩ := link
  obtain ⟨moduleId', source', imported'⟩ := link'
  obtain ⟨rfl, rfl⟩ : moduleId = moduleId' ∧ imported = imported' := Prod.mk.inj hkey
  obtain rfl : source = source' := h _ _ hlink hlink' rfl rfl
  rfl

/-- **Where keys identify the imports on chains, every import on a chain is visited.** By induction along the chain. -/
theorem Sweeps.mem_of_onChain {looked : List (ModuleId × Alias)} (h : p.Sweeps name looked) (hapart : p.ToldApart name)
    {link : ModuleId × Alias} (hlink : p.OnChain name link) : link ∈ looked := by
  have hkey : ∀ {link : ModuleId × Alias}, p.OnChain name link → chainKey link ∈ looked.map chainKey → link ∈ looked := by
    intro link hlink hmem
    obtain ⟨other, hother, hsame⟩ := List.mem_map.mp hmem
    rwa [← hapart.eq_of_chainKey (h.onChain other hother) hlink hsame]
  induction hlink with
  | first mem => exact hkey (.first mem) (h.first _ mem)
  | @next link ref chain leads ih =>
    refine hkey (chain.next leads) (h.next link ih _ ?_)
    exact Option.map_eq_some_iff.mpr ⟨ref, leads, rfl⟩

/-- **The search is sound.** -/
theorem chainBlocks_of_leadsToBlocking {blocking : List Name} (h : p.leadsToBlocking blocking name = true) :
    p.ChainBlocks blocking name := by
  rw [leadsToBlocking_eq_any, List.any_eq_true] at h
  obtain ⟨link, hlink, hblocks⟩ := h
  exact ⟨link, (p.sweeps_swept name).onChain link hlink, hblocks⟩

/-- **The search along chains.** The search from a name terminates, whatever cycles the imports form, and its answer is
whether one of the visited imports blocks. These are the same whatever blocks: one import on the chains of the name for
each key that occurs on them. So the answer is yes only if a chain reaches a blocking name, and it is yes for every such
chain if no module on the chains imports one name from two sources. What the search misses does not change the outcome
of propagation: a caller of a name with a chain to a blocking one is blocking in the end. -/
theorem leadsToBlocking_by_key (p : Program) (name : Name) :
    (∀ blocking, eval (Search.turn? p blocking) (.going [] (p.aliases.forLocal name).reverse) =
      Part.some (.answered (p.leadsToBlocking blocking name))) ∧
    (∃ looked, p.Sweeps name looked ∧
      ∀ blocking, p.leadsToBlocking blocking name = looked.any fun link => p.aliasBlocks blocking link.2) ∧
    (∀ blocking, p.leadsToBlocking blocking name = true → p.ChainBlocks blocking name) ∧
    (p.ToldApart name → ∀ blocking, p.leadsToBlocking blocking name = true ↔ p.ChainBlocks blocking name) ∧
    ∀ seed caller, (caller, name) ∈ p.calls.edges → p.ChainBlocks (p.propagate seed).blocking name →
      caller ∈ (p.propagate seed).blocking := by
  have hsweeps := p.sweeps_swept name
  refine ⟨fun blocking => p.eval_search blocking name,
    ⟨p.swept name, hsweeps, fun blocking => p.leadsToBlocking_eq_any blocking name⟩,
    fun blocking => chainBlocks_of_leadsToBlocking, fun hapart blocking => ⟨chainBlocks_of_leadsToBlocking, ?_⟩, ?_⟩
  · -- complete: the blocking import is visited
    rintro ⟨link, hlink, hblocks⟩
    rw [leadsToBlocking_eq_any, List.any_eq_true]
    exact ⟨link, hsweeps.mem_of_onChain hapart hlink, hblocks⟩
  · -- the outcome of propagation is closed
    rintro seed caller hcall ⟨link, hlink, hblocks⟩
    have hclosed := p.propagate_closed seed
    exact hclosed.call _ _ hcall (hclosed.mem_of_onChain hlink (aliasBlocks_iff.mp hblocks))

-- ---------------------------------------------------------------------------
-- Two defaults that one module re-exports
-- ---------------------------------------------------------------------------

/-- `/m` re-exports the defaults of `/s` and `/u` as `x` and `y`. The default of `/s` is its import `d`, which is the
blocking function `g` of `/t`. `/a` and `/b` import `x` and `y`, both by the name `n`, and `f` calls `n`. -/
def handingOn : Program where
  calls := ⟨⟨[("f", ["n"]), ("g", [])]⟩⟩
  aliases := ⟨⟨[
    ("/a", ⟨[("n", ⟨"/m", "x"⟩)]⟩), ("/b", ⟨[("n", ⟨"/m", "y"⟩)]⟩),
    ("/m", ⟨[("x", ⟨"/s", "default"⟩), ("y", ⟨"/u", "default"⟩)]⟩), ("/s", ⟨[("d", ⟨"/t", "g"⟩)]⟩)]⟩⟩
  modules := ⟨⟨[
    ("/s", { moduleId := "/s", exports := ⟨[("default", "d")]⟩ }),
    ("/t", { moduleId := "/t", directBlocking := ["g"], exports := ⟨[("g", "g")]⟩ })]⟩⟩

/-- The chain of `x` goes through `/m` once. -/
theorem handingOn_onChain_x {link : ModuleId × Alias} (h : handingOn.OnChain "x" link) :
    link = ("/m", ⟨"/s", "default"⟩) ∨ link = ("/s", ⟨"/t", "g"⟩) := by
  induction h with
  | first mem => exact .inl (List.mem_singleton.mp mem)
  | next _ leads ih =>
    rcases ih with rfl | rfl
    · exact .inr (congrArg (Prod.mk "/s") (Option.some.inj leads).symm)
    · cases leads

/-- On the chain of `x` no module imports one name from two sources, and the search is complete. -/
theorem leadsToBlocking_by_key_once :
    handingOn.ToldApart "x" ∧ handingOn.leadsToBlocking [] "x" = true := by
  have hapart : handingOn.ToldApart "x" := by
    intro link link' hlink hlink' hmodule _
    rcases handingOn_onChain_x hlink with rfl | rfl <;> rcases handingOn_onChain_x hlink' with rfl | rfl
    · rfl
    · exact absurd hmodule (by decide)
    · exact absurd hmodule (by decide)
    · rfl
  refine ⟨hapart, ((leadsToBlocking_by_key handingOn "x").2.2.2.1 hapart []).mpr ?_⟩
  have hfirst : handingOn.OnChain "x" ("/m", ⟨"/s", "default"⟩) := .first (List.mem_singleton_self _)
  have hsecond : handingOn.OnChain "x" ("/s", ⟨"/t", "g"⟩) := hfirst.next rfl
  exact ⟨_, hsecond, rfl⟩

/-- The search from `n` visits the import of `y` by `/b` first, and then the default of `/u`. It reaches `/m` again
along the import of `x` by `/a`, but the key of that default is used. -/
theorem handingOn_leadsToBlocking_n : handingOn.leadsToBlocking ["d", "g"] "n" = false := by
  have hstart : (handingOn.aliases.forLocal "n").reverse = [("/b", ⟨"/m", "y"⟩), ("/a", ⟨"/m", "x"⟩)] := rfl
  rw [leadsToBlocking, hstart, searchChains_of_unused (by decide) (by decide)]
  show handingOn.searchChains _ _ [("/m", ⟨"/u", "default"⟩), ("/a", ⟨"/m", "x"⟩)] = false
  rw [searchChains_of_unused (by decide) (by decide)]
  show handingOn.searchChains _ _ [("/a", ⟨"/m", "x"⟩)] = false
  rw [searchChains_of_unused (by decide) (by decide)]
  show handingOn.searchChains _ _ [("/m", ⟨"/s", "default"⟩)] = false
  rw [searchChains_of_used (by decide), searchChains]

/-- The chain of `n` from `/a` leads through `/m` to the default of `/s`, which is blocking once `d` is. But the search
does not visit it: a pass that has found `d` leaves out `f`. -/
theorem leadsToBlocking_misses_second_default :
    handingOn.ChainBlocks ["d", "g"] "n" ∧ handingOn.leadsToBlocking ["d", "g"] "n" = false ∧
      ("f", "n") ∈ handingOn.calls.edges ∧ handingOn.pass ["g"] = ["d", "g"] := by
  have hfirst : handingOn.OnChain "n" ("/a", ⟨"/m", "x"⟩) := .first List.mem_cons_self
  have hsecond : handingOn.OnChain "n" ("/m", ⟨"/s", "default"⟩) := hfirst.next rfl
  have hedges : handingOn.calls.edges = [("f", "n")] := rfl
  have himported : handingOn.addImported (addCallers handingOn.calls.edges ["g"]) = ["d", "g"] := by decide
  refine ⟨⟨_, hsecond, by decide⟩, handingOn_leadsToBlocking_n, by decide, ?_⟩
  rw [pass, himported, hedges, addChained, List.foldl_cons, List.foldl_nil, if_neg (by decide),
    handingOn_leadsToBlocking_n, if_neg Bool.false_ne_true]

end Program

end BlockingCalls
