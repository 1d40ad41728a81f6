import BlockingCalls.Proofs.Session.Complete

/-!
# Where imported names are declared

A name that is imported stands for an export of another module, and that may be imported itself: the successor of an alias
is the alias that its source module has for what it stands for. So each import of a name begins a *chain*, and the name
should be located if some name on one of its chains is.

The search keeps the names that it has passed and follows none of them twice. But a name does not identify a position on a
chain: two modules may import different things by one name, and a chain that reaches the same name in a second module is
cut there. The search is sound: what it finds lies on a chain that passes no name twice (a *trail*). It is complete if, on
the chains, every name without a location is imported in one way only. For a name with a single import the trail is
decisive: the name is located if and only if its trail reaches a name with a location before it repeats one.

The requested name counts as passed from the beginning. That cuts nothing, because each of its imports, in whatever
module, begins a chain of its own.

## Results

* `searchLocations_sound`     — what the search finds lies at the end of a trail.
* `searchLocations_complete`  — if the search fails, what it has passed is closed under the imports it has followed.
* `locationOf_of_trail`       — a single import is followed along its trail.
* `locationOf_along_chains`   — soundness, and completeness under two conditions.
-/

namespace BlockingCalls

/-- What a module imports by a name is among the imports of that name. -/
theorem Aliases.mem_forLocal_of_get? {a : Aliases} {moduleId : ModuleId} {localName : Name} {ref : Alias}
    (h : a.get? moduleId localName = some ref) : (moduleId, ref) ∈ a.forLocal localName := by
  obtain ⟨names, hnames, href⟩ := Option.bind_eq_some_iff.mp h
  exact List.mem_filterMap.mpr ⟨_, Table.mem_entries_of_get?_eq_some hnames, by simp [href]⟩

namespace Session

-- ---------------------------------------------------------------------------
-- Chains of imports
-- ---------------------------------------------------------------------------

/-- The successor of an alias on a chain: what its source module imports by the name that it stands for. -/
def leadsTo? (s : Session) (ref : Alias) : Option Alias :=
  s.program.aliases.get? ref.source (s.program.originOf ref)

/-- The location of what an alias stands for, where it is declared under that name. -/
def declared? (s : Session) (ref : Alias) : Option Location :=
  s.locations.get? (s.program.originOf ref)

/-- The aliases on the chains of a name. A chain begins at each alias that some module has for the name. -/
inductive OnChain (s : Session) (name : Name) : Alias → Prop
  | first {moduleId : ModuleId} {ref : Alias} (mem : (moduleId, ref) ∈ s.program.aliases.forLocal name) :
      OnChain s name ref
  | next {ref ref' : Alias} (chain : OnChain s name ref) (leads : s.leadsTo? ref = some ref') : OnChain s name ref'

/-- The name has a location, or a chain leads from it to a name that has one. -/
def Locatable (s : Session) (name : Name) : Prop :=
  (s.locations.get? name).isSome ∨ ∃ ref, s.OnChain name ref ∧ (s.declared? ref).isSome

/-- A chain that continues only past names without a location, and past each of them once. The first index collects the
names that it has passed; the name it begins with counts as one of them. -/
inductive Trail (s : Session) (name : Name) : List Name → Alias → Prop
  | first {moduleId : ModuleId} {ref : Alias} (mem : (moduleId, ref) ∈ s.program.aliases.forLocal name) :
      Trail s name [] ref
  | next {passed : List Name} {ref ref' : Alias} (trail : Trail s name passed ref) (undeclared : s.declared? ref = none)
      (other : s.program.originOf ref ≠ name) (fresh : s.program.originOf ref ∉ passed)
      (leads : s.leadsTo? ref = some ref') : Trail s name (s.program.originOf ref :: passed) ref'

/-- On the chains of a name, aliases that stand for one name without a location lead on to the same alias, unless that
name is the one the chains begin with. -/
def ToldApart (s : Session) (name : Name) : Prop :=
  ∀ ref ref', s.OnChain name ref → s.OnChain name ref' → s.program.originOf ref' = s.program.originOf ref →
    s.program.originOf ref ≠ name → s.declared? ref = none → s.leadsTo? ref' = s.leadsTo? ref

variable {s : Session} {name : Name}

/-- What an alias on a chain stands for is among the names that the search may use. -/
theorem OnChain.mem_origins {ref : Alias} (h : s.OnChain name ref) : s.program.originOf ref ∈ s.origins := by
  refine List.mem_eraseDups.mpr (List.mem_map.mpr ?_)
  cases h with
  | first mem => exact ⟨_, Aliases.mem_items_of_mem_forLocal mem, rfl⟩
  | next _ leads => exact ⟨_, Aliases.mem_items_of_get?_eq_some leads, rfl⟩

theorem Trail.onChain {passed : List Name} {ref : Alias} (h : s.Trail name passed ref) : s.OnChain name ref := by
  induction h with
  | first mem => exact .first mem
  | next _ _ _ _ leads ih => exact .next ih leads

-- ---------------------------------------------------------------------------
-- The search
-- ---------------------------------------------------------------------------

/-- The search stops at an alias that stands for a name with a location. -/
theorem searchLocations_of_declared {unused : List Name} {ref : Alias} {pending : List Alias} {location : Location}
    (h : s.declared? ref = some location) : s.searchLocations unused (ref :: pending) = some location := by
  rw [searchLocations]
  unfold declared? at h
  simp only [h]

/-- The search follows an alias that stands for an unused name, and uses the name up. -/
theorem searchLocations_of_unused {unused : List Name} {ref : Alias} {pending : List Alias}
    (h : s.declared? ref = none) (hunused : s.program.originOf ref ∈ unused) :
    s.searchLocations unused (ref :: pending) =
      s.searchLocations (unused.erase (s.program.originOf ref)) ((s.leadsTo? ref).toList ++ pending) := by
  rw [searchLocations]
  unfold declared? at h
  simp only [h, List.contains_iff_mem.mpr hunused, dite_true]
  rfl

/-- The search drops an alias that stands for a name already used. -/
theorem searchLocations_of_used {unused : List Name} {ref : Alias} {pending : List Alias}
    (h : s.declared? ref = none) (hused : s.program.originOf ref ∉ unused) :
    s.searchLocations unused (ref :: pending) = s.searchLocations unused pending := by
  rw [searchLocations]
  unfold declared? at h
  have hcontains : ¬ unused.contains (s.program.originOf ref) = true := fun hin => hused (List.contains_iff_mem.mp hin)
  simp only [h]
  rw [dif_neg hcontains]

/-- **Soundness**: what the search finds lies at the end of a trail. The invariant is that each pending alias is at the
end of a trail whose names are used up. -/
theorem searchLocations_sound {location : Location} (unused : List Name) (pending : List Alias) (hnodup : unused.Nodup)
    (hname : name ∉ unused)
    (hpending : ∀ ref ∈ pending, ∃ passed, s.Trail name passed ref ∧ ∀ o ∈ passed, o ∉ unused)
    (h : s.searchLocations unused pending = some location) :
    ∃ passed ref, s.Trail name passed ref ∧ s.declared? ref = some location := by
  fun_induction searchLocations s unused pending with
  | case1 => cases h
  | case2 unused ref pending origin found hfound =>
    obtain ⟨passed, htrail, _⟩ := hpending ref List.mem_cons_self
    exact ⟨passed, ref, htrail, hfound.trans h⟩
  | case3 unused ref pending origin hnone hunused ih =>
    rw [List.contains_iff_mem] at hunused
    refine ih (hnodup.erase _) (fun hin => hname (List.mem_of_mem_erase hin)) ?_ h
    intro next hnext
    rcases List.mem_append.mp hnext with hleads | hrest
    · -- the trail continues past a name that was unused until now
      obtain ⟨passed, htrail, hpassed⟩ := hpending ref List.mem_cons_self
      refine ⟨origin :: passed, htrail.next hnone ?_ (fun hin => hpassed _ hin hunused) (Option.mem_toList.mp hleads), ?_⟩
      · rintro rfl
        exact hname hunused
      · intro o ho
        rcases List.mem_cons.mp ho with rfl | ho
        · exact hnodup.not_mem_erase
        · exact fun hin => hpassed o ho (List.mem_of_mem_erase hin)
    · -- what was pending before stays so
      obtain ⟨passed, htrail, hpassed⟩ := hpending next (List.mem_cons_of_mem _ hrest)
      exact ⟨passed, htrail, fun o ho hin => hpassed o ho (List.mem_of_mem_erase hin)⟩
  | case4 unused ref pending origin hnone hused ih =>
    -- the name is used up: the alias is dropped
    exact ih hnodup hname (fun next hnext => hpending next (List.mem_cons_of_mem _ hnext)) h

/-- The alias stands for a name without a location that is used up. -/
def Dismissed (s : Session) (left : List Name) (ref : Alias) : Prop :=
  s.declared? ref = none ∧ s.program.originOf ref ∉ left

/-- **Completeness**: a search that fails dismisses all that is pending, and of each name that it uses up it has
followed one import, whose successor is dismissed too. -/
theorem searchLocations_complete (unused : List Name) (pending : List Alias) (hnodup : unused.Nodup)
    (hchain : ∀ ref ∈ pending, s.OnChain name ref) (h : s.searchLocations unused pending = none) :
    ∃ left, left ⊆ unused ∧ (∀ ref ∈ pending, s.Dismissed left ref) ∧
      ∀ o ∈ unused, o ∉ left → ∃ ref, s.OnChain name ref ∧ s.program.originOf ref = o ∧
        ∀ next, s.leadsTo? ref = some next → s.Dismissed left next := by
  fun_induction searchLocations s unused pending with
  | case1 unused => exact ⟨unused, List.Subset.refl _, nofun, fun o ho hleft => absurd ho hleft⟩
  | case2 => cases h
  | case3 unused ref pending origin hnone hunused ih =>
    -- the name is used up now, and its successor is searched first
    have hchain' : ∀ next ∈ (s.leadsTo? ref).toList ++ pending, s.OnChain name next := by
      intro next hnext
      rcases List.mem_append.mp hnext with hleads | hrest
      · exact .next (hchain ref List.mem_cons_self) (Option.mem_toList.mp hleads)
      · exact hchain next (List.mem_cons_of_mem _ hrest)
    obtain ⟨left, hleft, hdismissed, hfollowed⟩ := ih (hnodup.erase _) hchain' h
    refine ⟨left, fun o ho => List.mem_of_mem_erase (hleft ho), ?_, ?_⟩
    · intro next hnext
      rcases List.mem_cons.mp hnext with rfl | hrest
      · exact ⟨hnone, fun hin => hnodup.not_mem_erase (hleft hin)⟩
      · exact hdismissed next (List.mem_append_right _ hrest)
    · intro o ho hused
      by_cases heq : o = origin
      · -- the name used up now: its successor was pending and so is dismissed
        refine ⟨ref, hchain ref List.mem_cons_self, heq.symm, fun next hleads => ?_⟩
        exact hdismissed next (List.mem_append_left _ (Option.mem_toList.mpr hleads))
      · exact hfollowed o ((List.mem_erase_of_ne heq).mpr ho) hused
  | case4 unused ref pending origin hnone hused ih =>
    -- the name was used up before: the alias is dismissed
    obtain ⟨left, hleft, hdismissed, hfollowed⟩ := ih hnodup (fun next hnext => hchain next (List.mem_cons_of_mem _ hnext)) h
    refine ⟨left, hleft, ?_, hfollowed⟩
    intro next hnext
    rcases List.mem_cons.mp hnext with rfl | hrest
    · exact ⟨hnone, fun hin => hused (List.contains_iff_mem.mpr (hleft hin))⟩
    · exact hdismissed next hrest

-- ---------------------------------------------------------------------------
-- The location of a name
-- ---------------------------------------------------------------------------

theorem locationOf_of_located {location : Location} (h : s.locations.get? name = some location) :
    s.locationOf name = some location := by
  rw [locationOf, h]

theorem locationOf_of_not_located (h : s.locations.get? name = none) :
    s.locationOf name =
      s.searchLocations (s.origins.erase name) ((s.program.aliases.forLocal name).reverse.map (·.2)) := by
  rw [locationOf, h]

theorem mem_starts {ref : Alias} :
    ref ∈ (s.program.aliases.forLocal name).reverse.map (·.2) ↔
      ∃ moduleId, (moduleId, ref) ∈ s.program.aliases.forLocal name := by
  simp

/-- What is found for a name without a location lies at the end of one of its trails. -/
theorem trail_of_locationOf {location : Location} (hname : s.locations.get? name = none)
    (h : s.locationOf name = some location) : ∃ passed ref, s.Trail name passed ref ∧ s.declared? ref = some location := by
  rw [locationOf_of_not_located hname] at h
  have hnodup : s.origins.Nodup := nodup_eraseDups _
  refine searchLocations_sound _ _ (hnodup.erase name) hnodup.not_mem_erase ?_ h
  intro ref href
  obtain ⟨moduleId, hmem⟩ := mem_starts.mp href
  exact ⟨[], .first hmem, nofun⟩

/-- Where names are distinct on the chains, a search that fails has dismissed all of them. By induction along the
chain. -/
theorem isSome_locationOf_of_locatable (hapart : s.ToldApart name) (h : s.Locatable name) :
    (s.locationOf name).isSome := by
  cases hname : s.locations.get? name with
  | some location => rw [locationOf_of_located hname]; rfl
  | none =>
    by_contra hfails
    rw [Option.not_isSome_iff_eq_none, locationOf_of_not_located hname] at hfails
    have hnodup : s.origins.Nodup := nodup_eraseDups _
    have hbegin : ∀ ref ∈ (s.program.aliases.forLocal name).reverse.map (·.2), s.OnChain name ref := by
      intro ref href
      obtain ⟨moduleId, hmem⟩ := mem_starts.mp href
      exact .first hmem
    obtain ⟨left, _, hdismissed, hfollowed⟩ := searchLocations_complete _ _ (hnodup.erase name) hbegin hfails
    have hstart : ∀ moduleId ref, (moduleId, ref) ∈ s.program.aliases.forLocal name → s.Dismissed left ref :=
      fun moduleId ref hmem => hdismissed ref (mem_starts.mpr ⟨moduleId, hmem⟩)
    have hall : ∀ ref, s.OnChain name ref → s.Dismissed left ref := by
      intro ref hchain
      induction hchain with
      | first hmem => exact hstart _ _ hmem
      | @next ref next hchain hleads ih =>
        by_cases horigin : s.program.originOf ref = name
        · -- its successor is an import of the name itself and begins a chain of its own
          rw [leadsTo?, horigin] at hleads
          exact hstart _ _ (Aliases.mem_forLocal_of_get? hleads)
        · -- the search has followed some alias for the same name, and names are distinct
          have hunused := (List.mem_erase_of_ne horigin).mpr hchain.mem_origins
          obtain ⟨ref', hchain', horigin', hnext⟩ := hfollowed _ hunused ih.2
          apply hnext
          rw [hapart ref ref' hchain hchain' horigin' horigin ih.1]
          exact hleads
    rcases h with hsome | ⟨ref, hchain, hsome⟩
    · rw [hname] at hsome
      cases hsome
    · rw [(hall ref hchain).1] at hsome
      cases hsome

/-- A single import is followed along its trail, with the names that the trail has not passed still unused. -/
theorem locationOf_of_trail {moduleId : ModuleId} {start : Alias} (hname : s.locations.get? name = none)
    (hsingle : s.program.aliases.forLocal name = [(moduleId, start)]) {passed : List Name} {ref : Alias}
    (h : s.Trail name passed ref) :
    ∃ unused, (∀ o ∈ s.origins, o ≠ name → o ∉ passed → o ∈ unused) ∧
      s.locationOf name = s.searchLocations unused [ref] := by
  induction h with
  | first mem =>
    rw [hsingle] at mem
    cases List.mem_singleton.mp mem
    refine ⟨s.origins.erase name, fun o ho hother _ => (List.mem_erase_of_ne hother).mpr ho, ?_⟩
    rw [locationOf_of_not_located hname, hsingle]
    rfl
  | @next passed ref ref' trail undeclared other fresh leads ih =>
    -- the name passed is still unused, so the search follows the trail
    obtain ⟨unused, hunused, hlocation⟩ := ih
    have hmem := hunused _ trail.onChain.mem_origins other fresh
    refine ⟨unused.erase (s.program.originOf ref), ?_, ?_⟩
    · intro o ho hother hpassed
      rw [List.mem_cons, not_or] at hpassed
      exact (List.mem_erase_of_ne hpassed.1).mpr (hunused o ho hother hpassed.2)
    · rw [hlocation, searchLocations_of_unused undeclared hmem, leads]
      rfl

/-- **Locations along chains.** A name that has a location is found there, and what is found otherwise is the location
of what an alias at the end of a trail stands for. Where names are distinct on its chains, a name is found if and only
if it is locatable. A name that is imported once is found if and only if it has a location or its trail reaches a name
that has one: a chain is not continued when it reaches a name for the second time. -/
theorem locationOf_along_chains (s : Session) (name : Name) :
    (∀ location, s.locations.get? name = some location → s.locationOf name = some location) ∧
    (∀ location, s.locationOf name = some location → s.locations.get? name = some location ∨
      s.locations.get? name = none ∧ ∃ passed ref, s.Trail name passed ref ∧ s.declared? ref = some location) ∧
    (s.ToldApart name → ((s.locationOf name).isSome ↔ s.Locatable name)) ∧
    ∀ moduleId start, s.program.aliases.forLocal name = [(moduleId, start)] →
      ((s.locationOf name).isSome ↔ (s.locations.get? name).isSome ∨
        ∃ passed ref, s.Trail name passed ref ∧ (s.declared? ref).isSome) := by
  have hsound : ∀ location, s.locationOf name = some location → s.locations.get? name = some location ∨
      s.locations.get? name = none ∧ ∃ passed ref, s.Trail name passed ref ∧ s.declared? ref = some location := by
    intro location h
    cases hname : s.locations.get? name with
    | some other => exact .inl ((locationOf_of_located hname).symm.trans h)
    | none => exact .inr ⟨rfl, trail_of_locationOf hname h⟩
  have hfound : (s.locationOf name).isSome → (s.locations.get? name).isSome ∨
      ∃ passed ref, s.Trail name passed ref ∧ (s.declared? ref).isSome := by
    intro h
    obtain ⟨location, hlocation⟩ := Option.isSome_iff_exists.mp h
    rcases hsound location hlocation with hname | ⟨_, passed, ref, htrail, hdeclared⟩
    · exact .inl (by rw [hname]; rfl)
    · exact .inr ⟨passed, ref, htrail, by rw [hdeclared]; rfl⟩
  refine ⟨fun location => locationOf_of_located, hsound, fun hapart => ⟨fun h => ?_, ?_⟩, ?_⟩
  · exact (hfound h).imp_right fun ⟨passed, ref, htrail, hdeclared⟩ => ⟨ref, htrail.onChain, hdeclared⟩
  · exact isSome_locationOf_of_locatable hapart
  · -- a single import: the search runs along the trail up to its end
    intro moduleId start hsingle
    refine ⟨hfound, ?_⟩
    rintro (hname | ⟨passed, ref, htrail, hdeclared⟩)
    · obtain ⟨location, hlocation⟩ := Option.isSome_iff_exists.mp hname
      rw [locationOf_of_located hlocation]
      rfl
    · cases hname : s.locations.get? name with
      | some location => rw [locationOf_of_located hname]; rfl
      | none =>
        obtain ⟨unused, _, hsearch⟩ := locationOf_of_trail hname hsingle htrail
        obtain ⟨location, hlocation⟩ := Option.isSome_iff_exists.mp hdeclared
        rw [hsearch, searchLocations_of_declared hlocation]
        rfl

end Session

-- ---------------------------------------------------------------------------
-- A default that is handed on twice
-- ---------------------------------------------------------------------------

/-! A file imports the default of a second one by the name `n`. The second one hands on the default of a third one as its
own, and the third one that of a fourth, whose default is the function `f`. -/

namespace Sample

open BlockingCalls.Tree (Node)

def importingText : String :=
  "import n from'./b'"

def importingRows : List Node.Row :=
  [{ depth := 0, kind := "program", start := 0, stop := 18 },
   { depth := 1, kind := "import_statement", start := 0, stop := 18 },
   { depth := 2, kind := "import_clause", start := 7, stop := 8 },
   { depth := 3, kind := "identifier", start := 7, stop := 8 },
   { depth := 2, kind := "string", start := 13, stop := 18, field := "source" }]

def handingOnText (file : String) : String :=
  "export{default}from'./" ++ file ++ "'"

def handingOnRows : List Node.Row :=
  [{ depth := 0, kind := "program", start := 0, stop := 24 },
   { depth := 1, kind := "export_statement", start := 0, stop := 24 },
   { depth := 2, kind := "export_clause", start := 6, stop := 15 },
   { depth := 3, kind := "export_specifier", start := 7, stop := 14 },
   { depth := 4, kind := "identifier", start := 7, stop := 14, field := "name" },
   { depth := 2, kind := "string", start := 19, stop := 24, field := "source" }]

def declaringText : String :=
  "export default function f()\x7b\x7d"

def declaringRows : List Node.Row :=
  [{ depth := 0, kind := "program", start := 0, stop := 29 },
   { depth := 1, kind := "export_statement", start := 0, stop := 29 },
   { depth := 2, kind := "default", start := 7, stop := 14 },
   { depth := 2, kind := "function_declaration", start := 15, stop := 29, field := "declaration" },
   { depth := 3, kind := "identifier", start := 24, stop := 25, field := "name" },
   { depth := 3, kind := "formal_parameters", start := 25, stop := 27, field := "parameters" },
   { depth := 3, kind := "statement_block", start := 27, stop := 29, field := "body" }]

def handedOnWorld : World where
  files := .ofList [("/work/a.ts", .text importingText), ("/work/b.ts", .text (handingOnText "c")),
    ("/work/c.ts", .text (handingOnText "d")), ("/work/d.ts", .text declaringText)]
  trees := fun _ => .ofList <|
    [(importingText, importingRows), (handingOnText "c", handingOnRows), (handingOnText "d", handingOnRows),
      (declaringText, declaringRows)].filterMap fun e => (Node.ofRows? e.2).map (e.1, ·)

/-- The session in which the first file has been analysed. -/
def handedOn : Session :=
  (session.analyze handedOnWorld "a.ts").1

/-- The default of a file. -/
def defaultOf (file : ModuleId) : Alias :=
  ⟨file, "default"⟩

/-- The analysis of the first file returns. -/
theorem handedOn_returns : ∃ snap, session.analyze handedOnWorld "a.ts" = (handedOn, .ok snap) :=
  ⟨{ root := "/work/a.ts"
     blocking := []
     directBlocking := [("/work/a.ts", []), ("/work/b.ts", []), ("/work/c.ts", []), ("/work/d.ts", [])]
     calls := ⟨⟨[("f", [])]⟩⟩
     failed := [] }, Prod.ext rfl (by decide +kernel)⟩

/-- The name `n` has no location; it is imported by one file, and `default` by two. -/
theorem handedOn_imports :
    handedOn.locations.get? "n" = none ∧
    handedOn.program.aliases.forLocal "n" = [("/work/a.ts", defaultOf "/work/b.ts")] ∧
    handedOn.program.aliases.forLocal "default" =
      [("/work/b.ts", defaultOf "/work/c.ts"), ("/work/c.ts", defaultOf "/work/d.ts")] := by
  decide +kernel

/-- What an alias stands for in this session, which alias it leads on to, and where it is declared. -/
def Traced (ref : Alias) (origin : Name) (next : Option Alias) (location : Option Location) : Prop :=
  handedOn.program.originOf ref = origin ∧ handedOn.leadsTo? ref = next ∧ handedOn.declared? ref = location

instance (ref : Alias) (origin : Name) (next : Option Alias) (location : Option Location) :
    Decidable (Traced ref origin next location) :=
  inferInstanceAs (Decidable (_ ∧ _ ∧ _))

/-- The three defaults of the sample: the first two stand for `default`, the last one for the function. -/
theorem handedOn_defaults :
    Traced (defaultOf "/work/b.ts") "default" (some (defaultOf "/work/c.ts")) none ∧
    Traced (defaultOf "/work/c.ts") "default" (some (defaultOf "/work/d.ts")) none ∧
    Traced (defaultOf "/work/d.ts") "f" none (some ⟨"/work/d.ts", 1, 16⟩) := by
  decide +kernel

end Sample

namespace Session

open Sample (handedOn defaultOf)

/-- The law at both names of the sample: the chain of `default` is followed to its end, and that of `n` as far as its trail
goes. -/
theorem locationOf_along_chains_default :
    (∃ snap, Sample.session.analyze Sample.handedOnWorld "a.ts" = (handedOn, .ok snap)) ∧
    handedOn.ToldApart "default" ∧ (handedOn.locationOf "default").isSome ∧
    handedOn.program.aliases.forLocal "n" = [("/work/a.ts", defaultOf "/work/b.ts")] ∧
    ((handedOn.locationOf "n").isSome ↔ (handedOn.locations.get? "n").isSome ∨
      ∃ passed ref, handedOn.Trail "n" passed ref ∧ (handedOn.declared? ref).isSome) := by
  obtain ⟨_, hn, hdefault⟩ := Sample.handedOn_imports
  obtain ⟨_, ⟨horiginC, hleadsC, _⟩, ⟨_, hleadsD, hdeclaredD⟩⟩ := Sample.handedOn_defaults
  -- the chains of `default` hold two aliases; the first one stands for `default` itself, the second one is declared
  have hchains : ∀ ref, handedOn.OnChain "default" ref → ref = defaultOf "/work/c.ts" ∨ ref = defaultOf "/work/d.ts" := by
    intro ref hchain
    induction hchain with
    | first mem =>
      rw [hdefault] at mem
      simp only [List.mem_cons, Prod.mk.injEq, List.not_mem_nil, or_false] at mem
      exact mem.imp And.right And.right
    | next _ leads ih =>
      rcases ih with rfl | rfl
      · exact .inr (Option.some.inj (leads.symm.trans hleadsC))
      · exact absurd (leads.symm.trans hleadsD) (Option.some_ne_none _)
  have hapart : handedOn.ToldApart "default" := by
    intro ref ref' hchain _ _ hother hnone
    rcases hchains ref hchain with rfl | rfl
    · exact absurd horiginC hother
    · rw [hdeclaredD] at hnone
      cases hnone
  have hlast : handedOn.OnChain "default" (defaultOf "/work/d.ts") := by
    refine @OnChain.first _ _ "/work/c.ts" _ ?_
    rw [hdefault]
    exact List.mem_cons_of_mem _ List.mem_cons_self
  have hlocatable : handedOn.Locatable "default" := .inr ⟨_, hlast, by rw [hdeclaredD]; rfl⟩
  exact ⟨Sample.handedOn_returns, hapart, ((locationOf_along_chains handedOn "default").2.2.1 hapart).mpr hlocatable, hn,
    (locationOf_along_chains handedOn "n").2.2.2 _ _ hn⟩

/-- A default that is handed on twice is not found: a chain leads from `n` to the function `f`, which has a location, but
it reaches the name `default` in two files. -/
theorem locationOf_misses_default_handed_on :
    (∃ snap, Sample.session.analyze Sample.handedOnWorld "a.ts" = (handedOn, .ok snap)) ∧
    handedOn.Locatable "n" ∧ handedOn.locationOf "n" = none := by
  obtain ⟨hname, hn, _⟩ := Sample.handedOn_imports
  obtain ⟨⟨horiginB, hleadsB, hnoneB⟩, ⟨horiginC, hleadsC, hnoneC⟩, ⟨_, _, hdeclaredD⟩⟩ := Sample.handedOn_defaults
  have hfirst : handedOn.OnChain "n" (defaultOf "/work/b.ts") := by
    refine @OnChain.first _ _ "/work/a.ts" _ ?_
    rw [hn]
    exact List.mem_cons_self
  refine ⟨Sample.handedOn_returns, .inr ⟨_, (hfirst.next hleadsB).next hleadsC, by rw [hdeclaredD]; rfl⟩, ?_⟩
  have hunused : "default" ∈ handedOn.origins.erase "n" := by
    rw [List.mem_erase_of_ne (by decide), ← horiginB]
    exact hfirst.mem_origins
  have hnodup : (handedOn.origins.erase "n").Nodup := (nodup_eraseDups _).erase _
  rw [locationOf_of_not_located hname, hn]
  calc handedOn.searchLocations (handedOn.origins.erase "n") [defaultOf "/work/b.ts"]
      = handedOn.searchLocations ((handedOn.origins.erase "n").erase "default") [defaultOf "/work/c.ts"] := by
        rw [searchLocations_of_unused hnoneB (horiginB ▸ hunused), horiginB, hleadsB]
        rfl
    _ = handedOn.searchLocations ((handedOn.origins.erase "n").erase "default") [] :=
        -- the second file stands for the same name, which is used up
        searchLocations_of_used hnoneC (horiginC ▸ hnodup.not_mem_erase)
    _ = none := by rw [searchLocations]

end Session

end BlockingCalls
