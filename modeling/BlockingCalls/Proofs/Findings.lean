import BlockingCalls.Finding
import BlockingCalls.Proofs.Session.Complete
import Mathlib.Data.List.Forall2

/-!
# Findings are exact

A call is worth a finding if it occurs in a named async function and calls a blocking operation, or a function that blocks.
Before a check examines a call, it tests whether the enclosing function blocks, and skips the call if it does not. The test
is redundant. If a call is worth a finding, the enclosing function blocks: directly, because of the blocking operation, or
because of the call, since the blocking names are closed under calls. For this, the record of a module must agree with its
tree, and all its calls must be merged. `Surveyed` states this for all modules that have a tree; it is an invariant of
analyses that return, because a module is settled when it is read, and is not read again.

A check treats the empty id as no module. But a module can have the empty id, if a remote scheme is the empty text; it is
analysed like any other, and a check then skips it and logs that it was not analysed.

## Results

* `Surveyed.of_entered`, `surveyed_of_analysed`  — the records of modules with a tree, after any history.
* `isBlocking_of_flags`                          — the function around a call worth a finding blocks.
* `Finding.forall₂_filterMap_ofVisit`            — findings correspond in order to the calls worth one.
* `check_of_parsed`, `check_of_empty_id`         — what a check returns, and what it returns for the empty id.
* `check_reports_exactly`                        — all of it, for a check after any history of analyses that returned.
* `check_passes_over_empty_id`                   — a module under the empty id with a call worth a finding.
-/

namespace BlockingCalls

open BlockingCalls.Tree (Node Visit Callee visits)

-- ---------------------------------------------------------------------------
-- Calls that are worth a finding
-- ---------------------------------------------------------------------------

/-- The visit is that of a call in a named async function, of a blocking operation or by a name that blocks. -/
def Session.flags (s : Session) (v : Visit) : Bool :=
  match v.item, v.context.enclosing with
  | .call (some callee), some enclosing =>
    enclosing.isAsync && (s.config.isSyncOperation callee || (s.config.edgeName callee).any s.isBlocking)
  | _, _ => false

/-- The conditions for a call to be worth a finding, one by one. -/
theorem Session.flags_iff {s : Session} {v : Visit} :
    s.flags v = true ↔ ∃ callee enclosing, v.item = .call (some callee) ∧ v.context.enclosing = some enclosing ∧
      enclosing.isAsync = true ∧ (s.config.isSyncOperation callee = true ∨
        ∃ name, s.config.edgeName callee = some name ∧ s.isBlocking name = true) := by
  unfold flags
  constructor
  · intro h
    split at h
    · rename_i callee enclosing hitem henclosing
      rw [Bool.and_eq_true, Bool.or_eq_true, Option.any_eq_true] at h
      exact ⟨callee, enclosing, hitem, henclosing, h.1, h.2⟩
    · cases h
  · rintro ⟨callee, enclosing, hitem, henclosing, hasync, hblocks⟩
    rw [hitem, henclosing]
    simp only
    rw [Bool.and_eq_true, Bool.or_eq_true, Option.any_eq_true]
    exact ⟨hasync, hblocks⟩

/-- The finding describes the call of the visit: its location, the enclosing function, the callee and how it blocks. -/
def Finding.Reports (s : Session) (p : Parsed) (v : Visit) (f : Finding) : Prop :=
  ∃ callee enclosing, v.item = .call (some callee) ∧ v.context.enclosing = some enclosing ∧
    f.enclosing = enclosing.name ∧ f.site = Location.ofOffset p.moduleId p.text v.node.start ∧
    if s.config.isSyncOperation callee then f.callee = callee.name ∧ ∃ fix, f.kind = .direct fix
    else s.config.edgeName callee = some f.callee ∧ f.kind = .transitive (s.locationOf f.callee)

namespace Finding

variable {s : Session} {p : Parsed}

/-- A call that is not worth a finding has none. -/
theorem ofVisit_eq_none {v : Visit} (h : s.flags v = false) : ofVisit s p v = none := by
  unfold ofVisit
  split
  · rename_i callee enclosing hitem henclosing
    unfold Session.flags at h
    rw [hitem, henclosing] at h
    simp only at h
    split
    · rename_i hgate
      rw [Bool.and_eq_true] at hgate
      rw [hgate.1, Bool.true_and, Bool.or_eq_false_iff] at h
      -- the call neither is of a blocking operation nor by a blocking name
      have hkind : kindOf s p.text v.node v.context.awaitable callee = none := by
        unfold kindOf
        rw [h.1]
        cases hname : s.config.edgeName callee with
        | none => rfl
        | some name =>
          rw [hname] at h
          have hnot : s.isBlocking name = false := h.2
          simp [hnot]
      rw [hkind]
      rfl
    · rfl
  · rfl

/-- A call that is worth a finding, in a function that blocks, has one that describes it. -/
theorem exists_ofVisit {v : Visit} (h : s.flags v = true)
    (hgate : ∃ enclosing, v.context.enclosing = some enclosing ∧ s.isBlocking enclosing.name = true) :
    ∃ f, ofVisit s p v = some f ∧ Reports s p v f := by
  obtain ⟨callee, enclosing, hitem, henclosing, hasync, hblocks⟩ := Session.flags_iff.mp h
  obtain ⟨around, haround, hblocking⟩ := hgate
  rw [henclosing] at haround
  cases haround
  unfold ofVisit
  rw [hitem, henclosing]
  simp only
  rw [hasync, hblocking, Bool.and_true, if_pos rfl]
  by_cases hsync : s.config.isSyncOperation callee = true
  · -- a blocking operation
    let f : Finding :=
      { callee := callee.name, enclosing := enclosing.name, site := Location.ofOffset p.moduleId p.text v.node.start
        kind := .direct (if v.context.awaitable then fixOf s.config p.text v.node callee.name else none) }
    refine ⟨f, ?_, callee, enclosing, hitem, henclosing, rfl, rfl, ?_⟩
    · simp [f, kindOf, hsync]
    · rw [if_pos hsync]
      exact ⟨rfl, _, rfl⟩
  · -- a call by a blocking name
    obtain ⟨name, hname, hcallee⟩ := hblocks.resolve_left hsync
    let f : Finding :=
      { callee := name, enclosing := enclosing.name, site := Location.ofOffset p.moduleId p.text v.node.start
        kind := .transitive (s.locationOf name) }
    refine ⟨f, ?_, callee, enclosing, hitem, henclosing, rfl, rfl, ?_⟩
    · simp [f, kindOf, hsync, hname, hcallee]
    · rw [if_neg hsync]
      exact ⟨hname, rfl⟩

/-- **Findings correspond in order to the calls worth one**, if the functions around these calls block. -/
theorem forall₂_filterMap_ofVisit (vs : List Visit) (hgate : ∀ v ∈ vs, s.flags v = true →
      ∃ enclosing, v.context.enclosing = some enclosing ∧ s.isBlocking enclosing.name = true) :
    List.Forall₂ (Reports s p) (vs.filter s.flags) (vs.filterMap (ofVisit s p)) := by
  induction vs with
  | nil => exact .nil
  | cons v rest ih =>
    rw [List.forall_mem_cons] at hgate
    have hrest := ih hgate.2
    cases hflags : s.flags v with
    | false =>
      rw [List.filter_cons_of_neg (by simp [hflags]), List.filterMap_cons_none (ofVisit_eq_none hflags)]
      exact hrest
    | true =>
      obtain ⟨f, hf, hreports⟩ := exists_ofVisit hflags (hgate.1 hflags)
      rw [List.filter_cons_of_pos hflags, List.filterMap_cons_some hf]
      exact .cons hreports hrest

end Finding

-- ---------------------------------------------------------------------------
-- What is recorded of modules that have a tree
-- ---------------------------------------------------------------------------

namespace Session

/-- The record is not open, and if there is a tree, the record holds the direct blocking names of the tree. -/
structure View.Surveyed (config : Config) (v : View) : Prop where
  finished : ∀ record, v.record = some record → record.progress ≠ .visiting
  direct : ∀ p, v.parsed = some p →
    v.record.map (·.directBlocking) = some (Summary.ofTree config p.moduleId p.text p.root).directBlocking

/-- All views are surveyed, and the calls of all modules that have a tree are merged. -/
structure Surveyed (s : Session) : Prop where
  views : ∀ x, (s.view x).Surveyed s.config
  edges : ∀ x p, (s.view x).parsed = some p →
    ∀ e ∈ (CallGraph.mk (Summary.ofTree s.config p.moduleId p.text p.root).calls).edges, e ∈ s.program.calls.edges

namespace View.Surveyed

variable {config : Config} {v : View}

/-- Where a module is not finished, there is neither a record nor a tree. -/
theorem eq_none_of_not_isFinished (h : v.Surveyed config) (hnot : v.isFinished ≠ true) :
    v.record = none ∧ v.parsed = none := by
  have hrecord : v.record = none := by
    cases hrecord : v.record with
    | none => rfl
    | some record =>
      have hprogress := h.finished record hrecord
      refine absurd ?_ hnot
      rw [View.isFinished, hrecord, Option.any_some]
      cases hvisiting : record.progress with
      | visiting => exact absurd hvisiting hprogress
      | done => decide
      | failed => decide
  refine ⟨hrecord, ?_⟩
  cases hparsed : v.parsed with
  | none => rfl
  | some p =>
    have hdirect := h.direct p hparsed
    rw [hrecord] at hdirect
    cases hdirect

/-- A module without a tree is settled with the tree of the codebase, or fails without one. -/
theorem settled {c : Codebase} {x : ModuleId} (hparsed : v.parsed = none)
    (hresolved : ∀ p, c.find? x = some p → ∃ ts, c.targetsOf p = .ok ts) :
    (c.settled .waiting x v).Surveyed c.resolver.config ∧
      ∀ p, (c.settled .waiting x v).parsed = some p → c.find? x = some p := by
  cases hp : c.parse .waiting x with
  | error fault =>
    -- the module fails, and there is no tree
    rw [Codebase.settled_of_parse_error hp]
    refine ⟨⟨?_, fun p htree => ?_⟩, fun p htree => ?_⟩
    · rintro _ ⟨⟩ hprogress
      cases hprogress
    · rw [show _ = none from hparsed] at htree
      cases htree
    · rw [show _ = none from hparsed] at htree
      cases htree
  | ok p =>
    -- the module is done, with the tree and the names of the codebase
    have hfind := Codebase.find?_eq_some_of_parse hp
    obtain ⟨ts, hts⟩ := hresolved p hfind
    rw [Codebase.settled_of_targets_ok hp hts]
    refine ⟨⟨?_, ?_⟩, ?_⟩
    · rintro _ ⟨⟩ hprogress
      cases hprogress
    · rintro _ ⟨⟩
      rfl
    · rintro _ ⟨⟩
      exact hfind

end View.Surveyed

namespace Surveyed

variable {s : Session}

/-- In a fresh session no module has a tree. -/
theorem of_fresh (h : s.Fresh) : s.Surveyed := by
  have hparsed : ∀ x, (s.view x).parsed = none := fun x => congrArg View.parsed (h.views x)
  refine ⟨fun x => ⟨fun record hrecord => ?_, fun p hp => ?_⟩, fun x p hp => ?_⟩
  · rw [h.views] at hrecord
    cases hrecord
  · rw [hparsed] at hp
    cases hp
  · rw [hparsed] at hp
    cases hp

theorem noteRoot (h : s.Surveyed) (root : ModuleId) (entry : LogEntry) :
    ({ s with root := some root }.note entry).Surveyed :=
  ⟨h.views, h.edges⟩

theorem finish (h : s.Surveyed) : s.finish.Surveyed :=
  ⟨h.views, h.edges⟩

/-- **An analysis that returns keeps the session surveyed**: what is entered had no tree, and is settled. -/
theorem of_entered (h : s.Surveyed) {w : World} {t : Traversal} {ids : List ModuleId}
    (hentered : ∀ owner, Traversal.Entered (s.codebase w) owner [] { session := s, visiting := [] } t ids) :
    t.session.Surveyed := by
  have hent := hentered ""
  have hconfig : t.session.config = s.config := by
    unfold Session.config
    rw [hent.merged.resolver]
  -- what is entered had no tree, since nothing that is finished is entered
  have hinside : ∀ x ∈ ids, (t.session.view x).Surveyed s.config ∧
      ∀ p, (t.session.view x).parsed = some p → (s.codebase w).find? x = some p := by
    intro x hx
    have hview : t.session.view x = (s.codebase w).settled .waiting x (s.view x) := hent.inside x hx
    have hnot : (s.view x).isFinished ≠ true := fun hfinished =>
      hent.fresh x hx (.inr ((isFinished_eq ..).trans hfinished))
    rw [hview]
    exact View.Surveyed.settled ((h.views x).eq_none_of_not_isFinished hnot).2 (hent.resolved x hx)
  refine ⟨fun x => ?_, fun x p hp e he => ?_⟩
  · -- a module of the codebase is as before, or is settled now
    rw [hconfig]
    by_cases hx : x ∈ ids
    · exact (hinside x hx).1
    · rw [hent.view_of_not_mem hx]
      exact h.views x
  · -- recorded calls are kept, and those of settled modules are merged
    rw [hconfig] at he
    by_cases hx : x ∈ ids
    · exact (hent.merged.edges e).mpr (.inr ⟨x, hx, p, (hinside x hx).2 p hp, he⟩)
    · rw [hent.view_of_not_mem hx] at hp
      exact (hent.merged.edges e).mpr (.inl (h.edges x p hp e he))

/-- A direct blocking name of a module with a tree is blocking after propagation. -/
theorem isBlocking_of_direct (h : s.Surveyed) {x : ModuleId} {p : Parsed} (hp : (s.view x).parsed = some p) {f : Name}
    (hf : f ∈ (Summary.ofTree s.config p.moduleId p.text p.root).directBlocking) : s.finish.isBlocking f = true := by
  obtain ⟨record, hrecord, hdirect⟩ := Option.map_eq_some_iff.mp ((h.views x).direct p hp)
  have hseed : f ∈ s.seed := mem_seed_iff.mpr ⟨record, mem_values_of_view hrecord, by rw [hdirect]; exact hf⟩
  exact (isBlocking_finish s f).mpr (Program.mem_propagate_of_mem_seed _ hseed)

/-- A function with a call of a blocking name, in a module with a tree, is blocking after propagation. -/
theorem isBlocking_of_call (h : s.Surveyed) {x : ModuleId} {p : Parsed} (hp : (s.view x).parsed = some p) {f g : Name}
    (hcall : (f, g) ∈ (CallGraph.mk (Summary.ofTree s.config p.moduleId p.text p.root).calls).edges)
    (hg : s.finish.isBlocking g = true) : s.finish.isBlocking f = true := by
  have hclosed := Program.propagate_closed s.program s.seed
  have hblocking := (isBlocking_finish s g).mp hg
  exact (isBlocking_finish s f).mpr (hclosed.call f g (h.edges x p hp _ hcall) hblocking)

/-- **The function around a call worth a finding blocks.** -/
theorem isBlocking_of_flags (h : s.Surveyed) {x : ModuleId} {p : Parsed} (hp : (s.view x).parsed = some p) {v : Visit}
    (hv : v ∈ visits p.text p.root) (hflags : s.finish.flags v = true) :
    ∃ enclosing, v.context.enclosing = some enclosing ∧ s.finish.isBlocking enclosing.name = true := by
  obtain ⟨callee, enclosing, hitem, henclosing, _, hblocks⟩ := flags_iff.mp hflags
  have hname : v.context.enclosing.map (·.name) = some enclosing.name := by
    rw [henclosing]
    rfl
  refine ⟨enclosing, henclosing, ?_⟩
  rcases hblocks with hsync | ⟨name, hedge, hblocking⟩
  · -- because of the blocking operation
    refine h.isBlocking_of_direct hp (Summary.mem_directBlocking_ofTree.mpr ?_)
    exact Tree.exists_visit_blocks_iff.mp ⟨v, hv, callee, hitem, hname, hsync⟩
  · -- because of the call
    refine h.isBlocking_of_call hp (Summary.mem_edges_ofTree.mpr ?_) hblocking
    exact Tree.exists_visit_calls_iff.mp ⟨v, hv, callee, hitem, hname, hedge⟩

end Surveyed

-- ---------------------------------------------------------------------------
-- Histories
-- ---------------------------------------------------------------------------

/-- The session results from a new one by a sequence of depth-first analyses that have returned, each in a world of its
own. -/
inductive Analysed (config : Config) (deno : String) : Session → Prop
  | start {s : Session} (new : start config deno = .ok s) : Analysed config deno s
  | analyze {s s' : Session} {w : World} {path : String} {snap : Snapshot} (analysed : Analysed config deno s)
      (returns : s.analyze w path = (s', .ok snap)) : Analysed config deno s'

/-- After such a sequence the session is surveyed, and its blocking names are those of the propagation that the last
analysis has made. By induction on the analyses. -/
theorem surveyed_of_analysed {config : Config} {deno : String} {s : Session} (h : Analysed config deno s) :
    s.Surveyed ∧ ((∀ x, s.parsed.get? x = none) ∨ ∃ t : Session, t.Surveyed ∧ s = t.finish) := by
  induction h with
  | start new =>
    have hfresh := fresh_start new
    exact ⟨.of_fresh hfresh, .inl fun x => congrArg View.parsed (hfresh.views x)⟩
  | @analyze s s' w path snap _ returns ih =>
    obtain ⟨entry, t, names, hmodule, rfl, _⟩ := analyze_ok returns
    obtain ⟨ids, hentered, _⟩ := analyzeModule_entered hmodule
    have hsurveyed := (ih.1.noteRoot (s.resolver.rootModule w.current path) entry).of_entered hentered
    exact ⟨hsurveyed.finish, .inr ⟨t.session, hsurveyed, rfl⟩⟩

/-- A check of a module whose id is not empty returns the findings of its tree and leaves the session unchanged. -/
theorem check_of_parsed {s : Session} {given : Option ModuleId} {moduleId : ModuleId} {p : Parsed}
    (hgiven : (given <|> s.root) = some moduleId) (hp : s.parsed.get? moduleId = some p) (hid : moduleId ≠ "") :
    s.check given = (s, Finding.ofParsed s p) := by
  have hchecked : s.checked? given = some p := by
    have hkept : Option.filter (· != "") (given <|> s.root) = some moduleId :=
      Option.filter_eq_some_iff.mpr ⟨hgiven, bne_iff_ne.mpr hid⟩
    rw [checked?, hkept, Option.bind_some, hp]
  rw [check, hchecked]

/-- A check of the empty id returns no finding, and logs that the module was not analysed, whether or not it was. -/
theorem check_of_empty_id {s : Session} {given : Option ModuleId} (hgiven : (given <|> s.root) = some "") :
    s.check given = (s.note (.debug "[Lint] Module  was not analyzed"), []) := by
  have hchecked : s.checked? given = none := by
    have hdropped : Option.filter (· != "") (given <|> s.root) = none := by
      rw [hgiven]
      rfl
    rw [checked?, hdropped, Option.bind_none]
  rw [check, hchecked, hgiven]
  rfl

-- ---------------------------------------------------------------------------
-- Two pages
-- ---------------------------------------------------------------------------

end Session

namespace Sample

/-- A configuration in which every id is remote, also the empty one. -/
def pagesConfig : Config :=
  { ignorePatterns := [], remoteSchemes := [""] }

def pagesSession : Session where
  resolver := { config := pagesConfig, ignore := [] }
  reader := { remoteSchemes := pagesConfig.remoteSchemes, denoExecutable := "deno" }

theorem pagesStart_eq : Session.start pagesConfig "deno" = .ok pagesSession := rfl

def operationText : String :=
  "async function f(){Deno.xSync()}"

def operationRows : List Node.Row :=
  [{ depth := 0, kind := "program", start := 0, stop := 32 },
   { depth := 1, kind := "function_declaration", start := 0, stop := 32 },
   { depth := 2, kind := "async", start := 0, stop := 5 },
   { depth := 2, kind := "identifier", start := 15, stop := 16, field := "name" },
   { depth := 2, kind := "statement_block", start := 18, stop := 32, field := "body" },
   { depth := 3, kind := "call_expression", start := 19, stop := 31 },
   { depth := 4, kind := "member_expression", start := 19, stop := 29, field := "function" },
   { depth := 5, kind := "identifier", start := 19, stop := 23, field := "object" },
   { depth := 5, kind := "property_identifier", start := 24, stop := 29, field := "property" },
   { depth := 4, kind := "arguments", start := 29, stop := 31, field := "arguments" }]

def callText : String :=
  "async function g(){f()}"

def callRows : List Node.Row :=
  [{ depth := 0, kind := "program", start := 0, stop := 23 },
   { depth := 1, kind := "function_declaration", start := 0, stop := 23 },
   { depth := 2, kind := "async", start := 0, stop := 5 },
   { depth := 2, kind := "identifier", start := 15, stop := 16, field := "name" },
   { depth := 2, kind := "statement_block", start := 18, stop := 23, field := "body" },
   { depth := 3, kind := "call_expression", start := 19, stop := 22 },
   { depth := 4, kind := "identifier", start := 19, stop := 20, field := "function" },
   { depth := 4, kind := "arguments", start := 20, stop := 22, field := "arguments" }]

/-- The page of the empty id has a function that blocks by itself; that of the other calls it. -/
def pagesWorld : World where
  web := .ofList [("", .page operationText none), ("g", .page callText none)]
  trees := fun _ => .ofList <| [(operationText, operationRows), (callText, callRows)].filterMap fun e =>
    (Node.ofRows? e.2).map (e.1, ·)

def operationSession : Session :=
  (pagesSession.analyze pagesWorld "").1

def callSession : Session :=
  (operationSession.analyze pagesWorld "g").1

theorem operation_returns : pagesSession.analyze pagesWorld "" = (operationSession, .ok
    { root := "", blocking := ["f"], directBlocking := [("", ["f"])], calls := ⟨⟨[("f", [])]⟩⟩, failed := [] }) :=
  Prod.ext rfl (by decide +kernel)

theorem call_returns : operationSession.analyze pagesWorld "g" = (callSession, .ok
    { root := "g", blocking := ["g", "f"], directBlocking := [("", ["f"]), ("g", [])]
      calls := ⟨⟨[("f", []), ("g", ["f"])]⟩⟩, failed := [] }) :=
  Prod.ext rfl (by decide +kernel)

end Sample

namespace Session

/-- **Findings are exact**: after any sequence of analyses that returned, the function around a call worth a finding is
blocking, whatever module it is in. Let a check be made of a module that has a tree, by its id or as the root. If the id
is not empty, the check returns one finding for each such call, in order, and no other, and logs nothing. If the id is
empty, the check returns no finding and logs that the module was not analysed. -/
theorem check_reports_exactly (config : Config) (deno : String) (s : Session) (h : Analysed config deno s)
    (given : Option ModuleId) (moduleId : ModuleId) (hgiven : (given <|> s.root) = some moduleId)
    (p : Parsed) (hp : s.parsed.get? moduleId = some p) :
    (∀ v ∈ visits p.text p.root, s.flags v = true →
      ∃ enclosing, v.context.enclosing = some enclosing ∧ s.isBlocking enclosing.name = true) ∧
    (moduleId ≠ "" → List.Forall₂ (Finding.Reports s p) ((visits p.text p.root).filter s.flags) (s.check given).2 ∧
      (s.check given).1 = s) ∧
    (moduleId = "" → s.check given = (s.note (.debug "[Lint] Module  was not analyzed"), [])) := by
  have hgate : ∀ v ∈ visits p.text p.root, s.flags v = true →
      ∃ enclosing, v.context.enclosing = some enclosing ∧ s.isBlocking enclosing.name = true := by
    obtain ⟨_, hnone | ⟨t, hsurveyed, rfl⟩⟩ := surveyed_of_analysed h
    · -- before the first analysis no module has a tree
      rw [hnone] at hp
      cases hp
    · exact fun v hv hflags => hsurveyed.isBlocking_of_flags hp hv hflags
  refine ⟨hgate, fun hid => ?_, fun hid => check_of_empty_id (hgiven.trans (congrArg some hid))⟩
  rw [check_of_parsed hgiven hp hid]
  exact ⟨Finding.forall₂_filterMap_ofVisit _ hgate, rfl⟩

/-- After both pages were analysed, the second has a finding for its call of what the first declares. -/
theorem check_reports_exactly_second_page :
    ∃ p, Analysed Sample.pagesConfig "deno" Sample.callSession ∧ Sample.callSession.parsed.get? "g" = some p ∧ "g" ≠ "" ∧
      (Sample.callSession.check (some "g")).2 = [⟨"f", "g", ⟨"g", 1, 20⟩, .transitive (some ⟨"", 1, 1⟩)⟩] ∧
      List.Forall₂ (Finding.Reports Sample.callSession p) ((visits p.text p.root).filter Sample.callSession.flags)
        (Sample.callSession.check (some "g")).2 ∧ (Sample.callSession.check (some "g")).1 = Sample.callSession := by
  have hanalysed : Analysed Sample.pagesConfig "deno" Sample.callSession :=
    .analyze (.analyze (.start Sample.pagesStart_eq) Sample.operation_returns) Sample.call_returns
  have hsome : (Sample.callSession.parsed.get? "g").isSome = true := by decide +kernel
  obtain ⟨p, hp⟩ := Option.isSome_iff_exists.mp hsome
  obtain ⟨_, hreports, _⟩ := check_reports_exactly _ _ _ hanalysed (some "g") "g" rfl p hp
  exact ⟨p, hanalysed, hp, by decide, by decide +kernel, hreports (by decide)⟩

/-- A module whose id is empty can be analysed, and have a call worth a finding, but a check skips it, whether it is
given by its id or is the root. -/
theorem check_passes_over_empty_id :
    ∃ p v, Analysed Sample.pagesConfig "deno" Sample.operationSession ∧
      Sample.operationSession.parsed.get? "" = some p ∧ v ∈ visits p.text p.root ∧
      Sample.operationSession.flags v = true ∧ (Sample.operationSession.check (some "")).2 = [] ∧
      (Sample.operationSession.check none).2 = [] := by
  have hflags : (Sample.operationSession.parsed.get? "").any
      (fun p => (visits p.text p.root).any Sample.operationSession.flags) = true := by decide +kernel
  obtain ⟨p, hp, hany⟩ := (Option.any_eq_true _ _).mp hflags
  obtain ⟨v, hv, hworth⟩ := List.any_eq_true.mp hany
  exact ⟨p, v, .analyze (.start Sample.pagesStart_eq) Sample.operation_returns, hp, hv, hworth, by decide +kernel,
    by decide +kernel⟩

end Session

end BlockingCalls
