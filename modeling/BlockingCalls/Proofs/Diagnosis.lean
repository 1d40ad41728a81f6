import BlockingCalls.Finding
import BlockingCalls.Proofs.Descent

/-!
# Findings by recursion

A check examines calls in the order of a walk, and depends on two facts about the context of a call: the nearest named
function, which must be async and block, and whether the innermost function of any sort is async, which decides if an
`await` is possible there. The two change at different nodes: an anonymous function changes the second and not the first.

Without the walk, a check is a recursion on the tree that hands down these two facts. Its result at a node is specified by
`Diagnosed`, for an arbitrary predicate of blocking names; a check evaluates the predicate at finitely many names, so that
every predicate is realised by some session. A finding of a blocking operation has a repair if and only if an `await` is
possible there and the name is that of an operation followed by the blocking suffix.

## Results

* `awaitedOperation_eq_some_iff` — the operation is the name without the suffix.
* `fixOf_eq_some_iff`            — the repair of a call, and when there is one.
* `ofVisit_eq_some_iff`          — the finding of a node is specified by `Diagnosed`.
* `ofParsed_diagnoses_descent`   — all findings of a module, in order, and their repairs.
-/

namespace BlockingCalls

open BlockingCalls.Tree (Node Callee Visit Context Enclosing classify withContexts withAround)

namespace Finding

-- ---------------------------------------------------------------------------
-- Repairs
-- ---------------------------------------------------------------------------

/-- The name is that of an operation, with the blocking suffix at its end. -/
def Suffixed (config : Config) (operation name : Name) : Prop :=
  operation ≠ "" ∧ config.blockingSuffix ≠ "" ∧ operation ++ config.blockingSuffix = name

/-- The fix replaces the call by one of the operation without the suffix, with the same arguments, and awaits it. -/
def Repairs (config : Config) (text : String) (call : Node) (name : Name) (fix : Fix) : Prop :=
  ∃ arguments operation, call.child? "arguments" = some arguments ∧ Suffixed config operation name ∧
    fix = { start := call.start, stop := call.stop
            text := "await " ++ config.syncNamespace ++ "." ++ operation ++ arguments.text text }

/-- **The operation is the name without the suffix**, if both are not empty. -/
theorem awaitedOperation_eq_some_iff {config : Config} {name operation : Name}
    (h : config.blockingSuffix.toList <:+ name.toList) :
    awaitedOperation config name = some operation ↔ Suffixed config operation name := by
  obtain ⟨letters, hletters⟩ := h
  have hname : String.ofList letters ++ config.blockingSuffix = name := by
    rw [← String.toList_inj, String.toList_append, String.toList_ofList, hletters]
  generalize String.ofList letters = front at hname
  subst hname
  have hcut : String.ofList ((front ++ config.blockingSuffix).toList.take
      ((front ++ config.blockingSuffix).length - config.blockingSuffix.length)) = front := by
    rw [String.length_append, Nat.add_sub_cancel, String.toList_append, ← String.length_toList, List.take_left,
      String.ofList_toList]
  have hsame : operation ++ config.blockingSuffix = front ++ config.blockingSuffix ↔ operation = front := by
    rw [← String.toList_inj, String.toList_append, String.toList_append, List.append_left_inj, String.toList_inj]
  have hempty : config.blockingSuffix.length = 0 ∨ (front ++ config.blockingSuffix).length ≤ config.blockingSuffix.length ↔
      config.blockingSuffix = "" ∨ front = "" := by
    rw [String.length_append, ← String.length_eq_zero_iff, ← @String.length_eq_zero_iff front]
    omega
  unfold awaitedOperation Suffixed
  simp only [hcut, hsame, hempty]
  split
  · -- the suffix or the operation is empty
    rename_i hnone
    constructor
    · intro h
      cases h
    · rintro ⟨hoperation, hsuffix, rfl⟩
      exact absurd hnone (not_or.mpr ⟨hsuffix, hoperation⟩)
  · -- both are not empty
    rename_i hsome
    rw [not_or] at hsome
    constructor
    · intro h
      cases h
      exact ⟨hsome.2, hsome.1, rfl⟩
    · rintro ⟨_, _, rfl⟩
      rfl

/-- The repair of a call, and when there is one. -/
theorem fixOf_eq_some_iff {config : Config} {text : String} {call : Node} {name : Name} {fix : Fix}
    (h : config.blockingSuffix.toList <:+ name.toList) :
    fixOf config text call name = some fix ↔ Repairs config text call name fix := by
  unfold fixOf Repairs
  simp only [Option.bind_eq_bind, Option.bind_eq_some_iff, awaitedOperation_eq_some_iff h, Option.pure_def,
    Option.some.injEq]
  constructor
  · rintro ⟨arguments, hchild, operation, hsuffixed, rfl⟩
    exact ⟨arguments, operation, hchild, hsuffixed, rfl⟩
  · rintro ⟨arguments, operation, hchild, hsuffixed, rfl⟩
    exact ⟨arguments, hchild, operation, hsuffixed, rfl⟩

/-- The name of a blocking operation ends with the suffix. -/
theorem suffix_of_isSyncOperation {config : Config} {callee : Callee} (h : config.isSyncOperation callee = true) :
    config.blockingSuffix.toList <:+ callee.name.toList := by
  unfold Config.isSyncOperation at h
  rw [Bool.and_eq_true] at h
  exact List.isSuffixOf_iff_suffix.mp h.2

-- ---------------------------------------------------------------------------
-- What is said of a node
-- ---------------------------------------------------------------------------

/-- The specification of a check at a node with its context, if `blocks` decides which names block and `locate` gives
the location of a name. There is no finding for a call outside of a named async function that blocks. -/
inductive Diagnosed (config : Config) (blocks : Name → Bool) (locate : Name → Option Location) (p : Parsed) (n : Node)
    (context : Context) : Finding → Prop
  | direct {callee : Callee} {around : Enclosing} {fix : Option Fix}
      (call : classify p.text n = .call (some callee)) (inside : context.enclosing = some around)
      (isAsync : around.isAsync = true) (gate : blocks around.name = true)
      (operation : config.isSyncOperation callee = true)
      (repair : ∀ x, fix = some x ↔ context.awaitable = true ∧ Repairs config p.text n callee.name x) :
      Diagnosed config blocks locate p n context
        { callee := callee.name, enclosing := around.name, site := .ofOffset p.moduleId p.text n.start
          kind := .direct fix }
  | transitive {callee : Callee} {around : Enclosing} {name : Name}
      (call : classify p.text n = .call (some callee)) (inside : context.enclosing = some around)
      (isAsync : around.isAsync = true) (gate : blocks around.name = true)
      (noOperation : config.isSyncOperation callee = false) (edge : config.edgeName callee = some name)
      (blocked : blocks name = true) :
      Diagnosed config blocks locate p n context
        { callee := name, enclosing := around.name, site := .ofOffset p.moduleId p.text n.start
          kind := .transitive (locate name) }

variable {s : Session} {p : Parsed}

/-- The repair of a blocking operation is offered where an `await` is possible. -/
theorem offered_eq_iff {config : Config} {text : String} {call : Node} {awaitable : Bool} {callee : Callee}
    {fix : Option Fix} (h : config.isSyncOperation callee = true) :
    (if awaitable then fixOf config text call callee.name else none) = fix ↔
      ∀ x, fix = some x ↔ awaitable = true ∧ Repairs config text call callee.name x := by
  have hoffered : ∀ x, (if awaitable then fixOf config text call callee.name else none) = some x ↔
      awaitable = true ∧ Repairs config text call callee.name x := by
    intro x
    rw [← fixOf_eq_some_iff (suffix_of_isSyncOperation h)]
    cases awaitable <;> simp
  constructor
  · rintro rfl
    exact hoffered
  · intro hfix
    exact Option.ext fun x => (hoffered x).trans (hfix x).symm

/-- How a call blocks, by cases. -/
theorem kindOf_eq_some_iff {text : String} {call : Node} {awaitable : Bool} {callee : Callee} {name : Name}
    {kind : FindingKind} :
    kindOf s text call awaitable callee = some (name, kind) ↔
      (s.config.isSyncOperation callee = true ∧ callee.name = name ∧ ∃ fix, .direct fix = kind ∧
        ∀ x, fix = some x ↔ awaitable = true ∧ Repairs s.config text call callee.name x) ∨
      s.config.isSyncOperation callee = false ∧ s.config.edgeName callee = some name ∧ s.isBlocking name = true ∧
        .transitive (s.locationOf name) = kind := by
  unfold kindOf
  cases hsync : s.config.isSyncOperation callee with
  | true =>
    simp only [← offered_eq_iff hsync]
    simp
  | false =>
    cases hname : s.config.edgeName callee with
    | none => simp
    | some edge =>
      by_cases hblocks : s.isBlocking edge = true
      · simp only [hblocks]
        grind
      · simp only [hblocks]
        grind

/-- **The finding of a visit is specified by `Diagnosed`.** -/
theorem ofVisit_eq_some_iff {v : Node × Context} {f : Finding} :
    ofVisit s p (Visit.ofDescent p.text v) = some f ↔
      Diagnosed s.config s.isBlocking s.locationOf p v.1 v.2 f := by
  obtain ⟨n, context⟩ := v
  unfold ofVisit Visit.ofDescent
  simp only
  constructor
  · -- a finding comes from a call that passes the test of the enclosing function
    intro h
    split at h
    · rename_i callee around hcall hinside
      split at h
      · rename_i hgate
        rw [Bool.and_eq_true] at hgate
        obtain ⟨⟨name, kind⟩, hkind, rfl⟩ := Option.map_eq_some_iff.mp h
        rcases kindOf_eq_some_iff.mp hkind with
          ⟨hsync, rfl, fix, rfl, hfix⟩ | ⟨hsync, hname, hblocks, rfl⟩
        · exact .direct hcall hinside hgate.1 hgate.2 hsync hfix
        · exact .transitive hcall hinside hgate.1 hgate.2 hsync hname hblocks
      · cases h
    · cases h
  · -- conversely, by the two cases of the specification
    intro h
    cases h with
    | direct call inside isAsync gate operation repair =>
      rw [call, inside]
      simp only [isAsync, gate, Bool.and_true, if_true]
      exact Option.map_eq_some_iff.mpr
        ⟨_, kindOf_eq_some_iff.mpr (.inl ⟨operation, rfl, _, rfl, repair⟩), rfl⟩
    | transitive call inside isAsync gate noOperation edge blocked =>
      rw [call, inside]
      simp only [isAsync, gate, Bool.and_true, if_true]
      exact Option.map_eq_some_iff.mpr
        ⟨_, kindOf_eq_some_iff.mpr (.inr ⟨noOperation, edge, blocked, rfl⟩), rfl⟩

/-- The names at which a check evaluates the predicate for a node: the function around a call, and the callee. -/
def askedAt (config : Config) (text : String) (v : Node × Context) : List Name :=
  match classify text v.1, v.2.enclosing with
  | .call (some callee), some around => around.name :: (config.edgeName callee).toList
  | _, _ => []

theorem askedAt_call {config : Config} {text : String} {v : Node × Context} {callee : Callee} {around : Enclosing}
    (call : classify text v.1 = .call (some callee)) (inside : v.2.enclosing = some around) :
    askedAt config text v = around.name :: (config.edgeName callee).toList := by
  rw [askedAt, call, inside]

/-- The names at which a check of a module evaluates the predicate. -/
def asked (config : Config) (p : Parsed) : List Name :=
  (withContexts p.text p.root).flatMap (askedAt config p.text)

/-- The findings of a node depend only on these names. -/
theorem Diagnosed.congr {config : Config} {blocks blocks' : Name → Bool} {locate : Name → Option Location}
    {v : Node × Context} {f : Finding} (h : ∀ name ∈ askedAt config p.text v, blocks name = blocks' name)
    (hf : Diagnosed config blocks locate p v.1 v.2 f) : Diagnosed config blocks' locate p v.1 v.2 f := by
  cases hf with
  | direct call inside isAsync gate operation repair =>
    rw [askedAt_call call inside, List.forall_mem_cons] at h
    exact .direct call inside isAsync (h.1 ▸ gate) operation repair
  | transitive call inside isAsync gate noOperation edge blocked =>
    rw [askedAt_call call inside, edge, List.forall_mem_cons] at h
    have hblocked := h.2 _ (Option.mem_toList.mpr rfl)
    exact .transitive call inside isAsync (h.1 ▸ gate) noOperation edge (hblocked ▸ blocked)

/-- Every predicate of blocking names agrees, at the names of a check, with that of some session. -/
theorem exists_outcome (s : Session) (p : Parsed) (blocks : Name → Bool) :
    ∃ outcome, ∀ name ∈ asked s.config p,
      ({ s with propagation := some outcome } : Session).isBlocking name = blocks name := by
  refine ⟨{ blocking := (asked s.config p).filter blocks, addedPerPass := [] }, fun name hname => ?_⟩
  show ((asked s.config p).filter blocks).contains name = blocks name
  rw [Bool.eq_iff_iff, List.contains_iff_mem, List.mem_filter]
  exact and_iff_right hname

-- ---------------------------------------------------------------------------
-- All findings of a module
-- ---------------------------------------------------------------------------

/-- The repair of a finding in terms of its node and the nodes around it, nearest first. -/
structure RepairedWhereAwaited (config : Config) (text : String) (n : Node) (around : List Node) (f : Finding) : Prop where
  /-- A blocking operation has a repair if and only if the innermost function around it, named or not, is async, the call has
  arguments, and what is called is an operation with the suffix. -/
  offered : ∀ fix, f.kind = .direct fix → (fix.isSome = true ↔
    around.findSome? (Tree.asyncFunction? text) = some true ∧ (n.child? "arguments").isSome = true ∧
      ∃ operation, Suffixed config operation f.callee)
  /-- A repair replaces the call, and keeps its arguments as they are. -/
  replaces : ∀ fix, f.fix = some fix → fix.start = n.start ∧ fix.stop = n.stop ∧
    ∃ arguments operation, n.child? "arguments" = some arguments ∧ Suffixed config operation f.callee ∧
      fix.text = "await " ++ config.syncNamespace ++ "." ++ operation ++ arguments.text text
  /-- A call of a function that blocks has none. -/
  transitive : ∀ definition, f.kind = .transitive definition → f.fix = none

theorem awaitable_ofAround {text : String} {around : List Node} :
    (Context.ofAround text around).awaitable = true ↔ around.findSome? (Tree.asyncFunction? text) = some true := by
  show (around.findSome? (Tree.asyncFunction? text)).getD false = true ↔ _
  cases around.findSome? (Tree.asyncFunction? text) <;> simp

/-- The findings that `Diagnosed` specifies have their repairs where they are due. -/
theorem Diagnosed.repaired {config : Config} {blocks : Name → Bool} {locate : Name → Option Location} {n : Node}
    {around : List Node} {f : Finding}
    (h : Diagnosed config blocks locate p n (Context.ofAround p.text around) f) :
    RepairedWhereAwaited config p.text n around f := by
  cases h with
  | @direct callee _ fix call inside isAsync gate operation repair =>
    rw [awaitable_ofAround] at repair
    refine ⟨?_, ?_, ?_⟩
    · -- a repair exists exactly if all its conditions hold
      rintro _ ⟨⟩
      rw [Option.isSome_iff_exists]
      constructor
      · rintro ⟨x, hx⟩
        obtain ⟨hasync, arguments, operation, hchild, hsuffixed, _⟩ := (repair x).mp hx
        exact ⟨hasync, Option.isSome_iff_exists.mpr ⟨arguments, hchild⟩, operation, hsuffixed⟩
      · rintro ⟨hasync, hchild, operation, hsuffixed⟩
        obtain ⟨arguments, hchild⟩ := Option.isSome_iff_exists.mp hchild
        exact ⟨_, (repair _).mpr ⟨hasync, arguments, operation, hchild, hsuffixed, rfl⟩⟩
    · -- it replaces the call, and keeps the arguments
      intro x hx
      obtain ⟨_, arguments, operation, hchild, hsuffixed, rfl⟩ := (repair x).mp hx
      exact ⟨rfl, rfl, arguments, operation, hchild, hsuffixed, rfl⟩
    · rintro _ ⟨⟩
  | transitive =>
    refine ⟨?_, ?_, fun _ _ => rfl⟩
    · rintro _ ⟨⟩
    · rintro _ ⟨⟩

/-- **Findings by recursion.** The findings of a module are given by the recursion on its tree, in document order. The
recursion hands down the nearest named function and whether the innermost function is async, and both are determined by
the nodes around a node. Each finding has a repair if and only if it is due. All this holds for every predicate of
blocking names, since some session realises it. -/
theorem ofParsed_diagnoses_descent (s : Session) (p : Parsed) (blocks : Name → Bool) :
    (∃ outcome, ∀ name ∈ asked s.config p,
      ({ s with propagation := some outcome } : Session).isBlocking name = blocks name) ∧
    ((∀ name ∈ asked s.config p, s.isBlocking name = blocks name) →
      ∃ say : Node × Context → Option Finding,
        ofParsed s p = (withContexts p.text p.root).filterMap say ∧
        (∀ v ∈ withContexts p.text p.root, ∀ f,
          say v = some f ↔ Diagnosed s.config blocks s.locationOf p v.1 v.2 f) ∧
        ∀ v ∈ withAround p.text p.root, ∀ f, say (v.1, Context.ofAround p.text v.2) = some f →
          RepairedWhereAwaited s.config p.text v.1 v.2 f) ∧
    withContexts p.text p.root =
      (withAround p.text p.root).map (fun v => (v.1, Context.ofAround p.text v.2)) ∧
    ∀ context n, Tree.descend p.text (Context.enter p.text) context n = (n, context) ::
      (if Tree.bindsFunction p.text n then ((n.child? "value").map (·.children)).getD [] else n.children).flatMap
        (Tree.descend p.text (Context.enter p.text) (context.enter p.text n)) := by
  refine ⟨exists_outcome s p blocks, fun hagrees => ?_, Tree.withContexts_eq p.text p.root,
    Tree.descend_children p.text (Context.enter p.text)⟩
  refine ⟨fun v => ofVisit s p (Visit.ofDescent p.text v), ?_, fun v hv f => ?_, fun v _ f hf => ?_⟩
  · -- the findings, along the recursion
    rw [ofParsed, Tree.visits_eq_descend, List.filterMap_map]
    rfl
  · -- each of them is specified by `Diagnosed`, for the given predicate
    have hasked : ∀ name ∈ askedAt s.config p.text v, s.isBlocking name = blocks name := fun name hname =>
      hagrees name (List.mem_flatMap.mpr ⟨v, hv, hname⟩)
    rw [ofVisit_eq_some_iff]
    exact ⟨.congr hasked, .congr fun name hname => (hasked name hname).symm⟩
  · -- and its repair is as it should be
    exact (ofVisit_eq_some_iff.mp hf).repaired

end Finding

namespace Sample

def callbackText : String :=
  "async function f(){g(()=>Deno.xSync(a));Deno.ySync(b)}"

def callbackRows : List Node.Row :=
  [{ depth := 0, kind := "program", start := 0, stop := 54 },
   { depth := 1, kind := "function_declaration", start := 0, stop := 54 },
   { depth := 2, kind := "async", start := 0, stop := 5 },
   { depth := 2, kind := "identifier", start := 15, stop := 16, field := "name" },
   { depth := 2, kind := "statement_block", start := 18, stop := 54, field := "body" },
   { depth := 3, kind := "call_expression", start := 19, stop := 39 },
   { depth := 4, kind := "identifier", start := 19, stop := 20, field := "function" },
   { depth := 4, kind := "arguments", start := 20, stop := 39, field := "arguments" },
   { depth := 5, kind := "arrow_function", start := 21, stop := 38 },
   { depth := 6, kind := "call_expression", start := 25, stop := 38, field := "body" },
   { depth := 7, kind := "member_expression", start := 25, stop := 35, field := "function" },
   { depth := 8, kind := "identifier", start := 25, stop := 29, field := "object" },
   { depth := 8, kind := "property_identifier", start := 30, stop := 35, field := "property" },
   { depth := 7, kind := "arguments", start := 35, stop := 38, field := "arguments" },
   { depth := 3, kind := "call_expression", start := 40, stop := 53 },
   { depth := 4, kind := "member_expression", start := 40, stop := 50, field := "function" },
   { depth := 5, kind := "identifier", start := 40, stop := 44, field := "object" },
   { depth := 5, kind := "property_identifier", start := 45, stop := 50, field := "property" },
   { depth := 4, kind := "arguments", start := 50, stop := 53, field := "arguments" }]

/-- An async function that calls a blocking operation, and another one in a callback that is not async. -/
def callback : Parsed where
  moduleId := "/a.ts"
  location := "/a.ts"
  language := .typescript
  text := callbackText
  root := (Node.ofRows? callbackRows).getD default

/-- A session in which the function and what it hands the callback to block. -/
def callbackSession : Session where
  resolver := { config := { ignorePatterns := [] }, ignore := [] }
  reader := { remoteSchemes := [], denoExecutable := "deno" }
  locations := .ofList [("g", ⟨"/b.ts", 1, 1⟩)]
  propagation := some { blocking := ["f", "g"], addedPerPass := [] }

end Sample

namespace Finding

/-- Both operations are found in the same function; only the one outside of the callback has a repair. -/
theorem ofParsed_diagnoses_descent_callback :
    (∀ name ∈ asked Sample.callbackSession.config Sample.callback, Sample.callbackSession.isBlocking name = true) ∧
    ofParsed Sample.callbackSession Sample.callback =
      [⟨"g", "f", ⟨"/a.ts", 1, 20⟩, .transitive (some ⟨"/b.ts", 1, 1⟩)⟩,
       ⟨"xSync", "f", ⟨"/a.ts", 1, 26⟩, .direct none⟩,
       ⟨"ySync", "f", ⟨"/a.ts", 1, 41⟩, .direct (some ⟨40, 53, "await Deno.y(b)"⟩)⟩] ∧
    ∃ say : Node × Context → Option Finding,
      ofParsed Sample.callbackSession Sample.callback =
        (withContexts Sample.callback.text Sample.callback.root).filterMap say ∧
      ∀ v ∈ withContexts Sample.callback.text Sample.callback.root, ∀ f, say v = some f ↔
        Diagnosed Sample.callbackSession.config (fun _ => true) Sample.callbackSession.locationOf Sample.callback
          v.1 v.2 f := by
  have hasked : ∀ name ∈ asked Sample.callbackSession.config Sample.callback,
      Sample.callbackSession.isBlocking name = true := by decide +kernel
  obtain ⟨say, hfindings, hsay, _⟩ :=
    (ofParsed_diagnoses_descent Sample.callbackSession Sample.callback fun _ => true).2.1 hasked
  exact ⟨hasked, by decide +kernel, say, hfindings, hsay⟩

end Finding

end BlockingCalls
