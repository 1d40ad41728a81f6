import BlockingCalls.Finding
import BlockingCalls.Proofs.Descent
import BlockingCalls.Proofs.Positions

/-!
# Findings in the order of the source

A check returns its findings in the order of its walk. That is the order in which the calls occur in the text, if the tree
is like those that a parser produces: the range of each node contains the ranges of its children, and these are disjoint and
ascending (`Nested`). The start offsets of the visits of such a tree are monotone. A binding whose value is a function is no
exception, though the walk descends from it directly to the children of its value, and omits the other children of the
binding: these nodes lie in the range of the binding, disjoint and ascending, as well.

Sites are given by line and column, and positions are monotone in offsets. So the sites are monotone too.

## Results

* `inner_nested`          — the nodes inside a node lie in its range, disjoint and ascending.
* `pairwise_start_descend` — the start offsets of a walk are monotone.
* `check_in_source_order` — the findings of a check are ordered by line and column.
-/

namespace BlockingCalls

namespace Tree

-- ---------------------------------------------------------------------------
-- Nested ranges
-- ---------------------------------------------------------------------------

/-- The range of the node contains the ranges of its children, which are disjoint and ascending. -/
structure Node.Holds (n : Node) : Prop where
  range : n.start ≤ n.stop
  inside : ∀ c ∈ n.children, n.start ≤ c.start ∧ c.stop ≤ n.stop
  apart : n.children.Pairwise fun a b => a.stop ≤ b.start

instance (n : Node) : Decidable n.Holds :=
  decidable_of_iff (n.start ≤ n.stop ∧ (∀ c ∈ n.children, n.start ≤ c.start ∧ c.stop ≤ n.stop) ∧
    n.children.Pairwise fun a b => a.stop ≤ b.start)
    ⟨fun h => ⟨h.1, h.2.1, h.2.2⟩, fun h => ⟨h.range, h.inside, h.apart⟩⟩

/-- All nodes of the tree hold their children. -/
def Node.Nested (root : Node) : Prop :=
  ∀ n ∈ root.preorder, n.Holds

instance (root : Node) : Decidable root.Nested :=
  inferInstanceAs (Decidable (∀ n ∈ root.preorder, n.Holds))

/-- The nodes of a tree, in terms of its children. -/
theorem Node.preorder_eq (n : Node) : n.preorder = n :: n.children.flatMap Node.preorder := by
  have hall : ∀ ns : List Node, Node.preorderAll ns = ns.flatMap Node.preorder := by
    intro ns
    induction ns with
    | nil => rw [Node.preorderAll, List.flatMap_nil]
    | cons n rest ih => rw [Node.preorderAll, List.flatMap_cons, ih]
  obtain ⟨kind, start, stop, field, hasError, isMissing, index, children⟩ := n
  rw [Node.preorder, hall]

namespace Node.Nested

variable {n : Node}

theorem holds (h : n.Nested) : n.Holds :=
  h n (by rw [Node.preorder_eq]; exact List.mem_cons_self)

/-- The children of a nested tree are nested. -/
theorem child (h : n.Nested) {c : Node} (hc : c ∈ n.children) : c.Nested := by
  intro m hm
  apply h m
  rw [Node.preorder_eq]
  exact List.mem_cons_of_mem _ (List.mem_flatMap.mpr ⟨c, hc, hm⟩)

end Node.Nested

/-- The nodes inside a node lie in its range, disjoint and ascending. -/
theorem inner_nested (source : String) {n : Node} (h : n.Nested) :
    ((classify source n).inner n).Pairwise (fun a b => a.stop ≤ b.start) ∧
      ∀ c ∈ (classify source n).inner n, c.Nested ∧ n.start ≤ c.start ∧ c.stop ≤ n.stop := by
  have hchildren : n.children.Pairwise (fun a b => a.stop ≤ b.start) ∧
      ∀ c ∈ n.children, c.Nested ∧ n.start ≤ c.start ∧ c.stop ≤ n.stop :=
    ⟨h.holds.apart, fun c hc => ⟨h.child hc, h.holds.inside c hc⟩⟩
  cases hitem : classify source n with
  | function name isAsync body =>
    show body.children.Pairwise _ ∧ ∀ c ∈ body.children, _
    rcases classify_body hitem with rfl | hbody
    · exact hchildren
    · -- the value of a binding, which lies in the binding itself
      have hnested : body.Nested := h.child hbody
      have hinside := h.holds.inside body hbody
      refine ⟨hnested.holds.apart, fun c hc => ⟨hnested.child hc, ?_⟩⟩
      have := hnested.holds.inside c hc
      omega
  | _ => exact hchildren

-- ---------------------------------------------------------------------------
-- The starts of a walk
-- ---------------------------------------------------------------------------

section Descent

variable {κ : Type} (source : String) (inside : κ → Node → κ)

/-- All nodes that are visited from a node down begin in its range. -/
theorem start_mem_of_mem_descend (context : κ) {n : Node} (h : n.Nested) :
    ∀ v ∈ descend source inside context n, n.start ≤ v.1.start ∧ v.1.start ≤ n.stop := by
  induction n using inner_induction source generalizing context with
  | h n ih =>
    intro v hv
    rw [descend_eq, List.mem_cons] at hv
    rcases hv with rfl | hv
    · -- the node itself
      exact ⟨Nat.le_refl _, h.holds.range⟩
    · -- a node visited from one inside, whose range lies in that of the node
      obtain ⟨c, hc, hv⟩ := List.mem_flatMap.mp hv
      obtain ⟨hnested, hstart, hstop⟩ := (inner_nested source h).2 c hc
      have := ih c hc _ hnested v hv
      omega

/-- **The start offsets of a walk are monotone.** By induction on the nodes inside. -/
theorem pairwise_start_descend (context : κ) {n : Node} (h : n.Nested) :
    (descend source inside context n).Pairwise fun a b => a.1.start ≤ b.1.start := by
  induction n using inner_induction source generalizing context with
  | h n ih =>
    obtain ⟨hapart, hinner⟩ := inner_nested source h
    have hwithin := start_mem_of_mem_descend source inside context h
    rw [descend_eq, List.forall_mem_cons] at hwithin
    rw [descend_eq, List.pairwise_cons]
    refine ⟨fun v hv => (hwithin.2 v hv).1, List.pairwise_flatMap.mpr ⟨fun c hc => ih c hc _ (hinner c hc).1, ?_⟩⟩
    -- of two nodes side by side, all that is visited in the first begins before the second does
    refine hapart.imp_of_mem fun {a b} ha hb hstop v hv w hw => ?_
    have := start_mem_of_mem_descend source inside _ (hinner a ha).1 v hv
    have := start_mem_of_mem_descend source inside _ (hinner b hb).1 w hw
    omega

end Descent

theorem pairwise_start_visits (source : String) {root : Node} (h : root.Nested) :
    (visits source root).Pairwise fun a b => a.node.start ≤ b.node.start := by
  rw [visits_eq_descend, List.pairwise_map]
  exact pairwise_start_descend source (Context.enter source) {} h

end Tree

-- ---------------------------------------------------------------------------
-- Findings
-- ---------------------------------------------------------------------------

namespace Finding

/-- The site of a finding is the position of its call, which is determined by the bytes before it. -/
theorem site_ofVisit {s : Session} {p : Parsed} {v : Tree.Visit} {f : Finding} (h : ofVisit s p v = some f) :
    f.site = { file := p.moduleId
               line := (Text.bytePosition p.text.toUTF8.data.toList v.node.start).row + 1
               column := (Text.bytePosition p.text.toUTF8.data.toList v.node.start).column + 1 } := by
  have hsite : f.site = Location.ofOffset p.moduleId p.text v.node.start := by
    unfold ofVisit at h
    split at h
    · split at h
      · obtain ⟨_, _, rfl⟩ := Option.map_eq_some_iff.mp h
        rfl
      · cases h
    · cases h
  rw [hsite, Location.ofOffset, Text.positionAt_eq_bytePosition]

/-- The findings of a nested tree are ordered by line and column. -/
theorem ofParsed_in_order (s : Session) {p : Parsed} (h : p.root.Nested) :
    (ofParsed s p).Pairwise fun f g =>
      toLex (f.site.line, f.site.column) ≤ toLex (g.site.line, g.site.column) := by
  refine List.pairwise_filterMap.mpr ((Tree.pairwise_start_visits p.text h).imp fun {v w} hstart f hf g hg => ?_)
  have hmono := Text.bytePosition_mono p.text.toUTF8.data.toList hstart
  rw [Prod.Lex.toLex_le_toLex] at hmono ⊢
  rw [site_ofVisit hf, site_ofVisit hg]
  simp only
  omega

end Finding

namespace Session

/-- **Findings in the order of the source.** In whatever session, the findings of a check are ordered by line, and
within a line by column, if the tree of the module that is checked is nested. The site of each is the line and the
column that the bytes before its call determine. -/
theorem check_in_source_order (s : Session) (moduleId : Option ModuleId)
    (h : ∀ p, s.checked? moduleId = some p → p.root.Nested) :
    ((s.check moduleId).2.map fun f => toLex (f.site.line, f.site.column)).Pairwise (· ≤ ·) ∧
    ∀ f ∈ (s.check moduleId).2, ∃ p, s.checked? moduleId = some p ∧ ∃ v ∈ Tree.visits p.text p.root,
      Finding.ofVisit s p v = some f ∧
      f.site = { file := p.moduleId
                 line := (Text.bytePosition p.text.toUTF8.data.toList v.node.start).row + 1
                 column := (Text.bytePosition p.text.toUTF8.data.toList v.node.start).column + 1 } := by
  unfold check
  cases hchecked : s.checked? moduleId with
  | none => exact ⟨.nil, List.forall_mem_nil _⟩
  | some p =>
    refine ⟨List.pairwise_map.mpr (Finding.ofParsed_in_order s (h p hchecked)), fun f hf => ?_⟩
    obtain ⟨v, hv, hfound⟩ := Finding.mem_ofParsed.mp hf
    exact ⟨p, rfl, v, hv, hfound, Finding.site_ofVisit hfound⟩

end Session

namespace Sample

open BlockingCalls.Tree (Node)

def linesRows : List Node.Row :=
  [{ depth := 0, kind := "program", start := 0, stop := 49 },
   { depth := 1, kind := "comment", start := 0, stop := 4 },
   { depth := 1, kind := "lexical_declaration", start := 6, stop := 49 },
   { depth := 2, kind := "variable_declarator", start := 12, stop := 49 },
   { depth := 3, kind := "identifier", start := 12, stop := 13, field := "name" },
   { depth := 3, kind := "arrow_function", start := 14, stop := 49, field := "value" },
   { depth := 4, kind := "async", start := 14, stop := 19 },
   { depth := 4, kind := "statement_block", start := 23, stop := 49, field := "body" },
   { depth := 5, kind := "call_expression", start := 24, stop := 31 },
   { depth := 6, kind := "member_expression", start := 24, stop := 29, field := "function" },
   { depth := 7, kind := "call_expression", start := 24, stop := 27, field := "object" },
   { depth := 8, kind := "identifier", start := 24, stop := 25, field := "function" },
   { depth := 8, kind := "arguments", start := 25, stop := 27, field := "arguments" },
   { depth := 7, kind := "property_identifier", start := 28, stop := 29, field := "property" },
   { depth := 6, kind := "arguments", start := 29, stop := 31, field := "arguments" },
   { depth := 5, kind := "call_expression", start := 33, stop := 48 },
   { depth := 6, kind := "member_expression", start := 33, stop := 43, field := "function" },
   { depth := 7, kind := "identifier", start := 33, stop := 37, field := "object" },
   { depth := 7, kind := "property_identifier", start := 38, stop := 43, field := "property" },
   { depth := 6, kind := "arguments", start := 43, stop := 48, field := "arguments" },
   { depth := 7, kind := "call_expression", start := 44, stop := 47 },
   { depth := 8, kind := "identifier", start := 44, stop := 45, field := "function" },
   { depth := 8, kind := "arguments", start := 45, stop := 47, field := "arguments" }]

/-- A comment with a character of two bytes, a carriage return, and a binding of an async function on two lines. -/
def lines : Parsed where
  moduleId := "/a.ts"
  location := "/a.ts"
  language := .typescript
  text := "//é\r\nconst f=async()=>\x7bg().h();\nDeno.xSync(g())\x7d"
  root := (Node.ofRows? linesRows).getD default

def linesSession : Session where
  resolver := { config := {}, ignore := [] }
  reader := { remoteSchemes := [], denoExecutable := "deno" }
  parsed := .ofList [("/a.ts", lines)]
  propagation := some { blocking := ["f", "g", "h"], addedPerPass := [] }

end Sample

namespace Session

/-- Two calls begin at the same offset, one of them inside the other; the other two are on the next line. -/
theorem check_in_source_order_lines :
    (∀ p, Sample.linesSession.checked? (some "/a.ts") = some p → p.root.Nested) ∧
    (Sample.linesSession.check (some "/a.ts")).2.map (fun f => (f.callee, f.site.line, f.site.column)) =
      [("h", 2, 19), ("g", 2, 19), ("xSync", 3, 1), ("g", 3, 12)] ∧
    ((Sample.linesSession.check (some "/a.ts")).2.map fun f =>
      toLex (f.site.line, f.site.column)).Pairwise (· ≤ ·) := by
  have hnested : ∀ p, Sample.linesSession.checked? (some "/a.ts") = some p → p.root.Nested := by
    have hchecked : Sample.linesSession.checked? (some "/a.ts") = some Sample.lines := rfl
    intro p hp
    rw [hchecked, Option.some.injEq] at hp
    subst hp
    decide +kernel
  exact ⟨hnested, by decide +kernel, (check_in_source_order Sample.linesSession (some "/a.ts") hnested).1⟩

end Session

end BlockingCalls
