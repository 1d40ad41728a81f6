import BlockingCalls.Finding
import BlockingCalls.Proofs.Descent
import Mathlib.Data.List.Basic

/-!
# Tokens

A complete syntax tree has a leaf for each keyword and each mark of punctuation. Such a token fills no field of its parent,
and nothing is read off it: the only leaves without a field that are inspected are `async`, `default` and identifiers. The
kind of a token can be that of a node with a meaning (the keyword `function` is of the kind of a function expression), so a
walk does classify tokens, but the resulting item has no name, no callee and no specifier, and contributes nothing.

Two trees that differ in tokens are compared through a normal form without tokens (`bare`). A node can become a token by
losing its children, and is removed then as well; so the bare form is computed bottom-up. All that is read off a node is
invariant under taking its bare form, and a token contributes nothing wherever it occurs.

## Results

* `bare_without`            — taking out a token does not change the bare form.
* `classify_bare`           — a node and its bare form are classified alike.
* `foldl_descend_bare`      — a fold over a walk has the same value on the bare form.
* `taking_out_token_changes_nothing` — so summaries and findings do not depend on tokens.
-/

namespace BlockingCalls

open BlockingCalls.Tree (Node Item Context Callee Visit classify descend withContexts)

namespace Tree.Node

-- ---------------------------------------------------------------------------
-- Tokens and the trees without them
-- ---------------------------------------------------------------------------

/-- The kinds of leaves that are inspected although they fill no field. -/
def lookedAt : List String :=
  ["async", "default", "identifier"]

/-- A leaf that fills no field and is of no inspected kind. -/
def isToken (n : Node) : Bool :=
  n.children.isEmpty && n.field.isNone && !lookedAt.contains n.kind

/-- The node at an address, which gives the number of the child to go down to at each level. -/
def at? : Node → List Nat → Option Node
  | n, [] => some n
  | n, i :: rest => n.children[i]?.bind (·.at? rest)

/-- The tree without the node at an address, and all else as it was. The root stays, whose address is empty. -/
def without : Node → List Nat → Node
  | n, [] => n
  | n, [i] => { n with children := n.children.eraseIdx i }
  | n, i :: j :: rest => { n with children := n.children.modify i (·.without (j :: rest)) }

mutual

/-- The tree without tokens, and without the flags and the index, which nothing depends on. -/
def bare : Node → Node
  | ⟨kind, start, stop, field, _, _, _, children⟩ => { kind, start, stop, field, children := bareAll children }

/-- The bare forms of several nodes, without those that have become tokens. -/
def bareAll : List Node → List Node
  | [] => []
  | n :: rest => if n.bare.isToken then bareAll rest else n.bare :: bareAll rest

end

theorem bare_eq (n : Node) :
    n.bare = { kind := n.kind, start := n.start, stop := n.stop, field := n.field, children := bareAll n.children } := by
  obtain ⟨kind, start, stop, field, hasError, isMissing, index, children⟩ := n
  rw [bare]

@[simp] theorem kind_bare (n : Node) : n.bare.kind = n.kind := by rw [bare_eq]
@[simp] theorem start_bare (n : Node) : n.bare.start = n.start := by rw [bare_eq]
@[simp] theorem stop_bare (n : Node) : n.bare.stop = n.stop := by rw [bare_eq]
@[simp] theorem field_bare (n : Node) : n.bare.field = n.field := by rw [bare_eq]
@[simp] theorem children_bare (n : Node) : n.bare.children = bareAll n.children := by rw [bare_eq]

theorem isToken_iff {n : Node} :
    n.isToken = true ↔ n.children = [] ∧ n.field = none ∧ n.kind ∉ lookedAt := by
  simp [isToken, and_assoc]

theorem isToken_bare_of_isToken {n : Node} (h : n.isToken = true) : n.bare.isToken = true := by
  rw [isToken_iff] at h ⊢
  rw [children_bare, field_bare, kind_bare, h.1, bareAll]
  exact ⟨rfl, h.2⟩

/-- Removing a token from a list of children does not change their bare forms. -/
theorem bareAll_eraseIdx {ns : List Node} {i : Nat} {leaf : Node} (hleaf : ns[i]? = some leaf)
    (htoken : leaf.isToken = true) : bareAll (ns.eraseIdx i) = bareAll ns := by
  induction ns generalizing i with
  | nil => rw [List.eraseIdx_nil]
  | cons n rest ih =>
    cases i with
    | zero =>
      -- the token itself: its bare form is not in the list
      cases hleaf
      rw [List.eraseIdx_cons_zero, bareAll, if_pos (isToken_bare_of_isToken htoken)]
    | succ i =>
      rw [List.getElem?_cons_succ] at hleaf
      rw [List.eraseIdx_cons_succ, bareAll, bareAll, ih hleaf]

/-- Nor does replacing a child by one with the same bare form. -/
theorem bareAll_modify {ns : List Node} {i : Nat} {change : Node → Node}
    (hchange : ∀ c, ns[i]? = some c → (change c).bare = c.bare) : bareAll (ns.modify i change) = bareAll ns := by
  induction ns generalizing i with
  | nil => rw [List.modify_nil]
  | cons n rest ih =>
    cases i with
    | zero => rw [List.modify_zero_cons, bareAll, bareAll, hchange n rfl]
    | succ i => rw [List.modify_succ_cons, bareAll, bareAll, ih hchange]

/-- **Removing a token, at any depth, does not change the bare form**: the parent loses a child that its bare form does
not have, and the nodes further up keep the bare forms of their children. By induction on the address. -/
theorem bare_without {address : List Nat} (hbelow : address ≠ []) {root leaf : Node} (hleaf : root.at? address = some leaf)
    (htoken : leaf.isToken = true) : (root.without address).bare = root.bare := by
  induction address generalizing root with
  | nil => exact absurd rfl hbelow
  | cons i rest ih =>
    rw [at?, Option.bind_eq_some_iff] at hleaf
    obtain ⟨child, hchild, hat⟩ := hleaf
    cases rest with
    | nil =>
      -- the token is a child of this node
      cases hat
      rw [without, bare_eq, bare_eq root, bareAll_eraseIdx hchild htoken]
    | cons j rest =>
      -- the token is further down, in the child of that number
      have hsame : ∀ c, root.children[i]? = some c → (c.without (j :: rest)).bare = c.bare := by
        intro c hc
        cases hc.symm.trans hchild
        exact ih (List.cons_ne_nil j rest) hat
      rw [without, bare_eq, bare_eq root, bareAll_modify hsame]

-- ---------------------------------------------------------------------------
-- What is read off the children of a node
-- ---------------------------------------------------------------------------

/-- The child in a field of the bare form is the bare form of the child. -/
theorem child?_bare (n : Node) (field : String) : n.bare.child? field = (n.child? field).map bare := by
  unfold child?
  rw [children_bare]
  induction n.children with
  | nil => rw [bareAll]; rfl
  | cons c rest ih =>
    rw [bareAll, List.find?_cons]
    by_cases hfield : c.field = some field
    · -- a node that fills a field is no token
      have hkept : c.bare.isToken = false := by simp [isToken, hfield]
      simp [hkept, hfield]
    · simp only [beq_eq_false_iff_ne.mpr hfield]
      split
      · exact ih
      · rw [List.find?_cons, field_bare, beq_eq_false_iff_ne.mpr hfield]
        exact ih

/-- Whether there is a child of an inspected kind does not depend on tokens. -/
theorem any_kind_bareAll {kind : String} (h : kind ∈ lookedAt) (ns : List Node) :
    (bareAll ns).any (·.kind == kind) = ns.any (·.kind == kind) := by
  induction ns with
  | nil => rw [bareAll]
  | cons c rest ih =>
    rw [bareAll, List.any_cons, ← ih]
    split
    · rename_i htoken
      -- a token is of no inspected kind
      have hkind : c.kind ≠ kind := by
        rintro rfl
        exact (isToken_iff.mp htoken).2.2 (by simpa using h)
      rw [beq_eq_false_iff_ne.mpr hkind, Bool.false_or]
    · rw [List.any_cons, kind_bare]

/-- What is collected from the children is the same in the bare form, if it is so for each of them and a token
contributes nothing. -/
theorem flatMap_bareAll {β : Type} {gather : Node → List β} (hbare : ∀ c, gather c.bare = gather c)
    (htoken : ∀ c, c.isToken = true → gather c = []) (ns : List Node) :
    (bareAll ns).flatMap gather = ns.flatMap gather := by
  induction ns with
  | nil => rw [bareAll]
  | cons c rest ih =>
    rw [bareAll, List.flatMap_cons, ← ih]
    split
    · rename_i hgone
      rw [← hbare c, htoken c.bare hgone, List.nil_append]
    · rw [List.flatMap_cons, hbare]

/-- The same for children of one kind, of which those without children contribute nothing. -/
theorem flatMap_filter_bareAll {β : Type} {gather : Node → List β} (hbare : ∀ c, gather c.bare = gather c)
    (hleaf : ∀ c, c.children = [] → gather c = []) (kind : String) (ns : List Node) :
    ((bareAll ns).filter (·.kind == kind)).flatMap gather = (ns.filter (·.kind == kind)).flatMap gather := by
  -- filtering first is the same as contributing nothing where the kind is another
  have hfilter : ∀ l : List Node, (l.filter (·.kind == kind)).flatMap gather =
      l.flatMap fun c => if c.kind == kind then gather c else [] := by
    intro l
    induction l with
    | nil => rfl
    | cons c rest ih =>
      rw [List.filter_cons, List.flatMap_cons, ← ih]
      split <;> simp
  rw [hfilter, hfilter]
  refine flatMap_bareAll (fun c => ?_) (fun c htoken => ?_) ns
  · rw [kind_bare, hbare]
  · rw [hleaf c (isToken_iff.mp htoken).1, ite_self]

/-- The same where each child contributes at most one value. -/
theorem filterMap_filter_bareAll {β : Type} {read : Node → Option β} (hbare : ∀ c, read c.bare = read c)
    (hleaf : ∀ c, c.children = [] → read c = none) (kind : String) (ns : List Node) :
    ((bareAll ns).filter (·.kind == kind)).filterMap read = (ns.filter (·.kind == kind)).filterMap read := by
  rw [List.filterMap_eq_flatMap_toList, List.filterMap_eq_flatMap_toList]
  refine flatMap_filter_bareAll (fun c => ?_) (fun c hc => ?_) kind ns
  · rw [hbare]
  · rw [hleaf c hc, Option.toList_none]

theorem child?_of_children_eq_nil {n : Node} (h : n.children = []) (field : String) : n.child? field = none := by
  rw [child?, h, List.find?_nil]

end Tree.Node

-- ---------------------------------------------------------------------------
-- What a node means
-- ---------------------------------------------------------------------------

namespace Tree

open Node

variable (source : String)

@[simp] theorem text_bare (n : Node) : n.bare.text source = n.text source := by
  rw [Node.text, Node.text, start_bare, stop_bare]

@[simp] theorem unquoted_bare (n : Node) : n.bare.unquoted source = n.unquoted source := by
  rw [Node.unquoted, Node.unquoted, text_bare]

theorem isAsync_bare (n : Node) : n.bare.isAsync = n.isAsync := by
  rw [Node.isAsync, Node.isAsync, children_bare]
  exact any_kind_bareAll (by decide) n.children

theorem calleeOf_bare (function : Node) : calleeOf source function.bare = calleeOf source function := by
  unfold calleeOf
  rw [kind_bare, text_bare, child?_bare, child?_bare]
  cases function.child? "property" <;> cases function.child? "object" <;> simp [Option.filter]

theorem bindingOf_bare (specifier : Node) : bindingOf source specifier.bare = bindingOf source specifier := by
  unfold bindingOf
  rw [child?_bare, child?_bare]
  cases specifier.child? "name" <;> cases specifier.child? "alias" <;> simp

theorem exportSpecifierOf_bare (specifier : Node) :
    exportSpecifierOf source specifier.bare = exportSpecifierOf source specifier := by
  unfold exportSpecifierOf
  rw [child?_bare, child?_bare]
  cases specifier.child? "name" <;> cases specifier.child? "alias" <;> simp

/-- The bindings of an import: the clauses, their children and the specifiers below are each invariant. -/
theorem importBindings_bare (n : Node) : importBindings source n.bare = importBindings source n := by
  unfold importBindings
  rw [children_bare]
  refine flatMap_filter_bareAll (fun clause => ?_) (fun clause hclause => ?_) _ _
  · rw [children_bare]
    refine flatMap_bareAll (fun child => ?_) (fun child htoken => ?_) _
    · rw [kind_bare, text_bare, children_bare, filterMap_filter_bareAll (bindingOf_bare source)]
      intro specifier hspecifier
      rw [bindingOf, child?_of_children_eq_nil hspecifier]
    · -- an identifier would be a name, but it is no token; without children nothing else is one
      obtain ⟨hchildren, _, hkind⟩ := isToken_iff.mp htoken
      have hidentifier : (child.kind == "identifier") = false := by
        rw [beq_eq_false_iff_ne]
        intro h
        exact hkind (by simp [h, lookedAt])
      simp [hidentifier, hchildren]
  · rw [hclause, List.flatMap_nil]

/-- The names that a declaration declares. -/
theorem declaredNames_bare (declaration : Node) :
    declaredNames source declaration.bare = declaredNames source declaration := by
  unfold declaredNames
  rw [child?_bare, kind_bare, children_bare, filterMap_filter_bareAll]
  · cases declaration.child? "name" <;> simp
  · intro declarator
    rw [child?_bare]
    cases declarator.child? "name" <;> simp [Option.filter]
  · intro declarator hdeclarator
    rw [child?_of_children_eq_nil hdeclarator]
    rfl

theorem defaultNames_bare (value : Node) : defaultNames source value.bare = defaultNames source value := by
  unfold defaultNames
  rw [kind_bare, text_bare, child?_bare]
  cases value.child? "name" <;> simp

theorem exportedDeclaration_bare (n : Node) : exportedDeclaration source n.bare = exportedDeclaration source n := by
  unfold exportedDeclaration
  rw [child?_bare, child?_bare, children_bare, any_kind_bareAll (by decide)]
  cases n.child? "declaration" with
  | none => cases n.child? "value" <;> simp [defaultNames_bare]
  | some declaration => simp [declaredNames_bare]

/-- The specifiers of an export: the clauses and the specifiers below are each invariant. -/
theorem exportedClauses_bare (n : Node) : exportedClauses source n.bare = exportedClauses source n := by
  unfold exportedClauses
  rw [children_bare]
  refine flatMap_filter_bareAll (fun clause => ?_) (fun clause hclause => ?_) _ _
  · rw [children_bare, filterMap_filter_bareAll (exportSpecifierOf_bare source)]
    intro specifier hspecifier
    rw [exportSpecifierOf, child?_of_children_eq_nil hspecifier]
  · rw [hclause]
    rfl

/-- An item with the body of the function, if it is one, in its bare form. -/
def Item.bare : Item → Item
  | .function name isAsync body => .function name isAsync body.bare
  | item => item

/-- A function and its bare form are classified alike. -/
theorem classifyFunction_bare {readName : Node → Name} (hname : ∀ name, readName name.bare = readName name) (n : Node) :
    classifyFunction n.bare readName = (classifyFunction n readName).bare := by
  unfold classifyFunction
  rw [child?_bare, isAsync_bare]
  cases n.child? "name" with
  | none => rfl
  | some name => simp only [Option.map_some, hname]; rfl

/-- So are a binding of a function to a name and its bare form. -/
theorem classifyBinding_bare (n : Node) (nameField : String) :
    classifyBinding source n.bare nameField = (classifyBinding source n nameField).bare := by
  unfold classifyBinding
  rw [child?_bare, child?_bare]
  cases n.child? nameField with
  | none => rfl
  | some name =>
    cases n.child? "value" with
    | none => rfl
    | some value =>
      simp only [Option.map_some, kind_bare, text_bare, isAsync_bare]
      split <;> rfl

/-- **A node and its bare form are classified alike.** One case for each kind of node with a meaning. -/
theorem classify_bare (n : Node) : classify source n.bare = (classify source n).bare := by
  unfold classify
  rw [kind_bare, importBindings_bare, exportedDeclaration_bare, exportedClauses_bare, child?_bare, child?_bare,
    classifyFunction_bare (unquoted_bare source), classifyFunction_bare (text_bare source)]
  split
  · rfl
  · cases valueBindings.lookup n.kind with
    | some nameField => exact classifyBinding_bare source n nameField
    | none =>
      simp only
      split
      · rfl
      · split
        · cases n.child? "function" with
          | none => rfl
          | some function => rw [Option.map_some, Option.bind_some, calleeOf_bare]; rfl
        · split
          · cases n.child? "source" with
            | none => rfl
            | some from_ => simp only [Option.map_some, unquoted_bare]; rfl
          · split
            · cases n.child? "source" with
              | none => rfl
              | some from_ => simp only [Option.map_some, unquoted_bare]; rfl
            · rfl

-- ---------------------------------------------------------------------------
-- Walks
-- ---------------------------------------------------------------------------

theorem inner_bare (n : Node) : (classify source n.bare).inner n.bare = bareAll ((classify source n).inner n) := by
  rw [classify_bare]
  cases classify source n <;> exact children_bare _

/-- A walk visits nothing below a leaf. -/
theorem inner_of_children_eq_nil {n : Node} (h : n.children = []) : (classify source n).inner n = [] := by
  cases hitem : classify source n with
  | function name isAsync body =>
    -- the body of a function is the node itself or one of its children
    rcases classify_body hitem with rfl | hbody
    · exact h
    · rw [h] at hbody
      cases hbody
  | _ => exact h

/-- A node and its bare form give the same context for the nodes below. -/
theorem enter_bare (context : Context) (n : Node) : context.enter source n.bare = context.enter source n := by
  unfold Context.enter
  rw [classify_bare]
  cases classify source n with
  | anonymousFunction => simp only [Item.bare, Context.inside, isAsync_bare]
  | _ => rfl

/-- A fold over nodes has the same value on their bare forms, if each step has and a token changes nothing. -/
theorem foldl_bareAll {σ : Type} {run : σ → Node → σ} {ns : List Node} (hbare : ∀ c ∈ ns, ∀ s, run s c.bare = run s c)
    (htoken : ∀ c, c.isToken = true → ∀ s, run s c = s) (s : σ) : (bareAll ns).foldl run s = ns.foldl run s := by
  induction ns generalizing s with
  | nil => rw [bareAll]
  | cons c rest ih =>
    rw [List.forall_mem_cons] at hbare
    rw [bareAll, List.foldl_cons, ← hbare.1]
    split
    · rename_i hgone
      rw [htoken c.bare hgone, ih hbare.2]
    · rw [List.foldl_cons, ih hbare.2]

/-- **A fold over a walk has the same value on the bare form**, if a node gives the same as its bare form and a token
changes nothing. By induction on the nodes that the walk visits. -/
theorem foldl_descend_bare {σ : Type} {step : σ → Node × Context → σ}
    (hbare : ∀ s n context, step s (n.bare, context) = step s (n, context))
    (htoken : ∀ n, n.isToken = true → ∀ s context, step s (n, context) = s) (context : Context) (n : Node) (s : σ) :
    (descend source (Context.enter source) context n.bare).foldl step s =
      (descend source (Context.enter source) context n).foldl step s := by
  induction n using inner_induction source generalizing context s with
  | h n ih =>
    rw [descend_eq, descend_eq source _ context n, List.foldl_cons, List.foldl_cons, hbare, enter_bare, inner_bare,
      List.foldl_flatMap, List.foldl_flatMap]
    apply foldl_bareAll
    · -- the nodes below, by the induction hypothesis
      intro c hc s
      exact ih c hc _ s
    · -- a token: the walk visits it alone
      intro c hc s
      rw [descend_eq, inner_of_children_eq_nil source (isToken_iff.mp hc).1]
      exact htoken c hc s _

/-- A leaf has no name, no callee, no source and no specifier, whatever its kind. -/
theorem classify_of_children_eq_nil {n : Node} (h : n.children = []) :
    classify source n = .anonymousFunction ∨ classify source n = .call none ∨
      classify source n = .exporting none [] ∨ classify source n = .other := by
  unfold classify classifyFunction classifyBinding exportedDeclaration exportedClauses
  simp only [child?_of_children_eq_nil h, h]
  split
  · exact .inl rfl
  · split
    · exact .inr (.inr (.inr rfl))
    · split
      · exact .inl rfl
      · split
        · exact .inr (.inl rfl)
        · split
          · exact .inr (.inr (.inr rfl))
          · split
            · exact .inr (.inr (.inl rfl))
            · exact .inr (.inr (.inr rfl))

end Tree

-- ---------------------------------------------------------------------------
-- Summaries and findings
-- ---------------------------------------------------------------------------

namespace Summary

variable {config : Config} {text : String}

/-- A node adds the same to a summary as its bare form. -/
theorem add_bare (s : Summary) (n : Node) (context : Context) :
    s.add config text (Visit.ofDescent text (n.bare, context)) =
      s.add config text (Visit.ofDescent text (n, context)) := by
  unfold add Visit.ofDescent
  rw [Tree.classify_bare, Tree.Node.start_bare]
  cases classify text n <;> rfl

/-- A leaf adds nothing to a summary. -/
theorem add_of_children_eq_nil {n : Node} (h : n.children = []) (s : Summary) (context : Context) :
    s.add config text (Visit.ofDescent text (n, context)) = s := by
  unfold add Visit.ofDescent
  rcases Tree.classify_of_children_eq_nil text h with hitem | hitem | hitem | hitem
  · rw [hitem]
  · rw [hitem]
    cases context.enclosing <;> rfl
  · rw [hitem]
    rfl
  · rw [hitem]

/-- The summary of a tree is that of its bare form. -/
theorem ofTree_bare (moduleId : ModuleId) (root : Node) :
    ofTree config moduleId text root.bare = ofTree config moduleId text root := by
  rw [ofTree, ofTree, Tree.visits_eq_descend, Tree.visits_eq_descend, List.foldl_map, List.foldl_map]
  refine Tree.foldl_descend_bare text (fun s n context => add_bare s n context) (fun n hn s context => ?_) {} root _
  exact add_of_children_eq_nil (Tree.Node.isToken_iff.mp hn).1 s context

end Summary

namespace Finding

variable (s : Session) (p : Parsed)

/-- The repair of a call is read off its bare form. -/
theorem fixOf_bare (config : Config) (source : String) (call : Node) (name : Name) :
    fixOf config source call.bare name = fixOf config source call name := by
  unfold fixOf
  rw [Tree.Node.child?_bare, Tree.Node.start_bare, Tree.Node.stop_bare]
  cases call.child? "arguments" with
  | none => rfl
  | some arguments => simp

/-- A node gives the same finding as its bare form. -/
theorem ofVisit_bare (n : Node) (context : Context) :
    ofVisit s p (Visit.ofDescent p.text (n.bare, context)) = ofVisit s p (Visit.ofDescent p.text (n, context)) := by
  unfold ofVisit Visit.ofDescent kindOf
  simp only [Tree.classify_bare, Tree.Node.start_bare, fixOf_bare]
  cases classify p.text n <;> rfl

theorem ofVisit_of_children_eq_nil {n : Node} (h : n.children = []) (context : Context) :
    ofVisit s p (Visit.ofDescent p.text (n, context)) = none := by
  unfold ofVisit Visit.ofDescent
  rcases Tree.classify_of_children_eq_nil p.text h with hitem | hitem | hitem | hitem <;> rw [hitem]

/-- The findings of a module as a fold over the walk. -/
theorem ofParsed_eq_foldl (root : Node) :
    ofParsed s { p with root } =
      (withContexts p.text root).foldl
        (fun found v => found ++ (ofVisit s p (Visit.ofDescent p.text v)).toList) [] := by
  rw [ofParsed, Tree.visits_eq_descend, List.filterMap_map, List.filterMap_eq_flatMap_toList, List.flatMap_eq_foldl]
  rfl

/-- The findings of a module are those of its bare form. -/
theorem ofParsed_bare (root : Node) : ofParsed s { p with root := root.bare } = ofParsed s { p with root } := by
  rw [ofParsed_eq_foldl, ofParsed_eq_foldl]
  refine Tree.foldl_descend_bare p.text (fun found n context => ?_) (fun n hn found context => ?_) {} root []
  · rw [ofVisit_bare]
  · rw [ofVisit_of_children_eq_nil s p (Tree.Node.isToken_iff.mp hn).1, Option.toList_none, List.append_nil]

end Finding

/-- **Tokens do not matter.** Removing a token from a tree, anywhere below its root, changes neither the summary of the
tree nor the findings in it, whatever the session. -/
theorem taking_out_token_changes_nothing {root leaf : Node} {address : List Nat} (hbelow : address ≠ [])
    (hleaf : root.at? address = some leaf) (htoken : leaf.isToken = true) :
    (∀ config moduleId text,
      Summary.ofTree config moduleId text (root.without address) = Summary.ofTree config moduleId text root) ∧
    ∀ (s : Session) (p : Parsed),
      Finding.ofParsed s { p with root := root.without address } = Finding.ofParsed s { p with root } := by
  have hbare := Tree.Node.bare_without hbelow hleaf htoken
  constructor
  · intro config moduleId text
    rw [← Summary.ofTree_bare, hbare, Summary.ofTree_bare]
  · intro s p
    rw [← Finding.ofParsed_bare, hbare, Finding.ofParsed_bare]

namespace Sample

def completeText : String :=
  "async function f(){Deno.xSync()}"

/-- All nodes of the text, with those for keywords and punctuation. -/
def completeRows : List Node.Row :=
  [{ depth := 0, kind := "program", start := 0, stop := 32 },
   { depth := 1, kind := "function_declaration", start := 0, stop := 32 },
   { depth := 2, kind := "async", start := 0, stop := 5 },
   { depth := 2, kind := "function", start := 6, stop := 14 },
   { depth := 2, kind := "identifier", start := 15, stop := 16, field := "name" },
   { depth := 2, kind := "formal_parameters", start := 16, stop := 18, field := "parameters" },
   { depth := 3, kind := "(", start := 16, stop := 17 },
   { depth := 3, kind := ")", start := 17, stop := 18 },
   { depth := 2, kind := "statement_block", start := 18, stop := 32, field := "body" },
   { depth := 3, kind := "\x7b", start := 18, stop := 19 },
   { depth := 3, kind := "expression_statement", start := 19, stop := 31 },
   { depth := 4, kind := "call_expression", start := 19, stop := 31 },
   { depth := 5, kind := "member_expression", start := 19, stop := 29, field := "function" },
   { depth := 6, kind := "identifier", start := 19, stop := 23, field := "object" },
   { depth := 6, kind := ".", start := 23, stop := 24 },
   { depth := 6, kind := "property_identifier", start := 24, stop := 29, field := "property" },
   { depth := 5, kind := "arguments", start := 29, stop := 31, field := "arguments" },
   { depth := 6, kind := "(", start := 29, stop := 30 },
   { depth := 6, kind := ")", start := 30, stop := 31 },
   { depth := 3, kind := "\x7d", start := 31, stop := 32 }]

def complete : Parsed where
  moduleId := "/a.ts"
  location := "/a.ts"
  language := .typescript
  text := completeText
  root := (Node.ofRows? completeRows).getD default

/-- The keyword `function`, whose kind is also that of a function expression. -/
def keyword : Node :=
  { kind := "function", start := 6, stop := 14, index := 3 }

/-- A session in which the function blocks. -/
def completeSession : Session where
  resolver := { config := { ignorePatterns := [] }, ignore := [] }
  reader := {}
  propagation := some { blocking := ["f"], addedPerPass := [] }

end Sample

/-- Without the keyword `function` the function is still there, still async, and still found to block. -/
theorem taking_out_token_changes_nothing_keyword :
    Sample.complete.root.at? [0, 1] = some Sample.keyword ∧ Sample.keyword.isToken = true ∧
    (Summary.ofTree {} "/a.ts" Sample.completeText (Sample.complete.root.without [0, 1])).directBlocking = ["f"] ∧
    Finding.ofParsed Sample.completeSession { Sample.complete with root := Sample.complete.root.without [0, 1] } =
      [⟨"xSync", "f", ⟨"/a.ts", 1, 20⟩, .direct (some ⟨19, 31, "await Deno.x()"⟩)⟩] := by
  have hleaf : Sample.complete.root.at? [0, 1] = some Sample.keyword := rfl
  have htoken : Sample.keyword.isToken = true := by decide
  obtain ⟨hsummary, hfindings⟩ := taking_out_token_changes_nothing (List.cons_ne_nil 0 [1]) hleaf htoken
  refine ⟨hleaf, htoken, ?_, ?_⟩
  · rw [hsummary]
    decide +kernel
  · rw [hfindings]
    decide +kernel

end BlockingCalls
