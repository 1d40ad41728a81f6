import BlockingCalls.Proofs.LeastClosure

/-!
# Names that block by their origin

An import stands for a name inside the module it comes from, its *origin*, which is determined by the exports of that
module. It is meant to block if its origin does. Propagation also treats it as blocking if the name *under which the origin
is exported* is among the blocking names. Names are global, so that name can be there because of another module: once
`default` blocks anywhere, every default import does. Such an import *leaks*.

There are two results about this. Name by name, a blocking name has a reason: it is in the seed, it calls a blocking name,
or one of its imports blocks by its origin or leaks; and an import can only leak out of a module that exports its origin
under another name (`Leaks.renamed`). For the whole set, `Derived` are the names that block without leaks. They always
block, and nothing else does if and only if no import leads from a derived name to one that is not.

## Results

* `mem_propagate_cases`            — the reason for which a name blocks.
* `Leaks.renamed`                  — an import leaks where its origin is exported under another name.
* `blocks_by_origin_unless_leaked` — names that are neither seeds nor callers block by origin, or leak; when none leaks.
* `default_leaks_into_import`      — a default import of a module in which nothing blocks.
-/

namespace BlockingCalls

namespace Program

-- ---------------------------------------------------------------------------
-- Imports that leak
-- ---------------------------------------------------------------------------

/-- The origin of the import is in the set, or is a direct blocking name of its module. -/
def BlocksByOrigin (p : Program) (B : Set Name) (ref : Alias) : Prop :=
  p.originOf ref ∈ p.modules.directBlocking ref.source ∨ p.originOf ref ∈ B

/-- The import is treated as blocking only for its exported name, while its origin does not block. -/
def Leaks (p : Program) (B : Set Name) (ref : Alias) : Prop :=
  ref.name ∈ B ∧ ¬ p.BlocksByOrigin B ref

theorem standsFor_iff {p : Program} {B : Set Name} {ref : Alias} :
    p.StandsFor B ref ↔ p.BlocksByOrigin B ref ∨ p.Leaks B ref := by
  unfold StandsFor Leaks BlocksByOrigin
  tauto

/-- **An import can only leak if its origin is exported under another name.** -/
theorem Leaks.renamed {p : Program} {B : Set Name} {ref : Alias} (h : p.Leaks B ref) :
    p.originOf ref ≠ ref.name ∧ ∃ record, p.modules.records.get? ref.source = some record ∧
      record.exports.get? ref.name = some (p.originOf ref) := by
  have hne : p.originOf ref ≠ ref.name := fun heq => h.2 (.inr (heq ▸ h.1))
  refine ⟨hne, ?_⟩
  unfold originOf Registry.exportedName at hne ⊢
  cases hrecord : p.modules.records.get? ref.source with
  | none =>
    -- without a record the origin has the same name
    exact absurd (by rw [hrecord]; rfl) hne
  | some record =>
    refine ⟨record, rfl, ?_⟩
    rw [hrecord, Option.bind_some] at hne
    cases hexport : record.exports.get? ref.name with
    | none => exact absurd (by rw [hexport]; rfl) hne
    | some origin => rw [Option.bind_some, hexport, Option.getD_some]

-- ---------------------------------------------------------------------------
-- Why a name blocks
-- ---------------------------------------------------------------------------

/-- **The reason for which a name blocks**: it is in the seed, calls a blocking name, or has an import that stands for
one. -/
theorem mem_propagate_cases {p : Program} {seed : List Name} {x : Name} (h : x ∈ (p.propagate seed).blocking) :
    x ∈ seed ∨ (∃ c, (x, c) ∈ p.calls.edges ∧ c ∈ (p.propagate seed).blocking) ∨
      ∃ moduleId ref, (moduleId, x, ref) ∈ p.aliases.items ∧ p.StandsFor {y | y ∈ (p.propagate seed).blocking} ref := by
  have hclosed := p.propagate_closed seed
  -- the names of the outcome that have such a reason are closed themselves, so they are all of it
  let B : Set Name := {y | y ∈ (p.propagate seed).blocking ∧
    (y ∈ seed ∨ (∃ c, (y, c) ∈ p.calls.edges ∧ c ∈ (p.propagate seed).blocking) ∨
      ∃ moduleId ref, (moduleId, y, ref) ∈ p.aliases.items ∧ p.StandsFor {z | z ∈ (p.propagate seed).blocking} ref)}
  have hB : p.Closed B :=
    { call := fun caller callee he hcallee =>
        ⟨hclosed.call caller callee he hcallee.1, .inr (.inl ⟨callee, he, hcallee.1⟩)⟩
      imported := fun moduleId localName ref hi hstands => by
        have hstands' := hstands.mono fun y (hy : y ∈ B) => hy.1
        exact ⟨hclosed.imported moduleId localName ref hi hstands', .inr (.inr ⟨moduleId, ref, hi, hstands'⟩)⟩ }
  have hseed : ∀ y ∈ seed, y ∈ B := fun y hy => ⟨p.mem_propagate_of_mem_seed hy, .inl hy⟩
  exact (propagate_subset hB hseed x h).2

-- ---------------------------------------------------------------------------
-- Names that block without leaks
-- ---------------------------------------------------------------------------

/-- The names that block by the seed, by calls and by the origins of imports. -/
inductive Derived (p : Program) (seed : List Name) : Name → Prop
  | seed {x : Name} (mem : x ∈ seed) : Derived p seed x
  | call {x c : Name} (edge : (x, c) ∈ p.calls.edges) (callee : Derived p seed c) : Derived p seed x
  | direct {moduleId : ModuleId} {x : Name} {ref : Alias} (item : (moduleId, x, ref) ∈ p.aliases.items)
      (blocks : p.originOf ref ∈ p.modules.directBlocking ref.source) : Derived p seed x
  | origin {moduleId : ModuleId} {x : Name} {ref : Alias} (item : (moduleId, x, ref) ∈ p.aliases.items)
      (derived : Derived p seed (p.originOf ref)) : Derived p seed x

/-- Derived names block. -/
theorem mem_propagate_of_derived {p : Program} {seed : List Name} {x : Name} (h : p.Derived seed x) :
    x ∈ (p.propagate seed).blocking := by
  have hclosed := p.propagate_closed seed
  induction h with
  | seed mem => exact p.mem_propagate_of_mem_seed mem
  | call edge _ ih => exact hclosed.call _ _ edge ih
  | direct item blocks => exact hclosed.imported _ _ _ item (.inl blocks)
  | origin item _ ih => exact hclosed.imported _ _ _ item (.inr (.inl ih))

/-- The derived names satisfy the rules for calls and, by origins, for imports; only leaks may be missing to a closed
set. -/
theorem closed_derived {p : Program} {seed : List Name}
    (h : ∀ moduleId x ref, (moduleId, x, ref) ∈ p.aliases.items → p.Derived seed ref.name → p.Derived seed x) :
    p.Closed {x | p.Derived seed x} where
  call _ _ he hcallee := .call he hcallee
  imported moduleId x ref hi hstands := by
    rcases hstands with hdirect | horigin | hname
    · exact .direct hi hdirect
    · exact .origin hi horigin
    · exact h moduleId x ref hi hname

/-- **Exactly the derived names block if and only if no import leads from a derived name to one that is not.** -/
theorem mem_propagate_iff_derived {p : Program} {seed : List Name} :
    (∀ x, x ∈ (p.propagate seed).blocking ↔ p.Derived seed x) ↔
      ∀ moduleId x ref, (moduleId, x, ref) ∈ p.aliases.items → p.Derived seed ref.name → p.Derived seed x := by
  constructor
  · -- if exactly the derived names block, they are closed
    intro h moduleId x ref hi hname
    have hstands : p.StandsFor {y | y ∈ (p.propagate seed).blocking} ref := .inr (.inr ((h _).mpr hname))
    exact (h x).mp ((p.propagate_closed seed).imported moduleId x ref hi hstands)
  · -- if they are closed, they are the least closed set
    intro h x
    exact ⟨propagate_subset (closed_derived h) (fun _ hy => .seed hy) x, mem_propagate_of_derived⟩

/-- **Names block by their origin, unless they leak.** A blocking name that is not in the seed and calls no blocking
name has an import that blocks by its origin, or one that leaks; then the origin is exported under another name. For the
whole set, the blocking names are those that are derived without leaks if and only if no import leads from a derived
name to one that is not. -/
theorem blocks_by_origin_unless_leaked (p : Program) (seed : List Name) :
    (∀ x ∈ (p.propagate seed).blocking, x ∉ seed →
      (∀ c, (x, c) ∈ p.calls.edges → c ∉ (p.propagate seed).blocking) →
      (∃ moduleId ref, (moduleId, x, ref) ∈ p.aliases.items ∧
        p.BlocksByOrigin {y | y ∈ (p.propagate seed).blocking} ref) ∨
      ∃ moduleId ref, (moduleId, x, ref) ∈ p.aliases.items ∧ p.Leaks {y | y ∈ (p.propagate seed).blocking} ref ∧
        p.originOf ref ≠ ref.name ∧ ∃ record, p.modules.records.get? ref.source = some record ∧
          record.exports.get? ref.name = some (p.originOf ref)) ∧
    ((∀ x, x ∈ (p.propagate seed).blocking ↔ p.Derived seed x) ↔
      ∀ moduleId x ref, (moduleId, x, ref) ∈ p.aliases.items → p.Derived seed ref.name → p.Derived seed x) := by
  refine ⟨fun x hx hseed hcalls => ?_, mem_propagate_iff_derived⟩
  rcases mem_propagate_cases hx with hmem | ⟨c, he, hc⟩ | ⟨moduleId, ref, hi, hstands⟩
  · exact absurd hmem hseed
  · exact absurd hc (hcalls c he)
  · rcases standsFor_iff.mp hstands with horigin | hleaks
    · exact .inl ⟨moduleId, ref, hi, horigin⟩
    · exact .inr ⟨moduleId, ref, hi, hleaks, hleaks.renamed⟩

/-- The first module imports the default of the second as `x`, and passes on `f` of the third as its own default. The
default of the second is `p`, which does not block. -/
def leaky : Program where
  calls := ⟨⟨[("p", []), ("f", [])]⟩⟩
  aliases := ⟨⟨[("/a", ⟨[("x", ⟨"/b", "default"⟩), ("default", ⟨"/c", "f"⟩)]⟩)]⟩⟩
  modules := ⟨⟨
    [("/a", { moduleId := "/a", progress := .done, exports := ⟨[("default", "default")]⟩ }),
     ("/b", { moduleId := "/b", progress := .done, exports := ⟨[("default", "p")]⟩ }),
     ("/c", { moduleId := "/c", progress := .done, directBlocking := ["f"], exports := ⟨[("f", "f")]⟩ })]⟩⟩

theorem blocking_leaky : (leaky.propagate ["f"]).blocking = ["x", "default", "f"] := by decide +kernel

/-- `x` blocks, is not in the seed and calls nothing. -/
theorem blocks_leaky :
    "x" ∈ (leaky.propagate ["f"]).blocking ∧ "x" ∉ ["f"] ∧
      ∀ c, ("x", c) ∈ leaky.calls.edges → c ∉ (leaky.propagate ["f"]).blocking := by
  refine ⟨by simp [blocking_leaky], by decide, ?_⟩
  simp [leaky, CallGraph.edges]

/-- The import of `x` stands for `p`. -/
theorem not_blocksByOrigin_leaky {moduleId : ModuleId} {ref : Alias} (h : (moduleId, "x", ref) ∈ leaky.aliases.items) :
    ¬ leaky.BlocksByOrigin {y | y ∈ (leaky.propagate ["f"]).blocking} ref := by
  have href : ref = ⟨"/b", "default"⟩ := by
    simp [leaky, Aliases.items] at h
    exact h.2
  subst href
  show ¬ ("p" ∈ leaky.modules.directBlocking "/b" ∨ "p" ∈ (leaky.propagate ["f"]).blocking)
  rw [blocking_leaky]
  decide

/-- The reason of `x` is a leak, since it is not its origin. -/
theorem blocks_by_origin_unless_leaked_leaky :
    ("x" ∈ (leaky.propagate ["f"]).blocking ∧ "x" ∉ ["f"] ∧
      ∀ c, ("x", c) ∈ leaky.calls.edges → c ∉ (leaky.propagate ["f"]).blocking) ∧
    ∃ moduleId ref, (moduleId, "x", ref) ∈ leaky.aliases.items ∧
      leaky.Leaks {y | y ∈ (leaky.propagate ["f"]).blocking} ref := by
  obtain ⟨hx, hseed, hcalls⟩ := blocks_leaky
  refine ⟨⟨hx, hseed, hcalls⟩, ?_⟩
  rcases (blocks_by_origin_unless_leaked leaky ["f"]).1 "x" hx hseed hcalls with
    ⟨moduleId, ref, hi, horigin⟩ | ⟨moduleId, ref, hi, hleaks, _⟩
  · exact absurd horigin (not_blocksByOrigin_leaky hi)
  · exact ⟨moduleId, ref, hi, hleaks⟩

/-- `default` blocks because of the third module, and so does `x`, though it stands for a name of the second. -/
theorem default_leaks_into_import :
    "x" ∈ (leaky.propagate ["f"]).blocking ∧ "x" ∉ ["f"] ∧
    (∀ c, ("x", c) ∈ leaky.calls.edges → c ∉ (leaky.propagate ["f"]).blocking) ∧
    ∀ moduleId ref, (moduleId, "x", ref) ∈ leaky.aliases.items →
      ¬ leaky.BlocksByOrigin {y | y ∈ (leaky.propagate ["f"]).blocking} ref :=
  ⟨blocks_leaky.1, blocks_leaky.2.1, blocks_leaky.2.2, fun _ _ hi => not_blocksByOrigin_leaky hi⟩

end Program

end BlockingCalls
