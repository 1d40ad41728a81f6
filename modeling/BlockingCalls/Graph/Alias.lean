import BlockingCalls.Graph.Location

/-!
# Import aliases

For each module, the names it imports and what they stand for. Where one local name is imported twice, the later
one counts.
-/

namespace BlockingCalls

/-- What an imported name stands for: an exported name of a module. -/
structure Alias where
  source : ModuleId
  name : Name
  deriving Repr, BEq, DecidableEq

/-- From modules to local names to aliases. -/
structure Aliases where
  modules : Table (Table Alias) := {}
  deriving Repr, BEq, DecidableEq

namespace Aliases

def record (a : Aliases) (moduleId : ModuleId) (localName : Name) (ref : Alias) : Aliases :=
  ⟨a.modules.alter moduleId {} (·.put localName ref)⟩

def get? (a : Aliases) (moduleId : ModuleId) (localName : Name) : Option Alias :=
  (a.modules.get? moduleId).bind (·.get? localName)

/-- The aliases of one local name, each with the module that imports it. -/
def forLocal (a : Aliases) (localName : Name) : List (ModuleId × Alias) :=
  a.modules.entries.filterMap fun e => (e.2.get? localName).map fun ref => (e.1, ref)

/-- All aliases: the importing module, the local name, what it stands for. -/
def items (a : Aliases) : List (ModuleId × Name × Alias) :=
  a.modules.entries.flatMap fun e => e.2.entries.map fun l => (e.1, l.1, l.2)

def size (a : Aliases) : Nat :=
  (a.modules.values.map (·.size)).foldr (· + ·) 0

/-- What is recorded is found under its module and local name, and nothing else changes. -/
theorem get?_record (a : Aliases) (moduleId other : ModuleId) (localName name : Name) (ref : Alias) :
    (a.record moduleId localName ref).get? other name =
      if moduleId = other ∧ localName = name then some ref else a.get? other name := by
  unfold get? record Table.alter
  rw [Table.get?_put]
  by_cases h : moduleId = other
  · subst h
    by_cases h' : localName = name
    · simp [h']
    · cases hm : a.modules.get? moduleId with
      | none => simp [h']
      | some names => simp [h']
  · simp [h]

end Aliases

end BlockingCalls
