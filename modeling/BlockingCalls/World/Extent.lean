import BlockingCalls.World.Basic

/-!
# The extent of a world

Finitely many modules can be loaded from a world: one for each page or specifier that has an entry, those that an import
of a page leads to, and for each file the few paths that name it. Traversals are bounded by these numbers.
-/

namespace BlockingCalls

namespace World

/-- The number of nodes of all trees of all languages; no module has more imports. -/
def nodeCount (w : World) : Nat :=
  ((Tree.Language.all.flatMap fun language => (w.trees language).values).map (·.size)).foldr (· + ·) 0

/-- No more modules can be loaded in one analysis: the root, those that an entry or an import of a page leads to, and
those of the five paths that can name a file. -/
def moduleBound (w : World) : Nat :=
  w.deno.size + w.web.size * (w.nodeCount + 1) + 5 * w.files.size + 1

end World

end BlockingCalls
