import BlockingCalls.Path
import BlockingCalls.Url.Reference

/-!
# The language of a module

The language follows from the extension of a file, or of the path of a URL. What is unknown is TypeScript.
-/

namespace BlockingCalls.Tree

inductive Language where
  | typescript
  | tsx
  | javascript
  deriving Repr, BEq, DecidableEq

namespace Language

def all : List Language :=
  [.typescript, .tsx, .javascript]

theorem mem_all (language : Language) : language ∈ all := by
  cases language <;> simp [all]

def label : Language → String
  | .typescript => "typescript"
  | .tsx => "tsx"
  | .javascript => "javascript"

/-- The language of an extension, written without its dot and in lower case. -/
def ofExtension (extension : String) : Language :=
  if ["js", "jsx", "mjs", "cjs"].contains extension then .javascript
  else if extension == "tsx" then .tsx
  else .typescript

/-- Does the text hold `://`? -/
def isUrl : List Char → Bool
  | [] => false
  | c :: rest => [':', '/', '/'].isPrefixOf (c :: rest) || isUrl rest

/-- The language of a path or URL. -/
def ofLocation (location : String) : Except Url.Fault Language := do
  let cs := location.toList
  let path ← if isUrl cs then (·.path) <$> Url.parse cs else pure cs
  let extension := (Path.extension path).dropWhile (· == '.')
  return ofExtension (String.ofList (extension.map Char.toLower))

end Language

end BlockingCalls.Tree
