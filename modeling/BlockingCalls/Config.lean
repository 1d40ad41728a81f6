import BlockingCalls.Tree.Item

/-!
# Configuration of an analysis

What counts as a blocking operation, which specifiers are remote and which are skipped, what an import without an
extension is completed with, which local files are ignored, and how many modules are read at a time.
-/

namespace BlockingCalls

structure Config where
  /-- A blocking operation is a call `syncNamespace.name(...)` whose name ends in `blockingSuffix`. -/
  syncNamespace : String := "Deno"
  blockingSuffix : String := "Sync"
  /-- Appended to a relative import that has no extension. -/
  defaultExtension : String := ".ts"
  /-- What the ids of remote modules begin with; such modules are fetched. -/
  remoteSchemes : List String := ["jsr:", "https://", "http://"]
  /-- What the specifiers that are skipped begin with. -/
  skippedSchemes : List String := ["npm:", "node:"]
  followRemoteImports : Bool := true
  /-- Patterns of local modules that are not analysed. -/
  ignorePatterns : List String := ["node_modules/"]
  /-- Bound on concurrent reads. -/
  maxConcurrency : Int := 8
  deriving Repr, BEq, DecidableEq

namespace Config

/-- Does the text begin with one of the openings? -/
def beginsWithAny (openings : List String) (text : String) : Bool :=
  openings.any fun opening => opening.toList.isPrefixOf text.toList

def isRemote (config : Config) (moduleId : String) : Bool :=
  beginsWithAny config.remoteSchemes moduleId

/-- Is the call a blocking operation of the platform? -/
def isSyncOperation (config : Config) (callee : Tree.Callee) : Bool :=
  callee.isMember && callee.object == some config.syncNamespace &&
    config.blockingSuffix.toList.isSuffixOf callee.name.toList

/-- The name under which a call becomes an edge of the call graph. Members of the platform's namespace give none. -/
def edgeName (config : Config) (callee : Tree.Callee) : Option Name :=
  if callee.isMember && callee.object == some config.syncNamespace then none else some callee.name

end Config

end BlockingCalls
