import BlockingCalls.Config
import BlockingCalls.Graph.Location
import BlockingCalls.Ignore.Rules
import BlockingCalls.Path
import BlockingCalls.Url.Reference

/-!
# Where an import leads

An import names another module by a specifier. Relative specifiers are resolved against the location of the
importing file; remote ones stand for themselves; all others are skipped, with a reason.
-/

namespace BlockingCalls

/-- Why an import is not followed. -/
inductive SkipReason where
  | unsupportedScheme
  | remoteDisabled
  | bare
  | ignored
  deriving Repr, BEq, DecidableEq

def SkipReason.message : SkipReason → String
  | .unsupportedScheme => "specifiers of this scheme are not supported"
  | .remoteDisabled => "remote imports are disabled"
  | .bare => "bare specifiers are not resolved"
  | .ignored => "matches ignore patterns"

/-- The target of an import. -/
inductive Resolution where
  | found (moduleId : ModuleId) (isRemote : Bool)
  | skipped (reason : SkipReason)
  deriving Repr, BEq, DecidableEq

/-- A configuration with its ignore rules read. -/
structure Resolver where
  config : Config
  ignore : Ignore.Rules
  deriving Repr

namespace Resolver

def ofConfig (config : Config) : Except Ignore.InvalidPattern Resolver :=
  (Ignore.rulesOf config.ignorePatterns).map fun ignore => { config, ignore }

/-- The id of the module at which an analysis starts: a URL as it is, a path in its absolute normal form. -/
def rootModule (r : Resolver) (current path : String) : ModuleId :=
  if r.config.isRemote path then path else Path.absolute current path

/-- Appends the default extension unless what follows the last slash has one. -/
def withExtension (config : Config) (path : String) : String :=
  if (Path.extension path.toList).isEmpty then path ++ config.defaultExtension else path

def dropSlashes (path : String) : String :=
  String.ofList (path.toList.dropWhile (· == '/'))

/-- A relative specifier in a file of this machine. -/
def resolveLocal (r : Resolver) (specifier location : String) : Resolution :=
  let path := withExtension r.config (Path.normalize (Path.join (Path.directory location) specifier))
  if r.ignore.ignore (dropSlashes path) then .skipped .ignored else .found path false

/-- A relative specifier in a remote file. -/
def resolveRemote (r : Resolver) (specifier location : String) : Except Url.Fault Resolution :=
  (Url.join location specifier).map fun url => .found (withExtension r.config url) true

/-- Where a specifier leads from the location of the importing file. -/
def resolve (r : Resolver) (specifier location : String) : Except Url.Fault Resolution :=
  if specifier.toList.head? == some '.' then
    if r.config.isRemote location then r.resolveRemote specifier location
    else .ok (r.resolveLocal specifier location)
  else if Config.beginsWithAny r.config.skippedSchemes specifier then .ok (.skipped .unsupportedScheme)
  else if r.config.isRemote specifier then
    if r.config.followRemoteImports then .ok (.found specifier true) else .ok (.skipped .remoteDisabled)
  else .ok (.skipped .bare)

end Resolver

end BlockingCalls
