import WebBundle.CacheGroup.Rule
import WebBundle.Chunk.Dissolve
import WebBundle.Diagnostic.Basic
import WebBundle.Module.Discovery
import WebBundle.Output.Error

/-!
# Errors of a build

Everything that ends a build early, and the diagnostic that reports it.
-/

namespace WebBundle.Build

inductive BuildError where
  | config (error : ConfigError)
  | discovery (error : DiscoveryError)
  | pattern (error : CacheGroup.InvalidPattern)
  | emptyChunk (error : Chunk.EmptyChunk)
  | output (error : Output.OutputError)

namespace BuildError

def message : BuildError → String
  | .config error => error.message
  | .discovery error => error.message
  | .pattern error => "invalid pattern in cache group '" ++ error.group ++ "'"
  | .emptyChunk error => error.message
  | .output error => error.message

def code : BuildError → Code
  | .config (.unreadable _) => .storage
  | .config _ => .config
  | .discovery (.unresolved _ _) => .unresolvedImport
  | .discovery (.unreadable _ _) => .storage
  | .discovery (.refused _ _) => .transform
  | .discovery .tooManyModules => .storage
  | .pattern _ => .config
  | .emptyChunk _ => .emptyChunk
  | .output (.injection _) => .manifestInjection
  | .output (.invalidGlob _) => .config
  | .output (.missingSource _) => .storage
  | .output (.inaccessible _ _) => .storage

/-- What the error is about: the importing module, the chunk, or the worker template. -/
def location? : BuildError → Option String
  | .discovery (.unresolved _ importer) => some importer
  | .emptyChunk error => some error.chunk
  | .output (.injection error) => some error.template
  | _ => none

def help : BuildError → List String
  | .emptyChunk _ => ["narrow the cache group tests or lower their priority"]
  | _ => []

def diagnostic (error : BuildError) : Diagnostic where
  severity := .error
  code := error.code
  message := error.message
  location := error.location?
  help := error.help

end BuildError

end WebBundle.Build
