import WebBundle.Storage.Fault

/-!
# Project configuration

The configuration of a project as it is written, with a default for everything that may be left
out, and the reasons for which a configuration is refused.
-/

namespace WebBundle

inductive Mode where
  | production
  | development
  deriving DecidableEq, Repr

def Mode.name : Mode → String
  | .production => "production"
  | .development => "development"

def Mode.ofName? (name : String) : Option Mode :=
  [Mode.production, .development].find? fun mode => mode.name = name

/-- The chunks that a cache group takes modules from: all, those loaded on demand, or those loaded
at the start. -/
inductive ChunkScope where
  | all
  | onDemand
  | initial
  deriving DecidableEq, Repr

def ChunkScope.name : ChunkScope → String
  | .all => "all"
  | .onDemand => "async"
  | .initial => "initial"

def ChunkScope.ofName? (name : String) : Option ChunkScope :=
  [ChunkScope.all, .onDemand, .initial].find? fun scope => scope.name = name

/-- What the resource path of a module is tested for. -/
inductive ModuleTest where
  | packages (names : List String)
  | contains (parts : List String)
  | directory (name : String)
  | regex (pattern : String)
  deriving DecidableEq, Repr

/-- A cache group: matching modules move into a chunk of its name. -/
structure CacheGroup where
  name : String
  test : ModuleTest
  scope : ChunkScope := .all
  priority : Int := 0
  enforce : Bool := false
  deriving DecidableEq, Repr

structure AssetMapping where
  source : String
  target : String := "."
  ignore : List String := []
  deriving DecidableEq, Repr

structure WorkerSettings where
  source : String
  target : String := "sw.js"
  marker : String := "self.__WB_MANIFEST"
  exclude : List String := []
  sizeLimit : Nat := 2 * 1024 * 1024
  deriving DecidableEq, Repr

structure ServerSettings where
  host : String := "localhost"
  port : Nat := 3000
  historyFallback : Bool := true
  deriving DecidableEq, Repr

structure ResolveSettings where
  modules : List String := ["node_modules"]
  extensions : List String := [".js"]
  deriving DecidableEq, Repr

structure OutputSettings where
  path : String := "build"
  fileName : String := "[name].bundle.[contenthash:8].js"
  publicPath : String := "/"
  clean : Bool := true
  deriving DecidableEq, Repr

structure OptimizationSettings where
  minSize : Nat := 0
  maxInitialRequests : Option Nat := none
  minimize : Option Bool := none
  deriving DecidableEq, Repr

structure HtmlSettings where
  template : Option String := none
  fileName : String := "index.html"
  deriving DecidableEq, Repr

/-- A whole configuration. Entries are in the order of their names. -/
structure Config where
  name : String
  mode : Mode := .production
  entries : List (String × List String) := []
  resolve : ResolveSettings := {}
  output : OutputSettings := {}
  optimization : OptimizationSettings := {}
  cacheGroups : List CacheGroup := []
  assets : List AssetMapping := []
  html : HtmlSettings := {}
  worker : Option WorkerSettings := none
  server : ServerSettings := {}
  deriving DecidableEq, Repr

/-- A value that makes no sense. -/
inductive ConfigFlaw where
  | emptyEntry (name : String)
  | fileNameWithoutName (pattern : String)
  | extensionWithoutDot
  | reservedEntryName
  | groupNameTaken (name : String)
  | emptyTest (group : String)
  deriving DecidableEq, Repr

/-- The name of the chunk that holds the runtime. -/
def runtimeName : String := "runtime"

def ConfigFlaw.message : ConfigFlaw → String
  | .emptyEntry name => "entry '" ++ name ++ "' lists no modules"
  | .fileNameWithoutName pattern =>
      "output.filename '" ++ pattern ++ "' must contain [name]"
  | .extensionWithoutDot => "resolve.extensions must start with '.'"
  | .reservedEntryName =>
      "entry name '" ++ runtimeName ++ "' is reserved for the runtime chunk"
  | .groupNameTaken name => "cache group name '" ++ name ++ "' collides with another chunk name"
  | .emptyTest group => "cache group '" ++ group ++ "' has an empty test"

inductive ConfigError where
  | unreadable (fault : Storage.Fault)
  | malformed
  | notFound (start : String)
  | missingField (name : String)
  | invalid (flaw : ConfigFlaw)
  deriving DecidableEq, Repr

def ConfigError.message : ConfigError → String
  | .unreadable fault => "failed to read configuration: " ++ fault.message
  | .malformed => "failed to parse configuration"
  | .notFound start => "could not find shard.toml in " ++ start ++ " or any parent directory"
  | .missingField name => "missing required field: " ++ name
  | .invalid flaw => "validation error: " ++ flaw.message

end WebBundle
