import WebBundle.Config.Reader
import WebBundle.Path.Resource
import WebBundle.Storage.Basic

/-!
# Build options

The settings that a build works with: a configuration whose paths were put below the project root
and whose open choices were made. The root is the nearest directory upwards that holds a
configuration file, or the directory of a configuration file that is named.
-/

namespace WebBundle

/-- What a command may change. -/
structure Overrides where
  mode : Option Mode := none
  outDir : Option String := none

structure Options where
  name : String
  root : String
  mode : Mode
  entries : List (String × List String)
  searchPaths : List String
  extensions : List String
  outDir : String
  fileName : String
  publicPath : String
  clean : Bool
  minimize : Bool
  minSize : Nat
  maxInitialRequests : Option Nat
  cacheGroups : List CacheGroup
  assets : List AssetMapping
  htmlTemplate : Option String
  htmlFileName : String
  worker : Option WorkerSettings
  server : ServerSettings
  deriving DecidableEq, Repr

/-- The name of the configuration file. -/
def configFileName : String := "shard.toml"

namespace Options

def withEndSlash (path : String) : String :=
  if path.toList.getLast? = some '/' then path else path ++ "/"

def ofConfig (config : Config) (root : String) (overrides : Overrides) : Options :=
  let mode := overrides.mode.getD config.mode
  let below (path : String) := Path.join root path
  { name := config.name
    root
    mode
    entries := config.entries
    searchPaths := config.resolve.modules.map below
    extensions := config.resolve.extensions
    outDir := below (overrides.outDir.getD config.output.path)
    fileName := config.output.fileName
    publicPath := withEndSlash config.output.publicPath
    clean := config.output.clean
    minimize := config.optimization.minimize.getD (mode = .production)
    minSize := config.optimization.minSize
    maxInitialRequests := config.optimization.maxInitialRequests
    cacheGroups := config.cacheGroups
    assets := config.assets.map fun mapping =>
      { mapping with source := below mapping.source, target := Path.normalize mapping.target }
    htmlTemplate := config.html.template.map below
    htmlFileName := config.html.fileName
    worker := config.worker.map fun worker =>
      { worker with source := below worker.source, target := Path.normalize worker.target }
    server := config.server }

/-- The nearest directory from `path` upwards that holds a configuration file. Every round goes one
step up. -/
def findRootFrom (storage : Storage) (start : String) :
    (rounds : Nat) → (path : String) → Except ConfigError String
  | 0, _ => .error (.notFound start)
  | rounds + 1, path =>
      if storage.isFile (Path.join path configFileName) then .ok path
      else
        match Path.parent? path with
        | some parent => findRootFrom storage start rounds parent
        | none => .error (.notFound start)

def findRoot (storage : Storage) (start : String) : Except ConfigError String :=
  findRootFrom storage start (start.length + 2) start

def readConfig (storage : Storage) (path : String) : Except ConfigError Config :=
  match storage.readText path with
  | .error fault => .error (.unreadable fault)
  | .ok text => Config.ofText text

/-- Reads the options from a named configuration file, or from the project around a directory. -/
def load (storage : Storage) (config : Option String) (directory : String)
    (overrides : Overrides) : Except ConfigError Options := do
  match config with
  | some path =>
      let path := Path.join directory path
      let root := (Path.parent? path).getD directory
      return ofConfig (← readConfig storage path) root overrides
  | none =>
      let root ← findRoot storage directory
      return ofConfig (← readConfig storage (Path.join root configFileName)) root overrides

end Options

end WebBundle
