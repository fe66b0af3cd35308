import WebBundle.Config.Basic
import WebBundle.Diagnostic.Order
import WebBundle.Text.Substring
import WebBundle.Toml.Reader

/-!
# Reading a configuration

A configuration is read from a TOML document. Unknown fields are ignored, and a known field has to
have its type. What is read is then checked: the first flaw found is the error, in the order
project, entries, file name, extensions, cache groups, assets, worker.
-/

namespace WebBundle.Config

open Toml (partOr?)

def modeOf? (value : Toml) : Option Mode := value.unitName?.bind Mode.ofName?

def scopeOf? (value : Toml) : Option ChunkScope := value.unitName?.bind ChunkScope.ofName?

/-- One specifier or a list of them. -/
def specifiersOf? : Toml → Option (List String)
  | .string value => some [value]
  | value => value.strings?

def entryOf? : String × Toml → Option (String × List String)
  | (name, value) => (specifiersOf? value).map (name, ·)

/-- The entries in the order of their names. A moment is a table with one field. -/
def entriesOf? : Toml → Option (List (String × List String))
  | .table fields =>
      (fields.mapM entryOf?).map fun entries =>
        entries.mergeSort fun a b => textLe a.1.toList b.1.toList
  | .moment text => some [(Toml.momentField, [text])]
  | _ => none

/-- A test is a table with a single key that names its kind. -/
def testOf? : Toml → Option ModuleTest
  | .table [(kind, value)] =>
      if kind = "packages" then value.strings?.map .packages
      else if kind = "contains" then value.strings?.map .contains
      else if kind = "directory" then value.string?.map .directory
      else if kind = "regex" then value.string?.map .regex
      else none
  | _ => none

def cacheGroupOf? (value : Toml) : Option CacheGroup := do
  match ← value.parts? ["name", "test", "chunks", "priority", "enforce"] with
  | [some name, some test, scope, priority, enforce] =>
      let name ← name.string?
      let test ← testOf? test
      let scope ← partOr? .all scopeOf? scope
      let priority ← partOr? 0 (Toml.integerIn? (-0x80000000) 0x80000000) priority
      let enforce ← partOr? false Toml.bool? enforce
      return { name, test, scope, priority, enforce }
  | _ => none

def listOf? {α : Type} (read : Toml → Option α) : Toml → Option (List α)
  | .array items => items.mapM read
  | _ => none

def assetOf? (value : Toml) : Option AssetMapping := do
  match ← value.parts? ["from", "to", "ignore"] with
  | [some source, target, ignore] =>
      let source ← source.string?
      let target ← partOr? "." Toml.string? target
      let ignore ← partOr? [] Toml.strings? ignore
      return { source, target, ignore }
  | _ => none

def resolveOf? (value : Toml) : Option ResolveSettings := do
  let default : ResolveSettings := {}
  match ← value.parts? ["modules", "extensions"] with
  | [modules, extensions] =>
      let modules ← partOr? default.modules Toml.strings? modules
      let extensions ← partOr? default.extensions Toml.strings? extensions
      return { modules, extensions }
  | _ => none

def outputOf? (value : Toml) : Option OutputSettings := do
  let default : OutputSettings := {}
  match ← value.parts? ["path", "filename", "public_path", "clean"] with
  | [path, fileName, publicPath, clean] =>
      let path ← partOr? default.path Toml.string? path
      let fileName ← partOr? default.fileName Toml.string? fileName
      let publicPath ← partOr? default.publicPath Toml.string? publicPath
      let clean ← partOr? default.clean Toml.bool? clean
      return { path, fileName, publicPath, clean }
  | _ => none

def optimizationOf? (value : Toml) : Option OptimizationSettings := do
  match ← value.parts? ["min_size", "max_initial_requests", "minimize"] with
  | [minSize, maxInitialRequests, minimize] =>
      let minSize ← partOr? 0 (Toml.natBelow? UInt64.size) minSize
      let maxInitialRequests ←
        partOr? none (fun v => (Toml.natBelow? UInt64.size v).map some) maxInitialRequests
      let minimize ← partOr? none (fun v => v.bool?.map some) minimize
      return { minSize, maxInitialRequests, minimize }
  | _ => none

def htmlOf? (value : Toml) : Option HtmlSettings := do
  let default : HtmlSettings := {}
  match ← value.parts? ["template", "filename"] with
  | [template, fileName] =>
      let template ← partOr? none (fun v => v.string?.map some) template
      let fileName ← partOr? default.fileName Toml.string? fileName
      return { template, fileName }
  | _ => none

def workerOf? (value : Toml) : Option WorkerSettings := do
  let default : WorkerSettings := { source := "" }
  match ← value.parts? ["src", "dest", "marker", "exclude", "maximum_file_size"] with
  | [some source, target, marker, exclude, sizeLimit] =>
      let source ← source.string?
      let target ← partOr? default.target Toml.string? target
      let marker ← partOr? default.marker Toml.string? marker
      let exclude ← partOr? default.exclude Toml.strings? exclude
      let sizeLimit ← partOr? default.sizeLimit (Toml.natBelow? UInt64.size) sizeLimit
      return { source, target, marker, exclude, sizeLimit }
  | _ => none

def serverOf? (value : Toml) : Option ServerSettings := do
  let default : ServerSettings := {}
  match ← value.parts? ["host", "port", "history_fallback"] with
  | [host, port, historyFallback] =>
      let host ← partOr? default.host Toml.string? host
      let port ← partOr? default.port (Toml.natBelow? UInt16.size) port
      let historyFallback ← partOr? default.historyFallback Toml.bool? historyFallback
      return { host, port, historyFallback }
  | _ => none

def projectOf? (value : Toml) : Option (String × Mode) := do
  match ← value.parts? ["name", "mode"] with
  | [some name, mode] => return (← name.string?, ← partOr? .production modeOf? mode)
  | _ => none

def sections : List String :=
  ["project", "entry", "resolve", "output", "optimization", "cache_groups", "assets", "html",
   "worker", "server"]

def ofToml? (value : Toml) : Option Config := do
  match ← value.parts? sections with
  | [some project, entries, resolve, output, optimization, cacheGroups, assets, html, worker,
      server] =>
      let (name, mode) ← projectOf? project
      let entries ← partOr? [] entriesOf? entries
      let resolve ← partOr? {} resolveOf? resolve
      let output ← partOr? {} outputOf? output
      let optimization ← partOr? {} optimizationOf? optimization
      let cacheGroups ← partOr? [] (listOf? cacheGroupOf?) cacheGroups
      let assets ← partOr? [] (listOf? assetOf?) assets
      let html ← partOr? {} htmlOf? html
      let worker ← partOr? none (fun v => (workerOf? v).map some) worker
      let server ← partOr? {} serverOf? server
      return { name, mode, entries, resolve, output, optimization, cacheGroups, assets, html,
               worker, server }
  | _ => none

/-- A test that lists nothing, or something empty. -/
def isEmptyTest : ModuleTest → Bool
  | .packages names => names.isEmpty || names.any String.isEmpty
  | .contains parts => parts.isEmpty || parts.any String.isEmpty
  | .directory name => name.isEmpty
  | .regex pattern => pattern.isEmpty

/-- Checks cache groups behind chunk names that are already taken. -/
def checkGroups (taken : List String) : List CacheGroup → Except ConfigError Unit
  | [] => .ok ()
  | group :: groups =>
      if group.name.isEmpty then .error (.missingField "cache_groups.name")
      else if group.name = runtimeName || taken.contains group.name then
        .error (.invalid (.groupNameTaken group.name))
      else if isEmptyTest group.test then .error (.invalid (.emptyTest group.name))
      else checkGroups (group.name :: taken) groups

def checkEntries : List (String × List String) → Except ConfigError Unit
  | [] => .ok ()
  | (name, specifiers) :: entries =>
      if specifiers.isEmpty then .error (.invalid (.emptyEntry name)) else checkEntries entries

def checkWorker : Option WorkerSettings → Except ConfigError Unit
  | none => .ok ()
  | some worker =>
      if worker.source.isEmpty then .error (.missingField "worker.src")
      else if worker.marker.isEmpty then .error (.missingField "worker.marker")
      else .ok ()

/-- Fails with an error where a condition does not hold. -/
def require (condition : Bool) (error : ConfigError) : Except ConfigError Unit :=
  if condition then .ok () else .error error

def check (config : Config) : Except ConfigError Unit := do
  require (!config.name.isEmpty) (.missingField "project.name")
  require (!config.entries.isEmpty) (.missingField "entry")
  checkEntries config.entries
  require (Text.hasPart "[name]".toList config.output.fileName.toList)
    (.invalid (.fileNameWithoutName config.output.fileName))
  require (config.resolve.extensions.all fun e => e.toList.head? = some '.')
    (.invalid .extensionWithoutDot)
  require (!(config.entries.any fun entry => entry.1 = runtimeName)) (.invalid .reservedEntryName)
  checkGroups (config.entries.map Prod.fst) config.cacheGroups
  require (config.assets.all fun mapping => !mapping.source.isEmpty) (.missingField "assets.from")
  checkWorker config.worker

/-- Reads and checks a configuration. -/
def ofText (text : String) : Except ConfigError Config :=
  match (Toml.parse? text).bind ofToml? with
  | none => .error .malformed
  | some config =>
      match config.check with
      | .ok () => .ok config
      | .error error => .error error

end WebBundle.Config
