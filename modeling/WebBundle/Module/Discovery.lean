import WebBundle.Config.Options
import WebBundle.Module.Graph
import WebBundle.Module.Resolve
import WebBundle.Text.Utf8

/-!
# Finding the modules of a project

The entries are resolved first. Then, round by round, the modules that are new are read,
transformed and searched for imports, and their targets are the modules of the next round. Modules
are numbered in the order in which they are met, and the first failure in that order ends the
search.
-/

namespace WebBundle

/-- Changes the content of a module, given its name, or refuses it with a message. -/
abbrev Transform := String → ByteArray → Except String ByteArray

def Transform.identity : Transform := fun _ content => .ok content

inductive DiscoveryError where
  | unresolved (specifier importer : String)
  | unreadable (path : String) (fault : Storage.Fault)
  | refused (name message : String)
  | tooManyModules
  deriving DecidableEq, Repr

def DiscoveryError.message : DiscoveryError → String
  | .unresolved specifier importer => "cannot resolve '" ++ specifier ++ "' from " ++ importer
  | .unreadable path fault => "cannot read module " ++ path ++ ": " ++ fault.message
  | .refused name message => "transform failed for " ++ name ++ ": " ++ message
  | .tooManyModules => "too many modules"

namespace Discovery

/-- The surroundings of a search. -/
structure Project where
  storage : Storage
  resolver : Resolver
  transform : Transform

/-- An import with the path that its specifier stands for. -/
structure ResolvedImport where
  timing : Import.Timing
  specifier : String
  path : String

structure Loaded where
  content : ByteArray
  imports : List ResolvedImport

def resolveImport (project : Project) (directory importer : String)
    (statement : Import.Statement) : Except DiscoveryError ResolvedImport :=
  match project.resolver.resolve? project.storage statement.specifier directory with
  | some path => .ok ⟨statement.timing, statement.specifier, path⟩
  | none => .error (.unresolved statement.specifier importer)

/-- The imports of some content. Only scripts have any. -/
def importsOf (project : Project) (module : Module) (content : ByteArray) :
    Except DiscoveryError (List ResolvedImport) :=
  if module.isScript then
    let directory := (Path.parent? module.resource).getD "/"
    (Import.scan (Text.Utf8.lenient content)).mapM (resolveImport project directory module.name)
  else .ok []

/-- Reads, transforms and searches a module. -/
def loadModule (project : Project) (module : Module) : Except DiscoveryError Loaded :=
  match project.storage.read module.resource with
  | .error fault => .error (.unreadable module.resource fault)
  | .ok source =>
      match project.transform module.name source with
      | .error message => .error (.refused module.name message)
      | .ok content =>
          match importsOf project module content with
          | .error error => .error error
          | .ok imports => .ok ⟨content, imports⟩

/-- A graph with the modules that are still to be read, in the order in which they were met. -/
structure Search where
  graph : ModuleGraph
  frontier : List Nat

/-- Notes the module at a path, which is to be read if it is new. -/
def Search.meet (search : Search) (path : String) : Nat × Search :=
  let ((id, new), graph) := search.graph.intern path
  (id, ⟨graph, if new then search.frontier ++ [id] else search.frontier⟩)

/-- Adds an import of a module. -/
def Search.addImport (source : Nat) (search : Search) (found : ResolvedImport) : Search :=
  let (target, search) := search.meet found.path
  { search with
    graph := search.graph.addDependency source ⟨target, found.timing, found.specifier⟩ }

/-- Adds the content and the imports of a module. -/
def Search.merge (search : Search) (source : Nat) (loaded : Loaded) : Search :=
  loaded.imports.foldl (Search.addImport source)
    { search with graph := search.graph.setContent source loaded.content }

/-- Meets the modules of an entry. A module that is listed twice is started once. -/
def resolveEntry (project : Project) (root name : String) :
    (specifiers : List String) → Search → (modules : List Nat) →
      Except DiscoveryError (List Nat × Search)
  | [], search, modules => .ok (modules, search)
  | specifier :: specifiers, search, modules =>
      match project.resolver.resolve? project.storage specifier root with
      | none => .error (.unresolved specifier ("entry '" ++ name ++ "'"))
      | some path =>
          let (id, search) := search.meet path
          resolveEntry project root name specifiers search
            (if id ∈ modules then modules else modules ++ [id])

def resolveEntries (project : Project) (root : String) :
    (entries : List (String × List String)) → Search → Except DiscoveryError Search
  | [], search => .ok search
  | (name, specifiers) :: entries, search =>
      match resolveEntry project root name specifiers search [] with
      | .error error => .error error
      | .ok (modules, search) =>
          resolveEntries project root entries
            { search with graph := search.graph.addEntry name modules }

/-- Loads the modules of a round and adds them to the search one after the other. -/
def round (project : Project) (sources : List Nat) (search : Search) :
    Except DiscoveryError Search := do
  let loaded ← (sources.filterMap search.graph.module?).mapM fun module => do
    return (module.id, ← loadModule project module)
  return loaded.foldl (fun search (source, loaded) => search.merge source loaded)
    { search with frontier := [] }

/-- Goes on until a round meets no new module. -/
def rounds (project : Project) : (fuel : Nat) → Search → Except DiscoveryError ModuleGraph
  | 0, _ => .error .tooManyModules
  | fuel + 1, search =>
      if search.frontier.isEmpty then .ok search.graph
      else
        match round project search.frontier search with
        | .error error => .error error
        | .ok search => rounds project fuel search

/-- Modules are numbered with 32 bits. Every round but the last meets a module, so a search with
more rounds could not number what it meets. -/
def moduleBound : Nat := UInt32.size

def project (storage : Storage) (options : Options) (transform : Transform) : Project :=
  ⟨storage, ⟨options.searchPaths, options.extensions⟩, transform⟩

/-- The module graph that the entries of a project reach. -/
def moduleGraph (storage : Storage) (options : Options) (transform : Transform) :
    Except DiscoveryError ModuleGraph :=
  let project := project storage options transform
  match resolveEntries project options.root options.entries ⟨.empty options.root, []⟩ with
  | .error error => .error error
  | .ok search => rounds project (moduleBound + 1) search

end Discovery

end WebBundle
