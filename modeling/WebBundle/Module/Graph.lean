import WebBundle.Arena
import WebBundle.Digest.Content
import WebBundle.Import.Statement
import WebBundle.Path.Resource

/-!
# Module graphs

The modules of a project, numbered in the order in which they are found, with the imports between
them. A module is identified by its resource path, so two spellings of one path are one module. It
keeps its imports in source order and the modules that import it in the order in which they first
did. The entries of the graph are named lists of modules.
-/

namespace WebBundle

/-- An import whose specifier was resolved to a module. -/
structure Dependency where
  target : Nat
  timing : Import.Timing
  specifier : String
  deriving DecidableEq, Repr

/-- A source file. `resource` is its resource path, at which it is read, and `name` is its path
below the project root. -/
structure Module where
  id : Nat
  resource : String
  name : String
  content : ByteArray := .empty
  dependencies : List Dependency := []
  importers : List Nat := []

namespace Module

def isScript (module : Module) : Bool := Path.isScript module.resource

/-- The name by which the module is known in written chunks. It depends on the path alone. -/
def key (module : Module) : String := (ContentDigest.ofBytes module.name.toUTF8).short 8

def size (module : Module) : Nat := module.content.size

end Module

/-- A list of modules that is started under a name. -/
structure Entry where
  name : String
  modules : List Nat
  deriving DecidableEq, Repr

/-- `index` holds the number of every module under its resource path. -/
structure ModuleGraph where
  root : String
  modules : Arena Module
  entries : List Entry
  index : List (String × Nat) := modules.toList.map fun module => (module.resource, module.id)

namespace ModuleGraph

def empty (root : String) : ModuleGraph := ⟨root, .empty, [], []⟩

def size (graph : ModuleGraph) : Nat := graph.modules.size

def module? (graph : ModuleGraph) (id : Nat) : Option Module := graph.modules.get? id

/-- The module of a resource path. -/
def withResource? (graph : ModuleGraph) (resource : String) : Option Nat :=
  graph.index.lookup resource

/-- The module at a path, whatever its spelling. -/
def find? (graph : ModuleGraph) (path : String) : Option Nat :=
  graph.withResource? (Path.normalize path)

/-- The first module of a name. -/
def findByName? (graph : ModuleGraph) (name : String) : Option Nat :=
  (graph.modules.toList.find? fun module => module.name = name).map (·.id)

/-- The number of the module at a path. A path that is new gets an empty module; the answer says
whether it did. -/
def intern (graph : ModuleGraph) (path : String) : (Nat × Bool) × ModuleGraph :=
  match graph.find? path with
  | some id => ((id, false), graph)
  | none =>
      let resource := Path.normalize path
      let (id, modules) := graph.modules.alloc
        { id := graph.modules.next, resource, name := Path.relativeTo graph.root path }
      ((id, true), { graph with modules, index := graph.index ++ [(resource, id)] })

def setContent (graph : ModuleGraph) (id : Nat) (content : ByteArray) : ModuleGraph :=
  { graph with modules := graph.modules.modify id fun module => { module with content } }

/-- Adds a module, or gives new content to the one at that path. -/
def addModule (graph : ModuleGraph) (path : String) (content : ByteArray) : Nat × ModuleGraph :=
  let ((id, _), graph) := graph.intern path
  (id, graph.setContent id content)

/-- The imports of a module, none for a number without a module. -/
def dependencies (graph : ModuleGraph) (id : Nat) : List Dependency :=
  match graph.module? id with
  | some module => module.dependencies
  | none => []

/-- The targets of the imports of one timing, in source order. -/
def targets (graph : ModuleGraph) (timing : Import.Timing) (id : Nat) : List Nat :=
  (graph.dependencies id).filterMap fun dependency =>
    if dependency.timing = timing then some dependency.target else none

def withDependency (dependency : Dependency) (module : Module) : Module :=
  { module with dependencies := module.dependencies ++ [dependency] }

def withImporter (id : Nat) (module : Module) : Module :=
  if id ∈ module.importers then module
  else { module with importers := module.importers ++ [id] }

/-- Adds an import to a module. An import that the module has already is not added again; two
specifiers of one target are two imports, because written chunks look imports up by specifier. -/
def addDependency (graph : ModuleGraph) (source : Nat) (dependency : Dependency) : ModuleGraph :=
  match graph.module? source with
  | none => graph
  | some module =>
      if dependency ∈ module.dependencies then graph
      else
        let modules := graph.modules.modify source (withDependency dependency)
        { graph with modules := modules.modify dependency.target (withImporter source) }

/-- Fails at the first number without a module that adding an import meets: the importing module,
or the target of an import that is new. -/
def checkDependency (graph : ModuleGraph) (source : Nat) (dependency : Dependency) :
    Except Unallocated Unit := do
  let module ← graph.modules.get source
  if dependency ∈ module.dependencies then return
  let _ ← graph.modules.get dependency.target

def addEntry (graph : ModuleGraph) (name : String) (modules : List Nat) : ModuleGraph :=
  { graph with entries := graph.entries ++ [⟨name, modules⟩] }

theorem size_addDependency (graph : ModuleGraph) (source : Nat) (dependency : Dependency) :
    (graph.addDependency source dependency).size = graph.size := by
  unfold addDependency
  split
  · rfl
  · split
    · rfl
    · simp [size, Arena.size_modify]

theorem dependencies_of_size_le {graph : ModuleGraph} {id : Nat} (h : graph.size ≤ id) :
    graph.dependencies id = [] := by
  have none : graph.module? id = none := by
    simpa [module?, Arena.get?, size, Arena.size] using h
  simp [dependencies, none]

theorem targets_of_size_le {graph : ModuleGraph} {timing : Import.Timing} {id : Nat}
    (h : graph.size ≤ id) : graph.targets timing id = [] := by
  simp [targets, dependencies_of_size_le h]

end ModuleGraph

end WebBundle
