import WebBundle.Module.Graph
import WebBundle.Proofs.Path.Canonical

/-!
# The numbers and the index of a module graph

A module knows its own number: it is the place at which the arena keeps it. Every graph that is
built from the empty one is like this, because only a new module gets a number and no operation
changes one.

The index leads from every resource path to the module that has it, and to nothing else. It is kept
beside the modules and only ever grows together with them, so looking a path up gives the module
with its resource path, and a path is new exactly if there is none.
-/

namespace WebBundle

/-- What tells the file of a module. -/
def Module.file (module : Module) : Module where
  id := module.id
  resource := module.resource
  name := module.name

namespace ModuleGraph

/-- The graphs that the operations on graphs build. -/
inductive Built : ModuleGraph → Prop where
  | empty (root : String) : Built (.empty root)
  | intern {graph : ModuleGraph} (built : Built graph) (path : String) : Built (graph.intern path).2
  | setContent {graph : ModuleGraph} (built : Built graph) (id : Nat) (content : ByteArray) :
      Built (graph.setContent id content)
  | addModule {graph : ModuleGraph} (built : Built graph) (path : String) (content : ByteArray) :
      Built (graph.addModule path content).2
  | addDependency {graph : ModuleGraph} (built : Built graph) (source : Nat)
      (dependency : Dependency) : Built (graph.addDependency source dependency)
  | addEntry {graph : ModuleGraph} (built : Built graph) (name : String) (modules : List Nat) :
      Built (graph.addEntry name modules)

variable {graph : ModuleGraph} {path : String}

/-! ## What the operations do to modules -/

theorem root_intern (graph : ModuleGraph) (path : String) :
    (graph.intern path).2.root = graph.root := by
  unfold intern
  split <;> rfl

theorem root_addDependency (graph : ModuleGraph) (source : Nat) (dependency : Dependency) :
    (graph.addDependency source dependency).root = graph.root := by
  unfold addDependency
  split
  next => rfl
  next => split <;> rfl

theorem module?_modify (graph : ModuleGraph) (place : Nat) (change : Module → Module) (id : Nat) :
    module? { graph with modules := graph.modules.modify place change } id =
      if place = id then (graph.module? id).map change else graph.module? id := by
  simp only [module?, Arena.get?, Arena.modify, Array.getElem?_modify]

theorem lt_size_iff {id : Nat} : id < graph.size ↔ ∃ module, graph.module? id = some module := by
  rw [← Option.isSome_iff_exists, module?, Arena.get?, isSome_getElem?]
  rfl

/-- The module that a new path gets. -/
def newModule (graph : ModuleGraph) (path : String) : Module where
  id := graph.size
  resource := Path.normalize path
  name := Path.relativeTo graph.root path

theorem intern_of_some {id : Nat} (known : graph.find? path = some id) :
    graph.intern path = ((id, false), graph) := by
  rw [intern, known]

theorem intern_of_none (new : graph.find? path = none) :
    graph.intern path = ((graph.size, true),
      { graph with
        modules := (graph.modules.alloc (graph.newModule path)).2
        index := graph.index ++ [(Path.normalize path, graph.size)] }) := by
  rw [intern, new]
  rfl

theorem module?_intern_of_none (new : graph.find? path = none) (id : Nat) :
    (graph.intern path).2.module? id =
      if id = graph.size then some (graph.newModule path) else graph.module? id := by
  rw [intern_of_none new]
  simp only [module?, Arena.get?, Arena.alloc, Array.getElem?_push]
  rfl

/-- Interning keeps the modules that there are. -/
theorem module?_intern {id : Nat} {module : Module} (found : graph.module? id = some module) :
    (graph.intern path).2.module? id = some module := by
  cases known : graph.find? path with
  | some other =>
      rw [intern_of_some known]
      exact found
  | none =>
      have below : id < graph.size := lt_size_iff.2 ⟨module, found⟩
      rw [module?_intern_of_none known, if_neg (Nat.ne_of_lt below)]
      exact found

/-! ## Files of modules -/

theorem file_withImporter (module : Module) (importer : Nat) :
    (withImporter importer module).file = module.file := by
  unfold withImporter
  split <;> rfl

/-- The root, the number of a module and what tells its file satisfy a relation. -/
def FilesSatisfy (relates : String → Nat → Module → Prop) (graph : ModuleGraph) : Prop :=
  ∀ id module, graph.module? id = some module → relates graph.root id module.file

section

variable {relates : String → Nat → Module → Prop}

/-- Changing a module without its file changes no files. -/
theorem FilesSatisfy.modify (files : graph.FilesSatisfy relates) (place : Nat)
    {change : Module → Module} (keeps : ∀ module, (change module).file = module.file) :
    FilesSatisfy relates { graph with modules := graph.modules.modify place change } := by
  intro id module found
  rw [module?_modify] at found
  split at found
  next =>
    obtain ⟨before, stands, rfl⟩ := Option.map_eq_some_iff.1 found
    rw [keeps]
    exact files id before stands
  next => exact files id module found

theorem FilesSatisfy.intern (files : graph.FilesSatisfy relates)
    (fresh : relates graph.root graph.size (graph.newModule path)) :
    (graph.intern path).2.FilesSatisfy relates := by
  intro id module found
  rw [root_intern]
  cases known : graph.find? path with
  | some other =>
      rw [intern_of_some known] at found
      exact files id module found
  | none =>
      rw [module?_intern_of_none known] at found
      split at found
      next last =>
        obtain rfl := Option.some.inj found
        rw [last]
        exact fresh
      next => exact files id module found

theorem FilesSatisfy.addDependency (files : graph.FilesSatisfy relates) (source : Nat)
    (dependency : Dependency) : (graph.addDependency source dependency).FilesSatisfy relates := by
  unfold ModuleGraph.addDependency
  split
  next => exact files
  next =>
    split
    next => exact files
    next =>
      have changed : FilesSatisfy relates { graph with
          modules := graph.modules.modify source (withDependency dependency) } :=
        files.modify source fun _ => rfl
      exact changed.modify dependency.target fun module => file_withImporter module source

/-- What holds of every new module holds of all of them. -/
theorem Built.filesSatisfy (built : graph.Built)
    (fresh : ∀ (graph : ModuleGraph) (path : String),
      relates graph.root graph.size (graph.newModule path)) : graph.FilesSatisfy relates := by
  induction built with
  | empty root =>
      intro id module found
      simp [ModuleGraph.empty, module?, Arena.get?, Arena.empty] at found
  | intern _ path ih => exact ih.intern (fresh _ path)
  | setContent _ id content ih => exact ih.modify id fun _ => rfl
  | addModule _ path content ih => exact (ih.intern (fresh _ path)).modify _ fun _ => rfl
  | addDependency _ source dependency ih => exact ih.addDependency source dependency
  | addEntry _ _ _ ih => exact ih

end

/-- Every module has the number of its place. -/
def Numbered (graph : ModuleGraph) : Prop :=
  ∀ id module, graph.module? id = some module → module.id = id

theorem Built.numbered (built : graph.Built) : graph.Numbered := by
  have files : graph.FilesSatisfy fun _ id file => file.id = id :=
    built.filesSatisfy fun _ _ => rfl
  exact files

/-! ## The index -/

theorem withResource?_intern_of_none (new : graph.find? path = none) (resource : String) :
    (graph.intern path).2.withResource? resource =
      if resource = Path.normalize path then some graph.size else graph.withResource? resource := by
  rw [intern_of_none new, withResource?, List.lookup_append, List.lookup_cons, List.lookup_nil]
  by_cases isNew : resource = Path.normalize path
  · have fresh : graph.index.lookup (Path.normalize path) = none := new
    simp [isNew, fresh]
  · have differs : (resource == Path.normalize path) = false := beq_false_of_ne isNew
    rw [differs, if_neg isNew]
    exact Option.or_none

/-- The index holds the number of every module under its resource path, which is canonical. -/
structure Indexed (graph : ModuleGraph) : Prop where
  withResource?_iff (resource : String) (id : Nat) : graph.withResource? resource = some id ↔
    ∃ module, graph.module? id = some module ∧ module.resource = resource
  canonical (id : Nat) (module : Module) (found : graph.module? id = some module) :
    Path.normalize module.resource = module.resource

namespace Indexed

theorem empty (root : String) : Indexed (.empty root) where
  withResource?_iff resource id := by
    simp [withResource?, ModuleGraph.empty, module?, Arena.get?, Arena.empty]
  canonical id module found := by
    simp [ModuleGraph.empty, module?, Arena.get?, Arena.empty] at found

/-- A change that keeps the resource paths keeps a graph indexed. -/
theorem modify (indexed : graph.Indexed) (place : Nat) {change : Module → Module}
    (keeps : ∀ module, (change module).resource = module.resource) :
    Indexed { graph with modules := graph.modules.modify place change } where
  withResource?_iff resource id := by
    rw [show withResource? { graph with modules := graph.modules.modify place change } resource =
      graph.withResource? resource from rfl, indexed.withResource?_iff, module?_modify]
    split
    next => simp [keeps]
    next => rfl
  canonical id module found := by
    rw [module?_modify] at found
    split at found
    next =>
      obtain ⟨before, stands, rfl⟩ := Option.map_eq_some_iff.1 found
      rw [keeps]
      exact indexed.canonical id before stands
    next => exact indexed.canonical id module found

theorem find?_iff (indexed : graph.Indexed) {id : Nat} : graph.find? path = some id ↔
    ∃ module, graph.module? id = some module ∧ module.resource = Path.normalize path :=
  indexed.withResource?_iff (Path.normalize path) id

/-- Two modules with one resource path are the same. -/
theorem eq_of_resource_eq (indexed : graph.Indexed) {id other : Nat} {module module' : Module}
    (found : graph.module? id = some module) (found' : graph.module? other = some module')
    (same : module.resource = module'.resource) : id = other := by
  have first := (indexed.withResource?_iff module'.resource id).2 ⟨module, found, same⟩
  have second := (indexed.withResource?_iff module'.resource other).2 ⟨module', found', rfl⟩
  exact Option.some.inj (first.symm.trans second)

theorem intern (indexed : graph.Indexed) (path : String) : (graph.intern path).2.Indexed := by
  cases known : graph.find? path with
  | some id =>
      rw [intern_of_some known]
      exact indexed
  | none =>
      constructor
      case withResource?_iff =>
        intro resource id
        have before := indexed.withResource?_iff resource id
        rw [withResource?_intern_of_none known, module?_intern_of_none known]
        by_cases last : id = graph.size
        · have free : graph.module? id = none := by
            rw [← Option.not_isSome_iff_eq_none, Option.isSome_iff_exists, ← lt_size_iff]
            exact last ▸ Nat.lt_irrefl _
          rw [free] at before
          by_cases isNew : resource = Path.normalize path
          · simp [last, isNew, newModule]
          · rw [if_neg isNew, if_pos last, before]
            simp [newModule, Ne.symm isNew]
        · rw [if_neg last, ← before]
          by_cases isNew : resource = Path.normalize path
          · have fresh : graph.withResource? resource = none := isNew ▸ known
            rw [if_pos isNew, fresh]
            simp [Ne.symm last]
          · rw [if_neg isNew]
      case canonical =>
        intro id module found
        rw [module?_intern_of_none known] at found
        split at found
        next =>
          obtain rfl := Option.some.inj found
          exact Path.normalize_normalize path
        next => exact indexed.canonical id module found

theorem setContent (indexed : graph.Indexed) (id : Nat) (content : ByteArray) :
    (graph.setContent id content).Indexed :=
  indexed.modify id fun _ => rfl

theorem addDependency (indexed : graph.Indexed) (source : Nat) (dependency : Dependency) :
    (graph.addDependency source dependency).Indexed := by
  unfold ModuleGraph.addDependency
  split
  next => exact indexed
  next =>
    split
    next => exact indexed
    next =>
      have changed : Indexed { graph with
          modules := graph.modules.modify source (withDependency dependency) } :=
        indexed.modify source fun _ => rfl
      refine changed.modify dependency.target fun module => ?_
      unfold withImporter
      split <;> rfl

end Indexed

theorem Built.indexed (built : graph.Built) : graph.Indexed := by
  induction built with
  | empty root => exact .empty root
  | intern _ path ih => exact ih.intern path
  | setContent _ id content ih => exact ih.setContent id content
  | addModule _ path content ih => exact (ih.intern path).setContent _ content
  | addDependency _ source dependency ih => exact ih.addDependency source dependency
  | addEntry _ _ _ ih => exact ⟨ih.withResource?_iff, ih.canonical⟩

/-- A path is interned as the module that has its resource path afterwards. -/
theorem Indexed.intern_iff (indexed : graph.Indexed) {id : Nat} : (graph.intern path).1.1 = id ↔
    ∃ module, (graph.intern path).2.module? id = some module ∧
      module.resource = Path.normalize path := by
  have later := indexed.intern path
  rw [← later.find?_iff]
  cases known : graph.find? path with
  | some other =>
      rw [intern_of_some known, known]
      exact Option.some_inj.symm
  | none =>
      rw [find?, withResource?_intern_of_none known, if_pos rfl, intern_of_none known]
      exact Option.some_inj.symm

end ModuleGraph

end WebBundle
