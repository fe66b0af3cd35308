import WebBundle.Proofs.Module.Indexed
import WebBundle.Proofs.Places

/-!
# Module graphs and their history

What a module graph holds is read off the operations that built it. The imports of a module are
those that were added to it, each at its first place, and the modules that import it are the sources
of the imports that were added for it, each at its first place. So both lists only grow at their
end, and neither repeats anything.
-/

namespace WebBundle

/-! ## Lists without repetitions -/

/-- Adds an item at the end of a list that does not have it. -/
def withNew {α : Type} [DecidableEq α] (items : List α) (item : α) : List α :=
  if item ∈ items then items else items ++ [item]

theorem mem_withNew {α : Type} [DecidableEq α] {items : List α} {item other : α} :
    other ∈ withNew items item ↔ other ∈ items ∨ other = item := by
  unfold withNew
  split
  next known => exact ⟨.inl, fun either => either.elim id fun same => same ▸ known⟩
  next => rw [List.mem_append, List.mem_singleton]

theorem subset_withNew {α : Type} [DecidableEq α] (items : List α) (item : α) :
    items ⊆ withNew items item :=
  fun _ member => mem_withNew.2 (.inl member)

theorem eraseDups_concat {α : Type} [DecidableEq α] (items : List α) (item : α) :
    (items ++ [item]).eraseDups = withNew items.eraseDups item := by
  simp only [eraseDups_append_singleton, withNew, List.mem_eraseDups]

theorem eraseDups_prefix {α : Type} [DecidableEq α] (items others : List α) :
    items.eraseDups <+: (items ++ others).eraseDups := by
  rw [List.eraseDups_append]
  exact List.prefix_append _ _

namespace ModuleGraph

variable {graph : ModuleGraph}

/-! ## Lists of a module -/

/-- The modules that import a module, none for a number without a module. -/
def importers (graph : ModuleGraph) (id : Nat) : List Nat :=
  ((graph.module? id).map (·.importers)).getD []

theorem dependencies_eq (id : Nat) :
    graph.dependencies id = ((graph.module? id).map (·.dependencies)).getD [] := by
  unfold dependencies
  cases graph.module? id with
  | none => rfl
  | some module => rfl

theorem dependencies_of_some {id : Nat} {module : Module} (found : graph.module? id = some module) :
    graph.dependencies id = module.dependencies := by
  rw [dependencies_eq, found]
  rfl

section

variable {β : Type} (read : Module → List β)

/-- What is empty in a new module is not changed by interning. -/
theorem list_intern {path : String} (fresh : read (graph.newModule path) = []) (id : Nat) :
    (((graph.intern path).2.module? id).map read).getD [] =
      ((graph.module? id).map read).getD [] := by
  cases known : graph.find? path with
  | some other => rw [intern_of_some known]
  | none =>
      rw [module?_intern_of_none known]
      split
      next last =>
        have free : graph.module? id = none := by
          rw [← Option.not_isSome_iff_eq_none, Option.isSome_iff_exists, ← lt_size_iff]
          exact last ▸ Nat.lt_irrefl _
        rw [free, Option.map_some, fresh]
        rfl
      next => rfl

theorem list_modify {place : Nat} {change : Module → Module}
    (keeps : ∀ module, read (change module) = read module) (id : Nat) :
    ((module? { graph with modules := graph.modules.modify place change } id).map read).getD [] =
      ((graph.module? id).map read).getD [] := by
  rw [module?_modify]
  split
  next =>
    rw [Option.map_map, show read ∘ change = read from funext keeps]
  next => rfl

end

theorem addModule_eq (graph : ModuleGraph) (path : String) (content : ByteArray) :
    (graph.addModule path content).2 =
      (graph.intern path).2.setContent (graph.intern path).1.1 content := rfl

theorem dependencies_intern (graph : ModuleGraph) (path : String) (id : Nat) :
    (graph.intern path).2.dependencies id = graph.dependencies id := by
  rw [dependencies_eq, dependencies_eq]
  exact list_intern _ rfl id

theorem importers_intern (graph : ModuleGraph) (path : String) (id : Nat) :
    (graph.intern path).2.importers id = graph.importers id :=
  list_intern _ rfl id

theorem dependencies_setContent (graph : ModuleGraph) (place : Nat) (content : ByteArray)
    (id : Nat) : (graph.setContent place content).dependencies id = graph.dependencies id := by
  rw [dependencies_eq, dependencies_eq, setContent, list_modify]
  exact fun _ => rfl

theorem importers_setContent (graph : ModuleGraph) (place : Nat) (content : ByteArray)
    (id : Nat) : (graph.setContent place content).importers id = graph.importers id := by
  rw [importers, setContent, list_modify, importers]
  exact fun _ => rfl

/-! ## Adding an import -/

section

variable {source : Nat} {dependency : Dependency} {module : Module}

theorem addDependency_of_mem (known : dependency ∈ graph.dependencies source) :
    graph.addDependency source dependency = graph := by
  unfold addDependency
  cases found : graph.module? source with
  | none => rfl
  | some module =>
      rw [dependencies_of_some found] at known
      exact if_pos known

theorem module?_addDependency (allocated : source < graph.size)
    (new : dependency ∉ graph.dependencies source) (id : Nat) :
    (graph.addDependency source dependency).module? id =
      let added := if source = id then (graph.module? id).map (withDependency dependency)
        else graph.module? id
      if dependency.target = id then added.map (withImporter source) else added := by
  obtain ⟨module, found⟩ := lt_size_iff.1 allocated
  rw [dependencies_of_some found] at new
  rw [addDependency, found]
  simp only [new, if_false]
  rw [module?_modify { graph with modules := graph.modules.modify source _ }, module?_modify]

theorem dependencies_addDependency (allocated : source < graph.size) (id : Nat) :
    (graph.addDependency source dependency).dependencies id =
      if source = id then withNew (graph.dependencies id) dependency
      else graph.dependencies id := by
  by_cases known : dependency ∈ graph.dependencies source
  · rw [addDependency_of_mem known]
    split
    next same => rw [withNew, if_pos (same ▸ known)]
    next => rfl
  · have kept : ∀ found : Option Module, ((if dependency.target = id
        then found.map (withImporter source) else found).map (·.dependencies)) =
          found.map (·.dependencies) := by
      intro found
      split
      next =>
        rw [Option.map_map]
        congr 1
        funext module
        simp only [Function.comp, withImporter]
        split <;> rfl
      next => rfl
    rw [dependencies_eq, module?_addDependency allocated known]
    dsimp only
    rw [kept]
    split
    next same =>
      subst same
      obtain ⟨module, found⟩ := lt_size_iff.1 allocated
      rw [dependencies_of_some found] at known ⊢
      rw [found, withNew, if_neg known]
      rfl
    next => exact (dependencies_eq id).symm

theorem importers_addDependency (allocated : source < graph.size)
    (target : dependency.target < graph.size) (new : dependency ∉ graph.dependencies source)
    (id : Nat) :
    (graph.addDependency source dependency).importers id =
      if dependency.target = id then withNew (graph.importers id) source
      else graph.importers id := by
  have kept : ((if source = id then (graph.module? id).map (withDependency dependency)
      else graph.module? id).map (·.importers)) = (graph.module? id).map (·.importers) := by
    split
    next =>
      rw [Option.map_map]
      rfl
    next => rfl
  rw [importers, module?_addDependency allocated new]
  dsimp only
  split
  next same =>
    subst same
    obtain ⟨module, found⟩ := lt_size_iff.1 target
    have later : ∃ other, (if source = dependency.target
        then (graph.module? dependency.target).map (withDependency dependency)
        else graph.module? dependency.target) = some other := by
      rw [found]
      split
      next => exact ⟨_, rfl⟩
      next => exact ⟨module, rfl⟩
    obtain ⟨other, later⟩ := later
    rw [later, found] at kept
    have same : other.importers = module.importers := Option.some.inj kept
    rw [later, importers, found]
    simp only [Option.map_some, Option.getD_some, withImporter, withNew, ← same]
    split <;> rfl
  next => rw [kept, importers]

end

/-! ## Operations -/

/-- What is done to a module graph. -/
inductive Operation where
  | intern (path : String)
  | addModule (path : String) (content : ByteArray)
  | addDependency (source : Nat) (dependency : Dependency)
  | addEntry (name : String) (modules : List Nat)

namespace Operation

def apply (graph : ModuleGraph) : Operation → ModuleGraph
  | .intern path => (graph.intern path).2
  | .addModule path content => (graph.addModule path content).2
  | .addDependency source dependency => graph.addDependency source dependency
  | .addEntry name modules => graph.addEntry name modules

/-- Imports are added between modules that there are. -/
def Allowed (graph : ModuleGraph) : Operation → Prop
  | .addDependency source dependency => source < graph.size ∧ dependency.target < graph.size
  | _ => True

/-- The import that is added to a module. -/
def dependencyOf? (id : Nat) : Operation → Option Dependency
  | .addDependency source dependency => if source = id then some dependency else none
  | _ => none

/-- The module for which an import of a module is added. -/
def importerOf? (id : Nat) : Operation → Option Nat
  | .addDependency source dependency => if dependency.target = id then some source else none
  | _ => none

end Operation

theorem dependencies_apply {operation : Operation} (allowed : operation.Allowed graph) (id : Nat) :
    (operation.apply graph).dependencies id =
      (operation.dependencyOf? id).elim (graph.dependencies id)
        (withNew (graph.dependencies id)) := by
  cases operation with
  | intern path => exact dependencies_intern graph path id
  | addModule path content =>
      rw [Operation.apply, addModule_eq, dependencies_setContent, dependencies_intern]
      rfl
  | addDependency source dependency =>
      rw [Operation.apply, dependencies_addDependency allowed.1, Operation.dependencyOf?]
      split <;> rfl
  | addEntry name modules => rfl

/-- The importers change with every import that the importing module does not have yet. -/
theorem importers_apply {operation : Operation} (allowed : operation.Allowed graph) (id : Nat)
    (new : ∀ source dependency, operation = .addDependency source dependency →
      dependency ∉ graph.dependencies source) :
    (operation.apply graph).importers id =
      (operation.importerOf? id).elim (graph.importers id) (withNew (graph.importers id)) := by
  cases operation with
  | intern path => exact importers_intern graph path id
  | addModule path content =>
      rw [Operation.apply, addModule_eq, importers_setContent, importers_intern]
      rfl
  | addDependency source dependency =>
      rw [Operation.apply, importers_addDependency allowed.1 allowed.2 (new _ _ rfl),
        Operation.importerOf?]
      split <;> rfl
  | addEntry name modules => rfl

/-! ## Histories -/

/-- A graph and the operations that built it. -/
inductive History (root : String) : List Operation → ModuleGraph → Prop where
  | start : History root [] (.empty root)
  | next {operations : List Operation} {graph : ModuleGraph} (operation : Operation)
      (history : History root operations graph) (allowed : operation.Allowed graph) :
      History root (operations ++ [operation]) (operation.apply graph)

namespace History

variable {root : String} {operations : List Operation} {id source : Nat}

theorem built (history : History root operations graph) : graph.Built := by
  induction history with
  | start => exact .empty root
  | next operation _ _ ih =>
      cases operation with
      | intern path => exact ih.intern path
      | addModule path content => exact ih.addModule path content
      | addDependency source dependency => exact ih.addDependency source dependency
      | addEntry name modules => exact ih.addEntry name modules

/-- The imports of a module are those that were added to it, each at its first place. -/
theorem dependencies_eq (history : History root operations graph) :
    graph.dependencies id = (operations.filterMap (Operation.dependencyOf? id)).eraseDups := by
  induction history with
  | start => simp [dependencies, ModuleGraph.empty, module?, Arena.get?, Arena.empty]
  | next operation _ allowed ih =>
      rw [dependencies_apply allowed, ih, List.filterMap_append]
      cases added : operation.dependencyOf? id with
      | none => simp [added]
      | some dependency => simp [added, eraseDups_concat]

theorem mem_dependencies (history : History root operations graph) {dependency : Dependency} :
    dependency ∈ graph.dependencies source ↔
      Operation.addDependency source dependency ∈ operations := by
  rw [history.dependencies_eq, List.mem_eraseDups, List.mem_filterMap]
  constructor
  · rintro ⟨operation, listed, added⟩
    cases operation with
    | addDependency other found =>
        by_cases same : other = source
        · subst same
          obtain rfl : found = dependency := by simpa [Operation.dependencyOf?] using added
          exact listed
        · simp [Operation.dependencyOf?, same] at added
    | _ => cases added
  · exact fun listed => ⟨_, listed, by simp [Operation.dependencyOf?]⟩

theorem mem_filterMap_importerOf? : source ∈ operations.filterMap (Operation.importerOf? id) ↔
    ∃ dependency, Operation.addDependency source dependency ∈ operations ∧
      dependency.target = id := by
  rw [List.mem_filterMap]
  constructor
  · rintro ⟨operation, listed, added⟩
    cases operation with
    | addDependency other dependency =>
        by_cases same : dependency.target = id
        · obtain rfl : other = source := by simpa [Operation.importerOf?, same] using added
          exact ⟨dependency, listed, same⟩
        · simp [Operation.importerOf?, same] at added
    | _ => cases added
  · rintro ⟨dependency, listed, same⟩
    exact ⟨_, listed, by simp [Operation.importerOf?, same]⟩

/-- The importers of a module are the sources of the imports that were added for it, each at its
first place. -/
theorem importers_eq (history : History root operations graph) :
    graph.importers id = (operations.filterMap (Operation.importerOf? id)).eraseDups := by
  induction history with
  | start => simp [importers, ModuleGraph.empty, module?, Arena.get?, Arena.empty]
  | @next operations graph operation history allowed ih =>
      have grown : (operation.importerOf? id).elim (graph.importers id)
          (withNew (graph.importers id)) =
            ((operations ++ [operation]).filterMap (Operation.importerOf? id)).eraseDups := by
        rw [ih, List.filterMap_append]
        cases added : operation.importerOf? id with
        | none => simp [added]
        | some source => simp [added, eraseDups_concat]
      rw [← grown]
      by_cases known : ∃ source dependency, operation = .addDependency source dependency ∧
          dependency ∈ graph.dependencies source
      · -- An import that is there already was added before, and its source with it.
        obtain ⟨source, dependency, rfl, member⟩ := known
        rw [Operation.apply, addDependency_of_mem member, Operation.importerOf?]
        split
        next same =>
          have listed : source ∈ graph.importers id := by
            rw [ih, List.mem_eraseDups, mem_filterMap_importerOf?]
            exact ⟨dependency, history.mem_dependencies.1 member, same⟩
          rw [Option.elim_some, withNew, if_pos listed]
        next => rfl
      · refine importers_apply allowed id fun source dependency isAdded member => known ?_
        exact ⟨source, dependency, isAdded, member⟩

theorem mem_importers (history : History root operations graph) :
    source ∈ graph.importers id ↔ ∃ dependency ∈ graph.dependencies source,
      dependency.target = id := by
  rw [history.importers_eq, List.mem_eraseDups, mem_filterMap_importerOf?]
  simp only [history.mem_dependencies]

end History

/-- The modules, the index and the lists of a graph agree with one another and with the operations
that built it. -/
structure Represents (graph : ModuleGraph) (operations : List Operation) : Prop where
  numbered (id : Nat) (module : Module) (found : graph.module? id = some module) : module.id = id
  canonical (id : Nat) (module : Module) (found : graph.module? id = some module) :
    Path.normalize module.resource = module.resource
  distinct (id other : Nat) (module module' : Module) (found : graph.module? id = some module)
    (found' : graph.module? other = some module') (same : module.resource = module'.resource) :
    id = other
  finds (path : String) (id : Nat) : graph.find? path = some id ↔
    ∃ module, graph.module? id = some module ∧ module.resource = Path.normalize path
  interns (path : String) (id : Nat) : (graph.intern path).1.1 = id ↔
    ∃ module, (graph.intern path).2.module? id = some module ∧
      module.resource = Path.normalize path
  interns_new (path : String) : (graph.intern path).1.2 = true ↔ graph.find? path = none
  nodup_dependencies (id : Nat) : (graph.dependencies id).Nodup
  dependencies_eq (id : Nat) :
    graph.dependencies id = (operations.filterMap (Operation.dependencyOf? id)).eraseDups
  nodup_importers (id : Nat) : (graph.importers id).Nodup
  mem_importers (id source : Nat) : source ∈ graph.importers id ↔
    ∃ dependency ∈ graph.dependencies source, dependency.target = id
  importers_eq (id : Nat) :
    graph.importers id = (operations.filterMap (Operation.importerOf? id)).eraseDups

theorem interns_new_iff (graph : ModuleGraph) (path : String) :
    (graph.intern path).1.2 = true ↔ graph.find? path = none := by
  cases known : graph.find? path with
  | some id =>
      rw [intern_of_some known]
      simp
  | none =>
      rw [intern_of_none known]
      simp

/-- However a graph is built, its modules, its index and its lists agree, and what was in the list
of imports of a module before is still at the front of it. -/
theorem represents_of_history {root : String} {operations : List Operation}
    (history : History root operations graph) : Represents graph operations ∧
      ∀ before earlier, before <+: operations → History root before earlier →
        ∀ id, earlier.dependencies id <+: graph.dependencies id := by
  have indexed := history.built.indexed
  constructor
  · exact {
      numbered := history.built.numbered
      canonical := indexed.canonical
      distinct := fun _ _ _ _ found found' same => indexed.eq_of_resource_eq found found' same
      finds := fun _ _ => indexed.find?_iff
      interns := fun _ _ => indexed.intern_iff
      interns_new := interns_new_iff graph
      nodup_dependencies := fun _ => history.dependencies_eq ▸ nodup_eraseDups _
      dependencies_eq := fun _ => history.dependencies_eq
      nodup_importers := fun _ => history.importers_eq ▸ nodup_eraseDups _
      mem_importers := fun _ _ => history.mem_importers
      importers_eq := fun _ => history.importers_eq }
  · rintro before earlier ⟨later, rfl⟩ started id
    rw [history.dependencies_eq, started.dependencies_eq, List.filterMap_append]
    exact eraseDups_prefix _ _

/-- Two modules that import each other. One of them is added under another spelling of its path, and
one import is added twice. -/
def mutualOperations : List Operation :=
  [.addModule "/app/a.js" .empty, .intern "/app/lib/../b.js", .addDependency 0 ⟨1, .sync, "./b"⟩,
    .addDependency 1 ⟨0, .async, "./a"⟩, .addModule "/app/./a.js" .empty,
    .addDependency 0 ⟨1, .sync, "./b"⟩, .addDependency 0 ⟨1, .sync, "./b.js"⟩,
    .addEntry "main" [0]]

def mutualGraph : ModuleGraph :=
  mutualOperations.foldl (fun graph operation => operation.apply graph) (.empty "/app")

theorem represents_mutualGraph :
    History "/app" mutualOperations mutualGraph ∧ Represents mutualGraph mutualOperations := by
  have initial : History "/app" [] (.empty "/app") := .start
  have first := initial.next (.addModule "/app/a.js" .empty) trivial
  have second := first.next (.intern "/app/lib/../b.js") trivial
  have there := second.next (.addDependency 0 ⟨1, .sync, "./b"⟩) ⟨by decide, by decide⟩
  have back := there.next (.addDependency 1 ⟨0, .async, "./a"⟩) ⟨by decide, by decide⟩
  have again := back.next (.addModule "/app/./a.js" .empty) trivial
  have repeated := again.next (.addDependency 0 ⟨1, .sync, "./b"⟩) ⟨by decide, by decide⟩
  have renamed := repeated.next (.addDependency 0 ⟨1, .sync, "./b.js"⟩) ⟨by decide, by decide⟩
  have history : History "/app" mutualOperations mutualGraph :=
    renamed.next (.addEntry "main" [0]) trivial
  exact ⟨history, (represents_of_history history).1⟩

end ModuleGraph

end WebBundle
