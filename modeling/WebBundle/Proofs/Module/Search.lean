import WebBundle.Module.Discovery
import WebBundle.Proofs.Module.History
import WebBundle.Proofs.Module.Reachable

/-!
# Searching for modules

Meeting a path, adding an import and merging a module only add to a search. What is known of a
module stays as it is, except that the module that is merged gets its content and its imports, and
that the queue grows at its end by the numbers of new modules.
-/

namespace WebBundle

/-- A module without the modules that import it. -/
def Module.alone (module : Module) : Module := { module with importers := [] }

theorem Module.eq_of_alone_eq {module module' : Module} (same : module'.alone = module.alone) :
    module' = { module with importers := module'.importers } :=
  congrArg (fun alone : Module => { alone with importers := module'.importers }) same

namespace ModuleGraph

theorem alone_withImporter (module : Module) (importer : Nat) :
    (withImporter importer module).alone = module.alone := by
  unfold withImporter
  split <;> rfl

section

variable {β : Type} {read : Module → β} {graph later latest : ModuleGraph} {id : Nat}

/-- What is read of a module is the same in a later graph. -/
def Retains (read : Module → β) (id : Nat) (graph later : ModuleGraph) : Prop :=
  ∀ value, (graph.module? id).map read = some value → (later.module? id).map read = some value

namespace Retains

theorem refl : Retains read id graph graph := fun _ found => found

theorem trans (first : Retains read id graph later) (second : Retains read id later latest) :
    Retains read id graph latest :=
  fun value found => second value (first value found)

theorem exists_module {module : Module} (keeps : Retains read id graph later)
    (found : graph.module? id = some module) :
    ∃ module', later.module? id = some module' ∧ read module' = read module :=
  Option.map_eq_some_iff.1 (keeps (read module) (by rw [found]; rfl))

theorem lt_size (keeps : Retains read id graph later) (below : id < graph.size) :
    id < later.size := by
  obtain ⟨module, found⟩ := lt_size_iff.1 below
  obtain ⟨module', found', _⟩ := keeps.exists_module found
  exact lt_size_iff.2 ⟨module', found'⟩

theorem intern (graph : ModuleGraph) (path : String) :
    Retains read id graph (graph.intern path).2 := by
  intro value found
  obtain ⟨module, stands, rfl⟩ := Option.map_eq_some_iff.1 found
  rw [module?_intern stands, Option.map_some]

/-- Changing one module keeps what the change does not touch. -/
theorem modify (graph : ModuleGraph) {place : Nat} {change : Module → Module}
    (keeps : place = id → ∀ module, read (change module) = read module) :
    Retains read id graph { graph with modules := graph.modules.modify place change } := by
  intro value found
  rw [module?_modify]
  split
  next same => rwa [Option.map_map, show read ∘ change = read from funext (keeps same)]
  next => exact found

theorem setContent (graph : ModuleGraph) {place : Nat} {content : ByteArray}
    (keeps : place = id → ∀ module : Module, read { module with content } = read module) :
    Retains read id graph (graph.setContent place content) :=
  modify graph keeps

theorem addDependency (graph : ModuleGraph) {source : Nat} {dependency : Dependency}
    (importers : ∀ (module : Module) (importer : Nat),
      read (withImporter importer module) = read module)
    (dependencies : source = id → ∀ module : Module,
      read (withDependency dependency module) = read module) :
    Retains read id graph (graph.addDependency source dependency) := by
  unfold ModuleGraph.addDependency
  split
  next => exact refl
  next =>
    split
    next => exact refl
    next =>
      have added := modify graph dependencies
      exact added.trans (modify _ fun _ module => importers module source)

end Retains

end

variable {graph : ModuleGraph}

theorem index_addDependency (graph : ModuleGraph) (source : Nat) (dependency : Dependency) :
    (graph.addDependency source dependency).index = graph.index := by
  unfold addDependency
  split
  next => rfl
  next => split <;> rfl

theorem entries_addDependency (graph : ModuleGraph) (source : Nat) (dependency : Dependency) :
    (graph.addDependency source dependency).entries = graph.entries := by
  unfold addDependency
  split
  next => rfl
  next => split <;> rfl

theorem entries_intern (graph : ModuleGraph) (path : String) :
    (graph.intern path).2.entries = graph.entries := by
  unfold intern
  split <;> rfl

theorem size_setContent (graph : ModuleGraph) (place : Nat) (content : ByteArray) :
    (graph.setContent place content).size = graph.size :=
  Arena.size_modify _ _ _

theorem size_intern_of_none {path : String} (new : graph.find? path = none) :
    (graph.intern path).2.size = graph.size + 1 := by
  rw [intern_of_none new]
  exact Arena.size_alloc _ _

theorem lt_size_intern (path : String) {id : Nat} (below : id < graph.size) :
    id < (graph.intern path).2.size := by
  have retained : Retains Module.file id graph (graph.intern path).2 := .intern graph path
  exact retained.lt_size below

/-- A path that is found stays the path of the same module. -/
theorem find?_intern {path other : String} {id : Nat} (found : graph.find? other = some id) :
    (graph.intern path).2.find? other = some id := by
  cases known : graph.find? path with
  | some known' =>
      rw [intern_of_some known]
      exact found
  | none =>
      rw [find?, withResource?_intern_of_none known]
      split
      next same =>
        rw [find?, ← same, ← find?, found] at known
        cases known
      next => exact found

/-- A later graph has the entries, the paths and the imports of an earlier one. -/
structure Extends (graph later : ModuleGraph) : Prop where
  finds : ∀ {path : String} {id : Nat}, graph.find? path = some id → later.find? path = some id
  entries : graph.entries ⊆ later.entries
  imports : ∀ id, graph.dependencies id ⊆ later.dependencies id

namespace Extends

variable {later latest : ModuleGraph}

theorem refl : Extends graph graph := ⟨id, List.Subset.refl _, fun _ => List.Subset.refl _⟩

theorem trans (first : Extends graph later) (second : Extends later latest) :
    Extends graph latest where
  finds found := second.finds (first.finds found)
  entries := List.Subset.trans first.entries second.entries
  imports id := List.Subset.trans (first.imports id) (second.imports id)

theorem intern (graph : ModuleGraph) (path : String) : Extends graph (graph.intern path).2 where
  finds := find?_intern
  entries := entries_intern graph path ▸ List.Subset.refl _
  imports id := dependencies_intern graph path id ▸ List.Subset.refl _

theorem setContent (graph : ModuleGraph) (place : Nat) (content : ByteArray) :
    Extends graph (graph.setContent place content) where
  finds := id
  entries := List.Subset.refl _
  imports id := dependencies_setContent graph place content id ▸ List.Subset.refl _

theorem addDependency {source : Nat} (allocated : source < graph.size) (dependency : Dependency) :
    Extends graph (graph.addDependency source dependency) where
  finds found := by
    rwa [find?, withResource?, index_addDependency]
  entries := entries_addDependency graph source dependency ▸ List.Subset.refl _
  imports id := by
    rw [dependencies_addDependency allocated]
    split
    next => exact subset_withNew _ _
    next => exact List.Subset.refl _

theorem addEntry (graph : ModuleGraph) (name : String) (modules : List Nat) :
    Extends graph (graph.addEntry name modules) where
  finds := id
  entries := List.subset_append_left _ _
  imports _ := List.Subset.refl _

theorem reachable (extended : Extends graph later) {id : Nat} (reachable : graph.Reachable id) :
    later.Reachable id := by
  obtain ⟨entry, listed, root, isRoot, leads⟩ := reachable
  have imports (source target : Nat) (imported : graph.Imports source target) :
      later.Imports source target := by
    obtain ⟨dependency, member, same⟩ := imported
    exact ⟨dependency, extended.imports source member, same⟩
  exact ⟨entry, extended.entries listed, root, isRoot, Relation.ReflTransGen.mono imports _ _ leads⟩

end Extends

end ModuleGraph

namespace Discovery

open ModuleGraph

variable {search : Search} {path : String}

namespace Search

theorem meet_of_some {id : Nat} (known : search.graph.find? path = some id) :
    search.meet path = (id, search) := by
  rw [meet, intern_of_some known]
  rfl

theorem meet_of_none (new : search.graph.find? path = none) :
    search.meet path = (search.graph.size,
      ⟨(search.graph.intern path).2, search.frontier ++ [search.graph.size]⟩) := by
  rw [meet, intern_of_none new]
  rfl

theorem find?_meet (search : Search) (path : String) :
    (search.meet path).2.graph.find? path = some (search.meet path).1 := by
  cases known : search.graph.find? path with
  | some id =>
      rw [meet_of_some known]
      exact known
  | none =>
      rw [meet_of_none known, find?, withResource?_intern_of_none known, if_pos rfl]

/-- What is queued after a path was met was queued before or is new. -/
theorem mem_frontier_meet {id : Nat} : id ∈ (search.meet path).2.frontier ↔
    id ∈ search.frontier ∨ search.graph.find? path = none ∧ id = search.graph.size := by
  cases known : search.graph.find? path with
  | some other =>
      rw [meet_of_some known]
      simp
  | none =>
      rw [meet_of_none known]
      simp

/-- A number that is there after a path was met was there before or is new, and then it is the
number of the path and queued. -/
theorem lt_size_meet {id : Nat} (below : id < (search.meet path).2.graph.size) :
    id < search.graph.size ∨ id = (search.meet path).1 ∧ id ∈ (search.meet path).2.frontier := by
  cases known : search.graph.find? path with
  | some other =>
      rw [meet_of_some known] at below
      exact .inl below
  | none =>
      rw [meet_of_none known] at below ⊢
      dsimp only at below ⊢
      rw [size_intern_of_none known] at below
      cases Nat.lt_succ_iff_lt_or_eq.1 below with
      | inl before => exact .inl before
      | inr last => exact .inr ⟨last, by simp [last]⟩

/-- The search with the content of a module. -/
def setContent (search : Search) (source : Nat) (content : ByteArray) : Search :=
  { search with graph := search.graph.setContent source content }

theorem merge_eq (search : Search) (source : Nat) (loaded : Loaded) :
    search.merge source loaded =
      loaded.imports.foldl (addImport source) (search.setContent source loaded.content) := rfl

/-- The search behind a queue of other modules. -/
def behind (ids : List Nat) (search : Search) : Search :=
  { search with frontier := ids ++ search.frontier }

/-! ## What is behind a queue -/

theorem meet_behind (ids : List Nat) (search : Search) (path : String) :
    (search.behind ids).meet path = ((search.meet path).1, (search.meet path).2.behind ids) := by
  cases known : search.graph.find? path with
  | some id =>
      have known' : (search.behind ids).graph.find? path = some id := known
      rw [meet_of_some known', meet_of_some known]
  | none =>
      have known' : (search.behind ids).graph.find? path = none := known
      rw [meet_of_none known', meet_of_none known, behind, behind, List.append_assoc]

theorem addImport_behind (ids : List Nat) (source : Nat) (search : Search)
    (found : ResolvedImport) :
    (search.behind ids).addImport source found = (search.addImport source found).behind ids := by
  rw [addImport, meet_behind]
  rfl

theorem merge_behind (ids : List Nat) (source : Nat) (search : Search) (loaded : Loaded) :
    (search.behind ids).merge source loaded = (search.merge source loaded).behind ids := by
  have filled : (search.behind ids).setContent source loaded.content =
      (search.setContent source loaded.content).behind ids := rfl
  rw [merge_eq, merge_eq, filled]
  exact List.foldl_hom (behind ids) fun search found => addImport_behind ids source search found

/-! ## What is kept -/

section

variable {β : Type} {read : Module → β} {id source : Nat}

theorem retains_addImport
    (importers : ∀ (module : Module) (importer : Nat),
      read (withImporter importer module) = read module)
    (dependencies : source = id → ∀ (module : Module) (dependency : Dependency),
      read (withDependency dependency module) = read module)
    (search : Search) (found : ResolvedImport) :
    Retains read id search.graph (search.addImport source found).graph :=
  (Retains.intern search.graph found.path).trans
    (.addDependency _ importers fun same module => dependencies same module _)

theorem retains_foldl_addImport
    (importers : ∀ (module : Module) (importer : Nat),
      read (withImporter importer module) = read module)
    (dependencies : source = id → ∀ (module : Module) (dependency : Dependency),
      read (withDependency dependency module) = read module)
    (imports : List ResolvedImport) (search : Search) :
    Retains read id search.graph (imports.foldl (addImport source) search).graph := by
  induction imports generalizing search with
  | nil => exact .refl
  | cons found imports ih =>
      exact (retains_addImport importers dependencies search found).trans
        (ih (search.addImport source found))

theorem retains_file_merge (id source : Nat) (search : Search) (loaded : Loaded) :
    Retains Module.file id search.graph (search.merge source loaded).graph := by
  have filled : Retains Module.file id search.graph
      (search.setContent source loaded.content).graph :=
    .setContent search.graph fun _ _ => rfl
  rw [merge_eq]
  exact filled.trans (retains_foldl_addImport file_withImporter (fun _ _ _ => rfl) loaded.imports _)

theorem entries_addImport (search : Search) (source : Nat) (found : ResolvedImport) :
    (search.addImport source found).graph.entries = search.graph.entries :=
  (entries_addDependency _ source _).trans (entries_intern search.graph found.path)

/-- Only the importing module gets an import, and only if it does not have it yet. -/
theorem dependencies_addImport (allocated : source < search.graph.size) (found : ResolvedImport)
    (id : Nat) : (search.addImport source found).graph.dependencies id =
      if source = id then withNew (search.graph.dependencies id)
        ⟨(search.meet found.path).1, found.timing, found.specifier⟩
      else search.graph.dependencies id := by
  rw [addImport, ← dependencies_intern search.graph found.path id]
  exact dependencies_addDependency (lt_size_intern found.path allocated) id

theorem extends_addImport (allocated : source < search.graph.size) (found : ResolvedImport) :
    Extends search.graph (search.addImport source found).graph :=
  (Extends.intern search.graph found.path).trans
    (.addDependency (lt_size_intern found.path allocated) _)

end

/-! ## Queues -/

/-- The graph is built, and the queue holds the numbers of different modules. -/
structure Sound (search : Search) : Prop where
  built : search.graph.Built
  allocated : ∀ id ∈ search.frontier, id < search.graph.size
  nodup : search.frontier.Nodup

namespace Sound

theorem start (root : String) : Sound ⟨.empty root, []⟩ := ⟨.empty root, nofun, .nil⟩

theorem meet (sound : search.Sound) (path : String) : (search.meet path).2.Sound := by
  cases known : search.graph.find? path with
  | some id =>
      rw [meet_of_some known]
      exact sound
  | none =>
      rw [meet_of_none known]
      constructor
      case built => exact sound.built.intern path
      case allocated =>
        intro id member
        dsimp only
        rw [size_intern_of_none known]
        rcases List.mem_append.1 member with queued | last
        · exact Nat.lt_succ_of_lt (sound.allocated id queued)
        · exact List.mem_singleton.1 last ▸ Nat.lt_succ_self _
      case nodup =>
        refine List.nodup_append.2 ⟨sound.nodup, List.nodup_singleton _, ?_⟩
        rintro id queued last isLast rfl
        exact Nat.lt_irrefl _ (List.mem_singleton.1 isLast ▸ sound.allocated id queued)

theorem addImport (sound : search.Sound) (source : Nat) (found : ResolvedImport) :
    (search.addImport source found).Sound where
  built := (sound.meet found.path).built.addDependency _ _
  allocated id queued := by
    have below := (sound.meet found.path).allocated id queued
    rwa [Search.addImport, size_addDependency]
  nodup := (sound.meet found.path).nodup

theorem setContent (sound : search.Sound) (source : Nat) (content : ByteArray) :
    (search.setContent source content).Sound where
  built := sound.built.setContent source content
  allocated id queued := by
    have below := sound.allocated id queued
    rwa [Search.setContent, size_setContent]
  nodup := sound.nodup

theorem foldl_addImport (sound : search.Sound) (source : Nat) (imports : List ResolvedImport) :
    (imports.foldl (Search.addImport source) search).Sound := by
  induction imports generalizing search with
  | nil => exact sound
  | cons found imports ih => exact ih (sound.addImport source found)

theorem merge (sound : search.Sound) (source : Nat) (loaded : Loaded) :
    (search.merge source loaded).Sound :=
  (sound.setContent source loaded.content).foldl_addImport source loaded.imports

end Sound

end Search

section

variable {project : Project} {root : String} {next : Search}

theorem sound_of_resolveEntry {name : String} {specifiers : List String} {modules met : List Nat}
    (sound : search.Sound)
    (resolved : resolveEntry project root name specifiers search modules = .ok (met, next)) :
    next.Sound := by
  induction specifiers generalizing search modules with
  | nil =>
      obtain ⟨rfl, rfl⟩ := Prod.mk.inj (Except.ok.inj resolved)
      exact sound
  | cons specifier specifiers ih =>
      rw [resolveEntry] at resolved
      split at resolved
      next => cases resolved
      next path _ => exact ih (sound.meet path) resolved

/-- The modules that entries start are queued like all others. -/
theorem sound_of_resolveEntries {entries : List (String × List String)} (sound : search.Sound)
    (resolved : resolveEntries project root entries search = .ok next) : next.Sound := by
  induction entries generalizing search with
  | nil =>
      obtain rfl := Except.ok.inj resolved
      exact sound
  | cons entry entries ih =>
      rw [resolveEntries] at resolved
      split at resolved
      next => cases resolved
      next modules met started =>
        have later := sound_of_resolveEntry sound started
        have noted : Search.Sound ⟨met.graph.addEntry entry.1 modules, met.frontier⟩ :=
          ⟨later.built.addEntry entry.1 modules, later.allocated, later.nodup⟩
        exact ih noted resolved

end

end Discovery

end WebBundle
