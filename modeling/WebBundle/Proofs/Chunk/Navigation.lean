import WebBundle.Proofs.Chunk.Partition
import WebBundle.Proofs.Chunk.Startup
import WebBundle.Proofs.LoadGroup.Navigation

/-!
# Chunks loaded along a run

Every import on demand fetches chunks, and afterwards the closure of the imported module should be
loaded. It is not in every case. A module is exposed if no entry loads it at once and every import
of the run whose group keeps it starts no chunk, because sharing emptied the group and it was
dissolved. An exposed module is loaded only by chance: if it is in one chunk with an imported
module, or in a shared chunk that is fetched for the sake of others. Nothing is exposed if every
group that another one imports is its child and no group is dissolved.
-/

namespace WebBundle

namespace ChunkGraph

/-- The chunks that are loaded once the imports of a run were made. -/
def loadedAfter (chunks : ChunkGraph) (run : List Nat) : List Nat :=
  EmittedChunk.startOrder chunks ++ run.flatMap fun target => (chunks.loadSet target).map (·.id)

/-- The module is in a chunk that is loaded. -/
def Loaded (chunks : ChunkGraph) (run : List Nat) (module : Nat) : Prop :=
  ∃ chunk ∈ chunks.chunks, module ∈ chunk.modules ∧ chunk.id ∈ chunks.loadedAfter run

/-- After every import of every run the closure of the imported module is loaded. -/
def LoadsImports (chunks : ChunkGraph) (graph : ModuleGraph) : Prop :=
  ∀ target run, graph.Navigation (target :: run) →
    ∀ module ∈ graph.closure [target], chunks.Loaded (target :: run) module

/-- No entry loads the module at once, and no import of the run whose group keeps it starts a chunk.
-/
def Exposed (chunks : ChunkGraph) (graph : ModuleGraph) (run : List Nat) (module : Nat) : Prop :=
  ¬ graph.LoadedByEntry module ∧
    ∀ target ∈ run, graph.Keeps target module → chunks.startedBy? target = none

/-- The module is in one chunk with an imported module, or in a shared chunk that an entry waits for
or that the chunk of an imported module refers to. -/
def Rescued (chunks : ChunkGraph) (run : List Nat) (module : Nat) : Prop :=
  (∃ target ∈ run, chunks.chunkOf? target = chunks.chunkOf? module) ∨
    ∃ shared ∈ chunks.chunks, shared.kind = .shared ∧ module ∈ shared.modules ∧
      ((∃ entry ∈ chunks.entries, shared ∈ chunks.required entry) ∨
        ∃ target ∈ run, ∃ start,
          (chunks.startedBy? target = some start ∨ chunks.chunkOf? target = some start) ∧
            shared ∈ chunks.chunksAt start.children)

/-- Every import whose group keeps a module starts a chunk. -/
def Undissolved (chunks : ChunkGraph) (graph : ModuleGraph) : Prop :=
  ∀ target module, graph.Keeps target module → chunks.startedBy? target ≠ none

variable {chunks : ChunkGraph} {run : List Nat} {module target : Nat}

theorem mem_loadSet {chunk : Chunk} :
    chunk ∈ chunks.loadSet target ↔
      ∃ start, (chunks.startedBy? target = some start ∨ chunks.chunkOf? target = some start) ∧
        chunk ∈ chunks.fetchedWith start := by
  simp only [loadSet, List.mem_eraseDups, List.mem_flatMap, List.mem_append, Option.mem_toList]

theorem mem_fetchedWith {start chunk : Chunk} :
    chunk ∈ chunks.fetchedWith start ↔
      (chunk = start ∧ (start.kind = .onDemand ∨ start.kind = .shared)) ∨
        (chunk ∈ chunks.chunksAt start.children ∧ chunk.kind = .shared) := by
  rw [fetchedWith, List.mem_append, List.mem_filter, decide_eq_true_eq]
  refine or_congr ?_ Iff.rfl
  by_cases fetched : start.kind = .onDemand ∨ start.kind = .shared
  · simp [fetched]
  · simp [fetched]

theorem mem_loadedAfter {id : Nat} :
    id ∈ chunks.loadedAfter run ↔ id ∈ EmittedChunk.startOrder chunks ∨
      ∃ target ∈ run, ∃ chunk ∈ chunks.loadSet target, chunk.id = id := by
  simp only [loadedAfter, List.mem_append, List.mem_flatMap, List.mem_map]

theorem mem_chunks_of_startedBy {chunk : Chunk} (starts : chunks.startedBy? target = some chunk) :
    chunk ∈ chunks.chunks ∧ chunk.kind = .onDemand ∧ target ∈ chunk.roots := by
  obtain ⟨kind, isRoot⟩ : chunk.kind = .onDemand ∧ target ∈ chunk.roots := by
    simpa using List.find?_some starts
  exact ⟨List.mem_of_find?_eq_some starts, kind, isRoot⟩

theorem startedBy?_ne_none {roots : List Nat}
    (listed : roots ∈ (chunks.chunks.filter (·.kind = .onDemand)).map (·.roots))
    (isRoot : target ∈ roots) : chunks.startedBy? target ≠ none := by
  obtain ⟨chunk, started, rfl⟩ := List.mem_map.1 listed
  obtain ⟨member, kind⟩ := List.mem_filter.1 started
  refine Option.isSome_iff_ne_none.1 (List.find?_isSome.2 ⟨chunk, member, ?_⟩)
  simpa [isRoot] using kind

theorem mem_chunks_of_chunkOf {chunk : Chunk} (holds : chunks.chunkOf? module = some chunk) :
    chunk ∈ chunks.chunks ∧ module ∈ chunk.modules :=
  ⟨List.mem_of_find?_eq_some holds, by simpa using List.find?_some holds⟩

theorem mem_chunks_of_child {ids : List Nat} {chunk : Chunk}
    (listed : chunk ∈ chunks.chunksAt ids) : chunk ∈ chunks.chunks := by
  obtain ⟨id, _, found⟩ := Chunk.mem_chunksAt.1 listed
  exact List.mem_of_getElem? found

theorem mem_chunks_of_loadSet {chunk : Chunk} (fetched : chunk ∈ chunks.loadSet target) :
    chunk ∈ chunks.chunks := by
  obtain ⟨start, starts, fetched⟩ := mem_loadSet.1 fetched
  rcases mem_fetchedWith.1 fetched with ⟨rfl, _⟩ | ⟨below, _⟩
  · cases starts with
    | inl starts => exact (mem_chunks_of_startedBy starts).1
    | inr holds => exact (mem_chunks_of_chunkOf holds).1
  · exact mem_chunks_of_child below

/-- What an import of the run fetches is loaded. -/
theorem loaded_of_mem_loadSet (imported : target ∈ run) {chunk : Chunk}
    (fetched : chunk ∈ chunks.loadSet target) (held : module ∈ chunk.modules) :
    chunks.Loaded run module :=
  ⟨chunk, mem_chunks_of_loadSet fetched, held,
    mem_loadedAfter.2 (Or.inr ⟨target, imported, chunk, fetched, rfl⟩)⟩

/-- What an entry starts is loaded. -/
theorem loaded_of_startedWith {entry : Chunk} (listed : entry ∈ chunks.entries) {chunk : Chunk}
    (member : chunk ∈ chunks.chunks) (started : chunk.id ∈ EmittedChunk.startedWith chunks entry)
    (held : module ∈ chunk.modules) : chunks.Loaded run module :=
  ⟨chunk, member, held, mem_loadedAfter.2
    (Or.inl (EmittedChunk.mem_startOrder.2 (Or.inr ⟨entry, listed, started⟩)))⟩

theorem loaded_of_required {entry shared : Chunk} (listed : entry ∈ chunks.entries)
    (needed : shared ∈ chunks.required entry) (held : module ∈ shared.modules) :
    chunks.Loaded run module :=
  loaded_of_startedWith listed (mem_of_mem_required needed).1
    (EmittedChunk.mem_startedWith.2 (Or.inl ⟨shared, needed, rfl⟩)) held

theorem loaded_of_entry {entry : Chunk} (listed : entry ∈ chunks.entries)
    (held : module ∈ entry.modules) : chunks.Loaded run module :=
  loaded_of_startedWith listed (mem_of_mem_entries listed).1
    (EmittedChunk.mem_startedWith.2 (Or.inr rfl)) held

end ChunkGraph

namespace Chunk

open ChunkGraph

variable {graph : ModuleGraph} {rules : List CacheGroup.Rule} {limits : Limits}
variable {reports : List Diagnostic} {chunks : ChunkGraph} {run : List Nat} {module target : Nat}

/-! ## What is loaded -/

/-- What an entry loads at once is loaded from the start. -/
theorem loaded_of_loadedByEntry (made : split graph rules limits = (reports, .ok chunks))
    (early : graph.LoadedByEntry module) : chunks.Loaded run module := by
  obtain ⟨entry, listed, within⟩ := early
  obtain ⟨chunk, isEntry, roots⟩ := exists_chunk_of_entry made listed
  rw [← roots] at within
  rcases EmittedChunk.complete_of_split made isEntry within with held | ⟨shared, needed, held⟩
  · exact loaded_of_entry isEntry held
  · exact loaded_of_required isEntry needed held

/-- The draft that an import starts holds exactly what the group of the import keeps. -/
theorem mem_modules_iff_keeps {draft : Draft} (member : draft ∈ graph.groupDrafts)
    (onDemand : draft.kind = .onDemand) (isRoot : target ∈ draft.roots) :
    module ∈ draft.modules ↔ graph.Keeps target module := by
  obtain ⟨place, elided, stands, modules, kind, roots⟩ := ModuleGraph.mem_groupDrafts_modules member
  have kept := List.mem_of_getElem? stands
  have elidedOnDemand : elided.start = .onDemand := by
    refine LoadGroup.start_eq_onDemand_of_ne fun isEntry => ?_
    rw [onDemand, isEntry] at kind
    cases kind
  rw [roots] at isRoot
  rw [modules]
  constructor
  · exact fun held => ⟨elided, kept, elidedOnDemand, isRoot, held⟩
  · rintro ⟨group, kept', groupOnDemand, isRoot', held⟩
    rwa [ModuleGraph.eq_of_root kept kept' elidedOnDemand groupOnDemand isRoot isRoot']

/-- The chunk of a group is fetched with whatever the group keeps. -/
theorem exists_fetched_of_startedBy (made : split graph rules limits = (reports, .ok chunks))
    (keeps : graph.Keeps target module) {chunk : Chunk}
    (starts : chunks.startedBy? target = some chunk) :
    ∃ fetched ∈ chunks.loadSet target, module ∈ fetched.modules := by
  obtain ⟨member, kind, isRoot⟩ := mem_chunks_of_startedBy starts
  obtain ⟨holder, listed, holderKind, roots, _, held⟩ :=
    exists_holder_of_chunk made member (Or.inr kind)
  have within :=
    (mem_modules_iff_keeps listed (holderKind.symm.trans kind) (roots ▸ isRoot)).2 keeps
  rcases held module within with stays | ⟨other, below, shared, moved, _⟩
  · exact ⟨chunk, mem_loadSet.2 ⟨chunk, Or.inl starts, mem_fetchedWith.2
      (Or.inl ⟨rfl, Or.inl kind⟩)⟩, stays⟩
  · exact ⟨other, mem_loadSet.2 ⟨chunk, Or.inl starts, mem_fetchedWith.2
      (Or.inr ⟨below, shared⟩)⟩, moved⟩

/-- The chunk of a group that keeps a module fetches it. -/
theorem loaded_of_startedBy (made : split graph rules limits = (reports, .ok chunks))
    (imported : target ∈ run) (keeps : graph.Keeps target module) {chunk : Chunk}
    (starts : chunks.startedBy? target = some chunk) : chunks.Loaded run module := by
  obtain ⟨fetched, member, held⟩ := exists_fetched_of_startedBy made keeps starts
  exact loaded_of_mem_loadSet imported member held

/-- The chunk that holds an imported module is fetched, unless it is that of an entry. -/
theorem mem_entries_or_loadSet (made : split graph rules limits = (reports, .ok chunks))
    {chunk : Chunk} (holds : chunks.chunkOf? target = some chunk) (held : module ∈ chunk.modules) :
    chunk ∈ chunks.entries ∨ chunk ∈ chunks.loadSet target := by
  have member := (mem_chunks_of_chunkOf holds).1
  have fetched (kind : chunk.kind = .onDemand ∨ chunk.kind = .shared) :
      chunk ∈ chunks.loadSet target :=
    mem_loadSet.2 ⟨chunk, Or.inr holds, mem_fetchedWith.2 (Or.inl ⟨rfl, kind⟩)⟩
  cases kind : chunk.kind with
  | entry => exact Or.inl (List.mem_filter.2 ⟨member, decide_eq_true kind⟩)
  | onDemand => exact Or.inr (fetched (Or.inl kind))
  | shared => exact Or.inr (fetched (Or.inr kind))
  | runtime =>
      rw [modules_of_runtime made member kind] at held
      cases held

/-- A module in one chunk with an imported module is loaded with it. -/
theorem loaded_of_chunkOf_eq (made : split graph rules limits = (reports, .ok chunks))
    (imported : target ∈ run) {chunk : Chunk} (holds : chunks.chunkOf? module = some chunk)
    (same : chunks.chunkOf? target = chunks.chunkOf? module) : chunks.Loaded run module := by
  have held := (mem_chunks_of_chunkOf holds).2
  cases mem_entries_or_loadSet made (same.trans holds) held with
  | inl isEntry => exact loaded_of_entry isEntry held
  | inr fetched => exact loaded_of_mem_loadSet imported fetched held

theorem loaded_of_rescued (made : split graph rules limits = (reports, .ok chunks))
    {chunk : Chunk} (holds : chunks.chunkOf? module = some chunk)
    (rescued : chunks.Rescued run module) : chunks.Loaded run module := by
  rcases rescued with ⟨target, imported, same⟩ | ⟨shared, _, kind, held, reason⟩
  · exact loaded_of_chunkOf_eq made imported holds same
  · rcases reason with ⟨entry, listed, needed⟩ | ⟨target, imported, start, starts, below⟩
    · exact loaded_of_required listed needed held
    · exact loaded_of_mem_loadSet imported
        (mem_loadSet.2 ⟨start, starts, mem_fetchedWith.2 (Or.inr ⟨below, kind⟩)⟩) held

/-- An import whose group keeps a module loads it, unless the group was dissolved. -/
theorem loaded_of_not_exposed (made : split graph rules limits = (reports, .ok chunks))
    (safe : ¬ chunks.Exposed graph run module) : chunks.Loaded run module := by
  by_cases early : graph.LoadedByEntry module
  · exact loaded_of_loadedByEntry made early
  · have kept : ∃ target ∈ run, graph.Keeps target module ∧ chunks.startedBy? target ≠ none := by
      by_contra unstarted
      refine safe ⟨early, fun target imported keeps => ?_⟩
      by_contra starts
      exact unstarted ⟨target, imported, keeps, starts⟩
    obtain ⟨target, imported, keeps, starts⟩ := kept
    obtain ⟨chunk, found⟩ := Option.ne_none_iff_exists'.1 starts
    exact loaded_of_startedBy made imported keeps found

/-! ## What loads an exposed module -/

/-- A chunk that is started holds nothing exposed, unless it is a shared chunk that an entry waits
for. -/
theorem rescued_of_started (made : split graph rules limits = (reports, .ok chunks))
    (wellFormed : chunks.WellFormed) (late : ¬ graph.LoadedByEntry module) {chunk : Chunk}
    (member : chunk ∈ chunks.chunks) (held : module ∈ chunk.modules)
    (started : chunk.id ∈ EmittedChunk.startOrder chunks) : chunks.Rescued run module := by
  rcases EmittedChunk.mem_startOrder.1 started with isRuntime | ⟨entry, listed, startedWith⟩
  · obtain ⟨runtime, there, same, kind⟩ := wellFormed.exists_runtime
    obtain rfl := wellFormed.eq_of_id_eq member there (isRuntime.trans same.symm)
    rw [modules_of_runtime made member kind] at held
    cases held
  · rcases EmittedChunk.mem_startedWith.1 startedWith with ⟨shared, needed, same⟩ | same
    · obtain ⟨there, kind⟩ := mem_of_mem_required needed
      obtain rfl := wellFormed.eq_of_id_eq there member same
      exact Or.inr ⟨shared, there, kind, held, Or.inl ⟨entry, listed, needed⟩⟩
    · obtain ⟨there, isEntry⟩ := mem_of_mem_entries listed
      obtain rfl := wellFormed.eq_of_id_eq member there same
      obtain ⟨holder, drafted, kind, _, within, _⟩ :=
        exists_holder_of_chunk made member (Or.inl isEntry)
      have holderEntry := kind.symm.trans isEntry
      obtain ⟨origin, known, roots⟩ := ModuleGraph.exists_entry_of_groupDraft drafted holderEntry
      refine absurd ⟨origin, known, ?_⟩ late
      rw [← roots, ← ModuleGraph.modules_of_entryDraft drafted holderEntry]
      exact within held

/-- So does a chunk that an import fetches: the chunk that the import starts holds only what the
group of the import keeps. -/
theorem rescued_of_fetched (made : split graph rules limits = (reports, .ok chunks))
    (partitions : chunks.Partitions graph) (reachable : graph.Reachable module)
    (exposed : chunks.Exposed graph run module) (imported : target ∈ run) {chunk : Chunk}
    (fetched : chunk ∈ chunks.loadSet target) (held : module ∈ chunk.modules) :
    chunks.Rescued run module := by
  obtain ⟨start, starts, fetched⟩ := mem_loadSet.1 fetched
  rcases mem_fetchedWith.1 fetched with ⟨rfl, _⟩ | ⟨below, kind⟩
  · cases starts with
    | inl starts =>
        obtain ⟨member, kind, isRoot⟩ := mem_chunks_of_startedBy starts
        obtain ⟨holder, drafted, holderKind, roots, within, _⟩ :=
          exists_holder_of_chunk made member (Or.inr kind)
        have keeps := (mem_modules_iff_keeps drafted (holderKind.symm.trans kind)
          (roots ▸ isRoot)).1 (within held)
        rw [exposed.2 target imported keeps] at starts
        cases starts
    | inr holds =>
        obtain ⟨own, single, _, holdsModule⟩ := partitions.once module reachable
        have listed : chunk ∈ chunks.chunks.filter fun chunk => module ∈ chunk.modules :=
          List.mem_filter.2 ⟨(mem_chunks_of_chunkOf holds).1, decide_eq_true held⟩
        rw [single, List.mem_singleton] at listed
        exact Or.inl ⟨target, imported, by rw [holds, holdsModule, listed]⟩
  · exact Or.inr ⟨chunk, mem_chunks_of_child below, kind, held,
      Or.inr ⟨target, imported, start, starts, below⟩⟩

/-- The imports of a run lead to reachable modules. -/
theorem reachable_of_navigation (navigation : graph.Navigation (target :: run))
    (within : module ∈ graph.closure [target]) : graph.Reachable module := by
  have isRoot := navigation.mem_groupRoots target List.mem_cons_self
  exact ModuleGraph.reachable_of_loadGroup (ModuleGraph.getElem?_groupStartedBy isRoot) within

/-- A reachable module is loaded exactly if it is rescued or not exposed. -/
theorem loaded_iff (made : split graph rules limits = (reports, .ok chunks))
    (wellFormed : chunks.WellFormed) (partitions : chunks.Partitions graph)
    (reachable : graph.Reachable module) :
    chunks.Loaded run module ↔ (chunks.Exposed graph run module → chunks.Rescued run module) := by
  constructor
  · rintro ⟨chunk, member, held, loaded⟩ exposed
    rcases mem_loadedAfter.1 loaded with started | ⟨target, imported, other, fetched, same⟩
    · exact rescued_of_started made wellFormed exposed.1 member held started
    · obtain rfl := wellFormed.eq_of_id_eq (mem_chunks_of_loadSet fetched) member same
      exact rescued_of_fetched made partitions reachable exposed imported fetched held
  · intro rescued
    by_cases exposed : chunks.Exposed graph run module
    · obtain ⟨chunk, _, _, holds⟩ := partitions.once module reachable
      exact loaded_of_rescued made holds (rescued exposed)
    · exact loaded_of_not_exposed made exposed

/-- Runs load what they import exactly if every exposed module is rescued. Nothing is exposed if
every import between groups gives an edge and no group is dissolved. -/
theorem loadsImports_iff_of_split {groups : List CacheGroup}
    (compiled : CacheGroup.Rule.ofGroups groups = .ok rules)
    (made : split graph rules limits = (reports, .ok chunks)) :
    (chunks.LoadsImports graph ↔ ∀ target run, graph.Navigation (target :: run) →
      ∀ module ∈ graph.closure [target], chunks.Exposed graph (target :: run) module →
        chunks.Rescued (target :: run) module) ∧
      (graph.KeepsImports → chunks.Undissolved graph → ∀ target run,
        graph.Navigation (target :: run) → ∀ module ∈ graph.closure [target],
          ¬ chunks.Exposed graph (target :: run) module) := by
  have wellFormed : chunks.WellFormed := by
    rw [(split_ok made).1]
    exact wellFormed_spreadDrafts
  have partitions : chunks.Partitions graph := by
    rw [(split_ok made).1]
    exact partitions_spreadDrafts (CacheGroup.Rule.nodup_index_of_ofGroups compiled)
  constructor
  · refine forall₂_congr fun target run => forall_congr' fun navigation => ?_
    refine forall₂_congr fun module within => ?_
    exact loaded_iff made wellFormed partitions (reachable_of_navigation navigation within)
  · rintro keepsImports undissolved target run navigation module within ⟨late, unstarted⟩
    have isRoot := navigation.mem_groupRoots target List.mem_cons_self
    rcases navigation.covered keepsImports target List.mem_cons_self module
      (ModuleGraph.mem_loadedWith_of_mem_closure isRoot within) with
      early | ⟨other, imported, keeps⟩
    · exact late early
    · exact undissolved other module keeps (unstarted other imported keeps)

theorem kept_twoPages :
    (twoPages.elidedGroups.filter (·.start = .onDemand)).map (·.roots) = [[1], [2]] := by cbv

theorem started_twoPages :
    ((numbered (finalDrafts (spreadDrafts twoPages toolRules {}))).chunks.filter
      (·.kind = .onDemand)).map (·.roots) = [[1], [2]] := by cbv

theorem loadsImports_twoPages :
    ∃ reports chunks, split twoPages toolRules {} = (reports, .ok chunks) ∧
      chunks.LoadsImports twoPages := by
  obtain ⟨reports, chunks, made⟩ := exists_split_twoPages
  obtain ⟨exactly, unexposed⟩ := loadsImports_iff_of_split ofGroups_toolGroups made
  have keepsImports : twoPages.KeepsImports := by
    have same : twoPages.groupImports = twoPages.groupEdges := by cbv
    exact fun edge imported _ => same ▸ imported
  have undissolved : chunks.Undissolved twoPages := by
    rintro target module ⟨group, member, onDemand, isRoot, _⟩
    refine startedBy?_ne_none ?_ isRoot
    rw [(split_ok made).1, started_twoPages, ← kept_twoPages]
    exact List.mem_map_of_mem (List.mem_filter.2 ⟨member, decide_eq_true onDemand⟩)
  refine ⟨reports, chunks, made, exactly.2 ?_⟩
  intro target run navigation module within exposed
  exact absurd exposed (unexposed keepsImports undissolved target run navigation module within)

/-! ## Runs that are not loaded -/

/-- The first of three pages needs one module with the second, and one with both others. So sharing
empties its group, and no chunk is left that refers to both. -/
def threePages : ModuleGraph where
  root := "/app"
  modules := ⟨#[
    moduleAt 0 "main.js" [⟨1, .async, "./a"⟩, ⟨2, .async, "./b"⟩, ⟨3, .async, "./c"⟩],
    moduleAt 1 "a.js" [⟨4, .sync, "./d"⟩],
    moduleAt 2 "b.js" [⟨1, .sync, "./a"⟩],
    moduleAt 3 "c.js" [⟨4, .sync, "./d"⟩],
    moduleAt 4 "d.js" []]⟩
  entries := [⟨"main", [0]⟩]

/-- Two pages import each other. The second import gives no edge, so a module of the second page is
elided although the first page is a way to it. -/
def loopedPages : ModuleGraph where
  root := "/app"
  modules := ⟨#[
    moduleAt 0 "main.js" [⟨1, .async, "./a"⟩, ⟨3, .async, "./c"⟩],
    moduleAt 1 "a.js" [⟨2, .sync, "./b"⟩, ⟨4, .async, "./d"⟩],
    moduleAt 2 "b.js" [],
    moduleAt 3 "c.js" [⟨5, .async, "./e"⟩],
    moduleAt 4 "d.js" [⟨2, .sync, "./b"⟩, ⟨5, .async, "./e"⟩],
    moduleAt 5 "e.js" [⟨4, .async, "./d"⟩]]⟩
  entries := [⟨"main", [0]⟩]

/-- Whoever holds a module that is needed has to be loaded. -/
theorem not_loadsImports (navigation : graph.Navigation (target :: run))
    (within : module ∈ graph.closure [target]) {id : Nat}
    (held : (chunks.chunks.filter fun chunk => module ∈ chunk.modules).map (·.id) = [id])
    (unloaded : id ∉ chunks.loadedAfter (target :: run)) : ¬ chunks.LoadsImports graph := by
  intro loads
  obtain ⟨chunk, member, holds, loaded⟩ := loads target run navigation module within
  have listed : chunk.id ∈ (chunks.chunks.filter fun chunk => module ∈ chunk.modules).map (·.id) :=
    List.mem_map_of_mem (List.mem_filter.2 ⟨member, decide_eq_true holds⟩)
  rw [held, List.mem_singleton] at listed
  exact unloaded (listed ▸ loaded)

theorem ofGroups_nil : CacheGroup.Rule.ofGroups [] = .ok [] := by cbv

theorem navigation_threePages : threePages.Navigation [1] := by
  have entry : ⟨"main", [0]⟩ ∈ threePages.entries := List.mem_singleton_self _
  have start : threePages.closure [0] = [0] := by cbv
  have imports : threePages.targets .async 0 = [1, 2, 3] := by cbv
  exact .fromEntry .start entry (by simp [start] : 0 ∈ threePages.closure [0]) (by simp [imports])

theorem loaded_threePages :
    let chunks := numbered (finalDrafts (spreadDrafts threePages [] {}))
    ((chunks.chunks.filter fun chunk => 4 ∈ chunk.modules).map (·.id), chunks.loadedAfter [1]) =
      ([4], [5, 0, 3]) := by
  cbv

/-- The first page is imported, and what it needs is not loaded. -/
theorem not_loadsImports_threePages :
    ∃ reports chunks, CacheGroup.Rule.ofGroups [] = .ok [] ∧
      split threePages [] {} = (reports, .ok chunks) ∧ ¬ chunks.LoadsImports threePages := by
  obtain ⟨reports, chunks, made⟩ := exists_split_of_no_rules threePages {}
  obtain ⟨held, loaded⟩ := Prod.mk.inj loaded_threePages
  rw [← (split_ok made).1] at held loaded
  have page : threePages.closure [1] = [1, 4] := by cbv
  refine ⟨reports, chunks, ofGroups_nil, made,
    not_loadsImports navigation_threePages (by simp [page]) held ?_⟩
  simp [loaded]

theorem navigation_loopedPages : loopedPages.Navigation [4, 5, 3] := by
  have entry : ⟨"main", [0]⟩ ∈ loopedPages.entries := List.mem_singleton_self _
  have start : loopedPages.closure [0] = [0] := by cbv
  have imports : loopedPages.targets .async 0 = [1, 3] := by cbv
  have third : loopedPages.closure [3] = [3] := by cbv
  have thirdImports : loopedPages.targets .async 3 = [5] := by cbv
  have fifth : loopedPages.closure [5] = [5] := by cbv
  have fifthImports : loopedPages.targets .async 5 = [4] := by cbv
  have first : loopedPages.Navigation [3] :=
    .fromEntry .start entry (by simp [start] : 0 ∈ loopedPages.closure [0]) (by simp [imports])
  have second : loopedPages.Navigation [5, 3] :=
    .fromImport first (by simp : 3 ∈ [3]) (by simp [third] : 3 ∈ loopedPages.closure [3])
      (by simp [thirdImports])
  exact .fromImport second (by simp : 5 ∈ [5, 3]) (by simp [fifth] : 5 ∈ loopedPages.closure [5])
    (by simp [fifthImports])

theorem loaded_loopedPages :
    let chunks := numbered (finalDrafts (spreadDrafts loopedPages [] {}))
    ((chunks.chunks.filter fun chunk => 2 ∈ chunk.modules).map (·.id),
      chunks.loadedAfter [4, 5, 3]) = ([1], [5, 0, 3, 4, 2]) := by
  cbv

/-- The fourth page is imported by way of the fifth, and what it needs is not loaded. -/
theorem not_loadsImports_loopedPages :
    ∃ reports chunks, CacheGroup.Rule.ofGroups [] = .ok [] ∧
      split loopedPages [] {} = (reports, .ok chunks) ∧ ¬ chunks.LoadsImports loopedPages := by
  obtain ⟨reports, chunks, made⟩ := exists_split_of_no_rules loopedPages {}
  obtain ⟨held, loaded⟩ := Prod.mk.inj loaded_loopedPages
  rw [← (split_ok made).1] at held loaded
  have page : loopedPages.closure [4] = [4, 2] := by cbv
  refine ⟨reports, chunks, ofGroups_nil, made,
    not_loadsImports navigation_loopedPages (by simp [page]) held ?_⟩
  simp [loaded]

end Chunk

end WebBundle
