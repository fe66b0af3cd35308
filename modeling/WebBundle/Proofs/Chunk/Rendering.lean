import WebBundle.Chunk.Emitted
import WebBundle.Proofs.Chunk.Mirror

/-!
# Written chunks of mirrored graphs

What a chunk is written as names modules by their keys and chunks by their names, never by number.
If a graph mirrors another, the text of a chunk is therefore the same for both wherever the code of
its modules is, and if that holds for all chunks, so are all digests and file names.
-/

namespace WebBundle

theorem Chunk.relabel_injective {number : Nat → Nat} (injective : Function.Injective number) :
    Function.Injective (Chunk.relabel number) := by
  intro first second same
  obtain ⟨_, _, _, _, modules, roots, _, _, _⟩ := first
  obtain ⟨_, _, _, _, modules', roots', _, _, _⟩ := second
  simpa only [Chunk.relabel, Chunk.mk.injEq, injective.list_map.eq_iff] using same

namespace ChunkGraph

variable {number : Nat → Nat} (chunks : ChunkGraph)

/-! ## Chunks under other numbers -/

theorem chunksAt_relabel (ids : List Nat) :
    (chunks.relabel number).chunksAt ids = (chunks.chunksAt ids).map (·.relabel number) := by
  rw [chunksAt, chunksAt, List.map_filterMap]
  refine List.filterMap_congr fun id _ => ?_
  rw [chunk?, ChunkGraph.relabel, List.getElem?_map, chunk?]

theorem required_relabel (chunk : Chunk) :
    (chunks.relabel number).required (chunk.relabel number) =
      (chunks.required chunk).map (·.relabel number) := by
  have below : (chunks.relabel number).chunksAt (chunk.relabel number).children =
      (chunks.chunksAt chunk.children).map (·.relabel number) := chunks.chunksAt_relabel _
  rw [required, below, List.filter_map, required]
  rfl

theorem fetchedWith_relabel (chunk : Chunk) :
    (chunks.relabel number).fetchedWith (chunk.relabel number) =
      (chunks.fetchedWith chunk).map (·.relabel number) := by
  have below : (chunks.relabel number).chunksAt (chunk.relabel number).children =
      (chunks.chunksAt chunk.children).map (·.relabel number) := chunks.chunksAt_relabel _
  have itself : (if (chunk.relabel number).kind = .onDemand || (chunk.relabel number).kind = .shared
        then [chunk.relabel number] else []) =
      (if chunk.kind = .onDemand || chunk.kind = .shared then [chunk] else []).map
        (·.relabel number) := by
    rw [apply_ite (List.map _)]
    rfl
  rw [fetchedWith, below, itself, List.filter_map, fetchedWith, List.map_append]
  rfl

variable (injective : Function.Injective number)

include injective

theorem startedBy?_relabel (module : Nat) :
    (chunks.relabel number).startedBy? (number module) =
      (chunks.startedBy? module).map (·.relabel number) := by
  rw [startedBy?, ChunkGraph.relabel, List.find?_map, startedBy?]
  congr 2
  funext chunk
  simp only [Function.comp_apply, Chunk.relabel, List.mem_map_of_injective injective]

theorem chunkOf?_relabel (module : Nat) :
    (chunks.relabel number).chunkOf? (number module) =
      (chunks.chunkOf? module).map (·.relabel number) := by
  rw [chunkOf?, ChunkGraph.relabel, List.find?_map, chunkOf?]
  congr 2
  funext chunk
  simp only [Function.comp_apply, Chunk.relabel, List.mem_map_of_injective injective]

theorem loadSet_relabel (module : Nat) :
    (chunks.relabel number).loadSet (number module) =
      (chunks.loadSet module).map (·.relabel number) := by
  have starts : ∀ start : Option Chunk,
      (start.map (·.relabel number)).toList = start.toList.map (·.relabel number) := by
    intro start
    cases start with
    | none => rfl
    | some chunk => rfl
  rw [loadSet, startedBy?_relabel chunks injective, chunkOf?_relabel chunks injective, starts,
    starts, ← List.map_append, List.flatMap_map, loadSet,
    ← eraseDups_map (Chunk.relabel_injective injective), List.map_flatMap]
  simp only [fetchedWith_relabel]

end ChunkGraph

namespace Chunk

open ModuleGraph

/-! ## Imports under other numbers -/

section

variable {number : Nat → Nat} (dependencies : List Dependency)

theorem importFor?_eq (specifier : String) :
    importFor? dependencies specifier =
      ((dependencies.filter (·.specifier = specifier)).filter (·.timing = .async)).getLast?.or
        (dependencies.filter (·.specifier = specifier)).getLast? := by
  rw [importFor?]
  cases ((dependencies.filter (·.specifier = specifier)).filter (·.timing = .async)).getLast? with
  | none => rfl
  | some dependency => rfl

theorem importFor?_relabel (specifier : String) :
    importFor? (dependencies.map (·.relabel number)) specifier =
      (importFor? dependencies specifier).map (·.relabel number) := by
  simp only [importFor?_eq, List.filter_map, List.getLast?_map, ← Option.map_or]
  rfl

theorem specifiers_relabel :
    specifiers (dependencies.map (·.relabel number)) = specifiers dependencies := by
  rw [specifiers, List.map_map, specifiers]
  rfl

theorem mem_of_importFor? {specifier : String} {dependency : Dependency}
    (found : importFor? dependencies specifier = some dependency) :
    dependency ∈ dependencies := by
  rw [importFor?_eq, Option.or_eq_some_iff] at found
  rcases found with onDemand | ⟨_, last⟩
  · exact (List.mem_filter.1 (List.mem_filter.1 (List.mem_of_getLast? onDemand)).1).1
  · exact (List.mem_filter.1 (List.mem_of_getLast? last)).1

end

/-! ## Texts -/

variable {number : Nat → Nat} {graph other : ModuleGraph} (chunks : ChunkGraph)

/-- The text of the modules depends on the texts of the single ones alone. -/
theorem modulesText_eq (modules : List Module) :
    modulesText graph chunks modules =
      match modules.map (moduleText graph chunks) with
      | [] => ""
      | texts => ",\n".intercalate texts ++ "\n" := by
  cases modules with
  | nil => rfl
  | cons module modules => rfl

/-- A module has the same code in both graphs. -/
def SameBody (number : Nat → Nat) (graph other : ModuleGraph) (id : Nat) : Prop :=
  (other.module? (number id)).map moduleBody = (graph.module? id).map moduleBody

variable (injective : Function.Injective number) (mirrors : Mirrors number graph other)

include mirrors

theorem startText_mirrored {chunk : Chunk} (roots : ∀ id ∈ chunk.roots, graph.Reachable id) :
    startText other (chunks.relabel number) (chunk.relabel number) =
      startText graph chunks chunk := by
  have keys : (chunk.relabel number).roots.map other.keyOf = chunk.roots.map graph.keyOf := by
    change (chunk.roots.map number).map other.keyOf = _
    rw [List.map_map]
    exact List.map_congr_left fun id isRoot => mirrors.keyOf (roots id isRoot)
  have required : ((chunks.relabel number).required (chunk.relabel number)).map (·.name) =
      (chunks.required chunk).map (·.name) := by
    rw [chunks.required_relabel, List.map_map]
    rfl
  rw [startText, keys, required, startText]
  rfl

include injective

theorem targetJson_mirrored {dependency : Dependency}
    (reachable : graph.Reachable dependency.target) :
    targetJson other (chunks.relabel number) (dependency.relabel number) =
      targetJson graph chunks dependency := by
  have key : other.keyOf (dependency.relabel number).target = graph.keyOf dependency.target :=
    mirrors.keyOf reachable
  have loaded : (chunks.relabel number).loadSet (dependency.relabel number).target =
      (chunks.loadSet dependency.target).map (·.relabel number) :=
    chunks.loadSet_relabel injective _
  rw [targetJson, key, loaded, List.map_map, targetJson]
  rfl

theorem dependencyTable_mirrored {dependencies : List Dependency}
    (reachable : ∀ dependency ∈ dependencies, graph.Reachable dependency.target) :
    dependencyTable other (chunks.relabel number) (dependencies.map (·.relabel number)) =
      dependencyTable graph chunks dependencies := by
  rw [dependencyTable, specifiers_relabel, dependencyTable]
  congr 1
  refine List.filterMap_congr fun specifier _ => ?_
  rw [importFor?_relabel, Option.map_map]
  cases found : importFor? dependencies specifier with
  | none => rfl
  | some dependency =>
      have listed := mem_of_importFor? dependencies found
      simp only [Option.map_some, Function.comp_apply,
        targetJson_mirrored chunks injective mirrors (reachable dependency listed)]

theorem moduleText_mirrored {id : Nat} (reachable : graph.Reachable id)
    (sameBody : SameBody number graph other id) :
    (other.module? (number id)).map (moduleText other (chunks.relabel number)) =
      (graph.module? id).map (moduleText graph chunks) := by
  unfold SameBody at sameBody
  rcases mirrors.module?_cases reachable with
    ⟨none, none'⟩ | ⟨module, mirrored, found, found', same⟩
  · simp [none, none']
  · have targets : ∀ dependency ∈ module.dependencies, graph.Reachable dependency.target := by
      intro dependency listed
      exact reachable.imports ⟨dependency, by simpa [ModuleGraph.dependencies, found], rfl⟩
    rw [found, found', Option.map_some, Option.map_some, Option.some.injEq] at sameBody ⊢
    rw [moduleText, same.key, sameBody, same.dependencies,
      dependencyTable_mirrored chunks injective mirrors targets, moduleText]

/-- The text of a chunk shows the code of its own modules only. -/
theorem text_mirrored {chunk : Chunk} (roots : ∀ id ∈ chunk.roots, graph.Reachable id)
    (modules : ∀ id ∈ chunk.modules, graph.Reachable id)
    (sameBody : ∀ id ∈ chunk.modules, SameBody number graph other id) :
    text other (chunks.relabel number) (chunk.relabel number) = text graph chunks chunk := by
  have texts : ((chunk.relabel number).modules.filterMap other.module?).map
        (moduleText other (chunks.relabel number)) =
      (chunk.modules.filterMap graph.module?).map (moduleText graph chunks) := by
    change ((chunk.modules.map number).filterMap other.module?).map _ = _
    rw [List.filterMap_map, List.map_filterMap, List.map_filterMap]
    exact List.filterMap_congr fun id held =>
      moduleText_mirrored chunks injective mirrors (modules id held) (sameBody id held)
  rw [text, modulesText_eq, texts, startText_mirrored chunks mirrors roots, text,
    modulesText_eq]
  rfl

end Chunk

/-- All that the chunks hold and start is reachable. -/
structure ChunkGraph.Within (chunks : ChunkGraph) (graph : ModuleGraph) : Prop where
  modules : ∀ chunk ∈ chunks.chunks, ∀ id ∈ chunk.modules, graph.Reachable id
  roots : ∀ chunk ∈ chunks.chunks, ∀ id ∈ chunk.roots, graph.Reachable id

namespace Chunk

open ModuleGraph

variable {graph : ModuleGraph} {rules : List CacheGroup.Rule} {limits : Limits}

theorem reachable_of_groupDraft_root {draft : Draft} (listed : draft ∈ graph.groupDrafts) {id : Nat}
    (isRoot : id ∈ draft.roots) : graph.Reachable id := by
  obtain ⟨place, elided, stands, _, _, roots⟩ := mem_groupDrafts_modules listed
  obtain ⟨group, found, rfl⟩ := exists_loadGroup_of_elided stands
  rw [roots, LoadGroup.roots_dropAvailable] at isRoot
  have member := List.mem_of_getElem? found
  refine exists_loadGroup_iff.1 ⟨group, member, ?_⟩
  rw [modules_of_mem_loadGroups member]
  exact mem_closure_of_mem isRoot

theorem roots_of_mem_sharedDrafts {groups : List Draft} {draft : Draft}
    (listed : draft ∈ sharedDrafts graph rules limits groups) : draft.roots = [] := by
  cases List.mem_append.1 listed with
  | inl claimed =>
      obtain ⟨chosen, _, _, made⟩ := exists_cacheGroupDrafts_eq
      rw [made] at claimed
      obtain ⟨rule, _, rfl⟩ := List.mem_map.1 claimed
      rfl
  | inr repeated =>
      obtain ⟨parents, _, rfl⟩ := List.mem_map.1 repeated
      rfl

theorem within_of_split {reports : List Diagnostic} {chunks : ChunkGraph}
    (made : split graph rules limits = (reports, .ok chunks)) : chunks.Within graph := by
  obtain ⟨rfl, _⟩ := split_ok made
  constructor
  case modules =>
    intro chunk listed id held
    have member := List.mem_flatMap.2 ⟨chunk, listed, held⟩
    rw [flatMap_modules_numbered] at member
    exact mem_spreadDrafts.1 member
  case roots =>
    intro chunk listed id isRoot
    obtain ⟨_, place, draft, _, stands, rfl⟩ := exists_draft_of_mem listed
    change id ∈ draft.roots at isRoot
    rcases exists_origin stands with last | ⟨origin, there, same⟩
    · rw [last] at isRoot
      cases isRoot
    · rw [same] at isRoot
      change id ∈ origin.roots at isRoot
      cases List.mem_append.1 (List.mem_of_getElem? there) with
      | inl group =>
          obtain ⟨holder, drafted, rfl⟩ := List.mem_map.1 group
          exact reachable_of_groupDraft_root drafted isRoot
      | inr shared =>
          rw [roots_of_mem_sharedDrafts shared] at isRoot
          cases isRoot

end Chunk

def Unallocated.relabel (number : Nat → Nat) (missing : Unallocated) : Unallocated :=
  ⟨number missing.id⟩

namespace ModuleGraph.Mirrors

variable {number : Nat → Nat} {graph other : ModuleGraph} {chunks : ChunkGraph}

theorem size_le_iff (mirrors : Mirrors number graph other) {id : Nat}
    (reachable : graph.Reachable id) : other.size ≤ number id ↔ graph.size ≤ id := by
  have beyond : ∀ (graph : ModuleGraph) (id : Nat), graph.module? id = none ↔ graph.size ≤ id :=
    fun graph id => Array.getElem?_eq_none_iff
  rw [← beyond, ← beyond]
  rcases mirrors.module?_cases reachable with ⟨none, none'⟩ | ⟨module, mirrored, found, found', _⟩
  · simp [none, none']
  · simp [found, found']

/-- The same import is the first without a module. -/
theorem missingTarget? (mirrors : Mirrors number graph other) (within : chunks.Within graph) :
    Chunk.missingTarget? other (chunks.relabel number) =
      (Chunk.missingTarget? graph chunks).map (Unallocated.relabel number) := by
  have targets : ((chunks.relabel number).chunks.flatMap fun chunk =>
        chunk.modules.flatMap other.dependencies).map (·.target) =
      ((chunks.chunks.flatMap fun chunk =>
        chunk.modules.flatMap graph.dependencies).map (·.target)).map number := by
    have imports : ∀ chunk ∈ chunks.chunks,
        (chunk.relabel number).modules.flatMap other.dependencies =
          (chunk.modules.flatMap graph.dependencies).map (·.relabel number) := by
      intro chunk listed
      change (chunk.modules.map number).flatMap other.dependencies = _
      rw [List.flatMap_map, List.map_flatMap]
      exact List.flatMap_congr fun id held =>
        mirrors.dependencies (within.modules chunk listed id held)
    rw [ChunkGraph.relabel, List.flatMap_map, List.flatMap_congr imports, ← List.map_flatMap,
      List.map_map, List.map_map]
    rfl
  have beyond : ∀ id ∈ (chunks.chunks.flatMap fun chunk =>
      chunk.modules.flatMap graph.dependencies).map (·.target),
      decide (other.size ≤ number id) = decide (graph.size ≤ id) := by
    intro id member
    obtain ⟨dependency, listed, rfl⟩ := List.mem_map.1 member
    obtain ⟨chunk, inside, listed⟩ := List.mem_flatMap.1 listed
    obtain ⟨source, held, listed⟩ := List.mem_flatMap.1 listed
    have reachable := (within.modules chunk inside source held).imports ⟨dependency, listed, rfl⟩
    rw [decide_eq_decide]
    exact mirrors.size_le_iff reachable
  rw [Chunk.missingTarget?, targets, List.find?_map, Option.map_map, Chunk.missingTarget?,
    Option.map_map]
  exact congrArg (Option.map _) (List.find?_congr beyond)

end ModuleGraph.Mirrors

namespace EmittedChunk

open ModuleGraph

variable {number : Nat → Nat} {graph other : ModuleGraph} {chunks : ChunkGraph}
  (emission : Emission) (injective : Function.Injective number)
  (mirrors : Mirrors number graph other) (within : chunks.Within graph)

include injective mirrors within

theorem digested_mirrored {chunk : Chunk} (listed : chunk ∈ chunks.chunks)
    (sameBody : ∀ id ∈ chunk.modules, Chunk.SameBody number graph other id) :
    digested other (chunks.relabel number) (chunk.relabel number) =
      digested graph chunks chunk := by
  have children : ((chunks.relabel number).chunksAt (chunk.relabel number).children).map (·.name) =
      (chunks.chunksAt chunk.children).map (·.name) := by
    rw [chunks.chunksAt_relabel, List.map_map]
    rfl
  rw [digested, Chunk.text_mirrored chunks injective mirrors (within.roots chunk listed)
    (within.modules chunk listed) sameBody, children, digested]

theorem ofChunk_mirrored {chunk : Chunk} (listed : chunk ∈ chunks.chunks)
    (sameBody : ∀ id ∈ chunk.modules, Chunk.SameBody number graph other id) :
    ofChunk emission other (chunks.relabel number) (chunk.relabel number) =
      ofChunk emission graph chunks chunk := by
  rw [ofChunk, digested_mirrored injective mirrors within listed sameBody,
    Chunk.text_mirrored chunks injective mirrors (within.roots chunk listed)
      (within.modules chunk listed) sameBody, ofChunk]
  rfl

/-- If all code is the same, so is all that is written. -/
theorem all_mirrored
    (sameBody : ∀ id, graph.Reachable id → Chunk.SameBody number graph other id) :
    all emission other (chunks.relabel number) = all emission graph chunks := by
  have others : ((chunks.relabel number).chunks.filter fun chunk => chunk.kind ≠ .runtime).map
        (ofChunk emission other (chunks.relabel number)) =
      (chunks.chunks.filter fun chunk => chunk.kind ≠ .runtime).map
        (ofChunk emission graph chunks) := by
    rw [ChunkGraph.relabel, List.filter_map, List.map_map]
    refine List.map_congr_left fun chunk member => ?_
    have listed := (List.mem_filter.1 member).1
    exact ofChunk_mirrored emission injective mirrors within listed fun id held =>
      sameBody id (within.modules chunk listed id held)
  have runtimes : (chunks.relabel number).chunks.filter (·.kind = .runtime) =
      (chunks.chunks.filter (·.kind = .runtime)).map (·.relabel number) := by
    rw [ChunkGraph.relabel, List.filter_map]
    rfl
  rw [all, others, runtimes, List.map_map, all]
  rfl

theorem emit_mirrored
    (sameBody : ∀ id, graph.Reachable id → Chunk.SameBody number graph other id) :
    emit emission other (chunks.relabel number) =
      (emit emission graph chunks).mapError (·.relabel number) := by
  rw [emit, mirrors.missingTarget? within, emit]
  cases Chunk.missingTarget? graph chunks with
  | none => exact congrArg Except.ok (all_mirrored emission injective mirrors within sameBody)
  | some missing => rfl

end EmittedChunk

end WebBundle
