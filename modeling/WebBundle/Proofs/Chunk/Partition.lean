import WebBundle.Proofs.Chunk.Splitting
import WebBundle.Proofs.Module.Indexed

/-!
# One module, one chunk

No pass loses or copies a module: the chunks hold exactly the reachable modules, each of them once
and in one chunk. What is not reachable is reported, in the order of numbers and at its own name.
-/

namespace WebBundle

namespace ChunkGraph

variable {chunks : ChunkGraph}

theorem filter_eq_nil_of_not_mem {listed : List Chunk} {id : Nat}
    (absent : id ∉ listed.flatMap (·.modules)) :
    listed.filter (fun chunk => id ∈ chunk.modules) = [] := by
  refine List.filter_eq_nil_iff.2 fun chunk member held => absent ?_
  exact List.mem_flatMap.2 ⟨chunk, member, of_decide_eq_true held⟩

/-- If nothing is held twice, a module has one chunk. -/
theorem filter_eq_singleton {listed : List Chunk} (nodup : (listed.flatMap (·.modules)).Nodup)
    {chunk : Chunk} (member : chunk ∈ listed) {id : Nat} (held : id ∈ chunk.modules) :
    listed.filter (fun chunk => id ∈ chunk.modules) = [chunk] := by
  induction listed with
  | nil => simp at member
  | cons first listed ih =>
      rw [List.flatMap_cons] at nodup
      obtain ⟨_, nodupRest, apart⟩ := List.nodup_append.1 nodup
      rcases List.mem_cons.1 member with rfl | later
      · have absent : id ∉ listed.flatMap (·.modules) := fun again => apart id held id again rfl
        rw [List.filter_cons_of_pos (by simpa using held), filter_eq_nil_of_not_mem absent]
      · have absent : id ∉ first.modules := by
          intro early
          exact apart id early id (List.mem_flatMap.2 ⟨chunk, later, held⟩) rfl
        rw [List.filter_cons_of_neg (by simpa using absent), ih nodupRest later]

theorem chunkOf?_eq_some (nodup : (chunks.chunks.flatMap (·.modules)).Nodup) {chunk : Chunk}
    (member : chunk ∈ chunks.chunks) {id : Nat} (held : id ∈ chunk.modules) :
    chunks.chunkOf? id = some chunk := by
  rw [chunkOf?, ← List.head?_filter, filter_eq_singleton nodup member held]
  rfl

theorem chunkOf?_eq_none {id : Nat} (absent : ∀ chunk ∈ chunks.chunks, id ∉ chunk.modules) :
    chunks.chunkOf? id = none :=
  List.find?_eq_none.2 fun chunk member => by simpa using absent chunk member

/-- The chunks hold what the entries of a module graph reach, and each of it once. -/
structure Partitions (chunks : ChunkGraph) (graph : ModuleGraph) : Prop where
  once : ∀ id, graph.Reachable id → ∃ chunk,
    chunks.chunks.filter (fun chunk => id ∈ chunk.modules) = [chunk] ∧
      chunk.modules.count id = 1 ∧ chunks.chunkOf? id = some chunk
  nowhere : ∀ id, ¬ graph.Reachable id →
    (∀ chunk ∈ chunks.chunks, id ∉ chunk.modules) ∧ chunks.chunkOf? id = none

theorem partitions_of_nodup {graph : ModuleGraph}
    (nodup : (chunks.chunks.flatMap (·.modules)).Nodup)
    (covers : ∀ id, id ∈ chunks.chunks.flatMap (·.modules) ↔ graph.Reachable id) :
    chunks.Partitions graph := by
  constructor
  case once =>
    intro id reachable
    obtain ⟨chunk, member, held⟩ := List.mem_flatMap.1 ((covers id).2 reachable)
    have nodupOne := (List.nodup_flatMap.1 nodup).1 chunk member
    exact ⟨chunk, filter_eq_singleton nodup member held, List.count_eq_one_of_mem nodupOne held,
      chunkOf?_eq_some nodup member held⟩
  case nowhere =>
    intro id unreachable
    have absent : ∀ chunk ∈ chunks.chunks, id ∉ chunk.modules := fun chunk member held =>
      unreachable ((covers id).1 (List.mem_flatMap.2 ⟨chunk, member, held⟩))
    exact ⟨absent, chunkOf?_eq_none absent⟩

end ChunkGraph

namespace Chunk

open CacheGroup

variable {graph : ModuleGraph}

/-! ## Reports -/

/-- Reports on cache groups are told apart from those on modules by their code. -/
theorem filter_unusedRules (claims : List Claim) (rules : List Rule) :
    (unusedRules claims rules).filter (·.code = .dangling) = [] := by
  refine List.filter_eq_nil_iff.2 fun report member => ?_
  obtain ⟨rule, _, rfl⟩ := List.mem_map.1 member
  change ¬ decide (Code.unusedGroup = Code.dangling) = true
  decide

theorem filter_danglingModules (drafts : List Draft) :
    (danglingModules graph drafts).filter (·.code = .dangling) = danglingModules graph drafts := by
  refine List.filter_eq_self.2 fun report member => ?_
  obtain ⟨module, _, rfl⟩ := List.mem_map.1 member
  rfl

theorem filterMap_module? :
    (List.range graph.size).filterMap graph.module? = graph.modules.toList := by
  have stored : ∀ id, graph.module? id = graph.modules.toList[id]? := by
    intro id
    simp [ModuleGraph.module?, Arena.get?, Arena.toList]
  refine List.ext_getElem? fun id => ?_
  rw [getElem?_filterMap_of_isSome]
  · by_cases inside : id < graph.size
    · rw [List.getElem?_range inside, Option.bind_some, stored]
    · rw [List.getElem?_eq_none (by simpa using inside), Option.bind_none, eq_comm]
      exact List.getElem?_eq_none (Nat.le_of_not_lt inside)
  · intro other member
    have below : other < graph.modules.toList.length := List.mem_range.1 member
    rw [stored, List.getElem?_eq_getElem below]
    rfl

/-- What is reported, in the order of numbers. -/
theorem location_danglingModules (numbered : graph.Numbered) {drafts : List Draft}
    (covers : ∀ id, id ∈ drafts.flatMap (·.modules) ↔ graph.Reachable id) :
    (danglingModules graph drafts).map (·.location) =
      ((List.range graph.size).filter fun id => ¬ graph.Reachable id).map fun id =>
        (graph.module? id).map (·.name) := by
  have one : ∀ id ∈ List.range graph.size,
      ((graph.module? id).filter fun module => module.id ∉ drafts.flatMap (·.modules)).map
          (fun module => some module.name) =
        if ¬ graph.Reachable id then some ((graph.module? id).map (·.name)) else none := by
    intro id member
    have inside : id < graph.modules.items.size := List.mem_range.1 member
    obtain ⟨module, found⟩ : ∃ module, graph.module? id = some module :=
      ⟨_, Array.getElem?_eq_getElem inside⟩
    rw [found, Option.filter_some, numbered id module found]
    by_cases reachable : graph.Reachable id
    · simp [(covers id).2 reachable, reachable]
    · simp [mt (covers id).1 reachable, reachable]
  calc (danglingModules graph drafts).map (·.location)
      = (((List.range graph.size).filterMap graph.module?).filter fun module =>
          module.id ∉ drafts.flatMap (·.modules)).map fun module => some module.name := by
        rw [danglingModules, List.map_map, filterMap_module?]
        rfl
    _ = (List.range graph.size).filterMap fun id =>
          if ¬ graph.Reachable id then some ((graph.module? id).map (·.name)) else none := by
        rw [List.filter_filterMap, List.map_filterMap]
        exact List.filterMap_congr one
    _ = ((List.range graph.size).filter fun id => ¬ graph.Reachable id).map fun id =>
          (graph.module? id).map (·.name) := by
        rw [← List.filterMap_eq_map, List.filterMap_filter]
        simp only [decide_eq_true_eq]
        rfl

theorem partitions_spreadDrafts {rules : List Rule} {limits : Limits}
    (distinct : (rules.map (·.index)).Nodup) :
    (numbered (finalDrafts (spreadDrafts graph rules limits))).Partitions graph := by
  refine ChunkGraph.partitions_of_nodup ?_ fun id => ?_
  · rw [flatMap_modules_numbered]
    exact nodup_spreadDrafts distinct
  · rw [flatMap_modules_numbered]
    exact mem_spreadDrafts

/-- Splitting puts every reachable module into one chunk, and reports every other one once. -/
theorem partitions_of_split (numbered : graph.Numbered) {groups : List CacheGroup}
    {rules : List Rule} (compiled : Rule.ofGroups groups = .ok rules) {limits : Limits}
    {reports : List Diagnostic} {chunks : ChunkGraph}
    (made : split graph rules limits = (reports, .ok chunks)) :
    chunks.Partitions graph ∧
      (reports.filter (·.code = .dangling)).map (·.location) =
        ((List.range graph.size).filter fun id => ¬ graph.Reachable id).map fun id =>
          (graph.module? id).map (·.name) := by
  obtain ⟨rfl, rfl⟩ := split_ok made
  constructor
  · exact partitions_spreadDrafts (Rule.nodup_index_of_ofGroups compiled)
  · rw [List.filter_append, filter_unusedRules, List.nil_append, filter_danglingModules]
    refine location_danglingModules numbered fun id => ?_
    rw [flatMap_modules_finalDrafts]
    exact mem_spreadDrafts

theorem partitions_twoPages :
    ∃ reports chunks, split twoPages toolRules {} = (reports, .ok chunks) ∧
      chunks.Partitions twoPages ∧
        (reports.filter (·.code = .dangling)).map (·.location) = [some "stale.js"] := by
  have numbered : twoPages.Numbered := by
    have all : ∀ id < twoPages.size, (twoPages.module? id).all (·.id = id) :=
      of_decide_eq_true (by cbv)
    intro id module found
    have inside : id < twoPages.size := (Array.getElem?_eq_some_iff.1 found).1
    simpa [found] using all id inside
  obtain ⟨reports, chunks, made⟩ := exists_split_twoPages
  obtain ⟨partitions, reported⟩ := partitions_of_split numbered ofGroups_toolGroups made
  refine ⟨reports, chunks, made, partitions, reported.trans ?_⟩
  cbv

end Chunk

end WebBundle
