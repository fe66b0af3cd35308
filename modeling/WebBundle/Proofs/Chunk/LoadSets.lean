import WebBundle.Proofs.Chunk.Navigation

/-!
# What an import fetches of its group

An import on demand fetches the chunk of its group with the shared chunks of that, and so all that
the group keeps. If every module of the group is in another group too, sharing moves them all, the
group is dissolved, and nothing tells any more that its modules belong together: then the import
fetches what stands beside the imported module, and the rest of its group only by chance.
-/

namespace WebBundle

namespace ChunkGraph

/-- An import of `target` fetches a chunk that holds the module, or an entry holds it. -/
def Covers (chunks : ChunkGraph) (target module : Nat) : Prop :=
  ∃ chunk ∈ chunks.loadSet target ++ chunks.entries, module ∈ chunk.modules

/-- The module is in the chunk that holds `target`, or in a shared chunk that this one refers to. -/
def Beside (chunks : ChunkGraph) (target module : Nat) : Prop :=
  ∃ own, chunks.chunkOf? target = some own ∧
    (module ∈ own.modules ∨
      ∃ shared ∈ chunks.chunksAt own.children, shared.kind = .shared ∧ module ∈ shared.modules)

end ChunkGraph

/-- The group that an import of `target` starts keeps a module that is in no other group. -/
def ModuleGraph.KeepsOwn (graph : ModuleGraph) (target : Nat) : Prop :=
  ∃ own, graph.Keeps target own ∧ (Chunk.holders graph.groupDrafts own).length < 2

namespace Chunk

open ChunkGraph

variable {graph : ModuleGraph} {rules : List CacheGroup.Rule} {limits : Limits}
variable {reports : List Diagnostic} {chunks : ChunkGraph} {module target : Nat}

/-- The place of the draft that an import starts. -/
theorem exists_place_of_keeps (keeps : graph.Keeps target module) :
    ∃ (place : Nat) (holder : Draft), graph.groupDrafts[place]? = some holder ∧
      holder.kind = .onDemand ∧ target ∈ holder.roots ∧ module ∈ holder.modules := by
  obtain ⟨group, member, onDemand, isRoot, held⟩ := keeps
  obtain ⟨holder, listed, modules, kind, roots⟩ :=
    ModuleGraph.exists_groupDraft_of_elided member held
  obtain ⟨place, stands⟩ := List.mem_iff_getElem?.1 listed
  refine ⟨place, holder, stands, ?_, roots ▸ isRoot, modules ▸ held⟩
  rw [kind, onDemand]
  rfl

/-! ## Groups that are dissolved -/

/-- The chunk of a group on demand holds something. -/
theorem modules_ne_nil_of_onDemand {drafts : List Draft} {chunk : Chunk}
    (member : chunk ∈ (numbered drafts).chunks) (onDemand : chunk.kind = .onDemand) :
    chunk.modules ≠ [] := by
  obtain ⟨id, place, draft, located, stands, rfl⟩ := exists_draft_of_mem member
  obtain ⟨live, there, lives⟩ := mem_livePlaces.1 (List.mem_of_getElem? located)
  obtain rfl := Option.some.inj (there.symm.trans stands)
  change live.kind = .onDemand at onDemand
  change live.modules ≠ []
  intro nothing
  simp [isDissolved, onDemand, nothing] at lives

theorem startedBy?_ne_none_of_draft {drafts : List Draft} {place : Nat} {draft : Draft}
    (stands : drafts[place]? = some draft) (onDemand : draft.kind = .onDemand)
    (isRoot : target ∈ draft.roots) (nonempty : draft.modules ≠ []) :
    (numbered (finalDrafts drafts)).startedBy? target ≠ none := by
  obtain ⟨parents, final, _⟩ := exists_getElem?_finalDrafts stands
  have lives : isDissolved (draft.withParents parents) = false := by
    simp [isDissolved, Draft.withParents, nonempty]
  obtain ⟨id, _, found⟩ := exists_chunk_of_draft final lives
  refine startedBy?_ne_none (List.mem_map_of_mem (List.mem_filter.2
    ⟨List.mem_of_getElem? found, decide_eq_true ?_⟩)) isRoot
  exact onDemand

/-- If splitting succeeds, cache groups took nothing from a draft that is empty. -/
theorem not_mem_parents_of_empty (made : split graph rules limits = (reports, .ok chunks))
    {place : Nat} {draft : Draft} (stands : (spreadDrafts graph rules limits)[place]? = some draft)
    (inside : place < graph.groupDrafts.length) (empty : draft.modules = []) {accepted : Draft}
    (listed : accepted ∈ (cacheGroupDrafts graph rules limits graph.groupDrafts).1) :
    place ∉ accepted.parents := by
  intro isParent
  have drained : accepted.name ∈
      drainedBy (cacheGroupDrafts graph rules limits graph.groupDrafts).1 place := by
    rw [drainedBy, List.mem_eraseDups]
    exact List.mem_map_of_mem (List.mem_filter.2 ⟨listed, decide_eq_true isParent⟩)
  rw [split_eq] at made
  split at made
  next => cases (Prod.mk.inj made).2
  next none =>
    have zipped : (draft, place) ∈
        ((spreadDrafts graph rules limits).take graph.groupDrafts.length).zipIdx := by
      rw [List.mk_mem_zipIdx_iff_getElem?, List.getElem?_take_of_lt inside]
      exact stands
    have kept := List.findSome?_eq_none_iff.1 none _ zipped
    simp [empty, List.ne_nil_of_mem drained] at kept

/-- A group on demand still starts a chunk exactly if something in it is in no other group. If all
of it is in others too, sharing moves all that cache groups leave. -/
theorem startedBy?_ne_none_iff (made : split graph rules limits = (reports, .ok chunks)) :
    chunks.startedBy? target ≠ none ↔ graph.KeepsOwn target := by
  obtain ⟨rfl, _⟩ := split_ok made
  constructor
  · intro starts
    obtain ⟨chunk, found⟩ := Option.ne_none_iff_exists'.1 starts
    obtain ⟨member, kind, isRoot⟩ := mem_chunks_of_startedBy found
    obtain ⟨id, stands⟩ := List.mem_iff_getElem?.1 member
    obtain ⟨place, holder, _, there, holderKind, roots, modules⟩ :=
      exists_group_of_chunk (fun _ => shares_of_mem_sharedDrafts) stands (Or.inr kind)
    obtain ⟨own, within⟩ := List.exists_mem_of_ne_nil _ (modules_ne_nil_of_onDemand member kind)
    rw [modules, List.mem_filter, decide_eq_true_eq] at within
    refine ⟨own, (mem_modules_iff_keeps (List.mem_of_getElem? there) (holderKind.symm.trans kind)
      (roots ▸ isRoot)).1 within.1, ?_⟩
    by_contra several
    exact within.2 (mem_sharedDrafts_of_several (Nat.le_of_not_lt several))
  · rintro ⟨own, keepsOwn, single⟩
    obtain ⟨place, holder, stands, kind, isRoot, held⟩ := exists_place_of_keeps keepsOwn
    have moved : (spreadDrafts graph rules limits)[place]? = _ := getElem?_spread_group stands
    refine startedBy?_ne_none_of_draft moved kind isRoot fun empty => ?_
    have moves : own ∈ (sharedDrafts graph rules limits graph.groupDrafts).flatMap (·.modules) := by
      by_contra stays
      have left : own ∈ holder.modules.filter (· ∉
          (sharedDrafts graph rules limits graph.groupDrafts).flatMap (·.modules)) :=
        List.mem_filter.2 ⟨held, decide_eq_true stays⟩
      exact List.ne_nil_of_mem left empty
    rw [sharedDrafts, List.flatMap_append, List.mem_append, mem_modules_dedupDrafts,
      mem_repeated] at moves
    rcases moves with claimed | ⟨_, _, several⟩
    · obtain ⟨accepted, listed, within⟩ := List.mem_flatMap.1 claimed
      have isParent := ((shares_of_mem_cacheGroupDrafts listed).parents place).2
        ⟨own, within, mem_holders.2 ⟨holder, stands, held⟩⟩
      have inside := (List.getElem?_eq_some_iff.1 stands).1
      exact not_mem_parents_of_empty made moved inside empty listed isParent
    · exact Nat.not_le_of_lt single several

/-! ## What is fetched -/

/-- No entry keeps what a group on demand keeps: both would hold it, so it moves. -/
theorem not_mem_entry_of_keeps (made : split graph rules limits = (reports, .ok chunks))
    (keeps : graph.Keeps target module) {entry : Chunk} (isEntry : entry ∈ chunks.entries) :
    module ∉ entry.modules := by
  obtain ⟨rfl, _⟩ := split_ok made
  obtain ⟨member, kind⟩ := mem_of_mem_entries isEntry
  obtain ⟨id, stands⟩ := List.mem_iff_getElem?.1 member
  obtain ⟨place, holder, _, there, holderKind, _, modules⟩ :=
    exists_group_of_chunk (fun _ => shares_of_mem_sharedDrafts) stands (Or.inl kind)
  obtain ⟨other, started, there', onDemand, _, held⟩ := exists_place_of_keeps keeps
  rw [modules, List.mem_filter, decide_eq_true_eq]
  rintro ⟨held', stays⟩
  have distinct : place ≠ other := by
    rintro rfl
    obtain rfl := Option.some.inj (there.symm.trans there')
    rw [← holderKind, kind] at onDemand
    cases onDemand
  exact stays (mem_sharedDrafts_of_several (two_le_length_holders distinct
    (mem_holders.2 ⟨holder, there, held'⟩) (mem_holders.2 ⟨started, there', held⟩)))

theorem covers_of_beside (made : split graph rules limits = (reports, .ok chunks))
    (beside : chunks.Beside target module) : chunks.Covers target module := by
  obtain ⟨own, holds, held | ⟨shared, below, kind, held⟩⟩ := beside
  · cases mem_entries_or_loadSet made holds held with
    | inl isEntry => exact ⟨own, List.mem_append_right _ isEntry, held⟩
    | inr fetched => exact ⟨own, List.mem_append_left _ fetched, held⟩
  · have fetched : shared ∈ chunks.loadSet target :=
      mem_loadSet.2 ⟨own, Or.inr holds, mem_fetchedWith.2 (Or.inr ⟨below, kind⟩)⟩
    exact ⟨shared, List.mem_append_left _ fetched, held⟩

/-- Without a chunk that the import starts, only what stands beside its target is fetched. -/
theorem beside_of_mem_loadSet (unstarted : chunks.startedBy? target = none) {chunk : Chunk}
    (fetched : chunk ∈ chunks.loadSet target) (held : module ∈ chunk.modules) :
    chunks.Beside target module := by
  obtain ⟨own, starts | holds, fetched⟩ := mem_loadSet.1 fetched
  · rw [unstarted] at starts
    cases starts
  · rcases mem_fetchedWith.1 fetched with ⟨rfl, _⟩ | ⟨below, kind⟩
    · exact ⟨chunk, holds, Or.inl held⟩
    · exact ⟨own, holds, Or.inr ⟨chunk, below, kind, held⟩⟩

/-- An import loads a module that its group keeps exactly if the group keeps something that is in no
other group, or if the module stands beside the imported one. -/
theorem covers_iff_of_split
    (made : split graph rules limits = (reports, .ok chunks))
    (keeps : graph.Keeps target module) :
    chunks.Covers target module ↔ graph.KeepsOwn target ∨ chunks.Beside target module := by
  rw [← startedBy?_ne_none_iff made]
  constructor
  · rintro ⟨chunk, member, held⟩
    rw [or_iff_not_imp_left, not_ne_iff]
    intro unstarted
    cases List.mem_append.1 member with
    | inl fetched => exact beside_of_mem_loadSet unstarted fetched held
    | inr isEntry => exact absurd held (not_mem_entry_of_keeps made keeps isEntry)
  · rintro (starts | beside)
    · obtain ⟨chunk, found⟩ := Option.ne_none_iff_exists'.1 starts
      obtain ⟨fetched, member, held⟩ := exists_fetched_of_startedBy made keeps found
      exact ⟨fetched, List.mem_append_left _ member, held⟩
    · exact covers_of_beside made beside

theorem keeps_of_mem {roots modules : List Nat}
    (listed : (LoadGroup.Start.onDemand, roots, modules) ∈
      graph.elidedGroups.map fun group => (group.start, group.roots, group.modules))
    (isRoot : target ∈ roots) (held : module ∈ modules) : graph.Keeps target module := by
  obtain ⟨group, member, same⟩ := List.mem_map.1 listed
  obtain ⟨start, rest⟩ := Prod.mk.inj same
  obtain ⟨rfl, rfl⟩ := Prod.mk.inj rest
  exact ⟨group, member, start, isRoot, held⟩

theorem elided_twoPages :
    twoPages.elidedGroups.map (fun group => (group.start, group.roots, group.modules)) =
      [(.entry, [0], [0]), (.onDemand, [1], [1, 3]), (.onDemand, [2], [2, 3])] := by cbv

/-- The first page is in no other group, so its import loads the tool. -/
theorem covers_twoPages :
    ∃ reports chunks, split twoPages toolRules {} = (reports, .ok chunks) ∧
      twoPages.Keeps 1 3 ∧ chunks.Covers 1 3 := by
  obtain ⟨reports, chunks, made⟩ := exists_split_twoPages
  have listed : (LoadGroup.Start.onDemand, [1], [1, 3]) ∈
      twoPages.elidedGroups.map fun group => (group.start, group.roots, group.modules) := by
    simp [elided_twoPages]
  have keepsPage : twoPages.Keeps 1 1 := keeps_of_mem listed (by simp) (by simp)
  have keepsTool : twoPages.Keeps 1 3 := keeps_of_mem listed (by simp) (by simp)
  have single : (holders twoPages.groupDrafts 1).length < 2 := by
    have holding : holders twoPages.groupDrafts 1 = [1] := by cbv
    simp [holding]
  exact ⟨reports, chunks, made, keepsTool,
    (covers_iff_of_split made keepsTool).2 (Or.inl ⟨1, keepsPage, single⟩)⟩

/-! ## A group that is not fetched -/

theorem elided_threePages :
    threePages.elidedGroups.map (fun group => (group.start, group.roots, group.modules)) =
      [(.entry, [0], [0]), (.onDemand, [1], [1, 4]), (.onDemand, [2], [2, 1, 4]),
        (.onDemand, [3], [3, 4])] := by cbv

theorem keeps_threePages : threePages.Keeps 1 4 := by
  have listed : (LoadGroup.Start.onDemand, [1], [1, 4]) ∈
      threePages.elidedGroups.map fun group => (group.start, group.roots, group.modules) := by
    simp [elided_threePages]
  exact keeps_of_mem listed (by simp) (by simp)

theorem fetched_threePages :
    let chunks := numbered (finalDrafts (spreadDrafts threePages [] {}))
    ((chunks.chunks.filter fun chunk => 4 ∈ chunk.modules).map (·.id),
      (chunks.loadSet 1 ++ chunks.entries).map (·.id)) = ([4], [3, 0]) := by
  cbv

/-- The first page and what it needs are in other groups too, and its import does not fetch what it
needs. -/
theorem not_covers_threePages :
    ∃ reports chunks, split threePages [] {} = (reports, .ok chunks) ∧
      threePages.Keeps 1 4 ∧ ¬ chunks.Covers 1 4 := by
  obtain ⟨reports, chunks, made⟩ := exists_split_of_no_rules threePages {}
  obtain ⟨holding, fetched⟩ := Prod.mk.inj fetched_threePages
  rw [← (split_ok made).1] at holding fetched
  refine ⟨reports, chunks, made, keeps_threePages, ?_⟩
  rintro ⟨chunk, member, held⟩
  have listed : chunk ∈ chunks.chunks := by
    cases List.mem_append.1 member with
    | inl fetched => exact mem_chunks_of_loadSet fetched
    | inr isEntry => exact (mem_of_mem_entries isEntry).1
  have isHolder : chunk.id ∈ (chunks.chunks.filter fun chunk => 4 ∈ chunk.modules).map (·.id) :=
    List.mem_map_of_mem (List.mem_filter.2 ⟨listed, decide_eq_true held⟩)
  have isFetched : chunk.id ∈ (chunks.loadSet 1 ++ chunks.entries).map (·.id) :=
    List.mem_map_of_mem member
  rw [holding, List.mem_singleton] at isHolder
  simp [fetched, isHolder] at isFetched

end Chunk

end WebBundle
