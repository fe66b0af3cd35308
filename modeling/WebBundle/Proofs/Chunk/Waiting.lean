import WebBundle.Proofs.Chunk.RuleChunks

/-!
# What entries wait for

An entry waits for the shared chunks below it that are loaded at the start. A group that is
dissolved hands such a chunk to the entries that stand for it. If these entries do not need its
modules at once, they wait for a chunk that only other entries need.
-/

namespace WebBundle

open CacheGroup Chunk

/-- An entry waits for no shared chunk that holds nothing that its roots need at once. -/
def ChunkGraph.WaitsForNeeded (chunks : ChunkGraph) (graph : ModuleGraph) : Prop :=
  ∀ entry ∈ chunks.entries, ∀ shared ∈ chunks.required entry,
    ∃ module ∈ shared.modules, module ∈ graph.closure entry.roots

/-- What some entry loads at once, of a dissolved group, every entry that stands for the group
loads at once. -/
def ModuleGraph.HandsOnNeeded (graph : ModuleGraph) (chunks : ChunkGraph) : Prop :=
  ∀ place ∈ graph.dissolvedGroups chunks, ∀ gone, graph.placedGroups[place]? = some gone →
    ∀ heir, graph.StandsFor chunks place heir → ∀ entry, graph.placedGroups[heir]? = some entry →
      entry.group.start = .entry →
        ∀ module ∈ gone.group.modules, graph.LoadedByEntry module → module ∈ entry.group.modules

namespace Chunk

open ModuleGraph

variable {graph : ModuleGraph} {rules : List Rule} {limits : Limits}
variable {reports : List Diagnostic} {chunks : ChunkGraph} {entry shared : Chunk}
variable {module place heir : Nat}

theorem mem_required_iff (made : split graph rules limits = (reports, .ok chunks))
    (isEntry : entry ∈ chunks.entries) :
    shared ∈ chunks.required entry ↔ shared ∈ chunks.chunks ∧ shared.kind = .shared ∧
      shared.initial = true ∧ entry.id ∈ shared.parents := by
  obtain ⟨member, kind⟩ := ChunkGraph.mem_of_mem_entries isEntry
  have wellFormed : chunks.WellFormed := by
    rw [(split_ok made).1]
    exact wellFormed_spreadDrafts
  have found := wellFormed.chunk?_id member
  have below : ∀ child, child ∈ entry.children ↔
      ∃ other, chunks.chunk? child = some other ∧ entry.id ∈ other.parents := by
    obtain ⟨rfl, _⟩ := split_ok made
    exact fun child => mem_children_numbered found
  have test : (shared.kind = .shared && (entry.kind ≠ .entry || shared.initial)) = true ↔
      shared.kind = .shared ∧ shared.initial = true := by
    simp [kind]
  rw [ChunkGraph.required, List.mem_filter, test, mem_chunksAt]
  constructor
  · rintro ⟨⟨child, isChild, there⟩, kind, initial⟩
    obtain ⟨other, there', isParent⟩ := (below child).1 isChild
    obtain rfl := Option.some.inj (there'.symm.trans there)
    exact ⟨List.mem_of_getElem? there, kind, initial, isParent⟩
  · rintro ⟨listed, kind, initial, isParent⟩
    have there := wellFormed.chunk?_id listed
    exact ⟨⟨shared.id, (below _).2 ⟨shared, there, isParent⟩, there⟩, kind, initial⟩

/-- The modules of a shared chunk without a cache group have the same holders. -/
theorem exists_module_of_shared {groups : List CacheGroup}
    (compiled : Rule.ofGroups groups = .ok rules)
    (made : split graph rules limits = (reports, .ok chunks)) (listed : shared ∈ chunks.chunks)
    (kind : shared.kind = .shared) (ungrouped : shared ∉ chunks.claimed) :
    ∃ module ∈ shared.modules,
      (∀ other ∈ shared.modules, graph.holdersOf other = graph.holdersOf module) ∧
        ∀ id, id ∈ shared.parents ↔ ∃ place ∈ graph.holdersOf module, ∃ heir,
          graph.StandsFor chunks place heir ∧ (graph.standingGroups chunks)[id]? = some heir := by
  obtain ⟨draft, shares, modules, _⟩ := exists_shares_of_shared made listed kind
  obtain ⟨module, within⟩ := List.exists_mem_of_ne_nil _ (modules ▸ shares.nonempty)
  have home := home_of_mem compiled made listed within
  have moves : module ∈ repeatedModules graph rules limits := by
    have moved : chunks.shares module = true :=
      List.any_eq_true.2 ⟨shared, listed, by simp [kind, within]⟩
    refine ((shares_iff_taken_or_repeated made).1 moved).resolve_left ?_
    rintro ⟨chunk, member, grouped, held⟩
    have same : [chunk] = [shared] := (home_of_mem compiled made member held).symm.trans home
    obtain rfl := List.singleton_inj.1 same
    exact ungrouped (List.mem_filter.2 ⟨member, Option.isSome_iff_ne_none.2 grouped⟩)
  obtain ⟨chunk, member, _, _, exactly, _, parents⟩ := exists_shared_chunk made moves
  have same : [chunk] = [shared] :=
    (home_of_mem compiled made member ((exactly module).2 ⟨moves, rfl⟩)).symm.trans home
  obtain rfl := List.singleton_inj.1 same
  exact ⟨module, within, fun other held => ((exactly other).1 held).2, parents⟩

/-- Where a cache group made it, an entry that waits for a shared chunk needs something of it. -/
theorem exists_needed_of_claimed (made : split graph rules limits = (reports, .ok chunks))
    (isEntry : entry ∈ chunks.entries) (member : shared ∈ chunks.claimed)
    (isParent : entry.id ∈ shared.parents) :
    ∃ module ∈ shared.modules, module ∈ graph.closure entry.roots := by
  obtain ⟨place, placed, located, stands, module, within, held⟩ :=
    (mem_parents_of_claimed made member).1 isParent
  have closed := (group_of_entry made isEntry located stands).2
  exact ⟨module, within, closed ▸ held⟩

/-! ## Groups that are dissolved -/

/-- A dissolved group lost its modules only for being held elsewhere too. -/
theorem mem_repeatedModules_of_dissolved (made : split graph rules limits = (reports, .ok chunks))
    (gone : place ∈ graph.dissolvedGroups chunks) {placed : LoadGroup.Placed}
    (stands : graph.placedGroups[place]? = some placed) (held : module ∈ placed.group.modules) :
    module ∈ repeatedModules graph rules limits := by
  obtain ⟨other, stands', empty⟩ := mem_places.1 gone
  obtain rfl := Option.some.inj (stands'.symm.trans stands)
  have moved : chunks.shares module = true := by
    rw [ChunkGraph.empties, Bool.and_eq_true, List.all_eq_true] at empty
    exact empty.2 module held
  refine ((shares_iff_taken_or_repeated made).1 moved).resolve_left ?_
  rintro ⟨chunk, member, grouped, within⟩
  obtain ⟨id, located⟩ := exists_standing_of_claimed made
    (List.mem_filter.2 ⟨member, Option.isSome_iff_ne_none.2 grouped⟩) stands within held
  obtain ⟨another, stands'', keeps⟩ := mem_places.1 (List.mem_of_getElem? located)
  obtain rfl := Option.some.inj (stands''.symm.trans stands)
  simp [empty] at keeps

/-- The group of an entry keeps its chunk. -/
theorem exists_entry_of_group (made : split graph rules limits = (reports, .ok chunks))
    {placed : LoadGroup.Placed} (stands : graph.placedGroups[place]? = some placed)
    (start : placed.group.start = .entry) :
    ∃ entry ∈ chunks.entries, (graph.standingGroups chunks)[entry.id]? = some place := by
  have stays : place ∈ graph.standingGroups chunks :=
    mem_places.2 ⟨placed, stands, by simp [ChunkGraph.empties, start]⟩
  obtain ⟨id, located⟩ := List.mem_iff_getElem?.1 stays
  obtain ⟨entry, isEntry, rfl⟩ := exists_entry_of_standing made located stands start
  exact ⟨entry, isEntry, located⟩

/-- If no entry waits in vain, the entries that stand for a dissolved group need what others load of
it at once. -/
theorem handsOnNeeded_of_waitsForNeeded (made : split graph rules limits = (reports, .ok chunks))
    (waits : chunks.WaitsForNeeded graph) : graph.HandsOnNeeded chunks := by
  intro place gone placed stands heir standsFor holder heirStands start module held early
  have moves := mem_repeatedModules_of_dissolved made gone stands held
  obtain ⟨shared, listed, kind, _, exactly, _, parents⟩ := exists_shared_chunk made moves
  obtain ⟨entry, isEntry, located⟩ := exists_entry_of_group made heirStands start
  have initial : shared.initial = true :=
    (initial_iff_loadedByEntry made listed kind).2 ⟨module, (exactly module).2 ⟨moves, rfl⟩, early⟩
  have isParent : entry.id ∈ shared.parents :=
    (parents entry.id).2 ⟨place, mem_holdersOf.2 ⟨placed, stands, held⟩, heir, standsFor, located⟩
  obtain ⟨other, within, needed⟩ :=
    waits entry isEntry shared ((mem_required_iff made isEntry).2 ⟨listed, kind, initial, isParent⟩)
  have closed := (group_of_entry made isEntry located heirStands).2
  -- what shares a chunk has the same holders, and the entry is one of them
  have holds : heir ∈ graph.holdersOf module := by
    rw [← ((exactly other).1 within).2]
    exact mem_holdersOf.2 ⟨holder, heirStands, closed ▸ needed⟩
  obtain ⟨holder', found, heldHere⟩ := mem_holdersOf.1 holds
  obtain rfl := Option.some.inj (found.symm.trans heirStands)
  exact heldHere

theorem waitsForNeeded_of_handsOnNeeded {groups : List CacheGroup}
    (compiled : Rule.ofGroups groups = .ok rules)
    (made : split graph rules limits = (reports, .ok chunks))
    (handsOn : graph.HandsOnNeeded chunks) : chunks.WaitsForNeeded graph := by
  intro entry isEntry shared needed
  obtain ⟨listed, kind, initial, isParent⟩ := (mem_required_iff made isEntry).1 needed
  by_cases claimed : shared ∈ chunks.claimed
  · exact exists_needed_of_claimed made isEntry claimed isParent
  · obtain ⟨module, within, alike, parents⟩ :=
      exists_module_of_shared compiled made listed kind claimed
    obtain ⟨place, holds, heir, standsFor, located⟩ := (parents entry.id).1 isParent
    obtain ⟨early, withinEarly, loaded⟩ := (initial_iff_loadedByEntry made listed kind).1 initial
    rw [← alike early withinEarly] at holds
    obtain ⟨placed, stands, held⟩ := mem_holdersOf.1 holds
    obtain ⟨heir', holder, located', heirStands, start, closed⟩ :=
      exists_group_of_entry made isEntry
    obtain rfl := Option.some.inj (located'.symm.trans located)
    refine ⟨early, withinEarly, ?_⟩
    rw [← closed]
    cases standsFor with
    | stays =>
        obtain rfl := Option.some.inj (stands.symm.trans heirStands)
        exact held
    | handed gone isParentHere next =>
        exact handsOn place gone placed stands heir' (Heir.handed gone isParentHere next) holder
          heirStands start early held loaded

/-- An entry that waits for the chunk of a cache group needs something of it. The same holds of the
other shared chunks exactly if what entries load at once of dissolved groups is handed on to those
entries only that load it too. -/
theorem waitsForNeeded_iff {groups : List CacheGroup} (compiled : Rule.ofGroups groups = .ok rules)
    (made : split graph rules limits = (reports, .ok chunks)) :
    (∀ entry ∈ chunks.entries, ∀ shared ∈ chunks.required entry, shared.group ≠ none →
      ∃ module ∈ shared.modules, module ∈ graph.closure entry.roots) ∧
        (chunks.WaitsForNeeded graph ↔ graph.HandsOnNeeded chunks) := by
  constructor
  · intro entry isEntry shared needed grouped
    obtain ⟨listed, _, _, isParent⟩ := (mem_required_iff made isEntry).1 needed
    exact exists_needed_of_claimed made isEntry
      (List.mem_filter.2 ⟨listed, Option.isSome_iff_ne_none.2 grouped⟩) isParent
  · exact ⟨handsOnNeeded_of_waitsForNeeded made, waitsForNeeded_of_handsOnNeeded compiled made⟩

theorem groups_threePages :
    threePages.placedGroups.map (fun placed => (placed.group.start, placed.group.modules)) =
      [(.entry, [0]), (.onDemand, [1, 4]), (.onDemand, [2, 1, 4]), (.onDemand, [3, 4])] := by cbv

/-- The first page is dissolved, but all that it hands on is loaded on demand. -/
theorem handsOnNeeded_threePages {chunks : ChunkGraph} : threePages.HandsOnNeeded chunks := by
  intro _ _ placed stands heir _ holder heirStands start module held early
  have entryModules : ∀ placed ∈ threePages.placedGroups, placed.group.start = .entry →
      placed.group.modules = [0] := by
    intro placed listed start
    have pair : (placed.group.start, placed.group.modules) ∈
        threePages.placedGroups.map fun placed => (placed.group.start, placed.group.modules) :=
      List.mem_map_of_mem listed
    rw [groups_threePages, start] at pair
    simpa using pair
  obtain ⟨entry, listed, isEntry, loaded⟩ := loadedByEntry_iff.1 early
  rw [entryModules entry listed isEntry] at loaded
  rwa [entryModules holder (List.mem_of_getElem? heirStands) start]

theorem waitsForNeeded_threePages :
    ∃ reports chunks, split threePages [] {} = (reports, .ok chunks) ∧
      threePages.dissolvedGroups chunks = [1] ∧ chunks.WaitsForNeeded threePages := by
  obtain ⟨reports, chunks, made⟩ := exists_split_of_no_rules threePages {}
  refine ⟨reports, chunks, made, ?_,
    (waitsForNeeded_iff ofGroups_nil made).2.2 handsOnNeeded_threePages⟩
  rw [(split_ok made).1]
  cbv

/-! ## An entry that waits in vain -/

/-- The first page needs a view on demand, the second one at once. -/
def twoStarts : ModuleGraph where
  root := "/app"
  modules := ⟨#[
    moduleAt 0 "first.js" [⟨2, .async, "./view"⟩],
    moduleAt 1 "second.js" [⟨2, .sync, "./view"⟩],
    moduleAt 2 "view.js" []]⟩
  entries := [⟨"first", [0]⟩, ⟨"second", [1]⟩]

theorem waits_twoStarts :
    let chunks := numbered (finalDrafts (spreadDrafts twoStarts [] {}))
    chunks.entries.map (fun entry => (twoStarts.closure entry.roots,
      (chunks.required entry).map (·.modules))) = [([0], [[2]]), ([1, 2], [[2]])] := by
  cbv

/-- The group of the view is dissolved, and its chunk handed to the first page, which is to fetch it
on demand only. -/
theorem not_waitsForNeeded_twoStarts :
    ∃ reports chunks, split twoStarts [] {} = (reports, .ok chunks) ∧
      ¬ chunks.WaitsForNeeded twoStarts := by
  obtain ⟨reports, chunks, made⟩ := exists_split_of_no_rules twoStarts {}
  refine ⟨reports, chunks, made, fun waits => ?_⟩
  have shape := waits_twoStarts
  rw [← (split_ok made).1] at shape
  obtain ⟨first, rest, entries, same, _⟩ := List.map_eq_cons_iff.1 shape
  obtain ⟨needed, required⟩ := Prod.mk.inj same
  obtain ⟨view, only, modules⟩ := List.map_eq_singleton_iff.1 required
  obtain ⟨module, within, loaded⟩ :=
    waits first (entries ▸ List.mem_cons_self) view (only ▸ List.mem_cons_self)
  rw [modules, List.mem_singleton] at within
  rw [needed, within] at loaded
  simp at loaded

end Chunk

end WebBundle
