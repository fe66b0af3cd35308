import WebBundle.Proofs.Chunk.Lineage

/-!
# Drafts of load groups

Splitting begins with the groups that stay. Together they hold exactly the reachable modules. The
drafts of the entries come first and hold the whole closures of their roots; each of the others is
the only one that starts its root.
-/

namespace WebBundle

open LoadGroup Chunk

theorem LoadGroup.start_eq_onDemand_of_ne {start : LoadGroup.Start} (notEntry : start ≠ .entry) :
    start = .onDemand := by
  cases start with
  | entry => exact absurd rfl notEntry
  | onDemand => rfl

theorem Chunk.Draft.kindOf_eq_entry_iff {start : LoadGroup.Start} :
    Draft.kindOf start = .entry ↔ start = .entry := by
  cases start <;> simp [Draft.kindOf]

namespace ModuleGraph

variable {graph : ModuleGraph}

/-- The drafts that splitting begins with. -/
def groupDrafts (graph : ModuleGraph) : List Draft := graph.placedGroups.map Draft.ofGroup

theorem getElem?_groupDrafts {place : Nat} :
    graph.groupDrafts[place]? = graph.placedGroups[place]?.map Draft.ofGroup :=
  List.getElem?_map

/-- A draft by the place of its group among all groups. -/
theorem exists_elided_of_groupDraft {index : Nat} {draft : Draft}
    (found : graph.groupDrafts[index]? = some draft) :
    ∃ place elided, (kept graph.elidedGroups)[index]? = some place ∧
      graph.elidedGroups[place]? = some elided ∧
        draft = .ofGroup
          ⟨elided, placeParents (kept graph.elidedGroups) graph.stayingEdges place⟩ := by
  rw [getElem?_groupDrafts, Option.map_eq_some_iff] at found
  obtain ⟨placed, stands, rfl⟩ := found
  obtain ⟨place, located, elided, parents⟩ := getElem?_placedGroups.1 stands
  exact ⟨place, placed.group, located, elided, by rw [← parents]⟩

theorem exists_groupDraft_of_kept {index place : Nat}
    (located : (kept graph.elidedGroups)[index]? = some place) :
    ∃ elided, graph.elidedGroups[place]? = some elided ∧ graph.groupDrafts[index]? = some
      (.ofGroup ⟨elided, placeParents (kept graph.elidedGroups) graph.stayingEdges place⟩) := by
  have member := List.mem_of_getElem? located
  rw [kept_eq_places] at member
  obtain ⟨elided, stands, _⟩ := mem_places.1 member
  refine ⟨elided, stands, ?_⟩
  have found : graph.placedGroups[index]? = some
      ⟨elided, placeParents (kept graph.elidedGroups) graph.stayingEdges place⟩ :=
    getElem?_placedGroups.2 ⟨place, located, stands, rfl⟩
  rw [getElem?_groupDrafts, found]
  rfl

theorem mem_groupDrafts_modules {draft : Draft} (member : draft ∈ graph.groupDrafts) :
    ∃ (place : Nat) (elided : LoadGroup),
      graph.elidedGroups[place]? = some elided ∧ draft.modules = elided.modules ∧
      draft.kind = Draft.kindOf elided.start ∧ draft.roots = elided.roots := by
  obtain ⟨index, found⟩ := List.mem_iff_getElem?.1 member
  obtain ⟨place, elided, _, stands, rfl⟩ := exists_elided_of_groupDraft found
  exact ⟨place, elided, stands, rfl, rfl, rfl⟩

theorem isGroup_of_mem_groupDrafts {draft : Draft} (member : draft ∈ graph.groupDrafts) :
    draft.IsGroup := by
  obtain ⟨place, elided, _, _, kind, _⟩ := mem_groupDrafts_modules member
  rw [Draft.IsGroup, kind]
  cases elided.start with
  | entry => exact Or.inl rfl
  | onDemand => exact Or.inr rfl

theorem initial_of_mem_groupDrafts {draft : Draft} (member : draft ∈ graph.groupDrafts) :
    draft.initial = true ↔ draft.kind = .entry := by
  obtain ⟨placed, _, rfl⟩ := List.mem_map.1 member
  change decide (placed.group.start = .entry) = true ↔ Draft.kindOf placed.group.start = .entry
  rw [decide_eq_true_eq, Draft.kindOf_eq_entry_iff]

/-! ## Modules -/

theorem nodup_modules_of_mem_groupDrafts {draft : Draft} (member : draft ∈ graph.groupDrafts) :
    draft.modules.Nodup := by
  obtain ⟨place, elided, stands, modules, _⟩ := mem_groupDrafts_modules member
  obtain ⟨group, found, rfl⟩ := exists_loadGroup_of_elided stands
  have closed := modules_of_mem_loadGroups (List.mem_of_getElem? found)
  rw [modules]
  apply (modules_dropAvailable_sublist _ _ _).nodup
  rw [closed]
  exact nodup_closure _

/-- A group that holds a module stays. -/
theorem exists_groupDraft_of_elided {elided : LoadGroup} (member : elided ∈ graph.elidedGroups)
    {module : Nat} (held : module ∈ elided.modules) :
    ∃ draft ∈ graph.groupDrafts, draft.modules = elided.modules ∧
      draft.kind = Draft.kindOf elided.start ∧ draft.roots = elided.roots := by
  have stays : elided ∈ graph.placedGroups.map (·.group) := by
    rw [map_group_placedGroups]
    exact List.mem_filter.2 ⟨member, by simp [isVoid_eq_false_of_mem held]⟩
  obtain ⟨placed, listed, rfl⟩ := List.mem_map.1 stays
  exact ⟨.ofGroup placed, List.mem_map_of_mem listed, rfl, rfl, rfl⟩

theorem exists_groupDraft_iff {id : Nat} :
    (∃ draft ∈ graph.groupDrafts, id ∈ draft.modules) ↔ graph.Reachable id := by
  rw [← exists_elidedGroup_iff]
  constructor
  · rintro ⟨draft, member, held⟩
    obtain ⟨place, elided, stands, modules, _⟩ := mem_groupDrafts_modules member
    exact ⟨elided, List.mem_of_getElem? stands, modules ▸ held⟩
  · rintro ⟨elided, member, held⟩
    obtain ⟨draft, listed, modules, _⟩ := exists_groupDraft_of_elided member held
    exact ⟨draft, listed, modules ▸ held⟩

theorem modules_of_entryDraft {draft : Draft} (member : draft ∈ graph.groupDrafts)
    (isEntry : draft.kind = .entry) : draft.modules = graph.closure draft.roots := by
  obtain ⟨place, elided, stands, modules, kind, roots⟩ := mem_groupDrafts_modules member
  obtain ⟨group, found, rfl⟩ := exists_loadGroup_of_elided stands
  have start : group.start = .entry := by
    rw [isEntry, start_dropAvailable] at kind
    exact Draft.kindOf_eq_entry_iff.1 kind.symm
  rw [modules, roots, roots_dropAvailable, dropAvailable, start]
  exact modules_of_mem_loadGroups (List.mem_of_getElem? found)

/-- Every entry has a draft. -/
theorem exists_groupDraft_of_entry {entry : Entry} (listed : entry ∈ graph.entries) :
    ∃ draft ∈ graph.groupDrafts, draft.kind = .entry ∧ draft.roots = entry.modules := by
  obtain ⟨place, located⟩ := List.mem_iff_getElem?.1 listed
  have below := (List.getElem?_eq_some_iff.1 located).1
  have found := graph.getElem?_elidedGroups place
  rw [getElem?_loadGroups_entry below, located, Option.map_some, Option.map_some] at found
  have stays : dropAvailable graph.availability (graph.entryGroup entry) place ∈
      graph.placedGroups.map (·.group) := by
    rw [map_group_placedGroups]
    exact List.mem_filter.2
      ⟨List.mem_of_getElem? found, by simp [isVoid, dropAvailable, entryGroup]⟩
  obtain ⟨placed, member, same⟩ := List.mem_map.1 stays
  refine ⟨.ofGroup placed, List.mem_map_of_mem member, ?_, ?_⟩
  · change Draft.kindOf placed.group.start = .entry
    rw [same, start_dropAvailable]
    rfl
  · change placed.group.roots = entry.modules
    rw [same, roots_dropAvailable]
    rfl

/-- The draft of an entry starts the modules of the entry. -/
theorem exists_entry_of_groupDraft {draft : Draft} (member : draft ∈ graph.groupDrafts)
    (isEntry : draft.kind = .entry) : ∃ entry ∈ graph.entries, draft.roots = entry.modules := by
  obtain ⟨place, elided, stands, _, kind, roots⟩ := mem_groupDrafts_modules member
  have below : place < graph.entries.length :=
    (start_elidedGroup stands).1 (Draft.kindOf_eq_entry_iff.1 (kind.symm.trans isEntry))
  obtain ⟨group, found, rfl⟩ := exists_loadGroup_of_elided stands
  rw [getElem?_loadGroups_entry below, Option.map_eq_some_iff] at found
  obtain ⟨entry, located, rfl⟩ := found
  exact ⟨entry, List.mem_of_getElem? located, roots.trans (roots_dropAvailable _ _ _)⟩

/-! ## Kinds -/

theorem kind_eq_entry_iff {index place : Nat} {draft : Draft}
    (found : graph.groupDrafts[index]? = some draft)
    (located : (kept graph.elidedGroups)[index]? = some place) :
    draft.kind = .entry ↔ place < graph.entries.length := by
  obtain ⟨place', elided, located', stands, rfl⟩ := exists_elided_of_groupDraft found
  obtain rfl := Option.some.inj (located.symm.trans located')
  rw [← start_elidedGroup stands]
  exact Draft.kindOf_eq_entry_iff

theorem length_entries_le : graph.entries.length ≤ graph.elidedGroups.length := by
  rw [length_elidedGroups, length_loadGroups]
  exact Nat.le_add_right _ _

/-- The entries come first. -/
theorem map_kind_groupDrafts :
    ∃ onDemand, graph.groupDrafts.map (·.kind) =
      List.replicate graph.entries.length ChunkKind.entry ++
        List.replicate onDemand ChunkKind.onDemand := by
  let first := graph.elidedGroups.take graph.entries.length
  let rest := graph.elidedGroups.drop graph.entries.length
  have firstEntry : ∀ group ∈ first, group.start = .entry := by
    intro group member
    obtain ⟨place, found⟩ := List.mem_iff_getElem?.1 member
    rw [List.getElem?_take] at found
    by_cases below : place < graph.entries.length
    · rw [if_pos below] at found
      exact (start_elidedGroup found).2 below
    · simp [below] at found
  have restOnDemand : ∀ group ∈ rest, group.start = .onDemand := by
    intro group member
    obtain ⟨place, found⟩ := List.mem_iff_getElem?.1 member
    rw [List.getElem?_drop] at found
    exact start_eq_onDemand_of_ne (mt (start_elidedGroup found).1 (by omega))
  have keeps : first.filter (!·.isVoid) = first := by
    refine List.filter_eq_self.2 fun group member => ?_
    simp [isVoid, firstEntry group member]
  have groups : graph.groupDrafts.map (·.kind) =
      (graph.elidedGroups.filter (!·.isVoid)).map fun group => Draft.kindOf group.start := by
    rw [← map_group_placedGroups, groupDrafts, List.map_map, List.map_map]
    rfl
  refine ⟨(rest.filter (!·.isVoid)).length, ?_⟩
  rw [groups, ← List.take_append_drop graph.entries.length graph.elidedGroups, List.filter_append,
    List.map_append]
  change (first.filter (!·.isVoid)).map _ ++ _ = _
  rw [keeps]
  congr 1
  · refine List.eq_replicate_iff.2 ⟨by simp [first, length_entries_le], ?_⟩
    intro kind member
    obtain ⟨group, listed, rfl⟩ := List.mem_map.1 member
    rw [firstEntry group listed]
    rfl
  · refine List.eq_replicate_iff.2 ⟨by simp [rest], ?_⟩
    intro kind member
    obtain ⟨group, listed, rfl⟩ := List.mem_map.1 member
    rw [restOnDemand group (List.mem_filter.1 listed).1]
    rfl

/-! ## Parents -/

theorem lineage_groupDrafts : Lineage graph.groupDrafts := by
  obtain ⟨rank, rooted⟩ := graph.exists_rooted_stayingEdges
  constructor
  case ascending =>
    intro draft member
    obtain ⟨index, found⟩ := List.mem_iff_getElem?.1 member
    obtain ⟨place, elided, _, _, rfl⟩ := exists_elided_of_groupDraft found
    exact pairwise_placeParents place
  case parent =>
    intro draft member parent isParent
    obtain ⟨index, found⟩ := List.mem_iff_getElem?.1 member
    obtain ⟨place, elided, _, _, rfl⟩ := exists_elided_of_groupDraft found
    obtain ⟨parentPlace, _, located⟩ := mem_placeParents.1 isParent
    obtain ⟨holder, _, stands⟩ := exists_groupDraft_of_kept located
    exact ⟨_, stands, isGroup_of_mem_groupDrafts (List.mem_of_getElem? stands)⟩
  case entry =>
    intro draft member isEntry
    obtain ⟨index, found⟩ := List.mem_iff_getElem?.1 member
    obtain ⟨place, elided, located, stands, same⟩ := exists_elided_of_groupDraft found
    have below := (kind_eq_entry_iff found located).1 isEntry
    rw [same]
    refine List.eq_nil_iff_forall_not_mem.2 fun parent isParent => ?_
    obtain ⟨parentPlace, edge, _⟩ := mem_placeParents.1 isParent
    exact absurd (rooted.child_bounds _ edge).1 (Nat.not_le.2 below)
  case parented =>
    intro draft member needs
    obtain ⟨index, found⟩ := List.mem_iff_getElem?.1 member
    obtain ⟨place, elided, located, stands, same⟩ := exists_elided_of_groupDraft found
    have notEntry : draft.kind ≠ .entry := by
      intro isEntry
      cases needs with
      | inl kind => simp [isEntry] at kind
      | inr kind => simp [isEntry] at kind
    have onDemand := Nat.le_of_not_lt (mt (kind_eq_entry_iff found located).2 notEntry)
    have inside : place < graph.loadGroups.length := by
      rw [← length_elidedGroups]
      exact (List.getElem?_eq_some_iff.1 stands).1
    have stays : place ∉ (folded graph.elidedGroups).reverse := by
      intro void
      have isKept := List.mem_of_getElem? located
      obtain ⟨group, there, isVoid⟩ := mem_places.1 (List.mem_reverse.1 void)
      rw [kept_eq_places] at isKept
      obtain ⟨group', there', notVoid⟩ := mem_places.1 isKept
      obtain rfl := Option.some.inj (there.symm.trans there')
      simp [isVoid] at notVoid
    obtain ⟨parent, edge⟩ := rooted.parented place onDemand inside stays
    obtain ⟨parentIndex, parentLocated⟩ := List.mem_iff_getElem?.1 (parent_mem_kept edge)
    rw [same]
    exact List.ne_nil_of_mem (mem_placeParents.2 ⟨parent, edge, parentLocated⟩)
  case ranked =>
    refine ⟨fun index => rank ((kept graph.elidedGroups)[index]?.getD 0), ?_⟩
    intro index draft found parent isParent
    obtain ⟨place, elided, located, _, rfl⟩ := exists_elided_of_groupDraft found
    obtain ⟨parentPlace, edge, parentLocated⟩ := mem_placeParents.1 isParent
    simp only [located, parentLocated, Option.getD_some]
    exact rooted.ranked _ edge

end ModuleGraph

end WebBundle
