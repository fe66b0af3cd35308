import WebBundle.Proofs.LoadGroup.Elision
import WebBundle.Proofs.LoadGroup.Folding

/-!
# Ways from the entries

A way to a group starts at the group of an entry and follows kept edges. The kept edges form no
cycle and every group that is started on demand has a parent, so there is a way to every group. A
group passes on to a later one whatever every way to it loads before: what is available to a group
is what is held, on each way to it, by some group that is passed earlier.

A group that is started on demand keeps what some way to it has not loaded before, in the order of
the closure of its root. It is folded if that is nothing. The groups of entries keep everything.
-/

namespace WebBundle

namespace LoadGroup

variable {edges : List Edge}

/-- Ordering places every group whose parents wait or are placed. As long as some group waits, one
of the lowest rank has all its parents placed. -/
theorem mem_afterParents {rank : Nat → Nat}
    (ranked : ∀ edge ∈ edges, rank edge.parent < rank edge.child) {waiting placed : List Nat}
    (known : ∀ group ∈ waiting, ∀ parent ∈ parentsOf edges group,
      parent ∈ waiting ∨ parent ∈ placed) {group : Nat}
    (member : group ∈ waiting ∨ group ∈ placed) : group ∈ afterParents edges waiting placed := by
  induction waiting, placed using afterParents.induct edges with
  | case1 waiting placed none =>
      have stuck : ∀ group ∈ waiting, ∃ parent ∈ parentsOf edges group, parent ∉ placed := by
        simpa using none
      have empty : ∀ height, ∀ group ∈ waiting, rank group = height → False := by
        intro height
        induction height using Nat.strongRecOn with
        | _ height ih =>
            intro group waits same
            obtain ⟨parent, isParent, unplaced⟩ := stuck group waits
            have lower := ranked _ (mem_parentsOf.1 isParent)
            cases known group waits parent isParent with
            | inl waits' => exact ih (rank parent) (same ▸ lower) parent waits' rfl
            | inr isPlaced => exact unplaced isPlaced
      unfold afterParents
      split
      next =>
        cases member with
        | inl waits => exact (empty _ group waits rfl).elim
        | inr isPlaced => exact List.mem_reverse.2 isPlaced
      next other found => simp [none] at found
  | case2 waiting placed next found shorter ih =>
      have moved : ∀ other, other ∈ waiting ∨ other ∈ placed →
          other ∈ waiting.erase next ∨ other ∈ next :: placed := by
        intro other old
        by_cases same : other = next
        · exact Or.inr (List.mem_cons.2 (Or.inl same))
        · cases old with
          | inl waits => exact Or.inl ((List.mem_erase_of_ne same).2 waits)
          | inr isPlaced => exact Or.inr (List.mem_cons_of_mem _ isPlaced)
      unfold afterParents
      split
      next none => simp [none] at found
      next other found' =>
        obtain rfl := Option.some.inj (found'.symm.trans found)
        refine ih (fun group waits parent isParent => ?_) (moved group member)
        exact moved parent (known group (List.mem_of_mem_erase waits) parent isParent)

end LoadGroup

namespace ModuleGraph

open LoadGroup

/-- A way of kept edges from the group of an entry to a group. `before` holds the groups that it
passes before, the nearest one first. -/
inductive Way (graph : ModuleGraph) : (before : List Nat) → (group : Nat) → Prop where
  | entry {group : Nat} (isEntry : group < graph.entries.length) : Way graph [] group
  | step {before : List Nat} {parent group : Nat} (way : Way graph before parent)
      (edge : Edge.mk parent group ∈ graph.groupEdges) : Way graph (parent :: before) group

variable {graph : ModuleGraph} {before : List Nat} {group module : Nat}

/-- There is a way to every group. By induction on its rank: there is one to its parent. -/
theorem exists_way (inside : group < graph.loadGroups.length) :
    ∃ before, graph.Way before group := by
  obtain ⟨rank, rooted⟩ := graph.exists_rooted_groupEdges
  induction height : rank group using Nat.strongRecOn generalizing group with
  | _ height ih =>
      by_cases isEntry : group < graph.entries.length
      · exact ⟨[], Way.entry isEntry⟩
      · obtain ⟨parent, edge⟩ :=
          rooted.parented group (Nat.le_of_not_lt isEntry) inside (by simp)
        have lower := rooted.ranked _ edge
        obtain ⟨before, way⟩ := ih (rank parent) (height ▸ lower) (rooted.parent_lt _ edge) rfl
        exact ⟨parent :: before, way.step edge⟩

theorem Way.inside (way : graph.Way before group) : group < graph.loadGroups.length := by
  cases way with
  | entry isEntry =>
      rw [length_loadGroups]
      omega
  | step _ edge =>
      exact (child_bounds_of_mem_groupImports (mem_groupImports_of_mem_groupEdges edge)).2

/-! ## What every way loads -/

/-- Every way to the group passes an earlier group whose roots have the module in their closure. -/
def LoadedBefore (graph : ModuleGraph) (group module : Nat) : Prop :=
  ∀ before, graph.Way before group →
    ∃ earlier ∈ before, ∃ passed, graph.loadGroups[earlier]? = some passed ∧
      module ∈ graph.closure passed.roots

theorem mem_modulesAt_loadGroups {place : Nat} :
    module ∈ modulesAt graph.loadGroups place ↔
      ∃ group, graph.loadGroups[place]? = some group ∧ module ∈ graph.closure group.roots := by
  rw [mem_modulesAt]
  refine exists_congr fun group => and_congr_right fun found => ?_
  rw [modules_of_mem_loadGroups (List.mem_of_getElem? found)]

/-- What is available to a group is what all its parents, of which there are some, have loaded. -/
theorem mem_availability_iff (inside : group < graph.loadGroups.length) :
    module ∈ availableTo graph.availability group ↔
      parentsOf graph.groupEdges group ≠ [] ∧
        ∀ parent ∈ parentsOf graph.groupEdges group,
          module ∈ loadedWith graph.loadGroups graph.availability parent := by
  refine ⟨loaded_of_available, fun loaded => ?_⟩
  obtain ⟨rank, rooted⟩ := graph.exists_rooted_groupEdges
  obtain ⟨all, settled, order, solved⟩ := graph.exists_settled_availability
  have placed : group ∈ all := by
    have ordered : group ∈
        afterParents graph.groupEdges (List.range graph.loadGroups.length) [] := by
      refine mem_afterParents rooted.ranked ?_ (Or.inl (List.mem_range.2 inside))
      intro child _ parent isParent
      exact Or.inl (List.mem_range.2 (rooted.parent_lt _ (mem_parentsOf.1 isParent)))
    rw [order] at ordered
    exact List.mem_reverse.1 ordered
  rw [solved] at loaded ⊢
  rw [availableTo_settle settled placed]
  exact mem_inherited.2 loaded

/-- By induction on the way: what is available to a group was loaded with the group that the way
passes last. -/
theorem Way.loadedBefore (way : graph.Way before group)
    (available : module ∈ availableTo graph.availability group) :
    ∃ earlier ∈ before, module ∈ modulesAt graph.loadGroups earlier := by
  induction way with
  | entry isEntry =>
      rw [availableTo_entry isEntry] at available
      cases available
  | @step before parent group _ edge ih =>
      have loaded := (loaded_of_available available).2 parent (mem_parentsOf.2 edge)
      cases List.mem_append.1 loaded with
      | inl above =>
          obtain ⟨earlier, passed, held⟩ := ih above
          exact ⟨earlier, List.mem_cons_of_mem _ passed, held⟩
      | inr held => exact ⟨parent, List.mem_cons_self, held⟩

/-- By induction on the rank of the group: a parent that does not hold the module is reached only by
ways on which the module was loaded. -/
theorem available_of_loadedBefore (inside : group < graph.loadGroups.length)
    (loaded : graph.LoadedBefore group module) :
    module ∈ availableTo graph.availability group := by
  obtain ⟨rank, rooted⟩ := graph.exists_rooted_groupEdges
  induction height : rank group using Nat.strongRecOn generalizing group with
  | _ height ih =>
      have onDemand : graph.entries.length ≤ group := by
        apply Nat.le_of_not_lt
        intro isEntry
        obtain ⟨earlier, passed, _⟩ := loaded [] (Way.entry isEntry)
        cases passed
      apply (mem_availability_iff inside).2
      constructor
      · obtain ⟨parent, edge⟩ := rooted.parented group onDemand inside (by simp)
        exact List.ne_nil_of_mem (mem_parentsOf.2 edge)
      · intro parent isParent
        have edge := mem_parentsOf.1 isParent
        apply List.mem_append.2
        by_cases held : module ∈ modulesAt graph.loadGroups parent
        · exact Or.inr held
        · have lower := rooted.ranked _ edge
          refine Or.inl (ih (rank parent) (height ▸ lower) (rooted.parent_lt _ edge) ?_ rfl)
          intro before way
          obtain ⟨earlier, passed, holds⟩ := loaded _ (way.step edge)
          rcases List.mem_cons.1 passed with rfl | passed
          · exact absurd (mem_modulesAt_loadGroups.2 holds) held
          · exact ⟨earlier, passed, holds⟩

/-- Availability is the meet over all ways. -/
theorem mem_availability_iff_loadedBefore (inside : group < graph.loadGroups.length) :
    module ∈ availableTo graph.availability group ↔ graph.LoadedBefore group module := by
  constructor
  · intro available before way
    obtain ⟨earlier, passed, held⟩ := way.loadedBefore available
    exact ⟨earlier, passed, mem_modulesAt_loadGroups.1 held⟩
  · exact available_of_loadedBefore inside

instance (graph : ModuleGraph) (group module : Nat) :
    Decidable (graph.LoadedBefore group module) := by
  refine decidable_of_iff
    (group < graph.loadGroups.length → module ∈ availableTo graph.availability group) ?_
  constructor
  · intro available before way
    exact (mem_availability_iff_loadedBefore way.inside).1 (available way.inside) before way
  · intro loaded inside
    exact available_of_loadedBefore inside loaded

/-! ## What the groups that stay hold -/

/-- What an import of `root` has to load, since some way to its group has not loaded it before. -/
def neededBy (graph : ModuleGraph) (root : Nat) : List Nat :=
  (graph.closure [root]).filter fun module =>
    ¬ graph.LoadedBefore (graph.groupStartedBy root) module

/-- The group that an import of `root` starts, with what it has to load. -/
def neededGroup (graph : ModuleGraph) (root : Nat) : LoadGroup :=
  { graph.onDemandGroup root with modules := graph.neededBy root }

theorem isVoid_neededGroup {root : Nat} :
    (graph.neededGroup root).isVoid = true ↔ graph.neededBy root = [] := by
  simp [isVoid, neededGroup, onDemandGroup]

/-- The place of an imported module's group is settled by the module. -/
theorem dropAvailable_onDemandGroup {index root : Nat}
    (located : graph.groupRoots[index]? = some root) :
    dropAvailable graph.availability (graph.onDemandGroup root) (graph.entries.length + index) =
      graph.neededGroup root := by
  have place := groupStartedBy_of_getElem? located
  have inside : graph.groupStartedBy root < graph.loadGroups.length :=
    (groupStartedBy_bounds (List.mem_of_getElem? located)).2
  have needed : (graph.closure [root]).filter
      (· ∉ availableTo graph.availability (graph.groupStartedBy root)) = graph.neededBy root := by
    refine List.filter_congr fun module _ => ?_
    simp only [mem_availability_iff_loadedBefore inside]
  rw [← place, neededGroup, ← needed]
  rfl

theorem elidedGroups_eq :
    graph.elidedGroups = graph.entries.map graph.entryGroup ++
      graph.groupRoots.map graph.neededGroup := by
  apply List.ext_getElem?
  intro place
  rw [getElem?_elidedGroups]
  by_cases isEntry : place < graph.entries.length
  · rw [getElem?_loadGroups_entry isEntry, List.getElem?_append_left (by simpa using isEntry),
      List.getElem?_map, Option.map_map]
    rfl
  · obtain ⟨index, rfl⟩ := Nat.exists_eq_add_of_le (Nat.le_of_not_lt isEntry)
    rw [getElem?_loadGroups_onDemand, List.getElem?_append_right (by simp), List.getElem?_map,
      List.length_map, Nat.add_sub_cancel_left]
    cases located : graph.groupRoots[index]? with
    | none => rfl
    | some root => simp [dropAvailable_onDemandGroup located]

/-- The groups that stay are those of the entries, with all that they load, and those of the
imported modules that have something to load, with that. -/
theorem map_group_placedGroups_eq (graph : ModuleGraph) :
    graph.placedGroups.map (·.group) =
      graph.entries.map graph.entryGroup ++
        (graph.groupRoots.filter fun root => graph.neededBy root ≠ []).map graph.neededGroup := by
  have entriesStay : ∀ group ∈ graph.entries.map graph.entryGroup, (!group.isVoid) = true := by
    intro group member
    obtain ⟨entry, _, rfl⟩ := List.mem_map.1 member
    rfl
  have rest : (graph.groupRoots.map graph.neededGroup).filter (!·.isVoid) =
      (graph.groupRoots.filter fun root => graph.neededBy root ≠ []).map graph.neededGroup := by
    rw [List.filter_map]
    congr 1
    refine List.filter_congr fun root _ => ?_
    simp [Function.comp, ← isVoid_neededGroup]
  rw [map_group_placedGroups, elidedGroups_eq, List.filter_append,
    List.filter_eq_self.2 entriesStay, rest]

/-- The groups of the entries all stay, and no group started on demand is one of them. -/
theorem map_group_entries :
    (graph.placedGroups.filter (·.group.start = .entry)).map (·.group) =
      graph.entries.map graph.entryGroup := by
  have entryGroups : ∀ group ∈ graph.entries.map graph.entryGroup,
      (decide (group.start = .entry) && !group.isVoid) = true := by
    intro group member
    obtain ⟨entry, _, rfl⟩ := List.mem_map.1 member
    rfl
  have others : ∀ group ∈ graph.groupRoots.map graph.neededGroup,
      ¬ (decide (group.start = .entry) && !group.isVoid) = true := by
    intro group member
    obtain ⟨root, _, rfl⟩ := List.mem_map.1 member
    exact Bool.false_ne_true
  calc (graph.placedGroups.filter (·.group.start = .entry)).map (·.group)
      = (graph.placedGroups.map (·.group)).filter (·.start = .entry) := by
        rw [List.filter_map]
        rfl
    _ = graph.elidedGroups.filter fun group => decide (group.start = .entry) && !group.isVoid := by
        rw [map_group_placedGroups, List.filter_filter]
    _ = graph.entries.map graph.entryGroup := by
        rw [elidedGroups_eq, List.filter_append, List.filter_eq_self.2 entryGroups,
          List.filter_eq_nil_iff.2 others, List.append_nil]

end ModuleGraph

end WebBundle
