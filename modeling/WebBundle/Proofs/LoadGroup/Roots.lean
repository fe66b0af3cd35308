import WebBundle.LoadGroup.Basic
import WebBundle.Proofs.Module.Reachable
import WebBundle.Proofs.Places

/-!
# Which groups there are

The search for groups works off a queue of root lists. What was worked off and what waits are at
all times the roots of the entries followed by the targets found so far. Hence every import on
demand in a group has a group, there is one group for a target, and the group was found from a
group before it. So the groups hold exactly the reachable modules.
-/

namespace WebBundle.ModuleGraph

variable {graph : ModuleGraph}

/-- The roots of the groups when some targets were found. -/
def rootLists (graph : ModuleGraph) (found : List Nat) : List (List Nat) :=
  graph.entries.map (·.modules) ++ found.map fun target => [target]

/-- A state of the search. `done` holds the root lists worked off. Every target found comes from one
of them, which stands before the roots of its own group. -/
structure Search (graph : ModuleGraph) (done pending : List (List Nat)) (found : List Nat) :
    Prop where
  lists : done ++ pending = graph.rootLists found
  nodup : found.Nodup
  closed : ∀ roots ∈ done, graph.startedBy roots ⊆ found
  source : ∀ index target, found[index]? = some target →
    ∃ place roots, done[place]? = some roots ∧ place < graph.entries.length + index ∧
      target ∈ graph.startedBy roots

theorem nodup_startedBy (roots : List Nat) : (graph.startedBy roots).Nodup :=
  nodup_eraseDups _

theorem Search.initial : graph.Search [] (graph.entries.map (·.modules)) [] where
  lists := by simp [rootLists]
  nodup := List.nodup_nil
  closed := by simp
  source := by simp

theorem Search.step {done pending : List (List Nat)} {roots found : List Nat}
    (search : graph.Search done (roots :: pending) found) :
    let fresh := (graph.startedBy roots).filter (· ∉ found)
    graph.Search (done ++ [roots]) (pending ++ fresh.map fun target => [target])
      (found ++ fresh) := by
  intro fresh
  have notFound : ∀ target ∈ fresh, target ∈ graph.startedBy roots ∧ target ∉ found := by
    intro target member
    simpa [fresh] using member
  constructor
  case lists =>
    have lists := search.lists
    simp only [rootLists, List.map_append] at lists ⊢
    rw [← List.append_assoc _ (found.map _), ← lists]
    simp
  case nodup =>
    apply List.Nodup.append search.nodup ((nodup_startedBy roots).filter _)
    intro target known new
    exact (notFound target new).2 known
  case closed =>
    intro others member target started
    cases List.mem_append.1 member with
    | inl before => exact List.mem_append_left _ (search.closed others before started)
    | inr last =>
        obtain rfl := List.mem_singleton.1 last
        by_cases known : target ∈ found
        · exact List.mem_append_left _ known
        · exact List.mem_append_right _ (by simp [fresh, started, known])
  case source =>
    intro index target located
    by_cases old : index < found.length
    · rw [List.getElem?_append_left old] at located
      obtain ⟨place, sourceRoots, stands, before, started⟩ := search.source index target located
      have inside : place < done.length := (List.getElem?_eq_some_iff.1 stands).1
      exact ⟨place, sourceRoots, by rwa [List.getElem?_append_left inside], before, started⟩
    · rw [List.getElem?_append_right (Nat.le_of_not_lt old)] at located
      have sizes := congrArg List.length search.lists
      simp only [rootLists, List.length_append, List.length_cons, List.length_map] at sizes
      exact ⟨done.length, roots, by simp, by omega,
        (notFound target (List.mem_of_getElem? located)).1⟩

/-- When the queue is empty, all root lists were worked off. -/
theorem Search.run {done pending : List (List Nat)} {found : List Nat}
    (search : graph.Search done pending found) :
    graph.Search (graph.rootLists (graph.discover pending found)) []
      (graph.discover pending found) := by
  induction pending, found using discover.induct graph generalizing done with
  | case1 found =>
      rw [discover]
      have lists := search.lists
      rw [List.append_nil] at lists
      exact lists ▸ search
  | case2 roots pending found fresh =>
      rename_i ih
      rw [discover]
      exact ih search.step

theorem search_groupRoots :
    graph.Search (graph.rootLists graph.groupRoots) [] graph.groupRoots :=
  Search.initial.run

theorem nodup_groupRoots : graph.groupRoots.Nodup := search_groupRoots.nodup

/-! ## The groups -/

/-- A group of the graph is the closure of its roots. -/
theorem modules_of_mem_loadGroups {group : LoadGroup} (member : group ∈ graph.loadGroups) :
    group.modules = graph.closure group.roots := by
  cases List.mem_append.1 member with
  | inl entry =>
      obtain ⟨entry, _, rfl⟩ := List.mem_map.1 entry
      rfl
  | inr onDemand =>
      obtain ⟨root, _, rfl⟩ := List.mem_map.1 onDemand
      rfl

theorem map_roots_loadGroups :
    graph.loadGroups.map (·.roots) = graph.rootLists graph.groupRoots := by
  simp only [loadGroups, rootLists, List.map_append, List.map_map]
  rfl

theorem length_loadGroups :
    graph.loadGroups.length = graph.entries.length + graph.groupRoots.length := by
  simp [loadGroups]

theorem getElem?_loadGroups_entry {place : Nat} (below : place < graph.entries.length) :
    graph.loadGroups[place]? = graph.entries[place]?.map graph.entryGroup := by
  rw [loadGroups, List.getElem?_append_left (by simpa using below), List.getElem?_map]

theorem getElem?_loadGroups_onDemand (index : Nat) :
    graph.loadGroups[graph.entries.length + index]? =
      graph.groupRoots[index]?.map graph.onDemandGroup := by
  rw [loadGroups, List.getElem?_append_right (by simp), List.getElem?_map]
  simp

/-- Every import on demand in a group starts a group. -/
theorem mem_groupRoots_of_import {group : LoadGroup} (member : group ∈ graph.loadGroups)
    {target : Nat} (imported : target ∈ graph.onDemandTargets group.modules) :
    target ∈ graph.groupRoots := by
  have listed : group.roots ∈ graph.rootLists graph.groupRoots := by
    rw [← map_roots_loadGroups]
    exact List.mem_map_of_mem member
  rw [modules_of_mem_loadGroups member] at imported
  exact search_groupRoots.closed group.roots listed imported

/-- Every group that is started on demand is imported by a group before it. -/
theorem exists_importer {index target : Nat} (located : graph.groupRoots[index]? = some target) :
    ∃ place group, graph.loadGroups[place]? = some group ∧ place < graph.entries.length + index ∧
      target ∈ graph.onDemandTargets group.modules := by
  obtain ⟨place, roots, stands, before, started⟩ := search_groupRoots.source index target located
  rw [← map_roots_loadGroups, List.getElem?_map, Option.map_eq_some_iff] at stands
  obtain ⟨group, found, rfl⟩ := stands
  refine ⟨place, group, found, before, ?_⟩
  rw [modules_of_mem_loadGroups (List.mem_of_getElem? found)]
  exact started

/-! ## The groups hold what is reachable -/

theorem exists_loadGroup_of_reachable {id : Nat} (reachable : graph.Reachable id) :
    ∃ group ∈ graph.loadGroups, id ∈ group.modules := by
  obtain ⟨entry, listed, root, isRoot, leads⟩ := reachable
  induction leads with
  | refl =>
      exact ⟨graph.entryGroup entry, List.mem_append_left _ (List.mem_map_of_mem listed),
        mem_closure_of_mem isRoot⟩
  | @tail source target _ imports ih =>
      obtain ⟨group, member, held⟩ := ih
      cases imports_iff.1 imports with
      | inl atOnce =>
          refine ⟨group, member, ?_⟩
          rw [modules_of_mem_loadGroups member] at held ⊢
          exact mem_closure_of_target held atOnce
      | inr onDemand =>
          have imported := mem_onDemandTargets.2 ⟨source, held, onDemand⟩
          have isRoot := mem_groupRoots_of_import member imported
          exact ⟨graph.onDemandGroup target, List.mem_append_right _ (List.mem_map_of_mem isRoot),
            mem_closure_of_mem List.mem_cons_self⟩

/-- By induction on the place of the group: its root is imported from a group before it. -/
theorem reachable_of_loadGroup {place : Nat} {group : LoadGroup}
    (found : graph.loadGroups[place]? = some group) {id : Nat} (held : id ∈ group.modules) :
    graph.Reachable id := by
  induction place using Nat.strongRecOn generalizing group id with
  | _ place ih =>
      by_cases isEntry : place < graph.entries.length
      · rw [getElem?_loadGroups_entry isEntry, Option.map_eq_some_iff] at found
        obtain ⟨entry, located, rfl⟩ := found
        have listed := List.mem_of_getElem? located
        exact reachable_of_mem_closure (fun root => reachable_of_mem_entry listed) held
      · obtain ⟨index, rfl⟩ := Nat.exists_eq_add_of_le (Nat.le_of_not_lt isEntry)
        rw [getElem?_loadGroups_onDemand, Option.map_eq_some_iff] at found
        obtain ⟨target, located, rfl⟩ := found
        obtain ⟨before, importer, stands, below, imported⟩ := exists_importer located
        obtain ⟨source, within, onDemand⟩ := mem_onDemandTargets.1 imported
        have reachable := (ih before below stands within).imports (imports_of_mem_targets onDemand)
        refine reachable_of_mem_closure ?_ held
        intro root isRoot
        obtain rfl := List.mem_singleton.1 isRoot
        exact reachable

/-- The groups hold exactly the reachable modules. -/
theorem exists_loadGroup_iff {id : Nat} :
    (∃ group ∈ graph.loadGroups, id ∈ group.modules) ↔ graph.Reachable id := by
  constructor
  · rintro ⟨group, member, held⟩
    obtain ⟨place, found⟩ := List.mem_iff_getElem?.1 member
    exact reachable_of_loadGroup found held
  · exact exists_loadGroup_of_reachable

theorem reachable_of_mem_groupRoots {root : Nat} (member : root ∈ graph.groupRoots) :
    graph.Reachable root :=
  exists_loadGroup_iff.1 ⟨graph.onDemandGroup root,
    List.mem_append_right _ (List.mem_map_of_mem member), mem_closure_of_mem List.mem_cons_self⟩

end WebBundle.ModuleGraph
