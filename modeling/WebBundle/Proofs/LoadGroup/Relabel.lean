import WebBundle.LoadGroup.Folding
import WebBundle.Proofs.LoadGroup.Roots
import WebBundle.Proofs.Module.Mirror

/-!
# Load groups under other numbers

The groups of a graph that mirrors another are the groups of that graph with other numbers of
modules. They stand in the same order, for they are found in the order of entries and imports, and
so their edges are the same. What is available to a group is compared by membership alone, so
elision and folding leave the same groups.
-/

namespace WebBundle

namespace LoadGroup

variable {number : Nat → Nat}

def relabel (number : Nat → Nat) (group : LoadGroup) : LoadGroup :=
  { group with roots := group.roots.map number, modules := group.modules.map number }

def Placed.relabel (number : Nat → Nat) (placed : Placed) : Placed :=
  { placed with group := placed.group.relabel number }

/-! ## Availability -/

/-- What is available, under other numbers. -/
def Availability.relabel (number : Nat → Nat) (available : Availability) : Availability :=
  available.map fun (group, modules) => (group, modules.map number)

theorem availableTo_relabel (available : Availability) (group : Nat) :
    availableTo (available.relabel number) group = (availableTo available group).map number := by
  induction available with
  | nil => rfl
  | cons first available ih =>
      obtain ⟨place, modules⟩ := first
      change availableTo ((place, modules.map number) :: Availability.relabel number available)
        group = _
      unfold availableTo at ih ⊢
      by_cases same : group = place
      · simp [same]
      · simpa [List.lookup_cons, beq_eq_false_iff_ne.2 same] using ih

theorem modulesAt_relabel (groups : List LoadGroup) (place : Nat) :
    modulesAt (groups.map (·.relabel number)) place = (modulesAt groups place).map number := by
  unfold modulesAt
  rw [List.getElem?_map]
  cases groups[place]? with
  | none => rfl
  | some group => rfl

theorem loadedWith_relabel (groups : List LoadGroup) (available : Availability) (group : Nat) :
    loadedWith (groups.map (·.relabel number)) (available.relabel number) group =
      (loadedWith groups available group).map number := by
  rw [loadedWith, availableTo_relabel, modulesAt_relabel, loadedWith, List.map_append]

variable (injective : Function.Injective number)

include injective

theorem inherited_relabel (groups : List LoadGroup) (edges : List Edge) (available : Availability)
    (group : Nat) :
    inherited (groups.map (·.relabel number)) edges (available.relabel number) group =
      (inherited groups edges available group).map number := by
  unfold inherited
  cases parentsOf edges group with
  | nil => rfl
  | cons first others =>
      simp only [loadedWith_relabel, List.filter_map]
      congr 1
      refine List.filter_congr fun module _ => ?_
      simp only [Function.comp_apply, List.mem_map_of_injective injective]

theorem availability_relabel (groups : List LoadGroup) (edges : List Edge) (order : List Nat) :
    availability (groups.map (·.relabel number)) edges order =
      (availability groups edges order).relabel number := by
  have step : ∀ available : Availability,
      order.foldl (fun available group =>
          (group, inherited (groups.map (·.relabel number)) edges available group) :: available)
          (available.relabel number) =
        Availability.relabel number (order.foldl (fun available group =>
          (group, inherited groups edges available group) :: available) available) := by
    induction order with
    | nil => exact fun _ => rfl
    | cons group order ih =>
        intro available
        rw [List.foldl_cons, inherited_relabel injective, List.foldl_cons, ← ih]
        rfl
  exact step []

theorem dropAvailable_relabel (available : Availability) (group : LoadGroup) (place : Nat) :
    dropAvailable (available.relabel number) (group.relabel number) place =
      (dropAvailable available group place).relabel number := by
  obtain ⟨name, start, roots, modules⟩ := group
  cases start with
  | entry => rfl
  | onDemand =>
      simp only [dropAvailable, LoadGroup.relabel, availableTo_relabel,
        filter_not_mem_map injective]

theorem elide_relabel (groups : List LoadGroup) (edges : List Edge) :
    elide (groups.map (·.relabel number)) edges =
      (elide groups edges).map (·.relabel number) := by
  refine List.ext_getElem? fun place => ?_
  simp only [elide, List.length_map, availability_relabel injective, List.getElem?_mapIdx,
    List.getElem?_map, Option.map_map]
  congr 1
  funext group
  exact dropAvailable_relabel injective _ group place

omit injective

/-! ## Folding -/

theorem isVoid_relabel (group : LoadGroup) : (group.relabel number).isVoid = group.isVoid := by
  change (decide (group.start = .onDemand) && (group.modules.map number).isEmpty) = group.isVoid
  rw [List.isEmpty_map, isVoid]

theorem kept_relabel (groups : List LoadGroup) :
    kept (groups.map (·.relabel number)) = kept groups := by
  simp [kept, List.zipIdx_map, List.filterMap_map, isVoid_relabel]

theorem folded_relabel (groups : List LoadGroup) :
    folded (groups.map (·.relabel number)) = folded groups := by
  simp [folded, List.zipIdx_map, List.filterMap_map, isVoid_relabel]

theorem fold_relabel (groups : List LoadGroup) (edges : List Edge) :
    fold (groups.map (·.relabel number)) edges = (fold groups edges).map (·.relabel number) := by
  simp only [fold, foldedEdges, kept_relabel, folded_relabel, List.map_filterMap]
  refine List.filterMap_congr fun place _ => ?_
  rw [List.getElem?_map]
  cases groups[place]? with
  | none => rfl
  | some group => rfl

end LoadGroup

namespace ModuleGraph.Mirrors

open LoadGroup

variable {number : Nat → Nat} {graph other : ModuleGraph}
  (injective : Function.Injective number) (mirrors : Mirrors number graph other)

include injective mirrors

/-! ## The groups of mirrored graphs -/

theorem discover {pending : List (List Nat)} {found : List Nat}
    (reachable : ∀ roots ∈ pending, ∀ root ∈ roots, graph.Reachable root) :
    other.discover (pending.map (·.map number)) (found.map number) =
      (graph.discover pending found).map number := by
  induction pending, found using discover.induct graph with
  | case1 found => rw [List.map_nil, ModuleGraph.discover, ModuleGraph.discover]
  | case2 roots pending found fresh ih =>
      have here := reachable roots List.mem_cons_self
      have started : ∀ target ∈ fresh, graph.Reachable target := by
        intro target new
        obtain ⟨id, within, imported⟩ := mem_onDemandTargets.1 (List.mem_filter.1 new).1
        exact (reachable_of_mem_closure here within).imports (imports_of_mem_targets imported)
      rw [List.map_cons, ModuleGraph.discover, ModuleGraph.discover,
        mirrors.startedBy injective here, filter_not_mem_map injective, ← List.map_append,
        ← ih]
      · congr 1
        simp [fresh]
      · intro others member
        cases List.mem_append.1 member with
        | inl waits => exact reachable others (List.mem_cons_of_mem _ waits)
        | inr new =>
            obtain ⟨target, isFresh, rfl⟩ := List.mem_map.1 new
            intro root isRoot
            rw [List.mem_singleton.1 isRoot]
            exact started target isFresh

theorem groupRoots : other.groupRoots = graph.groupRoots.map number := by
  have roots : other.entries.map (·.modules) =
      (graph.entries.map (·.modules)).map (·.map number) := by
    rw [mirrors.entries, List.map_map, List.map_map]
    rfl
  rw [ModuleGraph.groupRoots, roots, ModuleGraph.groupRoots]
  change other.discover _ (([] : List Nat).map number) = _
  refine mirrors.discover injective fun roots listed root isRoot => ?_
  obtain ⟨entry, member, rfl⟩ := List.mem_map.1 listed
  exact reachable_of_mem_entry member isRoot

theorem loadGroups : other.loadGroups = graph.loadGroups.map (·.relabel number) := by
  have entries : other.entries.map other.entryGroup =
      (graph.entries.map graph.entryGroup).map (·.relabel number) := by
    rw [mirrors.entries, List.map_map, List.map_map]
    refine List.map_congr_left fun entry listed => ?_
    have closed : other.closure (entry.modules.map number) =
        (graph.closure entry.modules).map number :=
      mirrors.closure injective fun _ => reachable_of_mem_entry listed
    simp [entryGroup, Entry.relabel, LoadGroup.relabel, closed]
  have onDemand : other.groupRoots.map other.onDemandGroup =
      (graph.groupRoots.map graph.onDemandGroup).map (·.relabel number) := by
    rw [mirrors.groupRoots injective, List.map_map, List.map_map]
    refine List.map_congr_left fun root isRoot => ?_
    have reachable := reachable_of_mem_groupRoots isRoot
    have inside : ∀ id ∈ [root], graph.Reachable id := by simpa using reachable
    have closed : other.closure [number root] = (graph.closure [root]).map number :=
      mirrors.closure injective inside
    simp [onDemandGroup, LoadGroup.relabel, mirrors.keyOf reachable, closed]
  rw [ModuleGraph.loadGroups, entries, onDemand, ← List.map_append, ModuleGraph.loadGroups]

theorem groupStartedBy (target : Nat) :
    other.groupStartedBy (number target) = graph.groupStartedBy target := by
  rw [ModuleGraph.groupStartedBy, mirrors.groupRoots injective, idxOf_map injective,
    mirrors.entries, List.length_map, ModuleGraph.groupStartedBy]

theorem groupImports : other.groupImports = graph.groupImports := by
  rw [ModuleGraph.groupImports, mirrors.loadGroups injective, List.zipIdx_map, List.flatMap_map,
    ModuleGraph.groupImports]
  refine List.flatMap_congr fun ⟨group, place⟩ member => ?_
  have found := List.mk_mem_zipIdx_iff_getElem?.1 member
  have targets : other.onDemandTargets (group.modules.map number) =
      (graph.onDemandTargets group.modules).map number :=
    mirrors.onDemandTargets injective fun _ => reachable_of_loadGroup found
  change (other.onDemandTargets (group.modules.map number)).map _ = _
  rw [targets, List.map_map]
  refine List.map_congr_left fun target _ => ?_
  change Edge.mk place (other.groupStartedBy (number target)) = _
  rw [mirrors.groupStartedBy injective]

/-- The groups of the mirrored graph, with the same parents. -/
theorem placedGroups : other.placedGroups = graph.placedGroups.map (·.relabel number) := by
  have edges : other.groupEdges = graph.groupEdges := by
    rw [groupEdges, mirrors.groupImports injective, mirrors.loadGroups injective, List.length_map,
      groupEdges]
  rw [ModuleGraph.placedGroups, edges, mirrors.loadGroups injective, elide_relabel injective,
    fold_relabel, ModuleGraph.placedGroups]

end ModuleGraph.Mirrors

end WebBundle
