import WebBundle.LoadGroup.Availability
import WebBundle.Proofs.LoadGroup.Edges

/-!
# What elision leaves

Groups are treated after their parents, so what is available to a group is settled by what is
available to its parents: each of them holds it or has it available. A module that a group drops is
therefore held by groups above it, and following the parents upward ends at a group that keeps it.
-/

namespace WebBundle

namespace LoadGroup

variable {groups : List LoadGroup} {edges : List Edge}

/-- Every group stands behind its parents, and only once. The last group comes first. -/
def Settled (edges : List Edge) : List Nat → Prop
  | [] => True
  | group :: placed =>
      group ∉ placed ∧ (∀ parent ∈ parentsOf edges group, parent ∈ placed) ∧ Settled edges placed

theorem Settled.parents_mem {placed : List Nat} (settled : Settled edges placed) {group : Nat}
    (member : group ∈ placed) : ∀ parent ∈ parentsOf edges group, parent ∈ placed := by
  induction placed with
  | nil => simp at member
  | cons last placed ih =>
      intro parent isParent
      rcases List.mem_cons.1 member with rfl | before
      · exact List.mem_cons_of_mem _ (settled.2.1 parent isParent)
      · exact List.mem_cons_of_mem _ (ih settled.2.2 before parent isParent)

theorem exists_settled_afterParents {waiting placed : List Nat} (nodup : waiting.Nodup)
    (apart : ∀ group ∈ waiting, group ∉ placed) (settled : Settled edges placed) :
    ∃ all, Settled edges all ∧ afterParents edges waiting placed = all.reverse := by
  induction waiting, placed using afterParents.induct edges with
  | case1 waiting placed none =>
      refine ⟨placed, settled, ?_⟩
      unfold afterParents
      split
      next => rfl
      next group found => simp [none] at found
  | case2 waiting placed group found shorter ih =>
      have member := List.mem_of_find?_eq_some found
      have ready : ∀ parent ∈ parentsOf edges group, parent ∈ placed := by
        simpa using List.find?_some found
      have apartNext : ∀ other ∈ waiting.erase group, other ∉ group :: placed := by
        intro other waits known
        rcases List.mem_cons.1 known with rfl | known
        · exact nodup.not_mem_erase waits
        · exact apart other (List.mem_of_mem_erase waits) known
      unfold afterParents
      split
      next none => simp [none] at found
      next other found' =>
        obtain rfl := Option.some.inj (found'.symm.trans found)
        exact ih (nodup.erase _) apartNext ⟨apart _ member, ready, settled⟩

/-! ## Availability -/

theorem mem_inherited {available : Availability} {group module : Nat} :
    module ∈ inherited groups edges available group ↔
      parentsOf edges group ≠ [] ∧
        ∀ parent ∈ parentsOf edges group, module ∈ loadedWith groups available parent := by
  unfold inherited
  cases parents : parentsOf edges group with
  | nil => simp
  | cons first others => simp

theorem inherited_congr {available other : Availability} {group : Nat}
    (same : ∀ parent ∈ parentsOf edges group,
      availableTo available parent = availableTo other parent) :
    inherited groups edges available group = inherited groups edges other group := by
  have loaded : ∀ parent ∈ parentsOf edges group,
      loadedWith groups available parent = loadedWith groups other parent := by
    intro parent isParent
    rw [loadedWith, loadedWith, same parent isParent]
  unfold inherited
  cases parents : parentsOf edges group with
  | nil => rfl
  | cons first others =>
      rw [parents] at loaded
      change List.filter _ (loadedWith groups available first) =
        List.filter _ (loadedWith groups other first)
      rw [loaded first List.mem_cons_self]
      refine List.filter_congr fun module _ => ?_
      apply Bool.eq_iff_iff.2
      simp only [List.all_eq_true]
      refine forall₂_congr fun parent isOther => ?_
      rw [loaded parent (List.mem_cons_of_mem _ isOther)]

theorem availableTo_cons_self {available : Availability} {group : Nat} {modules : List Nat} :
    availableTo ((group, modules) :: available) group = modules := by
  simp [availableTo]

theorem availableTo_cons_of_ne {available : Availability} {group other : Nat} {modules : List Nat}
    (distinct : group ≠ other) :
    availableTo ((other, modules) :: available) group = availableTo available group := by
  simp [availableTo, List.lookup_cons, beq_eq_false_iff_ne.2 distinct]

/-- Availability built up from the group placed first. -/
def settle (groups : List LoadGroup) (edges : List Edge) : List Nat → Availability
  | [] => []
  | group :: placed =>
      (group, inherited groups edges (settle groups edges placed) group) ::
        settle groups edges placed

theorem availability_reverse (placed : List Nat) :
    availability groups edges placed.reverse = settle groups edges placed := by
  rw [availability, List.foldl_reverse]
  induction placed with
  | nil => rfl
  | cons group placed ih => rw [List.foldr_cons, ih, settle]

theorem availableTo_settle_of_not_mem {placed : List Nat} {group : Nat} (new : group ∉ placed) :
    availableTo (settle groups edges placed) group = [] := by
  induction placed with
  | nil => rfl
  | cons last placed ih =>
      rw [List.mem_cons, not_or] at new
      rw [settle, availableTo_cons_of_ne new.1, ih new.2]

/-- What is available to a group is what its parents hand on, in the final availability. -/
theorem availableTo_settle {placed : List Nat} (settled : Settled edges placed) {group : Nat}
    (member : group ∈ placed) :
    availableTo (settle groups edges placed) group =
      inherited groups edges (settle groups edges placed) group := by
  induction placed with
  | nil => simp at member
  | cons last placed ih =>
      obtain ⟨new, ready, before⟩ := settled
      have parentsBefore : ∀ parent ∈ parentsOf edges group, parent ∈ placed := by
        rcases List.mem_cons.1 member with rfl | earlier
        · exact ready
        · exact before.parents_mem earlier
      have unchanged : inherited groups edges (settle groups edges (last :: placed)) group =
          inherited groups edges (settle groups edges placed) group := by
        refine inherited_congr fun parent isParent => ?_
        rw [settle, availableTo_cons_of_ne]
        rintro rfl
        exact new (parentsBefore parent isParent)
      rw [unchanged]
      rcases List.mem_cons.1 member with rfl | earlier
      · rw [settle, availableTo_cons_self]
      · have distinct : group ≠ last := by
          rintro rfl
          exact new earlier
        rw [settle, availableTo_cons_of_ne distinct, ih before earlier]

theorem mem_modulesAt {place module : Nat} :
    module ∈ modulesAt groups place ↔ ∃ group, groups[place]? = some group ∧
      module ∈ group.modules := by
  unfold modulesAt
  cases found : groups[place]? with
  | none => simp
  | some group => simp

/-! ## Dropping -/

theorem mem_modules_dropAvailable {available : Availability} {group : LoadGroup}
    {place module : Nat} :
    module ∈ (dropAvailable available group place).modules ↔
      module ∈ group.modules ∧
        (group.start = .onDemand → module ∉ availableTo available place) := by
  unfold dropAvailable
  cases start : group.start with
  | entry => simp
  | onDemand => simp

theorem modules_dropAvailable_sublist (available : Availability) (group : LoadGroup) (place : Nat) :
    (dropAvailable available group place).modules.Sublist group.modules := by
  unfold dropAvailable
  cases group.start with
  | entry => exact List.Sublist.refl _
  | onDemand => exact List.filter_sublist

theorem start_dropAvailable (available : Availability) (group : LoadGroup) (place : Nat) :
    (dropAvailable available group place).start = group.start := by
  unfold dropAvailable
  cases start : group.start with
  | entry => exact start
  | onDemand => rfl

theorem roots_dropAvailable (available : Availability) (group : LoadGroup) (place : Nat) :
    (dropAvailable available group place).roots = group.roots := by
  unfold dropAvailable
  cases group.start with
  | entry => rfl
  | onDemand => rfl

theorem name_dropAvailable (available : Availability) (group : LoadGroup) (place : Nat) :
    (dropAvailable available group place).name = group.name := by
  unfold dropAvailable
  cases group.start with
  | entry => rfl
  | onDemand => rfl

end LoadGroup

namespace ModuleGraph

open LoadGroup

variable {graph : ModuleGraph}

/-- What is available to the groups of the graph. -/
def availability (graph : ModuleGraph) : Availability :=
  LoadGroup.availability graph.loadGroups graph.groupEdges
    (afterParents graph.groupEdges (List.range graph.loadGroups.length) [])

/-- The groups without what is available to them. -/
def elidedGroups (graph : ModuleGraph) : List LoadGroup :=
  elide graph.loadGroups graph.groupEdges

theorem length_elidedGroups : graph.elidedGroups.length = graph.loadGroups.length :=
  length_elide _ _

theorem getElem?_elidedGroups (place : Nat) :
    graph.elidedGroups[place]? =
      graph.loadGroups[place]?.map fun group => dropAvailable graph.availability group place := by
  simp [elidedGroups, elide, availability]

theorem exists_loadGroup_of_elided {place : Nat} {elided : LoadGroup}
    (found : graph.elidedGroups[place]? = some elided) :
    ∃ group, graph.loadGroups[place]? = some group ∧
      elided = dropAvailable graph.availability group place := by
  rw [getElem?_elidedGroups, Option.map_eq_some_iff] at found
  obtain ⟨group, stands, same⟩ := found
  exact ⟨group, stands, same.symm⟩

/-- Availability is built up in an order that puts every group behind its parents. -/
theorem exists_settled_availability (graph : ModuleGraph) :
    ∃ all, Settled graph.groupEdges all ∧
      afterParents graph.groupEdges (List.range graph.loadGroups.length) [] = all.reverse ∧
        graph.availability = settle graph.loadGroups graph.groupEdges all := by
  obtain ⟨all, settled, order⟩ := exists_settled_afterParents (List.nodup_range) (by simp)
    (show Settled graph.groupEdges [] from trivial)
  exact ⟨all, settled, order, by rw [ModuleGraph.availability, order, availability_reverse]⟩

/-- What is available to a group was loaded with each of its parents, of which there are some. -/
theorem loaded_of_available {place module : Nat}
    (available : module ∈ availableTo graph.availability place) :
    parentsOf graph.groupEdges place ≠ [] ∧
      ∀ parent ∈ parentsOf graph.groupEdges place,
        module ∈ loadedWith graph.loadGroups graph.availability parent := by
  obtain ⟨all, settled, _, solved⟩ := graph.exists_settled_availability
  rw [solved] at available ⊢
  by_cases member : place ∈ all
  · rw [availableTo_settle settled member] at available
    exact mem_inherited.1 available
  · simp [availableTo_settle_of_not_mem member] at available

theorem availableTo_entry {place : Nat} (isEntry : place < graph.entries.length) :
    availableTo graph.availability place = [] := by
  refine List.eq_nil_iff_forall_not_mem.2 fun module available => ?_
  obtain ⟨parent, isParent⟩ := List.exists_mem_of_ne_nil _ (loaded_of_available available).1
  have imported := mem_groupImports_of_mem_groupEdges (mem_parentsOf.1 isParent)
  exact absurd (child_bounds_of_mem_groupImports imported).1 (Nat.not_le.2 isEntry)

/-- Whatever was loaded with a group is kept by some group. By induction on the rank of the group:
what it drops was loaded with a parent. -/
theorem exists_elided_of_loaded {place module : Nat}
    (loaded : module ∈ loadedWith graph.loadGroups graph.availability place) :
    ∃ elided ∈ graph.elidedGroups, module ∈ elided.modules := by
  obtain ⟨rank, rooted⟩ := graph.exists_rooted_groupEdges
  induction height : rank place using Nat.strongRecOn generalizing place with
  | _ height ih =>
      by_cases available : module ∈ availableTo graph.availability place
      · obtain ⟨some, all⟩ := loaded_of_available available
        obtain ⟨parent, isParent⟩ := List.exists_mem_of_ne_nil _ some
        have above := rooted.ranked _ (mem_parentsOf.1 isParent)
        exact ih (rank parent) (height ▸ above) (all parent isParent) rfl
      · cases List.mem_append.1 loaded with
        | inl listed => exact absurd listed available
        | inr held =>
            obtain ⟨group, stands, held⟩ := mem_modulesAt.1 held
            have found := graph.getElem?_elidedGroups place
            rw [stands, Option.map_some] at found
            exact ⟨_, List.mem_of_getElem? found,
              mem_modules_dropAvailable.2 ⟨held, fun _ => available⟩⟩

/-- The groups still hold exactly the reachable modules. -/
theorem exists_elidedGroup_iff {id : Nat} :
    (∃ elided ∈ graph.elidedGroups, id ∈ elided.modules) ↔ graph.Reachable id := by
  constructor
  · rintro ⟨elided, member, held⟩
    obtain ⟨place, found⟩ := List.mem_iff_getElem?.1 member
    obtain ⟨group, stands, rfl⟩ := exists_loadGroup_of_elided found
    exact reachable_of_loadGroup stands ((modules_dropAvailable_sublist _ _ _).subset held)
  · intro reachable
    obtain ⟨group, member, held⟩ := exists_loadGroup_of_reachable reachable
    obtain ⟨place, stands⟩ := List.mem_iff_getElem?.1 member
    exact exists_elided_of_loaded
      (List.mem_append_right _ (mem_modulesAt.2 ⟨group, stands, held⟩))

end ModuleGraph

end WebBundle
