import Mathlib.Logic.Relation
import WebBundle.LoadGroup.Folding
import WebBundle.Proofs.LoadGroup.Elision

/-!
# What folding keeps

Taking a group out connects its parents with its children. A rank that rises along the edges rises
along the new ones too, and a child of the group gets the parents of the group, so the edges stay
rooted at the entries. In the end no edge touches a folded group, and the groups that stay are the
groups that hold something and the groups of the entries.

A place may be taken out of a graph once whatever links to it links to all that it links to. No way
between two other places is lost, and none is new. Two graphs whose places are matched, so that the
links into matched places come from matched places, have the same ways.

Folding takes groups out of the edges one after the other. Each time the groups that are left lead
to each other exactly if they did before, since the edges form no cycle.
-/

namespace WebBundle

namespace LoadGroup

variable {edges : List Edge}

/-! ## Edges around a group -/

theorem mem_addEdge {edge other : Edge} :
    other ∈ addEdge edges edge ↔ other ∈ edges ∨ other = edge := by
  unfold addEdge
  by_cases known : edge ∈ edges
  · simp only [known, if_true]
    constructor
    · exact Or.inl
    · rintro (member | rfl)
      · exact member
      · exact known
  · simp [known]

theorem nodup_addEdge {edge : Edge} (nodup : edges.Nodup) : (addEdge edges edge).Nodup := by
  unfold addEdge
  by_cases known : edge ∈ edges
  · simpa [known] using nodup
  · simp only [known, if_false]
    exact (List.perm_append_singleton edge edges).nodup_iff.2 (List.nodup_cons.2 ⟨known, nodup⟩)

theorem mem_foldl_addEdge {added : List Edge} {edge : Edge} :
    edge ∈ added.foldl addEdge edges ↔ edge ∈ edges ∨ edge ∈ added := by
  induction added generalizing edges with
  | nil => simp
  | cons first added ih => rw [List.foldl_cons, ih, mem_addEdge, List.mem_cons, or_assoc]

theorem nodup_foldl_addEdge (added : List Edge) (nodup : edges.Nodup) :
    (added.foldl addEdge edges).Nodup := by
  induction added generalizing edges with
  | nil => exact nodup
  | cons first added ih => exact ih (nodup_addEdge nodup)

theorem mem_bypass {group : Nat} {edge : Edge} :
    edge ∈ bypass edges group ↔
      (edge ∈ edges ∧ edge.parent ≠ group ∧ edge.child ≠ group) ∨
        (Edge.mk edge.parent group ∈ edges ∧ Edge.mk group edge.child ∈ edges) := by
  rw [bypass, mem_foldl_addEdge]
  apply or_congr (by simp)
  simp only [List.mem_flatMap, List.mem_map, mem_parentsOf, mem_childrenOf]
  constructor
  · rintro ⟨parent, above, child, below, rfl⟩
    exact ⟨above, below⟩
  · rintro ⟨above, below⟩
    exact ⟨edge.parent, above, edge.child, below, rfl⟩

variable {starts count : Nat} {rank : Nat → Nat} {gone : List Nat}

/-- A group started on demand can be taken out. -/
theorem Rooted.bypass {group : Nat} (rooted : Rooted starts count rank gone edges)
    (onDemand : starts ≤ group) (below : group < count) (present : group ∉ gone) :
    Rooted starts count rank (group :: gone) (bypass edges group) := by
  -- an edge beside the group, or a pair of edges through it
  have origin : ∀ edge ∈ LoadGroup.bypass edges group,
      (edge ∈ edges ∧ edge.parent ≠ group ∧ edge.child ≠ group) ∨
        (Edge.mk edge.parent group ∈ edges ∧ Edge.mk group edge.child ∈ edges) :=
    fun edge => mem_bypass.1
  constructor
  case nodup => exact nodup_foldl_addEdge _ (rooted.nodup.filter _)
  case ranked =>
    intro edge member
    rcases origin edge member with ⟨old, _⟩ | ⟨above, under⟩
    · exact rooted.ranked edge old
    · exact Nat.lt_trans (rooted.ranked ⟨edge.parent, group⟩ above)
        (rooted.ranked ⟨group, edge.child⟩ under)
  case parent_lt =>
    intro edge member
    rcases origin edge member with ⟨old, _⟩ | ⟨above, _⟩
    · exact rooted.parent_lt edge old
    · exact rooted.parent_lt ⟨edge.parent, group⟩ above
  case child_bounds =>
    intro edge member
    rcases origin edge member with ⟨old, _⟩ | ⟨_, under⟩
    · exact rooted.child_bounds edge old
    · exact rooted.child_bounds ⟨group, edge.child⟩ under
  case clear =>
    intro edge member
    simp only [List.mem_cons, not_or]
    rcases origin edge member with ⟨old, notParent, notChild⟩ | ⟨above, under⟩
    · exact ⟨⟨notParent, (rooted.clear edge old).1⟩, notChild, (rooted.clear edge old).2⟩
    · have rises := rooted.ranked ⟨edge.parent, group⟩ above
      have falls := rooted.ranked ⟨group, edge.child⟩ under
      refine ⟨⟨?_, (rooted.clear ⟨edge.parent, group⟩ above).1⟩, ?_,
        (rooted.clear ⟨group, edge.child⟩ under).2⟩
      · exact fun same => Nat.ne_of_lt rises (congrArg rank same)
      · exact fun same => Nat.ne_of_gt falls (congrArg rank same)
  case parented =>
    intro place isOnDemand inside stays
    rw [List.mem_cons, not_or] at stays
    obtain ⟨parent, known⟩ := rooted.parented place isOnDemand inside stays.2
    by_cases same : parent = group
    · obtain ⟨grandparent, above⟩ := rooted.parented group onDemand below present
      exact ⟨grandparent, mem_bypass.2 (Or.inr ⟨above, same ▸ known⟩)⟩
    · exact ⟨parent, mem_bypass.2 (Or.inl ⟨known, same, stays.1⟩)⟩

/-- So can any number of them, one after the other. -/
theorem Rooted.foldl_bypass (rooted : Rooted starts count rank gone edges) {those : List Nat}
    (nodup : those.Nodup)
    (onDemand : ∀ group ∈ those, starts ≤ group ∧ group < count ∧ group ∉ gone) :
    Rooted starts count rank (those.reverse ++ gone) (those.foldl LoadGroup.bypass edges) := by
  induction those generalizing gone edges with
  | nil => exact rooted
  | cons group those ih =>
      obtain ⟨new, nodup⟩ := List.nodup_cons.1 nodup
      obtain ⟨isOnDemand, below, present⟩ := onDemand group List.mem_cons_self
      have others : ∀ other ∈ those, starts ≤ other ∧ other < count ∧ other ∉ group :: gone := by
        intro other member
        obtain ⟨isOnDemand, below, present⟩ := onDemand other (List.mem_cons_of_mem _ member)
        refine ⟨isOnDemand, below, ?_⟩
        rw [List.mem_cons, not_or]
        exact ⟨fun same => new (same ▸ member), present⟩
      have rest := ih (rooted.bypass isOnDemand below present) nodup others
      rw [List.reverse_cons, List.append_assoc]
      exact rest

/-! ## Places -/

variable {groups : List LoadGroup}

theorem folded_eq_places : folded groups = places isVoid groups := rfl

theorem kept_eq_places : kept groups = places (fun group => !group.isVoid) groups := by
  unfold kept places
  apply List.filterMap_congr
  rintro ⟨group, place⟩ _
  cases void : group.isVoid <;> simp [void]

theorem mem_kept_of_not_mem_folded {place : Nat} (inside : place < groups.length)
    (stays : place ∉ folded groups) : place ∈ kept groups := by
  have found := List.getElem?_eq_getElem inside
  rw [kept_eq_places, mem_places]
  refine ⟨groups[place], found, ?_⟩
  rw [Bool.not_eq_true', ← Bool.not_eq_true]
  intro void
  apply stays
  rw [folded_eq_places, mem_places]
  exact ⟨groups[place], found, void⟩

theorem isVoid_eq_false_of_mem {group : LoadGroup} {module : Nat} (held : module ∈ group.modules) :
    group.isVoid = false := by
  have some : group.modules.isEmpty = false := by
    rw [← Bool.not_eq_true, List.isEmpty_iff]
    exact List.ne_nil_of_mem held
  simp [isVoid, some]

theorem map_group_fold : (fold groups edges).map (·.group) = groups.filter (!·.isVoid) := by
  rw [← filterMap_places, ← kept_eq_places, fold, List.map_filterMap]
  refine List.filterMap_congr fun place _ => ?_
  cases groups[place]? <;> rfl

theorem getElem?_fold (index : Nat) :
    (fold groups edges)[index]? = (kept groups)[index]?.bind fun place =>
      groups[place]?.map fun group =>
        ⟨group, placeParents (kept groups) (foldedEdges groups edges) place⟩ := by
  refine getElem?_filterMap_of_isSome (fun place member => ?_) index
  rw [kept_eq_places] at member
  simpa using lt_length_of_mem_places member

end LoadGroup

namespace ModuleGraph

open LoadGroup

variable {graph : ModuleGraph}

theorem start_elidedGroup {place : Nat} {elided : LoadGroup}
    (found : graph.elidedGroups[place]? = some elided) :
    elided.start = .entry ↔ place < graph.entries.length := by
  obtain ⟨group, stands, rfl⟩ := exists_loadGroup_of_elided found
  rw [start_dropAvailable]
  by_cases isEntry : place < graph.entries.length
  · rw [getElem?_loadGroups_entry isEntry, Option.map_eq_some_iff] at stands
    obtain ⟨entry, _, rfl⟩ := stands
    exact ⟨fun _ => isEntry, fun _ => rfl⟩
  · obtain ⟨index, rfl⟩ := Nat.exists_eq_add_of_le (Nat.le_of_not_lt isEntry)
    rw [getElem?_loadGroups_onDemand, Option.map_eq_some_iff] at stands
    obtain ⟨target, _, rfl⟩ := stands
    constructor
    · intro impossible
      cases impossible
    · intro below
      exact absurd below isEntry

theorem folded_onDemand {place : Nat} (member : place ∈ folded graph.elidedGroups) :
    graph.entries.length ≤ place ∧ place < graph.loadGroups.length := by
  rw [folded_eq_places] at member
  obtain ⟨elided, found, void⟩ := mem_places.1 member
  have notEntry : elided.start ≠ .entry := by
    intro isEntry
    simp [isVoid, isEntry] at void
  refine ⟨Nat.le_of_not_lt fun below => notEntry ((start_elidedGroup found).2 below), ?_⟩
  rw [← length_elidedGroups]
  exact lt_length_of_mem_places member

/-- The edges between the groups that stay. -/
def stayingEdges (graph : ModuleGraph) : List Edge :=
  foldedEdges graph.elidedGroups graph.groupEdges

theorem exists_rooted_stayingEdges :
    ∃ rank, Rooted graph.entries.length graph.loadGroups.length rank
      (folded graph.elidedGroups).reverse graph.stayingEdges := by
  obtain ⟨rank, rooted⟩ := graph.exists_rooted_groupEdges
  refine ⟨rank, ?_⟩
  have all : ∀ place ∈ folded graph.elidedGroups,
      graph.entries.length ≤ place ∧ place < graph.loadGroups.length ∧ place ∉ [] := by
    intro place member
    obtain ⟨onDemand, below⟩ := folded_onDemand member
    exact ⟨onDemand, below, by simp⟩
  have rootedAll := rooted.foldl_bypass nodup_places all
  rw [List.append_nil] at rootedAll
  exact rootedAll

/-! ## The groups that stay -/

theorem map_group_placedGroups :
    graph.placedGroups.map (·.group) = graph.elidedGroups.filter (!·.isVoid) :=
  map_group_fold

/-- A group that stays, by its place among all groups. -/
theorem getElem?_placedGroups {index : Nat} {placed : Placed} :
    graph.placedGroups[index]? = some placed ↔
      ∃ place, (kept graph.elidedGroups)[index]? = some place ∧
        graph.elidedGroups[place]? = some placed.group ∧
          placed.parents = placeParents (kept graph.elidedGroups) graph.stayingEdges place := by
  change (fold graph.elidedGroups graph.groupEdges)[index]? = _ ↔ _
  rw [getElem?_fold, Option.bind_eq_some_iff]
  refine exists_congr fun place => and_congr_right fun _ => ?_
  rw [Option.map_eq_some_iff]
  constructor
  · rintro ⟨group, found, rfl⟩
    exact ⟨found, rfl⟩
  · rintro ⟨found, parents⟩
    exact ⟨placed.group, found, by rw [← stayingEdges, ← parents]⟩

theorem nodup_kept : (kept graph.elidedGroups).Nodup := by
  rw [kept_eq_places]
  exact nodup_places

/-- Every parent of a group that stays is one of the groups that stay. -/
theorem parent_mem_kept {edge : Edge} (member : edge ∈ graph.stayingEdges) :
    edge.parent ∈ kept graph.elidedGroups := by
  obtain ⟨rank, rooted⟩ := graph.exists_rooted_stayingEdges
  refine mem_kept_of_not_mem_folded ?_ fun void => ?_
  · rw [length_elidedGroups]
    exact rooted.parent_lt edge member
  · exact (rooted.clear edge member).1 (List.mem_reverse.2 void)

theorem mem_placeParents {place index : Nat} :
    index ∈ placeParents (kept graph.elidedGroups) graph.stayingEdges place ↔
      ∃ parent, Edge.mk parent place ∈ graph.stayingEdges ∧
        (kept graph.elidedGroups)[index]? = some parent := by
  rw [placeParents, List.mem_mergeSort, List.mem_map]
  refine exists_congr fun parent => ?_
  rw [mem_parentsOf]
  refine and_congr_right fun edge => ?_
  have stays := parent_mem_kept edge
  constructor
  · rintro rfl
    simp [List.getElem?_eq_getElem (List.idxOf_lt_length_of_mem stays)]
  · intro located
    obtain ⟨below, rfl⟩ := List.getElem?_eq_some_iff.1 located
    exact nodup_kept.idxOf_getElem index below

theorem nodup_parentsOf {edges : List Edge} (nodup : edges.Nodup) (place : Nat) :
    (parentsOf edges place).Nodup := by
  apply nodup.filterMap
  rintro ⟨p, c⟩ ⟨q, d⟩ parent first second
  by_cases isChild : c = place
  · by_cases isChild' : d = place
    · simp_all
    · simp [isChild'] at second
  · simp [isChild] at first

theorem pairwise_placeParents (place : Nat) :
    (placeParents (kept graph.elidedGroups) graph.stayingEdges place).Pairwise (· < ·) := by
  obtain ⟨rank, rooted⟩ := graph.exists_rooted_stayingEdges
  refine pairwise_lt_mergeSort ((nodup_parentsOf rooted.nodup place).map_on ?_)
  intro first isParent second isParent' same
  exact (List.idxOf_inj (parent_mem_kept (mem_parentsOf.1 isParent))).1 same

end ModuleGraph

/-! ## Ways through a place that is taken out -/

open Relation

/-- A graph without a place: the links beside it, and a link for every two that pass it. -/
def Bypassed {α : Type} (links : α → α → Prop) (gone source target : α) : Prop :=
  (links source target ∧ source ≠ gone ∧ target ≠ gone) ∨ (links source gone ∧ links gone target)

section

variable {α : Type} {links : α → α → Prop} {gone source target : α}

/-- By induction on the way: it stays beside the place, or has just reached it from another one. -/
theorem reflTransGen_bypassed (noLoop : ¬ links gone gone) (other : source ≠ gone)
    (way : ReflTransGen links source target) :
    (target ≠ gone → ReflTransGen (Bypassed links gone) source target) ∧
      (target = gone →
        ∃ last, ReflTransGen (Bypassed links gone) source last ∧ links last gone) := by
  induction way with
  | refl => exact ⟨fun _ => .refl, fun same => absurd same other⟩
  | @tail between target _ link ih =>
      obtain ⟨beside, through⟩ := ih
      constructor
      · intro stays
        by_cases passes : between = gone
        · obtain ⟨last, way, reaches⟩ := through passes
          exact way.tail (Or.inr ⟨reaches, passes ▸ link⟩)
        · exact (beside passes).tail (Or.inl ⟨link, passes, stays⟩)
      · rintro rfl
        have stays : between ≠ target := by
          rintro rfl
          exact noLoop link
        exact ⟨between, beside stays, link⟩

theorem reflTransGen_bypassed_iff (noLoop : ¬ links gone gone) (other : source ≠ gone)
    (other' : target ≠ gone) :
    ReflTransGen (Bypassed links gone) source target ↔ ReflTransGen links source target := by
  constructor
  · intro way
    induction way with
    | refl => exact .refl
    | @tail between target _ link ih =>
        rcases link with ⟨link, stays, _⟩ | ⟨reaches, leaves⟩
        · exact (ih stays).tail link
        · have stays : between ≠ gone := by
            rintro rfl
            exact noLoop reaches
          exact ((ih stays).tail reaches).tail leaves
  · exact fun way => (reflTransGen_bypassed noLoop other way).1 other'

end

/-- If every link into a matched place is matched by one of the other graph, so is every way. -/
theorem exists_matched_way {α β : Type} {links : α → α → Prop} {others : β → β → Prop}
    {matched : α → β → Prop}
    (back : ∀ source target image, links source target → matched target image →
      ∃ origin, matched source origin ∧ others origin image)
    {source target : α} {image : β} (way : ReflTransGen links source target)
    (isImage : matched target image) :
    ∃ origin, matched source origin ∧ ReflTransGen others origin image := by
  induction way generalizing image with
  | refl => exact ⟨image, isImage, .refl⟩
  | tail _ link ih =>
      obtain ⟨between, isBetween, last⟩ := back _ _ _ link isImage
      obtain ⟨origin, isOrigin, way⟩ := ih isBetween
      exact ⟨origin, isOrigin, way.tail last⟩

/-! ## Folded groups -/

namespace LoadGroup

/-- There is an edge from one group to another. -/
def Joined (edges : List Edge) (parent child : Nat) : Prop := Edge.mk parent child ∈ edges

variable {edges : List Edge} {rank : Nat → Nat} {group source target : Nat}

theorem joined_bypass :
    Joined (bypass edges group) = Bypassed (Joined edges) group := by
  funext parent child
  exact propext mem_bypass

theorem ranked_bypass (ranked : ∀ edge ∈ edges, rank edge.parent < rank edge.child) :
    ∀ edge ∈ bypass edges group, rank edge.parent < rank edge.child := by
  intro edge member
  rcases mem_bypass.1 member with ⟨old, _⟩ | ⟨above, under⟩
  · exact ranked edge old
  · exact Nat.lt_trans (ranked ⟨edge.parent, group⟩ above) (ranked ⟨group, edge.child⟩ under)

/-- Taking groups out one after the other keeps the ways between the others. -/
theorem leads_foldl_bypass_iff {gone : List Nat}
    (ranked : ∀ edge ∈ edges, rank edge.parent < rank edge.child) (stays : source ∉ gone)
    (stays' : target ∉ gone) :
    ReflTransGen (Joined (gone.foldl bypass edges)) source target ↔
      ReflTransGen (Joined edges) source target := by
  induction gone generalizing edges with
  | nil => rfl
  | cons group gone ih =>
      rw [List.mem_cons, not_or] at stays stays'
      have noLoop : ¬ Joined edges group group := fun loop =>
        Nat.lt_irrefl _ (ranked ⟨group, group⟩ loop)
      rw [List.foldl_cons, ih (ranked_bypass ranked) stays.2 stays'.2, joined_bypass]
      exact reflTransGen_bypassed_iff noLoop stays.1 stays'.1

end LoadGroup

namespace ModuleGraph

open LoadGroup

variable {graph : ModuleGraph} {place source target : Nat}

theorem not_mem_folded_of_kept (stays : place ∈ kept graph.elidedGroups) :
    place ∉ folded graph.elidedGroups := by
  intro void
  rw [kept_eq_places] at stays
  obtain ⟨group, found, holds⟩ := mem_places.1 stays
  obtain ⟨other, found', isVoid⟩ := mem_places.1 void
  obtain rfl := Option.some.inj (found.symm.trans found')
  simp [isVoid] at holds

/-- Groups that stay lead to each other over the edges that are left exactly if they did before. -/
theorem leads_stayingEdges_iff (stays : source ∈ kept graph.elidedGroups)
    (stays' : target ∈ kept graph.elidedGroups) :
    ReflTransGen (Joined graph.stayingEdges) source target ↔
      ReflTransGen (Joined graph.groupEdges) source target := by
  obtain ⟨rank, rooted⟩ := graph.exists_rooted_groupEdges
  exact leads_foldl_bypass_iff rooted.ranked (not_mem_folded_of_kept stays)
    (not_mem_folded_of_kept stays')

end ModuleGraph

end WebBundle
