import WebBundle.LoadGroup.Edges
import WebBundle.Proofs.LoadGroup.Roots

/-!
# The edges that are kept

An edge is added only if its child does not lead to its parent, so the groups can be ranked with
every parent below its children: the edges form no cycle. The imports are met in the order of the
groups that make them. A later group has no children yet when a group before it imports it, so that
gives an edge in any case, and every group that is started on demand has a parent.
-/

namespace WebBundle

namespace LoadGroup

/-- Edges between `count` groups of which the first `starts` are those of entries. A rank rises from
parents to children, no edge touches a group that is gone, and every other group that is started on
demand has a parent. -/
structure Rooted (starts count : Nat) (rank : Nat → Nat) (gone : List Nat) (edges : List Edge) :
    Prop where
  nodup : edges.Nodup
  ranked : ∀ edge ∈ edges, rank edge.parent < rank edge.child
  parent_lt : ∀ edge ∈ edges, edge.parent < count
  child_bounds : ∀ edge ∈ edges, starts ≤ edge.child ∧ edge.child < count
  clear : ∀ edge ∈ edges, edge.parent ∉ gone ∧ edge.child ∉ gone
  parented : ∀ place, starts ≤ place → place < count → place ∉ gone →
    ∃ parent, Edge.mk parent place ∈ edges

variable {count : Nat} {edges : List Edge} {edge : Edge}

theorem follows_edgeLinks {source target : Nat} :
    (edgeLinks count edges).Follows source target ↔
      source < count ∧ Edge.mk source target ∈ edges := by
  change target ∈ (if source < count then childrenOf edges source else []) ↔ _
  by_cases below : source < count <;> simp [below, mem_childrenOf]

/-! ## One edge -/

theorem subset_connect : edges ⊆ connect count edges edge := by
  intro other member
  unfold connect
  split
  · exact member
  · exact List.mem_append_left _ member

theorem mem_connect {other : Edge} (member : other ∈ connect count edges edge) :
    other ∈ edges ∨ other = edge := by
  unfold connect at member
  split at member
  · exact Or.inl member
  · simpa using member

theorem nodup_connect (nodup : edges.Nodup) : (connect count edges edge).Nodup := by
  unfold connect
  split
  next => exact nodup
  next new =>
    have fresh : edge ∉ edges := fun member => new (by simp [member])
    exact List.nodup_append.2 ⟨nodup, by simp, by
      intro other member last isLast same
      exact fresh (List.mem_singleton.1 isLast ▸ same ▸ member)⟩

/-- The child of the new edge and all that it leads to move above the parent. -/
theorem exists_rank_connect (bounded : ∀ other ∈ edges, other.parent < count)
    (ranked : ∃ rank : Nat → Nat, ∀ other ∈ edges, rank other.parent < rank other.child) :
    ∃ rank : Nat → Nat,
      ∀ other ∈ connect count edges edge, rank other.parent < rank other.child := by
  obtain ⟨rank, rises⟩ := ranked
  unfold connect
  split
  next => exact ⟨rank, rises⟩
  next new =>
    simp only [Bool.or_eq_true, decide_eq_true_eq, not_or, Bool.not_eq_true,
      Links.leadsTo_eq_false_iff] at new
    let links := edgeLinks count edges
    let above := fun group => links.leadsTo edge.child group
    refine ⟨fun group => if above group then rank group + rank edge.parent + 1 else rank group, ?_⟩
    intro other member
    cases List.mem_append.1 member with
    | inl old =>
        have rise := rises other old
        have step : links.Follows other.parent other.child :=
          follows_edgeLinks.2 ⟨bounded other old, old⟩
        by_cases up : links.Leads edge.child other.parent
        · have upChild : links.Leads edge.child other.child := up.tail step
          simp only [above, Links.leadsTo_iff.2 up, Links.leadsTo_iff.2 upChild, if_true]
          omega
        · simp only [above, Links.leadsTo_eq_false_iff.2 up, Bool.false_eq_true, if_false]
          split <;> omega
    | inr last =>
        obtain rfl := List.mem_singleton.1 last
        have self : links.Leads other.child other.child := .refl
        simp only [above, Links.leadsTo_iff.2 self, links, Links.leadsTo_eq_false_iff.2 new.2,
          if_true, Bool.false_eq_true, if_false]
        omega

/-- A child without children does not lead to the parent, so the edge is there afterwards. -/
theorem mem_connect_of_no_children (distinct : edge.parent ≠ edge.child)
    (childless : ∀ other ∈ edges, other.parent ≠ edge.child) : edge ∈ connect count edges edge := by
  have apart : ¬ (edgeLinks count edges).Leads edge.child edge.parent := by
    intro leads
    rcases Relation.ReflTransGen.cases_head leads with same | ⟨next, follows, _⟩
    · exact distinct same.symm
    · exact childless _ (follows_edgeLinks.1 follows).2 rfl
  unfold connect
  by_cases known : edge ∈ edges
  · simp [known]
  · simp [known, Links.leadsTo_eq_false_iff.2 apart]

/-! ## All edges -/

theorem subset_foldl_connect (imports : List Edge) :
    edges ⊆ imports.foldl (connect count) edges := by
  induction imports generalizing edges with
  | nil => exact List.Subset.refl _
  | cons first imports ih => exact List.Subset.trans subset_connect ih

theorem mem_foldl_connect {imports : List Edge}
    (member : edge ∈ imports.foldl (connect count) edges) : edge ∈ edges ∨ edge ∈ imports := by
  induction imports generalizing edges with
  | nil => exact Or.inl member
  | cons first imports ih =>
      cases ih member with
      | inl connected =>
          rcases mem_connect connected with old | rfl
          · exact Or.inl old
          · exact Or.inr List.mem_cons_self
      | inr later => exact Or.inr (List.mem_cons_of_mem _ later)

theorem nodup_foldl_connect (imports : List Edge) (nodup : edges.Nodup) :
    (imports.foldl (connect count) edges).Nodup := by
  induction imports generalizing edges with
  | nil => exact nodup
  | cons first imports ih => exact ih (nodup_connect nodup)

theorem exists_rank_foldl_connect (imports : List Edge)
    (importsBounded : ∀ other ∈ imports, other.parent < count)
    (bounded : ∀ other ∈ edges, other.parent < count)
    (ranked : ∃ rank : Nat → Nat, ∀ other ∈ edges, rank other.parent < rank other.child) :
    ∃ rank : Nat → Nat,
      ∀ other ∈ imports.foldl (connect count) edges, rank other.parent < rank other.child := by
  induction imports generalizing edges with
  | nil => exact ranked
  | cons first imports ih =>
      refine ih (fun other later => importsBounded other (List.mem_cons_of_mem _ later)) ?_
        (exists_rank_connect bounded ranked)
      intro other member
      rcases mem_connect member with old | rfl
      · exact bounded other old
      · exact importsBounded _ List.mem_cons_self

end LoadGroup

namespace ModuleGraph

open LoadGroup

variable {graph : ModuleGraph}

theorem mem_groupImports {edge : Edge} :
    edge ∈ graph.groupImports ↔ ∃ group, graph.loadGroups[edge.parent]? = some group ∧
      ∃ target ∈ graph.onDemandTargets group.modules,
        edge.child = graph.groupStartedBy target := by
  simp only [groupImports, List.mem_flatMap, Prod.exists, List.mem_map,
    List.mk_mem_zipIdx_iff_getElem?]
  constructor
  · rintro ⟨group, index, found, target, imported, rfl⟩
    exact ⟨group, found, target, imported, rfl⟩
  · rintro ⟨group, found, target, imported, same⟩
    exact ⟨group, edge.parent, found, target, imported, by rw [← same]⟩

/-- Imports are met in the order of the importing groups. -/
theorem pairwise_groupImports :
    graph.groupImports.Pairwise fun first second => first.parent ≤ second.parent := by
  rw [groupImports, List.pairwise_flatMap]
  constructor
  · rintro ⟨group, index⟩ _
    exact List.pairwise_map.2 (List.pairwise_of_forall fun _ _ => Nat.le_refl index)
  · apply (pairwise_zipIdx graph.loadGroups).imp
    rintro ⟨first, i⟩ ⟨second, j⟩ below edge member other member'
    obtain ⟨_, _, rfl⟩ := List.mem_map.1 member
    obtain ⟨_, _, rfl⟩ := List.mem_map.1 member'
    exact Nat.le_of_lt below

theorem getElem?_groupStartedBy {target : Nat} (member : target ∈ graph.groupRoots) :
    graph.loadGroups[graph.groupStartedBy target]? = some (graph.onDemandGroup target) := by
  rw [groupStartedBy, getElem?_loadGroups_onDemand]
  simp [List.getElem?_eq_getElem (List.idxOf_lt_length_of_mem member)]

theorem groupStartedBy_bounds {target : Nat} (member : target ∈ graph.groupRoots) :
    graph.entries.length ≤ graph.groupStartedBy target ∧
      graph.groupStartedBy target < graph.loadGroups.length :=
  ⟨Nat.le_add_right _ _,
    (List.getElem?_eq_some_iff.1 (getElem?_groupStartedBy member)).1⟩

theorem groupStartedBy_of_getElem? {index target : Nat}
    (located : graph.groupRoots[index]? = some target) :
    graph.groupStartedBy target = graph.entries.length + index := by
  obtain ⟨below, rfl⟩ := List.getElem?_eq_some_iff.1 located
  rw [groupStartedBy, nodup_groupRoots.idxOf_getElem]

theorem parent_lt_of_mem_groupImports {edge : Edge} (member : edge ∈ graph.groupImports) :
    edge.parent < graph.loadGroups.length := by
  obtain ⟨group, found, _⟩ := mem_groupImports.1 member
  exact (List.getElem?_eq_some_iff.1 found).1

theorem child_bounds_of_mem_groupImports {edge : Edge} (member : edge ∈ graph.groupImports) :
    graph.entries.length ≤ edge.child ∧ edge.child < graph.loadGroups.length := by
  obtain ⟨group, found, target, imported, same⟩ := mem_groupImports.1 member
  rw [same]
  exact groupStartedBy_bounds (mem_groupRoots_of_import (List.mem_of_getElem? found) imported)

theorem mem_groupImports_of_mem_groupEdges {edge : Edge} (member : edge ∈ graph.groupEdges) :
    edge ∈ graph.groupImports := by
  cases mem_foldl_connect member with
  | inl none => simp at none
  | inr imported => exact imported

/-- An import of a later group gives an edge. The imports met before it come from no later group
than this one does, so the later group has no children yet. -/
theorem mem_groupEdges_of_lt {edge : Edge} (member : edge ∈ graph.groupImports)
    (forward : edge.parent < edge.child) : edge ∈ graph.groupEdges := by
  obtain ⟨before, after, split⟩ := List.append_of_mem member
  have rising : graph.groupImports.Pairwise fun first second => first.parent ≤ second.parent :=
    pairwise_groupImports
  rw [split, List.pairwise_append] at rising
  rw [groupEdges, split, List.foldl_append, List.foldl_cons]
  refine subset_foldl_connect after
    (mem_connect_of_no_children (Nat.ne_of_lt forward) fun other kept => ?_)
  cases mem_foldl_connect kept with
  | inl none => simp at none
  | inr earlier =>
      have below := rising.2.2 other earlier edge List.mem_cons_self
      exact Nat.ne_of_lt (Nat.lt_of_le_of_lt below forward)

theorem exists_parent_groupEdges {place : Nat} (onDemand : graph.entries.length ≤ place)
    (below : place < graph.loadGroups.length) :
    ∃ parent, Edge.mk parent place ∈ graph.groupEdges := by
  obtain ⟨index, rfl⟩ := Nat.exists_eq_add_of_le onDemand
  rw [length_loadGroups, Nat.add_lt_add_iff_left] at below
  have located := List.getElem?_eq_getElem below
  obtain ⟨parent, importer, found, before, imported⟩ := exists_importer located
  refine ⟨parent, mem_groupEdges_of_lt (mem_groupImports.2 ?_) before⟩
  exact ⟨importer, found, _, imported, (groupStartedBy_of_getElem? located).symm⟩

/-- The kept edges are rooted at the entries. -/
theorem exists_rooted_groupEdges :
    ∃ rank, Rooted graph.entries.length graph.loadGroups.length rank [] graph.groupEdges := by
  obtain ⟨rank, ranked⟩ : ∃ rank : Nat → Nat,
      ∀ edge ∈ graph.groupEdges, rank edge.parent < rank edge.child :=
    exists_rank_foldl_connect graph.groupImports
      (fun _ member => parent_lt_of_mem_groupImports member) (by simp) ⟨fun _ => 0, by simp⟩
  refine ⟨rank, ?_⟩
  constructor
  case nodup => exact nodup_foldl_connect _ List.nodup_nil
  case ranked => exact ranked
  case parent_lt =>
    intro edge member
    exact parent_lt_of_mem_groupImports (mem_groupImports_of_mem_groupEdges member)
  case child_bounds =>
    intro edge member
    exact child_bounds_of_mem_groupImports (mem_groupImports_of_mem_groupEdges member)
  case clear => simp
  case parented =>
    intro place onDemand below _
    exact exists_parent_groupEdges onDemand below

end ModuleGraph

end WebBundle
