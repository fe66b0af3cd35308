import WebBundle.Proofs.Chunk.Splitting
import WebBundle.Proofs.LoadGroup.Ways

/-!
# Imports that give no edge

An import whose child already leads to its parent is dropped. Then some way to the parent passes
the child, but that need not be every way: a group between the two may be entered from the side. The
child is loaded whenever the parent can ask for it exactly if there is no such entrance.
-/

namespace WebBundle.ModuleGraph

open LoadGroup

/-- The kept edges between the groups as links. -/
def groupLinks (graph : ModuleGraph) : Links := edgeLinks graph.loadGroups.length graph.groupEdges

/-- At its turn, an import of another group was left out since the child led to the parent. -/
def Dropped (graph : ModuleGraph) (edge : Edge) : Prop :=
  edge.parent ≠ edge.child ∧ ∃ earlier later, graph.groupImports = earlier ++ edge :: later ∧
    edge ∉ earlier.foldl (connect graph.loadGroups.length) [] ∧
      (edgeLinks graph.loadGroups.length
        (earlier.foldl (connect graph.loadGroups.length) [])).Leads edge.child edge.parent

/-- A kept edge from a group that the child of a dropped edge does not lead to, into a group that
lies between the child and the parent. -/
def SideEntrance (graph : ModuleGraph) (dropped side : Edge) : Prop :=
  side ∈ graph.groupEdges ∧ side.child ≠ dropped.child ∧
    graph.groupLinks.Leads dropped.child side.child ∧
      graph.groupLinks.Leads side.child dropped.parent ∧
        ¬ graph.groupLinks.Leads dropped.child side.parent

variable {graph : ModuleGraph} {edge : Edge} {before : List Nat} {group : Nat}

/-! ## The order of the groups -/

theorem follows_groupLinks {source target : Nat} :
    graph.groupLinks.Follows source target ↔ Edge.mk source target ∈ graph.groupEdges := by
  rw [groupLinks, follows_edgeLinks]
  constructor
  · exact And.right
  · intro member
    exact ⟨parent_lt_of_mem_groupImports (mem_groupImports_of_mem_groupEdges member), member⟩

theorem rank_le_of_leads {rank : Nat → Nat} {source target : Nat}
    (ranked : ∀ edge ∈ graph.groupEdges, rank edge.parent < rank edge.child)
    (leads : graph.groupLinks.Leads source target) : rank source ≤ rank target := by
  induction leads with
  | refl => exact Nat.le_refl _
  | tail _ follows ih =>
      have rises := ranked _ (follows_groupLinks.1 follows)
      exact Nat.le_trans ih (Nat.le_of_lt rises)

/-- Kept edges form no cycle. -/
theorem not_leads_of_mem_groupEdges (member : edge ∈ graph.groupEdges) :
    ¬ graph.groupLinks.Leads edge.child edge.parent := by
  intro leads
  obtain ⟨rank, rooted⟩ := graph.exists_rooted_groupEdges
  exact Nat.not_lt.2 (rank_le_of_leads rooted.ranked leads) (rooted.ranked edge member)

theorem eq_of_leads {first second : Nat} (leads : graph.groupLinks.Leads first second)
    (back : graph.groupLinks.Leads second first) : first = second := by
  cases leads with
  | refl => rfl
  | tail leads follows =>
      exact absurd (back.trans leads) (not_leads_of_mem_groupEdges (follows_groupLinks.1 follows))

/-- The groups on a way lead to its end. -/
theorem Way.leads (way : graph.Way before group) :
    ∀ earlier ∈ before, graph.groupLinks.Leads earlier group := by
  induction way with
  | entry => simp
  | @step before parent group _ kept ih =>
      intro earlier passed
      have follows : graph.groupLinks.Follows parent group := follows_groupLinks.2 kept
      rcases List.mem_cons.1 passed with rfl | passed
      · exact Relation.ReflTransGen.single follows
      · exact (ih earlier passed).tail follows

/-! ## What is dropped -/

theorem Dropped.leads (dropped : graph.Dropped edge) :
    graph.groupLinks.Leads edge.child edge.parent := by
  obtain ⟨_, earlier, later, order, _, leads⟩ := dropped
  refine Relation.ReflTransGen.mono (fun source target follows => ?_) _ _ leads
  obtain ⟨below, kept⟩ := follows_edgeLinks.1 follows
  apply follows_edgeLinks.2
  refine ⟨below, ?_⟩
  rw [groupEdges, order, List.foldl_append, List.foldl_cons]
  exact subset_foldl_connect later (subset_connect kept)

/-- An import of another group gives an edge or is dropped. -/
theorem dropped_iff :
    graph.Dropped edge ↔
      edge.parent ≠ edge.child ∧ edge ∈ graph.groupImports ∧ edge ∉ graph.groupEdges := by
  constructor
  · intro dropped
    have leads := dropped.leads
    obtain ⟨distinct, earlier, later, order, _⟩ := dropped
    refine ⟨distinct, ?_, fun member => not_leads_of_mem_groupEdges member leads⟩
    rw [order]
    exact List.mem_append_right _ List.mem_cons_self
  · rintro ⟨distinct, imported, missing⟩
    obtain ⟨earlier, later, order⟩ := List.append_of_mem imported
    rw [groupEdges, order, List.foldl_append, List.foldl_cons] at missing
    have skipped : edge ∉ connect graph.loadGroups.length
        (earlier.foldl (connect graph.loadGroups.length) []) edge :=
      fun connected => missing (subset_foldl_connect later connected)
    have new : edge ∉ earlier.foldl (connect graph.loadGroups.length) [] :=
      fun kept => skipped (subset_connect kept)
    refine ⟨distinct, earlier, later, order, new, ?_⟩
    by_contra apart
    apply skipped
    simp [connect, new, Links.leadsTo_eq_false_iff.2 apart]

/-! ## Ways around the child -/

/-- Without an entrance from the side, a way that gets to a group between the child and the parent
got there by way of the child. -/
theorem Way.passes (closed : ∀ side, ¬ graph.SideEntrance edge side)
    (way : graph.Way before group) (below : graph.groupLinks.Leads edge.child group)
    (above : graph.groupLinks.Leads group edge.parent) : edge.child ∈ group :: before := by
  induction way with
  | @entry group isEntry =>
      cases below with
      | refl => exact List.mem_cons_self
      | tail _ follows =>
          have imported := mem_groupImports_of_mem_groupEdges (follows_groupLinks.1 follows)
          have bounds := child_bounds_of_mem_groupImports imported
          exact absurd bounds.1 (Nat.not_le.2 isEntry)
  | @step before parent group _ kept ih =>
      by_cases isChild : group = edge.child
      · exact isChild ▸ List.mem_cons_self
      · apply List.mem_cons_of_mem
        have belowParent : graph.groupLinks.Leads edge.child parent := by
          by_contra apart
          exact closed ⟨parent, group⟩ ⟨kept, isChild, below, above, apart⟩
        exact ih belowParent (above.head (follows_groupLinks.2 kept))

/-- A way can be continued. -/
theorem Way.continued {target : Nat} (way : graph.Way before group)
    (leads : graph.groupLinks.Leads group target) :
    ∃ passed, graph.Way passed target ∧
      ∀ earlier ∈ passed, earlier ∈ before ∨ graph.groupLinks.Leads group earlier := by
  induction leads with
  | refl => exact ⟨before, way, fun _ => Or.inl⟩
  | @tail parent target leads follows ih =>
      obtain ⟨passed, wayToParent, origin⟩ := ih
      refine ⟨parent :: passed, wayToParent.step (follows_groupLinks.1 follows), ?_⟩
      intro earlier member
      rcases List.mem_cons.1 member with rfl | member
      · exact Or.inr leads
      · exact origin earlier member

/-- An entrance from the side opens a way around the child. -/
theorem exists_way_around {side : Edge} (entrance : graph.SideEntrance edge side) :
    ∃ before, graph.Way before edge.parent ∧ edge.child ∉ before := by
  obtain ⟨kept, notChild, below, above, apart⟩ := entrance
  have imported := mem_groupImports_of_mem_groupEdges kept
  obtain ⟨before, way⟩ := exists_way (parent_lt_of_mem_groupImports imported)
  obtain ⟨passed, wayToParent, origin⟩ := (way.step kept).continued above
  refine ⟨passed, wayToParent, fun member => ?_⟩
  rcases origin edge.child member with early | late
  · rcases List.mem_cons.1 early with isParent | earlier
    · rw [isParent] at apart
      exact apart Relation.ReflTransGen.refl
    · exact apart (way.leads edge.child earlier)
  · exact notChild (eq_of_leads late below)

/-- The child of a dropped edge leads to the parent, and every way to the parent passes the child
exactly if no group between them is entered from the side. -/
theorem passes_iff_of_dropped (dropped : graph.Dropped edge) :
    graph.groupLinks.Leads edge.child edge.parent ∧
      ((∀ before, graph.Way before edge.parent → edge.child ∈ before) ↔
        ∀ side, ¬ graph.SideEntrance edge side) := by
  have distinct := dropped.1
  refine ⟨dropped.leads, ?_⟩
  constructor
  · intro passes side entrance
    obtain ⟨before, way, avoids⟩ := exists_way_around entrance
    exact avoids (passes before way)
  · intro closed before way
    rcases List.mem_cons.1 (way.passes closed dropped.leads .refl) with isParent | passed
    · exact absurd isParent.symm distinct
    · exact passed

open Chunk in
/-- Two pairs of pages import each other. The fifth page is reached by way of the fourth and by way
of the third, the sixth only by way of the fifth. -/
def tangledPages : ModuleGraph where
  root := "/app"
  modules := ⟨#[
    moduleAt 0 "main.js" [⟨1, .async, "./a"⟩, ⟨3, .async, "./c"⟩],
    moduleAt 1 "a.js" [⟨2, .sync, "./b"⟩, ⟨4, .async, "./d"⟩],
    moduleAt 2 "b.js" [],
    moduleAt 3 "c.js" [⟨5, .async, "./e"⟩],
    moduleAt 4 "d.js" [⟨2, .sync, "./b"⟩, ⟨5, .async, "./e"⟩],
    moduleAt 5 "e.js" [⟨4, .async, "./d"⟩, ⟨6, .async, "./f"⟩],
    moduleAt 6 "f.js" [⟨5, .async, "./e"⟩]]⟩
  entries := [⟨"main", [0]⟩]

theorem groupImports_tangledPages :
    tangledPages.groupImports =
      [⟨0, 1⟩, ⟨0, 2⟩, ⟨1, 3⟩, ⟨2, 4⟩, ⟨3, 4⟩, ⟨4, 3⟩, ⟨4, 5⟩, ⟨5, 4⟩] := by cbv

theorem groupEdges_tangledPages :
    tangledPages.groupEdges = [⟨0, 1⟩, ⟨0, 2⟩, ⟨1, 3⟩, ⟨2, 4⟩, ⟨3, 4⟩, ⟨4, 5⟩] := by cbv

/-- The sixth page asks for the fifth, which is loaded by then. -/
theorem passes_tangledPages :
    tangledPages.Dropped ⟨5, 4⟩ ∧ ∀ before, tangledPages.Way before 5 → 4 ∈ before := by
  have dropped : tangledPages.Dropped ⟨5, 4⟩ := by
    rw [dropped_iff, groupImports_tangledPages, groupEdges_tangledPages]
    decide
  have rising : ∀ side ∈ tangledPages.groupEdges, side.parent < side.child := by
    rw [groupEdges_tangledPages]
    decide
  refine ⟨dropped, (passes_iff_of_dropped dropped).2.2 ?_⟩
  rintro side ⟨kept, notChild, below, _, apart⟩
  have late : id 4 ≤ id side.child := rank_le_of_leads rising below
  rw [groupEdges_tangledPages] at kept
  simp only [List.mem_cons, List.not_mem_nil, or_false] at kept
  rcases kept with rfl | rfl | rfl | rfl | rfl | rfl
  · exact absurd late (by decide)
  · exact absurd late (by decide)
  · exact absurd late (by decide)
  · exact notChild rfl
  · exact notChild rfl
  · exact apart .refl

theorem loaded_tangledPages :
    tangledPages.loadGroups.map (·.modules) = [[0], [1, 2], [3], [4, 2], [5], [6]] ∧
      tangledPages.elidedGroups.map (·.modules) = [[0], [1, 2], [3], [4], [5], [6]] := by
  constructor <;> cbv

/-- The fifth page asks for the fourth, which need not be loaded. The fourth page is taken to find
its other module loaded, but no group on the way by the third page holds that module. -/
theorem not_passes_tangledPages :
    tangledPages.Dropped ⟨4, 3⟩ ∧ tangledPages.Way [2, 0] 4 ∧ 3 ∉ [2, 0] ∧
      tangledPages.loadGroups.map (·.modules) = [[0], [1, 2], [3], [4, 2], [5], [6]] ∧
        tangledPages.elidedGroups.map (·.modules) = [[0], [1, 2], [3], [4], [5], [6]] := by
  have dropped : tangledPages.Dropped ⟨4, 3⟩ := by
    rw [dropped_iff, groupImports_tangledPages, groupEdges_tangledPages]
    decide
  have first : tangledPages.Way [0] 2 :=
    (Way.entry (by decide)).step (by simp [groupEdges_tangledPages])
  have second : tangledPages.Way [2, 0] 4 := first.step (by simp [groupEdges_tangledPages])
  exact ⟨dropped, second, by decide, loaded_tangledPages⟩

end WebBundle.ModuleGraph
