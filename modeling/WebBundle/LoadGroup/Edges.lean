import WebBundle.LoadGroup.Basic

/-!
# Edges between load groups

A group is a parent of the groups that its modules import on demand. An import that would close a
cycle gives no edge: the child already leads to the parent. Hence the groups and edges form a graph
without cycles. Groups are named by their place in the list of groups.
-/

namespace WebBundle

structure LoadGroup.Edge where
  parent : Nat
  child : Nat
  deriving DecidableEq, Repr

namespace LoadGroup

def parentsOf (edges : List Edge) (group : Nat) : List Nat :=
  edges.filterMap fun edge => if edge.child = group then some edge.parent else none

def childrenOf (edges : List Edge) (group : Nat) : List Nat :=
  edges.filterMap fun edge => if edge.parent = group then some edge.child else none

/-- The edges between the first `count` groups as links. -/
def edgeLinks (count : Nat) (edges : List Edge) : Links where
  bound := count
  next group := if group < count then childrenOf edges group else []
  next_of_bound_le group beyond := by simp [Nat.not_lt.2 beyond]

/-- Adds an edge, unless it is there already or its child leads to its parent. -/
def connect (count : Nat) (edges : List Edge) (edge : Edge) : List Edge :=
  if edge ∈ edges || (edgeLinks count edges).leadsTo edge.child edge.parent then edges
  else edges ++ [edge]

theorem mem_parentsOf {edges : List Edge} {group parent : Nat} :
    parent ∈ parentsOf edges group ↔ ⟨parent, group⟩ ∈ edges := by
  simp only [parentsOf, List.mem_filterMap]
  constructor
  · rintro ⟨⟨p, c⟩, member, found⟩
    by_cases h : c = group
    · simp [h] at found
      rw [← found, ← h]
      exact member
    · simp [h] at found
  · intro member
    exact ⟨_, member, by simp⟩

theorem mem_childrenOf {edges : List Edge} {group child : Nat} :
    child ∈ childrenOf edges group ↔ ⟨group, child⟩ ∈ edges := by
  simp only [childrenOf, List.mem_filterMap]
  constructor
  · rintro ⟨⟨p, c⟩, member, found⟩
    by_cases h : p = group
    · simp [h] at found
      rw [← found, ← h]
      exact member
    · simp [h] at found
  · intro member
    exact ⟨_, member, by simp⟩

end LoadGroup

namespace ModuleGraph

/-- The place of the group that an import on demand of a module starts. -/
def groupStartedBy (graph : ModuleGraph) (root : Nat) : Nat :=
  graph.entries.length + graph.groupRoots.idxOf root

/-- The imports on demand between groups, in the order of groups and of imports. -/
def groupImports (graph : ModuleGraph) : List LoadGroup.Edge :=
  graph.loadGroups.zipIdx.flatMap fun (group, index) =>
    (graph.onDemandTargets group.modules).map fun target => ⟨index, graph.groupStartedBy target⟩

/-- The edges that are kept. -/
def groupEdges (graph : ModuleGraph) : List LoadGroup.Edge :=
  graph.groupImports.foldl (LoadGroup.connect graph.loadGroups.length) []

end ModuleGraph

end WebBundle
