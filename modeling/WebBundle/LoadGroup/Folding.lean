import WebBundle.LoadGroup.Availability

/-!
# Folding of empty groups

A group started on demand that holds nothing any more is folded into its parents: they become the
parents of its children. The groups that stay are numbered anew, in their order.
-/

namespace WebBundle

namespace LoadGroup

/-- The group is started on demand and holds nothing. -/
def isVoid (group : LoadGroup) : Bool := group.start = .onDemand && group.modules.isEmpty

/-- Adds an edge that is not there yet. -/
def addEdge (edges : List Edge) (edge : Edge) : List Edge :=
  if edge ∈ edges then edges else edges ++ [edge]

/-- Connects every parent of a group with every child of it, and takes the group out. -/
def bypass (edges : List Edge) (group : Nat) : List Edge :=
  let around := (parentsOf edges group).flatMap fun parent =>
    (childrenOf edges group).map fun child => Edge.mk parent child
  around.foldl addEdge (edges.filter fun edge => edge.parent ≠ group && edge.child ≠ group)

/-- The places of the groups that are folded. -/
def folded (groups : List LoadGroup) : List Nat :=
  groups.zipIdx.filterMap fun (group, place) => if group.isVoid then some place else none

/-- The places of the groups that stay. -/
def kept (groups : List LoadGroup) : List Nat :=
  groups.zipIdx.filterMap fun (group, place) => if group.isVoid then none else some place

def foldedEdges (groups : List LoadGroup) (edges : List Edge) : List Edge :=
  (folded groups).foldl bypass edges

end LoadGroup

/-- A group that stays. `parents` are places in the list of the groups that stay, in rising
order. -/
structure LoadGroup.Placed where
  group : LoadGroup
  parents : List Nat
  deriving DecidableEq, Repr

namespace LoadGroup

def placeParents (kept : List Nat) (edges : List Edge) (place : Nat) : List Nat :=
  ((parentsOf edges place).map fun parent => kept.idxOf parent).mergeSort

/-- The groups that stay, with their parents. -/
def fold (groups : List LoadGroup) (edges : List Edge) : List Placed :=
  let edges := foldedEdges groups edges
  let kept := kept groups
  kept.filterMap fun place =>
    groups[place]?.map fun group => ⟨group, placeParents kept edges place⟩

end LoadGroup

/-- The load groups of a module graph. -/
def ModuleGraph.placedGroups (graph : ModuleGraph) : List LoadGroup.Placed :=
  let groups := graph.loadGroups
  let edges := graph.groupEdges
  LoadGroup.fold (LoadGroup.elide groups edges) edges

end WebBundle
