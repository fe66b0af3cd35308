import WebBundle.Links
import WebBundle.Module.Graph

/-!
# Closures in a module graph

What is loaded together: the modules that some roots reach over imports at once, in depth-first
order. The targets of the imports on demand in a closure start closures of their own. A graph may
name numbers that have no module; the first of them that the entries reach is singled out.
-/

namespace WebBundle.ModuleGraph

/-- The imports of one timing as links. -/
def links (graph : ModuleGraph) (timing : Import.Timing) : Links where
  bound := graph.size
  next := graph.targets timing
  next_of_bound_le _ beyond := targets_of_size_le beyond

/-- The modules that load at once with some roots. -/
def closure (graph : ModuleGraph) (roots : List Nat) : List Nat :=
  (graph.links .sync).reached roots

/-- The targets of the imports on demand in some modules, each once. -/
def onDemandTargets (graph : ModuleGraph) (modules : List Nat) : List Nat :=
  (modules.flatMap (graph.targets .async)).eraseDups

/-- All imports as links. -/
def allLinks (graph : ModuleGraph) : Links where
  bound := graph.size
  next id := (graph.dependencies id).map (·.target)
  next_of_bound_le _ beyond := by simp [dependencies_of_size_le beyond]

/-- All numbers that the entries reach. -/
def reachable (graph : ModuleGraph) : List Nat :=
  graph.allLinks.reached (graph.entries.flatMap (·.modules))

/-- The first reached number that has no module. -/
def missing? (graph : ModuleGraph) : Option Unallocated :=
  (graph.reachable.find? fun id => graph.size ≤ id).map fun id => ⟨id⟩

/-- The targets of all imports on demand in the graph. -/
def allOnDemandTargets (graph : ModuleGraph) : List Nat :=
  graph.onDemandTargets (List.range graph.size)

theorem mem_onDemandTargets {graph : ModuleGraph} {modules : List Nat} {target : Nat} :
    target ∈ graph.onDemandTargets modules ↔
      ∃ id ∈ modules, target ∈ graph.targets .async id := by
  simp [onDemandTargets, List.mem_eraseDups, List.mem_flatMap]

theorem mem_allOnDemandTargets {graph : ModuleGraph} {modules : List Nat} {target : Nat}
    (h : target ∈ graph.onDemandTargets modules) : target ∈ graph.allOnDemandTargets := by
  obtain ⟨id, _, member⟩ := mem_onDemandTargets.1 h
  refine mem_onDemandTargets.2 ⟨id, ?_, member⟩
  by_cases below : id < graph.size
  · exact List.mem_range.2 below
  · simp [targets_of_size_le (Nat.le_of_not_lt below)] at member

end WebBundle.ModuleGraph
