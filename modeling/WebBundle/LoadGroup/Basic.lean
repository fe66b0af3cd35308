import WebBundle.Module.Closure

/-!
# Load groups

A load group is what loads together: the closure of an entry's roots, or of a module that some
group imports on demand. The groups are found from the entries on, a group for every imported
module, in the order in which the imports are met.
-/

namespace WebBundle

/-- What starts a load group. -/
inductive LoadGroup.Start where
  | entry
  | onDemand
  deriving DecidableEq, Repr

structure LoadGroup where
  name : String
  start : LoadGroup.Start
  roots : List Nat
  modules : List Nat
  deriving DecidableEq, Repr

namespace ModuleGraph

/-- The targets of imports on demand that were not found yet. -/
def unfound (graph : ModuleGraph) (found : List Nat) : List Nat :=
  graph.allOnDemandTargets.filter (· ∉ found)

/-- The targets that the closure of some roots imports on demand. -/
def startedBy (graph : ModuleGraph) (roots : List Nat) : List Nat :=
  graph.onDemandTargets (graph.closure roots)

theorem length_unfound_append_lt {graph : ModuleGraph} {found fresh : List Nat} {target : Nat}
    (member : target ∈ fresh) (known : target ∈ graph.allOnDemandTargets)
    (new : target ∉ found) :
    (graph.unfound (found ++ fresh)).length < (graph.unfound found).length := by
  have split : graph.unfound (found ++ fresh) = (graph.unfound found).filter (· ∉ fresh) := by
    simp only [unfound, List.filter_filter]
    apply List.filter_congr
    intro other _
    by_cases h : other ∈ found <;> simp [h]
  rw [split, List.length_filter_lt_length_iff_exists]
  exact ⟨target, by simp [unfound, known, new], by simpa using member⟩

/-- All targets found from some lists of roots on. Every new target is searched in its turn. -/
def discover (graph : ModuleGraph) : (pending : List (List Nat)) → (found : List Nat) → List Nat
  | [], found => found
  | roots :: pending, found =>
      let fresh := (graph.startedBy roots).filter (· ∉ found)
      discover graph (pending ++ fresh.map fun target => [target]) (found ++ fresh)
  termination_by pending found => ((graph.unfound found).length, pending.length)
  decreasing_by
    change Prod.Lex _ _ ((graph.unfound (found ++ fresh)).length,
      (pending ++ fresh.map fun target => [target]).length) _
    generalize same : fresh = new
    cases new with
    | nil => simpa using Prod.Lex.right _ (Nat.lt_succ_self _)
    | cons target others =>
        have member : target ∈ fresh := by simp [same]
        have started : target ∈ graph.startedBy roots := (List.mem_filter.1 member).1
        have new : target ∉ found := by simpa using (List.mem_filter.1 member).2
        rw [← same]
        exact Prod.Lex.left _ _
          (length_unfound_append_lt member (mem_allOnDemandTargets started) new)

/-- The modules that start a group on demand. -/
def groupRoots (graph : ModuleGraph) : List Nat :=
  graph.discover (graph.entries.map (·.modules)) []

def entryGroup (graph : ModuleGraph) (entry : Entry) : LoadGroup :=
  ⟨entry.name, .entry, entry.modules, graph.closure entry.modules⟩

/-- The name under which a module is known, empty for a number without a module. -/
def keyOf (graph : ModuleGraph) (id : Nat) : String :=
  match graph.module? id with
  | some module => module.key
  | none => ""

def onDemandGroup (graph : ModuleGraph) (root : Nat) : LoadGroup :=
  ⟨graph.keyOf root, .onDemand, [root], graph.closure [root]⟩

/-- The groups of the entries, then those started on demand. -/
def loadGroups (graph : ModuleGraph) : List LoadGroup :=
  graph.entries.map graph.entryGroup ++ graph.groupRoots.map graph.onDemandGroup

end ModuleGraph

end WebBundle
