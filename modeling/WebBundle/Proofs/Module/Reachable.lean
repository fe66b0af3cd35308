import WebBundle.Module.Closure
import WebBundle.Proofs.Links.Reached
import WebBundle.Proofs.Places

/-!
# Reachable modules

The closure of some roots holds exactly the modules that they reach over imports at once, each of
them once. A module is reachable if some root of an entry leads to it over imports of either timing.

A closure and the targets that it imports on demand are found in one pass over a stack. A round
takes the top of the stack; a module that is new is visited, the targets of its imports on demand are
noted, and those of its imports at once are put on the stack, the last one first. The invariant is
that the modules visited are those of the walk so far and the targets noted are the first
occurrences among their imports.
-/

namespace WebBundle.ModuleGraph

variable {graph : ModuleGraph}

theorem mem_targets {timing : Import.Timing} {source target : Nat} :
    target ∈ graph.targets timing source ↔
      ∃ dependency ∈ graph.dependencies source,
        dependency.timing = timing ∧ dependency.target = target := by
  simp only [targets, List.mem_filterMap]
  constructor
  · rintro ⟨dependency, member, found⟩
    by_cases timed : dependency.timing = timing
    · exact ⟨dependency, member, timed, by simpa [timed] using found⟩
    · simp [timed] at found
  · rintro ⟨dependency, member, timed, same⟩
    exact ⟨dependency, member, by simp [timed, same]⟩

/-! ## Closures -/

theorem mem_closure {roots : List Nat} {id : Nat} :
    id ∈ graph.closure roots ↔ ∃ root ∈ roots, (graph.links .sync).Leads root id :=
  Links.mem_reached

theorem nodup_closure (roots : List Nat) : (graph.closure roots).Nodup :=
  Links.nodup_reached roots

theorem mem_closure_of_mem {roots : List Nat} {root : Nat} (member : root ∈ roots) :
    root ∈ graph.closure roots :=
  mem_closure.2 ⟨root, member, .refl⟩

theorem mem_closure_of_target {roots : List Nat} {id target : Nat}
    (member : id ∈ graph.closure roots) (imported : target ∈ graph.targets .sync id) :
    target ∈ graph.closure roots := by
  obtain ⟨root, isRoot, leads⟩ := mem_closure.1 member
  exact mem_closure.2 ⟨root, isRoot, leads.tail imported⟩

/-! ## Reachability -/

/-- A module imports another, at once or on demand. -/
def Imports (graph : ModuleGraph) (source target : Nat) : Prop :=
  ∃ dependency ∈ graph.dependencies source, dependency.target = target

/-- Some root of an entry leads to the module. -/
def Reachable (graph : ModuleGraph) (id : Nat) : Prop :=
  ∃ entry ∈ graph.entries, ∃ root ∈ entry.modules, Relation.ReflTransGen graph.Imports root id

theorem imports_of_mem_targets {timing : Import.Timing} {source target : Nat}
    (member : target ∈ graph.targets timing source) : graph.Imports source target := by
  obtain ⟨dependency, listed, _, same⟩ := mem_targets.1 member
  exact ⟨dependency, listed, same⟩

theorem imports_iff {source target : Nat} :
    graph.Imports source target ↔
      target ∈ graph.targets .sync source ∨ target ∈ graph.targets .async source := by
  constructor
  · rintro ⟨dependency, listed, same⟩
    cases timed : dependency.timing with
    | sync => exact Or.inl (mem_targets.2 ⟨dependency, listed, timed, same⟩)
    | async => exact Or.inr (mem_targets.2 ⟨dependency, listed, timed, same⟩)
  · rintro (member | member)
    · exact imports_of_mem_targets member
    · exact imports_of_mem_targets member

theorem Reachable.imports {source target : Nat} (reachable : graph.Reachable source)
    (imports : graph.Imports source target) : graph.Reachable target := by
  obtain ⟨entry, listed, root, isRoot, leads⟩ := reachable
  exact ⟨entry, listed, root, isRoot, leads.tail imports⟩

theorem reachable_of_mem_closure {roots : List Nat} {id : Nat}
    (reachable : ∀ root ∈ roots, graph.Reachable root) (member : id ∈ graph.closure roots) :
    graph.Reachable id := by
  obtain ⟨root, isRoot, leads⟩ := mem_closure.1 member
  induction leads with
  | refl => exact reachable root isRoot
  | tail _ follows ih =>
      exact (ih (mem_closure.2 ⟨root, isRoot, by assumption⟩)).imports
        (imports_of_mem_targets follows)

theorem reachable_of_mem_entry {entry : Entry} {root : Nat} (listed : entry ∈ graph.entries)
    (isRoot : root ∈ entry.modules) : graph.Reachable root :=
  ⟨entry, listed, root, isRoot, .refl⟩

/-- The numbers that the entries reach are the reachable modules. -/
theorem mem_reachable {id : Nat} : id ∈ graph.reachable ↔ graph.Reachable id := by
  have follows : graph.allLinks.Follows = graph.Imports := by
    funext source target
    exact propext List.mem_map
  rw [ModuleGraph.reachable, Links.mem_reached, Links.Leads, follows]
  constructor
  · rintro ⟨root, isRoot, leads⟩
    obtain ⟨entry, listed, within⟩ := List.mem_flatMap.1 isRoot
    exact ⟨entry, listed, root, within, leads⟩
  · rintro ⟨entry, listed, root, within, leads⟩
    exact ⟨root, List.mem_flatMap.2 ⟨entry, listed, within⟩, leads⟩

instance {id : Nat} : Decidable (graph.Reachable id) := decidable_of_iff _ mem_reachable

/-! ## One pass over a stack -/

/-- A search under way: the numbers on the stack, its top first, with the modules visited and the
targets noted so far. -/
structure ClosureSearch where
  stack : List Nat
  modules : List Nat := []
  targets : List Nat := []

namespace ClosureSearch

/-- An import on demand has its target noted once. -/
def note (targets : List Nat) (dependency : Dependency) : List Nat :=
  if dependency.timing = .async && dependency.target ∉ targets then
    targets ++ [dependency.target]
  else targets

/-- An import at once has its target put on the stack if it is not visited. -/
def push (visited : List Nat) (dependency : Dependency) (stack : List Nat) : List Nat :=
  if dependency.timing = .sync && dependency.target ∉ visited then dependency.target :: stack
  else stack

/-- A round with the number that was taken from the stack. It fails if the number has no module. -/
def round (graph : ModuleGraph) (id : Nat) (search : ClosureSearch) :
    Except Unallocated ClosureSearch :=
  if id ∈ search.modules then .ok search
  else
    (graph.modules.get id).map fun module =>
      { stack := module.dependencies.foldr (push (search.modules ++ [id])) search.stack
        modules := search.modules ++ [id]
        targets := module.dependencies.foldl note search.targets }

/-- What a search comes to, if that takes no more rounds than are allowed. -/
def run (graph : ModuleGraph) :
    (rounds : Nat) → ClosureSearch → Option (Except Unallocated (List Nat × List Nat))
  | _, ⟨[], modules, targets⟩ => some (.ok (modules, targets))
  | 0, _ => none
  | rounds + 1, ⟨id :: stack, modules, targets⟩ =>
      match round graph id ⟨stack, modules, targets⟩ with
      | .error error => some (.error error)
      | .ok search => run graph rounds search

end ClosureSearch

/-- What a search comes to that visits some numbers: it fails at the first that has no module. -/
def outcome (graph : ModuleGraph) (modules targets : List Nat) :
    Except Unallocated (List Nat × List Nat) :=
  match modules.find? fun id => graph.size ≤ id with
  | some id => .error ⟨id⟩
  | none => .ok (modules, targets)

/-- What the search from some roots finds, and in which order. -/
structure SearchesInPreorder (graph : ModuleGraph) (roots modules targets : List Nat) : Prop where
  ends : ∃ rounds ≤ roots.length + (modules.flatMap (graph.targets .sync)).length,
    ClosureSearch.run graph rounds { stack := roots } = some (graph.outcome modules targets)
  mem_modules_iff (id : Nat) : id ∈ modules ↔ ∃ root ∈ roots, Relation.ReflTransGen
    (fun source target => ∃ dependency ∈ graph.dependencies source,
      dependency.timing = .sync ∧ dependency.target = target) root id
  nodup_modules : modules.Nodup
  preorder (order : List Nat) : (graph.links .sync).Explores roots [] order ↔ order = modules
  mem_targets_iff (target : Nat) : target ∈ targets ↔ ∃ id ∈ modules,
    ∃ dependency ∈ graph.dependencies id, dependency.timing = .async ∧ dependency.target = target
  nodup_targets : targets.Nodup
  firstOccurrences : targets.Pairwise fun first second =>
    (modules.flatMap (graph.targets .async)).idxOf first <
      (modules.flatMap (graph.targets .async)).idxOf second

theorem outcome_eq_ok {modules : List Nat} (exist : ∀ id ∈ modules, id < graph.size)
    (targets : List Nat) : graph.outcome modules targets = .ok (modules, targets) := by
  have none : modules.find? (fun id => graph.size ≤ id) = none := by
    rw [List.find?_eq_none]
    intro id member
    simpa using exist id member
  rw [outcome, none]

theorem outcome_eq_error {before : List Nat} {id : Nat} (exist : ∀ id ∈ before, id < graph.size)
    (beyond : graph.size ≤ id) (later targets : List Nat) :
    graph.outcome (before ++ id :: later) targets = .error ⟨id⟩ := by
  have first : (before ++ id :: later).find? (fun id => graph.size ≤ id) = some id := by
    refine List.find?_eq_some_iff_append.2 ⟨by simpa using beyond, before, later, rfl, ?_⟩
    intro other member
    simpa using exist other member
  rw [outcome, first]

/-! ## Rounds -/

theorem targets_eq_map (timing : Import.Timing) (id : Nat) :
    graph.targets timing id =
      ((graph.dependencies id).filter (·.timing = timing)).map (·.target) := by
  rw [targets, ← List.filterMap_eq_filter, List.map_filterMap]
  refine List.filterMap_congr fun dependency _ => ?_
  by_cases timed : dependency.timing = timing <;> simp [timed]

namespace ClosureSearch

/-- Noting the targets of more imports gives the first occurrences among all of them. -/
theorem foldl_note (met : List Nat) (dependencies : List Dependency) :
    dependencies.foldl note met.eraseDups =
      (met ++ (dependencies.filter (·.timing = .async)).map (·.target)).eraseDups := by
  induction dependencies generalizing met with
  | nil => simp
  | cons dependency dependencies ih =>
      have noted : note met.eraseDups dependency =
          (met ++ ([dependency].filter (·.timing = .async)).map (·.target)).eraseDups := by
        by_cases timed : dependency.timing = .async
        · rw [note, List.filter_cons_of_pos (by simpa using timed), List.filter_nil,
            List.map_singleton, eraseDups_append_singleton]
          by_cases known : dependency.target ∈ met <;> simp [timed, known, List.mem_eraseDups]
        · simp [note, timed]
      rw [List.foldl_cons, noted, ih, List.append_assoc, ← List.map_append, ← List.filter_append,
        List.singleton_append]

/-- The targets of imports at once are put on the stack in source order. -/
theorem foldr_push (visited stack : List Nat) (dependencies : List Dependency) :
    dependencies.foldr (push visited) stack =
      ((dependencies.filter (·.timing = .sync)).map (·.target)).filter (· ∉ visited) ++ stack := by
  induction dependencies with
  | nil => rfl
  | cons dependency dependencies ih =>
      rw [List.foldr_cons, ih, push]
      by_cases timed : dependency.timing = .sync
      · by_cases known : dependency.target ∈ visited <;> simp [timed, known]
      · simp [timed]

theorem round_of_mem {id : Nat} {search : ClosureSearch} (known : id ∈ search.modules) :
    round graph id search = .ok search :=
  if_pos known

theorem round_of_size_le {id : Nat} {search : ClosureSearch} (fresh : id ∉ search.modules)
    (beyond : graph.size ≤ id) : round graph id search = .error ⟨id⟩ := by
  have none : graph.modules.get? id = none := Array.getElem?_eq_none beyond
  rw [round, if_neg fresh, Arena.get, none]
  rfl

theorem round_of_lt_size {id : Nat} {stack modules : List Nat} (fresh : id ∉ modules)
    (below : id < graph.size) :
    round graph id ⟨stack, modules, graph.onDemandTargets modules⟩ =
      .ok ⟨(graph.targets .sync id).filter (· ∉ modules ++ [id]) ++ stack, modules ++ [id],
        graph.onDemandTargets (modules ++ [id])⟩ := by
  obtain ⟨module, found⟩ : ∃ module, graph.modules.get? id = some module :=
    ⟨_, Array.getElem?_eq_getElem below⟩
  have dependencies : graph.dependencies id = module.dependencies := by
    rw [ModuleGraph.dependencies, module?, found]
  have made : round graph id ⟨stack, modules, graph.onDemandTargets modules⟩ =
      .ok ⟨module.dependencies.foldr (push (modules ++ [id])) stack, modules ++ [id],
        module.dependencies.foldl note (graph.onDemandTargets modules)⟩ := by
    rw [round, if_neg fresh, Arena.get, found]
    rfl
  rw [made, foldr_push, onDemandTargets, foldl_note, onDemandTargets, List.flatMap_append,
    List.flatMap_singleton, targets_eq_map, targets_eq_map, dependencies]

/-- The search ends, and its rounds are as many as there are numbers put on the stack. -/
theorem exists_run (stack visited : List Nat) (exist : ∀ id ∈ visited, id < graph.size) :
    ∃ rounds, rounds + (visited.flatMap (graph.targets .sync)).length ≤ stack.length +
        (((graph.links .sync).walk stack visited).flatMap (graph.targets .sync)).length ∧
      run graph rounds ⟨stack, visited.reverse, graph.onDemandTargets visited.reverse⟩ =
        some (graph.outcome ((graph.links .sync).walk stack visited)
          (graph.onDemandTargets ((graph.links .sync).walk stack visited))) := by
  induction stack, visited using Links.walk_induction (graph.links .sync) with
  | done visited =>
      have exist' : ∀ id ∈ visited.reverse, id < graph.size :=
        fun id member => exist id (List.mem_reverse.1 member)
      rw [Links.walk_nil, outcome_eq_ok exist']
      refine ⟨0, ?_, by rw [run]⟩
      rw [Nat.zero_add, List.length_nil, Nat.zero_add]
      exact ((List.reverse_perm visited).flatMap_right _).length_eq.ge
  | skip id stack visited known ih =>
      obtain ⟨rounds, bound, ends⟩ := ih exist
      rw [Links.walk_of_mem known]
      refine ⟨rounds + 1, ?_, ?_⟩
      · rw [List.length_cons]
        omega
      · rw [run, round_of_mem (List.mem_reverse.2 known)]
        exact ends
  | visit id stack visited fresh ih =>
      have fresh' : id ∉ visited.reverse := fun member => fresh (List.mem_reverse.1 member)
      rw [Links.walk_of_not_mem fresh]
      by_cases beyond : graph.size ≤ id
      · have exist' : ∀ id ∈ visited.reverse, id < graph.size :=
          fun id member => exist id (List.mem_reverse.1 member)
        obtain ⟨later, whole⟩ := Links.exists_walk_eq_append (graph.links .sync)
          (((graph.links .sync).next id).filter (· ∉ id :: visited) ++ stack) (id :: visited)
        rw [List.reverse_cons, List.append_assoc, List.singleton_append] at whole
        rw [whole, outcome_eq_error exist' beyond]
        refine ⟨1, ?_, by rw [run, round_of_size_le fresh' beyond]⟩
        have kept := ((List.reverse_perm visited).flatMap_right (graph.targets .sync)).length_eq
        rw [List.flatMap_append, List.length_append, List.length_cons]
        omega
      · have below : id < graph.size := Nat.lt_of_not_le beyond
        obtain ⟨rounds, bound, ends⟩ := ih (List.forall_mem_cons.2 ⟨below, exist⟩)
        refine ⟨rounds + 1, ?_, ?_⟩
        · have pushed : (((graph.links .sync).next id).filter (· ∉ id :: visited)).length ≤
              (graph.targets .sync id).length := List.length_filter_le _ _
          rw [List.flatMap_cons, List.length_append, List.length_append] at bound
          rw [List.length_cons]
          omega
        · have same : (graph.targets .sync id).filter (· ∉ visited.reverse ++ [id]) =
              ((graph.links .sync).next id).filter (· ∉ id :: visited) :=
            List.filter_congr fun target _ => by simp [or_comm]
          rw [List.reverse_cons] at ends
          rw [run, round_of_lt_size fresh' below, same]
          exact ends

end ClosureSearch

/-! ## The whole search -/

theorem follows_links_iff (timing : Import.Timing) :
    (graph.links timing).Follows = fun source target => ∃ dependency ∈ graph.dependencies source,
      dependency.timing = timing ∧ dependency.target = target := by
  funext source target
  exact propext mem_targets

theorem searches_closure (graph : ModuleGraph) (roots : List Nat) :
    graph.SearchesInPreorder roots (graph.closure roots)
      (graph.onDemandTargets (graph.closure roots)) where
  ends := by
    have exist : ∀ id ∈ ([] : List Nat), id < graph.size := List.forall_mem_nil _
    obtain ⟨rounds, bound, ends⟩ := ClosureSearch.exists_run roots [] exist
    exact ⟨rounds, bound, ends⟩
  mem_modules_iff id := by
    rw [mem_closure, Links.Leads, follows_links_iff]
  nodup_modules := nodup_closure roots
  preorder order := Links.explores_iff_eq_reached
  mem_targets_iff target := by
    rw [mem_onDemandTargets]
    exact exists_congr fun id => and_congr_right fun _ => mem_targets
  nodup_targets := nodup_eraseDups _
  firstOccurrences := pairwise_idxOf_eraseDups _

end WebBundle.ModuleGraph
