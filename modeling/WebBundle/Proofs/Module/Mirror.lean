import Mathlib.Algebra.Order.BigOperators.Group.List
import Mathlib.Algebra.Order.Group.Nat
import Mathlib.Data.Option.Basic
import Mathlib.Data.Set.Operations
import WebBundle.LoadGroup.Basic
import WebBundle.Proofs.Links.Reached
import WebBundle.Proofs.Module.Reachable

/-!
# Graphs with other numbers

Where numbers are only compared with one another, an injection of the numbers can be applied before
or after: to drop repeated items, to leave out what another list holds, to find a place, and to walk
along links.

The numbers of modules tell in which order they were found. One graph mirrors another if it has the
same entries and, for all that these reach, the same paths and imports under other numbers. What no
entry reaches may differ. Closures, and the search for what starts a group, then differ in the
numbers only.
-/

namespace WebBundle

/-! ## Numbers under injections -/

section

variable {α β : Type} [DecidableEq α] [DecidableEq β] {f : α → β}

theorem eraseDups_map (injective : Function.Injective f) (items : List α) :
    (items.map f).eraseDups = items.eraseDups.map f := by
  cases items with
  | nil => simp
  | cons item items =>
      have others : ((fun other => !other == f item) ∘ f) = fun other => !other == item := by
        funext other
        simp [injective.beq_eq]
      rw [List.map_cons, List.eraseDups_cons, List.eraseDups_cons, List.filter_map, others,
        eraseDups_map injective, List.map_cons]
  termination_by items.length
  decreasing_by exact Nat.lt_succ_of_le (List.length_filter_le _ _)

theorem idxOf_map (injective : Function.Injective f) (items : List α) (item : α) :
    (items.map f).idxOf (f item) = items.idxOf item := by
  induction items with
  | nil => rfl
  | cons first items ih => simp [List.idxOf_cons, injective.beq_eq, ih]

theorem filter_not_mem_map (injective : Function.Injective f) (items others : List α) :
    (items.map f).filter (· ∉ others.map f) = (items.filter (· ∉ others)).map f := by
  rw [List.filter_map]
  congr 1
  refine List.filter_congr fun item _ => ?_
  simp only [Function.comp_apply, List.mem_map_of_injective injective]

end

/-- What is injective on some numbers agrees there with an injection of all numbers. -/
theorem exists_injective_of_injOn {inside : List Nat} {number : Nat → Nat}
    (injOn : Set.InjOn number {id | id ∈ inside}) :
    ∃ extended : Nat → Nat, Function.Injective extended ∧
      ∀ id ∈ inside, extended id = number id := by
  let above := (inside.map number).sum + 1
  have below : ∀ id ∈ inside, ∀ other, number id ≠ other + above := by
    intro id member other same
    have small := List.le_sum_of_mem (List.mem_map_of_mem (f := number) member)
    omega
  refine ⟨fun id => if id ∈ inside then number id else id + above, ?_, ?_⟩
  · intro first second same
    by_cases isInside : first ∈ inside <;> by_cases isInside' : second ∈ inside
    · exact injOn isInside isInside' (by simpa [isInside, isInside'] using same)
    · simp only [isInside, isInside', if_true, if_false] at same
      exact absurd same (below first isInside second)
    · simp only [isInside, isInside', if_true, if_false] at same
      exact absurd same.symm (below second isInside' first)
    · simpa [isInside, isInside'] using same
  · exact fun id member => if_pos member

namespace Links

/-- A walk along relabelled links visits the relabelled numbers. The links have to agree for all
that the stack leads to, of which `inside` holds. -/
theorem walk_map {links other : Links} {number : Nat → Nat}
    (injective : Function.Injective number) {inside : Nat → Prop}
    (next : ∀ id, inside id → other.next (number id) = (links.next id).map number)
    (closed : ∀ id, inside id → ∀ target ∈ links.next id, inside target)
    {stack visited : List Nat} (within : ∀ id ∈ stack, inside id) :
    other.walk (stack.map number) (visited.map number) =
      (links.walk stack visited).map number := by
  induction stack, visited using walk_induction links with
  | done visited => rw [List.map_nil, walk_nil, walk_nil, List.map_reverse]
  | skip id stack visited known ih =>
      rw [List.map_cons, walk_of_mem (List.mem_map_of_mem known), walk_of_mem known]
      exact ih fun other later => within other (List.mem_cons_of_mem _ later)
  | visit id stack visited fresh ih =>
      have fresh' : number id ∉ visited.map number := by
        rwa [List.mem_map_of_injective injective]
      have here := within id List.mem_cons_self
      rw [List.map_cons, walk_of_not_mem fresh', walk_of_not_mem fresh, ← ih, next id here,
        ← List.map_cons, filter_not_mem_map injective, ← List.map_append]
      intro target waits
      cases List.mem_append.1 waits with
      | inl linked => exact closed id here target (List.mem_filter.1 linked).1
      | inr later => exact within target (List.mem_cons_of_mem _ later)

theorem reached_map {links other : Links} {number : Nat → Nat}
    (injective : Function.Injective number) {inside : Nat → Prop}
    (next : ∀ id, inside id → other.next (number id) = (links.next id).map number)
    (closed : ∀ id, inside id → ∀ target ∈ links.next id, inside target)
    {roots : List Nat} (within : ∀ root ∈ roots, inside root) :
    other.reached (roots.map number) = (links.reached roots).map number := by
  change other.walk (roots.map number) (([] : List Nat).map number) = _
  exact walk_map injective next closed within

end Links

/-! ## Mirrored graphs -/

def Dependency.relabel (number : Nat → Nat) (dependency : Dependency) : Dependency :=
  { dependency with target := number dependency.target }

def Entry.relabel (number : Nat → Nat) (entry : Entry) : Entry :=
  { entry with modules := entry.modules.map number }

/-- A module under another number, perhaps with other content. -/
structure Module.Mirrors (number : Nat → Nat) (module other : Module) : Prop where
  resource : other.resource = module.resource
  name : other.name = module.name
  dependencies : other.dependencies = module.dependencies.map (·.relabel number)

theorem Module.Mirrors.key {number : Nat → Nat} {module other : Module}
    (mirrors : Module.Mirrors number module other) : other.key = module.key := by
  rw [Module.key, mirrors.name, Module.key]

namespace ModuleGraph

/-- The part of a graph that the entries reach, under other numbers in another graph. -/
structure Mirrors (number : Nat → Nat) (graph other : ModuleGraph) : Prop where
  entries : other.entries = graph.entries.map (·.relabel number)
  modules : ∀ id, graph.Reachable id →
    Option.Rel (Module.Mirrors number) (graph.module? id) (other.module? (number id))

namespace Mirrors

variable {number : Nat → Nat} {graph other : ModuleGraph} {id : Nat}

theorem module?_cases (mirrors : Mirrors number graph other) (reachable : graph.Reachable id) :
    (graph.module? id = none ∧ other.module? (number id) = none) ∨
      ∃ module mirrored, graph.module? id = some module ∧
        other.module? (number id) = some mirrored ∧ Module.Mirrors number module mirrored := by
  have related := mirrors.modules id reachable
  generalize graph.module? id = first at related
  generalize other.module? (number id) = second at related
  cases related with
  | none => exact Or.inl ⟨rfl, rfl⟩
  | some same => exact Or.inr ⟨_, _, rfl, rfl, same⟩

theorem dependencies (mirrors : Mirrors number graph other) (reachable : graph.Reachable id) :
    other.dependencies (number id) = (graph.dependencies id).map (·.relabel number) := by
  unfold ModuleGraph.dependencies
  rcases mirrors.module?_cases reachable with
    ⟨none, none'⟩ | ⟨module, mirrored, found, found', same⟩
  · simp [none, none']
  · simp [found, found', same.dependencies]

theorem keyOf (mirrors : Mirrors number graph other) (reachable : graph.Reachable id) :
    other.keyOf (number id) = graph.keyOf id := by
  unfold ModuleGraph.keyOf
  rcases mirrors.module?_cases reachable with
    ⟨none, none'⟩ | ⟨module, mirrored, found, found', same⟩
  · simp [none, none']
  · simp [found, found', same.key]

theorem targets (mirrors : Mirrors number graph other) (timing : Import.Timing)
    (reachable : graph.Reachable id) :
    other.targets timing (number id) = (graph.targets timing id).map number := by
  rw [ModuleGraph.targets, mirrors.dependencies reachable, List.filterMap_map,
    ModuleGraph.targets, List.map_filterMap]
  refine List.filterMap_congr fun dependency _ => ?_
  by_cases timed : dependency.timing = timing
  · simp [Dependency.relabel, timed]
  · simp [Dependency.relabel, timed]

/-! ## Closures -/

variable (injective : Function.Injective number)

include injective

theorem closure (mirrors : Mirrors number graph other) {roots : List Nat}
    (reachable : ∀ root ∈ roots, graph.Reachable root) :
    other.closure (roots.map number) = (graph.closure roots).map number := by
  refine Links.reached_map injective (fun id => mirrors.targets .sync) ?_ reachable
  exact fun id inside target linked => inside.imports (imports_of_mem_targets linked)

theorem onDemandTargets (mirrors : Mirrors number graph other) {modules : List Nat}
    (reachable : ∀ id ∈ modules, graph.Reachable id) :
    other.onDemandTargets (modules.map number) = (graph.onDemandTargets modules).map number := by
  have flat : (modules.map number).flatMap (other.targets .async) =
      (modules.flatMap (graph.targets .async)).map number := by
    rw [List.flatMap_map, List.map_flatMap]
    exact List.flatMap_congr fun id member => mirrors.targets .async (reachable id member)
  rw [ModuleGraph.onDemandTargets, flat, eraseDups_map injective, ModuleGraph.onDemandTargets]

theorem startedBy (mirrors : Mirrors number graph other) {roots : List Nat}
    (reachable : ∀ root ∈ roots, graph.Reachable root) :
    other.startedBy (roots.map number) = (graph.startedBy roots).map number := by
  rw [ModuleGraph.startedBy, mirrors.closure injective reachable, ModuleGraph.startedBy]
  exact mirrors.onDemandTargets injective fun id => reachable_of_mem_closure reachable

end Mirrors

end ModuleGraph

end WebBundle
