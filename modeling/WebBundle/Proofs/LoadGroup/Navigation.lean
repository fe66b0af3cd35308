import WebBundle.Proofs.LoadGroup.Folding

/-!
# Runs of imports on demand

A run imports modules on demand, each of them from an entry or from a module that was imported
before. What is loaded with the group of an import is held by an entry, or kept after elision by
the group of some import of the run, as long as every import between groups gives an edge: elision
trusts the edges only, and an import that gave none is a way to a group on which less was loaded.
-/

namespace WebBundle

namespace ModuleGraph

open LoadGroup

/-- The imports on demand of a run, the last one first. -/
inductive Navigation (graph : ModuleGraph) : List Nat → Prop where
  | start : Navigation graph []
  | fromEntry {run : List Nat} {entry : Entry} {source target : Nat}
      (before : Navigation graph run) (listed : entry ∈ graph.entries)
      (within : source ∈ graph.closure entry.modules)
      (imported : target ∈ graph.targets .async source) : Navigation graph (target :: run)
  | fromImport {run : List Nat} {earlier source target : Nat}
      (before : Navigation graph run) (known : earlier ∈ run)
      (within : source ∈ graph.closure [earlier])
      (imported : target ∈ graph.targets .async source) : Navigation graph (target :: run)

/-- Some entry loads the module at once. -/
def LoadedByEntry (graph : ModuleGraph) (module : Nat) : Prop :=
  ∃ entry ∈ graph.entries, module ∈ graph.closure entry.modules

/-- The group that an import of `target` starts holds the module after elision. -/
def Keeps (graph : ModuleGraph) (target module : Nat) : Prop :=
  ∃ group ∈ graph.elidedGroups,
    group.start = .onDemand ∧ target ∈ group.roots ∧ module ∈ group.modules

/-- Every import of one group in another gives an edge. -/
def KeepsImports (graph : ModuleGraph) : Prop :=
  ∀ edge ∈ graph.groupImports, edge.parent ≠ edge.child → edge ∈ graph.groupEdges

variable {graph : ModuleGraph}

/-! ## Groups by their roots -/

theorem exists_root_of_elided {place : Nat} {group : LoadGroup}
    (found : graph.elidedGroups[place]? = some group) (onDemand : group.start = .onDemand) :
    ∃ index root, place = graph.entries.length + index ∧ graph.groupRoots[index]? = some root ∧
      group.roots = [root] := by
  have notEntry : ¬ place < graph.entries.length := by
    intro below
    rw [(start_elidedGroup found).2 below] at onDemand
    cases onDemand
  obtain ⟨index, rfl⟩ := Nat.exists_eq_add_of_le (Nat.le_of_not_lt notEntry)
  obtain ⟨whole, stands, rfl⟩ := exists_loadGroup_of_elided found
  rw [getElem?_loadGroups_onDemand, Option.map_eq_some_iff] at stands
  obtain ⟨root, located, rfl⟩ := stands
  exact ⟨index, root, rfl, located, roots_dropAvailable _ _ _⟩

/-- One import starts one group. -/
theorem eq_of_root {first second : LoadGroup} (member : first ∈ graph.elidedGroups)
    (member' : second ∈ graph.elidedGroups) (onDemand : first.start = .onDemand)
    (onDemand' : second.start = .onDemand) {root : Nat} (isRoot : root ∈ first.roots)
    (isRoot' : root ∈ second.roots) : first = second := by
  obtain ⟨place, found⟩ := List.mem_iff_getElem?.1 member
  obtain ⟨place', found'⟩ := List.mem_iff_getElem?.1 member'
  obtain ⟨index, target, rfl, located, roots⟩ := exists_root_of_elided found onDemand
  obtain ⟨index', target', rfl, located', roots'⟩ := exists_root_of_elided found' onDemand'
  rw [roots] at isRoot
  rw [roots'] at isRoot'
  obtain rfl := List.mem_singleton.1 isRoot
  obtain rfl := List.mem_singleton.1 isRoot'
  have same : index = index' := by
    rw [Nat.add_right_inj.1 ((groupStartedBy_of_getElem? located).symm.trans
      (groupStartedBy_of_getElem? located'))]
  subst same
  exact Option.some.inj (found.symm.trans found')

/-! ## What a run imports has a group -/

theorem exists_place_of_entry {entry : Entry} (listed : entry ∈ graph.entries) :
    ∃ place, place < graph.entries.length ∧
      graph.loadGroups[place]? = some (graph.entryGroup entry) := by
  obtain ⟨place, found⟩ := List.mem_iff_getElem?.1 listed
  have below := (List.getElem?_eq_some_iff.1 found).1
  refine ⟨place, below, ?_⟩
  rw [getElem?_loadGroups_entry below, found]
  rfl

theorem Navigation.mem_groupRoots {run : List Nat} (navigation : graph.Navigation run) :
    ∀ target ∈ run, target ∈ graph.groupRoots := by
  induction navigation with
  | start => simp
  | @fromEntry run entry source target _ listed within imported ih =>
      intro other member
      rcases List.mem_cons.1 member with rfl | before
      · obtain ⟨place, _, found⟩ := exists_place_of_entry listed
        exact mem_groupRoots_of_import (List.mem_of_getElem? found)
          (mem_onDemandTargets.2 ⟨source, within, imported⟩)
      · exact ih other before
  | @fromImport run earlier source target _ known within imported ih =>
      intro other member
      rcases List.mem_cons.1 member with rfl | before
      · exact mem_groupRoots_of_import
          (List.mem_of_getElem? (getElem?_groupStartedBy (ih earlier known)))
          (mem_onDemandTargets.2 ⟨source, within, imported⟩)
      · exact ih other before

/-- What is loaded with the group of an import, if elision is sound: by an entry, or by an import of
the run whose group keeps it. -/
def Covered (graph : ModuleGraph) (run : List Nat) (module : Nat) : Prop :=
  graph.LoadedByEntry module ∨ ∃ target ∈ run, graph.Keeps target module

theorem Covered.cons {run : List Nat} {module : Nat} (covered : graph.Covered run module)
    (target : Nat) : graph.Covered (target :: run) module := by
  rcases covered with early | ⟨other, member, keeps⟩
  · exact Or.inl early
  · exact Or.inr ⟨other, List.mem_cons_of_mem _ member, keeps⟩

/-- A group holds a module, or the module is available to it. -/
theorem keeps_or_available {target module : Nat} (isRoot : target ∈ graph.groupRoots)
    (loaded : module ∈
      loadedWith graph.loadGroups graph.availability (graph.groupStartedBy target)) :
    graph.Keeps target module ∨
      module ∈ availableTo graph.availability (graph.groupStartedBy target) := by
  by_cases available : module ∈ availableTo graph.availability (graph.groupStartedBy target)
  · exact Or.inr available
  · have stands := getElem?_groupStartedBy isRoot
    have elided := graph.getElem?_elidedGroups (graph.groupStartedBy target)
    rw [stands, Option.map_some] at elided
    cases List.mem_append.1 loaded with
    | inl listed => exact absurd listed available
    | inr held =>
        obtain ⟨group, found, held⟩ := mem_modulesAt.1 held
        obtain rfl := Option.some.inj (found.symm.trans stands)
        refine Or.inl ⟨_, List.mem_of_getElem? elided, start_dropAvailable _ _ _, ?_, ?_⟩
        · rw [roots_dropAvailable]
          exact List.mem_singleton_self target
        · exact mem_modules_dropAvailable.2 ⟨held, fun _ => available⟩

/-- If all imports give edges, whatever is loaded with the group of an import of a run is covered.
By induction on the run: what is available to a group is loaded with the group that imports it. -/
theorem Navigation.covered {run : List Nat} (navigation : graph.Navigation run)
    (keepsImports : graph.KeepsImports) :
    ∀ target ∈ run, ∀ module ∈
      loadedWith graph.loadGroups graph.availability (graph.groupStartedBy target),
        graph.Covered run module := by
  induction navigation with
  | start => simp
  | @fromEntry run entry source target before listed within imported ih =>
      intro other member module loaded
      rcases List.mem_cons.1 member with rfl | known
      · obtain ⟨place, below, found⟩ := exists_place_of_entry listed
        have isRoot := (before.fromEntry listed within imported).mem_groupRoots other
          List.mem_cons_self
        cases keeps_or_available isRoot loaded with
        | inl keeps => exact Or.inr ⟨other, List.mem_cons_self, keeps⟩
        | inr available =>
            have edge : Edge.mk place (graph.groupStartedBy other) ∈ graph.groupEdges := by
              refine keepsImports _ (mem_groupImports.2 ⟨_, found, other,
                mem_onDemandTargets.2 ⟨source, within, imported⟩, rfl⟩) ?_
              exact Nat.ne_of_lt (Nat.lt_of_lt_of_le below (groupStartedBy_bounds isRoot).1)
            have above := (loaded_of_available available).2 place (mem_parentsOf.2 edge)
            rw [loadedWith, availableTo_entry below, List.nil_append] at above
            obtain ⟨group, stands, held⟩ := mem_modulesAt.1 above
            obtain rfl := Option.some.inj (stands.symm.trans found)
            exact Or.inl ⟨entry, listed, held⟩
      · exact (ih other known module loaded).cons target
  | @fromImport run earlier source target before known within imported ih =>
      intro other member module loaded
      rcases List.mem_cons.1 member with rfl | known'
      · have isRoot := (before.fromImport known within imported).mem_groupRoots other
          List.mem_cons_self
        have earlierRoot := before.mem_groupRoots earlier known
        cases keeps_or_available isRoot loaded with
        | inl keeps => exact Or.inr ⟨other, List.mem_cons_self, keeps⟩
        | inr available =>
            by_cases self : graph.groupStartedBy earlier = graph.groupStartedBy other
            · exact (ih earlier known module (self ▸ loaded)).cons other
            · have edge : Edge.mk (graph.groupStartedBy earlier) (graph.groupStartedBy other) ∈
                  graph.groupEdges :=
                keepsImports _ (mem_groupImports.2 ⟨_, getElem?_groupStartedBy earlierRoot, other,
                  mem_onDemandTargets.2 ⟨source, within, imported⟩, rfl⟩) self
              have above := (loaded_of_available available).2 _ (mem_parentsOf.2 edge)
              exact (ih earlier known module above).cons other
      · exact (ih other known' module loaded).cons target

theorem mem_loadedWith_of_mem_closure {target module : Nat} (isRoot : target ∈ graph.groupRoots)
    (within : module ∈ graph.closure [target]) :
    module ∈ loadedWith graph.loadGroups graph.availability (graph.groupStartedBy target) :=
  List.mem_append_right _ (mem_modulesAt.2 ⟨_, getElem?_groupStartedBy isRoot, within⟩)

end ModuleGraph

end WebBundle
