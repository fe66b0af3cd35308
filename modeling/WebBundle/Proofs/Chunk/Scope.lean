import WebBundle.Proofs.Chunk.RuleChunks

/-!
# The scope of a cache group

A cache group chooses a module for one of the groups that hold it, and then takes it from all of
them. So a chunk keeps to the scope of its cache group exactly if no group of the other kind holds
one of its modules.
-/

namespace WebBundle

open CacheGroup Chunk

/-- A group that is started on demand holds the module. -/
def ModuleGraph.HeldOnDemand (graph : ModuleGraph) (module : Nat) : Prop :=
  ∃ placed ∈ graph.placedGroups, placed.group.start = .onDemand ∧ module ∈ placed.group.modules

namespace ChunkGraph

/-- The chunk is loaded where its cache group looks for modules: at the start only, or on demand
only. -/
def KeepsScope (chunks : ChunkGraph) (scope : ChunkScope) (chunk : Chunk) : Prop :=
  match scope with
  | .all => True
  | .initial => ∀ parent ∈ chunk.parents, ∃ entry ∈ chunks.entries, entry.id = parent
  | .onDemand => chunk.initial = false ∧ ∀ entry ∈ chunks.entries, entry.id ∉ chunk.parents

/-- How the chunks that cache groups made keep to the scopes: each of their modules is held where
the scope has it, and what takes a chunk out of its scope are modules that are held elsewhere too.
-/
structure ScopesChosen (graph : ModuleGraph) (rules : List Rule) (chunks : ChunkGraph)
    (accepted : List Rule) : Prop where
  made : List.Forall₂ (graph.IsRuleChunk rules) accepted chunks.claimed
  onDemand : ∀ index rule chunk, chunks.MadeAt accepted index rule chunk →
    rule.scope = .onDemand → ∀ module ∈ chunk.modules, graph.HeldOnDemand module
  initial : ∀ index rule chunk, chunks.MadeAt accepted index rule chunk →
    rule.scope = .initial → ∀ module ∈ chunk.modules, graph.LoadedByEntry module
  early : ∀ index rule chunk, chunks.MadeAt accepted index rule chunk →
    (chunk.initial = true ↔ ∃ entry ∈ chunks.entries, entry.id ∈ chunk.parents)
  keeps_onDemand : ∀ index rule chunk, chunks.MadeAt accepted index rule chunk →
    (chunks.KeepsScope .onDemand chunk ↔ ∀ module ∈ chunk.modules, ¬ graph.LoadedByEntry module)
  keeps_initial : ∀ index rule chunk, chunks.MadeAt accepted index rule chunk →
    (chunks.KeepsScope .initial chunk ↔ ∀ module ∈ chunk.modules, ¬ graph.HeldOnDemand module)

end ChunkGraph

namespace Chunk

open ModuleGraph

variable {graph : ModuleGraph} {rules accepted : List Rule} {limits : Limits}
variable {reports : List Diagnostic} {chunks : ChunkGraph} {chunk : Chunk} {rule : Rule}
variable {module : Nat}

/-! ## What a rule chooses -/

theorem heldOnDemand_of_wins (wins : graph.Wins rules rule module)
    (scope : rule.scope = .onDemand) : graph.HeldOnDemand module := by
  obtain ⟨placed, listed, held, takes⟩ := wins.1
  refine ⟨placed, listed, LoadGroup.start_eq_onDemand_of_ne fun isEntry => ?_, held⟩
  simp [Rule.takes, Rule.admits, scope, isEntry] at takes

theorem loadedByEntry_of_wins (wins : graph.Wins rules rule module)
    (scope : rule.scope = .initial) : graph.LoadedByEntry module := by
  obtain ⟨placed, listed, held, takes⟩ := wins.1
  refine loadedByEntry_iff.2 ⟨placed, listed, ?_, held⟩
  by_contra notEntry
  simp [Rule.takes, Rule.admits, scope, notEntry] at takes

/-! ## Where a chunk is loaded -/

/-- The chunk of a rule has an entry as a parent if an entry loads one of its modules at once. -/
theorem exists_entry_parent_iff (made : split graph rules limits = (reports, .ok chunks))
    (member : chunk ∈ chunks.claimed) :
    (∃ entry ∈ chunks.entries, entry.id ∈ chunk.parents) ↔
      ∃ module ∈ chunk.modules, graph.LoadedByEntry module := by
  constructor
  · rintro ⟨entry, isEntry, isParent⟩
    obtain ⟨place, placed, located, stands, module, within, held⟩ :=
      (mem_parents_of_claimed made member).1 isParent
    have start := (group_of_entry made isEntry located stands).1
    exact ⟨module, within, loadedByEntry_iff.2 ⟨placed, List.mem_of_getElem? stands, start, held⟩⟩
  · rintro ⟨module, within, early⟩
    obtain ⟨placed, listed, start, held⟩ := loadedByEntry_iff.1 early
    obtain ⟨place, stands⟩ := List.mem_iff_getElem?.1 listed
    obtain ⟨id, located⟩ := exists_standing_of_claimed made member stands within held
    obtain ⟨entry, isEntry, rfl⟩ := exists_entry_of_standing made located stands start
    exact ⟨entry, isEntry, (mem_parents_of_claimed made member).2
      ⟨place, placed, located, stands, module, within, held⟩⟩

/-- All parents are entries if no group that is started on demand holds one of the modules. -/
theorem forall_parents_iff (made : split graph rules limits = (reports, .ok chunks))
    (member : chunk ∈ chunks.claimed) :
    (∀ parent ∈ chunk.parents, ∃ entry ∈ chunks.entries, entry.id = parent) ↔
      ∀ module ∈ chunk.modules, ¬ graph.HeldOnDemand module := by
  constructor
  · rintro entries module within ⟨placed, listed, start, held⟩
    obtain ⟨place, stands⟩ := List.mem_iff_getElem?.1 listed
    obtain ⟨id, located⟩ := exists_standing_of_claimed made member stands within held
    obtain ⟨entry, isEntry, rfl⟩ := entries id ((mem_parents_of_claimed made member).2
      ⟨place, placed, located, stands, module, within, held⟩)
    have early := (group_of_entry made isEntry located stands).1
    simp [start] at early
  · intro early parent isParent
    obtain ⟨place, placed, located, stands, module, within, held⟩ :=
      (mem_parents_of_claimed made member).1 isParent
    refine exists_entry_of_standing made located stands ?_
    by_contra notEntry
    exact early module within ⟨placed, List.mem_of_getElem? stands,
      LoadGroup.start_eq_onDemand_of_ne notEntry, held⟩

/-- A cache group chooses modules by its scope, and its chunk keeps to the scope exactly if none of
them is held by a group of the other kind too. -/
theorem exists_scopesChosen {groups : List CacheGroup}
    (compiled : Rule.ofGroups groups = .ok rules)
    (made : split graph rules limits = (reports, .ok chunks)) :
    ∃ accepted, (∀ other, graph.Accepts rules limits other ↔ other = accepted) ∧
      chunks.ScopesChosen graph rules accepted := by
  obtain ⟨accepted, exactly, drafts⟩ := @exists_accepts graph rules limits groups compiled
  have pairs := forall₂_claimed made drafts
  refine ⟨accepted, exactly, ?_⟩
  constructor
  case made => exact pairs
  case onDemand =>
    intro index rule chunk madeAt scope module within
    rw [(madeAt.related pairs).modules] at within
    exact heldOnDemand_of_wins (mem_wonBy.1 within) scope
  case initial =>
    intro index rule chunk madeAt scope module within
    rw [(madeAt.related pairs).modules] at within
    exact loadedByEntry_of_wins (mem_wonBy.1 within) scope
  case early =>
    intro index rule chunk madeAt
    have member := List.mem_of_getElem? madeAt.2
    rw [initial_iff_loadedByEntry made (List.mem_filter.1 member).1 (madeAt.related pairs).kind,
      exists_entry_parent_iff made member]
  case keeps_onDemand =>
    intro index rule chunk madeAt
    have member := List.mem_of_getElem? madeAt.2
    have early := initial_iff_loadedByEntry made (List.mem_filter.1 member).1
      (madeAt.related pairs).kind
    have parent := exists_entry_parent_iff made member
    have late : (∀ module ∈ chunk.modules, ¬ graph.LoadedByEntry module) ↔
        ¬ ∃ module ∈ chunk.modules, graph.LoadedByEntry module := by
      simp only [not_exists, not_and]
    rw [ChunkGraph.KeepsScope, ← Bool.not_eq_true, early, late, ← parent]
    simp only [not_exists, not_and, and_self]
  case keeps_initial =>
    intro index rule chunk madeAt
    exact forall_parents_iff made (List.mem_of_getElem? madeAt.2)

/-! ## A module on both sides -/

/-- The first page needs the library at once, the second one only for a view. -/
def twoEntries : ModuleGraph where
  root := "/app"
  modules := ⟨#[
    moduleAt 0 "first.js" [⟨3, .sync, "./lib"⟩],
    moduleAt 1 "second.js" [⟨2, .async, "./view"⟩],
    moduleAt 2 "view.js" [⟨3, .sync, "./lib"⟩],
    moduleAt 3 "lib.js" []]⟩
  entries := [⟨"first", [0]⟩, ⟨"second", [1]⟩]

/-- A cache group for the library. -/
def libGroups (scope : ChunkScope) : List CacheGroup :=
  [{ name := "libs", test := .contains ["/lib"], scope }]

def libRule (scope : ChunkScope) : Rule :=
  ⟨"libs", .holdsOneOf ["/lib".toList], scope, 0, false, 0⟩

theorem ofGroups_libGroups (scope : ChunkScope) :
    Rule.ofGroups (libGroups scope) = .ok [libRule scope] := by
  cases scope <;> cbv

theorem exists_split_twoEntries (scope : ChunkScope) :
    ∃ reports chunks, split twoEntries [libRule scope] {} = (reports, .ok chunks) := by
  apply exists_split_ok
  cases scope <;> cbv

/-- The library is loaded at the start and for the view, whatever the scope of its cache group. -/
theorem claimed_twoEntries {reports : List Diagnostic} {chunks : ChunkGraph} {scope : ChunkScope}
    (made : split twoEntries [libRule scope] {} = (reports, .ok chunks)) :
    (chunks.claimed.map fun chunk => (chunk.initial, chunk.parents), chunks.entries.map (·.id)) =
      ([(true, [0, 2])], [0, 1]) := by
  rw [(split_ok made).1]
  cases scope <;> cbv

/-- The cache group looks for modules that are loaded on demand, and finds one of the view. -/
theorem scopesChosen_twoEntries :
    ∃ reports chunks accepted,
      split twoEntries [libRule .onDemand] {} = (reports, .ok chunks) ∧
        (∀ other, twoEntries.Accepts [libRule .onDemand] {} other ↔ other = accepted) ∧
          chunks.ScopesChosen twoEntries [libRule .onDemand] accepted ∧
            chunks.claimed.length = 1 := by
  obtain ⟨reports, chunks, made⟩ := exists_split_twoEntries .onDemand
  obtain ⟨accepted, exactly, chosen⟩ := exists_scopesChosen (ofGroups_libGroups .onDemand) made
  have listed := congrArg (·.1.length) (claimed_twoEntries made)
  exact ⟨reports, chunks, accepted, made, exactly, chosen, by simpa using listed⟩

/-- An accepted cache group of some scope makes a chunk for the library that leaves the scope. -/
def LibraryLeaves (scope : ChunkScope) : Prop :=
  ∃ reports chunks accepted chunk,
    split twoEntries [libRule scope] {} = (reports, .ok chunks) ∧
      (∀ other, twoEntries.Accepts [libRule scope] {} other ↔ other = accepted) ∧
        chunks.MadeAt accepted 0 (libRule scope) chunk ∧ ¬ chunks.KeepsScope scope chunk

theorem libraryLeaves_of (scope : ChunkScope)
    (leaves : ∀ (chunks : ChunkGraph) (chunk : Chunk), chunk.initial = true →
      chunk.parents = [0, 2] → chunks.entries.map (·.id) = [0, 1] →
        ¬ chunks.KeepsScope scope chunk) : LibraryLeaves scope := by
  obtain ⟨reports, chunks, made⟩ := exists_split_twoEntries scope
  obtain ⟨accepted, exactly, drafts⟩ :=
    @exists_accepts twoEntries [libRule scope] {} _ (ofGroups_libGroups scope)
  obtain ⟨shape, entries⟩ := Prod.mk.inj (claimed_twoEntries made)
  obtain ⟨chunk, only, same⟩ := List.map_eq_singleton_iff.1 shape
  obtain ⟨initial, parents⟩ := Prod.mk.inj same
  have all : accepted = [libRule scope] := by
    refine ((exactly accepted).2 rfl).sublist.eq_of_length ?_
    rw [(forall₂_claimed made drafts).length_eq, only]
    rfl
  refine ⟨reports, chunks, accepted, chunk, made, exactly, ⟨?_, ?_⟩,
    leaves chunks chunk initial parents entries⟩
  · rw [all]
    rfl
  · rw [only]
    rfl

/-- The scopes that leave groups out are not kept. -/
theorem libraryLeaves_scopes : LibraryLeaves .onDemand ∧ LibraryLeaves .initial := by
  constructor
  · refine libraryLeaves_of .onDemand fun chunks chunk initial _ _ keeps => ?_
    simp [ChunkGraph.KeepsScope, initial] at keeps
  · refine libraryLeaves_of .initial fun chunks chunk _ parents entries keeps => ?_
    obtain ⟨entry, isEntry, isView⟩ := keeps 2 (by simp [parents])
    have listed : entry.id ∈ chunks.entries.map (·.id) := List.mem_map_of_mem isEntry
    rw [entries, isView] at listed
    simp at listed

end Chunk

end WebBundle
