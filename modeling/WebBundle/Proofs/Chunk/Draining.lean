import WebBundle.Proofs.Chunk.RuleChunks

/-!
# Groups that cache groups drain

Splitting fails exactly if a group lost a module to a cache group and has none left. What other
groups hold too has left as well, but a group that lost its modules only for that is not an error:
an entry keeps its chunk without modules of its own. The first such group is reported, with the
cache groups that took something from it.
-/

namespace WebBundle

open CacheGroup Chunk

namespace ModuleGraph

variable (graph : ModuleGraph) (rules accepted : List Rule)

/-- An accepted cache group takes the module. -/
def IsTaken (module : Nat) : Prop := ∃ rule ∈ accepted, graph.Wins rules rule module

/-- The module moves to a shared chunk. -/
def Moves (module : Nat) : Prop :=
  graph.IsTaken rules accepted module ∨ 2 ≤ (graph.holdersOf module).length

instance (module : Nat) : Decidable (graph.Moves rules accepted module) := by
  unfold Moves IsTaken
  infer_instance

/-- Cache groups took a module of the group, and all its modules move. -/
structure IsDrained (placed : LoadGroup.Placed) : Prop where
  taken : ∃ module ∈ placed.group.modules, graph.IsTaken rules accepted module
  moved : ∀ module ∈ placed.group.modules, graph.Moves rules accepted module

instance (placed : LoadGroup.Placed) : Decidable (graph.IsDrained rules accepted placed) :=
  have : Decidable (∃ module ∈ placed.group.modules, graph.IsTaken rules accepted module) := by
    unfold IsTaken
    infer_instance
  decidable_of_iff
    ((∃ module ∈ placed.group.modules, graph.IsTaken rules accepted module) ∧
      ∀ module ∈ placed.group.modules, graph.Moves rules accepted module)
    ⟨fun drained => ⟨drained.1, drained.2⟩, fun drained => ⟨drained.taken, drained.moved⟩⟩

/-- The names of the accepted cache groups that take a module of the group. -/
def takers (placed : LoadGroup.Placed) : List String :=
  ((accepted.filter fun rule => ∃ module ∈ placed.group.modules,
    graph.Wins rules rule module).map (·.name)).eraseDups

/-- The chunk of an entry, with what did not move. -/
structure IsEntryChunk (entry : Entry) (chunk : Chunk) : Prop where
  name : chunk.name = entry.name
  roots : chunk.roots = entry.modules
  modules : chunk.modules =
    (graph.closure entry.modules).filter fun module => ¬ graph.Moves rules accepted module

end ModuleGraph

namespace Chunk

open ModuleGraph

variable {graph : ModuleGraph} {rules accepted : List Rule} {limits : Limits}
variable {place module : Nat} {placed : LoadGroup.Placed}

/-! ## What moved -/

variable (drafts : (cacheGroupDrafts graph rules limits graph.groupDrafts).1 =
  accepted.map (graph.ruleDraft rules))

include drafts in
theorem mem_sharedDrafts_iff (held : ∃ draft ∈ graph.groupDrafts, module ∈ draft.modules) :
    module ∈ (sharedDrafts graph rules limits graph.groupDrafts).flatMap (·.modules) ↔
      graph.Moves rules accepted module := by
  have taken : module ∈
      (cacheGroupDrafts graph rules limits graph.groupDrafts).1.flatMap (·.modules) ↔
        graph.IsTaken rules accepted module := by
    rw [drafts, List.flatMap_map, List.mem_flatMap]
    exact exists_congr fun rule => and_congr_right fun _ => mem_wonBy
  rw [sharedDrafts, List.flatMap_append, List.mem_append, mem_modules_dedupDrafts, mem_repeated,
    taken, mem_seen, holders_groupDrafts, Moves]
  simp only [held, true_and]
  tauto

/-! ## The first group that is drained -/

include drafts in
/-- The accepted cache groups that are above a group are those that took something from it. -/
theorem drainedBy_eq_takers (stands : graph.placedGroups[place]? = some placed) :
    drainedBy (cacheGroupDrafts graph rules limits graph.groupDrafts).1 place =
      graph.takers rules accepted placed := by
  rw [drainedBy, drafts, List.filter_map, List.map_map, takers]
  congr 2
  refine List.filter_congr fun rule _ => ?_
  rw [Function.comp, decide_eq_decide]
  change place ∈ holdersOfAny graph.groupDrafts (graph.wonBy rules rule) ↔ _
  rw [mem_holdersOfAny_groupDrafts]
  constructor
  · rintro ⟨other, stands', module, won, held⟩
    obtain rfl := Option.some.inj (stands'.symm.trans stands)
    exact ⟨module, held, mem_wonBy.1 won⟩
  · rintro ⟨module, held, wins⟩
    exact ⟨placed, stands, module, mem_wonBy.2 wins, held⟩

theorem takers_eq_nil_iff :
    graph.takers rules accepted placed = [] ↔
      ¬ ∃ module ∈ placed.group.modules, graph.IsTaken rules accepted module := by
  have nothing (names : List String) : names.eraseDups = [] ↔ names = [] := by
    simp only [List.eq_nil_iff_forall_not_mem, List.mem_eraseDups]
  rw [takers, nothing, List.map_eq_nil_iff, List.filter_eq_nil_iff]
  constructor
  · rintro none ⟨module, held, rule, member, wins⟩
    exact none rule member (decide_eq_true ⟨module, held, wins⟩)
  · rintro none rule member holds
    obtain ⟨module, held, wins⟩ := of_decide_eq_true holds
    exact none ⟨module, held, rule, member, wins⟩

theorem take_spreadDrafts :
    (spreadDrafts graph rules limits).take graph.groupDrafts.length =
      withoutMoved graph.groupDrafts
        ((sharedDrafts graph rules limits graph.groupDrafts).flatMap (·.modules)) := by
  rw [spreadDrafts, spread]
  exact List.take_left' (length_withoutMoved _)

include drafts in
/-- A group has nothing left exactly if all its modules move. -/
theorem isEmpty_filter_iff (listed : placed ∈ graph.placedGroups) :
    (placed.group.modules.filter
        (· ∉ (sharedDrafts graph rules limits graph.groupDrafts).flatMap (·.modules))).isEmpty =
      true ↔ ∀ module ∈ placed.group.modules, graph.Moves rules accepted module := by
  rw [List.isEmpty_iff, List.filter_eq_nil_iff]
  refine forall₂_congr fun module held => ?_
  rw [decide_eq_true_eq, not_not,
    mem_sharedDrafts_iff drafts ⟨_, List.mem_map_of_mem listed, held⟩]

include drafts in
/-- What is tested at the place of a group is whether the group is drained. -/
theorem isDrained_iff (stands : graph.placedGroups[place]? = some placed) :
    ((placed.group.modules.filter
        (· ∉ (sharedDrafts graph rules limits graph.groupDrafts).flatMap (·.modules))).isEmpty &&
      !(drainedBy (cacheGroupDrafts graph rules limits graph.groupDrafts).1 place).isEmpty) =
        true ↔ graph.IsDrained rules accepted placed := by
  rw [Bool.and_eq_true, isEmpty_filter_iff drafts (List.mem_of_getElem? stands),
    drainedBy_eq_takers drafts stands, Bool.not_eq_true', ← Bool.not_eq_true, List.isEmpty_iff,
    takers_eq_nil_iff, not_not]
  constructor
  · rintro ⟨moved, taken⟩
    exact ⟨taken, moved⟩
  · rintro ⟨taken, moved⟩
    exact ⟨moved, taken⟩

include drafts in
/-- What splitting reports is the first group that is drained. -/
theorem emptyChunk?_eq :
    emptyChunk? (cacheGroupDrafts graph rules limits graph.groupDrafts).1
        ((spreadDrafts graph rules limits).take graph.groupDrafts.length) =
      (graph.placedGroups.find? fun placed => graph.IsDrained rules accepted placed).map
        fun placed => ⟨placed.group.name, graph.takers rules accepted placed⟩ := by
  rw [take_spreadDrafts, emptyChunk?, withoutMoved, groupDrafts, List.map_map, List.zipIdx_map,
    List.findSome?_map, ← List.findSome?_guard, List.map_findSome?]
  refine findSome?_zipIdx fun place placed stands => ?_
  have names := drainedBy_eq_takers drafts stands
  refine (if_congr (isDrained_iff drafts stands) rfl rfl).trans ?_
  change (if graph.IsDrained rules accepted placed then some (EmptyChunk.mk placed.group.name
    (drainedBy (cacheGroupDrafts graph rules limits graph.groupDrafts).1 place)) else none) = _
  rw [names]
  by_cases drained : graph.IsDrained rules accepted placed <;> simp [drained]

/-! ## The entries -/

/-- The draft of a group that is loaded at the start, without parents and without what moved. -/
def entryDraft (graph : ModuleGraph) (rules accepted : List Rule) (group : LoadGroup) : Draft where
  name := group.name
  kind := .entry
  initial := true
  modules := group.modules.filter fun module => ¬ graph.Moves rules accepted module
  roots := group.roots
  parents := []

variable {reports : List Diagnostic} {chunks : ChunkGraph}

include drafts in
/-- What shared chunks hold is what moved. -/
theorem shares_iff_moves (made : split graph rules limits = (reports, .ok chunks))
    (held : ∃ draft ∈ graph.groupDrafts, module ∈ draft.modules) :
    chunks.shares module = true ↔ graph.Moves rules accepted module := by
  rw [shares_iff made, mem_sharedDrafts_iff drafts held]

include drafts in
theorem withParents_movedGroup (made : split graph rules limits = (reports, .ok chunks))
    (listed : placed ∈ graph.placedGroups) (start : placed.group.start = .entry) :
    (movedGroup chunks placed).withParents [] =
      entryDraft graph rules accepted placed.group := by
  have modules : placed.group.modules.filter (fun module => !chunks.shares module) =
      placed.group.modules.filter fun module => ¬ graph.Moves rules accepted module := by
    refine List.filter_congr fun module held => Bool.eq_iff_iff.2 ?_
    rw [Bool.not_eq_true', ← Bool.not_eq_true, decide_eq_true_eq,
      shares_iff_moves drafts made ⟨_, List.mem_map_of_mem listed, held⟩]
  simp [Draft.withParents, movedGroup, Draft.ofGroup, entryDraft, start, Draft.kindOf, modules]

include drafts in
theorem map_bare_entries (made : split graph rules limits = (reports, .ok chunks)) :
    chunks.entries.map bare =
      (graph.entries.map graph.entryGroup).map (entryDraft graph rules accepted) := by
  have lives : ∀ draft ∈ (spreadDrafts graph rules limits).filter (·.kind = .entry),
      isDissolved draft = false := by
    intro draft member
    have isEntry : draft.kind = .entry := by simpa using (List.mem_filter.1 member).2
    simp [isDissolved, isEntry]
  have noShared : (sharedDrafts graph rules limits graph.groupDrafts).filter
      (·.kind = .entry) = [] := by
    refine List.filter_eq_nil_iff.2 fun draft member => ?_
    simp [(shares_of_mem_sharedDrafts member).kind]
  have early : graph.placedGroups.filter ((·.kind = .entry) ∘ movedGroup chunks) =
      graph.placedGroups.filter (·.group.start = .entry) :=
    List.filter_congr fun placed _ => decide_eq_decide.2 Draft.kindOf_eq_entry_iff
  calc chunks.entries.map bare
      = ((spreadDrafts graph rules limits).filter (·.kind = .entry)).map (·.withParents []) :=
        map_bare_filter made (·.kind = .entry) (fun _ _ => rfl) (fun _ => rfl) lives
    _ = (graph.placedGroups.filter (·.group.start = .entry)).map
          ((·.withParents []) ∘ movedGroup chunks) := by
        rw [spreadDrafts_eq made, List.filter_append, noShared, List.append_nil, List.filter_map,
          List.map_map, ← early]
    _ = (graph.placedGroups.filter (·.group.start = .entry)).map fun placed =>
          entryDraft graph rules accepted placed.group := by
        refine List.map_congr_left fun placed member => ?_
        obtain ⟨listed, isEntry⟩ := List.mem_filter.1 member
        exact withParents_movedGroup drafts made listed (of_decide_eq_true isEntry)
    _ = (graph.entries.map graph.entryGroup).map (entryDraft graph rules accepted) := by
        rw [← map_group_entries, List.map_map]
        rfl

include drafts in
theorem forall₂_isEntryChunk (made : split graph rules limits = (reports, .ok chunks)) :
    List.Forall₂ (graph.IsEntryChunk rules accepted) graph.entries chunks.entries := by
  have same := map_bare_entries drafts made
  rw [List.map_map] at same
  refine (forall₂_of_map_eq same.symm).imp fun entry chunk equal => ?_
  constructor
  case name => exact (congrArg Draft.name equal).symm
  case roots => exact (congrArg Draft.roots equal).symm
  case modules => exact (congrArg Draft.modules equal).symm

/-! ## When splitting fails -/

include drafts in
theorem eq_error_iff {error : EmptyChunk} :
    (split graph rules limits).2 = .error error ↔
      ∃ before placed after, graph.placedGroups = before ++ placed :: after ∧
        (∀ earlier ∈ before, ¬ graph.IsDrained rules accepted earlier) ∧
          graph.IsDrained rules accepted placed ∧
            error = ⟨placed.group.name, graph.takers rules accepted placed⟩ := by
  have failed : (split graph rules limits).2 = .error error ↔
      emptyChunk? (cacheGroupDrafts graph rules limits graph.groupDrafts).1
        ((spreadDrafts graph rules limits).take graph.groupDrafts.length) = some error := by
    rw [split_eq]
    cases emptyChunk? (cacheGroupDrafts graph rules limits graph.groupDrafts).1
      ((spreadDrafts graph rules limits).take graph.groupDrafts.length) <;> simp
  rw [failed, emptyChunk?_eq drafts, Option.map_eq_some_iff]
  constructor
  · rintro ⟨placed, found, rfl⟩
    obtain ⟨drained, before, after, parts, passed⟩ := List.find?_eq_some_iff_append.1 found
    refine ⟨before, placed, after, parts, fun earlier member => ?_, of_decide_eq_true drained, rfl⟩
    simpa using passed earlier member
  · rintro ⟨before, placed, after, parts, passed, drained, rfl⟩
    refine ⟨placed, List.find?_eq_some_iff_append.2 ⟨decide_eq_true drained, before, after, parts,
      fun earlier member => ?_⟩, rfl⟩
    simpa using passed earlier member

/-- Splitting fails exactly if cache groups drain a group. The error names the first such group and
the cache groups that took something from it. If splitting succeeds, what moved is what shared
chunks hold, and every entry has its chunk, even if nothing is left for it. -/
theorem error_iff_isDrained {groups : List CacheGroup} (compiled : Rule.ofGroups groups = .ok rules)
    (graph : ModuleGraph) (limits : Limits) :
    ∃ accepted, (∀ other, graph.Accepts rules limits other ↔ other = accepted) ∧
      (∀ error, (split graph rules limits).2 = .error error ↔
        ∃ before placed after, graph.placedGroups = before ++ placed :: after ∧
          (∀ earlier ∈ before, ¬ graph.IsDrained rules accepted earlier) ∧
            graph.IsDrained rules accepted placed ∧
              error = ⟨placed.group.name, graph.takers rules accepted placed⟩) ∧
      ∀ chunks, (split graph rules limits).2 = .ok chunks →
        (∀ module, graph.Reachable module →
          (chunks.shares module = true ↔ graph.Moves rules accepted module)) ∧
        List.Forall₂ (graph.IsEntryChunk rules accepted) graph.entries chunks.entries := by
  obtain ⟨accepted, exactly, drafts⟩ := @exists_accepts graph rules limits groups compiled
  refine ⟨accepted, exactly, fun error => eq_error_iff drafts, fun chunks succeeds => ?_⟩
  have made : split graph rules limits = (_, .ok chunks) := Prod.ext rfl succeeds
  refine ⟨fun module reachable => ?_, forall₂_isEntryChunk drafts made⟩
  exact shares_iff_moves drafts made (exists_groupDraft_iff.2 reachable)

/-! ## A drained group -/

/-- A cache group for the first page. -/
def pageGroups : List CacheGroup := [{ name := "pages", test := .contains ["/page"] }]

def pageRules : List Rule := [⟨"pages", .holdsOneOf ["/page".toList], .all, 0, false, 0⟩]

theorem ofGroups_pageGroups : Rule.ofGroups pageGroups = .ok pageRules := by cbv

/-- The cache group takes the first page, and the tool is in the group of the other page too. -/
theorem error_twoPages :
    ∃ accepted placed, (∀ other, twoPages.Accepts pageRules {} other ↔ other = accepted) ∧
      placed ∈ twoPages.placedGroups ∧ placed.group.name = twoPages.keyOf 1 ∧
        twoPages.IsDrained pageRules accepted placed ∧
          (split twoPages pageRules {}).2 = .error ⟨placed.group.name, ["pages"]⟩ := by
  obtain ⟨accepted, exactly, fails, _⟩ := error_iff_isDrained ofGroups_pageGroups twoPages {}
  have failed : (split twoPages pageRules {}).2 = .error ⟨twoPages.keyOf 1, ["pages"]⟩ := by cbv
  obtain ⟨before, placed, after, parts, _, drained, same⟩ := (fails _).1 failed
  have listed : placed ∈ twoPages.placedGroups :=
    parts ▸ List.mem_append_right _ List.mem_cons_self
  have name : placed.group.name = twoPages.keyOf 1 := (congrArg EmptyChunk.chunk same).symm
  exact ⟨accepted, placed, exactly, listed, name, drained, name ▸ failed⟩

end Chunk

end WebBundle
