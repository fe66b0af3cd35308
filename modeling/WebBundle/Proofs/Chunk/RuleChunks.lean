import WebBundle.Proofs.Chunk.Claiming
import WebBundle.Proofs.Chunk.HolderSets
import WebBundle.Proofs.Chunk.LoadSets
import WebBundle.Proofs.Chunk.Startup
import WebBundle.Proofs.LoadGroup.Ways

/-!
# The chunks of accepted rules

What a rule wins and which rules before it are accepted settle whether it is accepted, so there is
one list of accepted rules. Their chunks stand in the order of the rules. The parents of such a
chunk are the chunks of all groups that hold one of its modules: where a cache group took something,
nothing is dissolved.
-/

namespace WebBundle

open CacheGroup Chunk

namespace ChunkGraph

/-- The chunks that cache groups made. -/
def claimed (chunks : ChunkGraph) : List Chunk := chunks.chunks.filter (·.group.isSome)

/-- The chunk that cache groups made at an index, and the accepted rule there. -/
def MadeAt (chunks : ChunkGraph) (accepted : List Rule) (index : Nat) (rule : Rule)
    (chunk : Chunk) : Prop :=
  accepted[index]? = some rule ∧ chunks.claimed[index]? = some chunk

theorem MadeAt.related {chunks : ChunkGraph} {accepted : List Rule} {index : Nat} {rule : Rule}
    {chunk : Chunk} {Related : Rule → Chunk → Prop}
    (madeAt : chunks.MadeAt accepted index rule chunk)
    (pairs : List.Forall₂ Related accepted chunks.claimed) : Related rule chunk := by
  obtain ⟨inside, rfl⟩ := List.getElem?_eq_some_iff.1 madeAt.1
  obtain ⟨inside', rfl⟩ := List.getElem?_eq_some_iff.1 madeAt.2
  exact pairs.get inside inside'

end ChunkGraph

namespace ModuleGraph

variable {graph : ModuleGraph} {rules accepted : List Rule} {limits : Limits} {rule : Rule}

/-! ## The accepted rules -/

/-- The accepted rules are those that win a module and pass behind the accepted ones that outrank
them. -/
structure Accepts (graph : ModuleGraph) (rules : List Rule) (limits : Limits)
    (accepted : List Rule) : Prop where
  sublist : accepted.Sublist rules
  accepted_iff : ∀ rule ∈ rules, rule ∈ accepted ↔
    (∃ module, graph.Wins rules rule module) ∧ graph.Passes rules limits accepted rule

theorem Accepts.ranked (accepts : graph.Accepts rules limits accepted)
    (ranked : Rule.Ranked rules) : Rule.Ranked accepted :=
  List.Pairwise.sublist accepts.sublist ranked

theorem Accepts.passes (accepts : graph.Accepts rules limits accepted) (member : rule ∈ accepted) :
    graph.Passes rules limits accepted rule :=
  ((accepts.accepted_iff rule (accepts.sublist.subset member)).1 member).2

theorem passes_congr {other : List Rule}
    (same : Rule.above accepted rule = Rule.above other rule) :
    graph.Passes rules limits accepted rule ↔ graph.Passes rules limits other rule := by
  simp only [Passes, loadedEarlier, same]

/-- Two lists of accepted rules agree on every rule, as they agree on those before it. -/
theorem Accepts.mem_iff {other : List Rule} (ranked : Rule.Ranked rules)
    (accepts : graph.Accepts rules limits accepted) (accepts' : graph.Accepts rules limits other)
    {index : Nat} (located : rules[index]? = some rule) : rule ∈ accepted ↔ rule ∈ other := by
  induction index using Nat.strongRecOn generalizing rule with
  | ind index ih =>
      have listed := List.mem_of_getElem? located
      have earlier : ∀ other, other ∈ rules → other.outranks rule = true →
          ∃ before < index, rules[before]? = some other := by
        intro other listed outranks
        have member : other ∈ Rule.above rules rule := List.mem_filter.2 ⟨listed, outranks⟩
        rw [ranked.above_eq_take located] at member
        obtain ⟨before, found⟩ := List.mem_iff_getElem?.1 member
        rw [List.getElem?_take] at found
        by_cases below : before < index
        · exact ⟨before, below, by simpa [below] using found⟩
        · simp [below] at found
      have same : Rule.above accepted rule = Rule.above other rule := by
        refine Rule.Ranked.eq_of_mem_iff ((accepts.ranked ranked).filter _)
          ((accepts'.ranked ranked).filter _) fun before => ?_
        rw [Rule.above, Rule.above, List.mem_filter, List.mem_filter]
        refine and_congr_left fun outranks => ?_
        constructor
        · intro member
          obtain ⟨place, below, found⟩ := earlier before (accepts.sublist.subset member) outranks
          exact (ih place below found).1 member
        · intro member
          obtain ⟨place, below, found⟩ := earlier before (accepts'.sublist.subset member) outranks
          exact (ih place below found).2 member
      rw [accepts.accepted_iff rule listed, accepts'.accepted_iff rule listed]
      exact and_congr_right fun _ => passes_congr same

theorem Accepts.unique {other : List Rule} (ranked : Rule.Ranked rules)
    (accepts : graph.Accepts rules limits accepted)
    (accepts' : graph.Accepts rules limits other) : accepted = other := by
  refine Rule.Ranked.eq_of_mem_iff (accepts.ranked ranked) (accepts'.ranked ranked) fun rule => ?_
  constructor
  · intro member
    obtain ⟨index, located⟩ := List.mem_iff_getElem?.1 (accepts.sublist.subset member)
    exact (accepts.mem_iff ranked accepts' located).1 member
  · intro member
    obtain ⟨index, located⟩ := List.mem_iff_getElem?.1 (accepts'.sublist.subset member)
    exact (accepts.mem_iff ranked accepts' located).2 member

theorem wonBy_ne_nil_iff :
    graph.wonBy rules rule ≠ [] ↔ ∃ module, graph.Wins rules rule module := by
  constructor
  · intro some
    obtain ⟨module, won⟩ := List.exists_mem_of_ne_nil _ some
    exact ⟨module, mem_wonBy.1 won⟩
  · rintro ⟨module, wins⟩
    exact List.ne_nil_of_mem (mem_wonBy.2 wins)

/-- The rules that splitting accepts are the ones that there are to accept. -/
theorem exists_accepts {groups : List CacheGroup} (compiled : Rule.ofGroups groups = .ok rules) :
    ∃ accepted, (∀ other, graph.Accepts rules limits other ↔ other = accepted) ∧
      (cacheGroupDrafts graph rules limits graph.groupDrafts).1 =
        accepted.map (graph.ruleDraft rules) := by
  obtain ⟨accepted, sublist, drafts, exactly⟩ :=
    @exists_accepted_rules graph rules limits groups compiled
  have accepts : graph.Accepts rules limits accepted := by
    refine ⟨sublist, fun rule listed => ?_⟩
    rw [exactly rule listed, wonBy_ne_nil_iff]
  refine ⟨accepted, fun other => ?_, drafts⟩
  constructor
  · exact fun accepts' => accepts'.unique (Rule.ranked_ofGroups compiled) accepts
  · rintro rfl
    exact accepts

end ModuleGraph

namespace Chunk

open ModuleGraph

variable {graph : ModuleGraph} {rules accepted : List Rule} {limits : Limits}
variable {reports : List Diagnostic} {chunks : ChunkGraph} {chunk : Chunk} {id place : Nat}

theorem forall₂_claimed (made : split graph rules limits = (reports, .ok chunks))
    (drafts : (cacheGroupDrafts graph rules limits graph.groupDrafts).1 =
      accepted.map (graph.ruleDraft rules)) :
    List.Forall₂ (graph.IsRuleChunk rules) accepted chunks.claimed := by
  have same : chunks.claimed.map bare =
      accepted.map fun rule => (graph.ruleDraft rules rule).withParents [] := by
    rw [ChunkGraph.claimed, map_bare_claimed made, drafts, List.map_map]
    rfl
  exact (forall₂_of_map_eq same.symm).imp fun rule chunk equal => isRuleChunk_of_bare_eq equal.symm

/-- The draft of a shared chunk. -/
theorem exists_shares_of_shared (made : split graph rules limits = (reports, .ok chunks))
    (member : chunk ∈ chunks.chunks) (kind : chunk.kind = .shared) :
    ∃ draft, Shares graph.groupDrafts draft ∧ chunk.modules = draft.modules ∧
      chunk.initial = draft.initial := by
  have drafted : bare chunk ∈ (chunks.chunks.filter (·.kind = .shared)).map bare :=
    List.mem_map_of_mem (List.mem_filter.2 ⟨member, decide_eq_true kind⟩)
  rw [map_bare_shared made] at drafted
  obtain ⟨draft, listed, same⟩ := List.mem_map.1 drafted
  exact ⟨draft, shares_of_mem_sharedDrafts listed, (congrArg Draft.modules same).symm,
    (congrArg Draft.initial same).symm⟩

/-! ## Parents -/

/-- The parents of a draft of moved modules are the groups that hold one of them. -/
theorem Shares.mem_parents_iff {draft : Draft} (shares : Shares graph.groupDrafts draft) :
    place ∈ draft.parents ↔ ∃ placed, graph.placedGroups[place]? = some placed ∧
      ∃ module ∈ draft.modules, module ∈ placed.group.modules := by
  rw [shares.parents, ← mem_holdersOfAny, mem_holdersOfAny_groupDrafts]

/-- Where a cache group took something, nothing is dissolved. -/
theorem not_mem_dissolvedPlaces (made : split graph rules limits = (reports, .ok chunks))
    {draft : Draft} (listed : draft ∈ (cacheGroupDrafts graph rules limits graph.groupDrafts).1)
    (isParent : place ∈ draft.parents) :
    place ∉ dissolvedPlaces (spreadDrafts graph rules limits) := by
  intro gone
  obtain ⟨holder, stands, isGone⟩ := mem_dissolvedPlaces.1 gone
  obtain ⟨placed, found, _⟩ := (shares_of_mem_cacheGroupDrafts listed).mem_parents_iff.1 isParent
  have inside : place < graph.groupDrafts.length := by
    rw [groupDrafts, List.length_map]
    exact (List.getElem?_eq_some_iff.1 found).1
  exact not_mem_parents_of_empty made stands inside (onDemand_of_isDissolved isGone).2 listed
    isParent

/-- So the parents of what cache groups made are just renumbered. -/
theorem exists_draft_of_claimed (made : split graph rules limits = (reports, .ok chunks))
    (member : chunk ∈ chunks.claimed) :
    ∃ draft ∈ (cacheGroupDrafts graph rules limits graph.groupDrafts).1,
      chunk.modules = draft.modules ∧ ∀ id, id ∈ chunk.parents ↔
        ∃ place ∈ draft.parents, (graph.standingGroups chunks)[id]? = some place := by
  obtain ⟨listed, grouped⟩ := List.mem_filter.1 member
  rw [(split_ok made).1] at listed
  obtain ⟨number, place, final, located, stands, rfl⟩ := exists_draft_of_mem listed
  obtain ⟨origin, there, same⟩ : ∃ origin, (spreadDrafts graph rules limits)[place]? = some origin ∧
      final = origin.withParents final.parents := by
    rcases exists_origin stands with last | origin
    · rw [last] at grouped
      cases grouped
    · exact origin
  have drafted : origin ∈ (cacheGroupDrafts graph rules limits graph.groupDrafts).1 := by
    rw [← filter_group_spreadDrafts]
    rw [same] at grouped
    exact List.mem_filter.2 ⟨List.mem_of_getElem? there, grouped⟩
  obtain ⟨parents, stands', _, exactly⟩ := lineage_spreadDrafts.exists_heirs_finalDrafts there
  obtain rfl := Option.some.inj (stands'.symm.trans stands)
  have kept : ∀ heir, heir ∈ parents ↔ heir ∈ origin.parents := by
    intro heir
    rw [exactly heir]
    constructor
    · rintro ⟨parent, isParent, inherits⟩
      cases inherits with
      | stays => exact isParent
      | handed left => exact absurd left (not_mem_dissolvedPlaces made drafted isParent)
    · intro isParent
      exact ⟨heir, isParent, Heir.stays (not_mem_dissolvedPlaces made drafted isParent)⟩
  refine ⟨origin, drafted, rfl, fun id => ?_⟩
  change id ∈ renumbered _ parents ↔ _
  rw [mem_renumbered]
  refine exists_congr fun heir => ?_
  rw [kept heir]
  refine and_congr_right fun isParent => ?_
  obtain ⟨_, found, _⟩ := (shares_of_mem_cacheGroupDrafts drafted).mem_parents_iff.1 isParent
  exact getElem?_livePlaces made (List.getElem?_eq_some_iff.1 found).1

/-- The parents of a chunk that a cache group made are the chunks of the groups that hold one of
its modules. -/
theorem mem_parents_of_claimed (made : split graph rules limits = (reports, .ok chunks))
    (member : chunk ∈ chunks.claimed) :
    id ∈ chunk.parents ↔ ∃ place placed, (graph.standingGroups chunks)[id]? = some place ∧
      graph.placedGroups[place]? = some placed ∧
        ∃ module ∈ chunk.modules, module ∈ placed.group.modules := by
  obtain ⟨draft, listed, modules, parents⟩ := exists_draft_of_claimed made member
  rw [parents, modules]
  constructor
  · rintro ⟨place, isParent, located⟩
    obtain ⟨placed, found, held⟩ :=
      (shares_of_mem_cacheGroupDrafts listed).mem_parents_iff.1 isParent
    exact ⟨place, placed, located, found, held⟩
  · rintro ⟨place, placed, located, found, held⟩
    exact ⟨place, (shares_of_mem_cacheGroupDrafts listed).mem_parents_iff.2 ⟨placed, found, held⟩,
      located⟩

/-! ## Groups with a chunk -/

/-- A group that holds a module of a chunk that cache groups made has a chunk. -/
theorem exists_standing_of_claimed (made : split graph rules limits = (reports, .ok chunks))
    (member : chunk ∈ chunks.claimed) {placed : LoadGroup.Placed}
    (stands : graph.placedGroups[place]? = some placed) {module : Nat}
    (within : module ∈ chunk.modules) (held : module ∈ placed.group.modules) :
    ∃ id : Nat, (graph.standingGroups chunks)[id]? = some place := by
  obtain ⟨draft, listed, modules, _⟩ := exists_draft_of_claimed made member
  have isParent : place ∈ draft.parents :=
    (shares_of_mem_cacheGroupDrafts listed).mem_parents_iff.2
      ⟨placed, stands, module, modules ▸ within, held⟩
  have stays : place ∉ graph.dissolvedGroups chunks := by
    rw [← dissolvedPlaces_spreadDrafts made]
    exact not_mem_dissolvedPlaces made listed isParent
  refine List.mem_iff_getElem?.1 (mem_places.2 ⟨placed, stands, ?_⟩)
  cases empty : chunks.empties placed with
  | false => rfl
  | true => exact absurd (mem_places.2 ⟨placed, stands, empty⟩) stays

/-- The group of an entry chunk. -/
theorem exists_group_of_entry (made : split graph rules limits = (reports, .ok chunks))
    {entry : Chunk} (listed : entry ∈ chunks.entries) :
    ∃ place placed, (graph.standingGroups chunks)[entry.id]? = some place ∧
      graph.placedGroups[place]? = some placed ∧ placed.group.start = .entry ∧
        placed.group.modules = graph.closure entry.roots := by
  obtain ⟨member, isEntry⟩ := ChunkGraph.mem_of_mem_entries listed
  have wellFormed : chunks.WellFormed := by
    rw [(split_ok made).1]
    exact wellFormed_spreadDrafts
  obtain ⟨place, located, _, placed, found, _, kind, roots, _⟩ :=
    exists_standing_of_chunk made (wellFormed.chunk?_id member) (Or.inl isEntry)
  have start : placed.group.start = .entry := Draft.kindOf_eq_entry_iff.1 (kind.symm.trans isEntry)
  refine ⟨place, placed, located, found, start, ?_⟩
  have drafted : Draft.ofGroup placed ∈ graph.groupDrafts :=
    List.mem_map_of_mem (List.mem_of_getElem? found)
  rw [roots]
  exact modules_of_entryDraft drafted (Draft.kindOf_eq_entry_iff.2 start)

theorem group_of_entry (made : split graph rules limits = (reports, .ok chunks))
    {entry : Chunk} (listed : entry ∈ chunks.entries)
    (located : (graph.standingGroups chunks)[entry.id]? = some place) {placed : LoadGroup.Placed}
    (stands : graph.placedGroups[place]? = some placed) :
    placed.group.start = .entry ∧ placed.group.modules = graph.closure entry.roots := by
  obtain ⟨place', placed', located', stands', found⟩ := exists_group_of_entry made listed
  obtain rfl := Option.some.inj (located'.symm.trans located)
  obtain rfl := Option.some.inj (stands'.symm.trans stands)
  exact found

/-- The entry chunk of a group. -/
theorem exists_entry_of_standing (made : split graph rules limits = (reports, .ok chunks))
    (located : (graph.standingGroups chunks)[id]? = some place) {placed : LoadGroup.Placed}
    (stands : graph.placedGroups[place]? = some placed) (start : placed.group.start = .entry) :
    ∃ entry ∈ chunks.entries, entry.id = id := by
  obtain ⟨chunk, _, found, placed', stands', _, kind, _⟩ := exists_isGroupChunk made located
  obtain rfl := Option.some.inj (stands'.symm.trans stands)
  rw [start] at kind
  refine ⟨chunk, List.mem_filter.2 ⟨List.mem_of_getElem? found, decide_eq_true kind⟩, ?_⟩
  rw [(split_ok made).1] at found
  exact id_of_getElem?_numbered found

theorem loadedByEntry_iff {module : Nat} :
    graph.LoadedByEntry module ↔ ∃ placed ∈ graph.placedGroups, placed.group.start = .entry ∧
      module ∈ placed.group.modules := by
  constructor
  · rintro ⟨entry, listed, held⟩
    have member : graph.entryGroup entry ∈ graph.entries.map graph.entryGroup :=
      List.mem_map_of_mem listed
    rw [← map_group_entries] at member
    obtain ⟨placed, chosen, same⟩ := List.mem_map.1 member
    obtain ⟨stays, isEntry⟩ := List.mem_filter.1 chosen
    refine ⟨placed, stays, of_decide_eq_true isEntry, ?_⟩
    rw [same]
    exact held
  · rintro ⟨placed, stays, isEntry, held⟩
    have member : placed.group ∈ graph.entries.map graph.entryGroup := by
      rw [← map_group_entries]
      exact List.mem_map_of_mem (List.mem_filter.2 ⟨stays, decide_eq_true isEntry⟩)
    obtain ⟨entry, listed, same⟩ := List.mem_map.1 member
    rw [← same] at held
    exact ⟨entry, listed, held⟩

/-- A shared chunk is loaded at the start if an entry loads one of its modules at once. -/
theorem initial_iff_loadedByEntry (made : split graph rules limits = (reports, .ok chunks))
    (member : chunk ∈ chunks.chunks) (kind : chunk.kind = .shared) :
    chunk.initial = true ↔ ∃ module ∈ chunk.modules, graph.LoadedByEntry module := by
  obtain ⟨draft, shares, modules, initial⟩ := exists_shares_of_shared made member kind
  rw [initial, modules, shares.initial]
  constructor
  · rintro ⟨place, isParent, holder, found, early⟩
    obtain ⟨placed, stands, module, within, held⟩ := shares.mem_parents_iff.1 isParent
    rw [getElem?_groupDrafts, stands] at found
    cases found
    exact ⟨module, within, loadedByEntry_iff.2
      ⟨placed, List.mem_of_getElem? stands, of_decide_eq_true early, held⟩⟩
  · rintro ⟨module, within, early⟩
    obtain ⟨placed, listed, start, held⟩ := loadedByEntry_iff.1 early
    obtain ⟨place, stands⟩ := List.mem_iff_getElem?.1 listed
    refine ⟨place, shares.mem_parents_iff.2 ⟨placed, stands, module, within, held⟩,
      .ofGroup placed, ?_, decide_eq_true start⟩
    rw [getElem?_groupDrafts, stands]
    rfl

end Chunk

end WebBundle
