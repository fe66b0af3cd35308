import WebBundle.Proofs.Chunk.Inheritance
import WebBundle.Proofs.Chunk.Navigation
import WebBundle.Proofs.Chunk.Splitting

/-!
# Chunks for sets of holders

A module that no cache group took stays with the only group that holds it, or goes to a shared chunk
with the modules of the same holders. A group that is started on demand and keeps nothing has no
chunk; as a parent of a shared chunk, its own parents stand for it.
-/

namespace WebBundle

open CacheGroup Chunk

/-! ## Groups and chunks -/

namespace ChunkGraph

variable (chunks : ChunkGraph)

/-- A cache group took the module. -/
def Taken (module : Nat) : Prop :=
  ∃ chunk ∈ chunks.chunks, chunk.group ≠ none ∧ module ∈ chunk.modules

/-- The module is in this chunk and in no other. -/
def Home (module : Nat) (chunk : Chunk) : Prop :=
  chunks.chunks.filter (fun chunk => module ∈ chunk.modules) = [chunk]

/-- A shared chunk holds the module. -/
def shares (module : Nat) : Bool :=
  chunks.chunks.any fun chunk => chunk.kind = .shared && module ∈ chunk.modules

/-- The group is started on demand and lost all modules to shared chunks. -/
def empties (placed : LoadGroup.Placed) : Bool :=
  placed.group.start = .onDemand && placed.group.modules.all chunks.shares

end ChunkGraph

namespace ModuleGraph

variable (graph : ModuleGraph) (chunks : ChunkGraph)

/-- The places of the groups that hold a module, in rising order. -/
def holdersOf (module : Nat) : List Nat := places (module ∈ ·.group.modules) graph.placedGroups

/-- The places of the groups that are dissolved. -/
def dissolvedGroups : List Nat := places chunks.empties graph.placedGroups

/-- The places of the groups that have a chunk. The chunks come in the same order. -/
def standingGroups : List Nat := places (fun placed => !chunks.empties placed) graph.placedGroups

def groupParents (place : Nat) : List Nat :=
  match graph.placedGroups[place]? with
  | some placed => placed.parents
  | none => []

/-- The group that stands for a group once groups are dissolved, if need be one of its parents, of
their parents, and so on. -/
def StandsFor (place heir : Nat) : Prop :=
  Heir graph.groupParents (graph.dissolvedGroups chunks) place heir

/-- The chunk with a number is that of the group at a place. -/
def IsGroupChunk (place id : Nat) (chunk : Chunk) : Prop :=
  (graph.standingGroups chunks)[id]? = some place ∧ chunks.chunk? id = some chunk ∧
    ∃ placed, graph.placedGroups[place]? = some placed ∧ chunk.name = placed.group.name ∧
      chunk.kind = Draft.kindOf placed.group.start ∧ chunk.roots = placed.group.roots ∧
        chunk.modules = placed.group.modules.filter fun module => !chunks.shares module

/-- Sharing by sets of holders: where a module is that no cache group took, with whom it shares its
chunk, and which chunks are the parents of that chunk. -/
structure SharedByHolders : Prop where
  standing : ∀ id place, (graph.standingGroups chunks)[id]? = some place →
    ∃ chunk, graph.IsGroupChunk chunks place id chunk
  groups : ∀ id chunk, chunks.chunk? id = some chunk →
    chunk.kind = .entry ∨ chunk.kind = .onDemand →
      ∃ place, graph.IsGroupChunk chunks place id chunk
  single : ∀ module place, ¬ chunks.Taken module → graph.holdersOf module = [place] →
    ∃ id chunk, graph.IsGroupChunk chunks place id chunk ∧ chunks.Home module chunk
  several : ∀ module, ¬ chunks.Taken module → 2 ≤ (graph.holdersOf module).length →
    ∃ chunk, chunks.Home module chunk ∧ chunk.kind = .shared ∧ chunk.group = none ∧
      chunk.parents.Pairwise (· < ·) ∧ ∀ id, id ∈ chunk.parents ↔
        ∃ place ∈ graph.holdersOf module, ∃ heir, graph.StandsFor chunks place heir ∧
          (graph.standingGroups chunks)[id]? = some heir
  together : ∀ first second, ¬ chunks.Taken first → ¬ chunks.Taken second →
    2 ≤ (graph.holdersOf first).length → 2 ≤ (graph.holdersOf second).length →
      ((∃ chunk, chunks.Home first chunk ∧ chunks.Home second chunk) ↔
        graph.holdersOf first = graph.holdersOf second)

end ModuleGraph

namespace Chunk

open ModuleGraph

variable {graph : ModuleGraph} {rules : List Rule} {limits : Limits}
variable {reports : List Diagnostic} {chunks : ChunkGraph} {module place : Nat}

theorem holders_groupDrafts : holders graph.groupDrafts module = graph.holdersOf module := by
  rw [holders_eq_places, groupDrafts, places_map]
  rfl

theorem mem_holdersOf : place ∈ graph.holdersOf module ↔
    ∃ placed, graph.placedGroups[place]? = some placed ∧ module ∈ placed.group.modules := by
  rw [holdersOf, mem_places]
  simp only [decide_eq_true_eq]

theorem parentsAt_groupDrafts : parentsAt graph.groupDrafts place = graph.groupParents place := by
  rw [parentsAt, groupParents, getElem?_groupDrafts]
  cases graph.placedGroups[place]? with
  | none => rfl
  | some placed => rfl

/-! ## What moved -/

theorem taken_iff (made : split graph rules limits = (reports, .ok chunks)) :
    chunks.Taken module ↔
      module ∈ (cacheGroupDrafts graph rules limits graph.groupDrafts).1.flatMap (·.modules) := by
  have same := congrArg (List.flatMap Draft.modules) (map_bare_claimed made)
  rw [List.flatMap_map, List.flatMap_map] at same
  change _ = (cacheGroupDrafts graph rules limits graph.groupDrafts).1.flatMap (·.modules) at same
  rw [← same, List.mem_flatMap]
  constructor
  · rintro ⟨chunk, member, grouped, held⟩
    exact ⟨chunk, List.mem_filter.2 ⟨member, Option.isSome_iff_ne_none.2 grouped⟩, held⟩
  · rintro ⟨chunk, member, held⟩
    obtain ⟨listed, grouped⟩ := List.mem_filter.1 member
    exact ⟨chunk, listed, Option.isSome_iff_ne_none.1 grouped, held⟩

theorem shares_iff (made : split graph rules limits = (reports, .ok chunks)) :
    chunks.shares module = true ↔
      module ∈ (sharedDrafts graph rules limits graph.groupDrafts).flatMap (·.modules) := by
  have same := congrArg (List.flatMap Draft.modules) (map_bare_shared made)
  rw [List.flatMap_map, List.flatMap_map] at same
  change _ = (sharedDrafts graph rules limits graph.groupDrafts).flatMap (·.modules) at same
  rw [← same, List.mem_flatMap, ChunkGraph.shares, List.any_eq_true]
  refine exists_congr fun chunk => ?_
  rw [List.mem_filter, Bool.and_eq_true, decide_eq_true_eq, decide_eq_true_eq, and_assoc]
  rfl

/-- The draft of a group once modules have moved. -/
def movedGroup (chunks : ChunkGraph) (placed : LoadGroup.Placed) : Draft :=
  { Draft.ofGroup placed with
    modules := placed.group.modules.filter fun module => !chunks.shares module }

theorem spreadDrafts_eq (made : split graph rules limits = (reports, .ok chunks)) :
    spreadDrafts graph rules limits =
      graph.placedGroups.map (movedGroup chunks) ++
        sharedDrafts graph rules limits graph.groupDrafts := by
  rw [spreadDrafts, spread, groupDrafts, withoutMoved, List.map_map]
  congr 1
  refine List.map_congr_left fun placed _ => ?_
  change Draft.mk _ _ _ _ _ _ _ = Draft.mk _ _ _ _ _ _ _
  congr 1
  refine List.filter_congr fun module _ => ?_
  apply Bool.eq_iff_iff.2
  rw [decide_eq_true_eq, Bool.not_eq_true', ← Bool.not_eq_true, shares_iff made]
  rfl

theorem isDissolved_movedGroup (placed : LoadGroup.Placed) :
    isDissolved (movedGroup chunks placed) = chunks.empties placed := by
  apply Bool.eq_iff_iff.2
  rw [isDissolved, ChunkGraph.empties, Bool.and_eq_true, Bool.and_eq_true]
  apply and_congr
  · change decide (Draft.kindOf placed.group.start = .onDemand) = true ↔ _
    cases placed.group.start <;> simp [Draft.kindOf]
  · change (placed.group.modules.filter fun module => !chunks.shares module).isEmpty = true ↔ _
    rw [List.isEmpty_iff, List.filter_eq_nil_iff, List.all_eq_true]
    simp

/-! ## Places and numbers -/

theorem not_isDissolved_of_shared {draft : Draft}
    (member : draft ∈ sharedDrafts graph rules limits graph.groupDrafts) :
    isDissolved draft = false := by
  simp [isDissolved, (shares_of_mem_sharedDrafts member).kind]

theorem dissolvedPlaces_spreadDrafts (made : split graph rules limits = (reports, .ok chunks)) :
    dissolvedPlaces (spreadDrafts graph rules limits) = graph.dissolvedGroups chunks := by
  have rest : places isDissolved (sharedDrafts graph rules limits graph.groupDrafts) = [] := by
    refine List.eq_nil_iff_forall_not_mem.2 fun place member => ?_
    obtain ⟨draft, found, gone⟩ := mem_places.1 member
    rw [not_isDissolved_of_shared (List.mem_of_getElem? found)] at gone
    cases gone
  change places isDissolved (spreadDrafts graph rules limits) = _
  rw [spreadDrafts_eq made, places_append, rest, List.map_nil, List.append_nil, places_map]
  simp only [isDissolved_movedGroup]
  rfl

/-- The groups that have a chunk come first among the drafts that live. -/
theorem getElem?_livePlaces {id : Nat} (made : split graph rules limits = (reports, .ok chunks))
    (inside : place < graph.placedGroups.length) :
    (livePlaces (finalDrafts (spreadDrafts graph rules limits)))[id]? = some place ↔
      (graph.standingGroups chunks)[id]? = some place := by
  have marks : (finalDrafts (spreadDrafts graph rules limits)).map isDissolved =
      graph.placedGroups.map chunks.empties ++
        ((sharedDrafts graph rules limits graph.groupDrafts).map isDissolved ++ [false]) := by
    rw [map_finalDrafts fun _ _ => rfl, spreadDrafts_eq made, List.map_append, List.map_map,
      List.append_assoc]
    congr 1
    exact List.map_congr_left fun placed _ => isDissolved_movedGroup placed
  have live : livePlaces (finalDrafts (spreadDrafts graph rules limits)) =
      places (fun gone => !gone) ((finalDrafts (spreadDrafts graph rules limits)).map isDissolved) := by
    rw [livePlaces_eq_places, places_map]
  rw [live, marks, getElem?_places_append (by simpa using inside), places_map]
  rfl

/-! ## The chunk of a group -/

theorem exists_isGroupChunk {id : Nat} (made : split graph rules limits = (reports, .ok chunks))
    (located : (graph.standingGroups chunks)[id]? = some place) :
    ∃ chunk, graph.IsGroupChunk chunks place id chunk := by
  obtain ⟨placed, found, _⟩ := mem_places.1 (List.mem_of_getElem? located)
  have inside := (List.getElem?_eq_some_iff.1 found).1
  have drafted : (spreadDrafts graph rules limits)[place]? = some (movedGroup chunks placed) := by
    rw [spreadDrafts_eq made, List.getElem?_append_left (by simpa using inside), List.getElem?_map,
      found]
    rfl
  obtain ⟨parents, final, _⟩ := exists_getElem?_finalDrafts drafted
  have numberedOne := getElem?_numbered_of_live ((getElem?_livePlaces made inside).2 located) final
  rw [← (split_ok made).1] at numberedOne
  exact ⟨_, located, numberedOne, placed, found, rfl, rfl, rfl, rfl⟩

/-- The chunks that are neither shared nor the runtime are those of the groups that stand. -/
theorem exists_standing_of_chunk {id : Nat} (made : split graph rules limits = (reports, .ok chunks))
    {chunk : Chunk} (found : chunks.chunk? id = some chunk)
    (isGroup : chunk.kind = .entry ∨ chunk.kind = .onDemand) :
    ∃ place, graph.IsGroupChunk chunks place id chunk := by
  have numberedOne : (numbered (finalDrafts (spreadDrafts graph rules limits))).chunks[id]? =
      some chunk := (split_ok made).1 ▸ found
  obtain ⟨place, holder, live, stands, _⟩ :=
    exists_group_of_chunk (fun _ => shares_of_mem_sharedDrafts) numberedOne isGroup
  have inside : place < graph.placedGroups.length := by
    simpa [groupDrafts] using (List.getElem?_eq_some_iff.1 stands).1
  obtain ⟨other, located, found', rest⟩ :=
    exists_isGroupChunk made ((getElem?_livePlaces made inside).1 live)
  obtain rfl := Option.some.inj (found'.symm.trans found)
  exact ⟨place, located, found', rest⟩

theorem home_of_mem {groups : List CacheGroup} (compiled : Rule.ofGroups groups = .ok rules)
    (made : split graph rules limits = (reports, .ok chunks)) {chunk : Chunk}
    (member : chunk ∈ chunks.chunks) (held : module ∈ chunk.modules) : chunks.Home module chunk := by
  refine ChunkGraph.filter_eq_singleton ?_ member held
  rw [(split_ok made).1, flatMap_modules_numbered]
  exact nodup_spreadDrafts (Rule.nodup_index_of_ofGroups compiled)

theorem mem_of_home {chunk : Chunk} (home : chunks.Home module chunk) :
    chunk ∈ chunks.chunks ∧ module ∈ chunk.modules := by
  have listed : chunk ∈ chunks.chunks.filter fun chunk => module ∈ chunk.modules :=
    home ▸ List.mem_singleton_self chunk
  obtain ⟨member, held⟩ := List.mem_filter.1 listed
  exact ⟨member, of_decide_eq_true held⟩

/-- The modules that move for being held several times. -/
def repeatedModules (graph : ModuleGraph) (rules : List Rule) (limits : Limits) : List Nat :=
  repeated graph.groupDrafts
    ((cacheGroupDrafts graph rules limits graph.groupDrafts).1.flatMap (·.modules))

theorem mem_repeatedModules (made : split graph rules limits = (reports, .ok chunks)) :
    module ∈ repeatedModules graph rules limits ↔
      ¬ chunks.Taken module ∧ 2 ≤ (graph.holdersOf module).length := by
  rw [repeatedModules, mem_repeated, ← taken_iff made, holders_groupDrafts]
  constructor
  · exact And.right
  · rintro ⟨free, several⟩
    obtain ⟨place, holds⟩ :=
      List.exists_mem_of_length_pos (Nat.lt_of_lt_of_le Nat.zero_lt_two several)
    rw [← holders_groupDrafts] at holds
    obtain ⟨draft, found, held⟩ := mem_holders.1 holds
    exact ⟨mem_seen.2 ⟨draft, List.mem_of_getElem? found, held⟩, free, several⟩

theorem shares_iff_taken_or_repeated (made : split graph rules limits = (reports, .ok chunks)) :
    chunks.shares module = true ↔
      chunks.Taken module ∨ module ∈ repeatedModules graph rules limits := by
  rw [shares_iff made, sharedDrafts, List.flatMap_append, List.mem_append, ← taken_iff made,
    mem_modules_dedupDrafts]
  rfl

/-- What a single group holds stays in its chunk, unless a cache group took it. -/
theorem exists_home_of_single {groups : List CacheGroup}
    (compiled : Rule.ofGroups groups = .ok rules)
    (made : split graph rules limits = (reports, .ok chunks)) (free : ¬ chunks.Taken module)
    (single : graph.holdersOf module = [place]) :
    ∃ id chunk, graph.IsGroupChunk chunks place id chunk ∧ chunks.Home module chunk := by
  have stays : ¬ chunks.shares module = true := by
    rw [shares_iff_taken_or_repeated made, not_or]
    refine ⟨free, fun moves => ?_⟩
    have several := ((mem_repeatedModules made).1 moves).2
    rw [single] at several
    simp at several
  have holds : place ∈ graph.holdersOf module := single ▸ List.mem_singleton_self place
  obtain ⟨placed, found, held⟩ := mem_places.1 holds
  have within := of_decide_eq_true held
  have stands : place ∈ graph.standingGroups chunks := by
    refine mem_places.2 ⟨placed, found, ?_⟩
    rw [Bool.not_eq_true', ← Bool.not_eq_true, ChunkGraph.empties, Bool.and_eq_true]
    rintro ⟨_, all⟩
    exact stays (List.all_eq_true.1 all module within)
  obtain ⟨id, located⟩ := List.mem_iff_getElem?.1 stands
  obtain ⟨chunk, isGroupChunk⟩ := exists_isGroupChunk made located
  refine ⟨id, chunk, isGroupChunk, ?_⟩
  obtain ⟨_, numberedOne, placed', found', _, _, _, modules⟩ := isGroupChunk
  obtain rfl := Option.some.inj (found'.symm.trans found)
  refine home_of_mem compiled made (List.mem_of_getElem? numberedOne) ?_
  rw [modules]
  exact List.mem_filter.2 ⟨within, by simpa using stays⟩

/-! ## The chunk of a set of holders -/

theorem lt_length_of_mem_groupParents {parent : Nat} (isParent : parent ∈ graph.groupParents place) :
    parent < graph.placedGroups.length := by
  rw [← parentsAt_groupDrafts, parentsAt] at isParent
  split at isParent
  next draft found =>
    have inside := ModuleGraph.lineage_groupDrafts.parent_lt (List.mem_of_getElem? found) isParent
    rwa [groupDrafts, List.length_map] at inside
  next => cases isParent

theorem lt_length_of_standsFor {heir : Nat} (standsFor : graph.StandsFor chunks place heir)
    (inside : place < graph.placedGroups.length) : heir < graph.placedGroups.length := by
  induction standsFor with
  | stays => exact inside
  | handed _ isParent _ ih => exact ih (lt_length_of_mem_groupParents isParent)

theorem parentsAt_spreadDrafts (made : split graph rules limits = (reports, .ok chunks))
    (inside : place < graph.placedGroups.length) :
    parentsAt (spreadDrafts graph rules limits) place = graph.groupParents place := by
  rw [parentsAt, groupParents, spreadDrafts_eq made,
    List.getElem?_append_left (by simpa using inside), List.getElem?_map,
    List.getElem?_eq_getElem inside]
  rfl

theorem heir_iff_standsFor {heir : Nat} (made : split graph rules limits = (reports, .ok chunks)) :
    Heir (parentsAt (spreadDrafts graph rules limits))
        (dissolvedPlaces (spreadDrafts graph rules limits)) place heir ↔
      graph.StandsFor chunks place heir := by
  rw [dissolvedPlaces_spreadDrafts made, StandsFor]
  have same : ∀ place ∈ graph.dissolvedGroups chunks,
      parentsAt (spreadDrafts graph rules limits) place = graph.groupParents place :=
    fun place gone => parentsAt_spreadDrafts made (lt_length_of_mem_places gone)
  constructor
  · exact Heir.congr same
  · exact Heir.congr fun place gone => (same place gone).symm

/-- The draft for the holders of a module. -/
def sharedDraft (graph : ModuleGraph) (rules : List Rule) (limits : Limits) (module : Nat) : Draft :=
  .shared (sharedName graph.groupDrafts (holders graph.groupDrafts module)) none graph.groupDrafts
    ((repeatedModules graph rules limits).filter fun other =>
      holders graph.groupDrafts other = holders graph.groupDrafts module)
    (holders graph.groupDrafts module)

/-- Modules that are held several times go to a chunk with those of the same holders. Its parents
are the groups that stand for the holders. -/
theorem exists_shared_chunk (made : split graph rules limits = (reports, .ok chunks))
    (moves : module ∈ repeatedModules graph rules limits) :
    ∃ chunk ∈ chunks.chunks, chunk.kind = .shared ∧ chunk.group = none ∧
      (∀ other, other ∈ chunk.modules ↔ other ∈ repeatedModules graph rules limits ∧
        graph.holdersOf other = graph.holdersOf module) ∧
      chunk.parents.Pairwise (· < ·) ∧ ∀ id, id ∈ chunk.parents ↔
        ∃ place ∈ graph.holdersOf module, ∃ heir, graph.StandsFor chunks place heir ∧
          (graph.standingGroups chunks)[id]? = some heir := by
  have drafted : sharedDraft graph rules limits module ∈
      sharedDrafts graph rules limits graph.groupDrafts :=
    List.mem_append_right _ (List.mem_map_of_mem (mem_holderLists.2 ⟨module, moves, rfl⟩))
  obtain ⟨index, located⟩ := List.mem_iff_getElem?.1 drafted
  have stands : (spreadDrafts graph rules limits)[graph.placedGroups.length + index]? =
      some (sharedDraft graph rules limits module) := by
    rw [spreadDrafts_eq made, List.getElem?_append_right (by simp), List.length_map,
      Nat.add_sub_cancel_left, located]
  obtain ⟨parents, final, ascending, exactly⟩ :=
    lineage_spreadDrafts.exists_heirs_finalDrafts stands
  obtain ⟨number, _, numberedOne⟩ := exists_chunk_of_draft final rfl
  rw [← (split_ok made).1] at numberedOne
  refine ⟨_, List.mem_of_getElem? numberedOne, rfl, rfl, fun other => ?_,
    pairwise_renumbered (nodup_of_pairwise_lt ascending), fun id => ?_⟩
  · change other ∈ (repeatedModules graph rules limits).filter _ ↔ _
    rw [List.mem_filter, decide_eq_true_eq, holders_groupDrafts, holders_groupDrafts]
  · change id ∈ renumbered _ parents ↔ _
    rw [mem_renumbered]
    constructor
    · rintro ⟨heir, isParent, live⟩
      obtain ⟨place, holds, inherits⟩ := (exactly heir).1 isParent
      change place ∈ holders graph.groupDrafts module at holds
      rw [holders_groupDrafts] at holds
      have standsFor := (heir_iff_standsFor made).1 inherits
      have inside := lt_length_of_standsFor standsFor (lt_length_of_mem_places holds)
      exact ⟨place, holds, heir, standsFor, (getElem?_livePlaces made inside).1 live⟩
    · rintro ⟨place, holds, heir, standsFor, standing⟩
      have inside := lt_length_of_standsFor standsFor (lt_length_of_mem_places holds)
      refine ⟨heir, (exactly heir).2 ⟨place, ?_, (heir_iff_standsFor made).2 standsFor⟩,
        (getElem?_livePlaces made inside).2 standing⟩
      change place ∈ holders graph.groupDrafts module
      rwa [holders_groupDrafts]

/-- Sharing puts what no cache group took into chunks by the sets of holders. -/
theorem sharedByHolders_of_split {groups : List CacheGroup}
    (compiled : Rule.ofGroups groups = .ok rules)
    (made : split graph rules limits = (reports, .ok chunks)) : graph.SharedByHolders chunks := by
  constructor
  case standing => exact fun id place => exists_isGroupChunk made
  case groups => exact fun id chunk => exists_standing_of_chunk made
  case single => exact fun module place free single => exists_home_of_single compiled made free single
  case several =>
    intro module free several
    have moves := (mem_repeatedModules made).2 ⟨free, several⟩
    obtain ⟨chunk, member, kind, group, modules, parents⟩ := exists_shared_chunk made moves
    have held : module ∈ chunk.modules := (modules module).2 ⟨moves, rfl⟩
    exact ⟨chunk, home_of_mem compiled made member held, kind, group, parents⟩
  case together =>
    intro first second free free' several several'
    have moves := (mem_repeatedModules made).2 ⟨free, several⟩
    have moves' := (mem_repeatedModules made).2 ⟨free', several'⟩
    obtain ⟨chunk, member, _, _, modules, _⟩ := exists_shared_chunk made moves
    have home := home_of_mem compiled made member ((modules first).2 ⟨moves, rfl⟩)
    constructor
    · rintro ⟨both, homeFirst, homeSecond⟩
      have same : [both] = [chunk] := homeFirst.symm.trans home
      obtain rfl := List.singleton_inj.1 same
      exact ((modules second).1 (mem_of_home homeSecond).2).2.symm
    · intro same
      exact ⟨chunk, home, home_of_mem compiled made member ((modules second).2 ⟨moves', same.symm⟩)⟩

/-- The first page keeps nothing: its own module is shared with the second page, and the other one
with both. -/
theorem sharedByHolders_threePages :
    ∃ reports chunks, split threePages [] {} = (reports, .ok chunks) ∧
      threePages.SharedByHolders chunks ∧ threePages.dissolvedGroups chunks = [1] := by
  obtain ⟨reports, chunks, made⟩ := exists_split_of_no_rules threePages {}
  refine ⟨reports, chunks, made, sharedByHolders_of_split ofGroups_nil made, ?_⟩
  rw [(split_ok made).1]
  cbv

end Chunk

end WebBundle
