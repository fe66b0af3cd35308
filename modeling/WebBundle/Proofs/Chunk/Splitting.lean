import Mathlib
import WebBundle.Proofs.Chunk.Dissolution
import WebBundle.Proofs.Chunk.GroupDrafts
import WebBundle.Proofs.Chunk.Lineage
import WebBundle.Proofs.Chunk.Sharing

/-!
# What splitting makes

Once all modules that move have moved, the drafts hold what the load groups held, and nothing is
held twice: a module with several holders has left all of them. A module stands where it stood, or
in one draft of which its old places are parents. The drafts of shared modules are below those they
came from.

A chunk is a draft that lives, numbered by its place among those that live. Its parents are the
numbers of the draft's parents, and its children are the chunks that have it as a parent. As long as
every parent lives, the numbered chunks have the lineage of the drafts.

If splitting succeeds, its chunks are the numbered final drafts: the load groups and the drafts of
shared modules, with what sharing emptied dissolved and the runtime behind them. Before dissolution
the drafts hold exactly the reachable modules, and their kinds stand in order.

Dissolution and numbering change parents only. Apart from these the chunks are the drafts that are
not dissolved, with the runtime behind them. The shared chunks are the drafts of shared modules, and
those with a cache group are the drafts that cache groups made.
-/

namespace WebBundle.Chunk

/-! ## Drafts after modules moved -/

section

variable {groups shared : List Draft} {module place : Nat}

/-- The drafts of groups without the shared modules, and the drafts of shared modules behind them.
-/
def spread (groups shared : List Draft) : List Draft :=
  withoutMoved groups (shared.flatMap (·.modules)) ++ shared

theorem movedDrafts_eq_spread (graph : ModuleGraph) (rules : List CacheGroup.Rule)
    (limits : Limits) :
    movedDrafts groups (cacheGroupDrafts graph rules limits groups).1 =
      spread groups (sharedDrafts graph rules limits groups) := by
  rw [spread, sharedDrafts, List.flatMap_append, ← List.append_assoc]
  rfl

theorem length_withoutMoved (moved : List Nat) :
    (withoutMoved groups moved).length = groups.length := by
  simp [withoutMoved]

theorem getElem?_spread_group {holder : Draft} (found : groups[place]? = some holder) :
    (spread groups shared)[place]? = some { holder with
      modules := holder.modules.filter (· ∉ shared.flatMap (·.modules)) } := by
  have inside : place < (withoutMoved groups (shared.flatMap (·.modules))).length := by
    rw [length_withoutMoved]
    exact (List.getElem?_eq_some_iff.1 found).1
  rw [spread, List.getElem?_append_left inside, withoutMoved, List.getElem?_map, found]
  rfl

theorem mem_withoutMoved {draft : Draft} {moved : List Nat}
    (member : draft ∈ withoutMoved groups moved) :
    ∃ holder ∈ groups, draft.modules = holder.modules.filter (· ∉ moved) ∧
      draft.kind = holder.kind := by
  obtain ⟨holder, listed, rfl⟩ := List.mem_map.1 member
  exact ⟨holder, listed, rfl, rfl⟩

/-! ## Modules -/

/-- Two places that hold a module make it move. -/
theorem Sharing.mem_of_holders (sharing : Sharing groups shared) {other : Nat}
    (distinct : place ≠ other) (holds : place ∈ holders groups module)
    (holds' : other ∈ holders groups module) : module ∈ shared.flatMap (·.modules) :=
  sharing.complete module (two_le_length_holders distinct holds holds')

/-- No module is held twice. -/
theorem Sharing.nodup_spread (sharing : Sharing groups shared)
    (nodup : ∀ draft ∈ groups, draft.modules.Nodup) :
    ((spread groups shared).flatMap (·.modules)).Nodup := by
  rw [spread, List.flatMap_append]
  refine List.Nodup.append ?_ sharing.nodup ?_
  · rw [List.nodup_flatMap]
    constructor
    · intro draft member
      obtain ⟨holder, listed, modules, _⟩ := mem_withoutMoved member
      rw [modules]
      exact (nodup holder listed).filter _
    · rw [withoutMoved, List.pairwise_map, List.pairwise_iff_getElem]
      intro i j inside inside' below module member member'
      obtain ⟨held, stays⟩ := List.mem_filter.1 member
      obtain ⟨held', _⟩ := List.mem_filter.1 member'
      have holds : i ∈ holders groups module :=
        mem_holders.2 ⟨_, List.getElem?_eq_getElem inside, held⟩
      have holds' : j ∈ holders groups module :=
        mem_holders.2 ⟨_, List.getElem?_eq_getElem inside', held'⟩
      have moves := sharing.mem_of_holders (Nat.ne_of_lt below) holds holds'
      simp [moves] at stays
  · intro module stays moves
    obtain ⟨draft, listed, held⟩ := List.mem_flatMap.1 stays
    obtain ⟨holder, _, modules, _⟩ := mem_withoutMoved listed
    rw [modules, List.mem_filter, decide_eq_true_eq] at held
    exact held.2 moves

/-- Where a module of a draft is once modules have moved: there still, or in a draft of shared
modules below it. -/
theorem destination (shares : ∀ draft ∈ shared, Shares groups draft) {holder : Draft}
    (found : groups[place]? = some holder) (held : module ∈ holder.modules) :
    module ∈ holder.modules.filter (· ∉ shared.flatMap (·.modules)) ∨
      ∃ draft ∈ shared, module ∈ draft.modules ∧ place ∈ draft.parents := by
  by_cases moves : module ∈ shared.flatMap (·.modules)
  · obtain ⟨draft, listed, within⟩ := List.mem_flatMap.1 moves
    have isParent := ((shares draft listed).parents place).2
      ⟨module, within, mem_holders.2 ⟨holder, found, held⟩⟩
    exact Or.inr ⟨draft, listed, within, isParent⟩
  · exact Or.inl (List.mem_filter.2 ⟨held, by simpa using moves⟩)

theorem mem_spread (shares : ∀ draft ∈ shared, Shares groups draft) :
    module ∈ (spread groups shared).flatMap (·.modules) ↔
      ∃ draft ∈ groups, module ∈ draft.modules := by
  rw [spread, List.flatMap_append, List.mem_append]
  constructor
  · rintro (stays | moves)
    · obtain ⟨draft, listed, held⟩ := List.mem_flatMap.1 stays
      obtain ⟨holder, member, modules, _⟩ := mem_withoutMoved listed
      rw [modules] at held
      exact ⟨holder, member, (List.mem_filter.1 held).1⟩
    · obtain ⟨draft, listed, within⟩ := List.mem_flatMap.1 moves
      exact mem_seen.1 ((shares draft listed).held module within)
  · rintro ⟨holder, member, held⟩
    obtain ⟨place, found⟩ := List.mem_iff_getElem?.1 member
    rcases destination shares found held with stays | ⟨draft, listed, within, _⟩
    · exact Or.inl (List.mem_flatMap.2 ⟨_, List.mem_map_of_mem member, stays⟩)
    · exact Or.inr (List.mem_flatMap.2 ⟨draft, listed, within⟩)

/-! ## Parents -/

theorem lineage_spread (shares : ∀ draft ∈ shared, Shares groups draft) (lineage : Lineage groups)
    (isGroup : ∀ draft ∈ groups, draft.IsGroup) : Lineage (spread groups shared) := by
  have moved : Lineage (withoutMoved groups (shared.flatMap (·.modules))) :=
    lineage.map (fun _ => rfl) fun _ => rfl
  refine moved.append fun draft listed => ?_
  have sharesOne := shares draft listed
  constructor
  case kind => exact Or.inl sharesOne.kind
  case ascending => exact sharesOne.ascending
  case parent =>
    intro place isParent
    obtain ⟨module, _, holds⟩ := (sharesOne.parents place).1 isParent
    obtain ⟨holder, found, _⟩ := mem_holders.1 holds
    refine ⟨{ holder with modules := holder.modules.filter (· ∉ shared.flatMap (·.modules)) },
      ?_, isGroup holder (List.mem_of_getElem? found)⟩
    rw [withoutMoved, List.getElem?_map, found]
    rfl
  case parented => exact fun _ => sharesOne.parents_ne_nil

end

/-! ## Numbered drafts -/

section

variable {drafts : List Draft} {place id : Nat}

theorem nodup_livePlaces : (livePlaces drafts).Nodup := by
  rw [livePlaces_eq_places]
  exact nodup_places

theorem getElem?_livePlaces_idxOf (lives : place ∈ livePlaces drafts) :
    (livePlaces drafts)[(livePlaces drafts).idxOf place]? = some place := by
  rw [List.getElem?_eq_getElem (List.idxOf_lt_length_of_mem lives), List.getElem_idxOf]

/-! ## Parents and children by number -/

theorem mem_renumbered {parents : List Nat} :
    id ∈ renumbered (livePlaces drafts) parents ↔
      ∃ parent ∈ parents, (livePlaces drafts)[id]? = some parent := by
  simp only [renumbered, List.mem_mergeSort, List.mem_map, List.mem_filter, decide_eq_true_eq]
  constructor
  · rintro ⟨parent, ⟨isParent, lives⟩, rfl⟩
    exact ⟨parent, isParent, getElem?_livePlaces_idxOf lives⟩
  · rintro ⟨parent, isParent, located⟩
    obtain ⟨below, rfl⟩ := List.getElem?_eq_some_iff.1 located
    exact ⟨_, ⟨isParent, List.getElem_mem below⟩, nodup_livePlaces.idxOf_getElem id below⟩

theorem pairwise_renumbered {parents : List Nat} (nodup : parents.Nodup) :
    (renumbered (livePlaces drafts) parents).Pairwise (· < ·) := by
  refine pairwise_lt_mergeSort ((nodup.filter _).map_on ?_)
  intro first member second member' same
  have lives : first ∈ livePlaces drafts := by simpa using (List.mem_filter.1 member).2
  exact (List.idxOf_inj lives).1 same

theorem childrenOf_eq_places : childrenOf drafts id = places (id ∈ ·.parents) drafts := by
  simp [childrenOf, places]

/-! ## Chunks and the drafts that they are -/

/-- A draft with its parents by number. -/
def Draft.numbered (drafts : List Draft) (draft : Draft) : Draft :=
  draft.withParents (renumbered (livePlaces drafts) draft.parents)

theorem liveDrafts_eq_map :
    liveDrafts drafts =
      (drafts.filter fun draft => !isDissolved draft).map (·.numbered drafts) := by
  rw [← filterMap_places, ← livePlaces_eq_places]
  rfl

theorem getElem?_liveDrafts :
    (liveDrafts drafts)[id]? = (livePlaces drafts)[id]?.bind fun place =>
      drafts[place]?.map (·.numbered drafts) := by
  rw [liveDrafts_eq_map, List.getElem?_map, getElem?_filter, livePlaces_eq_places, Option.map_bind]
  rfl

theorem getElem?_numbered :
    (numbered drafts).chunks[id]? =
      (liveDrafts drafts)[id]?.map fun draft => ofDraft (liveDrafts drafts) draft id :=
  List.getElem?_mapIdx

/-- Reading from chunks what they have from their drafts. -/
theorem map_chunks_numbered {α : Type} {read : Draft → α} {readChunk : Chunk → α}
    (blind : ∀ draft parents, read (draft.withParents parents) = read draft)
    (same : ∀ others draft id, readChunk (ofDraft others draft id) = read draft) :
    (numbered drafts).chunks.map readChunk =
      (drafts.filter fun draft => !isDissolved draft).map read := by
  calc (numbered drafts).chunks.map readChunk
      = (liveDrafts drafts).map read := by
        refine List.ext_getElem? fun id => ?_
        rw [List.getElem?_map, getElem?_numbered, List.getElem?_map, Option.map_map]
        cases (liveDrafts drafts)[id]? with
        | none => rfl
        | some draft => exact congrArg some (same _ draft id)
    _ = (drafts.filter fun draft => !isDissolved draft).map read := by
        rw [liveDrafts_eq_map, List.map_map]
        exact List.map_congr_left fun draft _ => blind draft _

theorem exists_draft_of_chunk {chunk : Chunk} (found : (numbered drafts).chunks[id]? = some chunk) :
    ∃ (place : Nat) (draft : Draft),
      (livePlaces drafts)[id]? = some place ∧ drafts[place]? = some draft ∧
        chunk = ofDraft (liveDrafts drafts) (draft.numbered drafts) id := by
  rw [getElem?_numbered, getElem?_liveDrafts, Option.map_eq_some_iff] at found
  obtain ⟨live, stands, rfl⟩ := found
  obtain ⟨place, located, rest⟩ := Option.bind_eq_some_iff.1 stands
  obtain ⟨draft, there, rfl⟩ := Option.map_eq_some_iff.1 rest
  exact ⟨place, draft, located, there, rfl⟩

theorem exists_draft_of_mem {chunk : Chunk} (member : chunk ∈ (numbered drafts).chunks) :
    ∃ (id place : Nat) (draft : Draft),
      (livePlaces drafts)[id]? = some place ∧ drafts[place]? = some draft ∧
        chunk = ofDraft (liveDrafts drafts) (draft.numbered drafts) id := by
  obtain ⟨id, found⟩ := List.mem_iff_getElem?.1 member
  exact ⟨id, exists_draft_of_chunk found⟩

theorem getElem?_numbered_of_live {draft : Draft} (located : (livePlaces drafts)[id]? = some place)
    (stands : drafts[place]? = some draft) :
    (numbered drafts).chunks[id]? =
      some (ofDraft (liveDrafts drafts) (draft.numbered drafts) id) := by
  rw [getElem?_numbered, getElem?_liveDrafts, located, Option.bind_some, stands]
  rfl

theorem exists_chunk_of_draft {draft : Draft} (stands : drafts[place]? = some draft)
    (lives : isDissolved draft = false) :
    ∃ id, (livePlaces drafts)[id]? = some place ∧
      (numbered drafts).chunks[id]? =
        some (ofDraft (liveDrafts drafts) (draft.numbered drafts) id) := by
  have located := getElem?_livePlaces_idxOf (mem_livePlaces.2 ⟨draft, stands, lives⟩)
  exact ⟨_, located, getElem?_numbered_of_live located stands⟩

theorem id_of_getElem?_numbered {chunk : Chunk}
    (found : (numbered drafts).chunks[id]? = some chunk) : chunk.id = id := by
  obtain ⟨_, _, _, _, rfl⟩ := exists_draft_of_chunk found
  rfl

/-- The children are the inverse of the parents. -/
theorem mem_children_numbered {chunk : Chunk} (found : (numbered drafts).chunks[id]? = some chunk)
    {child : Nat} :
    child ∈ chunk.children ↔
      ∃ other, (numbered drafts).chunks[child]? = some other ∧ id ∈ other.parents := by
  obtain ⟨_, _, _, _, rfl⟩ := exists_draft_of_chunk found
  change child ∈ childrenOf (liveDrafts drafts) id ↔ _
  rw [childrenOf_eq_places, mem_places, getElem?_numbered]
  constructor
  · rintro ⟨draft, stands, isParent⟩
    exact ⟨_, by rw [stands]; rfl, of_decide_eq_true isParent⟩
  · rintro ⟨other, stands, isParent⟩
    obtain ⟨draft, there, rfl⟩ := Option.map_eq_some_iff.1 stands
    exact ⟨draft, there, decide_eq_true isParent⟩

theorem pairwise_children_numbered {chunk : Chunk}
    (found : (numbered drafts).chunks[id]? = some chunk) : chunk.children.Pairwise (· < ·) := by
  obtain ⟨_, _, _, _, rfl⟩ := exists_draft_of_chunk found
  change (childrenOf (liveDrafts drafts) id).Pairwise (· < ·)
  rw [childrenOf_eq_places]
  exact pairwise_places

end

/-! ## The chunks -/

open CacheGroup

variable {graph : ModuleGraph} {rules : List Rule} {limits : Limits}

/-- The drafts before dissolution. -/
def spreadDrafts (graph : ModuleGraph) (rules : List Rule) (limits : Limits) : List Draft :=
  spread graph.groupDrafts (sharedDrafts graph rules limits graph.groupDrafts)

theorem split_eq (graph : ModuleGraph) (rules : List Rule) (limits : Limits) :
    split graph rules limits =
      match emptyChunk? (cacheGroupDrafts graph rules limits graph.groupDrafts).1
        ((spreadDrafts graph rules limits).take graph.groupDrafts.length) with
      | some error => (unusedRules (claims graph rules graph.groupDrafts) rules, .error error)
      | none => (unusedRules (claims graph rules graph.groupDrafts) rules ++
            danglingModules graph (finalDrafts (spreadDrafts graph rules limits)),
          .ok (numbered (finalDrafts (spreadDrafts graph rules limits)))) := by
  rw [spreadDrafts, ← movedDrafts_eq_spread]
  rfl

theorem split_ok {reports : List Diagnostic} {chunks : ChunkGraph}
    (made : split graph rules limits = (reports, .ok chunks)) :
    chunks = numbered (finalDrafts (spreadDrafts graph rules limits)) ∧
      reports = unusedRules (claims graph rules graph.groupDrafts) rules ++
        danglingModules graph (finalDrafts (spreadDrafts graph rules limits)) := by
  rw [split_eq] at made
  split at made
  next => cases (Prod.mk.inj made).2
  next =>
    obtain ⟨reported, result⟩ := Prod.mk.inj made
    exact ⟨(Except.ok.inj result).symm, reported.symm⟩

/-- Only cache groups make splitting fail. -/
theorem exists_split_of_no_rules (graph : ModuleGraph) (limits : Limits) :
    ∃ reports chunks, split graph [] limits = (reports, .ok chunks) := by
  have noneEmpty : ∀ drafts, emptyChunk? [] drafts = none := by
    intro drafts
    simp [emptyChunk?, drainedBy]
  have noneAccepted : (cacheGroupDrafts graph [] limits graph.groupDrafts).1 = [] := rfl
  rw [split_eq, noneAccepted, noneEmpty]
  exact ⟨_, _, rfl⟩

theorem lineage_spreadDrafts : Lineage (spreadDrafts graph rules limits) :=
  lineage_spread (fun _ => shares_of_mem_sharedDrafts) ModuleGraph.lineage_groupDrafts
    fun _ => ModuleGraph.isGroup_of_mem_groupDrafts

/-- The kinds of drafts in their order, without the runtime. -/
def kindsInOrder (entries onDemand shared : Nat) : List ChunkKind :=
  List.replicate entries .entry ++ List.replicate onDemand .onDemand ++
    List.replicate shared .shared

theorem exists_kinds_spreadDrafts :
    ∃ entries onDemand shared,
      (spreadDrafts graph rules limits).map (·.kind) = kindsInOrder entries onDemand shared := by
  obtain ⟨onDemand, kinds⟩ := graph.map_kind_groupDrafts
  refine ⟨graph.entries.length, onDemand,
    (sharedDrafts graph rules limits graph.groupDrafts).length, ?_⟩
  rw [spreadDrafts, spread, List.map_append, kindsInOrder]
  congr 1
  · rw [← kinds, withoutMoved, List.map_map]
    rfl
  · refine List.eq_replicate_iff.2 ⟨by rw [List.length_map], ?_⟩
    intro kind member
    obtain ⟨draft, listed, rfl⟩ := List.mem_map.1 member
    exact (shares_of_mem_sharedDrafts listed).kind

/-- What splitting distributes is what the entries reach. -/
theorem mem_spreadDrafts {module : Nat} :
    module ∈ (spreadDrafts graph rules limits).flatMap (·.modules) ↔ graph.Reachable module := by
  rw [← ModuleGraph.exists_groupDraft_iff]
  exact mem_spread fun _ => shares_of_mem_sharedDrafts

theorem nodup_spreadDrafts (distinct : (rules.map (·.index)).Nodup) :
    ((spreadDrafts graph rules limits).flatMap (·.modules)).Nodup :=
  (sharing_sharedDrafts distinct).nodup_spread
    fun _ => ModuleGraph.nodup_modules_of_mem_groupDrafts

/-! ## Modules of the chunks -/

/-- Dissolution and the runtime move no module. -/
theorem flatMap_modules_finalDrafts (drafts : List Draft) :
    (finalDrafts drafts).flatMap (·.modules) = drafts.flatMap (·.modules) := by
  have final : (finalDrafts drafts).map (·.modules) = drafts.map (·.modules) ++ [[]] :=
    map_finalDrafts fun _ _ => rfl
  rw [List.flatMap_def, final, List.flatten_append, List.flatMap_def]
  simp

theorem flatMap_modules_live (drafts : List Draft) :
    (drafts.filter fun draft => !isDissolved draft).flatMap (·.modules) =
      drafts.flatMap (·.modules) := by
  induction drafts with
  | nil => rfl
  | cons draft drafts ih =>
      cases gone : isDissolved draft with
      | false => simp [gone, ih]
      | true => simp [gone, ih, (onDemand_of_isDissolved gone).2]

/-- Numbering moves none either. -/
theorem flatMap_modules_numbered (drafts : List Draft) :
    (numbered (finalDrafts drafts)).chunks.flatMap (·.modules) = drafts.flatMap (·.modules) := by
  have live : (numbered (finalDrafts drafts)).chunks.map (·.modules) =
      ((finalDrafts drafts).filter fun draft => !isDissolved draft).map (·.modules) :=
    map_chunks_numbered (fun _ _ => rfl) fun _ _ _ => rfl
  rw [List.flatMap_def, live, ← List.flatMap_def, flatMap_modules_live, flatMap_modules_finalDrafts]

/-! ## Chunks and drafts without parents -/

/-- A chunk as a draft without parents. -/
def bare (chunk : Chunk) : Draft where
  name := chunk.name
  kind := chunk.kind
  initial := chunk.initial
  modules := chunk.modules
  roots := chunk.roots
  group := chunk.group
  parents := []

theorem map_bare_numbered (drafts : List Draft) :
    (numbered (finalDrafts drafts)).chunks.map bare =
      (drafts.filter fun draft => !isDissolved draft).map (·.withParents []) ++
        [(runtimeDraft (dissolved drafts)).withParents []] := by
  have live (those : List Draft) :
      (those.filter fun draft => !isDissolved draft).map (·.withParents []) =
        (those.map (·.withParents [])).filter fun draft => !isDissolved draft := by
    rw [List.filter_map]
    rfl
  have numberedAll : (numbered (finalDrafts drafts)).chunks.map bare =
      ((finalDrafts drafts).filter fun draft => !isDissolved draft).map (·.withParents []) :=
    map_chunks_numbered (fun _ _ => rfl) fun _ _ _ => rfl
  rw [numberedAll, live, map_finalDrafts fun _ _ => rfl, List.filter_append, ← live]
  rfl

variable {reports : List Diagnostic} {chunks : ChunkGraph}

theorem group_of_mem_withoutMoved {moved : List Nat} {draft : Draft}
    (member : draft ∈ withoutMoved graph.groupDrafts moved) : draft.group = none := by
  obtain ⟨holder, listed, rfl⟩ := List.mem_map.1 member
  obtain ⟨placed, _, rfl⟩ := List.mem_map.1 listed
  rfl

theorem group_of_mem_dedupDrafts {groups : List Draft} {moved : List Nat} {draft : Draft}
    (member : draft ∈ dedupDrafts groups moved) : draft.group = none := by
  obtain ⟨parents, _, rfl⟩ := List.mem_map.1 member
  rfl

theorem isSome_group_of_mem_cacheGroupDrafts {groups : List Draft} {draft : Draft}
    (member : draft ∈ (cacheGroupDrafts graph rules limits groups).1) :
    draft.group.isSome = true := by
  obtain ⟨chosen, _, _, same⟩ := @exists_cacheGroupDrafts_eq groups graph rules limits
  rw [same] at member
  obtain ⟨rule, _, rfl⟩ := List.mem_map.1 member
  rfl

/-- The drafts with a cache group are those that cache groups made. -/
theorem filter_group_spreadDrafts :
    (spreadDrafts graph rules limits).filter (·.group.isSome) =
      (cacheGroupDrafts graph rules limits graph.groupDrafts).1 := by
  have noGroup (those : List Draft) (all : ∀ draft ∈ those, draft.group = none) :
      those.filter (·.group.isSome) = [] := by
    refine List.filter_eq_nil_iff.2 fun draft member => ?_
    simp [all draft member]
  rw [spreadDrafts, spread, sharedDrafts, List.filter_append, List.filter_append,
    noGroup _ fun _ => group_of_mem_withoutMoved, noGroup _ fun _ => group_of_mem_dedupDrafts,
    List.filter_eq_self.2 fun _ => isSome_group_of_mem_cacheGroupDrafts, List.nil_append,
    List.append_nil]

/-- The drafts of shared modules are those that cache groups and sharing made. -/
theorem filter_shared_spreadDrafts :
    (spreadDrafts graph rules limits).filter (·.kind = .shared) =
      sharedDrafts graph rules limits graph.groupDrafts := by
  have groups : ∀ draft ∈ withoutMoved graph.groupDrafts
      ((sharedDrafts graph rules limits graph.groupDrafts).flatMap (·.modules)),
        ¬ decide (draft.kind = .shared) = true := by
    intro draft member
    obtain ⟨holder, listed, _, kind⟩ := mem_withoutMoved member
    rcases ModuleGraph.isGroup_of_mem_groupDrafts listed with entry | onDemand
    · simp [kind, entry]
    · simp [kind, onDemand]
  have shared : ∀ draft ∈ sharedDrafts graph rules limits graph.groupDrafts,
      decide (draft.kind = .shared) = true :=
    fun draft member => decide_eq_true (shares_of_mem_sharedDrafts member).kind
  rw [spreadDrafts, spread, List.filter_append, List.filter_eq_nil_iff.2 groups,
    List.filter_eq_self.2 shared, List.nil_append]

/-- Choosing chunks by what they have from their drafts is choosing drafts, as long as no draft is
chosen that is dissolved. -/
theorem map_bare_filter (made : split graph rules limits = (reports, .ok chunks))
    (choose : Draft → Bool)
    (blind : ∀ draft parents, choose (draft.withParents parents) = choose draft)
    (noRuntime : ∀ drafts, choose (runtimeDraft drafts) = false)
    (lives : ∀ draft ∈ (spreadDrafts graph rules limits).filter choose,
      isDissolved draft = false) :
    (chunks.chunks.filter fun chunk => choose (bare chunk)).map bare =
      ((spreadDrafts graph rules limits).filter choose).map (·.withParents []) := by
  have blindOnes (those : List Draft) : (those.map (·.withParents [])).filter choose =
      (those.filter choose).map (·.withParents []) := by
    rw [List.filter_map]
    congr 1
    exact List.filter_congr fun draft _ => blind draft []
  have runtime : [(runtimeDraft (dissolved (spreadDrafts graph rules limits))).withParents []].filter
      choose = [] := by
    simp [blind, noRuntime]
  calc (chunks.chunks.filter fun chunk => choose (bare chunk)).map bare
      = (chunks.chunks.map bare).filter choose := by
        rw [List.filter_map]
        rfl
    _ = (((spreadDrafts graph rules limits).filter fun draft => !isDissolved draft).filter
          choose).map (·.withParents []) := by
        rw [(split_ok made).1, map_bare_numbered, List.filter_append, runtime, blindOnes,
          List.append_nil]
    _ = ((spreadDrafts graph rules limits).filter choose).map (·.withParents []) := by
        congr 1
        rw [List.filter_comm]
        refine List.filter_eq_self.2 fun draft member => ?_
        rw [lives draft member]
        rfl

/-- The chunks with a cache group are the drafts that cache groups made. -/
theorem map_bare_claimed (made : split graph rules limits = (reports, .ok chunks)) :
    (chunks.chunks.filter (·.group.isSome)).map bare =
      (cacheGroupDrafts graph rules limits graph.groupDrafts).1.map (·.withParents []) := by
  rw [← filter_group_spreadDrafts]
  refine map_bare_filter made (·.group.isSome) (fun _ _ => rfl) (fun _ => rfl) fun draft member => ?_
  rw [filter_group_spreadDrafts] at member
  simp [isDissolved, (shares_of_mem_cacheGroupDrafts member).kind]

/-- The shared chunks are the drafts of shared modules. -/
theorem map_bare_shared (made : split graph rules limits = (reports, .ok chunks)) :
    (chunks.chunks.filter (·.kind = .shared)).map bare =
      (sharedDrafts graph rules limits graph.groupDrafts).map (·.withParents []) := by
  rw [← filter_shared_spreadDrafts]
  refine map_bare_filter made (·.kind = .shared) (fun _ _ => rfl) (fun _ => rfl) fun draft member => ?_
  rw [filter_shared_spreadDrafts] at member
  simp [isDissolved, (shares_of_mem_sharedDrafts member).kind]

/-! ## A small project -/

/-- A module of a project at `/app`. -/
def moduleAt (id : Nat) (name : String) (dependencies : List Dependency) : Module :=
  { id, resource := "/app/" ++ name, name, dependencies }

/-- Two pages are loaded on demand and need one tool. Nothing imports the last module. -/
def twoPages : ModuleGraph where
  root := "/app"
  modules := ⟨#[
    moduleAt 0 "main.js" [⟨1, .async, "./page"⟩, ⟨2, .async, "./panel"⟩],
    moduleAt 1 "page.js" [⟨3, .sync, "./tool"⟩],
    moduleAt 2 "panel.js" [⟨3, .sync, "./tool"⟩],
    moduleAt 3 "tool.js" [],
    moduleAt 4 "stale.js" []]⟩
  entries := [⟨"main", [0]⟩]

/-- A cache group for the tool. -/
def toolGroups : List CacheGroup := [{ name := "tools", test := .contains ["/tool"] }]

def toolRules : List Rule :=
  [⟨"tools", .holdsOneOf ["/tool".toList], .all, 0, false, 0⟩]

theorem ofGroups_toolGroups : Rule.ofGroups toolGroups = .ok toolRules := by cbv

theorem exists_split_ok (ok : (split graph rules limits).2.isOk = true) :
    ∃ reports chunks, split graph rules limits = (reports, .ok chunks) := by
  cases result : (split graph rules limits).2 with
  | error error =>
      rw [result] at ok
      cases ok
  | ok chunks => exact ⟨_, chunks, Prod.ext rfl result⟩

theorem exists_split_twoPages :
    ∃ reports chunks, split twoPages toolRules {} = (reports, .ok chunks) :=
  exists_split_ok (by cbv)

end WebBundle.Chunk
