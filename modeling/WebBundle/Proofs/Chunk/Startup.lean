import WebBundle.Chunk.Emitted
import WebBundle.Proofs.Chunk.Shape
import WebBundle.Proofs.Chunk.Splitting

/-!
# Starting the entries

The chunk of an entry or of a group started on demand holds what sharing left in its group. Whatever
the group lost is in shared chunks that the chunk has among its children, and these are loaded at
the start if the chunk is. So whoever loads the chunk with its shared chunks has loaded all that the
group held.

A document starts the runtime first and no chunk twice, and nothing that is loaded on demand. Before
the chunk of an entry it starts the shared chunks that the entry waits for, and together they hold
all that the roots of the entry load at once.
-/

namespace WebBundle.Chunk

variable {groups shared : List Draft} {id place : Nat}

/-- A child of a chunk is found by its number. -/
theorem mem_chunksAt {chunks : ChunkGraph} {ids : List Nat} {chunk : Chunk} :
    chunk ∈ chunks.chunksAt ids ↔ ∃ id ∈ ids, chunks.chunk? id = some chunk :=
  List.mem_filterMap

/-- The group behind a chunk that is not shared. -/
theorem exists_group_of_chunk (shares : ∀ draft ∈ shared, Shares groups draft) {chunk : Chunk}
    (found : (numbered (finalDrafts (spread groups shared))).chunks[id]? = some chunk)
    (isGroup : chunk.kind = .entry ∨ chunk.kind = .onDemand) :
    ∃ (place : Nat) (holder : Draft),
      (livePlaces (finalDrafts (spread groups shared)))[id]? = some place ∧
        groups[place]? = some holder ∧ chunk.kind = holder.kind ∧ chunk.roots = holder.roots ∧
          chunk.modules = holder.modules.filter (· ∉ shared.flatMap (·.modules)) := by
  obtain ⟨place, draft, located, stands, rfl⟩ := exists_draft_of_chunk found
  change draft.kind = .entry ∨ draft.kind = .onDemand at isGroup
  rcases exists_origin stands with last | ⟨origin, there, same⟩
  · rw [last] at isGroup
    cases isGroup with
    | inl kind => cases kind
    | inr kind => cases kind
  · by_cases inside : place < groups.length
    · have holderThere := List.getElem?_eq_getElem inside
      have moved : (spread groups shared)[place]? = _ := getElem?_spread_group holderThere
      obtain rfl := Option.some.inj (there.symm.trans moved)
      refine ⟨place, groups[place], located, holderThere, ?_⟩
      rw [same]
      exact ⟨rfl, rfl, rfl⟩
    · rw [spread, List.getElem?_append_right (by rw [length_withoutMoved]; omega)] at there
      rw [same] at isGroup
      change origin.kind = .entry ∨ origin.kind = .onDemand at isGroup
      rw [(shares origin (List.mem_of_getElem? there)).kind] at isGroup
      cases isGroup with
      | inl kind => cases kind
      | inr kind => cases kind

/-- The chunk of a draft of shared modules is a child of the chunks of its parents. -/
theorem exists_sharedChunk (shares : ∀ draft ∈ shared, Shares groups draft) {chunk : Chunk}
    (found : (numbered (finalDrafts (spread groups shared))).chunks[id]? = some chunk)
    (located : (livePlaces (finalDrafts (spread groups shared)))[id]? = some place)
    {draft : Draft} (listed : draft ∈ shared) (isParent : place ∈ draft.parents) :
    ∃ other ∈ (numbered (finalDrafts (spread groups shared))).chunksAt chunk.children,
      other.kind = .shared ∧ other.modules = draft.modules ∧ other.initial = draft.initial := by
  obtain ⟨index, stands⟩ := List.mem_iff_getElem?.1 listed
  have standsBehind : (spread groups shared)[groups.length + index]? = some draft := by
    rw [spread, List.getElem?_append_right (by rw [length_withoutMoved]; omega),
      length_withoutMoved, Nat.add_sub_cancel_left, stands]
  have lives : place ∉ dissolvedPlaces (spread groups shared) := by
    intro gone
    obtain ⟨origin, there, isGone⟩ := mem_dissolvedPlaces.1 gone
    obtain ⟨parents, final, _⟩ := exists_getElem?_finalDrafts there
    obtain ⟨live, final', isLive⟩ := mem_livePlaces.1 (List.mem_of_getElem? located)
    obtain rfl := Option.some.inj (final'.symm.trans final)
    exact absurd isGone (by rw [Bool.not_eq_true]; exact isLive)
  obtain ⟨parents, final, keeps⟩ := exists_getElem?_finalDrafts standsBehind
  have notGone : isDissolved (draft.withParents parents) = false := by
    have kind : (draft.withParents parents).kind = .shared := (shares draft listed).kind
    simp [isDissolved, kind]
  obtain ⟨number, locatedOther, foundOther⟩ := exists_chunk_of_draft final notGone
  have parentOther := mem_renumbered.2 ⟨place, keeps place isParent lives, located⟩
  exact ⟨_, mem_chunksAt.2 ⟨number, (mem_children_numbered found).2 ⟨_, foundOther, parentOther⟩,
    foundOther⟩, (shares draft listed).kind, rfl, rfl⟩

/-- What the group behind a chunk held is in the chunk, or in a shared chunk below it. -/
theorem held_of_chunk (shares : ∀ draft ∈ shared, Shares groups draft) {chunk : Chunk}
    (found : (numbered (finalDrafts (spread groups shared))).chunks[id]? = some chunk)
    (located : (livePlaces (finalDrafts (spread groups shared)))[id]? = some place)
    {holder : Draft} (stands : groups[place]? = some holder)
    (modules : chunk.modules = holder.modules.filter (· ∉ shared.flatMap (·.modules)))
    {module : Nat} (held : module ∈ holder.modules) :
    module ∈ chunk.modules ∨
      ∃ other ∈ (numbered (finalDrafts (spread groups shared))).chunksAt chunk.children,
        other.kind = .shared ∧ module ∈ other.modules ∧
          (holder.initial = true → other.initial = true) := by
  rcases destination shares stands held with stays | ⟨draft, listed, within, isParent⟩
  · exact Or.inl (modules ▸ stays)
  · obtain ⟨other, below, kind, same, initial⟩ :=
      exists_sharedChunk shares found located listed isParent
    refine Or.inr ⟨other, below, kind, same ▸ within, fun early => ?_⟩
    rw [initial]
    exact (shares draft listed).initial.2 ⟨place, isParent, holder, stands, early⟩

variable {graph : ModuleGraph} {rules : List CacheGroup.Rule} {limits : Limits}
variable {reports : List Diagnostic} {chunks : ChunkGraph}

/-- A chunk that is not shared, its group, and what the group held. -/
theorem exists_holder_of_chunk (made : split graph rules limits = (reports, .ok chunks))
    {chunk : Chunk} (member : chunk ∈ chunks.chunks)
    (isGroup : chunk.kind = .entry ∨ chunk.kind = .onDemand) :
    ∃ holder ∈ graph.groupDrafts, chunk.kind = holder.kind ∧ chunk.roots = holder.roots ∧
      chunk.modules ⊆ holder.modules ∧ ∀ module ∈ holder.modules, module ∈ chunk.modules ∨
        ∃ other ∈ chunks.chunksAt chunk.children, other.kind = .shared ∧ module ∈ other.modules ∧
          (holder.initial = true → other.initial = true) := by
  obtain ⟨rfl, _⟩ := split_ok made
  have shares : ∀ draft ∈ sharedDrafts graph rules limits graph.groupDrafts,
      Shares graph.groupDrafts draft := fun _ => shares_of_mem_sharedDrafts
  obtain ⟨id, found⟩ := List.mem_iff_getElem?.1 member
  obtain ⟨place, holder, located, stands, kind, roots, modules⟩ :=
    exists_group_of_chunk shares found isGroup
  refine ⟨holder, List.mem_of_getElem? stands, kind, roots, ?_,
    fun module => held_of_chunk shares found located stands modules⟩
  rw [modules]
  exact List.filter_subset_self _

/-- The runtime holds no module. -/
theorem modules_of_runtime (made : split graph rules limits = (reports, .ok chunks)) {chunk : Chunk}
    (member : chunk ∈ chunks.chunks) (isRuntime : chunk.kind = .runtime) : chunk.modules = [] := by
  obtain ⟨rfl, _⟩ := split_ok made
  obtain ⟨id, place, draft, _, stands, rfl⟩ := exists_draft_of_mem member
  change draft.kind = .runtime at isRuntime
  change draft.modules = []
  rcases exists_origin stands with last | ⟨origin, there, same⟩
  · rw [last]
    rfl
  · rw [same] at isRuntime
    change origin.kind = .runtime at isRuntime
    cases List.mem_append.1 (List.mem_of_getElem? there) with
    | inl group =>
        obtain ⟨holder, listed, _, kind⟩ := mem_withoutMoved group
        rw [kind] at isRuntime
        cases ModuleGraph.isGroup_of_mem_groupDrafts listed with
        | inl kind => simp [kind] at isRuntime
        | inr kind => simp [kind] at isRuntime
    | inr shared =>
        rw [(shares_of_mem_sharedDrafts shared).kind] at isRuntime
        cases isRuntime

/-- Every entry has a chunk, which starts its modules. -/
theorem exists_chunk_of_entry (made : split graph rules limits = (reports, .ok chunks))
    {entry : Entry} (listed : entry ∈ graph.entries) :
    ∃ chunk ∈ chunks.entries, chunk.roots = entry.modules := by
  obtain ⟨rfl, _⟩ := split_ok made
  obtain ⟨holder, member, kind, roots⟩ := ModuleGraph.exists_groupDraft_of_entry listed
  obtain ⟨place, stands⟩ := List.mem_iff_getElem?.1 member
  obtain ⟨parents, final, _⟩ := exists_getElem?_finalDrafts (getElem?_spread_group stands)
  obtain ⟨id, _, found⟩ :=
    exists_chunk_of_draft final (by simp [isDissolved, Draft.withParents, kind])
  exact ⟨_, List.mem_filter.2 ⟨List.mem_of_getElem? found, decide_eq_true kind⟩, roots⟩

end WebBundle.Chunk

namespace WebBundle

namespace ChunkGraph

variable {chunks : ChunkGraph}

theorem WellFormed.chunk?_id (wellFormed : chunks.WellFormed) {chunk : Chunk}
    (member : chunk ∈ chunks.chunks) : chunks.chunk? chunk.id = some chunk := by
  obtain ⟨place, found⟩ := List.mem_iff_getElem?.1 member
  have inside : place < chunks.size := (List.getElem?_eq_some_iff.1 found).1
  have read := congrArg (·[place]?) wellFormed.ids
  simp only [List.getElem?_map, found, Option.map_some, List.getElem?_range inside,
    Option.some.injEq] at read
  rw [read]
  exact found

theorem WellFormed.eq_of_id_eq (wellFormed : chunks.WellFormed) {chunk other : Chunk}
    (member : chunk ∈ chunks.chunks) (member' : other ∈ chunks.chunks)
    (same : chunk.id = other.id) : chunk = other := by
  have found := wellFormed.chunk?_id member
  rw [same, wellFormed.chunk?_id member'] at found
  exact (Option.some.inj found).symm

theorem WellFormed.exists_runtime (wellFormed : chunks.WellFormed) :
    ∃ runtime ∈ chunks.chunks, runtime.id = chunks.runtime ∧ runtime.kind = .runtime := by
  obtain ⟨entries, onDemand, shared, layout⟩ := wellFormed.layout
  have listed : ChunkKind.runtime ∈ chunks.chunks.map (·.kind) := by simp [layout]
  obtain ⟨chunk, member, kind⟩ := List.mem_map.1 listed
  have inside : chunks.runtime < chunks.chunks.length :=
    List.findIdx_lt_length_of_exists ⟨chunk, member, decide_eq_true kind⟩
  have isRuntime : chunks.chunks[chunks.runtime].kind = .runtime :=
    of_decide_eq_true (List.findIdx_getElem (w := inside))
  refine ⟨chunks.chunks[chunks.runtime], List.getElem_mem inside, ?_, isRuntime⟩
  have read := congrArg (·[chunks.runtime]?) wellFormed.ids
  simpa [List.getElem?_eq_getElem inside, List.getElem?_range (n := chunks.size) inside] using read

theorem mem_of_mem_entries {entry : Chunk} (listed : entry ∈ chunks.entries) :
    entry ∈ chunks.chunks ∧ entry.kind = .entry :=
  ⟨(List.mem_filter.1 listed).1, of_decide_eq_true (List.mem_filter.1 listed).2⟩

theorem mem_of_mem_required {chunk shared : Chunk} (listed : shared ∈ chunks.required chunk) :
    shared ∈ chunks.chunks ∧ shared.kind = .shared := by
  obtain ⟨child, test⟩ := List.mem_filter.1 listed
  obtain ⟨id, _, found⟩ := Chunk.mem_chunksAt.1 child
  rw [Bool.and_eq_true] at test
  exact ⟨List.mem_of_getElem? found, of_decide_eq_true test.1⟩

/-- No entry is waited for. -/
theorem WellFormed.not_mem_required (wellFormed : chunks.WellFormed) {entry waiting shared : Chunk}
    (listed : entry ∈ chunks.entries) (needed : shared ∈ chunks.required waiting) :
    shared.id ≠ entry.id := by
  intro same
  obtain ⟨there, isEntry⟩ := mem_of_mem_entries listed
  obtain ⟨there', kind⟩ := mem_of_mem_required needed
  obtain rfl := wellFormed.eq_of_id_eq there' there same
  simp [kind] at isEntry

theorem WellFormed.nodup_entries (wellFormed : chunks.WellFormed) : chunks.entries.Nodup := by
  have nodup : (chunks.chunks.map (·.id)).Nodup := by
    rw [wellFormed.ids]
    exact List.nodup_range
  exact (List.Nodup.of_map _ nodup).filter _

/-- What has to hold of the order in which a document starts chunks. -/
structure StartsEntries (chunks : ChunkGraph) (graph : ModuleGraph) (order : List Nat) : Prop where
  nodup : order.Nodup
  runtime_first : ∃ runtime, chunks.chunk? runtime.id = some runtime ∧ runtime.kind = .runtime ∧
    order.head? = some runtime.id
  at_start : ∀ id ∈ order, ∃ chunk, chunks.chunk? id = some chunk ∧ chunk.kind ≠ .onDemand
  complete : ∀ entry ∈ chunks.entries, ∀ module ∈ graph.closure entry.roots,
    module ∈ entry.modules ∨ ∃ shared ∈ chunks.required entry, module ∈ shared.modules
  ordered : ∀ entry ∈ chunks.entries, ∃ before after, order = before ++ entry.id :: after ∧
    ∀ shared ∈ chunks.required entry, shared.id ∈ before

end ChunkGraph

namespace EmittedChunk

open ChunkGraph

variable {chunks : ChunkGraph}

/-- The chunks that an entry adds to the order. -/
def startedWith (chunks : ChunkGraph) (entry : Chunk) : List Nat :=
  (chunks.required entry).map (·.id) ++ [entry.id]

theorem mem_startedWith {entry : Chunk} {id : Nat} :
    id ∈ startedWith chunks entry ↔
      (∃ shared ∈ chunks.required entry, shared.id = id) ∨ id = entry.id := by
  simp [startedWith]

theorem startOrder_eq :
    startOrder chunks = (chunks.runtime :: chunks.entries.flatMap (startedWith chunks)).eraseDups :=
  rfl

theorem mem_startOrder {id : Nat} :
    id ∈ startOrder chunks ↔
      id = chunks.runtime ∨ ∃ entry ∈ chunks.entries, id ∈ startedWith chunks entry := by
  rw [startOrder_eq, List.mem_eraseDups, List.mem_cons, List.mem_flatMap]

/-- Everything started is a chunk that is not loaded on demand. -/
theorem exists_chunk_of_mem_startOrder (wellFormed : chunks.WellFormed) {id : Nat}
    (member : id ∈ startOrder chunks) :
    ∃ chunk ∈ chunks.chunks, chunk.id = id ∧ chunk.kind ≠ .onDemand := by
  rcases mem_startOrder.1 member with rfl | ⟨entry, listed, started⟩
  · obtain ⟨runtime, there, same, kind⟩ := wellFormed.exists_runtime
    exact ⟨runtime, there, same, by simp [kind]⟩
  · rcases mem_startedWith.1 started with ⟨shared, needed, rfl⟩ | rfl
    · obtain ⟨there, kind⟩ := mem_of_mem_required needed
      exact ⟨shared, there, rfl, by simp [kind]⟩
    · obtain ⟨there, kind⟩ := mem_of_mem_entries listed
      exact ⟨entry, there, rfl, by simp [kind]⟩

/-- What an entry waits for is started before it, and its own chunk is not started earlier. -/
theorem exists_startOrder_eq (wellFormed : chunks.WellFormed) {entry : Chunk}
    (listed : entry ∈ chunks.entries) :
    ∃ before after, startOrder chunks = before ++ entry.id :: after ∧
      ∀ shared ∈ chunks.required entry, shared.id ∈ before := by
  obtain ⟨earlier, later, parts⟩ := List.append_of_mem listed
  obtain ⟨there, isEntry⟩ := mem_of_mem_entries listed
  let before := chunks.runtime :: earlier.flatMap (startedWith chunks) ++
    (chunks.required entry).map (·.id)
  -- the number of the entry belongs to no runtime, no shared chunk and no other entry
  have new : entry.id ∉ before := by
    intro again
    cases List.mem_append.1 again with
    | inl known =>
        cases List.mem_cons.1 known with
        | inl isRuntime =>
            obtain ⟨runtime, there', same, kind⟩ := wellFormed.exists_runtime
            obtain rfl := wellFormed.eq_of_id_eq there there' (isRuntime.trans same.symm)
            simp [kind] at isEntry
        | inr known =>
            obtain ⟨other, before, started⟩ := List.mem_flatMap.1 known
            have listed' : other ∈ chunks.entries := by
              rw [parts]
              exact List.mem_append_left _ before
            rcases mem_startedWith.1 started with ⟨shared, needed, same⟩ | same
            · exact wellFormed.not_mem_required listed needed same
            · obtain rfl := wellFormed.eq_of_id_eq there (mem_of_mem_entries listed').1 same
              have nodup := wellFormed.nodup_entries
              rw [parts] at nodup
              exact (List.nodup_append.1 nodup).2.2 _ before _ List.mem_cons_self rfl
    | inr needed =>
        obtain ⟨shared, needed, same⟩ := List.mem_map.1 needed
        exact wellFormed.not_mem_required listed needed same
  obtain ⟨rest, order⟩ : ∃ rest,
      (before ++ entry.id :: later.flatMap (startedWith chunks)).eraseDups =
        before.eraseDups ++ entry.id :: rest := exists_eraseDups_eq new
  refine ⟨before.eraseDups, rest, ?_, fun shared needed => ?_⟩
  · have own : startedWith chunks entry = (chunks.required entry).map (·.id) ++ [entry.id] := rfl
    rw [← order, startOrder_eq, parts]
    simp [before, own]
  · rw [List.mem_eraseDups]
    exact List.mem_append_right _ (List.mem_map_of_mem needed)

theorem startsEntries (wellFormed : chunks.WellFormed) {graph : ModuleGraph}
    (complete : ∀ entry ∈ chunks.entries, ∀ module ∈ graph.closure entry.roots,
      module ∈ entry.modules ∨ ∃ shared ∈ chunks.required entry, module ∈ shared.modules) :
    chunks.StartsEntries graph (startOrder chunks) := by
  constructor
  case nodup => exact nodup_eraseDups _
  case runtime_first =>
    obtain ⟨runtime, there, same, kind⟩ := wellFormed.exists_runtime
    refine ⟨runtime, wellFormed.chunk?_id there, kind, ?_⟩
    rw [startOrder, List.eraseDups_cons, List.head?_cons, same]
  case at_start =>
    intro id member
    obtain ⟨chunk, there, rfl, kind⟩ := exists_chunk_of_mem_startOrder wellFormed member
    exact ⟨chunk, wellFormed.chunk?_id there, kind⟩
  case complete => exact complete
  case ordered => exact fun entry => exists_startOrder_eq wellFormed

/-! ## Addresses -/

variable {emission : Emission} {graph : ModuleGraph} {written : List EmittedChunk}

theorem exists_written_of_chunk (emitted : emit emission graph chunks = .ok written) {chunk : Chunk}
    (member : chunk ∈ chunks.chunks) : ∃ script ∈ written, script.id = chunk.id := by
  unfold emit at emitted
  split at emitted
  next => cases emitted
  next =>
    obtain rfl := Except.ok.inj emitted
    by_cases isRuntime : chunk.kind = .runtime
    · have listed : chunk ∈ chunks.chunks.filter fun chunk => chunk.kind = .runtime :=
        List.mem_filter.2 ⟨member, decide_eq_true isRuntime⟩
      exact ⟨_, List.mem_append_right _ (List.mem_map_of_mem listed), rfl⟩
    · have listed : chunk ∈ chunks.chunks.filter fun chunk => chunk.kind ≠ .runtime :=
        List.mem_filter.2 ⟨member, decide_eq_true isRuntime⟩
      exact ⟨_, List.mem_append_left _ (List.mem_map_of_mem listed), rfl⟩

/-- If every number has a script, the addresses stand in the order of the numbers. -/
theorem forall₂_addresses (publicPath : String) {order : List Nat}
    (present : ∀ id ∈ order, ∃ script ∈ written, script.id = id) :
    List.Forall₂ (fun id address => ∃ script ∈ written, script.id = id ∧
        address = publicPath ++ script.fileName) order
      (order.filterMap fun id => (written.find? fun script => script.id = id).map fun script =>
        publicPath ++ script.fileName) := by
  induction order with
  | nil => exact .nil
  | cons id order ih =>
      obtain ⟨script, listed, same⟩ := present id List.mem_cons_self
      have isFound : (written.find? fun script => script.id = id).isSome = true :=
        List.find?_isSome.2 ⟨script, listed, decide_eq_true same⟩
      obtain ⟨first, found⟩ := Option.isSome_iff_exists.1 isFound
      have rest := ih fun other later => present other (List.mem_cons_of_mem _ later)
      rw [List.filterMap_cons_some (by rw [found]; rfl)]
      exact .cons ⟨first, List.mem_of_find?_eq_some found,
        by simpa using List.find?_some found, rfl⟩ rest

/-- What the roots of an entry load is in its chunk or in the shared chunks that it waits for. -/
theorem complete_of_split {rules : List CacheGroup.Rule} {limits : Chunk.Limits}
    {reports : List Diagnostic} (made : Chunk.split graph rules limits = (reports, .ok chunks))
    {entry : Chunk} (listed : entry ∈ chunks.entries) {module : Nat}
    (within : module ∈ graph.closure entry.roots) :
    module ∈ entry.modules ∨ ∃ shared ∈ chunks.required entry, module ∈ shared.modules := by
  obtain ⟨there, isEntry⟩ := mem_of_mem_entries listed
  obtain ⟨holder, member, kind, roots, _, held⟩ :=
    Chunk.exists_holder_of_chunk made there (Or.inl isEntry)
  have holderEntry : holder.kind = .entry := kind.symm.trans isEntry
  have holderInitial := (ModuleGraph.initial_of_mem_groupDrafts member).2 holderEntry
  rw [roots, ← ModuleGraph.modules_of_entryDraft member holderEntry] at within
  rcases held module within with stays | ⟨other, below, shared, there', early⟩
  · exact Or.inl stays
  · refine Or.inr ⟨other, List.mem_filter.2 ⟨below, ?_⟩, there'⟩
    simp [shared, early holderInitial]

/-- A document starts all that the entries need, in an order in which they can run. -/
theorem startsEntries_of_split {rules : List CacheGroup.Rule} {limits : Chunk.Limits}
    {reports : List Diagnostic} (made : Chunk.split graph rules limits = (reports, .ok chunks))
    (emitted : emit emission graph chunks = .ok written) (publicPath : String) :
    chunks.StartsEntries graph (startOrder chunks) ∧
      List.Forall₂ (fun id address => ∃ script ∈ written, script.id = id ∧
          address = publicPath ++ script.fileName)
        (startOrder chunks) (scripts chunks written publicPath) := by
  have wellFormed : chunks.WellFormed := by
    rw [(Chunk.split_ok made).1]
    exact Chunk.wellFormed_spreadDrafts
  constructor
  · exact startsEntries wellFormed fun entry listed module within =>
      complete_of_split made listed within
  · refine forall₂_addresses publicPath fun id member => ?_
    obtain ⟨chunk, there, rfl, _⟩ := exists_chunk_of_mem_startOrder wellFormed member
    exact exists_written_of_chunk emitted there

/-- Chunks are named by their names alone and written as they are. -/
def plainEmission : Emission := ⟨"[name].js", "/", fun text => text⟩

theorem startsEntries_twoPages :
    ∃ reports chunks written,
      Chunk.split Chunk.twoPages Chunk.toolRules {} = (reports, .ok chunks) ∧
      emit plainEmission Chunk.twoPages chunks = .ok written ∧
        chunks.StartsEntries Chunk.twoPages (startOrder chunks) ∧
          (scripts chunks written "/").length = 2 := by
  obtain ⟨reports, chunks, made⟩ := Chunk.exists_split_twoPages
  obtain ⟨written, emitted⟩ :
      ∃ written, emit plainEmission Chunk.twoPages chunks = .ok written := by
    have complete : Chunk.missingTarget? Chunk.twoPages chunks = none := by
      rw [(Chunk.split_ok made).1]
      cbv
    exact ⟨_, by rw [emit, complete]⟩
  obtain ⟨starts, addresses⟩ := startsEntries_of_split made emitted "/"
  refine ⟨reports, chunks, written, made, emitted, starts, ?_⟩
  rw [← addresses.length_eq, (Chunk.split_ok made).1]
  cbv

end EmittedChunk

end WebBundle
