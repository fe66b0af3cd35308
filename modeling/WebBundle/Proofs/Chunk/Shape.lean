import WebBundle.Proofs.Chunk.Splitting

/-!
# The shape of a chunk graph

Chunks are numbered by their place: first those of the entries, then those loaded on demand, then
the shared ones, and the runtime last. Parents and children are inverse to each other and form no
cycle, and whatever is not loaded at the start is found from some entry.
-/

namespace WebBundle

namespace ChunkGraph

/-- One chunk is listed among the parents of another. -/
def IsParent (graph : ChunkGraph) (parent child : Nat) : Prop :=
  ∃ chunk, graph.chunk? child = some chunk ∧ parent ∈ chunk.parents

/-- One chunk is listed among the children of another. -/
def HasChild (graph : ChunkGraph) (parent child : Nat) : Prop :=
  ∃ chunk, graph.chunk? parent = some chunk ∧ child ∈ chunk.children

/-- What holds of every chunk graph that splitting makes. -/
structure WellFormed (graph : ChunkGraph) : Prop where
  ids : graph.chunks.map (·.id) = List.range graph.size
  layout : ∃ entries onDemand shared, graph.chunks.map (·.kind) =
    List.replicate entries ChunkKind.entry ++ List.replicate onDemand ChunkKind.onDemand ++
      List.replicate shared ChunkKind.shared ++ [.runtime]
  inverse : ∀ parent child, graph.HasChild parent child ↔ graph.IsParent parent child
  parents_ascending : ∀ chunk ∈ graph.chunks, chunk.parents.Pairwise (· < ·)
  children_ascending : ∀ chunk ∈ graph.chunks, chunk.children.Pairwise (· < ·)
  acyclic : ∀ id, ¬ Relation.TransGen graph.IsParent id id
  entry_parents : ∀ chunk ∈ graph.chunks, chunk.kind = .entry → chunk.parents = []
  leaf_children : ∀ chunk ∈ graph.chunks,
    chunk.kind = .shared ∨ chunk.kind = .runtime → chunk.children = []
  runtime_parents : ∀ chunk ∈ graph.chunks,
    chunk.kind = .runtime → chunk.parents = graph.entries.map (·.id)
  parented : ∀ chunk ∈ graph.chunks,
    chunk.kind = .onDemand ∨ chunk.kind = .shared → chunk.parents ≠ []
  reached : ∀ chunk ∈ graph.chunks, chunk.kind = .onDemand ∨ chunk.kind = .shared →
    ∃ entry ∈ graph.entries, Relation.ReflTransGen graph.HasChild entry.id chunk.id

end ChunkGraph

namespace Chunk

variable {drafts : List Draft} {id : Nat}

theorem isParent_numbered {parent child : Nat} :
    (numbered drafts).IsParent parent child ↔
      ∃ (place : Nat) (draft : Draft),
        (livePlaces drafts)[child]? = some place ∧ drafts[place]? = some draft ∧
          ∃ above ∈ draft.parents, (livePlaces drafts)[parent]? = some above := by
  constructor
  · rintro ⟨chunk, found, isParent⟩
    obtain ⟨place, draft, located, stands, rfl⟩ := exists_draft_of_chunk found
    exact ⟨place, draft, located, stands, mem_renumbered.1 isParent⟩
  · rintro ⟨place, draft, located, stands, above⟩
    exact ⟨_, getElem?_numbered_of_live located stands, mem_renumbered.2 above⟩

theorem hasChild_numbered {parent child : Nat} (lives : ParentsLive drafts) :
    (numbered drafts).HasChild parent child ↔ (numbered drafts).IsParent parent child := by
  constructor
  · rintro ⟨chunk, found, isChild⟩
    exact (mem_children_numbered found).1 isChild
  · rintro ⟨other, found, isParent⟩
    obtain ⟨place, draft, located, stands, rfl⟩ := exists_draft_of_chunk found
    obtain ⟨above, isAbove, parentLocated⟩ := mem_renumbered.1 isParent
    obtain ⟨holder, there, _⟩ :=
      mem_livePlaces.1 (lives draft (List.mem_of_getElem? stands) above isAbove)
    have foundParent := getElem?_numbered_of_live parentLocated there
    exact ⟨_, foundParent, (mem_children_numbered foundParent).2 ⟨_, found, isParent⟩⟩

/-- The rank of the drafts rises along the parents of chunks. -/
theorem acyclic_numbered (lineage : Lineage drafts) :
    ¬ Relation.TransGen (numbered drafts).IsParent id id := by
  obtain ⟨rank, rises⟩ := lineage.ranked
  let height := fun number : Nat => rank ((livePlaces drafts)[number]?.getD 0)
  have step : ∀ parent child, (numbered drafts).IsParent parent child →
      height parent < height child := by
    intro parent child isParent
    obtain ⟨place, draft, located, stands, above, isAbove, parentLocated⟩ :=
      isParent_numbered.1 isParent
    simp only [height, located, parentLocated, Option.getD_some]
    exact rises place draft stands above isAbove
  have climb : ∀ {first last : Nat}, Relation.TransGen (numbered drafts).IsParent first last →
      height first < height last := by
    intro first last chain
    induction chain with
    | single isParent => exact step _ _ isParent
    | tail _ isParent ih => exact Nat.lt_trans ih (step _ _ isParent)
  exact fun cycle => Nat.lt_irrefl _ (climb cycle)

/-- A chunk with children is that of a draft that may be a parent. -/
theorem children_eq_nil_of_not_isGroup (lineage : Lineage drafts) {chunk : Chunk}
    (found : (numbered drafts).chunks[id]? = some chunk)
    (leaf : chunk.kind = .shared ∨ chunk.kind = .runtime) : chunk.children = [] := by
  refine List.eq_nil_iff_forall_not_mem.2 fun child isChild => ?_
  obtain ⟨_, _, _, stands, above, isAbove, located⟩ :=
    isParent_numbered.1 ((mem_children_numbered found).1 isChild)
  obtain ⟨holder, there, isGroup⟩ :=
    lineage.parent _ (List.mem_of_getElem? stands) above isAbove
  obtain ⟨place, draft, located', stands', rfl⟩ := exists_draft_of_chunk found
  obtain rfl := Option.some.inj (located'.symm.trans located)
  obtain rfl := Option.some.inj (stands'.symm.trans there)
  change draft.kind = .shared ∨ draft.kind = .runtime at leaf
  cases isGroup with
  | inl kind => simp [kind] at leaf
  | inr kind => simp [kind] at leaf

/-- From every chunk but the runtime an entry is found upward. By induction on the rank of the
draft. -/
theorem reached_numbered (lineage : Lineage drafts) (lives : ParentsLive drafts) {place : Nat}
    {draft : Draft} (located : (livePlaces drafts)[id]? = some place)
    (stands : drafts[place]? = some draft) (notRuntime : draft.kind ≠ .runtime) :
    ∃ entry ∈ (numbered drafts).entries,
      Relation.ReflTransGen (numbered drafts).HasChild entry.id id := by
  obtain ⟨rank, rises⟩ := lineage.ranked
  induction height : rank place using Nat.strongRecOn generalizing id place draft with
  | _ height ih =>
      have found := getElem?_numbered_of_live located stands
      by_cases isEntry : draft.kind = .entry
      · refine ⟨_, List.mem_filter.2 ⟨List.mem_of_getElem? found, ?_⟩, .refl⟩
        exact decide_eq_true isEntry
      · have member := List.mem_of_getElem? stands
        have needs : draft.kind = .onDemand ∨ draft.kind = .shared := by
          cases kind : draft.kind with
          | entry => exact absurd kind isEntry
          | onDemand => exact Or.inl rfl
          | shared => exact Or.inr rfl
          | runtime => exact absurd kind notRuntime
        obtain ⟨above, isAbove⟩ := List.exists_mem_of_ne_nil _ (lineage.parented draft member needs)
        obtain ⟨holder, there, isGroup⟩ := lineage.parent draft member above isAbove
        have locatedAbove := getElem?_livePlaces_idxOf (lives draft member above isAbove)
        have holderNotRuntime : holder.kind ≠ .runtime := by
          cases isGroup with
          | inl kind => simp [kind]
          | inr kind => simp [kind]
        have rise := height ▸ rises place draft stands above isAbove
        obtain ⟨entry, listed, chain⟩ :=
          ih (rank above) rise locatedAbove there holderNotRuntime rfl
        refine ⟨entry, listed, chain.tail ((hasChild_numbered lives).2 ?_)⟩
        exact isParent_numbered.2 ⟨place, draft, located, stands, above, isAbove, locatedAbove⟩

/-! ## The final drafts -/

theorem ids_numbered : (numbered drafts).chunks.map (·.id) = List.range (numbered drafts).size := by
  refine List.ext_getElem? fun id => ?_
  rw [List.getElem?_map]
  cases found : (numbered drafts).chunks[id]? with
  | none =>
      rw [List.getElem?_eq_none_iff] at found
      exact (List.getElem?_eq_none (by simpa [ChunkGraph.size] using found)).symm
  | some chunk =>
      have inside : id < (numbered drafts).size := (List.getElem?_eq_some_iff.1 found).1
      rw [List.getElem?_range inside, Option.map_some, id_of_getElem?_numbered found]

/-- The numbers of some chunks rise. -/
theorem pairwise_ids_numbered (choose : Chunk → Bool) :
    (((numbered drafts).chunks.filter choose).map (·.id)).Pairwise (· < ·) := by
  have range : ((numbered drafts).chunks.map (·.id)).Pairwise (· < ·) := by
    rw [ids_numbered]
    exact List.pairwise_lt_range
  exact range.sublist (List.filter_sublist.map _)

theorem map_kind_numbered :
    (numbered drafts).chunks.map (·.kind) =
      (drafts.filter fun draft => !isDissolved draft).map (·.kind) :=
  map_chunks_numbered (fun _ _ => rfl) fun _ _ _ => rfl

/-- Leaving drafts out keeps the order of kinds. -/
theorem exists_layout {kinds : List ChunkKind} {a b c : Nat}
    (sublist : kinds.Sublist (kindsInOrder a b c)) :
    ∃ entries onDemand shared, kinds = kindsInOrder entries onDemand shared := by
  obtain ⟨front, back, rfl, frontSublist, backSublist⟩ := List.sublist_append_iff.1 sublist
  obtain ⟨first, second, rfl, firstSublist, secondSublist⟩ := List.sublist_append_iff.1 frontSublist
  obtain ⟨entries, _, rfl⟩ := List.sublist_replicate_iff.1 firstSublist
  obtain ⟨onDemand, _, rfl⟩ := List.sublist_replicate_iff.1 secondSublist
  obtain ⟨shared, _, rfl⟩ := List.sublist_replicate_iff.1 backSublist
  exact ⟨entries, onDemand, shared, rfl⟩

theorem layout_finalDrafts {a b c : Nat}
    (kinds : drafts.map (·.kind) = kindsInOrder a b c) :
    ∃ entries onDemand shared, (numbered (finalDrafts drafts)).chunks.map (·.kind) =
      kindsInOrder entries onDemand shared ++ [.runtime] := by
  have same : (dissolved drafts).map (·.kind) = drafts.map (·.kind) :=
    map_dissolveAll fun _ _ => rfl
  have sublist : (((dissolved drafts).filter fun draft => !isDissolved draft).map (·.kind)).Sublist
      (kindsInOrder a b c) := by
    rw [← kinds, ← same]
    exact List.filter_sublist.map _
  obtain ⟨entries, onDemand, shared, layout⟩ := exists_layout sublist
  refine ⟨entries, onDemand, shared, ?_⟩
  rw [map_kind_numbered, finalDrafts_eq, List.filter_append, List.map_append, layout]
  rfl

/-- The runtime is the only draft of its kind. -/
theorem eq_runtimeDraft (others : ∀ draft ∈ drafts, draft.kind ≠ .runtime) {place : Nat}
    {draft : Draft} (stands : (finalDrafts drafts)[place]? = some draft)
    (isRuntime : draft.kind = .runtime) : draft = runtimeDraft (dissolved drafts) := by
  rcases exists_origin stands with last | ⟨origin, found, same⟩
  · exact last
  · rw [same] at isRuntime
    exact absurd isRuntime (others origin (List.mem_of_getElem? found))

/-- The runtime belongs to the entries among the final drafts. -/
theorem mem_parents_runtimeDraft {place : Nat} :
    place ∈ (runtimeDraft (dissolved drafts)).parents ↔
      ∃ entry, (finalDrafts drafts)[place]? = some entry ∧ entry.kind = .entry := by
  rw [parents_runtimeDraft, mem_places, finalDrafts_eq]
  constructor
  · rintro ⟨entry, there, isEntry⟩
    refine ⟨entry, ?_, of_decide_eq_true isEntry⟩
    rw [List.getElem?_append_left (List.getElem?_eq_some_iff.1 there).1, there]
  · rintro ⟨entry, there, isEntry⟩
    by_cases inside : place < (dissolved drafts).length
    · rw [List.getElem?_append_left inside] at there
      exact ⟨entry, there, decide_eq_true isEntry⟩
    · rw [List.getElem?_append_right (Nat.le_of_not_lt inside)] at there
      obtain rfl := List.mem_singleton.1 (List.mem_of_getElem? there)
      cases isEntry

theorem parents_runtime (lineage : Lineage drafts)
    (others : ∀ draft ∈ drafts, draft.kind ≠ .runtime) {chunk : Chunk}
    (member : chunk ∈ (numbered (finalDrafts drafts)).chunks) (isRuntime : chunk.kind = .runtime) :
    chunk.parents = (numbered (finalDrafts drafts)).entries.map (·.id) := by
  obtain ⟨id, place, draft, located, stands, rfl⟩ := exists_draft_of_mem member
  have same := eq_runtimeDraft others stands isRuntime
  have nodup := lineage.finalDrafts.nodup_parents (List.mem_of_getElem? stands)
  apply List.Pairwise.eq_of_mem_iff (pairwise_renumbered nodup) (pairwise_ids_numbered _)
  intro number
  apply Iff.trans mem_renumbered
  rw [same, List.mem_map]
  constructor
  · rintro ⟨entryPlace, isEntryPlace, numberLocated⟩
    obtain ⟨entry, there, isEntry⟩ := mem_parents_runtimeDraft.1 isEntryPlace
    have foundEntry := getElem?_numbered_of_live numberLocated there
    exact ⟨_, List.mem_filter.2 ⟨List.mem_of_getElem? foundEntry, decide_eq_true isEntry⟩, rfl⟩
  · rintro ⟨chunk, listed, rfl⟩
    obtain ⟨member, isEntry⟩ := List.mem_filter.1 listed
    obtain ⟨number, entryPlace, entry, numberLocated, there, rfl⟩ := exists_draft_of_mem member
    exact ⟨entryPlace, mem_parents_runtimeDraft.2 ⟨entry, there, of_decide_eq_true isEntry⟩,
      numberLocated⟩

theorem wellFormed_finalDrafts (lineage : Lineage drafts) {a b c : Nat}
    (kinds : drafts.map (·.kind) = kindsInOrder a b c) :
    (numbered (finalDrafts drafts)).WellFormed := by
  have others : ∀ draft ∈ drafts, draft.kind ≠ .runtime := by
    intro draft member isRuntime
    have listed : draft.kind ∈ drafts.map (·.kind) := List.mem_map_of_mem member
    rw [kinds, isRuntime] at listed
    simp [kindsInOrder] at listed
  have final := lineage.finalDrafts
  have lives := lineage.parentsLive
  constructor
  case ids => exact ids_numbered
  case layout => exact layout_finalDrafts kinds
  case inverse => exact fun parent child => hasChild_numbered lives
  case parents_ascending =>
    intro chunk member
    obtain ⟨id, place, draft, _, stands, rfl⟩ := exists_draft_of_mem member
    exact pairwise_renumbered (final.nodup_parents (List.mem_of_getElem? stands))
  case children_ascending =>
    intro chunk member
    obtain ⟨id, found⟩ := List.mem_iff_getElem?.1 member
    exact pairwise_children_numbered found
  case acyclic => exact fun id => acyclic_numbered final
  case entry_parents =>
    intro chunk member isEntry
    obtain ⟨id, place, draft, _, stands, rfl⟩ := exists_draft_of_mem member
    have none := final.entry draft (List.mem_of_getElem? stands) isEntry
    refine List.eq_nil_iff_forall_not_mem.2 fun parent isParent => ?_
    obtain ⟨above, isAbove, _⟩ := mem_renumbered.1 isParent
    simp [none] at isAbove
  case leaf_children =>
    intro chunk member leaf
    obtain ⟨id, found⟩ := List.mem_iff_getElem?.1 member
    exact children_eq_nil_of_not_isGroup final found leaf
  case runtime_parents => exact fun chunk => parents_runtime lineage others
  case parented =>
    intro chunk member needs
    obtain ⟨id, place, draft, _, stands, rfl⟩ := exists_draft_of_mem member
    have listed := List.mem_of_getElem? stands
    obtain ⟨above, isAbove⟩ := List.exists_mem_of_ne_nil _ (final.parented draft listed needs)
    exact List.ne_nil_of_mem (mem_renumbered.2
      ⟨above, isAbove, getElem?_livePlaces_idxOf (lives draft listed above isAbove)⟩)
  case reached =>
    intro chunk member needs
    obtain ⟨id, place, draft, located, stands, rfl⟩ := exists_draft_of_mem member
    change draft.kind = .onDemand ∨ draft.kind = .shared at needs
    apply reached_numbered final lives located stands
    cases needs with
    | inl kind => simp [kind]
    | inr kind => simp [kind]

theorem wellFormed_spreadDrafts {graph : ModuleGraph} {rules : List CacheGroup.Rule}
    {limits : Limits} : (numbered (finalDrafts (spreadDrafts graph rules limits))).WellFormed := by
  obtain ⟨entries, onDemand, shared, kinds⟩ := exists_kinds_spreadDrafts
  exact wellFormed_finalDrafts lineage_spreadDrafts kinds

/-- Splitting makes well-formed chunk graphs. -/
theorem wellFormed_of_split {graph : ModuleGraph} {rules : List CacheGroup.Rule} {limits : Limits}
    {reports : List Diagnostic} {chunks : ChunkGraph}
    (made : split graph rules limits = (reports, .ok chunks)) : chunks.WellFormed := by
  obtain ⟨rfl, _⟩ := split_ok made
  exact wellFormed_spreadDrafts

theorem wellFormed_twoPages :
    ∃ reports chunks, split twoPages toolRules {} = (reports, .ok chunks) ∧ chunks.WellFormed := by
  obtain ⟨reports, chunks, made⟩ := exists_split_twoPages
  exact ⟨reports, chunks, made, wellFormed_of_split made⟩

end Chunk

end WebBundle
