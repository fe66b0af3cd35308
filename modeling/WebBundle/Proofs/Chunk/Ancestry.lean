import WebBundle.Proofs.Chunk.Dropped
import WebBundle.Proofs.Chunk.HolderSets
import WebBundle.Proofs.LoadGroup.Folding

/-!
# Ancestors of the chunks of groups

Groups without modules are taken out twice: elision empties groups that are folded, and sharing
empties groups that are dissolved. Neither changes which of the other groups lead to each other. So
of the chunks of two groups one is an ancestor of the other exactly if it was so of the groups when
they were found.
-/

namespace WebBundle

open CacheGroup Chunk LoadGroup Relation

namespace ModuleGraph

/-- The group at a place has the chunk with a number: it has the kind, the name and the roots of
the group. The chunks of entries stand in the places of the entries. -/
structure SurvivesAs (graph : ModuleGraph) (chunks : ChunkGraph) (place id : Nat) : Prop where
  chunk : ∃ group chunk, graph.loadGroups[place]? = some group ∧ chunks.chunk? id = some chunk ∧
    chunk.kind = Draft.kindOf group.start ∧ chunk.name = group.name ∧ chunk.roots = group.roots
  entry : place < graph.entries.length → id = place

/-- Taking groups out keeps ancestors: each chunk of an entry or an import is that of one group, and
of two such groups one leads to the other exactly if it did before. After folding, after dissolving
and in the end, what parents are listed are there, each of them once. -/
structure KeepsAncestors (graph : ModuleGraph) (rules : List Rule) (limits : Limits)
    (chunks : ChunkGraph) : Prop where
  survives : ∀ id chunk, chunks.chunk? id = some chunk →
    chunk.kind = .entry ∨ chunk.kind = .onDemand → ∃! place, graph.SurvivesAs chunks place id
  number : ∀ place id id', graph.SurvivesAs chunks place id → graph.SurvivesAs chunks place id' →
    id = id'
  leads : ∀ place id place' id', graph.SurvivesAs chunks place id →
    graph.SurvivesAs chunks place' id' →
      (ReflTransGen chunks.IsParent id id' ↔ graph.groupLinks.Leads place place')
  folded : ∀ placed ∈ graph.placedGroups, placed.parents.Nodup ∧
    ∀ parent ∈ placed.parents, parent < graph.placedGroups.length
  dissolved : ∀ draft ∈ finalDrafts (spreadDrafts graph rules limits), draft.parents.Nodup ∧
    ∀ parent ∈ draft.parents, parent ∈ livePlaces (finalDrafts (spreadDrafts graph rules limits))
  parents : ∀ chunk ∈ chunks.chunks, chunk.parents.Nodup ∧
    ∀ parent ∈ chunk.parents, ∃ place, graph.SurvivesAs chunks place parent

end ModuleGraph

namespace Chunk

/-! ## Heirs -/

section

variable {parents : Nat → List Nat} {gone : List Nat} {source place heir : Nat}

/-- One place is a parent of another once some are gone: it stands for one of its parents. -/
def Succeeds (parents : Nat → List Nat) (gone : List Nat) (above place : Nat) : Prop :=
  ∃ parent ∈ parents place, Heir parents gone parent above

theorem Heir.way (inherits : Heir parents gone place heir) :
    ReflTransGen (fun above below => above ∈ parents below) heir place := by
  induction inherits with
  | stays => exact .refl
  | handed _ isParent _ ih => exact ih.tail isParent

theorem Heir.stays_heir (inherits : Heir parents gone place heir) : heir ∉ gone := by
  induction inherits with
  | stays here => exact here
  | handed _ _ _ ih => exact ih

/-- By induction on the way: it goes on from an heir of the place that it has come to. -/
theorem exists_heir_way (stays : source ∉ gone)
    (way : ReflTransGen (fun above below => above ∈ parents below) source place) :
    ∃ heir, Heir parents gone place heir ∧ ReflTransGen (Succeeds parents gone) source heir := by
  induction way with
  | refl => exact ⟨source, .stays stays, .refl⟩
  | @tail between place _ isParent ih =>
      obtain ⟨heir, inherits, way⟩ := ih
      by_cases left : place ∈ gone
      · exact ⟨heir, .handed left isParent inherits, way⟩
      · exact ⟨place, .stays left, way.tail ⟨between, isParent, inherits⟩⟩

/-- Places that stay lead to each other exactly if they did before. -/
theorem leads_succeeds_iff (stays : source ∉ gone) (stays' : place ∉ gone) :
    ReflTransGen (Succeeds parents gone) source place ↔
      ReflTransGen (fun above below => above ∈ parents below) source place := by
  constructor
  · intro way
    clear stays'
    induction way with
    | refl => exact .refl
    | tail _ succeeds ih =>
        obtain ⟨parent, isParent, inherits⟩ := succeeds
        exact (ih.trans inherits.way).tail isParent
  · intro way
    obtain ⟨heir, inherits, way⟩ := exists_heir_way stays way
    cases inherits with
    | stays => exact way
    | handed left => exact absurd left stays'

end

open ModuleGraph

variable {graph : ModuleGraph} {rules : List Rule} {limits : Limits}
variable {reports : List Diagnostic} {chunks : ChunkGraph}
variable {id id' index index' place place' parent above : Nat}

/-! ## Numbers and places -/

theorem eq_of_kept (located : (kept graph.elidedGroups)[index]? = some place)
    (located' : (kept graph.elidedGroups)[index']? = some place) : index = index' :=
  (List.getElem?_inj (List.getElem?_eq_some_iff.1 located).1 nodup_kept).1
    (located.trans located'.symm)

theorem eq_of_standing (located : (graph.standingGroups chunks)[id]? = some index)
    (located' : (graph.standingGroups chunks)[id']? = some index) : id = id' :=
  (List.getElem?_inj (List.getElem?_eq_some_iff.1 located).1 nodup_places).1
    (located.trans located'.symm)

theorem exists_placed_of_kept (located : (kept graph.elidedGroups)[index]? = some place) :
    ∃ placed group, graph.placedGroups[index]? = some placed ∧
      placed.parents = placeParents (kept graph.elidedGroups) graph.stayingEdges place ∧
        graph.loadGroups[place]? = some group ∧ placed.group.start = group.start ∧
          placed.group.name = group.name ∧ placed.group.roots = group.roots := by
  have member := List.mem_of_getElem? located
  rw [kept_eq_places] at member
  obtain ⟨elided, stands, _⟩ := mem_places.1 member
  obtain ⟨group, found, same⟩ := exists_loadGroup_of_elided stands
  refine ⟨⟨elided, _⟩, group, getElem?_placedGroups.2 ⟨place, located, stands, rfl⟩, rfl, found, ?_⟩
  rw [same]
  exact ⟨start_dropAvailable _ _ _, name_dropAvailable _ _ _, roots_dropAvailable _ _ _⟩

theorem start_loadGroup {group : LoadGroup} (found : graph.loadGroups[place]? = some group) :
    group.start = .entry ↔ place < graph.entries.length := by
  have stands := graph.getElem?_elidedGroups place
  rw [found, Option.map_some] at stands
  rw [← start_elidedGroup stands, start_dropAvailable]

theorem getElem?_kept_of_entry (isEntry : place < graph.entries.length) :
    (kept graph.elidedGroups)[place]? = some place := by
  rw [kept_eq_places]
  refine getElem?_places_of_first (fun other below => ?_) isEntry
  have found := List.getElem?_eq_getElem (Nat.lt_of_lt_of_le below graph.length_entries_le)
  exact ⟨_, found, by simp [isVoid, (start_elidedGroup found).2 below]⟩

theorem getElem?_standing_of_entry (isEntry : place < graph.entries.length) :
    (graph.standingGroups chunks)[place]? = some place := by
  refine getElem?_places_of_first (fun other below => ?_) isEntry
  obtain ⟨placed, group, found, _, stands, start, _⟩ :=
    exists_placed_of_kept (getElem?_kept_of_entry below)
  exact ⟨placed, found, by simp [ChunkGraph.empties, start, (start_loadGroup stands).2 below]⟩

theorem mem_standing_iff : index ∈ graph.standingGroups chunks ↔
    index < graph.placedGroups.length ∧ index ∉ graph.dissolvedGroups chunks := by
  constructor
  · intro stays
    refine ⟨lt_length_of_mem_places stays, fun gone => ?_⟩
    obtain ⟨placed, found, holds⟩ := mem_places.1 stays
    obtain ⟨other, found', empty⟩ := mem_places.1 gone
    obtain rfl := Option.some.inj (found.symm.trans found')
    simp [empty] at holds
  · rintro ⟨inside, stays⟩
    have found := List.getElem?_eq_getElem inside
    refine mem_places.2 ⟨_, found, ?_⟩
    rw [Bool.not_eq_true', ← Bool.not_eq_true]
    exact fun empty => stays (mem_places.2 ⟨_, found, empty⟩)

/-! ## The group of a chunk -/

theorem survivesAs_of_located (made : split graph rules limits = (reports, .ok chunks))
    (located : (kept graph.elidedGroups)[index]? = some place)
    (standing : (graph.standingGroups chunks)[id]? = some index) :
    graph.SurvivesAs chunks place id := by
  obtain ⟨placed, group, found, _, stands, start, name, roots⟩ := exists_placed_of_kept located
  obtain ⟨chunk, _, there, other, found', sameName, kind, sameRoots, _⟩ :=
    exists_isGroupChunk made standing
  obtain rfl := Option.some.inj (found'.symm.trans found)
  refine ⟨⟨group, chunk, stands, there, start ▸ kind, sameName.trans name, sameRoots.trans roots⟩,
    fun isEntry => ?_⟩
  obtain rfl := eq_of_kept located (getElem?_kept_of_entry isEntry)
  exact eq_of_standing standing (getElem?_standing_of_entry isEntry)

/-- A chunk is that of one group. -/
theorem place_eq_of_survivesAs (survives : graph.SurvivesAs chunks place id)
    (survives' : graph.SurvivesAs chunks place' id) : place = place' := by
  obtain ⟨⟨group, chunk, found, there, kind, _, roots⟩, entry⟩ := survives
  obtain ⟨⟨group', chunk', found', there', kind', _, roots'⟩, entry'⟩ := survives'
  obtain rfl := Option.some.inj (there.symm.trans there')
  have alike : group.start = .entry ↔ group'.start = .entry := by
    rw [← Draft.kindOf_eq_entry_iff, ← Draft.kindOf_eq_entry_iff, ← kind, ← kind']
  rw [start_loadGroup found, start_loadGroup found'] at alike
  by_cases isEntry : place < graph.entries.length
  · exact (entry isEntry).symm.trans (entry' (alike.1 isEntry))
  · obtain ⟨number, rfl⟩ := Nat.exists_eq_add_of_le (Nat.le_of_not_lt isEntry)
    obtain ⟨number', rfl⟩ := Nat.exists_eq_add_of_le (Nat.le_of_not_lt (mt alike.2 isEntry))
    rw [getElem?_loadGroups_onDemand, Option.map_eq_some_iff] at found found'
    obtain ⟨target, located, rfl⟩ := found
    obtain ⟨target', located', rfl⟩ := found'
    obtain rfl := List.singleton_inj.1 (roots.symm.trans roots')
    exact (groupStartedBy_of_getElem? located).symm.trans (groupStartedBy_of_getElem? located')

/-- The chunk of an entry or of an import is that of a group that stays. -/
theorem exists_located_of_chunk (made : split graph rules limits = (reports, .ok chunks))
    {chunk : Chunk} (found : chunks.chunk? id = some chunk)
    (isGroup : chunk.kind = .entry ∨ chunk.kind = .onDemand) :
    ∃ index place, (kept graph.elidedGroups)[index]? = some place ∧
      (graph.standingGroups chunks)[id]? = some index := by
  obtain ⟨index, standing, _, placed, stands, _⟩ := exists_standing_of_chunk made found isGroup
  obtain ⟨place, located, _⟩ := getElem?_placedGroups.1 stands
  exact ⟨index, place, located, standing⟩

theorem survivesAs_iff (made : split graph rules limits = (reports, .ok chunks)) :
    graph.SurvivesAs chunks place id ↔ ∃ index : Nat,
      (kept graph.elidedGroups)[index]? = some place ∧
        (graph.standingGroups chunks)[id]? = some index := by
  constructor
  · intro survives
    obtain ⟨group, chunk, _, there, kind, _⟩ := survives.chunk
    have isGroup : chunk.kind = .entry ∨ chunk.kind = .onDemand := by
      rw [kind]
      cases group.start with
      | entry => exact Or.inl rfl
      | onDemand => exact Or.inr rfl
    obtain ⟨index, place', located, standing⟩ := exists_located_of_chunk made there isGroup
    obtain rfl := place_eq_of_survivesAs survives (survivesAs_of_located made located standing)
    exact ⟨index, located, standing⟩
  · rintro ⟨index, located, standing⟩
    exact survivesAs_of_located made located standing

/-! ## Parents -/

theorem mem_groupParents_iff (located : (kept graph.elidedGroups)[index]? = some place) :
    above ∈ graph.groupParents index ↔
      ∃ parent, Joined graph.stayingEdges parent place ∧
        (kept graph.elidedGroups)[above]? = some parent := by
  obtain ⟨placed, _, found, parents, _⟩ := exists_placed_of_kept located
  rw [groupParents, found]
  change above ∈ placed.parents ↔ _
  rw [parents]
  exact mem_placeParents

/-- The parents of the chunk of a group are those of the groups that stand for the parents of the
group. -/
theorem isParent_iff (made : split graph rules limits = (reports, .ok chunks))
    (standing : (graph.standingGroups chunks)[id]? = some index) :
    chunks.IsParent parent id ↔
      ∃ above, Succeeds graph.groupParents (graph.dissolvedGroups chunks) above index ∧
        (graph.standingGroups chunks)[parent]? = some above := by
  obtain ⟨placed, found, _⟩ := mem_places.1 (List.mem_of_getElem? standing)
  have inside := (List.getElem?_eq_some_iff.1 found).1
  have drafted : (spreadDrafts graph rules limits)[index]? = some (movedGroup chunks placed) := by
    rw [spreadDrafts_eq made, List.getElem?_append_left (by simpa using inside), List.getElem?_map,
      found]
    rfl
  have known : graph.groupParents index = placed.parents := by rw [groupParents, found]
  obtain ⟨parents, final, _, exactly⟩ := lineage_spreadDrafts.exists_heirs_finalDrafts drafted
  -- The parents that are left stand for those that the group had.
  have heirs : ∀ above, above ∈ parents ↔
      Succeeds graph.groupParents (graph.dissolvedGroups chunks) above index := by
    intro above
    rw [exactly above, Succeeds, known]
    exact exists_congr fun _ => and_congr_right fun _ => heir_iff_standsFor made
  have live := (getElem?_livePlaces made inside).2 standing
  have bound : ∀ above ∈ parents, above < graph.placedGroups.length := by
    intro above isParent
    obtain ⟨_, listed, inherits⟩ := (heirs above).1 isParent
    exact lt_length_of_standsFor inherits (lt_length_of_mem_groupParents listed)
  rw [(split_ok made).1, isParent_numbered, ← (split_ok made).1]
  constructor
  · rintro ⟨place, draft, live', stands, above, isParent, located⟩
    obtain rfl := Option.some.inj (live'.symm.trans live)
    obtain rfl := Option.some.inj (stands.symm.trans final)
    exact ⟨above, (heirs above).1 isParent,
      (getElem?_livePlaces made (bound above isParent)).1 located⟩
  · rintro ⟨above, succeeds, located⟩
    have isParent := (heirs above).2 succeeds
    exact ⟨index, _, live, final, above, isParent,
      (getElem?_livePlaces made (bound above isParent)).2 located⟩

/-! ## Ways -/

/-- Whoever stands for a group has a chunk, which is a parent. -/
theorem exists_isParent_of_succeeds (made : split graph rules limits = (reports, .ok chunks))
    (succeeds : Succeeds graph.groupParents (graph.dissolvedGroups chunks) above index)
    (standing : (graph.standingGroups chunks)[id]? = some index) :
    ∃ parent : Nat, (graph.standingGroups chunks)[parent]? = some above ∧
      chunks.IsParent parent id := by
  obtain ⟨parent, listed, inherits⟩ := succeeds
  have stays : above ∈ graph.standingGroups chunks := mem_standing_iff.2
    ⟨lt_length_of_standsFor inherits (lt_length_of_mem_groupParents listed), inherits.stays_heir⟩
  obtain ⟨number, located⟩ := List.mem_iff_getElem?.1 stays
  exact ⟨number, located,
    (isParent_iff made standing).2 ⟨above, ⟨parent, listed, inherits⟩, located⟩⟩

/-- The chunks of groups lead to each other as the groups do after folding. -/
theorem leads_standing_iff (made : split graph rules limits = (reports, .ok chunks))
    (standing : (graph.standingGroups chunks)[id]? = some index)
    (standing' : (graph.standingGroups chunks)[id']? = some index') :
    ReflTransGen chunks.IsParent id id' ↔
      ReflTransGen (fun above below => above ∈ graph.groupParents below) index index' := by
  have stays := (mem_standing_iff.1 (List.mem_of_getElem? standing)).2
  have stays' := (mem_standing_iff.1 (List.mem_of_getElem? standing')).2
  rw [← leads_succeeds_iff stays stays']
  constructor
  · intro way
    have back : ∀ parent id index : Nat, chunks.IsParent parent id →
        (graph.standingGroups chunks)[id]? = some index →
          ∃ above : Nat, (graph.standingGroups chunks)[parent]? = some above ∧
            Succeeds graph.groupParents (graph.dissolvedGroups chunks) above index := by
      intro parent id index isParent standing
      obtain ⟨above, succeeds, located⟩ := (isParent_iff made standing).1 isParent
      exact ⟨above, located, succeeds⟩
    obtain ⟨origin, located, way⟩ := exists_matched_way back way standing'
    obtain rfl := Option.some.inj (located.symm.trans standing)
    exact way
  · intro way
    have back : ∀ above index id : Nat,
        Succeeds graph.groupParents (graph.dissolvedGroups chunks) above index →
          (graph.standingGroups chunks)[id]? = some index →
            ∃ parent : Nat, (graph.standingGroups chunks)[parent]? = some above ∧
              chunks.IsParent parent id :=
      fun _ _ _ => exists_isParent_of_succeeds made
    obtain ⟨origin, located, way⟩ := exists_matched_way back way standing'
    obtain rfl := eq_of_standing located standing
    exact way

/-- The groups after folding lead to each other as all groups do. -/
theorem leads_kept_iff (located : (kept graph.elidedGroups)[index]? = some place)
    (located' : (kept graph.elidedGroups)[index']? = some place') :
    ReflTransGen (fun above below => above ∈ graph.groupParents below) index index' ↔
      graph.groupLinks.Leads place place' := by
  have joined : Joined graph.groupEdges = graph.groupLinks.Follows := by
    funext source target
    exact propext follows_groupLinks.symm
  rw [Links.Leads, ← joined, ← leads_stayingEdges_iff (List.mem_of_getElem? located)
    (List.mem_of_getElem? located')]
  constructor
  · intro way
    have back : ∀ above index place : Nat, above ∈ graph.groupParents index →
        (kept graph.elidedGroups)[index]? = some place →
          ∃ parent : Nat, (kept graph.elidedGroups)[above]? = some parent ∧
            Joined graph.stayingEdges parent place := by
      intro above index place isParent located
      obtain ⟨parent, edge, found⟩ := (mem_groupParents_iff located).1 isParent
      exact ⟨parent, found, edge⟩
    obtain ⟨origin, found, way⟩ := exists_matched_way back way located'
    obtain rfl := Option.some.inj (found.symm.trans located)
    exact way
  · intro way
    have back : ∀ parent place index : Nat, Joined graph.stayingEdges parent place →
        (kept graph.elidedGroups)[index]? = some place →
          ∃ above : Nat, (kept graph.elidedGroups)[above]? = some parent ∧
            above ∈ graph.groupParents index := by
      intro parent place index edge located
      obtain ⟨above, found⟩ := List.mem_iff_getElem?.1 (parent_mem_kept edge)
      exact ⟨above, found, (mem_groupParents_iff located).2 ⟨parent, edge, found⟩⟩
    obtain ⟨origin, found, way⟩ := exists_matched_way back way located'
    obtain rfl := eq_of_kept found located
    exact way

/-- A parent of a chunk is the chunk of a group. -/
theorem exists_survivesAs_of_parent (made : split graph rules limits = (reports, .ok chunks))
    {chunk : Chunk} (listed : chunk ∈ chunks.chunks) (isParent : parent ∈ chunk.parents) :
    ∃ place, graph.SurvivesAs chunks place parent := by
  have wellFormed := wellFormed_of_split made
  have child := wellFormed.chunk?_id listed
  obtain ⟨holder, found, hasChild⟩ := (wellFormed.inverse _ _).2 ⟨chunk, child, isParent⟩
  have inner : holder.children ≠ [] := List.ne_nil_of_mem hasChild
  have isGroup : holder.kind = .entry ∨ holder.kind = .onDemand := by
    cases kind : holder.kind with
    | entry => exact Or.inl rfl
    | onDemand => exact Or.inr rfl
    | shared =>
        exact absurd (wellFormed.leaf_children _ (List.mem_of_getElem? found) (Or.inl kind)) inner
    | runtime =>
        exact absurd (wellFormed.leaf_children _ (List.mem_of_getElem? found) (Or.inr kind)) inner
  obtain ⟨index, place, located, standing⟩ := exists_located_of_chunk made found isGroup
  exact ⟨place, survivesAs_of_located made located standing⟩

/-- Taking out the groups that lost their modules keeps ancestors. -/
theorem keepsAncestors_of_split (made : split graph rules limits = (reports, .ok chunks)) :
    graph.KeepsAncestors rules limits chunks := by
  constructor
  case survives =>
    intro id chunk found isGroup
    obtain ⟨index, place, located, standing⟩ := exists_located_of_chunk made found isGroup
    have survives := survivesAs_of_located made located standing
    exact ⟨place, survives, fun other survives' => place_eq_of_survivesAs survives' survives⟩
  case number =>
    intro place id id' survives survives'
    obtain ⟨index, located, standing⟩ := (survivesAs_iff made).1 survives
    obtain ⟨index', located', standing'⟩ := (survivesAs_iff made).1 survives'
    obtain rfl := eq_of_kept located located'
    exact eq_of_standing standing standing'
  case leads =>
    intro place id place' id' survives survives'
    obtain ⟨index, located, standing⟩ := (survivesAs_iff made).1 survives
    obtain ⟨index', located', standing'⟩ := (survivesAs_iff made).1 survives'
    exact (leads_standing_iff made standing standing').trans (leads_kept_iff located located')
  case folded =>
    intro placed listed
    obtain ⟨index, found⟩ := List.mem_iff_getElem?.1 listed
    obtain ⟨place, _, _, parents⟩ := getElem?_placedGroups.1 found
    have known : graph.groupParents index = placed.parents := by rw [groupParents, found]
    refine ⟨?_, fun parent isParent => lt_length_of_mem_groupParents (known ▸ isParent)⟩
    rw [parents]
    exact nodup_of_pairwise_lt (pairwise_placeParents place)
  case dissolved =>
    intro draft listed
    exact ⟨lineage_spreadDrafts.finalDrafts.nodup_parents listed,
      lineage_spreadDrafts.parentsLive draft listed⟩
  case parents =>
    intro chunk listed
    exact ⟨nodup_of_pairwise_lt ((wellFormed_of_split made).parents_ascending chunk listed),
      fun parent => exists_survivesAs_of_parent made listed⟩

/-- The gallery loads the shell on demand, which the page has already, the shell the viewer, which
the panel needs too, and the viewer what prints. -/
def galleryPages : ModuleGraph where
  root := "/app"
  modules := ⟨#[
    moduleAt 0 "main.js" [⟨1, .sync, "./shell"⟩, ⟨2, .async, "./gallery"⟩, ⟨4, .async, "./panel"⟩],
    moduleAt 1 "shell.js" [⟨3, .async, "./viewer"⟩],
    moduleAt 2 "gallery.js" [⟨1, .async, "./shell"⟩],
    moduleAt 3 "viewer.js" [⟨5, .async, "./print"⟩],
    moduleAt 4 "panel.js" [⟨3, .sync, "./viewer"⟩],
    moduleAt 5 "print.js" []]⟩
  entries := [⟨"main", [0]⟩]

theorem split_galleryPages :
    let chunks := numbered (finalDrafts (spreadDrafts galleryPages [] {}))
    (galleryPages.dissolvedGroups chunks, chunks.chunks.map (·.parents)) =
      ([3], [[], [0], [0], [0, 1, 2], [0, 1, 2], [0]]) := by
  cbv

/-- The shell is folded and the viewer is dissolved, and the gallery leads to what prints. -/
theorem keepsAncestors_galleryPages :
    ∃ reports chunks, split galleryPages [] {} = (reports, .ok chunks) ∧
      galleryPages.KeepsAncestors [] {} chunks ∧ folded galleryPages.elidedGroups = [4] ∧
        galleryPages.dissolvedGroups chunks = [3] ∧
          chunks.chunks.map (·.parents) = [[], [0], [0], [0, 1, 2], [0, 1, 2], [0]] := by
  obtain ⟨reports, chunks, made⟩ := exists_split_of_no_rules galleryPages {}
  obtain ⟨dissolved, parents⟩ := Prod.mk.inj split_galleryPages
  rw [← (split_ok made).1] at dissolved parents
  exact ⟨reports, chunks, made, keepsAncestors_of_split made, by cbv, dissolved, parents⟩

end Chunk

end WebBundle
