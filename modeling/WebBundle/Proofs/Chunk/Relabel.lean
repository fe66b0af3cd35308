import WebBundle.Proofs.Chunk.Partition
import WebBundle.Proofs.LoadGroup.Relabel

/-!
# Splitting under other numbers

Splitting compares the numbers of modules with one another and looks up paths and sizes. So the
drafts of a graph that mirrors another are the drafts of that graph with other numbers, at every
step from the load groups to the chunks, and splitting one graph fails as splitting the other does.
-/

namespace WebBundle

def Chunk.Draft.relabel (number : Nat → Nat) (draft : Draft) : Draft :=
  { draft with modules := draft.modules.map number, roots := draft.roots.map number }

def Chunk.relabel (number : Nat → Nat) (chunk : Chunk) : Chunk :=
  { chunk with modules := chunk.modules.map number, roots := chunk.roots.map number }

def ChunkGraph.relabel (number : Nat → Nat) (chunks : ChunkGraph) : ChunkGraph :=
  ⟨chunks.chunks.map (·.relabel number)⟩

namespace Chunk

open CacheGroup

variable {number : Nat → Nat}

/-! ## What does not read modules -/

section

variable (drafts : List Draft)

theorem getElem?_relabel (place : Nat) :
    (drafts.map (·.relabel number))[place]? = drafts[place]?.map (·.relabel number) :=
  List.getElem?_map

theorem shared_relabel (name : String) (group : Option String) (modules parents : List Nat) :
    Draft.shared name group (drafts.map (·.relabel number)) (modules.map number) parents =
      (Draft.shared name group drafts modules parents).relabel number := by
  have initial : ∀ parent : Nat, (drafts.map (·.relabel number))[parent]?.map (·.initial) =
      drafts[parent]?.map (·.initial) := by
    intro parent
    rw [getElem?_relabel, Option.map_map]
    rfl
  simp only [Draft.shared, initial]
  rfl

theorem sharedName_relabel (parents : List Nat) :
    sharedName (drafts.map (·.relabel number)) parents = sharedName drafts parents := by
  have names : (parents.filterMap fun parent => (drafts.map (·.relabel number))[parent]?).map
      (·.name) = (parents.filterMap fun parent => drafts[parent]?).map (·.name) := by
    simp only [getElem?_relabel, List.map_filterMap, Option.map_map]
    rfl
  simp only [sharedName, names]

theorem isDissolved_relabel (draft : Draft) :
    isDissolved (draft.relabel number) = isDissolved draft := by
  change (decide (draft.kind = .onDemand) && (draft.modules.map number).isEmpty) = _
  rw [List.isEmpty_map, isDissolved]

theorem emptyChunk?_relabel (accepted : List Draft) :
    emptyChunk? (accepted.map (·.relabel number)) (drafts.map (·.relabel number)) =
      emptyChunk? accepted drafts := by
  have drained : ∀ place, drainedBy (accepted.map (·.relabel number)) place =
      drainedBy accepted place := by
    intro place
    rw [drainedBy, List.filter_map, List.map_map]
    rfl
  simp only [emptyChunk?, List.zipIdx_map, List.findSome?_map, drained]
  congr 1
  funext listed
  cases listed
  simp [Draft.relabel]

theorem dissolve_relabel (place : Nat) :
    dissolve (drafts.map (·.relabel number)) place =
      (dissolve drafts place).map (·.relabel number) := by
  unfold dissolve
  rw [getElem?_relabel]
  cases drafts[place]? with
  | none => rfl
  | some gone =>
      simp only [Option.map_some, List.map_map]
      rfl

theorem dissolveAll_relabel (places : List Nat) :
    dissolveAll (drafts.map (·.relabel number)) places =
      (dissolveAll drafts places).map (·.relabel number) := by
  induction places generalizing drafts with
  | nil => rfl
  | cons place places ih =>
      rw [dissolveAll, List.foldl_cons, dissolve_relabel]
      exact ih (dissolve drafts place)

theorem runtimeDraft_relabel :
    runtimeDraft (drafts.map (·.relabel number)) = (runtimeDraft drafts).relabel number := by
  simp [runtimeDraft, Draft.relabel, List.zipIdx_map, List.filterMap_map]

theorem finalDrafts_relabel :
    finalDrafts (drafts.map (·.relabel number)) =
      (finalDrafts drafts).map (·.relabel number) := by
  have places : dissolvedPlaces (drafts.map (·.relabel number)) = dissolvedPlaces drafts := by
    simp [dissolvedPlaces, List.zipIdx_map, List.filterMap_map, isDissolved_relabel]
  simp only [finalDrafts, places, dissolveAll_relabel, runtimeDraft_relabel, List.map_append,
    List.map_cons, List.map_nil]

theorem liveDrafts_relabel :
    liveDrafts (drafts.map (·.relabel number)) = (liveDrafts drafts).map (·.relabel number) := by
  have live : livePlaces (drafts.map (·.relabel number)) = livePlaces drafts := by
    simp [livePlaces, List.zipIdx_map, List.filterMap_map, isDissolved_relabel]
  simp only [liveDrafts, live, getElem?_relabel, List.map_filterMap, Option.map_map]
  rfl

theorem numbered_relabel :
    numbered (drafts.map (·.relabel number)) = (numbered drafts).relabel number := by
  have children : ∀ id, childrenOf ((liveDrafts drafts).map (·.relabel number)) id =
      childrenOf (liveDrafts drafts) id := by
    intro id
    rw [childrenOf, List.zipIdx_map, List.filterMap_map]
    rfl
  rw [numbered, ChunkGraph.relabel, liveDrafts_relabel, numbered]
  congr 1
  refine List.ext_getElem? fun id => ?_
  simp only [List.getElem?_mapIdx, List.getElem?_map, Option.map_map]
  congr 1
  funext draft
  simp only [Function.comp_apply, ofDraft, children]
  rfl

end

/-! ## Modules that move -/

section

variable (injective : Function.Injective number) (drafts : List Draft)

include injective

theorem holders_relabel (module : Nat) :
    holders (drafts.map (·.relabel number)) (number module) = holders drafts module := by
  simp [holders, List.zipIdx_map, List.filterMap_map, Draft.relabel, injective.eq_iff]

theorem seen_relabel : seen (drafts.map (·.relabel number)) = (seen drafts).map number := by
  have flat : (drafts.map (·.relabel number)).flatMap (·.modules) =
      (drafts.flatMap (·.modules)).map number := by
    rw [List.flatMap_map, List.map_flatMap]
    rfl
  rw [seen, flat, eraseDups_map injective, seen]

theorem holdersOfAny_relabel (modules : List Nat) :
    holdersOfAny (drafts.map (·.relabel number)) (modules.map number) =
      holdersOfAny drafts modules := by
  simp only [holdersOfAny, List.flatMap_map, holders_relabel injective]

theorem ruleDraft_relabel (rule : Rule) (modules : List Nat) :
    ruleDraft (drafts.map (·.relabel number)) rule (modules.map number) =
      (ruleDraft drafts rule modules).relabel number := by
  rw [ruleDraft, holdersOfAny_relabel injective, shared_relabel, ruleDraft]

theorem repeated_relabel (taken : List Nat) :
    repeated (drafts.map (·.relabel number)) (taken.map number) =
      (repeated drafts taken).map number := by
  rw [repeated, seen_relabel injective, List.filter_map, repeated]
  congr 1
  refine List.filter_congr fun module _ => ?_
  simp only [Function.comp_apply, List.mem_map_of_injective injective, holders_relabel injective]

theorem dedupDrafts_relabel (taken : List Nat) :
    dedupDrafts (drafts.map (·.relabel number)) (taken.map number) =
      (dedupDrafts drafts taken).map (·.relabel number) := by
  have lists : ∀ modules : List Nat,
      holderLists (drafts.map (·.relabel number)) (modules.map number) =
        holderLists drafts modules := by
    intro modules
    rw [holderLists, List.map_map, holderLists]
    congr 1
    exact List.map_congr_left fun module _ => holders_relabel injective drafts module
  simp only [dedupDrafts, repeated_relabel injective, lists, List.map_map]
  refine List.map_congr_left fun parents _ => ?_
  simp only [Function.comp_apply, ← shared_relabel, sharedName_relabel, List.filter_map]
  congr 2
  refine List.filter_congr fun module _ => ?_
  simp only [Function.comp_apply, holders_relabel injective]

theorem withoutMoved_relabel (moved : List Nat) :
    withoutMoved (drafts.map (·.relabel number)) (moved.map number) =
      (withoutMoved drafts moved).map (·.relabel number) := by
  simp only [withoutMoved, List.map_map]
  refine List.map_congr_left fun draft _ => ?_
  simp only [Function.comp_apply, Draft.relabel, filter_not_mem_map injective]

theorem spread_relabel (shared : List Draft) :
    spread (drafts.map (·.relabel number)) (shared.map (·.relabel number)) =
      (spread drafts shared).map (·.relabel number) := by
  have moved : (shared.map (·.relabel number)).flatMap (·.modules) =
      (shared.flatMap (·.modules)).map number := by
    rw [List.flatMap_map, List.map_flatMap]
    rfl
  rw [spread, moved, withoutMoved_relabel injective, ← List.map_append, spread]

end

end Chunk

end WebBundle
