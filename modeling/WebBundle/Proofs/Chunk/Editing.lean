import WebBundle.Proofs.Chunk.Partition
import WebBundle.Proofs.Chunk.Rendering
import WebBundle.Proofs.Digest.Stream
import WebBundle.Proofs.Text.Pieces

/-!
# Editing a module

New content for a module changes no import, so the modules are split as before. Written chunks show
the code of their own modules and no other, and the runtime shows the file names of the chunks that
are not those of entries. So an edit changes the chunk of the module, and the runtime if that chunk
is fetched on demand.
-/

namespace WebBundle

namespace EmittedChunk

section

variable (emission : Emission) (graph : ModuleGraph) (chunks : ChunkGraph)
  (emitted : List EmittedChunk) (chunk : Chunk)

@[simp] theorem ofChunk_id : (ofChunk emission graph chunks chunk).id = chunk.id := rfl
@[simp] theorem ofChunk_name : (ofChunk emission graph chunks chunk).name = chunk.name := rfl
@[simp] theorem ofChunk_kind : (ofChunk emission graph chunks chunk).kind = chunk.kind := rfl
@[simp] theorem ofRuntime_id : (ofRuntime emission emitted chunk).id = chunk.id := rfl
@[simp] theorem ofRuntime_name : (ofRuntime emission emitted chunk).name = chunk.name := rfl
@[simp] theorem ofRuntime_kind : (ofRuntime emission emitted chunk).kind = chunk.kind := rfl

end

/-- The stream of bytes that the digest of a chunk is taken of. -/
def digestedStream (graph : ModuleGraph) (chunks : ChunkGraph) (chunk : Chunk) : List UInt8 :=
  ContentDigest.stream ((digested graph chunks chunk).map fun text => text.toUTF8.toList)

theorem digest_ofChunk (emission : Emission) (graph : ModuleGraph) (chunks : ChunkGraph)
    (chunk : Chunk) : (ofChunk emission graph chunks chunk).digest =
      .ofBytes ⟨(digestedStream graph chunks chunk).toArray⟩ := rfl

/-- An edit of a module leaves a script as it is: it is not that of the chunk of the module, and if
it is the runtime, that chunk belongs to an entry. -/
def Untouched (chunks : ChunkGraph) (edited : Nat) (script : EmittedChunk) : Prop :=
  ∀ holder, chunks.chunkOf? edited = some holder →
    (script.kind ≠ .runtime → script.id ≠ holder.id) ∧
      (script.kind = .runtime → holder.kind = .entry)

/-- A script before and after an edit of a module. -/
structure EditedTo (chunks : ChunkGraph) (edited : Nat) (before after : EmittedChunk) : Prop where
  id : after.id = before.id
  name : after.name = before.name
  kind : after.kind = before.kind
  untouched : before.Untouched chunks edited → after = before

/-- The runtime is made from the files and the names of the other chunks. -/
theorem ofRuntime_congr (emission : Emission) {emitted others : List EmittedChunk}
    (files : filesOnDemand others = filesOnDemand emitted)
    (names : others.map (·.name) = emitted.map (·.name)) (chunk : Chunk) :
    ofRuntime emission others chunk = ofRuntime emission emitted chunk := by
  have text : runtimeText emission others = runtimeText emission emitted := by
    rw [runtimeText, files, runtimeText]
  rw [ofRuntime, runtimeDigested, text, names, ofRuntime, runtimeDigested]

end EmittedChunk

namespace ModuleGraph

open CacheGroup Chunk EmittedChunk

variable (graph : ModuleGraph) (edited : Nat) (content : ByteArray)

/-! ## The edited graph -/

theorem module?_setContent (place : Nat) :
    (graph.setContent edited content).module? place =
      (graph.module? place).map fun module =>
        if edited = place then { module with content } else module := by
  change (graph.modules.items.modify edited fun module => { module with content })[place]? = _
  rw [Array.getElem?_modify]
  split
  next => rfl
  next => exact Option.map_id'.symm

theorem mirrors_setContent : Mirrors id graph (graph.setContent edited content) := by
  constructor
  case entries => simp [setContent, Entry.relabel]
  case modules =>
    intro place _
    rw [id_eq, module?_setContent]
    cases graph.module? place with
    | none => exact .none
    | some module =>
        refine .some ?_
        split
        · exact ⟨rfl, rfl, by simp [Dependency.relabel]⟩
        · exact ⟨rfl, rfl, by simp [Dependency.relabel]⟩

theorem sizeOf_setContent_of_ne {place : Nat} (other : edited ≠ place) :
    Chunk.sizeOf (graph.setContent edited content) place = Chunk.sizeOf graph place := by
  rw [Chunk.sizeOf, module?_setContent, Chunk.sizeOf]
  cases graph.module? place with
  | none => rfl
  | some module => simp [other]

theorem sameBody_setContent_of_ne {place : Nat} (other : edited ≠ place) :
    Chunk.SameBody id graph (graph.setContent edited content) place := by
  rw [Chunk.SameBody, id_eq, module?_setContent]
  simp [other]

/-! ## Splitting -/

variable {graph edited content} {rules : List Rule} {limits : Limits}

theorem danglingModules_setContent (drafts : List Draft) :
    danglingModules (graph.setContent edited content) drafts = danglingModules graph drafts := by
  have reported : ∀ graph : ModuleGraph, danglingModules graph drafts =
      ((graph.modules.toList.map fun module => (module.id, danglingDiagnostic module)).filter
        fun report => report.1 ∉ drafts.flatMap (·.modules)).map (·.2) := by
    intro graph
    rw [List.filter_map, List.map_map]
    rfl
  have same : (graph.setContent edited content).modules.toList.map
        (fun module => (module.id, danglingDiagnostic module)) =
      graph.modules.toList.map fun module => (module.id, danglingDiagnostic module) := by
    refine List.ext_getElem? fun place => ?_
    have stored : ∀ graph : ModuleGraph, graph.modules.toList[place]? = graph.module? place := by
      intro graph
      simp [ModuleGraph.module?, Arena.get?, Arena.toList]
    rw [List.getElem?_map, List.getElem?_map, stored, stored, module?_setContent, Option.map_map]
    congr 1
    funext module
    simp only [Function.comp_apply]
    split
    · rfl
    · rfl
  rw [reported, same, ← reported]

/-- An edit that cache groups do not see leaves the chunks and the reports as they are. -/
theorem split_setContent (unseen : limits.minSize = 0 ∨
      sizeOf (graph.setContent edited content) edited = sizeOf graph edited) :
    split (graph.setContent edited content) rules limits = split graph rules limits := by
  have mirrors := graph.mirrors_setContent edited content
  have sizes : SizesAgree limits id graph (graph.setContent edited content) := by
    refine unseen.imp_right fun same place _ => ?_
    by_cases other : edited = place
    · rw [← other]
      exact same
    · exact graph.sizeOf_setContent_of_ne edited content other
  have drafts : ∀ drafts : List Draft, drafts.map (·.relabel id) = drafts := by
    simp [Draft.relabel]
  have claims : ∀ claims : List Claim, claims.map (Claim.relabel id) = claims :=
    fun claims => List.map_id claims
  rw [split_eq, split_eq, cacheGroupDrafts_mirrored Function.injective_id mirrors sizes,
    spreadDrafts_mirrored Function.injective_id mirrors sizes,
    claims_groupDrafts_mirrored Function.injective_id mirrors,
    groupDrafts_mirrored Function.injective_id mirrors, danglingModules_setContent, drafts, drafts,
    drafts, claims]

/-! ## Written chunks -/

theorem chunk_relabel_id (chunk : Chunk) : chunk.relabel id = chunk := by
  simp [Chunk.relabel]

theorem relabel_id (chunks : ChunkGraph) : chunks.relabel id = chunks := by
  simp [ChunkGraph.relabel, Chunk.relabel]

variable {chunks : ChunkGraph}

section

variable (within : chunks.Within graph)

include within

theorem missingTarget?_setContent :
    missingTarget? (graph.setContent edited content) chunks = missingTarget? graph chunks := by
  have same := (graph.mirrors_setContent edited content).missingTarget? within
  rw [relabel_id] at same
  exact same.trans Option.map_id'

theorem ofChunk_setContent (emission : Emission) {chunk : Chunk} (listed : chunk ∈ chunks.chunks)
    (apart : edited ∉ chunk.modules) :
    ofChunk emission (graph.setContent edited content) chunks chunk =
      ofChunk emission graph chunks chunk := by
  have sameBody : ∀ place ∈ chunk.modules,
      SameBody id graph (graph.setContent edited content) place := by
    intro place held
    refine graph.sameBody_setContent_of_ne edited content ?_
    rintro rfl
    exact apart held
  have same := ofChunk_mirrored emission Function.injective_id
    (graph.mirrors_setContent edited content) within listed sameBody
  rwa [relabel_id, chunk_relabel_id] at same

/-- If only entries hold the module, the files that are fetched on demand keep their names. -/
theorem filesOnDemand_setContent (emission : Emission)
    (entries : ∀ chunk ∈ chunks.chunks, edited ∈ chunk.modules → chunk.kind = .entry)
    {listed : List Chunk} (inside : listed ⊆ chunks.chunks) :
    filesOnDemand (listed.map (ofChunk emission (graph.setContent edited content) chunks)) =
      filesOnDemand (listed.map (ofChunk emission graph chunks)) := by
  have files : ∀ graph : ModuleGraph,
      (((listed.map (ofChunk emission graph chunks)).filter fun script =>
          script.kind ≠ .entry).map fun script => (script.name, script.fileName)) =
        (listed.filter fun chunk => chunk.kind ≠ .entry).map fun chunk =>
          (chunk.name, (ofChunk emission graph chunks chunk).fileName) := by
    intro graph
    rw [List.filter_map, List.map_map]
    rfl
  have same : (listed.filter fun chunk => chunk.kind ≠ .entry).map (fun chunk =>
        (chunk.name, (ofChunk emission (graph.setContent edited content) chunks chunk).fileName)) =
      (listed.filter fun chunk => chunk.kind ≠ .entry).map fun chunk =>
        (chunk.name, (ofChunk emission graph chunks chunk).fileName) := by
    refine List.map_congr_left fun chunk member => ?_
    obtain ⟨there, notEntry⟩ := List.mem_filter.1 member
    have apart : edited ∉ chunk.modules := fun held =>
      of_decide_eq_true notEntry (entries chunk (inside there) held)
    rw [ofChunk_setContent within emission (inside there) apart]
  simp only [filesOnDemand, files, same]

variable (nodup : (chunks.chunks.flatMap (·.modules)).Nodup)

include nodup

theorem editedTo_ofChunk (emission : Emission) {chunk : Chunk} (listed : chunk ∈ chunks.chunks)
    (notRuntime : chunk.kind ≠ .runtime) :
    EditedTo chunks edited (ofChunk emission graph chunks chunk)
      (ofChunk emission (graph.setContent edited content) chunks chunk) := by
  refine ⟨by simp, by simp, by simp, fun untouched => ?_⟩
  refine ofChunk_setContent within emission listed fun held => ?_
  have holds := ChunkGraph.chunkOf?_eq_some nodup listed held
  exact (untouched chunk holds).1 (by simpa using notRuntime) (by simp)

theorem editedTo_ofRuntime (emission : Emission) {listed : List Chunk}
    (inside : listed ⊆ chunks.chunks) {chunk : Chunk} (isRuntime : chunk.kind = .runtime) :
    EditedTo chunks edited
      (ofRuntime emission (listed.map (ofChunk emission graph chunks)) chunk)
      (ofRuntime emission
        (listed.map (ofChunk emission (graph.setContent edited content) chunks)) chunk) := by
  refine ⟨by simp, by simp, by simp, fun untouched => ofRuntime_congr emission ?_ ?_ chunk⟩
  · refine filesOnDemand_setContent within emission (fun other there held => ?_) inside
    have holds := ChunkGraph.chunkOf?_eq_some nodup there held
    exact (untouched other holds).2 (by simpa using isRuntime)
  · simp only [List.map_map, Function.comp_def, ofChunk_name]

theorem forall₂_editedTo (emission : Emission) :
    List.Forall₂ (EditedTo chunks edited) (all emission graph chunks)
      (all emission (graph.setContent edited content) chunks) := by
  apply List.rel_append
  · rw [List.forall₂_map_left_iff, List.forall₂_map_right_iff, List.forall₂_same]
    intro chunk member
    obtain ⟨listed, notRuntime⟩ := List.mem_filter.1 member
    exact editedTo_ofChunk within nodup emission listed (of_decide_eq_true notRuntime)
  · rw [List.forall₂_map_left_iff, List.forall₂_map_right_iff, List.forall₂_same]
    intro chunk member
    exact editedTo_ofRuntime within nodup emission (List.filter_subset_self _)
      (of_decide_eq_true (List.mem_filter.1 member).2)

end

/-! ## The chunk of the module -/

theorem dependencyTable_setContent {dependencies : List Dependency}
    (reachable : ∀ dependency ∈ dependencies, graph.Reachable dependency.target) :
    dependencyTable (graph.setContent edited content) chunks dependencies =
      dependencyTable graph chunks dependencies := by
  have same := dependencyTable_mirrored chunks Function.injective_id
    (graph.mirrors_setContent edited content) reachable
  have unchanged : dependencies.map (·.relabel id) = dependencies := by
    simp [Dependency.relabel]
  rwa [relabel_id, unchanged] at same

theorem startText_setContent {chunk : Chunk} (roots : ∀ id ∈ chunk.roots, graph.Reachable id) :
    startText (graph.setContent edited content) chunks chunk = startText graph chunks chunk := by
  have same := startText_mirrored chunks (graph.mirrors_setContent edited content) roots
  rwa [relabel_id, chunk_relabel_id] at same

/-- Modules other than the edited one are written as before. -/
theorem texts_setContent {places : List Nat} (reachable : ∀ place ∈ places, graph.Reachable place)
    (apart : edited ∉ places) :
    (places.filterMap (graph.setContent edited content).module?).map
        (moduleText (graph.setContent edited content) chunks) =
      (places.filterMap graph.module?).map (moduleText graph chunks) := by
  rw [List.map_filterMap, List.map_filterMap]
  refine List.filterMap_congr fun place member => ?_
  have other : edited ≠ place := by
    rintro rfl
    exact apart member
  have same := moduleText_mirrored chunks Function.injective_id
    (graph.mirrors_setContent edited content) (reachable place member)
    (graph.sameBody_setContent_of_ne edited content other)
  rwa [relabel_id] at same

/-- The edited module shows its code, between what the edit does not change. -/
theorem exists_moduleText_eq (chunks : ChunkGraph) (content : ByteArray)
    (reachable : graph.Reachable edited) {module : Module}
    (found : graph.module? edited = some module) :
    ∃ front back, moduleText graph chunks module = front ++ moduleBody module ++ back ∧
      moduleText (graph.setContent edited content) chunks { module with content } =
        front ++ moduleBody { module with content } ++ back := by
  have targets : ∀ dependency ∈ module.dependencies, graph.Reachable dependency.target := by
    intro dependency member
    exact reachable.imports ⟨dependency, by simpa [ModuleGraph.dependencies, found], rfl⟩
  refine ⟨Json.quoted module.key ++ ": [function (module, exports, require) \x7b\n",
    "\n\x7d, " ++ (dependencyTable graph chunks module.dependencies).render ++ "]", ?_, ?_⟩
  · simp only [moduleText, String.append_assoc]
  · simp only [moduleText, dependencyTable_setContent targets, String.append_assoc]
    rfl

theorem modulesText_of_map_eq {modules : List Module} {before after : List String} {text : String}
    (texts : modules.map (moduleText graph chunks) = before ++ text :: after) :
    modulesText graph chunks modules = ",\n".intercalate (before ++ text :: after) ++ "\n" := by
  rw [modulesText_eq, texts]
  cases before with
  | nil => rfl
  | cons first before => rfl

/-- So does the chunk of the module. -/
theorem exists_text_eq (content : ByteArray) {chunk : Chunk}
    (roots : ∀ id ∈ chunk.roots, graph.Reachable id)
    (modules : ∀ id ∈ chunk.modules, graph.Reachable id) (nodup : chunk.modules.Nodup)
    (held : edited ∈ chunk.modules) {module : Module}
    (found : graph.module? edited = some module) :
    ∃ front back, text graph chunks chunk = front ++ moduleBody module ++ back ∧
      text (graph.setContent edited content) chunks chunk =
        front ++ moduleBody { module with content } ++ back := by
  obtain ⟨before, after, listed⟩ := List.append_of_mem held
  rw [listed, List.nodup_middle, List.nodup_cons, List.mem_append, not_or] at nodup
  obtain ⟨⟨notBefore, notAfter⟩, _⟩ := nodup
  rw [listed] at modules
  have changed : (graph.setContent edited content).module? edited =
      some { module with content } := by
    rw [module?_setContent, found, Option.map_some, if_pos rfl]
  obtain ⟨start, rest, shown, shown'⟩ :=
    exists_moduleText_eq chunks content (modules edited (by simp)) found
  obtain ⟨front, back, joined⟩ := Text.exists_intercalate_eq ",\n"
    ((before.filterMap graph.module?).map (moduleText graph chunks))
    ((after.filterMap graph.module?).map (moduleText graph chunks))
  have written : modulesText graph chunks (chunk.modules.filterMap graph.module?) =
      front ++ (start ++ moduleBody module ++ rest) ++ back ++ "\n" := by
    rw [modulesText_of_map_eq (by
      rw [listed, List.filterMap_append, List.filterMap_cons_some found, List.map_append,
        List.map_cons]), joined, shown]
  have rewritten : modulesText (graph.setContent edited content) chunks
        (chunk.modules.filterMap (graph.setContent edited content).module?) =
      front ++ (start ++ moduleBody { module with content } ++ rest) ++ back ++ "\n" := by
    rw [modulesText_of_map_eq (by
      rw [listed, List.filterMap_append, List.filterMap_cons_some changed, List.map_append,
        List.map_cons, texts_setContent (fun place member => modules place (by simp [member]))
          notBefore,
        texts_setContent (fun place member => modules place (by simp [member])) notAfter]),
      joined, shown']
  refine ⟨"(" ++ queue ++ " = " ++ queue ++ " || []).push([" ++ (names [chunk.name]).render ++
    ", \x7b\n" ++ front ++ start,
    rest ++ back ++ "\n" ++ "\x7d" ++ startText graph chunks chunk ++ "]);\n", ?_, ?_⟩
  · rw [Chunk.text, written]
    simp only [String.append_assoc]
  · rw [Chunk.text, rewritten, startText_setContent roots]
    simp only [String.append_assoc]

/-- Other code makes the digest one of other bytes. -/
theorem digestedStream_ne (within : chunks.Within graph)
    (nodup : (chunks.chunks.flatMap (·.modules)).Nodup) {holder : Chunk}
    (holds : chunks.chunkOf? edited = some holder)
    (differs : ((graph.setContent edited content).module? edited).map moduleBody ≠
      (graph.module? edited).map moduleBody) :
    digestedStream (graph.setContent edited content) chunks holder ≠
      digestedStream graph chunks holder := by
  intro same
  apply differs
  rw [module?_setContent, Option.map_map]
  cases found : graph.module? edited with
  | none => rfl
  | some module =>
      have listed := List.mem_of_find?_eq_some holds
      have held : edited ∈ holder.modules := by simpa using List.find?_some holds
      obtain ⟨front, back, shown, shown'⟩ := exists_text_eq content
        (within.roots holder listed) (within.modules holder listed)
        ((List.nodup_flatMap.1 nodup).1 holder listed) held found
      rw [digestedStream, digested, List.map_cons, digestedStream, digested, List.map_cons,
        ContentDigest.stream_cons_inj, toUTF8_toList_inj, shown, shown', String.append_left_inj,
        String.append_right_inj] at same
      rw [Option.map_some, Option.map_some, Function.comp_apply, if_pos rfl, same]

/-- What a new content of a module changes in the written chunks, and what it leaves. -/
structure EditStaysLocal (graph changed : ModuleGraph) (edited : Nat) (chunks : ChunkGraph) :
    Prop where
  written : ∀ emission written, emit emission graph chunks = .ok written →
    ∃ rewritten, emit emission changed chunks = .ok rewritten ∧
      List.Forall₂ (EditedTo chunks edited) written rewritten
  failed : ∀ emission missing, emit emission graph chunks = .error missing →
    emit emission changed chunks = .error missing
  digested : ∀ holder, chunks.chunkOf? edited = some holder →
    (changed.module? edited).map moduleBody ≠ (graph.module? edited).map moduleBody →
      digestedStream changed chunks holder ≠ digestedStream graph chunks holder

/-- An edit of a module splits the graph as before, as long as no size is asked for or that of the
module stays, and it changes no chunks but that of the module and perhaps the runtime. -/
theorem editStaysLocal_of_split {groups : List CacheGroup}
    (compiled : Rule.ofGroups groups = .ok rules)
    (unseen : limits.minSize = 0 ∨
      sizeOf (graph.setContent edited content) edited = sizeOf graph edited) :
    split (graph.setContent edited content) rules limits = split graph rules limits ∧
      ∀ reports chunks, split graph rules limits = (reports, .ok chunks) →
        EditStaysLocal graph (graph.setContent edited content) edited chunks := by
  refine ⟨split_setContent unseen, fun reports chunks made => ?_⟩
  have within := within_of_split made
  have nodup : (chunks.chunks.flatMap (·.modules)).Nodup := by
    rw [(split_ok made).1, flatMap_modules_numbered]
    exact nodup_spreadDrafts (Rule.nodup_index_of_ofGroups compiled)
  have unmoved : missingTarget? (graph.setContent edited content) chunks =
      missingTarget? graph chunks := missingTarget?_setContent within
  constructor
  case written =>
    intro emission written emitted
    rw [emit] at emitted ⊢
    rw [unmoved]
    cases missing : missingTarget? graph chunks with
    | some missing => simp [missing] at emitted
    | none =>
        simp only [missing, Except.ok.injEq] at emitted
        exact ⟨_, rfl, emitted ▸ forall₂_editedTo within nodup emission⟩
  case failed =>
    intro emission missing failed
    rw [emit] at failed ⊢
    rw [unmoved]
    cases found : missingTarget? graph chunks with
    | some first => simpa [found] using failed
    | none => simp [found] at failed
  case digested => exact fun holder holds differs => digestedStream_ne within nodup holds differs

theorem editStaysLocal_twoPages :
    ∃ reports chunks holder, split twoPages toolRules {} = (reports, .ok chunks) ∧
      split (twoPages.setContent 3 "tool();".toUTF8) toolRules {} = (reports, .ok chunks) ∧
        EditStaysLocal twoPages (twoPages.setContent 3 "tool();".toUTF8) 3 chunks ∧
          chunks.chunkOf? 3 = some holder ∧ holder.name = "tools" ∧
            digestedStream (twoPages.setContent 3 "tool();".toUTF8) chunks holder ≠
              digestedStream twoPages chunks holder := by
  obtain ⟨reports, chunks, made⟩ := exists_split_twoPages
  have unseen : ({} : Limits).minSize = 0 ∨
      sizeOf (twoPages.setContent 3 "tool();".toUTF8) 3 = sizeOf twoPages 3 := Or.inl rfl
  obtain ⟨same, isLocal⟩ := editStaysLocal_of_split ofGroups_toolGroups unseen
  have named : (chunks.chunkOf? 3).map (·.name) = some "tools" := by
    rw [(split_ok made).1]
    cbv
  obtain ⟨holder, holds, name⟩ := Option.map_eq_some_iff.1 named
  refine ⟨reports, chunks, holder, made, same.trans made, isLocal reports chunks made, holds, name,
    (isLocal reports chunks made).digested holder holds ?_⟩
  have before : (twoPages.module? 3).map moduleBody = some "" := by decide +kernel
  have after : ((twoPages.setContent 3 "tool();".toUTF8).module? 3).map moduleBody =
      some "tool();" := by decide +kernel
  rw [before, after]
  decide

end ModuleGraph

end WebBundle
