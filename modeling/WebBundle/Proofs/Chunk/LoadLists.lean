import WebBundle.Proofs.Chunk.Navigation
import WebBundle.Proofs.Chunk.Source
import WebBundle.Proofs.Keyed

/-!
# Names that scripts ask for

A script asks for other chunks by their names: the table of a module has the chunks that an import
on demand fetches, and the chunk of an entry has those that it waits for. The runtime finds their
files in a table of its own. If no two chunks share a name, this table has every name that is asked
for, with the file of the chunk that is meant.
-/

namespace WebBundle

namespace Chunk

variable {graph : ModuleGraph} {chunks : ChunkGraph} {chunk : Chunk}

/-- A chunk is written with the table of each of its modules. -/
theorem exists_text_eq_table {module : Module}
    (held : module ∈ chunk.modules.filterMap graph.module?) :
    ∃ before after, text graph chunks chunk =
      before ++ (dependencyTable graph chunks module.dependencies).render ++ after := by
  obtain ⟨earlier, later, parts⟩ := List.append_of_mem held
  have texts : (chunk.modules.filterMap graph.module?).map (moduleText graph chunks) =
      earlier.map (moduleText graph chunks) ++
        moduleText graph chunks module :: later.map (moduleText graph chunks) := by
    rw [parts, List.map_append, List.map_cons]
  obtain ⟨front, back, joined⟩ := Text.exists_intercalate_eq ",\n"
    (earlier.map (moduleText graph chunks)) (later.map (moduleText graph chunks))
  refine ⟨"(" ++ queue ++ " = " ++ queue ++ " || []).push([" ++ (names [chunk.name]).render ++
      ", \x7b\n" ++ front ++ Json.quoted module.key ++
      ": [function (module, exports, require) \x7b\n" ++ moduleBody module ++ "\n\x7d, ",
    "]" ++ back ++ "\n" ++ "\x7d" ++ startText graph chunks chunk ++ "]);\n", ?_⟩
  rw [text, ModuleGraph.modulesText_of_map_eq texts, joined, moduleText]
  simp only [String.append_assoc]

/-- The chunk of an entry is written with the names that it waits for. -/
theorem exists_text_eq_required (isEntry : chunk.kind = .entry) :
    ∃ before, text graph chunks chunk =
      before ++ (names ((chunks.required chunk).map (·.name))).render ++ "]);\n" := by
  refine ⟨"(" ++ queue ++ " = " ++ queue ++ " || []).push([" ++ (names [chunk.name]).render ++
    ", \x7b\n" ++ modulesText graph chunks (chunk.modules.filterMap graph.module?) ++ "\x7d" ++
    ", " ++ (names (chunk.roots.map graph.keyOf)).render ++ ", ", ?_⟩
  rw [text, startText, isEntry]
  simp only [String.append_assoc]

end Chunk

namespace EmittedChunk

section

variable (emission : Emission) (graph : ModuleGraph) (chunks : ChunkGraph)

/-- The table of the runtime: the files that can be asked for, by the names of their chunks. -/
def files : List (String × String) := filesOnDemand (others emission graph chunks)

/-- The name is that of one script only. This script is of one of the kinds, and the table of the
runtime has its file. -/
def Finds (kinds : List ChunkKind) (name : String) : Prop :=
  ∃ script ∈ all emission graph chunks, script.name = name ∧ script.kind ∈ kinds ∧
    (∀ other ∈ all emission graph chunks, other.name = name → other = script) ∧
      (files emission graph chunks).lookup name = some script.fileName

/-- Every import on demand in a table lists names, each of them once, of chunks that the runtime
finds, and behind them a key. -/
def FindsLoadLists (table : Json) : Prop :=
  ∃ fields, table = .object fields ∧
    ∀ specifier items, (specifier, Json.array items) ∈ fields →
      ∃ names key, items = (names ++ [key]).map Json.string ∧ names.Nodup ∧
        ∀ name ∈ names, Finds emission graph chunks [.onDemand, .shared] name

/-- The runtime finds all that scripts ask for. -/
structure FindsAll : Prop where
  emitted : ∀ written, emit emission graph chunks = .ok written →
    written = all emission graph chunks
  distinct : ((files emission graph chunks).map Prod.fst).Nodup
  runtime : ∃ script ∈ all emission graph chunks, script.kind = .runtime
  embedded : ∀ script ∈ all emission graph chunks, script.kind = .runtime →
    script.text = emission.minify
      (Chunk.runtimeText emission.publicPath (files emission graph chunks))
  loaded : ∀ chunk ∈ chunks.chunks, ∀ module ∈ chunk.modules.filterMap graph.module?,
    (∃ before after, Chunk.text graph chunks chunk =
        before ++ (Chunk.dependencyTable graph chunks module.dependencies).render ++ after) ∧
      FindsLoadLists emission graph chunks
        (Chunk.dependencyTable graph chunks module.dependencies)
  required : ∀ entry ∈ chunks.entries,
    (∃ before, Chunk.text graph chunks entry =
        before ++ (Chunk.names ((chunks.required entry).map (·.name))).render ++ "]);\n") ∧
      ∀ name ∈ (chunks.required entry).map (·.name), Finds emission graph chunks [.shared] name

end

variable {emission : Emission} {graph : ModuleGraph} {chunks : ChunkGraph}

theorem name_ofListed (chunk : Chunk) :
    (ofListed emission graph chunks chunk).name = chunk.name := by
  unfold ofListed
  split
  next => rfl
  next => rfl

theorem kind_ofListed (chunk : Chunk) :
    (ofListed emission graph chunks chunk).kind = chunk.kind := by
  unfold ofListed
  split
  next => rfl
  next => rfl

theorem map_name_others :
    (others emission graph chunks).map (·.name) =
      (chunks.chunks.filter fun chunk => chunk.kind ≠ .runtime).map (·.name) := by
  rw [others, List.map_map]
  rfl

theorem eq_of_emit {written : List EmittedChunk}
    (emitted : emit emission graph chunks = .ok written) : written = all emission graph chunks := by
  unfold emit at emitted
  split at emitted
  next => cases emitted
  next => exact (Except.ok.inj emitted).symm

theorem text_of_runtime {script : EmittedChunk} (listed : script ∈ all emission graph chunks)
    (isRuntime : script.kind = .runtime) :
    script.text = emission.minify
      (Chunk.runtimeText emission.publicPath (files emission graph chunks)) := by
  obtain ⟨chunk, _, rfl⟩ := mem_all.1 listed
  rw [kind_ofListed] at isRuntime
  rw [ofListed, if_pos isRuntime]
  rfl

theorem nodup_files : ((files emission graph chunks).map Prod.fst).Nodup := by
  have sorted := List.mergeSort_perm (Keyed.lasts Prod.fst
    (((others emission graph chunks).filter fun script => script.kind ≠ .entry).map
      fun script => (script.name, script.fileName))) fun a b => textLe a.1.toList b.1.toList
  exact ((sorted.map Prod.fst).nodup_iff).2 (Keyed.nodup_lasts _)

section

variable (distinct : (chunks.chunks.map (·.name)).Nodup)

include distinct

/-- The table has the file of every script that is not that of an entry. -/
theorem mem_files {script : EmittedChunk} (listed : script ∈ others emission graph chunks)
    (late : script.kind ≠ .entry) :
    (script.name, script.fileName) ∈ files emission graph chunks := by
  let asked := (others emission graph chunks).filter fun script => script.kind ≠ .entry
  have names : ((asked.map fun script => (script.name, script.fileName)).map Prod.fst).Nodup := by
    have short : (asked.map (·.name)).Sublist (chunks.chunks.map (·.name)) := by
      refine (List.filter_sublist.map _).trans ?_
      rw [map_name_others]
      exact List.filter_sublist.map _
    rw [List.map_map]
    exact distinct.sublist short
  rw [files, filesOnDemand, List.mem_mergeSort, Keyed.lasts_eq_self names]
  exact List.mem_map_of_mem (List.mem_filter.2 ⟨listed, decide_eq_true late⟩)

theorem finds_of_mem {kinds : List ChunkKind} (noEntry : .entry ∉ kinds)
    (noRuntime : .runtime ∉ kinds) {chunk : Chunk} (listed : chunk ∈ chunks.chunks)
    (kind : chunk.kind ∈ kinds) :
    Finds emission graph chunks kinds chunk.name := by
  let script := ofListed emission graph chunks chunk
  have notEntry : script.kind ≠ .entry := by
    intro isEntry
    rw [kind_ofListed] at isEntry
    exact noEntry (isEntry ▸ kind)
  have notRuntime : chunk.kind ≠ .runtime := fun isRuntime => noRuntime (isRuntime ▸ kind)
  have among : script ∈ others emission graph chunks :=
    mem_others.2 ⟨chunk, listed, notRuntime, (if_neg notRuntime).symm⟩
  refine ⟨script, mem_all.2 ⟨chunk, listed, rfl⟩, name_ofListed chunk, ?_, ?_, ?_⟩
  · rwa [kind_ofListed]
  · intro other listed' same
    obtain ⟨chunk', there, rfl⟩ := mem_all.1 listed'
    rw [name_ofListed] at same
    rw [List.inj_on_of_nodup_map distinct there listed same]
  · have found := lookup_eq_some_of_mem nodup_files (mem_files distinct among notEntry)
    rwa [name_ofListed chunk] at found

/-- An import on demand fetches no chunk twice, and none that starts by itself. -/
theorem finds_of_mem_loadSet {target : Nat} {chunk : Chunk}
    (fetched : chunk ∈ chunks.loadSet target) :
    Finds emission graph chunks [.onDemand, .shared] chunk.name := by
  refine finds_of_mem distinct (by decide) (by decide)
    (ChunkGraph.mem_chunks_of_loadSet fetched) ?_
  obtain ⟨start, _, fetched⟩ := ChunkGraph.mem_loadSet.1 fetched
  rcases ChunkGraph.mem_fetchedWith.1 fetched with ⟨rfl, kind⟩ | ⟨_, kind⟩
  · simpa using kind
  · simp [kind]

theorem nodup_names_loadSet (target : Nat) :
    ((chunks.loadSet target).map (·.name)).Nodup := by
  refine (nodup_eraseDups _).map_on fun chunk fetched other fetched' same => ?_
  exact List.inj_on_of_nodup_map distinct (ChunkGraph.mem_chunks_of_loadSet fetched)
    (ChunkGraph.mem_chunks_of_loadSet fetched') same

theorem findsLoadLists (dependencies : List Dependency) :
    FindsLoadLists emission graph chunks (Chunk.dependencyTable graph chunks dependencies) := by
  refine ⟨_, rfl, fun specifier items listed => ?_⟩
  obtain ⟨specifier', _, made⟩ := List.mem_filterMap.1 listed
  obtain ⟨dependency, _, made⟩ := Option.map_eq_some_iff.1 made
  obtain ⟨_, made⟩ := Prod.mk.inj made
  unfold Chunk.targetJson at made
  split at made
  -- An import at the start has a key only, which is no list.
  next => cases made
  next =>
    refine ⟨(chunks.loadSet dependency.target).map (·.name), graph.keyOf dependency.target, ?_,
      nodup_names_loadSet distinct _, ?_⟩
    · rw [← Json.array.inj made, List.map_append, List.map_map]
      rfl
    · intro name asked
      obtain ⟨chunk, fetched, rfl⟩ := List.mem_map.1 asked
      exact finds_of_mem_loadSet distinct fetched

end

/-- If no two chunks share a name, the runtime finds all that scripts ask for. -/
theorem findsAll_of_split {rules : List CacheGroup.Rule} {limits : Chunk.Limits}
    {reports : List Diagnostic} (made : Chunk.split graph rules limits = (reports, .ok chunks))
    (distinct : (chunks.chunks.map (·.name)).Nodup) (emission : Emission) :
    FindsAll emission graph chunks := by
  constructor
  case emitted => exact fun written => eq_of_emit
  case distinct => exact nodup_files
  case runtime =>
    obtain ⟨runtime, listed, _, kind⟩ := (Chunk.wellFormed_of_split made).exists_runtime
    exact ⟨_, mem_all.2 ⟨runtime, listed, rfl⟩, (kind_ofListed runtime).trans kind⟩
  case embedded => exact fun script => text_of_runtime
  case loaded =>
    intro chunk _ module held
    exact ⟨Chunk.exists_text_eq_table held, findsLoadLists distinct _⟩
  case required =>
    intro entry listed
    refine ⟨Chunk.exists_text_eq_required (ChunkGraph.mem_of_mem_entries listed).2, ?_⟩
    intro name asked
    obtain ⟨shared, needed, rfl⟩ := List.mem_map.1 asked
    obtain ⟨there, kind⟩ := ChunkGraph.mem_of_mem_required needed
    exact finds_of_mem distinct (by decide) (by decide) there (by simp [kind])

theorem asked_twoPages :
    let chunks := Chunk.numbered
      (Chunk.finalDrafts (Chunk.spreadDrafts Chunk.twoPages Chunk.toolRules {}))
    (chunks.chunks.map (·.name), (chunks.loadSet 1).map (·.name)) =
      (["main", "128718aa", "8681bbff", "tools", "runtime"], ["128718aa", "tools"]) := by
  cbv

/-- The page that is loaded on demand comes with the tool that it shares. -/
theorem findsAll_twoPages :
    ∃ reports chunks,
      Chunk.split Chunk.twoPages Chunk.toolRules {} = (reports, .ok chunks) ∧
        (chunks.chunks.map (·.name)).Nodup ∧
          (chunks.loadSet 1).map (·.name) = ["128718aa", "tools"] ∧
            FindsAll plainEmission Chunk.twoPages chunks := by
  obtain ⟨reports, chunks, made⟩ := Chunk.exists_split_twoPages
  obtain ⟨names, fetched⟩ := Prod.mk.inj asked_twoPages
  rw [← (Chunk.split_ok made).1] at names fetched
  have distinct : (chunks.chunks.map (·.name)).Nodup := by
    rw [names]
    decide
  exact ⟨reports, chunks, made, distinct, fetched, findsAll_of_split made distinct plainEmission⟩

end EmittedChunk

end WebBundle
