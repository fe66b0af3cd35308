import WebBundle.Proofs.Chunk.Editing
import WebBundle.Proofs.Chunk.Startup

/-!
# What scripts are made from

Every script comes from a chunk. Its digest is taken of one stream that holds its text, before that
is made smaller, and the names that the chunk refers to. The stream tells all of them, so scripts
with the same stream are written alike, and so are scripts with the same digest unless two streams
share it.
-/

namespace WebBundle.EmittedChunk

/-! ## The scripts of a chunk graph -/

section

variable (emission : Emission) (graph : ModuleGraph) (chunks : ChunkGraph)

/-- The scripts of all chunks but the runtime. -/
def others : List EmittedChunk :=
  (chunks.chunks.filter fun chunk => chunk.kind ≠ .runtime).map (ofChunk emission graph chunks)

theorem all_eq :
    all emission graph chunks = others emission graph chunks ++
      (chunks.chunks.filter fun chunk => chunk.kind = .runtime).map
        (ofRuntime emission (others emission graph chunks)) := rfl

/-- The script that a chunk is emitted as. -/
def ofListed (chunk : Chunk) : EmittedChunk :=
  if chunk.kind = .runtime then ofRuntime emission (others emission graph chunks) chunk
  else ofChunk emission graph chunks chunk

variable {emission graph chunks} {script : EmittedChunk}

theorem mem_others :
    script ∈ others emission graph chunks ↔
      ∃ chunk ∈ chunks.chunks, chunk.kind ≠ .runtime ∧
        ofChunk emission graph chunks chunk = script := by
  simp only [others, List.mem_map, List.mem_filter, decide_eq_true_eq, and_assoc]

/-- Every chunk has its script, and every script its chunk. -/
theorem mem_all :
    script ∈ all emission graph chunks ↔
      ∃ chunk ∈ chunks.chunks, ofListed emission graph chunks chunk = script := by
  rw [all_eq, List.mem_append, mem_others]
  constructor
  · rintro (⟨chunk, listed, notRuntime, made⟩ | runtime)
    · exact ⟨chunk, listed, by rw [ofListed, if_neg notRuntime, made]⟩
    · obtain ⟨chunk, chosen, made⟩ := List.mem_map.1 runtime
      obtain ⟨listed, isRuntime⟩ := List.mem_filter.1 chosen
      exact ⟨chunk, listed, by rw [ofListed, if_pos (of_decide_eq_true isRuntime), made]⟩
  · rintro ⟨chunk, listed, made⟩
    by_cases isRuntime : chunk.kind = .runtime
    · rw [ofListed, if_pos isRuntime] at made
      exact .inr (List.mem_map.2
        ⟨chunk, List.mem_filter.2 ⟨listed, decide_eq_true isRuntime⟩, made⟩)
    · rw [ofListed, if_neg isRuntime] at made
      exact .inl ⟨chunk, listed, isRuntime, made⟩

end

/-! ## Origins -/

/-- Where a script comes from: a chunk of a graph, and the way it is emitted. -/
structure Origin where
  emission : Emission
  graph : ModuleGraph
  chunks : ChunkGraph
  chunk : Chunk

namespace Origin

variable (origin : Origin)

def script : EmittedChunk :=
  ofListed origin.emission origin.graph origin.chunks origin.chunk

/-- The text before it is made smaller. -/
def text : String :=
  if origin.chunk.kind = .runtime then
    runtimeText origin.emission (others origin.emission origin.graph origin.chunks)
  else Chunk.text origin.graph origin.chunks origin.chunk

/-- The names of the children, in their order. -/
def childNames : List String := (origin.chunks.chunksAt origin.chunk.children).map (·.name)

/-- The names of all chunks but the runtime, sorted. -/
def otherNames : List String :=
  ((others origin.emission origin.graph origin.chunks).map (·.name)).mergeSort
    fun a b => textLe a.toList b.toList

/-- The names that the digest covers. -/
def names : List String :=
  if origin.chunk.kind = .runtime then origin.otherNames else origin.childNames

/-- All that the digest covers. -/
def texts : List String := origin.text :: origin.names

/-- The stream of bytes that the digest is taken of. -/
def stream : List UInt8 :=
  ContentDigest.stream (origin.texts.map fun text => text.toUTF8.toList)

/-- Eight bytes can hold the length of every text. -/
def IsShort : Prop := ∀ text ∈ origin.texts, text.utf8ByteSize < 2 ^ 64

/-- Different streams have one digest. -/
def Collide (first second : Origin) : Prop :=
  first.stream ≠ second.stream ∧
    ContentDigest.ofBytes ⟨first.stream.toArray⟩ = .ofBytes ⟨second.stream.toArray⟩

theorem text_script : origin.script.text = origin.emission.minify origin.text := by
  unfold script ofListed text
  split
  next => rfl
  next => rfl

theorem digest_script :
    origin.script.digest = .ofBytes ⟨origin.stream.toArray⟩ := by
  unfold script ofListed stream texts names text
  split
  next => rfl
  next => rfl

theorem isShort_of_mem_parts {origin : Origin} (short : origin.IsShort) :
    ∀ part ∈ origin.texts.map fun text => text.toUTF8.toList, ContentDigest.IsShort part := by
  intro part listed
  obtain ⟨text, member, rfl⟩ := List.mem_map.1 listed
  rw [ContentDigest.IsShort, toList_bytes, Array.length_toList]
  exact short text member

theorem toUTF8_toList_injective : Function.Injective fun text : String => text.toUTF8.toList :=
  fun _ _ => toUTF8_toList_inj.1

variable {first second : Origin}

/-- The stream tells the text and the names. -/
theorem eq_of_stream_eq (short : first.IsShort) (short' : second.IsShort)
    (same : first.stream = second.stream) :
    first.text = second.text ∧ first.names = second.names := by
  have parts := ContentDigest.stream_inj (isShort_of_mem_parts short) (isShort_of_mem_parts short')
    same
  exact List.cons.inj (toUTF8_toList_injective.list_map parts)

theorem stream_eq_of_digest_eq (apart : ¬Collide first second)
    (same : first.script.digest = second.script.digest) : first.stream = second.stream := by
  rw [digest_script, digest_script] at same
  by_contra differ
  exact apart ⟨differ, same⟩

/-- What the streams of two scripts tell about them. -/
structure ToldByStream (first second : Origin) : Prop where
  text : first.stream = second.stream → first.text = second.text
  children : first.stream = second.stream → first.chunk.kind ≠ .runtime →
    second.chunk.kind ≠ .runtime → first.childNames = second.childNames
  others : first.stream = second.stream → first.chunk.kind = .runtime →
    second.chunk.kind = .runtime → first.otherNames = second.otherNames
  script : first.emission.minify = second.emission.minify → ¬Collide first second →
    first.script.digest = second.script.digest → first.script.text = second.script.text

theorem toldByStream (short : first.IsShort) (short' : second.IsShort) :
    ToldByStream first second := by
  constructor
  case text => exact fun same => (eq_of_stream_eq short short' same).1
  case children =>
    intro same notRuntime notRuntime'
    have names := (eq_of_stream_eq short short' same).2
    rwa [Origin.names, if_neg notRuntime, Origin.names, if_neg notRuntime'] at names
  case others =>
    intro same isRuntime isRuntime'
    have names := (eq_of_stream_eq short short' same).2
    rwa [Origin.names, if_pos isRuntime, Origin.names, if_pos isRuntime'] at names
  case script =>
    intro minify apart digests
    have same := stream_eq_of_digest_eq apart digests
    rw [text_script, text_script, minify, (eq_of_stream_eq short short' same).1]

end Origin

/-- Parts of a stream are told apart if eight bytes can hold their lengths. So the stream of a
script tells its text and the names with it, and scripts with one digest are written alike if they
are made smaller in one way and no other stream has this digest. -/
theorem toldByStream_of_isShort :
    (∀ parts others : List (List UInt8), (∀ part ∈ parts, ContentDigest.IsShort part) →
        (∀ part ∈ others, ContentDigest.IsShort part) →
          ContentDigest.stream parts = ContentDigest.stream others → parts = others) ∧
      (∀ emission graph chunks script, script ∈ all emission graph chunks ↔
        ∃ chunk ∈ chunks.chunks, (Origin.mk emission graph chunks chunk).script = script) ∧
      (∀ origin : Origin, origin.script.digest = .ofBytes ⟨origin.stream.toArray⟩) ∧
      ∀ first second : Origin, first.IsShort → second.IsShort → first.ToldByStream second := by
  refine ⟨fun _ _ => ContentDigest.stream_inj, fun _ _ _ _ => mem_all, Origin.digest_script, ?_⟩
  exact fun _ _ => Origin.toldByStream

/-! ## A script that an edit does not touch -/

/-- What the digest of a chunk covers does not change with modules that are elsewhere. -/
theorem digested_setContent {graph : ModuleGraph} {chunks : ChunkGraph}
    (within : chunks.Within graph) {chunk : Chunk} (listed : chunk ∈ chunks.chunks) {edited : Nat}
    (apart : edited ∉ chunk.modules) (content : ByteArray) :
    digested (graph.setContent edited content) chunks chunk = digested graph chunks chunk := by
  have sameBody : ∀ place ∈ chunk.modules,
      Chunk.SameBody (fun place => place) graph (graph.setContent edited content) place := by
    intro place held
    refine graph.sameBody_setContent_of_ne edited content ?_
    rintro rfl
    exact apart held
  have same := digested_mirrored Function.injective_id
    (graph.mirrors_setContent edited content) within listed sameBody
  rwa [ModuleGraph.relabel_id, ModuleGraph.chunk_relabel_id] at same

open Chunk (twoPages toolRules)

/-- The chunk of the module that both pages use. -/
def toolsChunk : Chunk := ⟨3, "tools", .shared, false, [3], [], [1, 2], [], some "tools"⟩

theorem getElem_twoPages :
    (Chunk.numbered (Chunk.finalDrafts (Chunk.spreadDrafts twoPages toolRules {}))).chunks[3]? =
      some toolsChunk := by
  cbv

set_option maxRecDepth 4000 in
theorem size_text_toolsChunk :
    (Chunk.text twoPages
      (Chunk.numbered (Chunk.finalDrafts (Chunk.spreadDrafts twoPages toolRules {})))
        toolsChunk).utf8ByteSize < 2 ^ 64 := by
  cbv

theorem exists_tools :
    ∃ reports chunks, Chunk.split twoPages toolRules {} = (reports, .ok chunks) ∧
      toolsChunk ∈ chunks.chunks ∧
        (Chunk.text twoPages chunks toolsChunk).utf8ByteSize < 2 ^ 64 := by
  obtain ⟨reports, chunks, made⟩ := Chunk.exists_split_twoPages
  obtain ⟨same, _⟩ := Chunk.split_ok made
  subst same
  exact ⟨reports, _, made, List.mem_of_getElem? getElem_twoPages, size_text_toolsChunk⟩

theorem toldByStream_twoPages :
    ∃ reports chunks, Chunk.split twoPages toolRules {} = (reports, .ok chunks) ∧
      toolsChunk ∈ chunks.chunks ∧
        ∃ first second : Origin, first = ⟨plainEmission, twoPages, chunks, toolsChunk⟩ ∧
          second = ⟨{ plainEmission with publicPath := "/static/" },
            twoPages.setContent 0 "start();".toUTF8, chunks, toolsChunk⟩ ∧
            first.IsShort ∧ second.IsShort ∧ first.stream = second.stream ∧
              first.text = second.text ∧ first.script.text = second.script.text := by
  obtain ⟨reports, chunks, made, listed, small⟩ := exists_tools
  have notRuntime : toolsChunk.kind ≠ .runtime := by decide
  have apart : 0 ∉ toolsChunk.modules := by decide
  let first : Origin := ⟨plainEmission, twoPages, chunks, toolsChunk⟩
  let second : Origin := ⟨{ plainEmission with publicPath := "/static/" },
    twoPages.setContent 0 "start();".toUTF8, chunks, toolsChunk⟩
  have texts : first.texts = digested twoPages chunks toolsChunk := by
    rw [Origin.texts, Origin.text, Origin.names, if_neg notRuntime, if_neg notRuntime]
    rfl
  have texts' : second.texts = first.texts := by
    rw [texts, Origin.texts, Origin.text, Origin.names, if_neg notRuntime, if_neg notRuntime]
    exact digested_setContent (Chunk.within_of_split made) listed apart _
  have short : first.IsShort := by
    rw [Origin.IsShort, texts]
    simpa [digested, toolsChunk, ChunkGraph.chunksAt] using small
  have short' : second.IsShort := by rwa [Origin.IsShort, texts']
  have same : first.stream = second.stream := by rw [Origin.stream, Origin.stream, texts']
  have told := toldByStream_of_isShort.2.2.2 first second short short'
  have digests : first.script.digest = second.script.digest := by
    rw [Origin.digest_script, Origin.digest_script, same]
  exact ⟨reports, chunks, made, listed, first, second, rfl, rfl, short, short', same,
    told.text same, told.script rfl (fun collide => collide.1 same) digests⟩

end WebBundle.EmittedChunk
