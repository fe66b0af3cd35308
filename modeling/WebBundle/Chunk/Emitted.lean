import WebBundle.Chunk.FileName
import WebBundle.Chunk.Text
import WebBundle.Keyed

/-!
# Emitted chunks

An emitted chunk is a chunk with its text, its digest and its file name. The digest covers the text
before it is made smaller and the names of the children, not their content, so a change in a module
renames its own chunk and the runtime only. The runtime holds the file names of the chunks that are
fetched on demand, and its digest covers the names of all other chunks too.
-/

namespace WebBundle

structure EmittedChunk where
  id : Nat
  name : String
  kind : ChunkKind
  digest : ContentDigest
  fileName : String
  text : String

/-- How chunks are named and written. -/
structure Emission where
  pattern : String
  publicPath : String
  minify : String → String

namespace EmittedChunk

/-- The texts that the digest of a chunk covers. -/
def digested (graph : ModuleGraph) (chunks : ChunkGraph) (chunk : Chunk) : List String :=
  Chunk.text graph chunks chunk :: (chunks.chunksAt chunk.children).map (·.name)

def ofText (emission : Emission) (chunk : Chunk) (text : String) (digested : List String) :
    EmittedChunk :=
  let digest := ContentDigest.ofTexts digested
  { id := chunk.id
    name := chunk.name
    kind := chunk.kind
    digest
    fileName := Chunk.fileName emission.pattern chunk.name digest
    text := emission.minify text }

def ofChunk (emission : Emission) (graph : ModuleGraph) (chunks : ChunkGraph) (chunk : Chunk) :
    EmittedChunk :=
  .ofText emission chunk (Chunk.text graph chunks chunk) (digested graph chunks chunk)

/-- The files of the chunks that are not those of entries, by name and in the order of names. -/
def filesOnDemand (emitted : List EmittedChunk) : List (String × String) :=
  let files := (emitted.filter fun chunk => chunk.kind ≠ .entry).map fun chunk =>
    (chunk.name, chunk.fileName)
  (Keyed.lasts Prod.fst files).mergeSort fun a b => textLe a.1.toList b.1.toList

def runtimeText (emission : Emission) (emitted : List EmittedChunk) : String :=
  Chunk.runtimeText emission.publicPath (filesOnDemand emitted)

/-- The texts that the digest of the runtime covers. -/
def runtimeDigested (emission : Emission) (emitted : List EmittedChunk) : List String :=
  runtimeText emission emitted ::
    (emitted.map (·.name)).mergeSort fun a b => textLe a.toList b.toList

def ofRuntime (emission : Emission) (emitted : List EmittedChunk) (chunk : Chunk) : EmittedChunk :=
  .ofText emission chunk (runtimeText emission emitted) (runtimeDigested emission emitted)

/-- All chunks, the runtime behind the others. -/
def all (emission : Emission) (graph : ModuleGraph) (chunks : ChunkGraph) : List EmittedChunk :=
  let others := (chunks.chunks.filter fun chunk => chunk.kind ≠ .runtime).map
    (ofChunk emission graph chunks)
  let runtimes := chunks.chunks.filter fun chunk => chunk.kind = .runtime
  others ++ runtimes.map (ofRuntime emission others)

/-- Emits the chunks, unless a module of theirs imports a number without a module. -/
def emit (emission : Emission) (graph : ModuleGraph) (chunks : ChunkGraph) :
    Except Unallocated (List EmittedChunk) :=
  match Chunk.missingTarget? graph chunks with
  | some missing => .error missing
  | none => .ok (all emission graph chunks)

/-- The chunks that a document starts, in the order of loading: the runtime, and for every entry
the shared chunks that it waits for and its own. -/
def startOrder (chunks : ChunkGraph) : List Nat :=
  (chunks.runtime :: chunks.entries.flatMap fun entry =>
    (chunks.required entry).map (·.id) ++ [entry.id]).eraseDups

/-- The addresses of the scripts that a document starts. -/
def scripts (chunks : ChunkGraph) (emitted : List EmittedChunk) (publicPath : String) :
    List String :=
  (startOrder chunks).filterMap fun id =>
    (emitted.find? fun chunk => chunk.id = id).map fun chunk => publicPath ++ chunk.fileName

end EmittedChunk

end WebBundle
