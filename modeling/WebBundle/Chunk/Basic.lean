/-!
# Chunks

A chunk is a script that a build writes: the modules of an entry, of an import on demand, or
modules that several of them share; and the runtime, which holds no modules. A chunk graph numbers
its chunks by their place. A chunk lists the chunks that load or refer to it, its parents, and those
that it loads or refers to, its children.
-/

namespace WebBundle

inductive ChunkKind where
  | entry
  | onDemand
  | shared
  | runtime
  deriving DecidableEq, Repr

def ChunkKind.name : ChunkKind → String
  | .entry => "entry"
  | .onDemand => "async"
  | .shared => "shared"
  | .runtime => "runtime"

/-- `initial` tells that the chunk is loaded before the code of an entry runs. `roots` are the
modules that run when the chunk starts, and `group` is the cache group that made the chunk. -/
structure Chunk where
  id : Nat
  name : String
  kind : ChunkKind
  initial : Bool
  modules : List Nat
  roots : List Nat
  parents : List Nat
  children : List Nat
  group : Option String
  deriving DecidableEq, Repr

structure ChunkGraph where
  chunks : List Chunk
  deriving DecidableEq, Repr

namespace ChunkGraph

variable (graph : ChunkGraph)

def size : Nat := graph.chunks.length

def chunk? (id : Nat) : Option Chunk := graph.chunks[id]?

def find? (name : String) : Option Chunk := graph.chunks.find? fun chunk => chunk.name = name

/-- The place of the runtime. -/
def runtime : Nat := graph.chunks.findIdx fun chunk => chunk.kind = .runtime

def entries : List Chunk := graph.chunks.filter fun chunk => chunk.kind = .entry

/-- The chunk that holds a module. -/
def chunkOf? (module : Nat) : Option Chunk :=
  graph.chunks.find? fun chunk => module ∈ chunk.modules

/-- The chunks of some numbers. -/
def chunksAt (ids : List Nat) : List Chunk := ids.filterMap graph.chunk?

/-- The shared chunks that have to be loaded before the roots of a chunk can run. An entry waits
only for those that are loaded at the start; the others are fetched by its imports on demand. -/
def required (chunk : Chunk) : List Chunk :=
  (graph.chunksAt chunk.children).filter fun child =>
    child.kind = .shared && (chunk.kind ≠ .entry || child.initial)

/-- The chunk that an import of a module on demand starts. -/
def startedBy? (module : Nat) : Option Chunk :=
  graph.chunks.find? fun chunk => chunk.kind = .onDemand && module ∈ chunk.roots

/-- What loading a chunk on demand fetches: the chunk itself, unless it is loaded at the start
anyway, and the shared chunks that it refers to. -/
def fetchedWith (chunk : Chunk) : List Chunk :=
  (if chunk.kind = .onDemand || chunk.kind = .shared then [chunk] else []) ++
    (graph.chunksAt chunk.children).filter fun child => child.kind = .shared

/-- What an import of a module on demand fetches: the chunk that it starts and the chunk that holds
the module, each with its shared chunks. A cache group may have moved the module out of the chunk
that it starts, which then still holds what the module needs. -/
def loadSet (module : Nat) : List Chunk :=
  (((graph.startedBy? module).toList ++ (graph.chunkOf? module).toList).flatMap
    graph.fetchedWith).eraseDups

end ChunkGraph

end WebBundle
