import WebBundle.Build.Assembly

/-!
# Plans

A plan tells what chunks a build would write, without writing them.
-/

namespace WebBundle.Build

structure PlannedChunk where
  name : String
  kind : ChunkKind
  initial : Bool
  fileName : String
  modules : List String
  parents : List String
  deriving DecidableEq, Repr

structure Plan where
  project : String
  modules : Nat
  chunks : List PlannedChunk
  deriving DecidableEq, Repr

def planChunk (graphs : Graphs) (emitted : EmittedChunk) : PlannedChunk :=
  let chunk := graphs.chunks.chunk? emitted.id
  { name := emitted.name
    kind := emitted.kind
    initial := (chunk.map (·.initial)).getD false
    fileName := emitted.fileName
    modules := (((chunk.map (·.modules)).getD []).filterMap graphs.modules.module?).map (·.name)
    parents := (graphs.chunks.chunksAt ((chunk.map (·.parents)).getD [])).map (·.name) }

/-- Plans a build. -/
def plan (storage : Storage) (options : Options) : Reporting BuildError Plan := do
  let graphs ← graphs storage options .identity
  let chunks := EmittedChunk.all (emission options id) graphs.modules graphs.chunks
  return ⟨options.name, graphs.modules.size, chunks.map (planChunk graphs)⟩

def PlannedChunk.role (chunk : PlannedChunk) : String :=
  match chunk.kind with
  | .entry => "entry"
  | .onDemand => "async"
  | .shared => if chunk.initial then "shared, initial" else "shared"
  | .runtime => "runtime"

/-- A heading, the parents and the modules of a chunk. -/
def PlannedChunk.text (chunk : PlannedChunk) : String :=
  let parents :=
    if chunk.parents.isEmpty then "" else "  parents: " ++ ", ".intercalate chunk.parents ++ "\n"
  "\n" ++ chunk.name ++ " (" ++ chunk.role ++ ") -> " ++ chunk.fileName ++ "\n" ++ parents ++
    String.join (chunk.modules.map fun module => "  " ++ module ++ "\n")

def Plan.text (plan : Plan) : String :=
  plan.project ++ ": " ++ toString plan.modules ++ " modules in " ++
    toString plan.chunks.length ++ " chunks\n" ++ String.join (plan.chunks.map (·.text))

def PlannedChunk.toJson (chunk : PlannedChunk) : Json :=
  .object [("name", .string chunk.name), ("kind", .string chunk.kind.name),
    ("initial", .bool chunk.initial), ("filename", .string chunk.fileName),
    ("modules", .array (chunk.modules.map .string)),
    ("parents", .array (chunk.parents.map .string))]

def Plan.toJson (plan : Plan) : Json :=
  .object [("project", .string plan.project), ("modules", .int plan.modules),
    ("chunks", .array (plan.chunks.map (·.toJson)))]

end WebBundle.Build
