import WebBundle.Chunk.Basic
import WebBundle.Chunk.RuntimeText
import WebBundle.Diagnostic.Order
import WebBundle.LoadGroup.Basic
import WebBundle.Text.Blank
import WebBundle.Text.Utf8

/-!
# Written chunks

A written chunk puts a record on the queue of the runtime: its name, and its modules by key. A
module is a function with a table that tells for every specifier the key of its target, or the
chunks to fetch and then that key if the import is on demand. The chunk of an entry also names the
modules to start and the chunks that have to be installed first.
-/

namespace WebBundle.Chunk

/-- The import that a specifier stands for: the last one on demand, else the last one at all. -/
def importFor? (dependencies : List Dependency) (specifier : String) : Option Dependency :=
  let ofSpecifier := dependencies.filter fun dependency => dependency.specifier = specifier
  match (ofSpecifier.filter fun dependency => dependency.timing = .async).getLast? with
  | some dependency => some dependency
  | none => ofSpecifier.getLast?

/-- What the table of a module tells for an import. -/
def targetJson (graph : ModuleGraph) (chunks : ChunkGraph) (dependency : Dependency) : Json :=
  let key := graph.keyOf dependency.target
  match dependency.timing with
  | .sync => .string key
  | .async =>
      .array ((chunks.loadSet dependency.target).map (fun chunk => .string chunk.name) ++
        [.string key])

/-- The specifiers of some imports, each once and in order. -/
def specifiers (dependencies : List Dependency) : List String :=
  (dependencies.map (·.specifier)).eraseDups.mergeSort fun a b => textLe a.toList b.toList

def dependencyTable (graph : ModuleGraph) (chunks : ChunkGraph) (dependencies : List Dependency) :
    Json :=
  .object ((specifiers dependencies).filterMap fun specifier =>
    (importFor? dependencies specifier).map fun dependency =>
      (specifier, targetJson graph chunks dependency))

/-- The code of a module. What is no script exports its text. -/
def moduleBody (module : Module) : String :=
  let text := Text.Utf8.lenient module.content
  if module.isScript then String.ofList (Text.trimEnd text.toList)
  else "module.exports = " ++ Json.quoted text ++ ";"

/-- A module as it stands in a chunk. -/
def moduleText (graph : ModuleGraph) (chunks : ChunkGraph) (module : Module) : String :=
  Json.quoted module.key ++ ": [function (module, exports, require) \x7b\n" ++ moduleBody module ++
    "\n\x7d, " ++ (dependencyTable graph chunks module.dependencies).render ++ "]"

/-- The modules of a chunk, with a comma between any two. -/
def modulesText (graph : ModuleGraph) (chunks : ChunkGraph) (modules : List Module) : String :=
  match modules with
  | [] => ""
  | _ => ",\n".intercalate (modules.map (moduleText graph chunks)) ++ "\n"

def names (texts : List String) : Json := .array (texts.map Json.string)

/-- What the chunk of an entry starts, and what it waits for. -/
def startText (graph : ModuleGraph) (chunks : ChunkGraph) (chunk : Chunk) : String :=
  match chunk.kind with
  | .entry =>
      ", " ++ (names (chunk.roots.map graph.keyOf)).render ++ ", " ++
        (names ((chunks.required chunk).map (·.name))).render
  | _ => ""

/-- The text of a chunk that is not the runtime. -/
def text (graph : ModuleGraph) (chunks : ChunkGraph) (chunk : Chunk) : String :=
  "(" ++ queue ++ " = " ++ queue ++ " || []).push([" ++ (names [chunk.name]).render ++ ", \x7b\n" ++
    modulesText graph chunks (chunk.modules.filterMap graph.module?) ++ "\x7d" ++
    startText graph chunks chunk ++ "]);\n"

/-- The first number without a module that a module of some chunks imports. -/
def missingTarget? (graph : ModuleGraph) (chunks : ChunkGraph) : Option Unallocated :=
  let imports := chunks.chunks.flatMap fun chunk => chunk.modules.flatMap graph.dependencies
  ((imports.map (·.target)).find? fun target => graph.size ≤ target).map fun target => ⟨target⟩

end WebBundle.Chunk
