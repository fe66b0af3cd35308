import WebBundle.Build.Error
import WebBundle.Build.Reporting
import WebBundle.Chunk.Emitted
import WebBundle.Chunk.Split
import WebBundle.Output.Asset
import WebBundle.Page.Html
import WebBundle.Page.Minify

/-!
# Assembling the output

The output of a build is assembled from the files of a project before anything is written: the
module graph is split into chunks, assets are collected, the document is made, and the worker gets
the manifest of the files so far. Of files with one path the later ones win, and generated files
come after assets.
-/

namespace WebBundle.Build

/-- What a build may be given: a change of sources before they are searched, and a change of
written chunks after they are named. -/
structure Collaborators where
  transform : Transform := .identity
  minify : String → String := Page.stripBlank

structure Graphs where
  modules : ModuleGraph
  chunks : ChunkGraph

/-- The module graph of a project and its chunks. -/
def graphs (storage : Storage) (options : Options) (transform : Transform) :
    Reporting BuildError Graphs := do
  let modules ← .silent
    ((Discovery.moduleGraph storage options transform).mapError .discovery)
  let rules ← .silent ((CacheGroup.Rule.ofGroups options.cacheGroups).mapError .pattern)
  let chunks ← .ofPair .emptyChunk
    (Chunk.split modules rules ⟨options.minSize, options.maxInitialRequests⟩)
  return ⟨modules, chunks⟩

def emission (options : Options) (minify : String → String) : Emission :=
  ⟨options.fileName, options.publicPath, minify⟩

/-- The emitted chunks of a project, made smaller if the options say so. -/
def emitted (options : Options) (minify : String → String) (graphs : Graphs) :
    List EmittedChunk :=
  EmittedChunk.all (emission options (if options.minimize then minify else id)) graphs.modules
    graphs.chunks

def readText (storage : Storage) (path : String) : Except BuildError String :=
  (Output.orInaccessible path (storage.readText path)).mapError .output

def assetFile (asset : Output.Asset) : Output.File :=
  ⟨asset.path, asset.bytes, asset.digest, .asset⟩

/-- A chunk keeps the digest that it is named by. -/
def chunkFile (chunk : EmittedChunk) : Output.File :=
  ⟨chunk.fileName, chunk.text.toUTF8, chunk.digest, .chunk⟩

def htmlTemplate (storage : Storage) (options : Options) : Except BuildError (Option String) :=
  match options.htmlTemplate with
  | none => .ok none
  | some path => (readText storage path).map some

def htmlFile (options : Options) (template : Option String) (scripts : List String) :
    Output.File :=
  .ofBytes options.htmlFileName (Page.render template options.name scripts).toUTF8 .html

/-- The rule for the files that a worker stores ahead of use. -/
def precacheRule (options : Options) (worker : WorkerSettings) :
    Except BuildError Output.PrecacheRule :=
  match Output.readGlobs worker.exclude with
  | .error error => .error (.output (.invalidGlob error))
  | .ok exclude => .ok ⟨options.publicPath, worker.target, exclude, worker.sizeLimit⟩

/-- The worker with the manifest in the place of its marker. -/
def workerFile (storage : Storage) (options : Options) (worker : WorkerSettings)
    (manifest : List Output.ManifestEntry) : Except BuildError Output.File := do
  let template ← readText storage worker.source
  let name := Path.relativeTo options.root worker.source
  match Output.inject template name worker.marker manifest with
  | .error error => .error (.output (.injection error))
  | .ok text => .ok (.ofBytes worker.target text.toUTF8 .worker)

/-- The files of an output, with its manifest. -/
structure FileSet where
  files : List Output.File
  manifest : List Output.ManifestEntry

/-- Drops files that are replaced, and reports them. -/
def settle (files : List Output.File) : Reporting BuildError (List Output.File) :=
  let (kept, diagnostics) := Output.resolveCollisions files
  ⟨diagnostics, .ok kept⟩

/-- Adds the worker to the other files. -/
def addWorker (storage : Storage) (options : Options) (files : List Output.File) :
    Reporting BuildError FileSet :=
  match options.worker with
  | none => return ⟨files, []⟩
  | some worker => do
      let rule ← .silent (precacheRule options worker)
      let (manifest, oversized) := Output.manifest rule files
      .report oversized
      let file ← .silent (workerFile storage options worker manifest)
      return ⟨← settle (files ++ [file]), manifest⟩

/-- What a build is going to write. -/
structure Assembly where
  modules : Nat
  chunks : List EmittedChunk
  files : List Output.File
  manifest : List Output.ManifestEntry

/-- Assembles the output of a project. -/
def assemble (storage : Storage) (options : Options) (collaborators : Collaborators) :
    Reporting BuildError Assembly := do
  let graphs ← graphs storage options collaborators.transform
  let chunks := emitted options collaborators.minify graphs
  let assets ← .ofPair .output (Output.collectAssets storage options.assets)
  let template ← .silent (htmlTemplate storage options)
  let html := htmlFile options template
    (EmittedChunk.scripts graphs.chunks chunks options.publicPath)
  let files ← settle (assets.map assetFile ++ chunks.map chunkFile ++ [html])
  let set ← addWorker storage options files
  return ⟨graphs.modules.size, chunks, set.files, set.manifest⟩

end WebBundle.Build
