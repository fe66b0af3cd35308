import WebBundle.Proofs.Build.Assembly

/-!
# What a worker stores ahead of use

The manifest is made before the worker is, of files of which the worker may replace one. It agrees
with the output all the same: it has one entry for every written file but the worker, unless the
file is excluded or too large, and no other. A file that is only too large is reported, and the
written worker holds the manifest.
-/

namespace WebBundle.Build

open Storage Output

/-- A glob excludes the path. -/
def isExcluded (globs : List Pattern.Glob) (path : String) : Bool :=
  globs.any fun glob => glob.accepts path

variable {storage : Storage} {options : Options} {collaborators : Collaborators}
  {assembly : Assembly} {report : Report}

/-! ## The report of a build -/

theorem eq_reportOn (assembled : (assemble storage options collaborators).result = .ok assembly)
    (succeeds : (buildWith storage options collaborators).2.result = .ok report) :
    report = reportOn options assembly := by
  rw [buildWith, assembled] at succeeds
  dsimp only at succeeds
  split at succeeds
  next => cases succeeds
  next => exact (Except.ok.inj succeeds).symm

/-- What is told about a file. -/
def written (file : Output.File) : WrittenFile := ⟨file.path, file.kind, file.size⟩

theorem perm_writtenFiles (files : List Output.File) :
    (writtenFiles files).Perm (files.map written) :=
  List.mergeSort_perm _ _

theorem mem_files_reportOn {file : WrittenFile} :
    file ∈ (reportOn options assembly).files ↔ ∃ source ∈ assembly.files, written source = file :=
  (perm_writtenFiles assembly.files).mem_iff.trans List.mem_map

/-! ## Reports of other kinds -/

section

variable {worker : WorkerSettings} {globs : List Pattern.Glob} {script : String}
  {files : List Output.File} {set : FileSet} {reports : List Diagnostic}

theorem excludes_precache (file : Output.File) :
    (precache options worker globs).excludes file =
      (file.path = worker.target || isExcluded globs file.path) := rfl

theorem stores_precache {file : Output.File} (apart : file.path ≠ worker.target) :
    (precache options worker globs).stores file =
      (file.size ≤ worker.sizeLimit && !isExcluded globs file.path) := by
  rw [PrecacheRule.stores, excludes_precache, decide_eq_false apart, Bool.false_or]
  rfl

theorem path_ne_of_stores {file : Output.File}
    (stores : (precache options worker globs).stores file = true) : file.path ≠ worker.target := by
  rw [PrecacheRule.stores, Bool.and_eq_true, Bool.not_eq_true', excludes_precache,
    Bool.or_eq_false_iff] at stores
  exact of_decide_eq_false stores.2.1

variable (adds : AddsWorker storage options worker files globs script set reports)

include adds

variable (distinct : (files.map Output.File.path).Nodup)

include distinct

variable (plain : ∀ file ∈ files, file.kind ≠ .worker)

include plain

omit distinct

end

def siteConfig : Config where
  name := "site"
  entries := [("main", ["./main.js"])]
  output := { fileName := "[name].js" }
  worker := some { source := "sw.js" }

def siteOptions : Options := .ofConfig siteConfig "/app" {}

/-- The template of the worker is the marker. -/
def siteWorker : WorkerSettings := { source := "/app/sw.js" }

def siteWith (content : ByteArray) : Storage where
  items := [(["app"], .directory), (["app", "main.js"], .file content),
    (["app", "sw.js"], .file siteWorker.marker.toUTF8)]
  workingDirectory := ["app"]

def mainChunk : Chunk := ⟨0, "main", .entry, true, [0], [0], [], [1], none⟩

def runtimeChunk : Chunk := ⟨1, "runtime", .runtime, true, [], [], [0], [], none⟩

def siteChunks : ChunkGraph := ⟨[mainChunk, runtimeChunk]⟩

theorem worker_site : siteOptions.worker = some siteWorker := by decide

section

variable (content : ByteArray)

theorem numbered_site :
    Chunk.numbered (Chunk.finalDrafts (Chunk.spreadDrafts (mainGraphOf content) [] {})) =
      siteChunks := by
  cbv

theorem locate_site :
    (siteWith content).locate true "/app/./main.js" =
        .ok (.taken ["app", "main.js"] (.file content)) ∧
      (siteWith content).locate true "/app/main.js" =
        .ok (.taken ["app", "main.js"] (.file content)) := by
  rw [locate_eq_locateSteps, locate_eq_locateSteps]
  exact ⟨rfl, rfl⟩

theorem readText_site :
    (siteWith content).readText siteWorker.source = .ok siteWorker.marker := by
  have isRead : (siteWith content).read siteWorker.source = .ok siteWorker.marker.toUTF8 := by
    rw [Storage.read, locate_eq_locateSteps]
    rfl
  have isText : Text.Utf8.strict? siteWorker.marker.toUTF8 = some siteWorker.marker := by
    decide +kernel
  rw [Storage.readText, isRead]
  simp only [isText]

/-- The project with an empty output directory. -/
def preparedSite : Storage := (siteWith content).put ["app", "build"] .directory

theorem clear_site : clear (siteWith content) siteOptions.outDir siteOptions.clean =
    (siteWith content, .ok ()) := by
  have free : (siteWith content).exists? siteOptions.outDir = false := by
    rw [exists?, locate_eq_locateSteps]
    rfl
  rw [clear, free, Bool.and_false]
  rfl

theorem makeDirectories_site : Output.makeDirectories (siteWith content) siteOptions.outDir =
    (preparedSite content, .ok ()) := by
  have free : (siteWith content).locate false siteOptions.outDir =
      .ok (.vacant ["app"] "build" false) := by
    rw [locate_eq_locateSteps]
    rfl
  rw [Output.makeDirectories, makeDirectories_of_vacant free]
  rfl

theorem exists_lands_site {path : String}
    (member : path ∈ ["index.html", "main.js", "runtime.js", "sw.js"]) :
    ∃ location, Lands (preparedSite content) (Path.join siteOptions.outDir path) location := by
  have above : (preparedSite content).isDirectory "/app/build" = true := by
    rw [isDirectory, locate_eq_locateSteps]
    rfl
  simp only [List.mem_cons, List.not_mem_nil, or_false] at member
  rcases member with rfl | rfl | rfl | rfl
  · exact exists_lands_of_steps above rfl (by decide) (by decide)
  · exact exists_lands_of_steps above rfl (by decide) (by decide)
  · exact exists_lands_of_steps above rfl (by decide) (by decide)
  · exact exists_lands_of_steps above rfl (by decide) (by decide)

/-! ### What the project is built to -/

def siteScript : EmittedChunk :=
  .ofChunk (emission siteOptions Page.stripBlank) (mainGraphOf content) siteChunks mainChunk

def siteRuntime : EmittedChunk :=
  .ofRuntime (emission siteOptions Page.stripBlank) [siteScript content] runtimeChunk

theorem fileName_site :
    (siteScript content).fileName = "main.js" ∧ (siteRuntime content).fileName = "runtime.js" := by
  have script (digest : ContentDigest) : Chunk.fileName "[name].js" "main" digest = "main.js" := by
    cbv
  have runtime (digest : ContentDigest) :
      Chunk.fileName "[name].js" "runtime" digest = "runtime.js" := by
    cbv
  exact ⟨script (siteScript content).digest, runtime (siteRuntime content).digest⟩

variable (noImports : Import.scan (Text.Utf8.lenient content) = [])

include noImports

theorem eq_of_graphs_site {found : Graphs}
    (made : (graphs (siteWith content) siteOptions .identity).result = .ok found) :
    found = ⟨mainGraphOf content, siteChunks⟩ := by
  obtain ⟨modules, chunks⟩ := found
  obtain ⟨discovered, rules, reports, compiled, split, _⟩ := exists_of_graphs made
  rw [moduleGraph_of_main rfl rfl (locate_site content) noImports] at discovered
  obtain rfl := Except.ok.inj discovered
  have noRules : CacheGroup.Rule.ofGroups [] = .ok [] := by cbv
  obtain rfl := Except.ok.inj (noRules.symm.trans compiled)
  have same : chunks = siteChunks := (Chunk.split_ok split).1.trans (numbered_site content)
  rw [same]

theorem exists_assembly_site :
    ∃ assembly, (assemble (siteWith content) siteOptions {}).result = .ok assembly := by
  have discovered : Discovery.moduleGraph (siteWith content) siteOptions .identity =
      .ok (mainGraphOf content) := moduleGraph_of_main rfl rfl (locate_site content) noImports
  obtain ⟨found, _, made, _⟩ := exists_graphs discovered rfl
  have collected : (collectAssets (siteWith content) siteOptions.assets).2 = .ok [] := by
    rw [show siteOptions.assets = [] from rfl, collectAssets_nil]
  have once : Text.occurrences siteWorker.marker.toList siteWorker.marker.toList = 1 := by decide
  exact exists_assembly_of_parts made collected rfl
    (exists_addWorker worker_site rfl (readText_site content) (by decide) once)

theorem files_site {parts : Parts} {set : FileSet}
    (composed : AssembledFrom (siteWith content) siteOptions {} parts set assembly) :
    parts.files siteOptions {} = [chunkFile (siteScript content), chunkFile (siteRuntime content),
      parts.page siteOptions {}] := by
  have assets : parts.assets = [] := by
    have collected := composed.assets
    rw [show siteOptions.assets = [] from rfl, collectAssets_nil] at collected
    exact (Except.ok.inj collected).symm
  have chunks : parts.chunks siteOptions {} = [siteScript content, siteRuntime content] := by
    have minimize : siteOptions.minimize = true := rfl
    rw [Parts.chunks, eq_of_graphs_site content noImports composed.found, emitted, minimize,
      if_pos rfl]
    rfl
  have gathered : parts.gathered siteOptions {} = [chunkFile (siteScript content),
      chunkFile (siteRuntime content), parts.page siteOptions {}] := by
    rw [Parts.gathered, assets, chunks]
    rfl
  obtain ⟨script, runtime⟩ := fileName_site content
  have paths : (parts.gathered siteOptions {}).map Output.File.path =
      ["main.js", "runtime.js", "index.html"] := by
    rw [gathered]
    simp only [List.map_cons, List.map_nil, chunkFile, script, runtime]
    rfl
  rw [Parts.files, Keyed.lasts_eq_self (by rw [paths]; decide), gathered]

theorem path_of_mem_site
    (assembled : (assemble (siteWith content) siteOptions {}).result = .ok assembly) :
    ∀ file ∈ assembly.files, file.path ∈ ["index.html", "main.js", "runtime.js", "sw.js"] := by
  intro file listed
  obtain ⟨parts, set, composed⟩ := exists_parts assembled
  have distinct : ((parts.files siteOptions {}).map Output.File.path).Nodup :=
    Keyed.nodup_lasts _
  obtain ⟨globs, script, adds⟩ := exists_of_addWorker distinct worker_site composed.added
  rw [composed.assembly, adds.others, files_site content noImports composed] at listed
  obtain ⟨main, runtime⟩ := fileName_site content
  rcases List.mem_append.1 listed with other | isWorker
  · have other := (List.mem_filter.1 other).1
    simp only [List.mem_cons, List.not_mem_nil, or_false] at other
    rcases other with rfl | rfl | rfl
    · simp [chunkFile, main]
    · simp [chunkFile, runtime]
    · exact List.mem_cons_self
  · obtain rfl := List.mem_singleton.1 isWorker
    simp [Output.File.ofBytes, siteWorker]

theorem exists_report_site :
    ∃ report, (buildWith (siteWith content) siteOptions {}).2.result = .ok report := by
  obtain ⟨assembly, assembled⟩ := exists_assembly_site content noImports
  exact exists_report_of_lands assembled (clear_site content) (makeDirectories_site content)
    fun file listed => exists_lands_site content (path_of_mem_site content noImports assembled file listed)

end

end WebBundle.Build
