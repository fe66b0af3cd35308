import WebBundle.Build.Report
import WebBundle.Proofs.Chunk.Splitting
import WebBundle.Proofs.Output.Writing
import WebBundle.Proofs.Storage.Steps

/-!
# Builds that fail

A build that cannot assemble its output leaves the storage as it was. One that fails later, while it
writes, has emptied the output directory before and has written the other files, and nothing brings
back what was there.
-/

namespace WebBundle.Build

open Storage Output

variable {storage : Storage} {options : Options} {collaborators : Collaborators}
  {assembly : Assembly} {error : BuildError}

theorem buildWith_of_assemble_ok
    (assembled : (assemble storage options collaborators).result = .ok assembly) :
    (buildWith storage options collaborators).1 =
      (write storage options.outDir assembly.files options.clean).1 := by
  rw [buildWith, assembled]
  dsimp only
  split
  next written => rw [written]
  next written => rw [written]

theorem exists_error_of_write_error {failure : OutputError}
    (assembled : (assemble storage options collaborators).result = .ok assembly)
    (failed : (write storage options.outDir assembly.files options.clean).2 = .error failure) :
    ∃ error, (buildWith storage options collaborators).2.result = .error error := by
  rw [buildWith, assembled]
  dsimp only
  split
  next => exact ⟨_, rfl⟩
  next written =>
    rw [written] at failed
    cases failed

/-- A failed build leaves the storage as it was exactly if its output could not be assembled or
there is a file in the place of the output directory, provided that otherwise it changes something
that cannot be undone. -/
theorem unchanged_iff_of_failed
    (failed : (buildWith storage options collaborators).2.result = .error error)
    (disturbs : ∀ assembly, (assemble storage options collaborators).result = .ok assembly →
      Blocked storage options.outDir ∨
        Disturbs storage options.outDir assembly.files options.clean) :
    (buildWith storage options collaborators).1 = storage ↔
      (assemble storage options collaborators).result = .error error ∨
        Blocked storage options.outDir := by
  cases assembled : (assemble storage options collaborators).result with
  | error earlier =>
      have same : earlier = error := by
        rw [buildWith, assembled] at failed
        exact Except.error.inj failed
      subst same
      exact ⟨fun _ => .inl rfl, fun _ => buildWith_of_assemble_error assembled⟩
  | ok assembly =>
      rw [buildWith_of_assemble_ok assembled]
      constructor
      · intro unchanged
        cases disturbs assembly assembled with
        | inl blocked => exact .inr blocked
        | inr disturbed =>
            obtain ⟨place, changed⟩ := exists_ne_of_disturbs disturbed
            rw [unchanged] at changed
            exact absurd rfl changed
      · rintro (impossible | blocked)
        · cases impossible
        · exact write_of_blocked blocked assembly.files options.clean

/-! ## A project of one script -/

def aloneModule (root path : String) (content : ByteArray) : Module :=
  ⟨0, Path.normalize path, Path.relativeTo root path, content, [], []⟩

def aloneGraph (root entry path : String) (content : ByteArray) : ModuleGraph where
  root
  modules := ⟨#[aloneModule root path content]⟩
  entries := [⟨entry, [0]⟩]

/-- A script without imports is the only module of its project. -/
theorem moduleGraph_of_started {entry path : String} {content : ByteArray}
    (started : Discovery.resolveEntries (Discovery.project storage options .identity) options.root
      options.entries ⟨.empty options.root, []⟩ =
        .ok ⟨aloneGraph options.root entry path .empty, [0]⟩)
    (isRead : storage.read (Path.normalize path) = .ok content)
    (noImports : Import.scan (Text.Utf8.lenient content) = []) :
    Discovery.moduleGraph storage options .identity =
      .ok (aloneGraph options.root entry path content) := by
  let project := Discovery.project storage options .identity
  let module := aloneModule options.root path .empty
  have loaded : Discovery.loadModule project module = .ok ⟨content, []⟩ := by
    have read : project.storage.read module.resource = .ok content := isRead
    have same : project.transform module.name content = .ok content := rfl
    have imports : Discovery.importsOf project module content = .ok [] := by
      rw [Discovery.importsOf, noImports]
      split
      next => rfl
      next => rfl
    simp only [Discovery.loadModule, read, same, imports]
  have round : Discovery.round project [0] ⟨aloneGraph options.root entry path .empty, [0]⟩ =
      .ok ⟨aloneGraph options.root entry path content, []⟩ := by
    rw [Discovery.round, show [0].filterMap
      (aloneGraph options.root entry path .empty).module? = [module] from rfl, List.mapM_cons,
      loaded]
    rfl
  have waits : ¬(Discovery.Search.mk (aloneGraph options.root entry path .empty)
      [0]).frontier.isEmpty = true := Bool.false_ne_true
  rw [Discovery.moduleGraph, started]
  change Discovery.rounds project (Discovery.moduleBound + 1) _ = _
  rw [Discovery.rounds, if_neg waits, round]
  dsimp only
  rw [show Discovery.moduleBound = 4294967295 + 1 from rfl, Discovery.rounds]
  rfl

theorem moduleGraph_of_alone {entry request path : String} {content : ByteArray}
    (entries : options.entries = [(entry, [request])])
    (resolved : (Resolver.mk options.searchPaths options.extensions).resolve? storage request
      options.root = some path)
    (isRead : storage.read (Path.normalize path) = .ok content)
    (noImports : Import.scan (Text.Utf8.lenient content) = []) :
    Discovery.moduleGraph storage options .identity =
      .ok (aloneGraph options.root entry path content) := by
  let project := Discovery.project storage options .identity
  have found : project.resolver.resolve? project.storage request options.root = some path :=
    resolved
  refine moduleGraph_of_started ?_ isRead noImports
  rw [entries]
  simp only [Discovery.resolveEntries, Discovery.resolveEntry, project, found]
  rfl

/-- The first path that a specifier may stand for is taken if it is a file. -/
theorem resolve?_of_isFile {resolver : Resolver} {specifier directory path : String}
    {others : List String} (bases : resolver.bases directory specifier = path :: others)
    (isFile : storage.isFile path = true) :
    resolver.resolve? storage specifier directory = some path := by
  simp [Resolver.resolve?, bases, Resolver.path?, Resolver.file?, Resolver.candidates, isFile]

/-- A project whose entry is the script beside its configuration. -/
def mainGraphOf (content : ByteArray) : ModuleGraph where
  root := "/app"
  modules := ⟨#[⟨0, "/app/main.js", "main.js", content, [], []⟩]⟩
  entries := [⟨"main", [0]⟩]

/-- Whatever the name of its entry, a project of one script beside its configuration is that script.
-/
theorem moduleGraph_of_script {entry : String} {content : ByteArray} {place : Place}
    (root : options.root = "/app") (entries : options.entries = [(entry, ["./main.js"])])
    (ends : storage.locate true "/app/./main.js" = .ok (.taken place (.file content)) ∧
      storage.locate true "/app/main.js" = .ok (.taken place (.file content)))
    (noImports : Import.scan (Text.Utf8.lenient content) = []) :
    Discovery.moduleGraph storage options .identity =
      .ok { mainGraphOf content with entries := [⟨entry, [0]⟩] } := by
  let resolver := Resolver.mk options.searchPaths options.extensions
  have resolved : resolver.resolve? storage "./main.js" options.root = some "/app/./main.js" := by
    have bases : resolver.bases "/app" "./main.js" = ["/app/./main.js"] := by
      rw [Resolver.bases, if_pos (by decide)]
      decide
    rw [root]
    refine resolve?_of_isFile bases ?_
    rw [Storage.isFile, ends.1]
  have plain : Path.normalize "/app/./main.js" = "/app/main.js" := by decide
  have isRead : storage.read (Path.normalize "/app/./main.js") = .ok content := by
    rw [plain, Storage.read, ends.2]
  have name : Path.relativeTo "/app" "/app/./main.js" = "main.js" := by decide
  rw [moduleGraph_of_alone entries resolved isRead noImports, root, aloneGraph, aloneModule, plain,
    name]
  rfl

theorem moduleGraph_of_main {content : ByteArray} {place : Place} (root : options.root = "/app")
    (entries : options.entries = [("main", ["./main.js"])])
    (ends : storage.locate true "/app/./main.js" = .ok (.taken place (.file content)) ∧
      storage.locate true "/app/main.js" = .ok (.taken place (.file content)))
    (noImports : Import.scan (Text.Utf8.lenient content) = []) :
    Discovery.moduleGraph storage options .identity = .ok (mainGraphOf content) :=
  moduleGraph_of_script root entries ends noImports

/-! ## A page that cannot be written -/

theorem exists_graphs {modules : ModuleGraph} {transform : Transform}
    (discovered : Discovery.moduleGraph storage options transform = .ok modules)
    (noGroups : options.cacheGroups = []) :
    ∃ found reports, (graphs storage options transform).result = .ok found ∧
      Chunk.split modules [] ⟨options.minSize, options.maxInitialRequests⟩ =
        (reports, .ok found.chunks) := by
  obtain ⟨reports, chunks, made⟩ := Chunk.exists_split_of_no_rules modules
    ⟨options.minSize, options.maxInitialRequests⟩
  refine ⟨⟨modules, chunks⟩, reports, ?_, made⟩
  have compiled : CacheGroup.Rule.ofGroups options.cacheGroups = .ok [] := by
    rw [noGroups]
    cbv
  rw [graphs, discovered, compiled]
  change (Reporting.andThen (.silent (.ok modules)) _).result = _
  rw [Reporting.result_andThen_of_ok rfl]
  change (Reporting.andThen (.silent (.ok [])) _).result = _
  rw [Reporting.result_andThen_of_ok rfl, made]
  rfl

/-- The page or the file of a chunk. -/
structure IsGenerated (options : Options) (chunks : ChunkGraph) (file : Output.File) : Prop where
  isText : ∃ text : String, file.bytes = text.toUTF8
  path : file.path = options.htmlFileName ∨ ∃ chunk ∈ chunks.chunks, ∃ digest,
    file.path = Chunk.fileName options.fileName chunk.name digest

theorem isGenerated_of_mem_emitted {found : Graphs} {minify : String → String}
    {chunk : EmittedChunk} (member : chunk ∈ emitted options minify found) :
    IsGenerated options found.chunks (chunkFile chunk) := by
  refine ⟨⟨_, rfl⟩, .inr ?_⟩
  rcases List.mem_append.1 member with other | runtime
  · obtain ⟨source, listed, rfl⟩ := List.mem_map.1 other
    exact ⟨source, List.mem_of_mem_filter listed, _, rfl⟩
  · obtain ⟨source, listed, rfl⟩ := List.mem_map.1 runtime
    exact ⟨source, List.mem_of_mem_filter listed, _, rfl⟩

theorem collectAssets_nil : collectAssets storage [] = ([], .ok []) := by cbv

/-- A project without assets, template and worker has its page and the files of its chunks as its
output. -/
theorem exists_assembly {found : Graphs}
    (made : (graphs storage options collaborators.transform).result = .ok found)
    (noAssets : collectAssets storage options.assets = ([], .ok []))
    (noTemplate : options.htmlTemplate = none) (noWorker : options.worker = none) :
    ∃ assembly, (assemble storage options collaborators).result = .ok assembly ∧
      (∃ file ∈ assembly.files, file.path = options.htmlFileName) ∧
        ∀ file ∈ assembly.files, IsGenerated options found.chunks file := by
  rw [assemble]
  change ∃ assembly, (Reporting.andThen (graphs storage options collaborators.transform) _).result =
    .ok assembly ∧ _
  rw [Reporting.result_andThen_of_ok made, noAssets, htmlTemplate, noTemplate]
  simp only [addWorker, noWorker]
  refine ⟨_, rfl, ?_⟩
  dsimp only [settle, resolveCollisions]
  constructor
  · refine ⟨_, Keyed.mem_lasts_append_singleton File.path _ _, ?_⟩
    rfl
  · intro file listed
    rcases List.mem_append.1 (Keyed.mem_of_mem_lasts File.path listed) with chunk | page
    · obtain ⟨_, emitted, rfl⟩ := List.mem_map.1 chunk
      exact isGenerated_of_mem_emitted emitted
    · obtain rfl := List.mem_singleton.1 page
      exact ⟨⟨_, rfl⟩, .inl rfl⟩

/-! ## A project whose page has the name of a directory -/

def slashedConfig : Config where
  name := "pages"
  entries := [("main", ["./main.js"])]
  html := { fileName := "pages/" }

def slashedOptions : Options := .ofConfig slashedConfig "/app" {}

/-- An image, which is no text. -/
def oldImage : ByteArray := ⟨#[0x89, 0x50, 0x4e, 0x47]⟩

theorem oldImage_ne_toUTF8 (text : String) : oldImage ≠ text.toUTF8 := by
  intro same
  have valid : oldImage.IsValidUTF8 := same ▸ text.isValidUTF8
  exact absurd valid (by decide)

/-- A project that was built before. -/
def oldPages : Storage where
  items := [(["app"], .directory), (["app", "main.js"], .file .empty),
    (["app", "build"], .directory), (["app", "build", "old.png"], .file oldImage)]
  workingDirectory := ["app"]

theorem locate_main :
    oldPages.locate true "/app/./main.js" = .ok (.taken ["app", "main.js"] (.file .empty)) ∧
      oldPages.locate true "/app/main.js" = .ok (.taken ["app", "main.js"] (.file .empty)) := by
  rw [locate_eq_locateSteps, locate_eq_locateSteps]
  exact ⟨rfl, rfl⟩

theorem locate_build (follow : Bool) :
    oldPages.locate follow "/app/build" = .ok (.taken ["app", "build"] .directory) := by
  rw [locate_eq_locateSteps]
  cases follow
  · rfl
  · rfl

/-- The only module of the project. -/
def mainModule : Module := ⟨0, "/app/main.js", "main.js", .empty, [], []⟩

def mainGraph : ModuleGraph where
  root := "/app"
  modules := ⟨#[mainModule]⟩
  entries := [⟨"main", [0]⟩]

theorem moduleGraph_oldPages :
    Discovery.moduleGraph oldPages slashedOptions .identity = .ok mainGraph := by
  have noImports : Import.scan (Text.Utf8.lenient .empty) = [] := by cbv
  exact moduleGraph_of_main rfl rfl locate_main noImports

theorem exists_assembly_oldPages :
    ∃ assembly, (assemble oldPages slashedOptions {}).result = .ok assembly ∧
      (∃ file ∈ assembly.files, file.path = "pages/") ∧
        ∀ file ∈ assembly.files, ∃ text : String, file.bytes = text.toUTF8 := by
  obtain ⟨found, _, made, _⟩ := exists_graphs moduleGraph_oldPages rfl
  obtain ⟨assembly, assembled, page, generated⟩ :=
    @exists_assembly oldPages slashedOptions {} found made collectAssets_nil rfl rfl
  exact ⟨assembly, assembled, page, fun file listed => (generated file listed).isText⟩

theorem exists_error_oldPages :
    ∃ error, (buildWith oldPages slashedOptions {}).2.result = .error error := by
  obtain ⟨assembly, assembled, ⟨page, listed, path⟩, _⟩ := exists_assembly_oldPages
  have slashed : splitEndSlashes (Path.join slashedOptions.outDir page.path) =
      ("/app/build/pages", true) := by
    rw [path]
    decide
  obtain ⟨failure, failed⟩ := exists_error_of_slash slashed listed slashedOptions.clean
  exact exists_error_of_write_error assembled failed

theorem exists_oldPages : oldPages.exists? slashedOptions.outDir = true := by
  rw [exists?, show slashedOptions.outDir = "/app/build" from rfl, locate_build]

theorem lost_oldPages {assembly : Assembly}
    (texts : ∀ file ∈ assembly.files, ∃ text : String, file.bytes = text.toUTF8) :
    ∀ bytes ∈ contentsOf assembly.files, Item.file oldImage ≠ .file bytes := by
  intro bytes member same
  obtain ⟨file, listed, rfl⟩ := List.mem_map.1 member
  obtain ⟨text, isText⟩ := texts file listed
  exact oldImage_ne_toUTF8 text ((Item.file.inj same).trans isText)

/-- The build fails for the name of the page, and the old image is lost. -/
theorem not_unchanged_oldPages :
    ∃ error, (buildWith oldPages slashedOptions {}).2.result = .error error ∧
      oldPages.itemAt? ["app", "build", "old.png"] = some (.file oldImage) ∧
        (buildWith oldPages slashedOptions {}).1.itemAt? ["app", "build", "old.png"] ≠
          some (.file oldImage) := by
  obtain ⟨error, failed⟩ := exists_error_oldPages
  obtain ⟨assembly, assembled, _, texts⟩ := exists_assembly_oldPages
  refine ⟨error, failed, rfl, ?_⟩
  rw [buildWith_of_assemble_ok assembled]
  exact itemAt?_write_ne exists_oldPages (locate_build false) nofun (by decide) rfl nofun
    (lost_oldPages texts)

theorem unchanged_iff_oldPages :
    ∃ error, (buildWith oldPages slashedOptions {}).2.result = .error error ∧
      ((buildWith oldPages slashedOptions {}).1 = oldPages ↔
        (assemble oldPages slashedOptions {}).result = .error error ∨
          Blocked oldPages slashedOptions.outDir) := by
  obtain ⟨error, failed⟩ := exists_error_oldPages
  obtain ⟨assembly, assembled, _, texts⟩ := exists_assembly_oldPages
  refine ⟨error, failed, unchanged_iff_of_failed failed fun other made => .inr ?_⟩
  obtain rfl : assembly = other := Except.ok.inj (assembled.symm.trans made)
  exact .clears rfl exists_oldPages (locate_build false) nofun
    (⟨["old.png"], rfl⟩ : ["app", "build"] <+: ["app", "build", "old.png"]) rfl nofun
      (lost_oldPages texts)

end WebBundle.Build
