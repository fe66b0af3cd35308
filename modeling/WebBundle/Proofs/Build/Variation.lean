import WebBundle.Proofs.Build.Idempotence

/-!
# Building again to something else

What a build reports depends on what it finds: every file below a directory of assets that is not
ignored is copied, and specifiers that lead to different paths stand for different modules. So a
build that looks at nothing in its output directory may still find more when it is run again, since
it has made the directory and those above it. A directory of assets may lie around the output, and a
path may lead through a directory above it. And if the path of the output steps up from a directory
that was missing, what lies in the output is removed only when it is built again.
-/

namespace WebBundle.Build

open Storage Output

variable {storage : Storage} {options : Options} {collaborators : Collaborators} {report : Report}
  {near : Place}

/-! ## What a build reports -/

/-- The files below a directory of assets are in the report, unless they are ignored. -/
theorem exists_file_of_copied {mapping : AssetMapping} {place : Place} {names : List String}
    {bytes : ByteArray} {ignore : List Pattern.Glob} {planned : PlannedAsset}
    (succeeds : (buildWith storage options collaborators).2.result = .ok report)
    (listed : mapping ∈ options.assets)
    (leads : storage.locate true mapping.source = .ok (.taken place .directory))
    (isRead : readGlobs mapping.ignore = .ok ignore) (below : names ≠ [])
    (file : storage.itemAt? (place ++ names) = some (.file bytes))
    (isPlanned : planFile mapping ignore names = some planned) :
    ∃ file ∈ report.files, file.path = planned.path := by
  obtain ⟨assembly, assembled, _⟩ := exists_assembly_of_buildWith succeeds
  obtain ⟨parts, set, composed⟩ := exists_parts assembled
  obtain ⟨asset, isAsset, path⟩ :=
    exists_asset_of_file composed.assets listed leads isRead below file isPlanned
  have gathered : assetFile asset ∈ parts.gathered options collaborators :=
    List.mem_append_left _ (List.mem_append_left _ (List.mem_map_of_mem isAsset))
  obtain ⟨kept, isKept, samePath⟩ : ∃ kept ∈ parts.files options collaborators,
      kept.path = (assetFile asset).path := Keyed.exists_mem_lasts gathered
  obtain ⟨last, isLast, samePath'⟩ :=
    exists_file_of_addWorker (Keyed.nodup_lasts _) composed.added isKept
  rw [eq_reportOn assembled succeeds]
  refine ⟨written last, mem_files_reportOn.2 ⟨last, ?_, rfl⟩, ?_⟩
  · rw [composed.assembly]
    exact isLast
  · exact samePath'.trans (samePath.trans path)

/-- Two specifiers of an entry that lead to different paths stand for two modules. -/
theorem two_le_modules {entry : String × List String} {first second path path' : String}
    (succeeds : (buildWith storage options collaborators).2.result = .ok report)
    (listed : entry ∈ options.entries) (named : first ∈ entry.2) (named' : second ∈ entry.2)
    (leads : (Resolver.mk options.searchPaths options.extensions).resolve? storage first
      options.root = some path)
    (leads' : (Resolver.mk options.searchPaths options.extensions).resolve? storage second
      options.root = some path')
    (apart : Path.normalize path ≠ Path.normalize path') : 2 ≤ report.modules := by
  obtain ⟨assembly, assembled, _⟩ := exists_assembly_of_buildWith succeeds
  obtain ⟨parts, set, composed⟩ := exists_parts assembled
  obtain ⟨discovered, _⟩ := exists_of_graphs composed.found
  obtain ⟨search, started, ended⟩ := Discovery.exists_rounds_of_moduleGraph discovered
  have closure := Discovery.isClosure_of_rounds started ended
  obtain ⟨id, module, found, resource⟩ :=
    Discovery.exists_module_of_isClosure closure listed named leads
  obtain ⟨id', module', found', resource'⟩ :=
    Discovery.exists_module_of_isClosure closure listed named' leads'
  have distinct : id ≠ id' := by
    rintro rfl
    obtain rfl := Option.some.inj (found.symm.trans found')
    exact apart (resource.symm.trans resource')
  have modules : report.modules = parts.found.modules.size := by
    rw [eq_reportOn assembled succeeds, composed.assembly]
    rfl
  have below := ModuleGraph.lt_size_iff.2 ⟨module, found⟩
  have below' := ModuleGraph.lt_size_iff.2 ⟨module', found'⟩
  omega

/-! ## Projects of one script -/

theorem noImports_empty : Import.scan (Text.Utf8.lenient .empty) = [] := by cbv

/-- An empty script beside the configuration is all that is built. -/
structure IsAlone (storage : Storage) (options : Options) : Prop where
  discovered : Discovery.moduleGraph storage options .identity = .ok (mainGraphOf .empty)
  noGroups : options.cacheGroups = []
  noLimits : Chunk.Limits.mk options.minSize options.maxInitialRequests = {}
  noAssets : collectAssets storage options.assets = ([], .ok [])
  noTemplate : options.htmlTemplate = none
  noWorker : options.worker = none
  pattern : options.fileName = "[name].js"
  page : options.htmlFileName = "index.html"

/-- The output directory is not there. Once it is made, the output finds its place in it. -/
structure MakesRoom (storage : Storage) (options : Options) (prepared : Storage) (near : Place) :
    Prop where
  tree : storage.IsTree
  clean : options.clean = true
  missing : storage.exists? options.outDir = false
  makes : Output.makeDirectories storage options.outDir = (prepared, .ok ())
  leads : prepared.locate true options.outDir = .ok (.taken near .directory)
  free (path : String) (listed : path ∈ ["index.html", "main.js", "runtime.js"]) :
    prepared.locate true (Path.join options.outDir path) = .ok (.vacant near path false)
  plain (path : String) (listed : path ∈ ["index.html", "main.js", "runtime.js"]) :
    splitEndSlashes (Path.join options.outDir path) = (Path.join options.outDir path, false) ∧
      Path.parent? (Path.join options.outDir path) = some options.outDir

namespace IsAlone

variable (alone : IsAlone storage options)

include alone

theorem graphs :
    (graphs storage options .identity).result = .ok ⟨mainGraphOf .empty, siteChunks⟩ := by
  obtain ⟨⟨modules, chunks⟩, reports, made, split⟩ := exists_graphs alone.discovered alone.noGroups
  obtain ⟨again, _⟩ := exists_of_graphs made
  obtain rfl : modules = mainGraphOf .empty := Except.ok.inj (again.symm.trans alone.discovered)
  rw [alone.noLimits] at split
  obtain rfl : chunks = siteChunks := (Chunk.split_ok split).1.trans (numbered_site .empty)
  exact made

theorem path_of_isGenerated {file : Output.File}
    (generated : IsGenerated options siteChunks file) :
    file.path ∈ ["index.html", "main.js", "runtime.js"] := by
  rcases generated.path with isPage | ⟨chunk, listed, digest, path⟩
  · rw [isPage, alone.page]
    exact List.mem_cons_self
  · have named : Chunk.fileName "[name].js" "main" digest = "main.js" ∧
        Chunk.fileName "[name].js" "runtime" digest = "runtime.js" := ⟨by cbv, by cbv⟩
    obtain ⟨main, runtime⟩ := named
    rw [path, alone.pattern]
    have listed : chunk = mainChunk ∨ chunk = runtimeChunk := by
      simpa [siteChunks] using listed
    rcases listed with rfl | rfl
    · simp [show mainChunk.name = "main" from rfl, main]
    · simp [show runtimeChunk.name = "runtime" from rfl, runtime]

/-- What is looked at are the script, the assets and the paths where the script is searched for. -/
theorem cases_of_isProbed {path : String} (probed : IsProbed storage options .identity path) :
    path = "/app/main.js" ∨ (∃ mapping ∈ options.assets, path = mapping.source) ∨
      ∃ entry ∈ options.entries, ∃ specifier ∈ entry.2,
        path ∈ (Resolver.mk options.searchPaths options.extensions).probes storage specifier
          options.root := by
  cases probed with
  | searched discovered probed =>
      obtain rfl := Except.ok.inj (alone.discovered.symm.trans discovered)
      exact (cases_of_isProbed_main noImports_empty probed).imp_right .inr
  | mapped listed => exact .inr (.inl ⟨_, listed, rfl⟩)
  | asset isPlan listed =>
      obtain ⟨asset, member, _⟩ :=
        exists_asset_of_planned (congrArg Prod.snd alone.noAssets) isPlan listed
      cases member
  | template given => simp [alone.noTemplate] at given
  | worker given => simp [alone.noWorker] at given

variable {prepared : Storage} (room : MakesRoom storage options prepared near)

include room

theorem exists_report :
    ∃ report, (buildWith storage options {}).2.result = .ok report ∧ report.modules = 1 ∧
      ∀ file ∈ report.files, file.path ∈ ["index.html", "main.js", "runtime.js"] := by
  obtain ⟨assembly, assembled, _, generated⟩ :=
    @exists_assembly storage options {} _ alone.graphs alone.noAssets alone.noTemplate
      alone.noWorker
  have paths : ∀ file ∈ assembly.files, file.path ∈ ["index.html", "main.js", "runtime.js"] :=
    fun file listed => alone.path_of_isGenerated (generated file listed)
  have above : prepared.isDirectory options.outDir = true := by
    rw [isDirectory, room.leads]
  obtain ⟨report, succeeds⟩ := exists_report_of_lands assembled (clear_of_not_exists room.missing)
    room.makes fun file listed => ⟨_, lands_of_vacant above (room.free _ (paths file listed))
      (room.plain _ (paths file listed)).1 (room.plain _ (paths file listed)).2⟩
  obtain ⟨parts, set, composed⟩ := exists_parts assembled
  have found : parts.found = ⟨mainGraphOf .empty, siteChunks⟩ :=
    Except.ok.inj (composed.found.symm.trans alone.graphs)
  refine ⟨report, succeeds, ?_, fun file listed => ?_⟩
  · rw [eq_reportOn assembled succeeds, composed.assembly, found]
    rfl
  · rw [eq_reportOn assembled succeeds] at listed
    obtain ⟨source, given, rfl⟩ := mem_files_reportOn.1 listed
    exact paths source given

theorem exists_writesOnly :
    ∃ contents, WritesOnly contents prepared (buildWith storage options {}).1 := by
  obtain ⟨report, succeeds, _⟩ := alone.exists_report room
  exact exists_writesOnly_of_buildWith (clear_of_not_exists room.missing) room.makes succeeds

/-- The page is in the output directory. -/
theorem exists_page : ∃ bytes, (buildWith storage options {}).1.itemAt? (near ++ ["index.html"]) =
    some (.file bytes) := by
  obtain ⟨report, succeeds, _⟩ := alone.exists_report room
  obtain ⟨contents, only⟩ := alone.exists_writesOnly room
  obtain ⟨assembly, assembled, written⟩ := exists_assembly_of_buildWith succeeds
  obtain ⟨_, _, _, _, writes⟩ := exists_made_of_write written
  obtain ⟨other, assembled', ⟨page, listed, path⟩, _⟩ :=
    @exists_assembly storage options {} _ alone.graphs alone.noAssets alone.noTemplate
      alone.noWorker
  obtain rfl : other = assembly := Except.ok.inj (assembled'.symm.trans assembled)
  obtain ⟨place, last, _, ends⟩ := exists_lastAt writes listed
  rw [path, alone.page] at ends
  exact only.exists_file_of_vacant (room.free "index.html" List.mem_cons_self) ends

end IsAlone

/-! ## Projects that are not built again to the same -/

/-- Building looks at nothing in the output directory, but comes to something else when it is done
again. -/
structure Varies (storage : Storage) (options : Options) (near : Place) : Prop where
  tree : storage.IsTree
  clean : options.clean = true
  isOut : IsOutPlace storage (buildWith storage options {}).1 options.outDir near
  outside (path : String) (probed : IsProbed storage options .identity path) :
    ∀ met ∈ storage.met path, ¬near <+: met.position
  succeeds : ∃ report, (buildWith storage options {}).2.result = .ok report ∧
    ∀ file ∈ report.files, Path.IsNormal file.path
  differs : ¬((buildWith (buildWith storage options {}).1 options {}).1 =
      (buildWith storage options {}).1 ∧
    (buildWith (buildWith storage options {}).1 options {}).2.result =
      (buildWith storage options {}).2.result)

theorem varies_of_isAlone {prepared : Storage} (alone : IsAlone storage options)
    (room : MakesRoom storage options prepared near)
    (outside : ∀ path, IsProbed storage options .identity path →
      ∀ met ∈ storage.met path, ¬near <+: met.position)
    (differs : ∀ report, report.modules = 1 →
      (∀ file ∈ report.files, file.path ∈ ["index.html", "main.js", "runtime.js"]) →
      (buildWith (buildWith storage options {}).1 options {}).1 =
        (buildWith storage options {}).1 →
      (buildWith (buildWith storage options {}).1 options {}).2.result ≠ .ok report) :
    Varies storage options near := by
  obtain ⟨report, succeeds, modules, paths⟩ := alone.exists_report room
  constructor
  case tree => exact room.tree
  case clean => exact room.clean
  case isOut =>
    exact isOutPlace_of_buildWith (clear_of_not_exists room.missing) room.makes succeeds
      (.made room.missing room.leads)
  case outside => exact outside
  case succeeds =>
    have plain : ∀ path ∈ ["index.html", "main.js", "runtime.js"], Path.IsNormal path := by
      decide
    exact ⟨report, succeeds, fun file listed => plain _ (paths file listed)⟩
  case differs =>
    rintro ⟨unchanged, same⟩
    exact differs report modules paths unchanged (same.trans succeeds)

/-- The configuration of a project with its output at some path. -/
def configTo (path : String) : Config where
  name := "pages"
  entries := [("main", ["./main.js"])]
  output := { path, fileName := "[name].js" }

/-! ### A directory of assets around the output -/

def surroundedOptions : Options :=
  .ofConfig { configTo "static/web" with assets := [{ source := "static" }] } "/app" {}

def surroundedPages : Storage where
  items := [(["app"], .directory), (["app", "main.js"], .file .empty),
    (["app", "static"], .directory)]
  workingDirectory := ["app"]

def preparedSurrounded : Storage := surroundedPages.put ["app", "static", "web"] .directory

theorem locate_surrounded :
    surroundedPages.locate true "/app/./main.js" =
        .ok (.taken ["app", "main.js"] (.file .empty)) ∧
      surroundedPages.locate true "/app/main.js" =
        .ok (.taken ["app", "main.js"] (.file .empty)) := by
  rw [locate_eq_locateSteps, locate_eq_locateSteps]
  exact ⟨rfl, rfl⟩

/-- There are no assets yet. -/
theorem collectAssets_surrounded :
    collectAssets surroundedPages surroundedOptions.assets = ([], .ok []) := by
  have leads : surroundedPages.locate true "/app/static" =
      .ok (.taken ["app", "static"] .directory) := by
    rw [locate_eq_locateSteps]
    rfl
  have nothing : planMapping surroundedPages ⟨"/app/static", "", []⟩ = .ok [] := by
    simp only [planMapping, isFile, isDirectory, filesAt, leads]
    cbv
  rw [show surroundedOptions.assets = [⟨"/app/static", "", []⟩] by decide, collectAssets,
    planMappings, nothing]
  cbv

theorem alone_surrounded : IsAlone surroundedPages surroundedOptions :=
  ⟨moduleGraph_of_main rfl rfl locate_surrounded noImports_empty, rfl, rfl,
    collectAssets_surrounded, rfl, rfl, rfl, rfl⟩

theorem makesRoom_surrounded : MakesRoom surroundedPages surroundedOptions preparedSurrounded
    ["app", "static", "web"] := by
  constructor
  case tree =>
    intro entry listed
    simp only [surroundedPages, List.mem_cons, List.not_mem_nil, or_false] at listed
    rcases listed with rfl | rfl | rfl
    · rfl
    · rfl
    · rfl
  case clean => rfl
  case missing =>
    rw [exists?, locate_eq_locateSteps]
    rfl
  case makes =>
    have free : surroundedPages.locate false surroundedOptions.outDir =
        .ok (.vacant ["app", "static"] "web" false) := by
      rw [locate_eq_locateSteps]
      rfl
    rw [Output.makeDirectories, makeDirectories_of_vacant free]
    rfl
  case leads =>
    rw [locate_eq_locateSteps]
    rfl
  case free =>
    intro path listed
    rw [locate_eq_locateSteps]
    simp only [List.mem_cons, List.not_mem_nil, or_false] at listed
    rcases listed with rfl | rfl | rfl
    · rfl
    · rfl
    · rfl
  case plain => decide

/-- The page that was built is copied the next time. -/
theorem varies_surrounded :
    Varies surroundedPages surroundedOptions ["app", "static", "web"] := by
  refine varies_of_isAlone alone_surrounded makesRoom_surrounded ?_ ?_
  · intro path probed
    rcases alone_surrounded.cases_of_isProbed probed with rfl | ⟨_, listed, rfl⟩ |
      ⟨_, listed, _, named, searched⟩
    · decide
    · obtain rfl := List.mem_singleton.1 listed
      decide
    · obtain rfl := List.mem_singleton.1 listed
      obtain rfl := List.mem_singleton.1 named
      obtain rfl := eq_of_mem_probes_main locate_surrounded.1 searched
      decide
  · intro report _ paths _ same
    obtain ⟨bytes, page⟩ := alone_surrounded.exists_page makesRoom_surrounded
    obtain ⟨contents, only⟩ := alone_surrounded.exists_writesOnly makesRoom_surrounded
    have around : preparedSurrounded.locate true "/app/static" =
        .ok (.taken ["app", "static"] .directory) := by
      rw [locate_eq_locateSteps]
      rfl
    have isPlanned : planFile ⟨"/app/static", "", []⟩ [] ["web", "index.html"] =
        some ⟨"/app/static/web/index.html", "web/index.html"⟩ := by decide
    obtain ⟨file, listed, path⟩ := exists_file_of_copied same List.mem_cons_self
      (only.locate around (only.directory rfl)) rfl (by simp) page isPlanned
    have copied := paths file listed
    rw [path] at copied
    simp at copied

/-! ### A path through a directory above the output -/

def crossedOptions : Options :=
  .ofConfig { configTo "gen/web" with
    entries := [("main", ["main.js", "./main.js"])]
    resolve := { modules := ["gen/../lib", "."] } } "/app" {}

def crossedPages : Storage where
  items := [(["app"], .directory), (["app", "main.js"], .file .empty), (["app", "lib"], .directory),
    (["app", "lib", "main.js"], .file .empty)]
  workingDirectory := ["app"]

def preparedCrossed : Storage :=
  (crossedPages.put ["app", "gen"] .directory).put ["app", "gen", "web"] .directory

def crossedResolver : Resolver := ⟨["/app/gen/../lib", "/app/."], [".js"]⟩

theorem resolver_crossed :
    Resolver.mk crossedOptions.searchPaths crossedOptions.extensions = crossedResolver := by
  have paths : crossedOptions.searchPaths = ["/app/gen/../lib", "/app/."] := by decide
  rw [paths]
  rfl

theorem bases_crossed :
    crossedResolver.bases "/app" "main.js" = ["/app/gen/../lib/main.js", "/app/./main.js"] ∧
      crossedResolver.bases "/app" "./main.js" = ["/app/./main.js"] := by
  decide

theorem isFile_crossed : crossedPages.isFile "/app/./main.js" = true := by
  rw [isFile_eq_locateSteps]
  rfl

/-- Where the script is searched for by way of the directory that is missing. -/
def crossedProbes : List String :=
  ["/app/gen/../lib/main.js", "/app/gen/../lib/main.js.js", "/app/gen/../lib/main.js/package.json",
    "/app/gen/../lib/main.js/index", "/app/gen/../lib/main.js/index.js"]

theorem locate_crossed {path : String} (listed : path ∈ crossedProbes) :
    crossedPages.locate true path = .error .missing := by
  rw [locate_eq_locateSteps]
  simp only [crossedProbes, List.mem_cons, List.not_mem_nil, or_false] at listed
  rcases listed with rfl | rfl | rfl | rfl | rfl
  · rfl
  · rfl
  · rfl
  · rfl
  · rfl

theorem not_isFile_crossed {path : String} (listed : path ∈ crossedProbes) :
    crossedPages.isFile path = false := by
  rw [Storage.isFile, locate_crossed listed]

theorem path?_crossed :
    crossedResolver.path? crossedPages "/app/gen/../lib/main.js" = none ∧
      crossedResolver.path? crossedPages "/app/./main.js" = some "/app/./main.js" := by
  have noFile := @not_isFile_crossed "/app/gen/../lib/main.js" (by decide)
  have noScript := @not_isFile_crossed "/app/gen/../lib/main.js.js" (by decide)
  have noDirectory : crossedPages.isDirectory "/app/gen/../lib/main.js" = false := by
    rw [Storage.isDirectory, locate_crossed (by decide)]
  constructor
  · simp [Resolver.path?, Resolver.file?, Resolver.candidates, Resolver.directory?,
      Resolver.redirectBound, crossedResolver, noFile, noScript, noDirectory]
  · simp [Resolver.path?, Resolver.file?, Resolver.candidates, isFile_crossed]

theorem pathProbes_crossed :
    crossedResolver.pathProbes crossedPages "/app/gen/../lib/main.js" = crossedProbes ∧
      crossedResolver.pathProbes crossedPages "/app/./main.js" = ["/app/./main.js"] := by
  have noFile := @not_isFile_crossed "/app/gen/../lib/main.js" (by decide)
  have noScript := @not_isFile_crossed "/app/gen/../lib/main.js.js" (by decide)
  have noIndex := @not_isFile_crossed "/app/gen/../lib/main.js/index" (by decide)
  have noIndexScript := @not_isFile_crossed "/app/gen/../lib/main.js/index.js" (by decide)
  have description : Path.join "/app/gen/../lib/main.js" Resolver.descriptionName =
      "/app/gen/../lib/main.js/package.json" := by decide
  have index : Path.join "/app/gen/../lib/main.js" "index" = "/app/gen/../lib/main.js/index" := by
    decide
  have noMain : Resolver.main? crossedPages "/app/gen/../lib/main.js" = none := by
    rw [Resolver.main?, description, Storage.readText, Storage.read, locate_crossed (by decide)]
  constructor
  · simp [Resolver.pathProbes, Resolver.fileProbes, Resolver.tried, Resolver.candidates,
      Resolver.file?, Resolver.directoryProbes, Resolver.redirectBound, Resolver.indexProbes,
      crossedResolver, crossedProbes, noFile, noScript, noIndex, noIndexScript, noMain,
      description, index]
  · simp [Resolver.pathProbes, Resolver.fileProbes, Resolver.tried, Resolver.candidates,
      Resolver.file?, isFile_crossed]

theorem resolve?_crossed {specifier : String} (listed : specifier ∈ ["main.js", "./main.js"]) :
    crossedResolver.resolve? crossedPages specifier "/app" = some "/app/./main.js" := by
  simp only [List.mem_cons, List.not_mem_nil, or_false] at listed
  rcases listed with rfl | rfl
  · rw [Resolver.resolve?, bases_crossed.1]
    simp [path?_crossed]
  · exact resolve?_of_isFile bases_crossed.2 isFile_crossed

theorem mem_of_probes_crossed {specifier path : String}
    (listed : specifier ∈ ["main.js", "./main.js"])
    (probed : path ∈ crossedResolver.probes crossedPages specifier "/app") :
    path ∈ crossedProbes ++ ["/app/./main.js"] := by
  simp only [List.mem_cons, List.not_mem_nil, or_false] at listed
  rcases listed with rfl | rfl
  · rw [Resolver.probes, bases_crossed.1] at probed
    simpa only [Resolver.tried, path?_crossed.1, Option.isSome_none, Bool.false_eq_true, if_false,
      ite_self, List.flatMap_cons, List.flatMap_nil, List.append_nil,
      pathProbes_crossed.1, pathProbes_crossed.2] using probed
  · rw [Resolver.probes_of_isFile bases_crossed.2 isFile_crossed] at probed
    exact List.mem_append_right _ probed

/-- Both specifiers stand for the script beside the configuration. -/
theorem moduleGraph_crossed :
    Discovery.moduleGraph crossedPages crossedOptions .identity = .ok (mainGraphOf .empty) := by
  let project := Discovery.project crossedPages crossedOptions .identity
  have plain : Path.normalize "/app/./main.js" = "/app/main.js" := by decide
  have name : Path.relativeTo "/app" "/app/./main.js" = "main.js" := by decide
  have leads : crossedPages.locate true "/app/main.js" =
      .ok (.taken ["app", "main.js"] (.file .empty)) := by
    rw [locate_eq_locateSteps]
    rfl
  have isRead : crossedPages.read (Path.normalize "/app/./main.js") = .ok .empty := by
    rw [plain, Storage.read, leads]
  have started : Discovery.resolveEntries project "/app" [("main", ["main.js", "./main.js"])]
      ⟨.empty "/app", []⟩ = .ok ⟨aloneGraph "/app" "main" "/app/./main.js" .empty, [0]⟩ := by
    have resolver : project.resolver = crossedResolver := resolver_crossed
    have storage : project.storage = crossedPages := rfl
    have bare := @resolve?_crossed "main.js" (by simp)
    have dotted := @resolve?_crossed "./main.js" (by simp)
    simp only [Discovery.resolveEntries, Discovery.resolveEntry, resolver, storage, bare, dotted]
    rfl
  have found : Discovery.moduleGraph crossedPages crossedOptions .identity =
      .ok (aloneGraph "/app" "main" "/app/./main.js" .empty) :=
    moduleGraph_of_started started isRead noImports_empty
  rw [found, aloneGraph, aloneModule, plain, name]
  rfl

theorem alone_crossed : IsAlone crossedPages crossedOptions :=
  ⟨moduleGraph_crossed, rfl, rfl, collectAssets_nil, rfl, rfl, rfl, rfl⟩

theorem makesRoom_crossed : MakesRoom crossedPages crossedOptions preparedCrossed
    ["app", "gen", "web"] := by
  constructor
  case tree =>
    intro entry listed
    simp only [crossedPages, List.mem_cons, List.not_mem_nil, or_false] at listed
    rcases listed with rfl | rfl | rfl | rfl
    · rfl
    · rfl
    · rfl
    · rfl
  case clean => rfl
  case missing =>
    rw [exists?, locate_eq_locateSteps]
    rfl
  case makes =>
    have free : crossedPages.locate false "/app/gen" = .ok (.vacant ["app"] "gen" false) := by
      rw [locate_eq_locateSteps]
      rfl
    have lost : crossedPages.locate false "/app/gen/web" = .error .missing := by
      rw [locate_eq_locateSteps]
      rfl
    have freeLater : (crossedPages.put ["app", "gen"] .directory).locate false "/app/gen/web" =
        .ok (.vacant ["app", "gen"] "web" false) := by
      rw [locate_eq_locateSteps]
      rfl
    have makes : crossedPages.makeDirectories crossedOptions.outDir = (preparedCrossed, .ok ()) :=
      makeDirectoriesIn_of_missing rfl lost (by decide) (makeDirectoriesIn_of_vacant free 11)
        (ensureDirectory_of_vacant freeLater)
    rw [Output.makeDirectories, makes]
    rfl
  case leads =>
    rw [locate_eq_locateSteps]
    rfl
  case free =>
    intro path listed
    rw [locate_eq_locateSteps]
    simp only [List.mem_cons, List.not_mem_nil, or_false] at listed
    rcases listed with rfl | rfl | rfl
    · rfl
    · rfl
    · rfl
  case plain => decide

/-- The first specifier stands for another script the next time. -/
theorem varies_crossed : Varies crossedPages crossedOptions ["app", "gen", "web"] := by
  refine varies_of_isAlone alone_crossed makesRoom_crossed ?_ ?_
  · intro path probed
    have listed : path ∈ "/app/main.js" :: (crossedProbes ++ ["/app/./main.js"]) := by
      rcases alone_crossed.cases_of_isProbed probed with rfl | ⟨_, listed, rfl⟩ |
        ⟨_, listed, _, named, searched⟩
      · exact List.mem_cons_self
      · cases listed
      · obtain rfl := List.mem_singleton.1 listed
        rw [resolver_crossed] at searched
        exact List.mem_cons_of_mem _ (mem_of_probes_crossed named searched)
    have apart : ∀ path ∈ "/app/main.js" :: (crossedProbes ++ ["/app/./main.js"]),
        ∀ met ∈ crossedPages.met path, ¬["app", "gen", "web"] <+: met.position := by
      decide
    exact apart path listed
  · intro report one _ _ same
    obtain ⟨contents, only⟩ := alone_crossed.exists_writesOnly makesRoom_crossed
    have crossed : preparedCrossed.isFile "/app/gen/../lib/main.js" = true := by
      rw [isFile_eq_locateSteps]
      rfl
    have dotted : preparedCrossed.isFile "/app/./main.js" = true := by
      rw [isFile_eq_locateSteps]
      rfl
    have leads := resolve?_of_isFile bases_crossed.1 (only.isFile crossed)
    have leads' := resolve?_of_isFile bases_crossed.2 (only.isFile dotted)
    rw [← resolver_crossed] at leads leads'
    have two := two_le_modules same List.mem_cons_self (by simp) (by simp) leads leads' (by decide)
    omega

/-! ### An output path that steps up from a directory that is made -/

def steppedOptions : Options := .ofConfig (configTo "x/../web") "/app" {}

def steppedPages : Storage where
  items := [(["app"], .directory), (["app", "main.js"], .file .empty), (["app", "web"], .directory),
    (["app", "web", "latest.js"], .link "main.js")]
  workingDirectory := ["app"]

def preparedStepped : Storage := steppedPages.put ["app", "x"] .directory

theorem locate_stepped :
    steppedPages.locate true "/app/./main.js" =
        .ok (.taken ["app", "main.js"] (.file .empty)) ∧
      steppedPages.locate true "/app/main.js" =
        .ok (.taken ["app", "main.js"] (.file .empty)) := by
  rw [locate_eq_locateSteps, locate_eq_locateSteps]
  exact ⟨rfl, rfl⟩

theorem alone_stepped : IsAlone steppedPages steppedOptions :=
  ⟨moduleGraph_of_main rfl rfl locate_stepped noImports_empty, rfl, rfl, collectAssets_nil, rfl,
    rfl, rfl, rfl⟩

theorem makeDirectories_stepped : Output.makeDirectories steppedPages steppedOptions.outDir =
    (preparedStepped, .ok ()) := by
  have free : steppedPages.locate false "/app/x" = .ok (.vacant ["app"] "x" false) := by
    rw [locate_eq_locateSteps]
    rfl
  have lost (path : String) (listed : path ∈ ["/app/x/..", "/app/x/../web"]) :
      steppedPages.locate false path = .error .missing := by
    rw [locate_eq_locateSteps]
    simp only [List.mem_cons, List.not_mem_nil, or_false] at listed
    rcases listed with rfl | rfl
    · rfl
    · rfl
  have there (path : String) (listed : path ∈ ["/app/x/..", "/app/x/../web"]) :
      preparedStepped.ensureDirectory path = .ok preparedStepped := by
    refine ensureDirectory_of_isDirectory ?_
    rw [isDirectory, locate_eq_locateSteps]
    simp only [List.mem_cons, List.not_mem_nil, or_false] at listed
    rcases listed with rfl | rfl
    · rfl
    · rfl
  have first := makeDirectoriesIn_of_vacant free 11
  have second := makeDirectoriesIn_of_missing rfl (lost "/app/x/.." (by simp)) (by decide) first
    (there _ (by simp))
  have third := makeDirectoriesIn_of_missing rfl (lost "/app/x/../web" (by simp)) (by decide) second
    (there _ (by simp))
  have makes : steppedPages.makeDirectories steppedOptions.outDir = (preparedStepped, .ok ()) :=
    third
  rw [Output.makeDirectories, makes]
  rfl

theorem makesRoom_stepped :
    MakesRoom steppedPages steppedOptions preparedStepped ["app", "web"] := by
  constructor
  case tree =>
    intro entry listed
    simp only [steppedPages, List.mem_cons, List.not_mem_nil, or_false] at listed
    rcases listed with rfl | rfl | rfl | rfl
    · rfl
    · rfl
    · rfl
    · rfl
  case clean => rfl
  case missing =>
    rw [exists?, locate_eq_locateSteps]
    rfl
  case makes => exact makeDirectories_stepped
  case leads =>
    rw [locate_eq_locateSteps]
    rfl
  case free =>
    intro path listed
    rw [locate_eq_locateSteps]
    simp only [List.mem_cons, List.not_mem_nil, or_false] at listed
    rcases listed with rfl | rfl | rfl
    · rfl
    · rfl
    · rfl
  case plain => decide

/-- The link that lies in the output directory is removed the next time. -/
theorem varies_stepped : Varies steppedPages steppedOptions ["app", "web"] := by
  refine varies_of_isAlone alone_stepped makesRoom_stepped ?_ ?_
  · intro path probed
    rcases alone_stepped.cases_of_isProbed probed with rfl | ⟨_, listed, rfl⟩ |
      ⟨_, listed, _, named, searched⟩
    · decide
    · cases listed
    · obtain rfl := List.mem_singleton.1 listed
      obtain rfl := List.mem_singleton.1 named
      obtain rfl := eq_of_mem_probes_main locate_stepped.1 searched
      decide
  · intro report _ _ unchanged same
    obtain ⟨contents, only⟩ := alone_stepped.exists_writesOnly makesRoom_stepped
    have leads : preparedStepped.locate false steppedOptions.outDir =
        .ok (.taken ["app", "web"] .directory) := by
      rw [locate_eq_locateSteps]
      rfl
    have leads' := only.locate leads (only.directory rfl)
    have link := only.link (show preparedStepped.itemAt? ["app", "web", "latest.js"] =
      some (.link "main.js") from rfl)
    obtain ⟨assembly, _, written⟩ := exists_assembly_of_buildWith same
    rw [unchanged] at written
    have there : (buildWith steppedPages steppedOptions {}).1.exists? steppedOptions.outDir =
        true := by
      rw [exists?, locate_follow leads' (by simp)]
    have lost := @itemAt?_write_ne _ _ assembly.files _ _ _ _ there leads' (by simp)
      (⟨["latest.js"], rfl⟩ : ["app", "web"] <+: ["app", "web", "latest.js"]) link (by simp) (by simp)
    rw [show steppedOptions.clean = true from rfl] at written
    rw [written] at lost
    exact lost link

/-- Each of the three ways keeps a build from being idempotent. -/
theorem varies_projects :
    Varies surroundedPages surroundedOptions ["app", "static", "web"] ∧
      Varies crossedPages crossedOptions ["app", "gen", "web"] ∧
        Varies steppedPages steppedOptions ["app", "web"] :=
  ⟨varies_surrounded, varies_crossed, varies_stepped⟩

end WebBundle.Build
