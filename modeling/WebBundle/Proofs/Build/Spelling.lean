import WebBundle.Proofs.Build.Precache
import WebBundle.Proofs.Output.Spelling

/-!
# Places of the written files

The files of an output have paths of their own, as they are spelt. Two spellings of one place are
not told from each other, and both are written. The worker and assets of plain names have resource
paths, so it takes a page or a chunk whose name is configured in another spelling, an asset that is
copied to the root, or one whose name is not plain.
-/

namespace WebBundle.Build

open Storage Output

variable {storage : Storage} {options : Options} {collaborators : Collaborators}
  {assembly : Assembly}

/-- A file whose path is not made a resource path: it is spelt as the name of the page or the
pattern for chunks is, or it is an asset of a mapping that misspells. -/
inductive MayMisspell (storage : Storage) (options : Options) (chunks : List EmittedChunk)
    (file : Output.File) : Prop where
  | page (kind : file.kind = .html) (path : file.path = options.htmlFileName)
  | chunk (kind : file.kind = .chunk) (path : ∃ chunk ∈ chunks, file.path = chunk.fileName)
  | asset (kind : file.kind = .asset) (odd : ∃ mapping ∈ options.assets, Misspells storage mapping)

/-- What is known of the places of written files. The paths are distinct as they are spelt, and the
places are exactly if no file has a second spelling of the path of another one. -/
structure Placed (storage : Storage) (options : Options) (collaborators : Collaborators)
    (assembly : Assembly) : Prop where
  written : (buildWith storage options collaborators).1 =
    (write storage options.outDir assembly.files options.clean).1
  paths : (assembly.files.map Output.File.path).Nodup
  places : (assembly.files.map Output.File.place).Nodup ↔
    ∀ file ∈ assembly.files, file.place ≠ file.path →
      ∀ other ∈ assembly.files, other.place = file.place → other.path = file.path
  spelling : ∀ file ∈ assembly.files, file.place ≠ file.path →
    MayMisspell storage options assembly.chunks file
  plain : Path.normalize options.htmlFileName = options.htmlFileName →
    (∀ chunk ∈ assembly.chunks, Path.normalize chunk.fileName = chunk.fileName) →
      (∀ mapping ∈ options.assets, ¬ Misspells storage mapping) →
        (assembly.files.map Output.File.place).Nodup

/-- If the paths are distinct, so are the places, unless two files share one in two spellings. -/
theorem nodup_places_iff {files : List Output.File}
    (distinct : (files.map Output.File.path).Nodup) :
    (files.map Output.File.place).Nodup ↔
      ∀ file ∈ files, file.place ≠ file.path →
        ∀ other ∈ files, other.place = file.place → other.path = file.path := by
  constructor
  · intro apart file listed _ other listed' same
    exact congrArg Output.File.path (List.inj_on_of_nodup_map apart listed' listed same)
  · intro alone
    refine List.Nodup.map_on ?_ distinct.of_map
    intro file listed other listed' same
    refine List.inj_on_of_nodup_map distinct listed listed' ?_
    by_cases odd : file.place = file.path
    · by_cases odd' : other.place = other.path
      · exact odd.symm.trans (same.trans odd')
      · exact alone other listed' odd' file listed same
    · exact (alone file listed odd other listed' same.symm).symm

/-! ## Where spellings come from -/

theorem resource_of_ofConfig {config : Config} {root : String} {overrides : Overrides} :
    ∀ mapping ∈ (Options.ofConfig config root overrides).assets,
      Path.normalize mapping.target = mapping.target := by
  intro mapping listed
  obtain ⟨given, _, rfl⟩ := List.mem_map.1 listed
  exact Path.normalize_normalize given.target

theorem resource_of_worker {config : Config} {root : String} {overrides : Overrides}
    {worker : WorkerSettings}
    (given : (Options.ofConfig config root overrides).worker = some worker) :
    Path.normalize worker.target = worker.target := by
  obtain ⟨settings, _, rfl⟩ := Option.map_eq_some_iff.1 given
  exact Path.normalize_normalize settings.target

section

variable {parts : Parts} {set : FileSet} {file : Output.File}

theorem mayMisspell_of_mem_files
    (resources : ∀ mapping ∈ options.assets, Path.normalize mapping.target = mapping.target)
    (composed : AssembledFrom storage options collaborators parts set assembly)
    (listed : file ∈ parts.files options collaborators) (odd : file.place ≠ file.path) :
    MayMisspell storage options (parts.chunks options collaborators) file := by
  have gathered := Keyed.mem_of_mem_lasts Output.File.path listed
  rcases List.mem_append.1 gathered with others | isPage
  · rcases List.mem_append.1 others with isAsset | isChunk
    · obtain ⟨asset, member, rfl⟩ := List.mem_map.1 isAsset
      exact .asset rfl (exists_misspells_of_asset resources composed.assets member odd)
    · obtain ⟨chunk, member, rfl⟩ := List.mem_map.1 isChunk
      exact .chunk rfl ⟨chunk, member, rfl⟩
  · obtain rfl := List.mem_singleton.1 isPage
    exact .page rfl rfl

/-- A file is one of the others or the worker. -/
theorem mem_files_of_addWorker {files : List Output.File}
    (distinct : (files.map Output.File.path).Nodup)
    (added : (addWorker storage options files).result = .ok set) (listed : file ∈ set.files) :
    file ∈ files ∨ ∃ worker, options.worker = some worker ∧ file.path = worker.target := by
  cases given : options.worker with
  | none =>
      rw [addWorker, given] at added
      obtain rfl := Except.ok.inj added
      exact .inl listed
  | some worker =>
      obtain ⟨globs, script, adds⟩ := exists_of_addWorker distinct given added
      rw [adds.others] at listed
      rcases List.mem_append.1 listed with other | isWorker
      · exact .inl (List.mem_filter.1 other).1
      · obtain rfl := List.mem_singleton.1 isWorker
        exact .inr ⟨worker, rfl, rfl⟩

end

/-- What is known of the places of the files that a build writes with a configuration. -/
theorem placed_of_assemble {config : Config} {root : String} {overrides : Overrides}
    (assembled : (assemble storage (.ofConfig config root overrides) collaborators).result =
      .ok assembly) :
    Placed storage (.ofConfig config root overrides) collaborators assembly := by
  obtain ⟨parts, set, composed⟩ := exists_parts assembled
  have apart : ((parts.files (.ofConfig config root overrides) collaborators).map
      Output.File.path).Nodup := Keyed.nodup_lasts _
  have files : assembly.files = set.files := by rw [composed.assembly]
  have chunks : assembly.chunks = parts.chunks (.ofConfig config root overrides) collaborators := by
    rw [composed.assembly]
  have distinct : (assembly.files.map Output.File.path).Nodup :=
    files ▸ nodup_paths_of_addWorker apart composed.added
  have spelling : ∀ file ∈ assembly.files, file.place ≠ file.path →
      MayMisspell storage (.ofConfig config root overrides) assembly.chunks file := by
    intro file listed odd
    rw [files] at listed
    rw [chunks]
    -- The worker is no exception: its target was made a resource path with the options.
    rcases mem_files_of_addWorker apart composed.added listed with other | ⟨worker, given, path⟩
    · exact mayMisspell_of_mem_files resource_of_ofConfig composed other odd
    · rw [Output.File.place, path] at odd
      exact absurd (resource_of_worker given) odd
  refine ⟨buildWith_of_assemble_ok assembled, distinct, nodup_places_iff distinct, spelling, ?_⟩
  intro page patterns mappings
  refine (nodup_places_iff distinct).2 fun file listed odd => absurd odd ?_
  rw [not_not, Output.File.place]
  cases spelling file listed odd with
  | page _ path => exact path ▸ page
  | chunk _ path =>
      obtain ⟨chunk, member, path⟩ := path
      exact path ▸ patterns chunk member
  | asset _ odd =>
      obtain ⟨mapping, member, misspells⟩ := odd
      exact absurd misspells (mappings mapping member)

theorem placed_site :
    ∃ assembly, (assemble (siteWith .empty) siteOptions {}).result = .ok assembly ∧
      Placed (siteWith .empty) siteOptions {} assembly ∧
        (assembly.files.map Output.File.place).Nodup := by
  have noImports : Import.scan (Text.Utf8.lenient .empty) = [] := by cbv
  obtain ⟨assembly, assembled⟩ := exists_assembly_site .empty noImports
  have placed : Placed (siteWith .empty) siteOptions {} assembly :=
    @placed_of_assemble (siteWith .empty) {} assembly siteConfig "/app" {} assembled
  refine ⟨assembly, assembled, placed, placed.places.2 fun file listed odd => absurd ?_ odd⟩
  have path := path_of_mem_site .empty noImports assembled file listed
  have resources : ∀ path ∈ ["index.html", "main.js", "runtime.js", "sw.js"],
      Path.normalize path = path := by decide
  exact resources file.path path

/-! ## A page in another spelling -/

def indexText : String :=
  "[project]\nname = \"pages\"\n[entry]\nmain = \"./main.js\"\n" ++
    "[[assets]]\nfrom = \"index.html\"\n[html]\nfilename = \"./index.html\"\n"

def indexConfig : Config where
  name := "pages"
  entries := [("main", ["./main.js"])]
  assets := [{ source := "index.html" }]
  html := { fileName := "./index.html" }

def indexOptions : Options := .ofConfig indexConfig "/app" {}

def indexPages : Storage where
  items := [(["app"], .directory), (["app", "main.js"], .file .empty),
    (["app", "index.html"], .file .empty)]
  workingDirectory := ["app"]

def indexAsset : Asset :=
  ⟨"index.html", "/app/index.html", .empty, ContentDigest.ofBytes .empty⟩

theorem locate_indexPages :
    indexPages.locate true "/app/./main.js" = .ok (.taken ["app", "main.js"] (.file .empty)) ∧
      indexPages.locate true "/app/main.js" = .ok (.taken ["app", "main.js"] (.file .empty)) ∧
        indexPages.locate true "/app/index.html" =
          .ok (.taken ["app", "index.html"] (.file .empty)) := by
  rw [locate_eq_locateSteps, locate_eq_locateSteps, locate_eq_locateSteps]
  exact ⟨rfl, rfl, rfl⟩

theorem collectAssets_indexPages :
    collectAssets indexPages indexOptions.assets = ([], .ok [indexAsset]) := by
  let mapping : AssetMapping := { source := "/app/index.html", target := "" }
  let planned : PlannedAsset := ⟨"/app/index.html", "index.html"⟩
  have mappings : indexOptions.assets = [mapping] := by decide
  have name : destination "" (String.ofList ((Path.fileName? "/app/index.html").getD [])) =
      "index.html" := by decide
  have plan : planMappings indexPages [mapping] = .ok [planned] := by
    simp only [planMappings, planMapping, isFile, mapping, locate_indexPages.2.2, if_true, name]
    rfl
  have areRead : readAssets indexPages [planned] = ([indexAsset], none) := by
    simp only [readAssets, readAsset, Storage.read, planned, locate_indexPages.2.2]
    rfl
  have kept : keptAssets [indexAsset] = [indexAsset] := List.mergeSort_singleton _
  simp only [mappings, collectAssets, plan, areRead, kept]
  rfl

theorem exists_assembly_indexPages :
    ∃ assembly, (assemble indexPages indexOptions {}).result = .ok assembly := by
  have noImports : Import.scan (Text.Utf8.lenient .empty) = [] := by cbv
  have discovered : Discovery.moduleGraph indexPages indexOptions .identity =
      .ok (mainGraphOf .empty) :=
    moduleGraph_of_main rfl rfl ⟨locate_indexPages.1, locate_indexPages.2.1⟩ noImports
  obtain ⟨found, _, made, _⟩ := exists_graphs discovered rfl
  have collected : (collectAssets indexPages indexOptions.assets).2 = .ok [indexAsset] := by
    rw [collectAssets_indexPages]
  exact exists_assembly_of_parts made collected rfl fun files => ⟨_, rfl⟩

/-- The asset and the page are both written, to one place. -/
theorem not_nodup_places_indexPages :
    Config.ofText indexText = .ok indexConfig ∧
      ∃ assembly, (assemble indexPages (.ofConfig indexConfig "/app" {}) {}).result = .ok assembly ∧
        (buildWith indexPages (.ofConfig indexConfig "/app" {}) {}).1 =
          (write indexPages indexOptions.outDir assembly.files indexOptions.clean).1 ∧
            ¬ (assembly.files.map Output.File.place).Nodup := by
  constructor
  · have read : (Toml.parse? indexText).bind Config.ofToml? = some indexConfig := by cbv
    have passed : indexConfig.check = .ok () := by cbv
    rw [Config.ofText, read]
    simp only [passed]
  · obtain ⟨assembly, assembled⟩ := exists_assembly_indexPages
    refine ⟨assembly, assembled, buildWith_of_assemble_ok assembled, fun apart => ?_⟩
    obtain ⟨parts, set, composed⟩ := exists_parts assembled
    have assets : parts.assets = [indexAsset] := by
      have collected := composed.assets
      rw [collectAssets_indexPages] at collected
      exact (Except.ok.inj collected).symm
    have distinct : ((parts.files indexOptions {}).map Output.File.path).Nodup :=
      Keyed.nodup_lasts _
    have stays : ∀ file ∈ parts.gathered indexOptions {},
        ∃ kept ∈ assembly.files, kept.path = file.path := by
      intro file listed
      obtain ⟨kept, member, same⟩ := @Keyed.exists_mem_lasts _ Output.File.path _ _ listed
      obtain ⟨last, there, path⟩ := exists_file_of_addWorker distinct composed.added member
      rw [composed.assembly]
      exact ⟨last, there, path.trans same⟩
    obtain ⟨asset, listed, path⟩ := stays (assetFile indexAsset) (by simp [Parts.gathered, assets])
    obtain ⟨page, listed', path'⟩ := stays (parts.page indexOptions {}) (by simp [Parts.gathered])
    have path : asset.path = "index.html" := path
    have path' : page.path = "./index.html" := path'
    have together : asset.place = page.place := by
      rw [Output.File.place, Output.File.place, path, path']
      decide
    obtain rfl := List.inj_on_of_nodup_map apart listed listed' together
    exact absurd (path.symm.trans path') (by decide)

end WebBundle.Build
