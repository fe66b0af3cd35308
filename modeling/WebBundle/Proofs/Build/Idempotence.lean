import WebBundle.Proofs.Build.Precache
import WebBundle.Proofs.Module.Probes
import WebBundle.Proofs.Output.Copying
import WebBundle.Proofs.Output.Rewriting

/-!
# Building again

A build that cleans its output directory writes only there, but for directories above it that are
missing. If nothing that it looks at lies there, it assembles the same output when it is run again,
and writing that output again changes nothing.
-/

namespace WebBundle.Build

open Storage Output

variable {storage later : Storage} {options : Options} {collaborators : Collaborators}
  {assembly : Assembly} {report : Report} {near : Place}

/-! ## What a build looks at -/

/-- The paths at which a build looks. -/
inductive IsProbed (storage : Storage) (options : Options) (transform : Transform) : String → Prop
    where
  | searched {modules : ModuleGraph} {path : String}
      (discovered : Discovery.moduleGraph storage options transform = .ok modules)
      (probed : Discovery.IsProbed (Discovery.project storage options transform) options.root
        options.entries modules path) :
      IsProbed storage options transform path
  | mapped {mapping : AssetMapping} (listed : mapping ∈ options.assets) :
      IsProbed storage options transform mapping.source
  | asset {plan : List PlannedAsset} {planned : PlannedAsset}
      (isPlan : planMappings storage options.assets = .ok plan) (listed : planned ∈ plan) :
      IsProbed storage options transform planned.source
  | template {path : String} (given : options.htmlTemplate = some path) :
      IsProbed storage options transform path
  | worker {worker : WorkerSettings} (given : options.worker = some worker) :
      IsProbed storage options transform worker.source

/-- A build does not notice changes in a place: what it looks at lies apart from it, and assets that
are copied from a directory around it are not copied from there. -/
structure Overlooks (storage : Storage) (options : Options) (transform : Transform)
    (near : Place) : Prop where
  apart (path : String) (probed : IsProbed storage options transform path) :
    ∀ met ∈ storage.met path, Apart storage near met
  ignores (mapping : AssetMapping) (listed : mapping ∈ options.assets) (place : Place)
    (ignore : List Pattern.Glob) (found : storage.found? mapping.source = some (place, .directory))
    (isRead : readGlobs mapping.ignore = .ok ignore) : Ignores mapping ignore place near

/-! ## Assembling again -/

theorem graphs_eq_of_moduleGraph {transform : Transform} {modules : ModuleGraph}
    (discovered : Discovery.moduleGraph storage options transform = .ok modules)
    (again : Discovery.moduleGraph later options transform = .ok modules) :
    graphs later options transform = graphs storage options transform := by
  rw [graphs, graphs, discovered, again]

theorem buildText_of_kept {path text : String}
    (kept : Kept (storage.found? path) (later.found? path))
    (isRead : readText storage path = .ok text) : readText later path = .ok text := by
  rw [readText, (readText_of_kept kept text).2 (readText_of_buildText isRead)]
  rfl

theorem htmlTemplate_of_kept {template : Option String}
    (kept : ∀ path, options.htmlTemplate = some path →
      Kept (storage.found? path) (later.found? path))
    (isTemplate : htmlTemplate storage options = .ok template) :
    htmlTemplate later options = htmlTemplate storage options := by
  rw [htmlTemplate, htmlTemplate]
  cases given : options.htmlTemplate with
  | none => rfl
  | some path =>
      rw [htmlTemplate, given] at isTemplate
      cases isRead : readText storage path with
      | error error => simp [isRead, Except.map] at isTemplate
      | ok text =>
          dsimp only
          rw [isRead, buildText_of_kept (kept path given) isRead]

theorem addWorker_of_kept {files : List Output.File} {set : FileSet}
    (kept : ∀ worker, options.worker = some worker →
      Kept (storage.found? worker.source) (later.found? worker.source))
    (added : (addWorker storage options files).result = .ok set) (others : List Output.File) :
    addWorker later options others = addWorker storage options others := by
  rw [addWorker, addWorker]
  cases given : options.worker with
  | none => rfl
  | some worker =>
      obtain ⟨text, isRead⟩ := exists_text_worker added given
      have isRead' := buildText_of_kept (kept worker given) isRead
      simp only [workerFile, isRead, isRead']

theorem assemble_of_overlooks (tree : storage.IsTree) (frames : Frames near storage later)
    (alters : Alters near storage later)
    (overlooks : Overlooks storage options collaborators.transform near)
    (assembled : (assemble storage options collaborators).result = .ok assembly) :
    assemble later options collaborators = assemble storage options collaborators := by
  have kept (path : String) (probed : IsProbed storage options collaborators.transform path) :
      Kept (storage.found? path) (later.found? path) :=
    frames.kept tree (overlooks.apart path probed)
  obtain ⟨parts, set, composed⟩ := exists_parts assembled
  obtain ⟨discovered, _⟩ := exists_of_graphs composed.found
  have sameGraphs : graphs later options collaborators.transform =
      graphs storage options collaborators.transform :=
    graphs_eq_of_moduleGraph discovered
      (Discovery.moduleGraph_of_kept discovered fun path probed =>
        kept path (.searched discovered probed))
  have sameAssets : collectAssets later options.assets = collectAssets storage options.assets :=
    collectAssets_of_kept alters (fun mapping listed => kept _ (.mapped listed))
      (fun plan isPlan planned listed => kept _ (.asset isPlan listed)) overlooks.ignores
      composed.assets
  have sameTemplate : htmlTemplate later options = htmlTemplate storage options :=
    htmlTemplate_of_kept (fun path given => kept path (.template given)) composed.template
  have sameWorker (files : List Output.File) :
      addWorker later options files = addWorker storage options files :=
    addWorker_of_kept (fun worker given => kept _ (.worker given)) composed.added files
  simp only [assemble, sameGraphs, sameAssets, sameTemplate, sameWorker]

/-! ## Building again -/

/-- A build that overlooks what it changes comes to the same when it is run again. -/
theorem buildWith_again (tree : storage.IsTree) (clean : options.clean = true)
    (isOut : IsOutPlace storage (buildWith storage options collaborators).1 options.outDir near)
    (grounded : (storage.removeAt near).Grounded options.outDir)
    (overlooks : Overlooks storage options collaborators.transform near)
    (succeeds : (buildWith storage options collaborators).2.result = .ok report)
    (isNormal : ∀ file ∈ report.files, Path.IsNormal file.path) :
    buildWith (buildWith storage options collaborators).1 options collaborators =
      buildWith storage options collaborators := by
  obtain ⟨assembly, assembled, written⟩ := exists_assembly_of_buildWith succeeds
  have reported := eq_reportOn assembled succeeds
  have isNormal : ∀ file ∈ assembly.files, Path.IsNormal file.path := by
    intro file listed
    exact isNormal (Build.written file) (reported ▸ mem_files_reportOn.2 ⟨file, listed, rfl⟩)
  have first := buildWith_of_write assembled written
  rw [clean] at written
  obtain ⟨frames, alters, again⟩ := write_again tree grounded isNormal written isOut
  have same := assemble_of_overlooks tree frames alters overlooks assembled
  rw [← clean] at again
  rw [buildWith_of_write (same ▸ assembled) again, same, ← first]

/-! ## Building the project with a worker again -/

section

variable {cleared prepared : Storage}
  (isCleared : clear storage options.outDir options.clean = (cleared, .ok ()))
  (isPrepared : Output.makeDirectories cleared options.outDir = (prepared, .ok ()))
  (succeeds : (buildWith storage options collaborators).2.result = .ok report)

include isCleared isPrepared succeeds

/-- A build only writes the files of its output once their directory is prepared. -/
theorem exists_writesOnly_of_buildWith :
    ∃ contents, WritesOnly contents prepared (buildWith storage options collaborators).1 := by
  obtain ⟨assembly, _, written⟩ := exists_assembly_of_buildWith succeeds
  obtain ⟨cleared', prepared', isCleared', isPrepared', writes⟩ := exists_made_of_write written
  obtain rfl := (Prod.mk.inj (isCleared.symm.trans isCleared')).1
  obtain rfl := (Prod.mk.inj (isPrepared.symm.trans isPrepared')).1
  have only : WritesOnly (contentsOf assembly.files) prepared
      (writeFiles prepared options.outDir assembly.files).1 :=
    writesOnly_writeFiles fun _ listed => List.mem_map_of_mem listed
  rw [writes] at only
  exact ⟨_, only⟩

theorem isOutPlace_of_buildWith (isOut : IsOutPlace storage prepared options.outDir near) :
    IsOutPlace storage (buildWith storage options collaborators).1 options.outDir near := by
  obtain ⟨_, only⟩ := exists_writesOnly_of_buildWith isCleared isPrepared succeeds
  exact isOut.mono only

end

/-- What is looked at to find a script without imports are the script and the paths where it is
searched for. -/
theorem cases_of_isProbed_main {project : Discovery.Project} {root path : String}
    {entries : List (String × List String)} {content : ByteArray}
    (noImports : Import.scan (Text.Utf8.lenient content) = [])
    (probed : Discovery.IsProbed project root entries (mainGraphOf content) path) :
    path = "/app/main.js" ∨ ∃ entry ∈ entries, ∃ specifier ∈ entry.2,
      path ∈ project.resolver.probes project.storage specifier root := by
  have main {id : Nat} {module : Module} (found : (mainGraphOf content).module? id = some module) :
      module = ⟨0, "/app/main.js", "main.js", content, [], []⟩ := by
    cases id with
    | zero => exact (Option.some.inj found).symm
    | succ id => simp [mainGraphOf, ModuleGraph.module?, Arena.get?] at found
  cases probed with
  | @entry entry specifier path listed named probed =>
      exact .inr ⟨entry, listed, specifier, named, probed⟩
  | @module id module found =>
      obtain rfl := main found
      exact .inl rfl
  | @imported id module statement path found imports _ =>
      obtain rfl := main found
      have isScript : Path.isScript "/app/main.js" = true := by decide
      simp [Discovery.statementsOf, Module.isScript, isScript, noImports] at imports

/-- A script that is asked for beside the configuration is looked for only there. -/
theorem eq_of_mem_probes_main {resolver : Resolver} {content : ByteArray} {place : Place}
    {path : String}
    (ends : storage.locate true "/app/./main.js" = .ok (.taken place (.file content)))
    (probed : path ∈ resolver.probes storage "./main.js" "/app") : path = "/app/./main.js" := by
  have bases : resolver.bases "/app" "./main.js" = ["/app/./main.js"] := by
    rw [Resolver.bases, if_pos (by decide)]
    decide
  have isFile : storage.isFile "/app/./main.js" = true := by
    rw [Storage.isFile, ends]
  rw [Resolver.probes_of_isFile bases isFile] at probed
  exact List.mem_singleton.1 probed

section

variable (content : ByteArray)

theorem apart_site {path : String}
    (probed : path ∈ ["/app/./main.js", "/app/main.js", "/app/sw.js"]) :
    ∀ met ∈ (siteWith content).met path, Apart (siteWith content) ["app", "build"] met := by
  have root : (siteWith content).itemAt? [] = some .directory := rfl
  have directory : (siteWith content).itemAt? ["app"] = some .directory := rfl
  simp only [List.mem_cons, List.not_mem_nil, or_false] at probed
  rcases probed with rfl | rfl | rfl
  · have met : (siteWith content).met "/app/./main.js" = [.passed [], .passed [], .passed ["app"],
        .passed ["app"], .passed ["app", "main.js"]] := rfl
    simp [met, Apart, Near, root, directory]
  · have met : (siteWith content).met "/app/main.js" = [.passed [], .passed [], .passed ["app"],
        .passed ["app", "main.js"]] := rfl
    simp [met, Apart, Near, root, directory]
  · have met : (siteWith content).met "/app/sw.js" = [.passed [], .passed [], .passed ["app"],
        .passed ["app", "sw.js"]] := rfl
    simp [met, Apart, Near, root, directory]

theorem tree_site : (siteWith content).IsTree := by
  intro entry listed
  simp only [siteWith, List.mem_cons, List.not_mem_nil, or_false] at listed
  rcases listed with rfl | rfl | rfl
  · rfl
  · rfl
  · rfl

variable (noImports : Import.scan (Text.Utf8.lenient content) = [])

include noImports

theorem mem_of_isProbed_site {path : String}
    (probed : IsProbed (siteWith content) siteOptions .identity path) :
    path ∈ ["/app/./main.js", "/app/main.js", "/app/sw.js"] := by
  cases probed with
  | searched discovered probed =>
      rw [moduleGraph_of_main rfl rfl (locate_site content) noImports] at discovered
      obtain rfl := Except.ok.inj discovered
      rcases cases_of_isProbed_main noImports probed with rfl | ⟨_, listed, _, named, searched⟩
      · simp
      · obtain rfl := List.mem_singleton.1 listed
        obtain rfl := List.mem_singleton.1 named
        obtain rfl := eq_of_mem_probes_main (locate_site content).1 searched
        simp
  | mapped listed => cases listed
  | asset isPlan listed =>
      obtain rfl := Except.ok.inj isPlan
      cases listed
  | template given => cases given
  | worker given =>
      obtain rfl := Option.some.inj (worker_site.symm.trans given)
      simp [siteWorker]

theorem overlooks_site : Overlooks (siteWith content) siteOptions .identity ["app", "build"] where
  apart _ probed := apart_site content (mem_of_isProbed_site content noImports probed)
  ignores _ listed := by cases listed

end

/-- The project of an empty script is built again to the same. -/
theorem buildWith_emptySite_again :
    ∃ report, (buildWith (siteWith .empty) siteOptions {}).2.result = .ok report ∧
      buildWith (buildWith (siteWith .empty) siteOptions {}).1 siteOptions {} =
        buildWith (siteWith .empty) siteOptions {} := by
  have noImports : Import.scan (Text.Utf8.lenient .empty) = [] := by cbv
  obtain ⟨report, succeeds⟩ := exists_report_site .empty noImports
  have missing : (siteWith .empty).exists? siteOptions.outDir = false := by
    rw [exists?, locate_eq_locateSteps]
    rfl
  have leads : (preparedSite .empty).locate true siteOptions.outDir =
      .ok (.taken ["app", "build"] .directory) := by
    rw [locate_eq_locateSteps]
    rfl
  have isOut := isOutPlace_of_buildWith (clear_site .empty) (makeDirectories_site .empty) succeeds
    (.made missing leads)
  have grounded : ((siteWith .empty).removeAt ["app", "build"]).Grounded siteOptions.outDir :=
    ⟨[], Path.segments siteOptions.outDir, rfl, by decide, .inl rfl⟩
  have isNormal : ∀ file ∈ report.files, Path.IsNormal file.path := by
    intro file listed
    obtain ⟨assembly, assembled, _⟩ := exists_assembly_of_buildWith succeeds
    rw [eq_reportOn assembled succeeds] at listed
    obtain ⟨source, given, rfl⟩ := mem_files_reportOn.1 listed
    have plain : ∀ path ∈ ["index.html", "main.js", "runtime.js", "sw.js"], Path.IsNormal path := by
      decide
    exact plain _ (path_of_mem_site .empty noImports assembled source given)
  exact ⟨report, succeeds, buildWith_again (tree_site .empty) rfl isOut grounded
    (overlooks_site .empty noImports) succeeds isNormal⟩

end WebBundle.Build
