import WebBundle.Proofs.Build.Failure
import WebBundle.Proofs.Chunk.Naming
import WebBundle.Proofs.Module.Discovered
import WebBundle.Proofs.Output.Landing

/-!
# Inputs of a build

A build that succeeds has read its inputs: the configuration, the modules and the package
descriptions on their way, the assets, the template and the worker. Nothing keeps its output apart
from them. An input is lost exactly if it lies in the output directory when that is emptied, or if
the last file of the output that is written to its place has other bytes.
-/

namespace WebBundle

/-- A step that succeeds comes from one that does. -/
theorem Build.Reporting.exists_of_bind {ε α β : Type} {step : Reporting ε α}
    {next : α → Reporting ε β} {value : β} (succeeds : (step >>= next).result = .ok value) :
    ∃ first, step.result = .ok first ∧ (next first).result = .ok value := by
  cases made : step.result with
  | error error =>
      have failed : (step >>= next).result = .error error := result_andThen_of_error made
      rw [failed] at succeeds
      cases succeeds
  | ok first =>
      have follows : (step >>= next).result = (next first).result := result_andThen_of_ok made
      exact ⟨first, rfl, follows.symm.trans succeeds⟩

theorem eq_ok_of_mapError {ε ε' α : Type} {wrap : ε → ε'} {result : Except ε α} {value : α}
    (succeeds : result.mapError wrap = .ok value) : result = .ok value := by
  cases result with
  | error error => cases succeeds
  | ok _ => exact congrArg Except.ok (Except.ok.inj succeeds)

namespace Build

open Storage Output

variable {storage : Storage} {options : Options} {collaborators : Collaborators}
  {assembly : Assembly} {report : Report}

theorem exists_assembly_of_buildWith
    (succeeds : (buildWith storage options collaborators).2.result = .ok report) :
    ∃ assembly, (assemble storage options collaborators).result = .ok assembly ∧
      write storage options.outDir assembly.files options.clean =
        ((buildWith storage options collaborators).1, .ok ()) := by
  cases assembled : (assemble storage options collaborators).result with
  | error error =>
      rw [buildWith, assembled] at succeeds
      cases succeeds
  | ok assembly =>
      refine ⟨assembly, rfl, ?_⟩
      rw [buildWith, assembled] at succeeds
      rw [buildWith, assembled]
      dsimp only at succeeds ⊢
      split at succeeds
      next => cases succeeds
      next written => rw [written]

theorem buildWith_of_write {after : Storage}
    (assembled : (assemble storage options collaborators).result = .ok assembly)
    (written : write storage options.outDir assembly.files options.clean = (after, .ok ())) :
    buildWith storage options collaborators =
      (after, ⟨(assemble storage options collaborators).diagnostics,
        .ok (reportOn options assembly)⟩) := by
  rw [buildWith, assembled]
  simp only [written]

/-- A build succeeds if its output directory can be prepared and every path leads to a place. -/
theorem exists_report_of_lands {cleared prepared : Storage}
    (assembled : (assemble storage options collaborators).result = .ok assembly)
    (isCleared : clear storage options.outDir options.clean = (cleared, .ok ()))
    (isPrepared : Output.makeDirectories cleared options.outDir = (prepared, .ok ()))
    (land : ∀ file ∈ assembly.files, ∃ location,
      Lands prepared (Path.join options.outDir file.path) location) :
    ∃ report, (buildWith storage options collaborators).2.result = .ok report := by
  obtain ⟨after, written⟩ := exists_of_lands land
  have succeeds : write storage options.outDir assembly.files options.clean = (after, .ok ()) := by
    simp only [Output.write, isCleared, isPrepared, written]
  rw [buildWith_of_write assembled succeeds]
  exact ⟨_, rfl⟩

/-- A new name in a directory leads to a place for a file. -/
theorem exists_lands_of_steps {directory name : String} {place : Place}
    (above : storage.isDirectory directory = true)
    (ends : storage.locateSteps true (Path.join directory name) = .ok (.vacant place name false))
    (bare : splitEndSlashes (Path.join directory name) = (Path.join directory name, false))
    (isParent : Path.parent? (Path.join directory name) = some directory) :
    ∃ location, Lands storage (Path.join directory name) location :=
  ⟨_, lands_of_vacant above ((locate_eq_locateSteps _).trans ends) bare isParent⟩

theorem readText_of_buildText {path text : String} (isRead : readText storage path = .ok text) :
    storage.readText path = .ok text := by
  have given := eq_ok_of_mapError isRead
  unfold orInaccessible at given
  split at given
  next isText => rw [isText, Except.ok.inj given]
  next => cases given

theorem exists_text_worker {worker : WorkerSettings} {files : List Output.File} {set : FileSet}
    (added : (addWorker storage options files).result = .ok set)
    (given : options.worker = some worker) : ∃ text, readText storage worker.source = .ok text := by
  rw [addWorker, given] at added
  obtain ⟨rule, _, rest⟩ := Reporting.exists_of_bind added
  obtain ⟨_, _, rest⟩ := Reporting.exists_of_bind rest
  obtain ⟨file, made, _⟩ := Reporting.exists_of_bind rest
  have made : workerFile storage options worker (Output.manifest rule files).1 = .ok file := made
  cases isRead : readText storage worker.source with
  | error error => simp [workerFile, isRead, bind, Except.bind] at made
  | ok text => exact ⟨text, rfl⟩

open Discovery (pages pagesOptions pagesConfig pagesGraph mainBytes)

theorem fileName_pages {name : String} (member : name ∈ ["app", "runtime"])
    (digest : ContentDigest) :
    Chunk.fileName pagesOptions.fileName name digest ∈ ["app.js", "runtime.js"] := by
  have app : Chunk.fileName "[name].js" "app" digest = "app.js" := by cbv
  have runtime : Chunk.fileName "[name].js" "runtime" digest = "runtime.js" := by cbv
  rw [show pagesOptions.fileName = "[name].js" from rfl]
  simp only [List.mem_cons, List.not_mem_nil, or_false] at member
  rcases member with rfl | rfl
  · rw [app]
    exact List.mem_cons_self
  · rw [runtime]
    exact List.mem_cons_of_mem _ List.mem_cons_self

theorem exists_assembly_pages :
    ∃ assembly, (assemble pages pagesOptions {}).result = .ok assembly ∧
      ∀ file ∈ assembly.files, (∃ text : String, file.bytes = text.toUTF8) ∧
        file.path ∈ ["index.html", "app.js", "runtime.js"] := by
  obtain ⟨found, reports, made, split⟩ := exists_graphs Discovery.moduleGraph_pages rfl
  obtain ⟨assembly, assembled, _, generated⟩ :=
    @exists_assembly pages pagesOptions {} found made collectAssets_nil rfl rfl
  have limits : (⟨pagesOptions.minSize, pagesOptions.maxInitialRequests⟩ : Chunk.Limits) = {} := rfl
  have names : (found.chunks.chunks.map (·.name)).Sublist ["app", "runtime"] := by
    rw [limits] at split
    have all : (Chunk.labels pagesGraph [] {}).map (·.name) = ["app", "runtime"] := by cbv
    have labelled := (Chunk.label_sublist split).map (·.name)
    rwa [all, List.map_map] at labelled
  refine ⟨assembly, assembled, fun file listed => ⟨(generated file listed).isText, ?_⟩⟩
  rcases (generated file listed).path with page | ⟨chunk, member, digest, path⟩
  · rw [page]
    exact List.mem_cons_self
  · rw [path]
    exact List.mem_cons_of_mem _ (fileName_pages (names.subset (List.mem_map_of_mem member)) digest)

theorem locate_src (follow : Bool) :
    pages.locate follow pagesOptions.outDir = .ok (.taken ["app", "src"] .directory) := by
  rw [locate_eq_locateSteps]
  cases follow
  · rfl
  · rfl

/-- The project after its output directory was removed. -/
def emptied : Storage where
  items := [(["app"], .directory), (["app", "shard.toml"], .file Discovery.pagesText.toUTF8)]
  workingDirectory := ["app"]

/-- The project with an empty output directory. -/
def prepared : Storage := emptied.put ["app", "src"] .directory

theorem clear_pages : clear pages pagesOptions.outDir pagesOptions.clean = (emptied, .ok ()) := by
  have there : pages.exists? pagesOptions.outDir = true := by
    rw [exists?, locate_src]
  rw [clear, there, removeDirectory, locate_src]
  rfl

theorem makeDirectories_emptied :
    Output.makeDirectories emptied pagesOptions.outDir = (prepared, .ok ()) := by
  have free : emptied.locate false pagesOptions.outDir = .ok (.vacant ["app"] "src" false) := by
    rw [locate_eq_locateSteps]
    rfl
  rw [Output.makeDirectories, makeDirectories_of_vacant free]
  rfl

theorem exists_lands_prepared {path : String}
    (member : path ∈ ["index.html", "app.js", "runtime.js"]) :
    ∃ location, Lands prepared (Path.join pagesOptions.outDir path) location := by
  have above : prepared.isDirectory "/app/src" = true := by
    rw [isDirectory, locate_eq_locateSteps]
    rfl
  simp only [List.mem_cons, List.not_mem_nil, or_false] at member
  rcases member with rfl | rfl | rfl
  · exact exists_lands_of_steps above rfl (by decide) (by decide)
  · exact exists_lands_of_steps above rfl (by decide) (by decide)
  · exact exists_lands_of_steps above rfl (by decide) (by decide)

theorem exists_report_pages :
    ∃ report, (buildWith pages pagesOptions {}).2.result = .ok report := by
  obtain ⟨assembly, assembled, generated⟩ := exists_assembly_pages
  exact exists_report_of_lands assembled clear_pages makeDirectories_emptied
    fun file listed => exists_lands_prepared (generated file listed).2

end Build

end WebBundle
