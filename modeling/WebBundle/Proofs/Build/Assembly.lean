import WebBundle.Proofs.Build.Inputs
import WebBundle.Proofs.Keyed
import WebBundle.Proofs.Output.Manifest

/-!
# Parts of an output

An output that could be assembled has all its parts: the files of assets and chunks and the page,
those of one path replaced by the last, and the worker with the manifest of these files. What was
reported stands in the order of the steps.
-/

namespace WebBundle.Build

open Output

theorem Reporting.diagnostics_of_bind {ε α β : Type} {step : Reporting ε α}
    {next : α → Reporting ε β} {first : α} (made : step.result = .ok first) :
    (step >>= next).diagnostics = step.diagnostics ++ (next first).diagnostics := by
  change (step.andThen next).diagnostics = _
  rw [andThen, made]

theorem Reporting.diagnostics_pure {ε α : Type} (value : α) :
    (pure value : Reporting ε α).diagnostics = [] := rfl

theorem Reporting.exists_bind {ε α β : Type} {step : Reporting ε α} {next : α → Reporting ε β}
    {first : α} (made : step.result = .ok first)
    (succeeds : ∃ value, (next first).result = .ok value) :
    ∃ value, (step >>= next).result = .ok value := by
  obtain ⟨value, result⟩ := succeeds
  exact ⟨value, (result_andThen_of_ok made).trans result⟩

variable {storage : Storage} {options : Options} {collaborators : Collaborators}
  {assembly : Assembly}

/-! ## The worker -/

/-- The rule of a worker whose globs were read. -/
def precache (options : Options) (worker : WorkerSettings) (globs : List Pattern.Glob) :
    PrecacheRule :=
  ⟨options.publicPath, worker.target, globs, worker.sizeLimit⟩

theorem exists_of_precacheRule {worker : WorkerSettings} {rule : PrecacheRule}
    (made : precacheRule options worker = .ok rule) :
    ∃ globs, readGlobs worker.exclude = .ok globs ∧ rule = precache options worker globs := by
  unfold precacheRule at made
  split at made
  next => cases made
  next globs isRead => exact ⟨globs, isRead, (Except.ok.inj made).symm⟩

theorem exists_of_workerFile {worker : WorkerSettings} {entries : List ManifestEntry}
    {file : Output.File} (made : workerFile storage options worker entries = .ok file) :
    ∃ template script, storage.readText worker.source = .ok template ∧
      Fills template worker.marker (manifestJson entries).render script ∧
        file = .ofBytes worker.target script.toUTF8 .worker := by
  cases isRead : readText storage worker.source with
  | error error => simp [workerFile, isRead, bind, Except.bind] at made
  | ok template =>
      have given : storage.readText worker.source = .ok template := readText_of_buildText isRead
      simp only [workerFile, isRead, bind, Except.bind] at made
      split at made
      next => cases made
      next script injected =>
        exact ⟨template, script, given, fills_of_inject injected, (Except.ok.inj made).symm⟩

/-- A worker is added if its globs can be read and its template has the marker once. -/
theorem exists_addWorker {worker : WorkerSettings} {globs : List Pattern.Glob} {template : String}
    (given : options.worker = some worker) (excluded : readGlobs worker.exclude = .ok globs)
    (isText : storage.readText worker.source = .ok template)
    (nonempty : worker.marker.isEmpty = false)
    (once : Text.occurrences worker.marker.toList template.toList = 1) (files : List Output.File) :
    ∃ set, (addWorker storage options files).result = .ok set := by
  have isRule : precacheRule options worker = .ok (precache options worker globs) := by
    rw [precacheRule, excluded]
    rfl
  let entries := (manifest (precache options worker globs) files).1
  obtain ⟨file, made⟩ : ∃ file, workerFile storage options worker entries = .ok file := by
    have isRead : readText storage worker.source = .ok template := by
      rw [readText, isText]
      rfl
    simp only [workerFile, isRead, bind, Except.bind, inject, nonempty, Bool.false_eq_true,
      if_false, once, if_true]
    exact ⟨_, rfl⟩
  have isMade : (Reporting.silent (precacheRule options worker)).result =
      .ok (precache options worker globs) := isRule
  rw [addWorker, given]
  refine Reporting.exists_bind isMade ?_
  refine Reporting.exists_bind rfl ?_
  refine Reporting.exists_bind made ?_
  exact Reporting.exists_bind rfl ⟨_, rfl⟩

/-- What adding the worker makes of the other files. -/
structure AddsWorker (storage : Storage) (options : Options) (worker : WorkerSettings)
    (files : List Output.File) (globs : List Pattern.Glob) (script : String) (set : FileSet)
    (reports : List Diagnostic) : Prop where
  excluded : readGlobs worker.exclude = .ok globs
  entries : set.manifest = (manifest (precache options worker globs) files).1
  filled : ∃ template, storage.readText worker.source = .ok template ∧
    Fills template worker.marker (manifestJson set.manifest).render script
  others : set.files = files.filter (fun file => file.path ≠ worker.target) ++
    [.ofBytes worker.target script.toUTF8 .worker]
  reports : ∃ replaced : List (Output.File × Output.File), reports =
    (manifest (precache options worker globs) files).2 ++
      replaced.map fun (old, new) => replacedDiagnostic old new

theorem exists_of_addWorker {worker : WorkerSettings} {files : List Output.File} {set : FileSet}
    (distinct : (files.map Output.File.path).Nodup) (given : options.worker = some worker)
    (added : (addWorker storage options files).result = .ok set) :
    ∃ globs script, AddsWorker storage options worker files globs script set
      (addWorker storage options files).diagnostics := by
  rw [addWorker, given] at added ⊢
  obtain ⟨rule, isRule, rest⟩ := Reporting.exists_of_bind added
  obtain ⟨_, _, rest⟩ := Reporting.exists_of_bind rest
  obtain ⟨file, made, rest⟩ := Reporting.exists_of_bind rest
  have made : (Reporting.silent
      (workerFile storage options worker (manifest rule files).1)).result = .ok file := made
  obtain ⟨globs, isRead, rfl⟩ := exists_of_precacheRule isRule
  obtain ⟨template, script, isText, fills, rfl⟩ := exists_of_workerFile made
  obtain rfl := Except.ok.inj rest
  refine ⟨globs, script, isRead, rfl, ⟨template, isText, fills⟩, Keyed.lasts_concat distinct _, ?_⟩
  refine ⟨Keyed.replacements Output.File.path []
    (files ++ [.ofBytes worker.target script.toUTF8 .worker]), ?_⟩
  dsimp only
  rw [Reporting.diagnostics_of_bind isRule, Reporting.diagnostics_of_bind rfl,
    Reporting.diagnostics_of_bind made, Reporting.diagnostics_of_bind rfl,
    Reporting.diagnostics_pure, List.append_nil]
  rfl

/-- Without a worker there is no manifest. -/
theorem exists_worker_of_entry {files : List Output.File} {set : FileSet} {entry : ManifestEntry}
    (added : (addWorker storage options files).result = .ok set) (listed : entry ∈ set.manifest) :
    ∃ worker, options.worker = some worker := by
  cases given : options.worker with
  | some worker => exact ⟨worker, rfl⟩
  | none =>
      rw [addWorker, given] at added
      obtain rfl := Except.ok.inj added
      cases listed

/-- Every path of the other files has one file with the worker, too. -/
theorem exists_file_of_addWorker {files : List Output.File} {set : FileSet}
    (distinct : (files.map Output.File.path).Nodup)
    (added : (addWorker storage options files).result = .ok set) {file : Output.File}
    (listed : file ∈ files) : ∃ kept ∈ set.files, kept.path = file.path := by
  cases given : options.worker with
  | none =>
      rw [addWorker, given] at added
      obtain rfl := Except.ok.inj added
      exact ⟨file, listed, rfl⟩
  | some worker =>
      obtain ⟨globs, script, adds⟩ := exists_of_addWorker distinct given added
      rw [adds.others]
      by_cases isWorker : file.path = worker.target
      · exact ⟨_, List.mem_append_right _ (List.mem_singleton_self _), isWorker.symm⟩
      · exact ⟨file, List.mem_append_left _
          (List.mem_filter.2 ⟨listed, decide_eq_true isWorker⟩), rfl⟩

theorem nodup_paths_of_addWorker {files : List Output.File} {set : FileSet}
    (distinct : (files.map Output.File.path).Nodup)
    (added : (addWorker storage options files).result = .ok set) :
    (set.files.map Output.File.path).Nodup := by
  cases given : options.worker with
  | none =>
      rw [addWorker, given] at added
      obtain rfl := Except.ok.inj added
      exact distinct
  | some worker =>
      obtain ⟨globs, script, adds⟩ := exists_of_addWorker distinct given added
      have apart := Keyed.lasts_concat distinct (.ofBytes worker.target script.toUTF8 .worker)
      rw [adds.others]
      exact apart ▸ Keyed.nodup_lasts _

/-! ## The other files -/

theorem exists_of_graphs {found : Graphs} {transform : Transform}
    (made : (graphs storage options transform).result = .ok found) :
    Discovery.moduleGraph storage options transform = .ok found.modules ∧
      ∃ rules reports, CacheGroup.Rule.ofGroups options.cacheGroups = .ok rules ∧
        Chunk.split found.modules rules ⟨options.minSize, options.maxInitialRequests⟩ =
          (reports, .ok found.chunks) ∧
            (graphs storage options transform).diagnostics = reports := by
  unfold graphs at made
  obtain ⟨modules, discovered, rest⟩ := Reporting.exists_of_bind made
  obtain ⟨rules, compiled, rest⟩ := Reporting.exists_of_bind rest
  obtain ⟨chunks, split, rest⟩ := Reporting.exists_of_bind rest
  obtain rfl := Except.ok.inj rest
  refine ⟨eq_ok_of_mapError discovered, rules, _, eq_ok_of_mapError compiled,
    Prod.ext rfl (eq_ok_of_mapError split), ?_⟩
  rw [graphs, Reporting.diagnostics_of_bind discovered, Reporting.diagnostics_of_bind compiled,
    Reporting.diagnostics_of_bind split, Reporting.diagnostics_pure, List.append_nil]
  rfl

/-- What an output is assembled from. -/
structure Parts where
  found : Graphs
  assets : List Asset
  template : Option String

namespace Parts

variable (parts : Parts) (options : Options) (collaborators : Collaborators)

def chunks : List EmittedChunk := emitted options collaborators.minify parts.found

def page : Output.File :=
  htmlFile options parts.template
    (EmittedChunk.scripts parts.found.chunks (parts.chunks options collaborators)
      options.publicPath)

def gathered : List Output.File :=
  parts.assets.map assetFile ++ (parts.chunks options collaborators).map chunkFile ++
    [parts.page options collaborators]

/-- The files without the worker, each with a path of its own. -/
def files : List Output.File := Keyed.lasts Output.File.path (parts.gathered options collaborators)

end Parts

/-- The output is assembled from the parts. -/
structure AssembledFrom (storage : Storage) (options : Options) (collaborators : Collaborators)
    (parts : Parts) (set : FileSet) (assembly : Assembly) : Prop where
  found : (graphs storage options collaborators.transform).result = .ok parts.found
  assets : (collectAssets storage options.assets).2 = .ok parts.assets
  template : htmlTemplate storage options = .ok parts.template
  added : (addWorker storage options (parts.files options collaborators)).result = .ok set
  assembly : assembly =
    ⟨parts.found.modules.size, parts.chunks options collaborators, set.files, set.manifest⟩
  reports : ∃ replaced : List (Output.File × Output.File),
    (assemble storage options collaborators).diagnostics =
      (graphs storage options collaborators.transform).diagnostics ++
        ((collectAssets storage options.assets).1 ++
          ((replaced.map fun (old, new) => replacedDiagnostic old new) ++
            (addWorker storage options (parts.files options collaborators)).diagnostics))

theorem exists_parts (assembled : (assemble storage options collaborators).result = .ok assembly) :
    ∃ parts set, AssembledFrom storage options collaborators parts set assembly := by
  unfold assemble at assembled
  obtain ⟨found, isFound, rest⟩ := Reporting.exists_of_bind assembled
  obtain ⟨assets, isAssets, rest⟩ := Reporting.exists_of_bind rest
  obtain ⟨template, isTemplate, rest⟩ := Reporting.exists_of_bind rest
  obtain ⟨files, isSettled, rest⟩ := Reporting.exists_of_bind rest
  obtain ⟨set, added, last⟩ := Reporting.exists_of_bind rest
  obtain rfl := Except.ok.inj isSettled
  let parts : Parts := ⟨found, assets, template⟩
  refine ⟨parts, set, isFound, eq_ok_of_mapError isAssets, isTemplate, added,
    (Except.ok.inj last).symm, Keyed.replacements Output.File.path []
      (parts.gathered options collaborators), ?_⟩
  rw [assemble, Reporting.diagnostics_of_bind isFound, Reporting.diagnostics_of_bind isAssets,
    Reporting.diagnostics_of_bind isTemplate, Reporting.diagnostics_of_bind rfl,
    Reporting.diagnostics_of_bind added, Reporting.diagnostics_pure, List.append_nil]
  rfl

/-- An output can be assembled if its parts can be made and the worker can be added to any files. -/
theorem exists_assembly_of_parts {found : Graphs} {assets : List Asset} {template : Option String}
    (made : (graphs storage options collaborators.transform).result = .ok found)
    (collected : (collectAssets storage options.assets).2 = .ok assets)
    (isTemplate : htmlTemplate storage options = .ok template)
    (added : ∀ files, ∃ set, (addWorker storage options files).result = .ok set) :
    ∃ assembly, (assemble storage options collaborators).result = .ok assembly := by
  have areAssets : (Reporting.ofPair BuildError.output
      (collectAssets storage options.assets)).result = .ok assets :=
    congrArg (Except.mapError BuildError.output) collected
  have isText : (Reporting.silent (htmlTemplate storage options)).result = .ok template := isTemplate
  rw [assemble]
  refine Reporting.exists_bind made ?_
  refine Reporting.exists_bind areAssets ?_
  refine Reporting.exists_bind isText ?_
  refine Reporting.exists_bind rfl ?_
  obtain ⟨set, isSet⟩ := added (Keyed.lasts Output.File.path _)
  exact Reporting.exists_bind isSet ⟨_, rfl⟩

end WebBundle.Build
