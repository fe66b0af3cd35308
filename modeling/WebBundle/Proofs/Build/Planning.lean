import WebBundle.Build.Plan
import WebBundle.Proofs.Build.Precache
import WebBundle.Proofs.Chunk.Editing

/-!
# Plans and builds

A plan and a build share all that comes before the chunks are written. Names, digests and file
names do not show how the written text was made smaller, so a plan has the chunks of every build of
the project, and where it fails, so does the build, before it has written anything.
-/

namespace WebBundle

/-! ## What a chunk is apart from its text -/

/-- What tells a chunk from others. -/
structure ChunkLabel where
  name : String
  kind : ChunkKind
  fileName : String
  deriving DecidableEq, Repr

namespace EmittedChunk

/-- What a chunk is but for its text. -/
structure Outline where
  id : Nat
  label : ChunkLabel
  digest : ContentDigest

def outline (chunk : EmittedChunk) : Outline :=
  ⟨chunk.id, ⟨chunk.name, chunk.kind, chunk.fileName⟩, chunk.digest⟩

section

variable {pattern publicPath : String} (minify minify' : String → String)

theorem outline_ofText (chunk : Chunk) (text : String) (digested : List String) :
    (ofText ⟨pattern, publicPath, minify⟩ chunk text digested).outline =
      (ofText ⟨pattern, publicPath, minify'⟩ chunk text digested).outline := rfl

/-- The files that are fetched on demand can be read off the outlines. -/
theorem filesOnDemand_congr {emitted others : List EmittedChunk}
    (outlines : others.map outline = emitted.map outline) :
    filesOnDemand others = filesOnDemand emitted := by
  have labels (emitted : List EmittedChunk) :
      ((emitted.filter fun chunk => chunk.kind ≠ .entry).map fun chunk =>
          (chunk.name, chunk.fileName)) =
        ((emitted.map outline).filter fun outline => outline.label.kind ≠ .entry).map
          fun outline => (outline.label.name, outline.label.fileName) := by
    rw [List.filter_map, List.map_map]
    rfl
  simp only [filesOnDemand, labels, outlines]

theorem names_congr {emitted others : List EmittedChunk}
    (outlines : others.map outline = emitted.map outline) :
    others.map (·.name) = emitted.map (·.name) := by
  have names (emitted : List EmittedChunk) :
      emitted.map (·.name) = (emitted.map outline).map (·.label.name) := by
    rw [List.map_map]
    rfl
  rw [names, outlines, names emitted]

/-- The digest of the runtime covers the file names of the other chunks, and those show nothing of
how their text was made smaller. -/
theorem outline_ofRuntime {emitted others : List EmittedChunk}
    (outlines : others.map outline = emitted.map outline) (chunk : Chunk) :
    (ofRuntime ⟨pattern, publicPath, minify⟩ others chunk).outline =
      (ofRuntime ⟨pattern, publicPath, minify'⟩ emitted chunk).outline := by
  rw [ofRuntime_congr _ (filesOnDemand_congr outlines) (names_congr outlines)]
  exact outline_ofText minify minify' chunk _ _

variable (graph : ModuleGraph) (chunks : ChunkGraph)

theorem map_outline_all :
    (all ⟨pattern, publicPath, minify⟩ graph chunks).map outline =
      (all ⟨pattern, publicPath, minify'⟩ graph chunks).map outline := by
  have others (listed : List Chunk) :
      (listed.map (ofChunk ⟨pattern, publicPath, minify⟩ graph chunks)).map outline =
        (listed.map (ofChunk ⟨pattern, publicPath, minify'⟩ graph chunks)).map outline := by
    simp only [List.map_map]
    exact List.map_congr_left fun chunk _ => outline_ofText minify minify' chunk _ _
  simp only [all, List.map_append, others, List.append_cancel_left_eq, List.map_map]
  exact List.map_congr_left fun chunk _ => outline_ofRuntime minify minify' (others _) chunk

theorem map_outline_emit :
    (emit ⟨pattern, publicPath, minify⟩ graph chunks).map (·.map outline) =
      (emit ⟨pattern, publicPath, minify'⟩ graph chunks).map (·.map outline) := by
  unfold emit
  split
  next => rfl
  next => exact congrArg Except.ok (map_outline_all minify minify' graph chunks)

end

end EmittedChunk

namespace Build

open Storage

def PlannedChunk.label (chunk : PlannedChunk) : ChunkLabel :=
  ⟨chunk.name, chunk.kind, chunk.fileName⟩

variable {storage : Storage} {options : Options} {error : BuildError}

/-! ## The common beginning -/

theorem plan_of_graphs_ok {found : Graphs}
    (made : (graphs storage options .identity).result = .ok found) :
    (plan storage options).result = .ok ⟨options.name, found.modules.size,
      (EmittedChunk.all (emission options id) found.modules found.chunks).map
        (planChunk found)⟩ :=
  Reporting.result_andThen_of_ok made

/-- A plan fails only where graphs are not found. -/
theorem graphs_of_plan_error (failed : (plan storage options).result = .error error) :
    graphs storage options .identity = ⟨(plan storage options).diagnostics, .error error⟩ := by
  cases made : (graphs storage options .identity).result with
  | ok found =>
      rw [plan_of_graphs_ok made] at failed
      cases failed
  | error earlier =>
      have same : plan storage options =
          ⟨(graphs storage options .identity).diagnostics, .error earlier⟩ := by
        change (graphs storage options .identity).andThen _ = _
        rw [Reporting.andThen, made]
      rw [same] at failed
      obtain rfl := Except.error.inj failed
      rw [same, ← made]

theorem buildWith_of_graphs_error {collaborators : Collaborators} {reports : List Diagnostic}
    (failed : graphs storage options collaborators.transform = ⟨reports, .error error⟩) :
    buildWith storage options collaborators = (storage, ⟨reports, .error error⟩) := by
  have assembled : assemble storage options collaborators = ⟨reports, .error error⟩ := by
    change (graphs storage options collaborators.transform).andThen _ = _
    rw [Reporting.andThen, failed]
  rw [buildWith, assembled]

/-- A planned chunk has the label of the chunk that it is made from. -/
theorem map_label_planChunk (found : Graphs) (emitted : List EmittedChunk) :
    (emitted.map (planChunk found)).map PlannedChunk.label =
      (emitted.map EmittedChunk.outline).map (·.label) := by
  rw [List.map_map, List.map_map]
  rfl

/-! ## What a plan tells -/

/-- A plan foretells the build of a project, with texts that are made smaller or not: what it plans
is what a build that succeeds reports, and a build fails wherever it does, with the same error and
the same diagnostics. -/
structure Foretells (storage : Storage) (options : Options) : Prop where
  chunks : ∀ minimize report,
    (build storage { options with minimize }).2.result = .ok report →
      ∃ planned, (plan storage options).result = .ok planned ∧
        planned.modules = report.modules ∧
          planned.chunks.map PlannedChunk.label =
            report.chunks.map fun chunk => ⟨chunk.name, chunk.kind, chunk.fileName⟩
  failure : ∀ minimize error, (plan storage options).result = .error error →
    build storage { options with minimize } =
      (storage, ⟨(plan storage options).diagnostics, .error error⟩)
  names : ∀ minify minify' graph chunks,
    (EmittedChunk.emit (emission options minify) graph chunks).map (·.map EmittedChunk.outline) =
      (EmittedChunk.emit (emission options minify') graph chunks).map (·.map EmittedChunk.outline)

theorem foretells (storage : Storage) (options : Options) : Foretells storage options := by
  constructor
  case chunks =>
    intro minimize report succeeds
    obtain ⟨assembly, assembled, _⟩ := exists_assembly_of_buildWith succeeds
    obtain rfl := eq_reportOn assembled succeeds
    obtain ⟨parts, set, composed⟩ := exists_parts assembled
    have made : (graphs storage options .identity).result = .ok parts.found := composed.found
    refine ⟨_, plan_of_graphs_ok made, ?_, ?_⟩
    · rw [composed.assembly, reportOn]
    · rw [composed.assembly, reportOn, map_label_planChunk, emission,
        EmittedChunk.map_outline_all id (if minimize then Page.stripBlank else id), List.map_map]
      rfl
  case failure =>
    intro minimize error failed
    exact buildWith_of_graphs_error (graphs_of_plan_error failed)
  case names =>
    intro minify minify' graph chunks
    exact EmittedChunk.map_outline_emit minify minify' graph chunks

/-! ## Two projects -/

/-- A project whose entry is missing. -/
def bare : Storage where
  items := [(["app"], .directory)]
  workingDirectory := ["app"]

theorem resolve?_bare :
    (Discovery.project bare slashedOptions .identity).resolver.resolve? bare "./main.js" "/app" =
      none := by
  have bases : (Discovery.project bare slashedOptions .identity).resolver.bases "/app" "./main.js" =
      ["/app/./main.js"] := by
    rw [Resolver.bases, if_pos (by decide)]
    decide
  have noFile : bare.isFile "/app/./main.js" = false ∧ bare.isFile "/app/./main.js.js" = false := by
    rw [Storage.isFile, Storage.isFile, locate_eq_locateSteps, locate_eq_locateSteps]
    exact ⟨rfl, rfl⟩
  have noDirectory : bare.isDirectory "/app/./main.js" = false := by
    rw [Storage.isDirectory, locate_eq_locateSteps]
    rfl
  have names : (Discovery.project bare slashedOptions .identity).resolver.candidates
      "/app/./main.js" = ["/app/./main.js", "/app/./main.js.js"] := rfl
  simp [Resolver.resolve?, bases, Resolver.path?, Resolver.file?, names, noFile,
    Resolver.directory?, Resolver.redirectBound, noDirectory]

theorem plan_bare : (plan bare slashedOptions).result =
    .error (.discovery (.unresolved "./main.js" "entry 'main'")) := by
  have undiscovered : Discovery.moduleGraph bare slashedOptions .identity =
      .error (.unresolved "./main.js" "entry 'main'") := by
    have notFound : (Discovery.project bare slashedOptions .identity).resolver.resolve?
        (Discovery.project bare slashedOptions .identity).storage "./main.js" "/app" = none :=
      resolve?_bare
    rw [Discovery.moduleGraph]
    simp only [show slashedOptions.entries = [("main", ["./main.js"])] from rfl,
      show slashedOptions.root = "/app" from rfl, Discovery.resolveEntries,
      Discovery.resolveEntry, notFound]
    rfl
  have failed : (graphs bare slashedOptions .identity).result =
      .error (.discovery (.unresolved "./main.js" "entry 'main'")) := by
    rw [graphs, undiscovered]
    rfl
  exact Reporting.result_andThen_of_error failed

/-- The plan of one project has the chunks of its build, and that of the other fails as its build
does. -/
theorem foretells_pages_bare :
    (∃ report planned, (build Discovery.pages Discovery.pagesOptions).2.result = .ok report ∧
      (plan Discovery.pages Discovery.pagesOptions).result = .ok planned ∧
        planned.chunks.map PlannedChunk.label =
          report.chunks.map fun chunk => ⟨chunk.name, chunk.kind, chunk.fileName⟩) ∧
    ∃ error, (plan bare slashedOptions).result = .error error ∧
      build bare slashedOptions =
        (bare, ⟨(plan bare slashedOptions).diagnostics, .error error⟩) := by
  obtain ⟨report, succeeds⟩ := exists_report_pages
  obtain ⟨planned, made, _, labels⟩ :=
    (foretells Discovery.pages Discovery.pagesOptions).chunks Discovery.pagesOptions.minimize report succeeds
  exact ⟨⟨report, planned, succeeds, made, labels⟩, _, plan_bare,
    (foretells bare slashedOptions).failure slashedOptions.minimize _ plan_bare⟩

end Build

end WebBundle
