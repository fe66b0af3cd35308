import WebBundle.Proofs.Module.Search
import WebBundle.Proofs.Storage.Steps

/-!
# Searching one module at a time

The plain search keeps one queue. It takes the module at the front, reads it, transforms it and adds
its imports one after the other, each as soon as its specifier is resolved. Rounds come to the same
graph and the same error: loading a module depends on its file alone, so loading it early changes
nothing, and what a round meets is queued behind the modules of the round.
-/

namespace WebBundle.Discovery

open ModuleGraph Storage

variable {project : Project} {search : Search} {visits : Nat}

/-! ## The plain search -/

/-- The directory in which the specifiers of a module are resolved. -/
def directoryOf (module : Module) : String := (Path.parent? module.resource).getD "/"

/-- The imports in some content of a module, none where it is no script. -/
def statementsOf (module : Module) (content : ByteArray) : List Import.Statement :=
  if module.isScript then Import.scan (Text.Utf8.lenient content) else []

/-- Resolves and adds the imports of a module, up to the first that stands for no file. -/
def followImports (project : Project) (module : Module) :
    List Import.Statement → Search → Except DiscoveryError Search
  | [], search => .ok search
  | statement :: statements, search =>
      match project.resolver.resolve? project.storage statement.specifier
          (directoryOf module) with
      | none => .error (.unresolved statement.specifier module.name)
      | some path =>
          followImports project module statements
            (search.addImport module.id ⟨statement.timing, statement.specifier, path⟩)

/-- Reads a module, transforms it and adds its imports. -/
def visit (project : Project) (module : Module) (search : Search) :
    Except DiscoveryError Search :=
  match project.storage.read module.resource with
  | .error fault => .error (.unreadable module.resource fault)
  | .ok source =>
      match project.transform module.name source with
      | .error message => .error (.refused module.name message)
      | .ok content =>
          followImports project module (statementsOf module content)
            (search.setContent module.id content)

/-- Visits the modules of the queue, front first, until it is empty or one of them fails. -/
def inTurn (project : Project) :
    (visits : Nat) → ModuleGraph → (queue : List Nat) → Except DiscoveryError ModuleGraph
  | _, graph, [] => .ok graph
  | 0, _, _ :: _ => .error .tooManyModules
  | visits + 1, graph, id :: queue =>
      match graph.module? id with
      | none => inTurn project visits graph queue
      | some module =>
          match visit project module ⟨graph, queue⟩ with
          | .error error => .error error
          | .ok search => inTurn project visits search.graph search.frontier

/-- The module graph that the plain search finds within some number of visits. -/
def moduleGraphInTurn (storage : Storage) (options : Options) (transform : Transform)
    (visits : Nat) : Except DiscoveryError ModuleGraph :=
  let project := Discovery.project storage options transform
  match resolveEntries project options.root options.entries ⟨.empty options.root, []⟩ with
  | .error error => .error error
  | .ok search => inTurn project visits search.graph search.frontier

/-! ## Visits -/

theorem importsOf_eq (module : Module) (content : ByteArray) :
    importsOf project module content =
      (statementsOf module content).mapM
        (resolveImport project (directoryOf module) module.name) := by
  rw [importsOf, statementsOf]
  split
  next => rfl
  next => rfl

theorem followImports_eq (module : Module) (statements : List Import.Statement)
    (search : Search) :
    followImports project module statements search =
      match statements.mapM (resolveImport project (directoryOf module) module.name) with
      | .error error => .error error
      | .ok imports => .ok (imports.foldl (Search.addImport module.id) search) := by
  induction statements generalizing search with
  | nil => rfl
  | cons statement statements ih =>
      rw [List.mapM_cons, followImports, resolveImport]
      cases project.resolver.resolve? project.storage statement.specifier (directoryOf module) with
      | none => rfl
      | some path =>
          dsimp only
          rw [ih]
          cases statements.mapM (resolveImport project (directoryOf module) module.name) with
          | error error => rfl
          | ok imports => rfl

/-- A visit loads a module and merges it. -/
theorem visit_eq (module : Module) (search : Search) :
    visit project module search =
      match loadModule project module with
      | .error error => .error error
      | .ok loaded => .ok (search.merge module.id loaded) := by
  rw [visit, loadModule]
  cases project.storage.read module.resource with
  | error fault => rfl
  | ok source =>
      dsimp only
      cases project.transform module.name source with
      | error message => rfl
      | ok content =>
          dsimp only
          rw [importsOf_eq, followImports_eq]
          cases (statementsOf module content).mapM
              (resolveImport project (directoryOf module) module.name) with
          | error error => rfl
          | ok imports => rfl

/-- Loading a module depends on its file alone. -/
theorem loadModule_eq_of_file_eq {module module' : Module} (same : module'.file = module.file) :
    loadModule project module' = loadModule project module := by
  have byFile : ∀ module, loadModule project module = loadModule project module.file :=
    fun _ => rfl
  rw [byFile, same, ← byFile]

/-! ## Numbers of visits -/

/-- A search that has ended is not changed by further visits. -/
theorem inTurn_of_le {graph : ModuleGraph} {queue : List Nat} {more : Nat}
    (ended : inTurn project visits graph queue ≠ .error .tooManyModules) (le : visits ≤ more) :
    inTurn project more graph queue = inTurn project visits graph queue := by
  induction visits generalizing graph queue more with
  | zero =>
      cases queue with
      | nil => rw [inTurn, inTurn]
      | cons id queue => exact absurd rfl ended
  | succ visits ih =>
      cases queue with
      | nil => rw [inTurn, inTurn]
      | cons id queue =>
          cases more with
          | zero => exact absurd le (Nat.not_succ_le_zero visits)
          | succ more =>
              have le := Nat.le_of_succ_le_succ le
              rw [inTurn] at ended ⊢
              rw [inTurn]
              cases found : graph.module? id with
              | none =>
                  rw [found] at ended
                  exact ih ended le
              | some module =>
                  rw [found] at ended
                  dsimp only at ended ⊢
                  cases visited : visit project module ⟨graph, queue⟩ with
                  | error error => rfl
                  | ok search =>
                      rw [visited] at ended
                      exact ih ended le

/-! ## Rounds -/

/-- The modules of a round are loaded with their numbers. -/
def loadNumbered (project : Project) (module : Module) : Except DiscoveryError (Nat × Loaded) := do
  return (module.id, ← loadModule project module)

theorem round_eq (sources : List Nat) (search : Search) :
    round project sources search =
      match (sources.filterMap search.graph.module?).mapM (loadNumbered project) with
      | .error error => .error error
      | .ok loaded =>
          .ok (loaded.foldl (fun search (source, loaded) => search.merge source loaded)
            ⟨search.graph, []⟩) := by
  rw [round]
  change (((sources.filterMap search.graph.module?).mapM (loadNumbered project)).bind _) = _
  cases (sources.filterMap search.graph.module?).mapM (loadNumbered project) with
  | error error => rfl
  | ok loaded => rfl

/-- Visiting the modules at the front of the queue loads them all and merges them one after the
other. -/
theorem inTurn_append {modules : List Module} {search : Search}
    (known : ∀ module ∈ modules, ∃ current, search.graph.module? module.id = some current ∧
      current.file = module.file) :
    inTurn project (modules.length + visits) search.graph
        (modules.map (·.id) ++ search.frontier) =
      match modules.mapM (loadNumbered project) with
      | .error error => .error error
      | .ok loaded =>
          let merged := loaded.foldl (fun search (source, loaded) => search.merge source loaded)
            search
          inTurn project visits merged.graph merged.frontier := by
  induction modules generalizing search with
  | nil =>
      rw [List.length_nil, Nat.zero_add]
      rfl
  | cons module modules ih =>
      obtain ⟨current, found, same⟩ := known module List.mem_cons_self
      have number : current.file.id = module.file.id := congrArg Module.id same
      have visited : visit project current ⟨search.graph, modules.map (·.id) ++ search.frontier⟩ =
          match loadModule project module with
          | .error error => .error error
          | .ok loaded => .ok ((search.merge module.id loaded).behind (modules.map (·.id))) := by
        rw [visit_eq, loadModule_eq_of_file_eq same, show current.id = module.id from number]
        cases loadModule project module with
        | error error => rfl
        | ok loaded => exact congrArg Except.ok (Search.merge_behind _ _ search loaded)
      rw [List.length_cons, Nat.add_right_comm, List.map_cons, List.cons_append, inTurn, found]
      dsimp only
      rw [visited, List.mapM_cons, loadNumbered]
      cases loadModule project module with
      | error error => rfl
      | ok loaded =>
          have later : ∀ other ∈ modules, ∃ current,
              (search.merge module.id loaded).graph.module? other.id = some current ∧
                current.file = other.file := by
            intro other member
            obtain ⟨before, stands, same⟩ := known other (List.mem_cons_of_mem module member)
            obtain ⟨after, stands', same'⟩ :=
              (Search.retains_file_merge other.id module.id search loaded).exists_module stands
            exact ⟨after, stands', same'.trans same⟩
          dsimp only
          refine (ih later).trans ?_
          cases modules.mapM (loadNumbered project) with
          | error error => rfl
          | ok others => rfl

/-! ## Whole searches -/

/-- The numbers of a queue are the numbers of the modules that they stand for. -/
theorem map_id_filterMap {graph : ModuleGraph} {ids : List Nat} (numbered : graph.Numbered)
    (allocated : ∀ id ∈ ids, id < graph.size) :
    (ids.filterMap graph.module?).map (·.id) = ids := by
  induction ids with
  | nil => rfl
  | cons id ids ih =>
      obtain ⟨module, found⟩ := lt_size_iff.1 (allocated id List.mem_cons_self)
      rw [List.filterMap_cons_some found, List.map_cons, numbered id module found,
        ih fun other member => allocated other (List.mem_cons_of_mem id member)]

/-- A round is as many visits as there are modules in the queue. -/
theorem inTurn_round (sound : search.Sound) :
    inTurn project (search.frontier.length + visits) search.graph search.frontier =
      match round project search.frontier search with
      | .error error => .error error
      | .ok next => inTurn project visits next.graph next.frontier := by
  let modules := search.frontier.filterMap search.graph.module?
  have ids : modules.map (·.id) = search.frontier :=
    map_id_filterMap sound.built.numbered sound.allocated
  have length : modules.length = search.frontier.length := by
    rw [← ids, List.length_map]
  have known : ∀ module ∈ modules, ∃ current, search.graph.module? module.id = some current ∧
      current.file = module.file := by
    intro module member
    obtain ⟨id, _, found⟩ := List.mem_filterMap.1 member
    exact ⟨module, (sound.built.numbered id module found).symm ▸ found, rfl⟩
  have visited := @inTurn_append project visits modules ⟨search.graph, []⟩ known
  rw [List.append_nil, ids, length] at visited
  rw [visited, round_eq]
  cases modules.mapM (loadNumbered project) with
  | error error => rfl
  | ok loaded => rfl

theorem sound_of_round {sources : List Nat} {next : Search} (sound : search.Sound)
    (rounded : round project sources search = .ok next) : next.Sound := by
  have start : Search.Sound ⟨search.graph, []⟩ := ⟨sound.built, nofun, .nil⟩
  rw [round_eq] at rounded
  cases loads : (sources.filterMap search.graph.module?).mapM (loadNumbered project) with
  | error error =>
      rw [loads] at rounded
      cases rounded
  | ok loaded =>
      rw [loads] at rounded
      obtain rfl := Except.ok.inj rounded
      exact List.foldlRecOn loaded _ start
        fun search sound loaded _ => sound.merge loaded.1 loaded.2

/-- Rounds that end give what the plain search gives within some number of visits. -/
theorem exists_inTurn_eq_rounds {fuel : Nat} (sound : search.Sound)
    (ended : rounds project fuel search ≠ .error .tooManyModules) :
    ∃ visits, inTurn project visits search.graph search.frontier =
      rounds project fuel search := by
  induction fuel generalizing search with
  | zero => exact absurd rfl ended
  | succ fuel ih =>
      rw [rounds] at ended ⊢
      split at ended
      next isEmpty =>
        have empty : search.frontier = [] := List.isEmpty_iff.1 isEmpty
        rw [if_pos isEmpty, empty]
        exact ⟨0, rfl⟩
      next isEmpty =>
        rw [if_neg isEmpty]
        cases rounded : round project search.frontier search with
        | error error =>
            refine ⟨search.frontier.length + 0, ?_⟩
            rw [inTurn_round sound, rounded]
        | ok next =>
            rw [rounded] at ended
            obtain ⟨visits, same⟩ := ih (sound_of_round sound rounded) ended
            refine ⟨search.frontier.length + visits, ?_⟩
            rw [inTurn_round sound, rounded]
            exact same

/-- Where rounds do not end in time the plain search needs at least as many visits. -/
theorem inTurn_of_rounds {fuel : Nat} (sound : search.Sound)
    (endless : rounds project fuel search = .error .tooManyModules) (few : visits < fuel) :
    inTurn project visits search.graph search.frontier = .error .tooManyModules := by
  induction fuel generalizing search visits with
  | zero => exact absurd few (Nat.not_lt_zero visits)
  | succ fuel ih =>
      rw [rounds] at endless
      split at endless
      next => cases endless
      next isEmpty =>
        cases queue : search.frontier with
        | nil => simp [queue] at isEmpty
        | cons id ids =>
            cases visits with
            | zero => rfl
            | succ visits =>
                -- One visit at least belongs to this round.
                by_contra ended
                have more : search.frontier.length + visits = ids.length + (visits + 1) := by
                  rw [queue, List.length_cons]
                  omega
                have same := inTurn_of_le ended (Nat.le_add_left (visits + 1) ids.length)
                rw [← queue, ← more, inTurn_round sound] at same
                rw [← queue, ← same] at ended
                cases rounded : round project search.frontier search with
                | error error =>
                    rw [rounded] at endless ended
                    exact ended endless
                | ok next =>
                    rw [rounded] at endless ended
                    exact ended (ih (sound_of_round sound rounded) endless
                      (Nat.lt_of_succ_lt_succ few))

theorem rounds_eq_inTurn {fuel : Nat} (sound : search.Sound) (few : visits < fuel)
    (ended : inTurn project visits search.graph search.frontier ≠ .error .tooManyModules) :
    rounds project fuel search = inTurn project visits search.graph search.frontier := by
  have inTime : rounds project fuel search ≠ .error .tooManyModules :=
    fun endless => ended (inTurn_of_rounds sound endless few)
  obtain ⟨enough, same⟩ := exists_inTurn_eq_rounds sound inTime
  have ended' : inTurn project enough search.graph search.frontier ≠ .error .tooManyModules :=
    same ▸ inTime
  calc rounds project fuel search
      = inTurn project enough search.graph search.frontier := same.symm
    _ = inTurn project (max visits enough) search.graph search.frontier :=
        (inTurn_of_le ended' (Nat.le_max_right visits enough)).symm
    _ = inTurn project visits search.graph search.frontier :=
        inTurn_of_le ended (Nat.le_max_left visits enough)

/-- A search by rounds that ends gives what the plain search gives, and it ends if the plain search
does within as many visits as there are numbers for modules. -/
theorem moduleGraph_eq_inTurn (storage : Storage) (options : Options) (transform : Transform) :
    (moduleGraph storage options transform ≠ .error .tooManyModules →
      ∃ visits, ∀ more, visits ≤ more →
        moduleGraphInTurn storage options transform more =
          moduleGraph storage options transform) ∧
    ∀ visits ≤ moduleBound,
      moduleGraphInTurn storage options transform visits ≠ .error .tooManyModules →
        moduleGraphInTurn storage options transform visits =
          moduleGraph storage options transform := by
  let project := Discovery.project storage options transform
  rw [moduleGraph]
  simp only [moduleGraphInTurn]
  cases resolved : resolveEntries project options.root options.entries
      ⟨.empty options.root, []⟩ with
  | error error => exact ⟨fun _ => ⟨0, fun _ _ => rfl⟩, fun _ _ _ => rfl⟩
  | ok search =>
      have sound : search.Sound := sound_of_resolveEntries (.start options.root) resolved
      constructor
      · intro ended
        obtain ⟨visits, same⟩ := exists_inTurn_eq_rounds sound ended
        exact ⟨visits, fun more le => (inTurn_of_le (same ▸ ended) le).trans same⟩
      · intro visits few ended
        exact (rounds_eq_inTurn sound (Nat.lt_succ_of_le few) ended).symm

/-! ## Two scripts that import each other -/

def pagesConfig : Config where
  name := "pages"
  entries := [("app", ["./src/main.js"])]
  output := { path := "src", fileName := "[name].js" }

def pagesOptions : Options := .ofConfig pagesConfig "/app" {}

def pagesText : String :=
  "[project]\nname = \"pages\"\n[entry]\napp = \"./src/main.js\"\n" ++
    "[output]\npath = \"src\"\nfilename = \"[name].js\"\n"

/-- A script with a comment that is no text. -/
def mainBytes : ByteArray :=
  "import \"./page.js\";\nimport(\"./page.js\");\n// ".toUTF8.push 0xff

def pageBytes : ByteArray :=
  "import \"./main.js\";\nimport \"./main.js\";\nimport \"./main\";\n".toUTF8

def pages : Storage where
  items := [(["app"], .directory), (["app", "shard.toml"], .file pagesText.toUTF8),
    (["app", "src"], .directory), (["app", "src", "main.js"], .file mainBytes),
    (["app", "src", "page.js"], .file pageBytes)]
  workingDirectory := ["app"]

def pagesProject : Project := Discovery.project pages pagesOptions .identity

def mainFile : Module where
  id := 0
  resource := "/app/src/main.js"
  name := "src/main.js"

def pageFile : Module where
  id := 1
  resource := "/app/src/page.js"
  name := "src/page.js"

def startedGraph : ModuleGraph where
  root := "/app"
  modules := ⟨#[mainFile]⟩
  entries := [⟨"app", [0]⟩]

/-- The graph after the first script was visited. -/
def halfGraph : ModuleGraph where
  root := "/app"
  modules := ⟨#[{ mainFile with
      content := mainBytes
      dependencies := [⟨1, .sync, "./page.js"⟩, ⟨1, .async, "./page.js"⟩] },
    { pageFile with importers := [0] }]⟩
  entries := [⟨"app", [0]⟩]

def pagesGraph : ModuleGraph where
  root := "/app"
  modules := ⟨#[{ mainFile with
      content := mainBytes
      dependencies := [⟨1, .sync, "./page.js"⟩, ⟨1, .async, "./page.js"⟩]
      importers := [1] },
    { pageFile with
      content := pageBytes
      dependencies := [⟨0, .sync, "./main.js"⟩, ⟨0, .sync, "./main"⟩]
      importers := [0] }]⟩
  entries := [⟨"app", [0]⟩]

theorem resolveEntries_pages :
    resolveEntries pagesProject pagesOptions.root pagesOptions.entries
      ⟨.empty pagesOptions.root, []⟩ = .ok ⟨startedGraph, [0]⟩ := by
  have resolved : pagesProject.resolver.resolve? pagesProject.storage "./src/main.js"
      pagesOptions.root = some "/app/./src/main.js" := by
    simp only [Resolver.resolve?, Resolver.path?, Resolver.file?, isFile_eq_locateSteps]
    decide +kernel
  rw [show pagesOptions.entries = [("app", ["./src/main.js"])] from rfl]
  simp only [resolveEntries, resolveEntry, resolved]
  rfl

def mainLoaded : Loaded where
  content := mainBytes
  imports := [⟨.sync, "./page.js", "/app/src/./page.js"⟩,
    ⟨.async, "./page.js", "/app/src/./page.js"⟩]

def pageLoaded : Loaded where
  content := pageBytes
  imports := [⟨.sync, "./main.js", "/app/src/./main.js"⟩,
    ⟨.sync, "./main.js", "/app/src/./main.js"⟩, ⟨.sync, "./main", "/app/src/./main.js"⟩]

theorem loadModule_main : loadModule pagesProject mainFile = .ok mainLoaded := by
  have isRead : pagesProject.storage.read mainFile.resource = .ok mainBytes := by
    rw [Storage.read, Storage.locate_eq_locateSteps]
    decide +kernel
  have scanned : statementsOf mainFile mainBytes =
      [⟨.sync, "./page.js"⟩, ⟨.async, "./page.js"⟩] := by decide +kernel
  have resolved : pagesProject.resolver.resolve? pagesProject.storage "./page.js"
      (directoryOf mainFile) = some "/app/src/./page.js" := by
    simp only [Resolver.resolve?, Resolver.path?, Resolver.file?, isFile_eq_locateSteps]
    decide +kernel
  have same : pagesProject.transform mainFile.name mainBytes = .ok mainBytes := rfl
  simp only [loadModule, isRead, same, importsOf_eq, scanned, List.mapM_cons, resolveImport,
    resolved]
  rfl

theorem loadModule_page : loadModule pagesProject pageFile = .ok pageLoaded := by
  have isRead : pagesProject.storage.read pageFile.resource = .ok pageBytes := by
    rw [Storage.read, Storage.locate_eq_locateSteps]
    decide +kernel
  have scanned : statementsOf pageFile pageBytes =
      [⟨.sync, "./main.js"⟩, ⟨.sync, "./main.js"⟩, ⟨.sync, "./main"⟩] := by decide +kernel
  have resolved : pagesProject.resolver.resolve? pagesProject.storage "./main.js"
      (directoryOf pageFile) = some "/app/src/./main.js" ∧
        pagesProject.resolver.resolve? pagesProject.storage "./main"
          (directoryOf pageFile) = some "/app/src/./main.js" := by
    simp only [Resolver.resolve?, Resolver.path?, Resolver.file?, isFile_eq_locateSteps]
    decide +kernel
  have same : pagesProject.transform pageFile.name pageBytes = .ok pageBytes := rfl
  simp only [loadModule, isRead, same, importsOf_eq, scanned, List.mapM_cons, resolveImport,
    resolved]
  rfl

theorem inTurn_pages : inTurn pagesProject 2 startedGraph [0] = .ok pagesGraph := by
  have first : visit pagesProject mainFile ⟨startedGraph, []⟩ = .ok ⟨halfGraph, [1]⟩ := by
    rw [visit_eq, loadModule_main]
    rfl
  have loaded : loadModule pagesProject { pageFile with importers := [0] } = .ok pageLoaded :=
    loadModule_page
  have second : visit pagesProject { pageFile with importers := [0] } ⟨halfGraph, []⟩ =
      .ok ⟨pagesGraph, []⟩ := by
    rw [visit_eq, loaded]
    rfl
  rw [inTurn, show startedGraph.module? 0 = some mainFile from rfl]
  simp only [first]
  rw [inTurn, show halfGraph.module? 1 = some { pageFile with importers := [0] } from rfl]
  simp only [second]
  rfl

theorem moduleGraph_pages : moduleGraph pages pagesOptions .identity = .ok pagesGraph := by
  have sound : Search.Sound ⟨startedGraph, [0]⟩ :=
    sound_of_resolveEntries (.start pagesOptions.root) resolveEntries_pages
  have ended : inTurn pagesProject 2 startedGraph [0] ≠ .error .tooManyModules := by
    rw [inTurn_pages]
    exact nofun
  have few : 2 < moduleBound + 1 := by decide
  calc moduleGraph pages pagesOptions .identity
      = rounds pagesProject (moduleBound + 1) ⟨startedGraph, [0]⟩ := by
        rw [moduleGraph,
          show Discovery.project pages pagesOptions .identity = pagesProject from rfl]
        simp only [resolveEntries_pages]
    _ = inTurn pagesProject 2 startedGraph [0] := rounds_eq_inTurn sound few ended
    _ = .ok pagesGraph := inTurn_pages

/-- Both searches find the two scripts, the plain one in two visits. -/
theorem moduleGraphInTurn_pages :
    (∃ visits, ∀ more, visits ≤ more →
      moduleGraphInTurn pages pagesOptions .identity more = .ok pagesGraph) ∧
    moduleGraphInTurn pages pagesOptions .identity 2 = .ok pagesGraph := by
  obtain ⟨later, early⟩ := moduleGraph_eq_inTurn pages pagesOptions .identity
  have found : moduleGraphInTurn pages pagesOptions .identity 2 = .ok pagesGraph := by
    rw [moduleGraphInTurn,
      show Discovery.project pages pagesOptions .identity = pagesProject from rfl]
    simp only [resolveEntries_pages]
    exact inTurn_pages
  constructor
  · obtain ⟨visits, same⟩ := later (by rw [moduleGraph_pages]; exact nofun)
    exact ⟨visits, fun more le => (same more le).trans moduleGraph_pages⟩
  · have same := early 2 (by decide) (by rw [found]; exact nofun)
    exact same.trans moduleGraph_pages

end WebBundle.Discovery
