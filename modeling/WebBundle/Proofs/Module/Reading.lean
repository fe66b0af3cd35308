import Mathlib.Data.List.Infix
import WebBundle.Proofs.Module.Candidates
import WebBundle.Proofs.Module.Discovered
import WebBundle.Proofs.Storage.Lexical

/-!
# The files that modules are read from

A specifier stands for a path at which there is a file. The module of that path is read at the
normalized path. Where the path leads to what its text says, both are one file, so the module can
be read, and it has the content of the file that was resolved.
-/

namespace WebBundle.Discovery

open ModuleGraph

variable {project : Project} {search : Search} {storage : Storage} {options : Options}
  {transform : Transform}

/-! ## Modules that cannot be read -/

theorem exists_of_mapM_eq_error {ε α β : Type} {f : α → Except ε β} {items : List α} {error : ε}
    (fails : items.mapM f = .error error) : ∃ item ∈ items, f item = .error error := by
  induction items with
  | nil => cases fails
  | cons item items ih =>
      rw [List.mapM_cons] at fails
      cases first : f item with
      | error other =>
          rw [first] at fails
          obtain rfl := Except.error.inj fails
          exact ⟨item, List.mem_cons_self, first⟩
      | ok result =>
          rw [first] at fails
          cases others : items.mapM f with
          | error other =>
              rw [others] at fails
              obtain rfl := Except.error.inj fails
              obtain ⟨later, listed, fails⟩ := ih others
              exact ⟨later, List.mem_cons_of_mem item listed, fails⟩
          | ok results =>
              rw [others] at fails
              cases fails

/-- An error that names a file that cannot be read tells the truth. -/
def Truthful (storage : Storage) (error : DiscoveryError) : Prop :=
  ∀ resource fault, error = .unreadable resource fault → storage.read resource = .error fault

theorem truthful_of_loadModule {module : Module} {error : DiscoveryError}
    (fails : loadModule project module = .error error) : Truthful project.storage error := by
  rintro resource fault rfl
  rw [loadModule] at fails
  split at fails
  next unread =>
    cases fails
    exact unread
  next =>
    split at fails
    next => cases fails
    next content _ =>
      split at fails
      next imported =>
        cases fails
        rw [importsOf_eq] at imported
        obtain ⟨statement, _, unresolved⟩ := exists_of_mapM_eq_error imported
        rw [resolveImport] at unresolved
        split at unresolved
        next => cases unresolved
        next => cases unresolved
      next => cases fails

theorem truthful_of_round {sources : List Nat} {error : DiscoveryError}
    (fails : round project sources search = .error error) : Truthful project.storage error := by
  rw [round_eq] at fails
  split at fails
  next failed =>
    cases fails
    obtain ⟨module, _, unloaded⟩ := exists_of_mapM_eq_error failed
    rw [loadNumbered] at unloaded
    cases loads : loadModule project module with
    | error other =>
        rw [loads] at unloaded
        cases unloaded
        exact truthful_of_loadModule loads
    | ok loaded =>
        rw [loads] at unloaded
        cases unloaded
  next => cases fails

theorem truthful_of_rounds {fuel : Nat} {error : DiscoveryError}
    (fails : rounds project fuel search = .error error) : Truthful project.storage error := by
  induction fuel generalizing search with
  | zero =>
      cases fails
      rintro _ _ ⟨⟩
  | succ fuel ih =>
      rw [rounds] at fails
      split at fails
      next => cases fails
      next =>
        split at fails
        next rounded =>
          cases fails
          exact truthful_of_round rounded
        next => exact ih fails

theorem truthful_of_resolveEntry {root name : String} {specifiers : List String}
    {modules : List Nat} {error : DiscoveryError}
    (fails : resolveEntry project root name specifiers search modules = .error error) :
    Truthful project.storage error := by
  induction specifiers generalizing search modules with
  | nil => cases fails
  | cons specifier specifiers ih =>
      rw [resolveEntry] at fails
      split at fails
      next =>
        cases fails
        rintro _ _ ⟨⟩
      next => exact ih fails

theorem truthful_of_resolveEntries {root : String} {entries : List (String × List String)}
    {error : DiscoveryError} (fails : resolveEntries project root entries search = .error error) :
    Truthful project.storage error := by
  induction entries generalizing search with
  | nil => cases fails
  | cons entry entries ih =>
      rw [resolveEntries] at fails
      split at fails
      next unresolved =>
        cases fails
        exact truthful_of_resolveEntry unresolved
      next => exact ih fails

theorem truthful_of_moduleGraph {error : DiscoveryError}
    (fails : moduleGraph storage options transform = .error error) : Truthful storage error := by
  have project : (Discovery.project storage options transform).storage = storage := rfl
  rw [moduleGraph] at fails
  rw [← project]
  split at fails
  next unresolved =>
    cases fails
    exact truthful_of_resolveEntries unresolved
  next => exact truthful_of_rounds fails

/-! ## Modules of resolved paths -/

/-- The module of a path is read from the file at the path, in every graph and at the end of the
search. -/
structure ReadsFrom (storage : Storage) (options : Options) (transform : Transform) (path : String)
    (place : Storage.Place) (bytes : ByteArray) : Prop where
  found : storage.locate true path = .ok (.taken place (.file bytes))
  interned (graph : ModuleGraph) (built : graph.Built) : ∃ module,
    (graph.intern path).2.module? (graph.intern path).1.1 = some module ∧
      storage.locate true module.resource = .ok (.taken place (.file bytes))
  loads (module : Module) (loaded : Loaded) (isModule : module.resource = Path.normalize path)
    (isLoaded : loadModule (Discovery.project storage options transform) module = .ok loaded) :
    transform module.name bytes = .ok loaded.content
  readable (fault : Storage.Fault) : moduleGraph storage options transform ≠
    .error (.unreadable (Path.normalize path) fault)
  content (graph : ModuleGraph) (ended : moduleGraph storage options transform = .ok graph)
    (id : Nat) (known : graph.find? path = some id) : ∃ module, graph.module? id = some module ∧
      transform module.name bytes = .ok module.content

/-- A path that a specifier stands for is the path of the file that its module is read from, if it
leads to what its text says. -/
theorem exists_readsFrom {specifier directory path : String}
    (resolved : (Discovery.project storage options transform).resolver.resolve? storage specifier
      directory = some path)
    (lexical : storage.IsLexical path) :
    ∃ place bytes, ReadsFrom storage options transform path place bytes := by
  obtain ⟨place, bytes, found⟩ := Storage.locate_of_isFile (Resolver.isFile_of_resolve? resolved)
  have canonical := lexical.locate_normalize found
  have isRead : storage.read (Path.normalize path) = .ok bytes := by rw [Storage.read, canonical]
  refine ⟨place, bytes, ?_⟩
  constructor
  case found => exact found
  case interned =>
    intro graph built
    obtain ⟨module, stands, resource⟩ := built.indexed.intern_iff.1 rfl
    exact ⟨module, stands, resource.symm ▸ canonical⟩
  case loads =>
    intro module loaded isModule isLoaded
    obtain ⟨⟨source, isSource, transformed⟩, _⟩ := loadModule_eq_ok isLoaded
    rw [isModule] at isSource
    obtain rfl := Except.ok.inj (isSource.symm.trans isRead)
    exact transformed
  case readable =>
    intro fault fails
    have unread := truthful_of_moduleGraph fails _ _ rfl
    rw [isRead] at unread
    cases unread
  case content =>
    intro graph ended id known
    have closure := isClosure_of_moduleGraph ended
    obtain ⟨module, stands, resource⟩ := closure.indexed.find?_iff.1 known
    obtain ⟨source, isSource, transformed⟩ := (closure.modules id module stands).content
    rw [resource] at isSource
    obtain rfl := Except.ok.inj (isSource.symm.trans isRead)
    exact ⟨module, stands, transformed⟩

/-! ## A project with a link -/

def linkedConfig : Config where
  name := "pages"
  entries := [("app", ["./pages/../x.js", "./a\\b.js", "/C:/../top.js"])]
  output := { path := "build", fileName := "[name].js" }

def linkedOptions : Options := .ofConfig linkedConfig "/app" {}

/-- Pages are linked from a shared directory, and the names of two files look like paths. -/
def linked : Storage where
  items := [(["app"], .directory), (["app", "pages"], .link "../shared/pages"),
    (["app", "x.js"], .file "app();".toUTF8), (["app", "a"], .directory),
    (["app", "b"], .link "a"), (["app", "a", "b.js"], .file "below();".toUTF8),
    (["app", "a\\b.js"], .file "named();".toUTF8), (["shared"], .directory),
    (["shared", "pages"], .directory), (["shared", "pages", "p.js"], .file "page();".toUTF8),
    (["shared", "x.js"], .file "shared();".toUTF8), (["C:"], .directory),
    (["C:", "top.js"], .file "drive();".toUTF8), (["top.js"], .file "top();".toUTF8)]
  workingDirectory := ["app"]

def linkedProject : Project := Discovery.project linked linkedOptions .identity

/-- The path steps up from a link to a directory beside it. -/
theorem isLexical_linked : linked.IsLexical "/app/./b/../pages/p.js" := by
  have isBefore (before : List (List Char))
      (up : before ++ [['.', '.']] <+: Path.segments "/app/./b/../pages/p.js") :
      Path.canonicalSegments true before = [['a', 'p', 'p'], ['b']] := by
    have begins : ∀ beginning ∈ (Path.segments "/app/./b/../pages/p.js").inits,
        beginning.getLast? = some ['.', '.'] →
          Path.canonicalSegments true beginning.dropLast = [['a', 'p', 'p'], ['b']] := by
      decide +kernel
    simpa using begins _ ((List.mem_inits _ _).2 up)
  have absolute : Path.isAbsolute "/app/./b/../pages/p.js" = true := by decide
  constructor
  case noBackslash => decide
  case back =>
    intro before up names name kept _ _ _ place item above
    rw [absolute, isBefore before up] at kept
    have last : [['a', 'p', 'p']] ++ [['b']] = names ++ [name] := kept
    obtain ⟨rfl, rfl⟩ := List.append_singleton_inj.1 last
    have there : linked.along true "/app/./b/../pages/p.js" [['a', 'p', 'p']] =
        .ok (.taken ["app"] .directory) := by
      rw [Storage.along, Storage.walk_eq_walkSteps]
      rfl
    have again : linked.along true "/app/./b/../pages/p.js" [['a', 'p', 'p'], ['b'], ['.', '.']] =
        .ok (.taken ["app"] .directory) := by
      rw [Storage.along, Storage.walk_eq_walkSteps]
      rfl
    exact there.trans (again.symm.trans above)
  case noDrive =>
    intro before up name kept
    rw [absolute, isBefore before up] at kept
    cases kept

theorem exists_readsFrom_linked :
    linkedProject.resolver.resolve? linked "./b/../pages/p.js" "/app" =
        some "/app/./b/../pages/p.js" ∧
      linked.IsLexical "/app/./b/../pages/p.js" ∧
        ∃ place bytes,
          ReadsFrom linked linkedOptions .identity "/app/./b/../pages/p.js" place bytes := by
  have resolved : linkedProject.resolver.resolve? linked "./b/../pages/p.js" "/app" =
      some "/app/./b/../pages/p.js" := by
    simp only [Resolver.resolve?, Resolver.path?, Resolver.file?, Storage.isFile_eq_locateSteps]
    decide +kernel
  exact ⟨resolved, isLexical_linked, exists_readsFrom resolved isLexical_linked⟩

/-- A specifier stands for a file, but its module is read from another one. -/
def Misreads (project : Project) (root specifier : String) : Prop :=
  ∃ path module, project.resolver.resolve? project.storage specifier root = some path ∧
    ((ModuleGraph.empty root).intern path).2.module? 0 = some module ∧
      project.storage.read module.resource ≠ project.storage.read path

/-- So it is behind a step up from a link, a backslash in a name and a step up from a drive. -/
theorem misreads_linked : Misreads linkedProject "/app" "./pages/../x.js" ∧
    Misreads linkedProject "/app" "./a\\b.js" ∧ Misreads linkedProject "/app" "/C:/../top.js" := by
  have evaluated : ∀ specifier ∈ ["./pages/../x.js", "./a\\b.js", "/C:/../top.js"],
      linkedProject.resolver.resolve? linked specifier "/app" =
        some (Path.join "/app" specifier) ∧
      linked.read (Path.normalize (Path.join "/app" specifier)) ≠
        linked.read (Path.join "/app" specifier) := by
    simp only [Resolver.resolve?, Resolver.path?, Resolver.file?, Storage.isFile_eq_locateSteps,
      Storage.read, Storage.locate_eq_locateSteps]
    decide +kernel
  have misread (specifier : String)
      (listed : specifier ∈ ["./pages/../x.js", "./a\\b.js", "/C:/../top.js"]) :
      Misreads linkedProject "/app" specifier := by
    obtain ⟨resolved, differs⟩ := evaluated specifier listed
    exact ⟨_, ModuleGraph.newModule _ _, resolved, rfl, differs⟩
  exact ⟨misread _ (by simp), misread _ (by simp), misread _ (by simp)⟩

end WebBundle.Discovery
