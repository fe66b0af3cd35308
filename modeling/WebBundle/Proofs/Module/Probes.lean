import WebBundle.Proofs.Module.Discovered
import WebBundle.Proofs.Storage.Meeting
import WebBundle.Proofs.Storage.Parents

/-!
# Probes of a search

A specifier is resolved by looking at some paths, one after the other, up to the first that is a
file. If these paths are kept in another storage, the specifier stands for the same file there, and
a search whose probes are all kept finds the same modules.
-/

namespace WebBundle

open Storage

variable {storage later : Storage} {directory name path : String}

/-! ## Files below a path -/

namespace Storage

/-- Only a directory has a file below it. -/
theorem isDirectory_of_isFile_join (nonempty : directory ≠ "")
    (relative : Path.isAbsolute name = false)
    (isFile : storage.isFile (Path.join directory name) = true) :
    storage.isDirectory directory = true := by
  obtain ⟨place, bytes, found⟩ := isFile_iff.1 isFile
  have ends := found?_eq_some.1 found
  have isPath := isPath_of_locate ends
  obtain ⟨more, shape, still⟩ := Path.exists_segments_eq nonempty
  have shorter : directory.toList.Sublist (Path.join directory name).toList := by
    rw [Path.toList_join relative, Path.front]
    split
    next => exact List.sublist_append_left _ _
    next =>
      rw [List.append_assoc]
      exact List.sublist_append_left _ _
  rw [locate_eq_walk isPath, Path.isAbsolute_join relative, stepsOf, Path.segments_join relative,
    List.map_append] at ends
  obtain ⟨place', item, ends', isDirectory⟩ := exists_walk_of_append ends
  obtain rfl := isDirectory (mt List.map_eq_nil_iff.1 (Text.pieces_ne_nil _ name.toList))
  refine isDirectory_iff.2 ⟨place', found?_eq_some.2 ?_⟩
  rw [locate_eq_walk (isPath.of_shorter nonempty shorter), stepsOf, shape, List.map_append]
  exact walk_append_stills (isStill_of_mem_map still) ends'

end Storage

namespace Resolver

variable {resolver : Resolver}

/-! ## Probes -/

/-- What is tried up to the first success. -/
def tried {α : Type} (succeeds : α → Bool) : List α → List α
  | [] => []
  | item :: items => item :: if succeeds item then [] else tried succeeds items

/-- The paths at which a file of a name is looked for. -/
def fileProbes (resolver : Resolver) (storage : Storage) (path : String) : List String :=
  tried storage.isFile (resolver.candidates path)

def indexProbes (resolver : Resolver) (storage : Storage) (directory : String) : List String :=
  resolver.fileProbes storage (Path.join directory "index")

/-- The paths at which the file of a directory is looked for. They tell whether there is such a
directory. -/
def directoryProbes (resolver : Resolver) (storage : Storage) :
    (redirects : Nat) → (directory : String) → List String
  | 0, directory => resolver.indexProbes storage directory
  | redirects + 1, directory =>
      Path.join directory descriptionName ::
        match main? storage directory with
        | none => resolver.indexProbes storage directory
        | some main =>
            let target := Path.join directory main
            resolver.fileProbes storage target ++
              if (resolver.file? storage target).isSome then []
              else if Path.normalize target = Path.normalize directory then
                resolver.indexProbes storage directory
              else
                directoryProbes resolver storage redirects target ++
                  if (resolver.directory? storage redirects target).isSome then []
                  else resolver.indexProbes storage directory

/-- The paths at which the file of a path is looked for. -/
def pathProbes (resolver : Resolver) (storage : Storage) (path : String) : List String :=
  resolver.fileProbes storage path ++
    if (resolver.file? storage path).isSome then []
    else resolver.directoryProbes storage redirectBound path

/-- The paths at which the file of a specifier is looked for. -/
def probes (resolver : Resolver) (storage : Storage) (specifier directory : String) :
    List String :=
  (tried (fun base => (resolver.path? storage base).isSome)
    (resolver.bases directory specifier)).flatMap (resolver.pathProbes storage)

/-- Where a file is found at once, nothing else is looked at. -/
theorem probes_of_isFile {specifier : String} (bases : resolver.bases directory specifier = [path])
    (isFile : storage.isFile path = true) :
    resolver.probes storage specifier directory = [path] := by
  have found : resolver.file? storage path = some path := by
    rw [file?, candidates, List.find?_cons, isFile]
  rw [probes, bases]
  simp [tried, pathProbes, fileProbes, candidates, isFile, found]

/-- What the paths lead to is kept. -/
def Keeps (storage later : Storage) (paths : List String) : Prop :=
  ∀ path ∈ paths, Kept (storage.found? path) (later.found? path)

/-! ## Kept probes -/

theorem find?_of_tried {α : Type} {first second : α → Bool} {items : List α}
    (same : ∀ item ∈ tried first items, second item = first item) :
    items.find? second = items.find? first := by
  induction items with
  | nil => rfl
  | cons item items ih =>
      rw [tried, List.forall_mem_cons] at same
      obtain ⟨here, others⟩ := same
      rw [List.find?_cons, List.find?_cons, here]
      cases found : first item with
      | true => rfl
      | false =>
          rw [found, if_neg Bool.false_ne_true] at others
          exact ih others

theorem findSome?_of_tried {α β : Type} {first second : α → Option β} {items : List α}
    (same : ∀ item ∈ tried (fun item => (first item).isSome) items, second item = first item) :
    items.findSome? second = items.findSome? first := by
  induction items with
  | nil => rfl
  | cons item items ih =>
      rw [tried, List.forall_mem_cons] at same
      obtain ⟨here, others⟩ := same
      rw [List.findSome?_cons, List.findSome?_cons, here]
      cases found : first item with
      | some value => rfl
      | none =>
          rw [found, Option.isSome_none, if_neg Bool.false_ne_true] at others
          exact ih others

theorem file?_of_keeps (keeps : Keeps storage later (resolver.fileProbes storage path)) :
    resolver.file? later path = resolver.file? storage path :=
  find?_of_tried fun path listed => isFile_of_kept (keeps path listed)

theorem index?_of_keeps (keeps : Keeps storage later (resolver.indexProbes storage directory)) :
    resolver.index? later directory = resolver.index? storage directory :=
  file?_of_keeps keeps

theorem main?_of_kept
    (kept : Kept (storage.found? (Path.join directory descriptionName))
      (later.found? (Path.join directory descriptionName))) :
    main? later directory = main? storage directory := by
  have same := readText_of_kept kept
  rw [main?, main?]
  cases isText : storage.readText (Path.join directory descriptionName) with
  | ok text => rw [(same text).2 isText]
  | error fault =>
      cases isText' : later.readText (Path.join directory descriptionName) with
      | ok text =>
          rw [(same text).1 isText'] at isText
          cases isText
      | error fault' => rfl

/-! ## Directories -/

theorem join_append (nonempty : name ≠ "") (relative : Path.isAbsolute name = false)
    (suffix : String) : Path.join directory name ++ suffix = Path.join directory (name ++ suffix) := by
  have begins : name.toList ≠ [] := fun empty => nonempty (String.toList_eq_nil_iff.1 empty)
  have longer : Path.isAbsolute (name ++ suffix) = false := by
    rw [Path.isAbsolute, String.toList_append, List.head?_append_of_ne_nil _ begins]
    exact relative
  rw [← String.toList_inj, String.toList_append, Path.toList_join relative,
    Path.toList_join longer, String.toList_append, List.append_assoc]

theorem exists_of_mem_candidates (nonempty : name ≠ "") (relative : Path.isAbsolute name = false)
    (listed : path ∈ resolver.candidates (Path.join directory name)) :
    ∃ suffix, path = Path.join directory (name ++ suffix) := by
  rcases List.mem_cons.1 listed with rfl | extended
  · exact ⟨"", by rw [String.append_empty]⟩
  · obtain ⟨extension, _, rfl⟩ := List.mem_map.1 extended
    exact ⟨extension, join_append nonempty relative extension⟩

theorem isDirectory_of_index? (nonempty : directory ≠ "") {found : String}
    (isIndex : resolver.index? storage directory = some found) :
    storage.isDirectory directory = true := by
  have isFile := isFile_of_file? isIndex
  have isName : "index" ≠ "" ∧ Path.isAbsolute "index" = false := by decide
  obtain ⟨suffix, rfl⟩ := exists_of_mem_candidates isName.1 isName.2
    (List.mem_of_find?_eq_some isIndex)
  refine isDirectory_of_isFile_join nonempty ?_ isFile
  rw [Path.isAbsolute, String.toList_append]
  rfl

theorem isDirectory_of_main? (nonempty : directory ≠ "") {main : String}
    (isMain : main? storage directory = some main) : storage.isDirectory directory = true := by
  unfold main? at isMain
  split at isMain
  next text isText =>
    obtain ⟨bytes, isRead, _⟩ := readText_eq_ok.1 isText
    obtain ⟨place, found⟩ := read_eq_ok.1 isRead
    exact @isDirectory_of_isFile_join storage directory descriptionName nonempty (by decide)
      (isFile_iff.2 ⟨place, bytes, found⟩)
  next => cases isMain

theorem index?_eq_none (nonempty : directory ≠ "") (missing : ¬storage.isDirectory directory = true) :
    resolver.index? storage directory = none :=
  Option.eq_none_iff_forall_ne_some.2 fun _ isIndex =>
    missing (isDirectory_of_index? nonempty isIndex)

theorem main?_eq_none (nonempty : directory ≠ "") (missing : ¬storage.isDirectory directory = true) :
    main? storage directory = none :=
  Option.eq_none_iff_forall_ne_some.2 fun _ isMain =>
    missing (isDirectory_of_main? nonempty isMain)

/-- Where there is no directory, there is no file in it either. -/
theorem directory?_zero (nonempty : directory ≠ "") :
    resolver.directory? storage 0 directory = resolver.index? storage directory := by
  rw [directory?]
  split
  next => rfl
  next missing => exact (index?_eq_none nonempty missing).symm

theorem directory?_succ (nonempty : directory ≠ "") (redirects : Nat) :
    resolver.directory? storage (redirects + 1) directory =
      match main? storage directory with
      | none => resolver.index? storage directory
      | some main =>
          let target := Path.join directory main
          let beyond :=
            if Path.normalize target = Path.normalize directory then none
            else resolver.directory? storage redirects target
          (resolver.file? storage target).or (beyond.or (resolver.index? storage directory)) := by
  rw [directory?]
  split
  next => rfl
  next missing =>
    rw [main?_eq_none nonempty missing]
    exact (index?_eq_none nonempty missing).symm

theorem directory?_of_empty (redirects : Nat) :
    resolver.directory? storage redirects "" = none := by
  have missing : storage.isDirectory "" = false := rfl
  cases redirects with
  | zero => rw [directory?, missing, if_neg Bool.false_ne_true]
  | succ redirects => rw [directory?, missing, if_neg Bool.false_ne_true]

theorem keeps_append {first second : List String} :
    Keeps storage later (first ++ second) ↔
      Keeps storage later first ∧ Keeps storage later second := List.forall_mem_append

theorem directory?_of_keeps {redirects : Nat}
    (keeps : Keeps storage later (resolver.directoryProbes storage redirects directory)) :
    resolver.directory? later redirects directory =
      resolver.directory? storage redirects directory := by
  induction redirects generalizing directory with
  | zero =>
      by_cases empty : directory = ""
      · rw [empty, directory?_of_empty, directory?_of_empty]
      · rw [directory?_zero empty, directory?_zero empty, index?_of_keeps keeps]
  | succ redirects ih =>
      by_cases empty : directory = ""
      · rw [empty, directory?_of_empty, directory?_of_empty]
      · rw [directoryProbes, Keeps, List.forall_mem_cons] at keeps
        obtain ⟨description, keeps⟩ := keeps
        rw [directory?_succ empty, directory?_succ empty, main?_of_kept description]
        cases isMain : main? storage directory with
        | none =>
            rw [isMain] at keeps
            exact index?_of_keeps keeps
        | some main =>
            rw [isMain] at keeps
            dsimp only at keeps ⊢
            obtain ⟨named, keeps⟩ := keeps_append.1 keeps
            rw [file?_of_keeps named]
            cases found : resolver.file? storage (Path.join directory main) with
            | some path => rw [Option.some_or, Option.some_or]
            | none =>
                rw [found, Option.isSome_none, if_neg Bool.false_ne_true] at keeps
                split at keeps
                next same => rw [if_pos same, if_pos same, index?_of_keeps keeps]
                next differs =>
                  obtain ⟨beyond, keeps⟩ := keeps_append.1 keeps
                  rw [if_neg differs, if_neg differs, ih beyond]
                  cases led : resolver.directory? storage redirects (Path.join directory main) with
                  | some path => rfl
                  | none =>
                      rw [led, Option.isSome_none, if_neg Bool.false_ne_true] at keeps
                      rw [index?_of_keeps keeps]

theorem path?_of_keeps (keeps : Keeps storage later (resolver.pathProbes storage path)) :
    resolver.path? later path = resolver.path? storage path := by
  obtain ⟨named, keeps⟩ := keeps_append.1 keeps
  rw [path?, path?, file?_of_keeps named]
  cases found : resolver.file? storage path with
  | some path => rfl
  | none =>
      rw [found, Option.isSome_none, if_neg Bool.false_ne_true] at keeps
      rw [directory?_of_keeps keeps]

/-- A specifier stands for the same file where its probes are kept. -/
theorem resolve?_of_keeps {specifier : String}
    (keeps : Keeps storage later (resolver.probes storage specifier directory)) :
    resolver.resolve? later specifier directory =
      resolver.resolve? storage specifier directory := by
  refine findSome?_of_tried fun base listed => path?_of_keeps fun path probed => ?_
  exact keeps path (List.mem_flatMap.2 ⟨base, listed, probed⟩)

end Resolver

/-! ## Searches -/

namespace Discovery

open ModuleGraph

variable {project : Project} {search next : Search} {graph : ModuleGraph}

/-- The project with another storage. -/
def Project.at (project : Project) (storage : Storage) : Project := { project with storage }

theorem loadModule_of_keeps {module : Module} {loaded : Loaded}
    (loads : loadModule project module = .ok loaded)
    (kept : Kept (project.storage.found? module.resource) (later.found? module.resource))
    (keeps : ∀ statement ∈ statementsOf module loaded.content, Resolver.Keeps project.storage later
      (project.resolver.probes project.storage statement.specifier (directoryOf module))) :
    loadModule (project.at later) module = .ok loaded := by
  obtain ⟨⟨source, isRead, transformed⟩, resolved⟩ := loadModule_eq_ok loads
  have isRead' : (project.at later).storage.read module.resource = .ok source :=
    (read_of_kept kept source).2 isRead
  have transformed' : (project.at later).transform module.name source = .ok loaded.content :=
    transformed
  have resolved' : (statementsOf module loaded.content).mapM
      (resolveImport (project.at later) (directoryOf module) module.name) = .ok loaded.imports := by
    refine mapM_of_forall₂ (((List.forall₂_and_left _ _).2 ⟨keeps, resolved⟩).imp ?_)
    rintro statement found ⟨keeps, isFound⟩
    have same : (project.at later).resolver.resolve? (project.at later).storage
        statement.specifier (directoryOf module) = project.resolver.resolve? project.storage
          statement.specifier (directoryOf module) := Resolver.resolve?_of_keeps keeps
    rw [resolveImport, same]
    exact isFound
  rw [loadModule, isRead']
  dsimp only
  rw [transformed']
  dsimp only
  rw [importsOf_eq, resolved']

/-- Loading the modules of a graph comes to the same in another storage. -/
def Reloads (project : Project) (later : Storage) (graph : ModuleGraph) : Prop :=
  ∀ id module loaded, graph.module? id = some module → loadModule project module = .ok loaded →
    loadModule (project.at later) module = .ok loaded

theorem retains_file_of_round {sources : List Nat} (id : Nat)
    (rounded : round project sources search = .ok next) :
    Retains Module.file id search.graph next.graph := by
  rw [round_eq] at rounded
  cases loads : (sources.filterMap search.graph.module?).mapM (loadNumbered project) with
  | error error =>
      rw [loads] at rounded
      cases rounded
  | ok loaded =>
      rw [loads] at rounded
      obtain rfl := Except.ok.inj rounded
      have start : Retains Module.file id search.graph
          (Search.mk search.graph []).graph := .refl
      exact List.foldlRecOn
        (motive := fun merged : Search => Retains Module.file id search.graph merged.graph)
        loaded _ start fun merged before loaded _ =>
          before.trans (Search.retains_file_merge id loaded.1 merged loaded.2)

theorem retains_file_of_rounds {fuel : Nat} (id : Nat)
    (ended : rounds project fuel search = .ok graph) :
    Retains Module.file id search.graph graph := by
  induction fuel generalizing search with
  | zero => cases ended
  | succ fuel ih =>
      rw [rounds] at ended
      split at ended
      next =>
        obtain rfl := Except.ok.inj ended
        exact .refl
      next =>
        split at ended
        next => cases ended
        next rounded => exact (retains_file_of_round id rounded).trans (ih ended)

theorem round_of_reloads {sources : List Nat} (reloads : Reloads project later graph)
    (retains : ∀ id, Retains Module.file id search.graph graph)
    (rounded : round project sources search = .ok next) :
    round (project.at later) sources search = .ok next := by
  rw [round_eq] at rounded ⊢
  cases loads : (sources.filterMap search.graph.module?).mapM (loadNumbered project) with
  | error error =>
      rw [loads] at rounded
      cases rounded
  | ok loaded =>
      have known : ∀ module ∈ sources.filterMap search.graph.module?,
          ∃ id, search.graph.module? id = some module := by
        intro module listed
        obtain ⟨id, _, found⟩ := List.mem_filterMap.1 listed
        exact ⟨id, found⟩
      have loads' : (sources.filterMap search.graph.module?).mapM
          (loadNumbered (project.at later)) = .ok loaded := by
        refine mapM_of_forall₂ (((List.forall₂_and_left _ _).2 ⟨known, forall₂_of_mapM loads⟩).imp ?_)
        rintro module numbered ⟨⟨id, found⟩, isLoaded⟩
        obtain ⟨final, stands, same⟩ := (retains id).exists_module found
        rw [loadNumbered] at isLoaded ⊢
        cases loads : loadModule project module with
        | error error =>
            rw [loads] at isLoaded
            cases isLoaded
        | ok loaded =>
            have loadsFinal := reloads id final loaded stands
              ((loadModule_eq_of_file_eq same).trans loads)
            rw [loads] at isLoaded
            rw [← loadModule_eq_of_file_eq same, loadsFinal]
            exact isLoaded
      rw [loads] at rounded
      rw [loads']
      exact rounded

theorem rounds_of_reloads {fuel : Nat} (reloads : Reloads project later graph)
    (ended : rounds project fuel search = .ok graph) :
    rounds (project.at later) fuel search = .ok graph := by
  induction fuel generalizing search with
  | zero => cases ended
  | succ fuel ih =>
      have retains := fun id => retains_file_of_rounds id ended
      rw [rounds] at ended ⊢
      split at ended
      next isEmpty => rwa [if_pos isEmpty]
      next isEmpty =>
        rw [if_neg isEmpty]
        split at ended
        next => cases ended
        next rounded =>
          rw [round_of_reloads reloads retains rounded]
          exact ih ended

theorem resolveEntry_of_keeps {root name : String} {specifiers : List String}
    (keeps : ∀ specifier ∈ specifiers, Resolver.Keeps project.storage later
      (project.resolver.probes project.storage specifier root)) (search : Search)
    (modules : List Nat) :
    resolveEntry (project.at later) root name specifiers search modules =
      resolveEntry project root name specifiers search modules := by
  induction specifiers generalizing search modules with
  | nil => rfl
  | cons specifier specifiers ih =>
      obtain ⟨first, others⟩ := List.forall_mem_cons.1 keeps
      have same : (project.at later).resolver.resolve? (project.at later).storage specifier root =
          project.resolver.resolve? project.storage specifier root :=
        Resolver.resolve?_of_keeps first
      rw [resolveEntry, resolveEntry, same]
      split
      next => rfl
      next => exact ih others _ _

theorem resolveEntries_of_keeps {root : String} {entries : List (String × List String)}
    (keeps : ∀ entry ∈ entries, ∀ specifier ∈ entry.2, Resolver.Keeps project.storage later
      (project.resolver.probes project.storage specifier root)) (search : Search) :
    resolveEntries (project.at later) root entries search =
      resolveEntries project root entries search := by
  induction entries generalizing search with
  | nil => rfl
  | cons entry entries ih =>
      obtain ⟨first, others⟩ := List.forall_mem_cons.1 keeps
      rw [resolveEntries, resolveEntries, resolveEntry_of_keeps first]
      split
      next => rfl
      next => exact ih others _

/-- The paths at which a search looks: those of its entries, its modules and their imports. -/
inductive IsProbed (project : Project) (root : String) (entries : List (String × List String))
    (graph : ModuleGraph) : String → Prop where
  | entry {entry : String × List String} {specifier path : String} (listed : entry ∈ entries)
      (named : specifier ∈ entry.2)
      (probed : path ∈ project.resolver.probes project.storage specifier root) :
      IsProbed project root entries graph path
  | module {id : Nat} {module : Module} (found : graph.module? id = some module) :
      IsProbed project root entries graph module.resource
  | imported {id : Nat} {module : Module} {statement : Import.Statement} {path : String}
      (found : graph.module? id = some module)
      (imports : statement ∈ statementsOf module module.content)
      (probed : path ∈ project.resolver.probes project.storage statement.specifier
        (directoryOf module)) :
      IsProbed project root entries graph path

theorem Explains.content_eq {module : Module} {loaded : Loaded}
    (explains : Explains project graph module)
    (loads : loadModule project module = .ok loaded) : loaded.content = module.content := by
  obtain ⟨source, isRead, transformed⟩ := explains.content
  obtain ⟨⟨source', isRead', transformed'⟩, _⟩ := loadModule_eq_ok loads
  obtain rfl := Except.ok.inj (isRead.symm.trans isRead')
  exact Except.ok.inj (transformed'.symm.trans transformed)

/-- A search whose probes are kept finds the same modules. -/
theorem moduleGraph_of_kept {options : Options} {transform : Transform}
    (discovered : moduleGraph storage options transform = .ok graph)
    (kept : ∀ path, IsProbed (Discovery.project storage options transform) options.root
      options.entries graph path → Kept (storage.found? path) (later.found? path)) :
    moduleGraph later options transform = .ok graph := by
  let project := Discovery.project storage options transform
  obtain ⟨search, resolved, ended⟩ := exists_rounds_of_moduleGraph discovered
  have closure := isClosure_of_rounds resolved ended
  have reloads : Reloads project later graph := by
    intro id module loaded found loads
    refine loadModule_of_keeps loads (kept _ (.module found)) ?_
    rw [(closure.modules id module found).content_eq loads]
    exact fun statement imports path probed => kept path (.imported found imports probed)
  have resolved' : resolveEntries (project.at later) options.root options.entries
      ⟨.empty options.root, []⟩ = .ok search := by
    rw [resolveEntries_of_keeps fun entry listed specifier named path probed =>
      kept path (.entry listed named probed)]
    exact resolved
  have same : Discovery.project later options transform = project.at later := rfl
  rw [moduleGraph, same]
  rw [resolved']
  exact rounds_of_reloads reloads ended

end Discovery

end WebBundle
