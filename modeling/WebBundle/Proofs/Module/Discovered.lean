import WebBundle.Proofs.Module.Queue

/-!
# What a search finds

The graph that a search finds is the closure of the entries under imports. While it is under way,
the modules in the queue have no imports yet, all others have the content and the imports of their
files, and every module is reachable. The queue is empty in the end.
-/

namespace WebBundle.Discovery

open ModuleGraph

variable {project : Project} {root : String} {search : Search} {graph later : ModuleGraph}

/-! ## Import closures -/

/-- A specifier stands for a file that is a module of the graph. -/
def Finds (project : Project) (graph : ModuleGraph) (directory specifier : String)
    (target : Nat) : Prop :=
  ∃ path, project.resolver.resolve? project.storage specifier directory = some path ∧
    graph.find? path = some target

/-- A named list of specifiers and the entry that stands for it. -/
structure Starts (project : Project) (graph : ModuleGraph) (root : String)
    (listed : String × List String) (entry : Entry) : Prop where
  name : entry.name = listed.1
  modules : ∃ found, List.Forall₂ (Finds project graph root) listed.2 found ∧
    entry.modules = found.eraseDups

/-- An import in a script and the import of the module that stands for it. -/
structure Follows (project : Project) (graph : ModuleGraph) (directory : String)
    (statement : Import.Statement) (dependency : Dependency) : Prop where
  timing : dependency.timing = statement.timing
  specifier : dependency.specifier = statement.specifier
  target : Finds project graph directory statement.specifier dependency.target

/-- The content and the imports of a module are those of its file. -/
structure Explains (project : Project) (graph : ModuleGraph) (module : Module) : Prop where
  content : ∃ source, project.storage.read module.resource = .ok source ∧
    project.transform module.name source = .ok module.content
  script (isScript : module.isScript = true) : ∃ found,
    List.Forall₂ (Follows project graph (directoryOf module))
      (Import.scan (Text.Utf8.lenient module.content)) found ∧
        module.dependencies = found.eraseDups
  other (isOther : module.isScript = false) : module.dependencies = []

/-- The graph holds the entries, the modules that they reach over imports, and nothing else. -/
structure IsClosure (project : Project) (root : String) (entries : List (String × List String))
    (graph : ModuleGraph) : Prop where
  indexed : graph.Indexed
  entries : List.Forall₂ (Starts project graph root) entries graph.entries
  modules (id : Nat) (module : Module) (found : graph.module? id = some module) :
    Explains project graph module
  reachable (id : Nat) (below : id < graph.size) : graph.Reachable id

theorem Finds.mono {directory specifier : String} {target : Nat} (extended : Extends graph later)
    (finds : Finds project graph directory specifier target) :
    Finds project later directory specifier target := by
  obtain ⟨path, resolved, found⟩ := finds
  exact ⟨path, resolved, extended.finds found⟩

theorem Starts.mono {listed : String × List String} {entry : Entry}
    (extended : Extends graph later) (starts : Starts project graph root listed entry) :
    Starts project later root listed entry := by
  obtain ⟨found, finds, modules⟩ := starts.modules
  exact ⟨starts.name, found, finds.imp fun _ _ finds => finds.mono extended, modules⟩

theorem Follows.mono {directory : String} {statement : Import.Statement} {dependency : Dependency}
    (extended : Extends graph later)
    (follows : Follows project graph directory statement dependency) :
    Follows project later directory statement dependency :=
  ⟨follows.timing, follows.specifier, follows.target.mono extended⟩

/-- A module stays explained in a later graph, whatever imports it. -/
theorem Explains.mono {module module' : Module} (extended : Extends graph later)
    (same : module'.alone = module.alone) (explains : Explains project graph module) :
    Explains project later module' := by
  rw [Module.eq_of_alone_eq same]
  constructor
  case content => exact explains.content
  case script =>
    intro isScript
    obtain ⟨found, follows, dependencies⟩ := explains.script isScript
    exact ⟨found, follows.imp fun _ _ follows => follows.mono extended, dependencies⟩
  case other => exact explains.other

/-! ## A search under way -/

/-- What holds while the modules `current` and those of the queue are still to be visited. -/
structure Underway (project : Project) (root : String) (entries : List (String × List String))
    (current : List Nat) (search : Search) : Prop where
  sound : (search.behind current).Sound
  fresh (id : Nat) (queued : id ∈ search.frontier) : search.graph.dependencies id = []
  entries : List.Forall₂ (Starts project search.graph root) entries search.graph.entries
  explains (id : Nat) (module : Module) (found : search.graph.module? id = some module) :
    id ∈ current ∨ id ∈ search.frontier ∨ Explains project search.graph module
  reachable (id : Nat) (below : id < search.graph.size) : search.graph.Reachable id

section

variable {entries : List (String × List String)} {source : Nat}

namespace Underway

theorem allocated (underway : Underway project root entries [source] search) :
    source < search.graph.size :=
  underway.sound.allocated source List.mem_cons_self

theorem setContent (underway : Underway project root entries [source] search)
    (content : ByteArray) :
    Underway project root entries [source] (search.setContent source content) := by
  have extended := Extends.setContent search.graph source content
  constructor
  case sound => exact underway.sound.setContent source content
  case fresh =>
    intro id queued
    rw [Search.setContent, dependencies_setContent]
    exact underway.fresh id queued
  case entries => exact underway.entries.imp fun _ _ starts => starts.mono extended
  case explains =>
    intro id module found
    by_cases current : source = id
    · exact .inl (List.mem_singleton.2 current.symm)
    · have same : (search.setContent source content).graph.module? id =
          search.graph.module? id := by
        rw [Search.setContent, ModuleGraph.setContent, module?_modify, if_neg current]
      have before := underway.explains id module (same ▸ found)
      exact before.imp_right (·.imp_right (·.mono extended rfl))
  case reachable =>
    intro id below
    have before : id < search.graph.size := by
      rwa [Search.setContent, size_setContent] at below
    exact extended.reachable (underway.reachable id before)

theorem addImport (underway : Underway project root entries [source] search)
    (found : ResolvedImport) :
    Underway project root entries [source] (search.addImport source found) := by
  have allocated := underway.allocated
  have extended := Search.extends_addImport allocated found
  have sound : ((search.addImport source found).behind [source]).Sound :=
    Search.addImport_behind [source] source search found ▸ underway.sound.addImport source found
  constructor
  case sound => exact sound
  case fresh =>
    intro id queued
    have other : source ≠ id := fun same =>
      (List.nodup_cons.1 sound.nodup).1 (same ▸ queued)
    rw [Search.dependencies_addImport allocated, if_neg other]
    rcases Search.mem_frontier_meet.1 queued with before | ⟨_, new⟩
    · exact underway.fresh id before
    · exact dependencies_of_size_le (Nat.le_of_eq new.symm)
  case entries =>
    rw [Search.entries_addImport]
    exact underway.entries.imp fun _ _ starts => starts.mono extended
  case explains =>
    intro id module stands
    have below := lt_size_iff.2 ⟨module, stands⟩
    rw [Search.addImport, size_addDependency] at below
    cases Search.lt_size_meet below with
    | inr new => exact .inr (.inl new.2)
    | inl before =>
        obtain ⟨earlier, stood⟩ := lt_size_iff.1 before
        rcases underway.explains id earlier stood with current | queued | explains
        · exact .inl current
        · exact .inr (.inl (Search.mem_frontier_meet.2 (.inl queued)))
        · by_cases current : source = id
          · exact .inl (List.mem_singleton.2 current.symm)
          · have retained := Search.retains_addImport alone_withImporter
              (fun same => absurd same current) search found
            obtain ⟨module', stands', same⟩ := retained.exists_module stood
            obtain rfl := Option.some.inj (stands.symm.trans stands')
            exact .inr (.inr (explains.mono extended same))
  case reachable =>
    intro id below
    rw [Search.addImport, size_addDependency] at below
    cases Search.lt_size_meet below with
    | inl before => exact extended.reachable (underway.reachable id before)
    | inr new =>
        -- The module is new, and the import that met it leads to it.
        refine (extended.reachable (underway.reachable source allocated)).imports
          ⟨⟨(search.meet found.path).1, found.timing, found.specifier⟩, ?_, new.1.symm⟩
        rw [Search.dependencies_addImport allocated, if_pos rfl]
        exact mem_withNew.2 (.inr rfl)

end Underway

theorem forall₂_of_mapM {ε α β : Type} {f : α → Except ε β} {items : List α} {results : List β}
    (succeeds : items.mapM f = .ok results) :
    List.Forall₂ (fun item result => f item = .ok result) items results := by
  induction items generalizing results with
  | nil =>
      obtain rfl := Except.ok.inj succeeds
      exact .nil
  | cons item items ih =>
      rw [List.mapM_cons] at succeeds
      cases first : f item with
      | error error =>
          rw [first] at succeeds
          cases succeeds
      | ok result =>
          rw [first] at succeeds
          cases others : items.mapM f with
          | error error =>
              rw [others] at succeeds
              cases succeeds
          | ok rest =>
              rw [others] at succeeds
              obtain rfl := Except.ok.inj succeeds
              exact .cons first (ih others)

theorem mapM_of_forall₂ {ε α β : Type} {f : α → Except ε β} {items : List α} {results : List β}
    (succeed : List.Forall₂ (fun item result => f item = .ok result) items results) :
    items.mapM f = .ok results := by
  induction succeed with
  | nil => rfl
  | cons first _ ih =>
      rw [List.mapM_cons, first, ih]
      rfl

theorem resolveImport_eq_ok {directory importer : String} {statement : Import.Statement}
    {found : ResolvedImport}
    (resolved : resolveImport project directory importer statement = .ok found) :
    found.timing = statement.timing ∧ found.specifier = statement.specifier ∧
      project.resolver.resolve? project.storage statement.specifier directory =
        some found.path := by
  rw [resolveImport] at resolved
  split at resolved
  next path stands =>
    obtain rfl := Except.ok.inj resolved
    exact ⟨rfl, rfl, stands⟩
  next => cases resolved

/-- The imports of a module are added one after the other, each as the import that it stands for. -/
theorem exists_follows_of_foldl {directory importer : String} {statements : List Import.Statement}
    {imports : List ResolvedImport} {before : List Dependency}
    (resolved : List.Forall₂ (fun statement found =>
      resolveImport project directory importer statement = .ok found) statements imports)
    (underway : Underway project root entries [source] search)
    (listed : search.graph.dependencies source = before.eraseDups) :
    let added := imports.foldl (Search.addImport source) search
    Underway project root entries [source] added ∧ Extends search.graph added.graph ∧
      ∃ found, List.Forall₂ (Follows project added.graph directory) statements found ∧
        added.graph.dependencies source = (before ++ found).eraseDups := by
  induction resolved generalizing search before with
  | nil =>
      rw [← List.append_nil before] at listed
      exact ⟨underway, .refl, [], .nil, listed⟩
  | @cons statement found statements imports stands _ ih =>
      obtain ⟨timing, specifier, resolved⟩ := resolveImport_eq_ok stands
      let dependency : Dependency :=
        ⟨(search.meet found.path).1, found.timing, found.specifier⟩
      have grown : (search.addImport source found).graph.dependencies source =
          (before ++ [dependency]).eraseDups := by
        rw [Search.dependencies_addImport underway.allocated, if_pos rfl, listed, eraseDups_concat]
      obtain ⟨later, extended, others, follow, dependencies⟩ :=
        ih (underway.addImport found) grown
      have met : (search.addImport source found).graph.find? found.path =
          some dependency.target := by
        rw [Search.addImport, find?, withResource?, index_addDependency]
        exact Search.find?_meet search found.path
      have first : Follows project
          (imports.foldl (Search.addImport source) (search.addImport source found)).graph
            directory statement dependency :=
        ⟨timing, specifier, found.path, resolved, extended.finds met⟩
      refine ⟨later, (Search.extends_addImport underway.allocated found).trans extended,
        dependency :: others, .cons first follow, ?_⟩
      rw [List.append_cons]
      exact dependencies

/-! ## Visits -/

theorem loadModule_eq_ok {module : Module} {loaded : Loaded}
    (succeeds : loadModule project module = .ok loaded) :
    (∃ bytes, project.storage.read module.resource = .ok bytes ∧
      project.transform module.name bytes = .ok loaded.content) ∧
    List.Forall₂ (fun statement found =>
      resolveImport project (directoryOf module) module.name statement = .ok found)
        (statementsOf module loaded.content) loaded.imports := by
  rw [loadModule] at succeeds
  split at succeeds
  next => cases succeeds
  next bytes isRead =>
    split at succeeds
    next => cases succeeds
    next content transformed =>
      split at succeeds
      next => cases succeeds
      next imports imported =>
        obtain rfl := Except.ok.inj succeeds
        rw [importsOf_eq] at imported
        exact ⟨⟨bytes, isRead, transformed⟩, forall₂_of_mapM imported⟩

/-- What is read from the file of a module. -/
def contentOf (module : Module) : Module × ByteArray := (module.file, module.content)

theorem contentOf_withImporter (module : Module) (importer : Nat) :
    contentOf (withImporter importer module) = contentOf module := by
  unfold withImporter
  split <;> rfl

theorem explains_of_contentOf_eq {module final : Module} {content : ByteArray}
    {found : List Dependency}
    (loads : ∃ bytes, project.storage.read module.resource = .ok bytes ∧
      project.transform module.name bytes = .ok content)
    (follow : List.Forall₂ (Follows project graph (directoryOf module))
      (statementsOf module content) found)
    (same : contentOf final = contentOf { module with content })
    (dependencies : final.dependencies = found.eraseDups) : Explains project graph final := by
  have resource : final.resource = module.resource :=
    congrArg (fun known => known.1.resource) same
  have isName : final.name = module.name := congrArg (fun known => known.1.name) same
  have content' : final.content = content := congrArg Prod.snd same
  have isScript' : final.isScript = module.isScript := congrArg Path.isScript resource
  have directory : directoryOf final = directoryOf module := by
    rw [directoryOf, directoryOf, resource]
  constructor
  case content =>
    rw [resource, isName, content']
    exact loads
  case script =>
    intro isScript
    rw [statementsOf, if_pos (isScript' ▸ isScript)] at follow
    rw [directory, content']
    exact ⟨found, follow, dependencies⟩
  case other =>
    intro isOther
    have noScript : ¬ module.isScript = true := by
      rw [← isScript', isOther]
      exact Bool.false_ne_true
    rw [statementsOf, if_neg noScript] at follow
    cases follow
    exact dependencies

/-- After a visit the module is explained, and what was met is queued. -/
theorem underway_of_visit {module : Module} {next : Search}
    (underway : Underway project root entries [module.id] search)
    (stands : search.graph.module? module.id = some module) (fresh : module.dependencies = [])
    (visited : visit project module search = .ok next) :
    Underway project root entries [] next := by
  rw [visit_eq] at visited
  cases loads : loadModule project module with
  | error error =>
      rw [loads] at visited
      cases visited
  | ok loaded =>
      rw [loads] at visited
      obtain rfl := Except.ok.inj visited
      rw [Search.merge_eq]
      obtain ⟨content, resolved⟩ := loadModule_eq_ok loads
      have noImports : (search.setContent module.id loaded.content).graph.dependencies module.id =
          [].eraseDups := by
        rw [Search.setContent, dependencies_setContent, dependencies_of_some stands, fresh]
        rfl
      have stays : (search.setContent module.id loaded.content).graph.module? module.id =
          some { module with content := loaded.content } := by
        rw [Search.setContent, ModuleGraph.setContent, module?_modify, if_pos rfl, stands]
        rfl
      obtain ⟨added, _, found, follow, dependencies⟩ :=
        exists_follows_of_foldl resolved (underway.setContent loaded.content) noImports
      have retained : Retains contentOf module.id (search.setContent module.id loaded.content).graph
          (loaded.imports.foldl (Search.addImport module.id)
            (search.setContent module.id loaded.content)).graph :=
        Search.retains_foldl_addImport contentOf_withImporter (fun _ _ _ => rfl) loaded.imports _
      obtain ⟨final, stands', same⟩ := retained.exists_module stays
      rw [dependencies_of_some stands', List.nil_append] at dependencies
      have explained := explains_of_contentOf_eq content follow same dependencies
      exact {
        sound := ⟨added.sound.built, fun id queued => added.sound.allocated id (.tail _ queued),
          (List.nodup_cons.1 added.sound.nodup).2⟩
        fresh := added.fresh
        entries := added.entries
        explains := by
          intro id other found
          rcases added.explains id other found with current | later
          · obtain rfl := List.mem_singleton.1 current
            obtain rfl := Option.some.inj (found.symm.trans stands')
            exact .inr (.inr explained)
          · exact .inr later
        reachable := added.reachable }

theorem Underway.isClosure (underway : Underway project root entries [] ⟨graph, []⟩) :
    IsClosure project root entries graph where
  indexed := underway.sound.built.indexed
  entries := underway.entries
  modules id module found := by
    rcases underway.explains id module found with current | queued | explains
    · cases current
    · cases queued
    · exact explains
  reachable := underway.reachable

/-- Once all modules of the queue are visited the graph is a closure. -/
theorem isClosure_of_inTurn {visits : Nat} {queue : List Nat}
    (underway : Underway project root entries [] ⟨graph, queue⟩)
    (ended : inTurn project visits graph queue = .ok later) :
    IsClosure project root entries later := by
  induction visits generalizing graph queue with
  | zero =>
      cases queue with
      | nil =>
          obtain rfl := Except.ok.inj ended
          exact underway.isClosure
      | cons id queue => cases ended
  | succ visits ih =>
      cases queue with
      | nil =>
          obtain rfl := Except.ok.inj ended
          exact underway.isClosure
      | cons id queue =>
          obtain ⟨module, stands⟩ : ∃ module, graph.module? id = some module :=
            lt_size_iff.1 (underway.sound.allocated id List.mem_cons_self)
          obtain rfl := underway.sound.built.numbered id module stands
          have fresh : module.dependencies = [] := by
            rw [← dependencies_of_some stands]
            exact underway.fresh module.id List.mem_cons_self
          have current : Underway project root entries [module.id] ⟨graph, queue⟩ := {
            sound := underway.sound
            fresh := fun id queued => underway.fresh id (.tail _ queued)
            entries := underway.entries
            explains := by
              intro id other found
              rcases underway.explains id other found with current | queued | explains
              · cases current
              · cases List.mem_cons.1 queued with
                | inl same => exact .inl (same ▸ List.mem_cons_self)
                | inr later => exact .inr (.inl later)
              · exact .inr (.inr explains)
            reachable := underway.reachable }
          rw [inTurn, stands] at ended
          dsimp only at ended
          cases visited : visit project module ⟨graph, queue⟩ with
          | error error =>
              rw [visited] at ended
              cases ended
          | ok next =>
              rw [visited] at ended
              exact ih (underway_of_visit current stands fresh visited) ended

/-! ## Entries -/

/-- What holds while entries are met: the modules of the current one are `modules`. -/
structure Starting (project : Project) (root : String) (entries : List (String × List String))
    (modules : List Nat) (search : Search) : Prop where
  sound : search.Sound
  fresh (id : Nat) : search.graph.dependencies id = []
  entries : List.Forall₂ (Starts project search.graph root) entries search.graph.entries
  queued (id : Nat) (below : id < search.graph.size) : id ∈ search.frontier
  started (id : Nat) (below : id < search.graph.size) :
    id ∈ modules ∨ ∃ entry ∈ search.graph.entries, id ∈ entry.modules

theorem Starting.meet {modules : List Nat} (starting : Starting project root entries modules search)
    (path : String) :
    Starting project root entries (withNew modules (search.meet path).1) (search.meet path).2 := by
  have extended : Extends search.graph (search.meet path).2.graph := .intern search.graph path
  have sameEntries : (search.meet path).2.graph.entries = search.graph.entries :=
    entries_intern search.graph path
  constructor
  case sound => exact starting.sound.meet path
  case fresh =>
    intro id
    exact (dependencies_intern search.graph path id).trans (starting.fresh id)
  case entries =>
    rw [sameEntries]
    exact starting.entries.imp fun _ _ starts => starts.mono extended
  case queued =>
    intro id below
    cases Search.lt_size_meet below with
    | inl before => exact Search.mem_frontier_meet.2 (.inl (starting.queued id before))
    | inr new => exact new.2
  case started =>
    intro id below
    rw [sameEntries]
    cases Search.lt_size_meet below with
    | inl before =>
        exact (starting.started id before).imp_left fun member => mem_withNew.2 (.inl member)
    | inr new => exact .inl (mem_withNew.2 (.inr new.1))

/-- The modules of an entry are those of its specifiers, each at its first place. -/
theorem exists_finds_of_resolveEntry {name : String} {specifiers : List String} {next : Search}
    {before modules : List Nat} (starting : Starting project root entries before.eraseDups search)
    (resolved : resolveEntry project root name specifiers search before.eraseDups =
      .ok (modules, next)) :
    Starting project root entries modules next ∧ Extends search.graph next.graph ∧
      ∃ found, List.Forall₂ (Finds project next.graph root) specifiers found ∧
        modules = (before ++ found).eraseDups := by
  induction specifiers generalizing search before with
  | nil =>
      obtain ⟨rfl, rfl⟩ := Prod.mk.inj (Except.ok.inj resolved)
      exact ⟨starting, .refl, [], .nil, by rw [List.append_nil]⟩
  | cons specifier specifiers ih =>
      rw [resolveEntry] at resolved
      split at resolved
      next => cases resolved
      next path stands =>
        have grown : withNew before.eraseDups (search.meet path).1 =
            (before ++ [(search.meet path).1]).eraseDups := (eraseDups_concat _ _).symm
        have met := starting.meet path
        rw [grown] at met
        change resolveEntry project root name specifiers (search.meet path).2
          (withNew before.eraseDups (search.meet path).1) = _ at resolved
        rw [grown] at resolved
        obtain ⟨later, extended, found, finds, isModules⟩ := ih met resolved
        have first : Finds project next.graph root specifier (search.meet path).1 :=
          ⟨path, stands, extended.finds (Search.find?_meet search path)⟩
        refine ⟨later, (Extends.intern search.graph path).trans extended,
          (search.meet path).1 :: found, .cons first finds, ?_⟩
        rw [isModules, ← List.append_cons]

/-- Every list of specifiers gets an entry, and nothing is met that no entry has. -/
theorem starting_of_resolveEntries {listed : List (String × List String)} {next : Search}
    (starting : Starting project root entries [] search)
    (resolved : resolveEntries project root listed search = .ok next) :
    Starting project root (entries ++ listed) [] next := by
  induction listed generalizing search entries with
  | nil =>
      obtain rfl := Except.ok.inj resolved
      rwa [List.append_nil]
  | cons entry listed ih =>
      rw [resolveEntries] at resolved
      split at resolved
      next => cases resolved
      next modules met started =>
        have fromNone : resolveEntry project root entry.1 entry.2 search [].eraseDups =
            .ok (modules, met) := started
        obtain ⟨later, extended, found, finds, isModules⟩ :=
          exists_finds_of_resolveEntry starting fromNone
        have noted : Starting project root (entries ++ [entry]) []
            ⟨met.graph.addEntry entry.1 modules, met.frontier⟩ := {
          sound := ⟨later.sound.built.addEntry entry.1 modules, later.sound.allocated,
            later.sound.nodup⟩
          fresh := later.fresh
          entries := by
            have kept := Extends.addEntry met.graph entry.1 modules
            have last : Starts project (met.graph.addEntry entry.1 modules) root entry
                ⟨entry.1, modules⟩ :=
              ⟨rfl, found, finds.imp fun _ _ finds => finds.mono kept, isModules⟩
            exact List.rel_append (later.entries.imp fun _ _ starts => starts.mono kept)
              (.cons last .nil)
          queued := later.queued
          started := by
            intro id below
            rcases later.started id below with current | ⟨other, isEntry, within⟩
            · exact .inr ⟨⟨entry.1, modules⟩, List.mem_append_right _ List.mem_cons_self, current⟩
            · exact .inr ⟨other, List.mem_append_left _ isEntry, within⟩ }
        rw [List.append_cons]
        exact ih noted resolved

/-- When all entries are met, the modules that they start are all there is. -/
theorem Starting.underway (starting : Starting project root entries [] search) :
    Underway project root entries [] search where
  sound := starting.sound
  fresh id _ := starting.fresh id
  entries := starting.entries
  explains id module found := .inr (.inl (starting.queued id (lt_size_iff.2 ⟨module, found⟩)))
  reachable id below := by
    rcases starting.started id below with current | ⟨entry, listed, within⟩
    · cases current
    · exact reachable_of_mem_entry listed within

theorem isClosure_of_rounds {fuel : Nat}
    (resolved : resolveEntries project root entries ⟨.empty root, []⟩ = .ok search)
    (ended : rounds project fuel search = .ok graph) : IsClosure project root entries graph := by
  have start : Starting project root [] [] ⟨.empty root, []⟩ := {
    sound := .start root
    fresh := fun id => dependencies_of_size_le (Nat.zero_le id)
    entries := .nil
    queued := fun id below => absurd below (Nat.not_lt_zero id)
    started := fun id below => absurd below (Nat.not_lt_zero id) }
  have starting := starting_of_resolveEntries start resolved
  have inTime : rounds project fuel search ≠ .error .tooManyModules := ended ▸ nofun
  obtain ⟨visits, same⟩ := exists_inTurn_eq_rounds starting.sound inTime
  exact isClosure_of_inTurn starting.underway (same.trans ended)

end

theorem exists_rounds_of_moduleGraph {storage : Storage} {options : Options}
    {transform : Transform} (found : moduleGraph storage options transform = .ok graph) :
    let project := Discovery.project storage options transform
    ∃ search, resolveEntries project options.root options.entries ⟨.empty options.root, []⟩ =
      .ok search ∧ rounds project (moduleBound + 1) search = .ok graph := by
  rw [moduleGraph] at found
  split at found
  next => cases found
  next search resolved => exact ⟨search, resolved, found⟩

theorem exists_of_forall₂ {α β : Type} {related : α → β → Prop} {items : List α} {others : List β}
    (all : List.Forall₂ related items others) {item : α} (listed : item ∈ items) :
    ∃ other ∈ others, related item other := by
  induction all with
  | nil => cases listed
  | @cons first second items others relates _ ih =>
      cases listed with
      | head => exact ⟨second, List.mem_cons_self, relates⟩
      | tail _ later =>
          obtain ⟨other, member, relates⟩ := ih later
          exact ⟨other, List.mem_cons_of_mem second member, relates⟩

/-- A specifier of an entry stands for the module at its path. -/
theorem exists_module_of_isClosure {entries : List (String × List String)}
    {entry : String × List String} {specifier path : String}
    (closure : IsClosure project root entries graph) (listed : entry ∈ entries)
    (named : specifier ∈ entry.2)
    (leads : project.resolver.resolve? project.storage specifier root = some path) :
    ∃ id module, graph.module? id = some module ∧ module.resource = Path.normalize path := by
  obtain ⟨_, _, starts⟩ := exists_of_forall₂ closure.entries listed
  obtain ⟨_, finds, _⟩ := starts.modules
  obtain ⟨id, _, other, resolved, isFound⟩ := exists_of_forall₂ finds named
  obtain rfl := Option.some.inj (leads.symm.trans resolved)
  exact ⟨id, closure.indexed.find?_iff.1 isFound⟩

/-- The graph that a search finds is the closure of the entries under imports. -/
theorem isClosure_of_moduleGraph {storage : Storage} {options : Options} {transform : Transform}
    (found : moduleGraph storage options transform = .ok graph) :
    IsClosure (Discovery.project storage options transform) options.root options.entries graph := by
  obtain ⟨search, resolved, ended⟩ := exists_rounds_of_moduleGraph found
  exact isClosure_of_rounds resolved ended

theorem isClosure_pages :
    moduleGraph pages pagesOptions .identity = .ok pagesGraph ∧
      IsClosure pagesProject "/app" [("app", ["./src/main.js"])] pagesGraph :=
  ⟨moduleGraph_pages, isClosure_of_moduleGraph moduleGraph_pages⟩

end WebBundle.Discovery
