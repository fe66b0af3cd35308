import WebBundle.Proofs.Module.History
import WebBundle.Proofs.Module.Search
import WebBundle.Proofs.Path.Form

/-!
# The names of modules

The name of a module is its resource path seen from the root of the project: what is left of it
behind the root, or the whole resource path if the module lies outside. Two modules in the root have
different names, and so have two modules outside. But a module in the root and one outside have the
same name where the one is called behind the root what the other is called altogether. This needs a
relative path: of an absolute path nothing absolute is left behind the root.
-/

namespace WebBundle

namespace Path

variable {root path other : String}

/-- The path lies in the root, and what is left of it behind the root is the other one, which lies
outside. -/
structure Shadows (root path other : String) : Prop where
  inside : (normalize path).toList = rootFront root ++ (normalize other).toList
  outside : ¬IsInside root other

theorem Shadows.relativeTo_eq (shadows : Shadows root path other) :
    relativeTo root path = relativeTo root other := by
  rw [relativeTo_inside shadows.inside, relativeTo_outside shadows.outside, String.ofList_toList]

/-- Different resource paths are called the same exactly if one shadows the other. -/
theorem relativeTo_eq_iff (ne : normalize path ≠ normalize other) :
    relativeTo root path = relativeTo root other ↔
      Shadows root path other ∨ Shadows root other path := by
  refine ⟨fun same => ?_, fun either => ?_⟩
  · by_cases inside : IsInside root path
    · obtain ⟨rest, inside⟩ := inside
      rw [relativeTo_inside inside.symm] at same
      by_cases inside' : IsInside root other
      · obtain ⟨rest', inside'⟩ := inside'
        rw [relativeTo_inside inside'.symm] at same
        refine absurd (String.toList_inj.1 ?_) ne
        rw [← inside, ← inside', String.ofList_injective same]
      · rw [relativeTo_outside inside'] at same
        refine .inl ⟨?_, inside'⟩
        rw [← inside, ← same, String.toList_ofList]
    · rw [relativeTo_outside inside] at same
      by_cases inside' : IsInside root other
      · obtain ⟨rest, inside'⟩ := inside'
        rw [relativeTo_inside inside'.symm] at same
        refine .inr ⟨?_, inside⟩
        rw [← inside', same, String.toList_ofList]
      · rw [relativeTo_outside inside'] at same
        exact absurd same ne
  · rcases either with shadows | shadows
    · exact shadows.relativeTo_eq
    · exact shadows.relativeTo_eq.symm

/-- Whether a path shadows another one depends on their resource paths. -/
theorem shadows_congr {path' other' : String} (same : normalize path = normalize path')
    (same' : normalize other = normalize other') :
    Shadows root path other ↔ Shadows root path' other' := by
  constructor
  · rintro ⟨inside, outside⟩
    exact ⟨by rwa [← same, ← same'], by rwa [IsInside, ← same']⟩
  · rintro ⟨inside, outside⟩
    exact ⟨by rwa [same, same'], by rwa [IsInside, same']⟩

theorem not_shadows_self (root path : String) : ¬Shadows root path path :=
  fun shadows => shadows.outside ⟨_, shadows.inside.symm⟩

/-- What a path in the root shadows is relative. -/
theorem Shadows.relative (shadows : Shadows root path other) :
    (normalize other).toList.head? ≠ some '/' := by
  have relative := not_isRooted_rest shadows.inside
  rw [String.ofList_toList] at relative
  exact fun absolute => relative (.inl absolute)

end Path

namespace ModuleGraph

variable {graph : ModuleGraph} {root : String} {operations : List Operation}

/-! ## Names in a graph -/

/-- Every module is called by its resource path seen from the root. -/
def Named (root : String) (graph : ModuleGraph) : Prop :=
  ∀ id module, graph.module? id = some module →
    module.name = Path.relativeTo root module.resource

namespace History

theorem root_eq (history : History root operations graph) : graph.root = root := by
  induction history with
  | start => rfl
  | @next operations graph operation history allowed ih =>
      cases operation with
      | intern path => exact (root_intern graph path).trans ih
      | addModule path content => exact (root_intern graph path).trans ih
      | addDependency source dependency => exact (root_addDependency graph _ _).trans ih
      | addEntry name modules => exact ih

theorem named (history : History root operations graph) : Named root graph := by
  have files : graph.FilesSatisfy fun root _ file =>
      file.name = Path.relativeTo root file.resource := by
    refine history.built.filesSatisfy fun graph path => ?_
    simp only [newModule, Path.relativeTo, Path.normalize_normalize]
  intro id module found
  rw [← history.root_eq]
  exact files id module found

end History

/-! ## The paths of a history -/

/-- The path at which an operation looks for a module. -/
def Operation.pathOf? : Operation → Option String
  | .intern path => some path
  | .addModule path _ => some path
  | _ => none

/-- Looking for a path makes sure that there is a module of its resource path, and of no other. -/
theorem isSome_withResource?_intern (graph : ModuleGraph) (path resource : String) :
    ((graph.intern path).2.withResource? resource).isSome ↔
      (graph.withResource? resource).isSome ∨ resource = Path.normalize path := by
  cases known : graph.find? path with
  | some id =>
      rw [intern_of_some known]
      have held : (graph.withResource? (Path.normalize path)).isSome :=
        Option.isSome_iff_exists.2 ⟨id, known⟩
      exact ⟨.inl, fun either => either.elim (·) (· ▸ held)⟩
  | none =>
      rw [withResource?_intern_of_none known]
      split
      next same => simp [same]
      next other => simp [other]

/-- The modules have the resource paths of the paths that were looked for. -/
theorem History.isSome_withResource? (history : History root operations graph)
    (resource : String) : (graph.withResource? resource).isSome ↔
      ∃ path ∈ operations.filterMap Operation.pathOf?, resource = Path.normalize path := by
  induction history with
  | start => simp [withResource?, ModuleGraph.empty]
  | @next operations graph operation history allowed ih =>
      rw [List.filterMap_append]
      cases operation with
      | intern path =>
          rw [Operation.apply, isSome_withResource?_intern, ih]
          simp [Operation.pathOf?, or_and_right, exists_or]
      | addModule path content =>
          rw [Operation.apply, addModule_eq]
          refine (isSome_withResource?_intern graph path resource).trans ?_
          rw [ih]
          simp [Operation.pathOf?, or_and_right, exists_or]
      | addDependency source dependency =>
          have same : (graph.addDependency source dependency).withResource? resource =
              graph.withResource? resource := by
            rw [withResource?, index_addDependency]
            rfl
          rw [Operation.apply, same, ih]
          simp [Operation.pathOf?]
      | addEntry name modules =>
          have same : (graph.addEntry name modules).withResource? resource =
              graph.withResource? resource := rfl
          rw [Operation.apply, same, ih]
          simp [Operation.pathOf?]

/-! ## Names that tell modules apart -/

/-- Different modules have different names. -/
def UniqueNames (graph : ModuleGraph) : Prop :=
  ∀ id other module module', graph.module? id = some module →
    graph.module? other = some module' → module.name = module'.name → id = other

theorem History.name_eq_iff (history : History root operations graph) {id other : Nat}
    {module module' : Module} (found : graph.module? id = some module)
    (found' : graph.module? other = some module') (ne : id ≠ other) :
    module.name = module'.name ↔ Path.Shadows root module.resource module'.resource ∨
      Path.Shadows root module'.resource module.resource := by
  have indexed := history.built.indexed
  have differ : Path.normalize module.resource ≠ Path.normalize module'.resource := by
    rw [indexed.canonical id module found, indexed.canonical other module' found']
    exact fun same => ne (indexed.eq_of_resource_eq found found' same)
  rw [history.named id module found, history.named other module' found',
    Path.relativeTo_eq_iff differ]

theorem mem_modules_iff {module : Module} :
    module ∈ graph.modules.toList ↔ ∃ id, graph.module? id = some module := by
  rw [List.mem_iff_getElem?, Arena.toList]
  simp only [module?, Arena.get?, Array.getElem?_toList]

/-- Every module is found by its name exactly if no name is given twice. -/
theorem Built.findByName?_iff (built : graph.Built) :
    (∀ id module, graph.module? id = some module → graph.findByName? module.name = some id) ↔
      graph.UniqueNames := by
  constructor
  · intro finds id other module module' found found' same
    have first := finds id module found
    rw [same, finds other module' found'] at first
    exact (Option.some.inj first).symm
  · intro unique id module found
    have listed : module ∈ graph.modules.toList := mem_modules_iff.2 ⟨id, found⟩
    cases first : graph.modules.toList.find? fun other => other.name = module.name with
    | none =>
        have other := List.find?_eq_none.1 first module listed
        simp at other
    | some module' =>
        obtain ⟨other, found'⟩ := mem_modules_iff.1 (List.mem_of_find?_eq_some first)
        have same : module'.name = module.name := by simpa using List.find?_some first
        have number : module'.id = other := built.numbered other module' found'
        rw [findByName?, first, Option.map_some, number,
          unique other id module' module found' found same]

namespace History

/-- Every path that was looked for has a module. -/
theorem exists_module (history : History root operations graph) {path : String}
    (listed : path ∈ operations.filterMap Operation.pathOf?) :
    ∃ id module, graph.module? id = some module ∧
      Path.normalize path = Path.normalize module.resource := by
  have held := (history.isSome_withResource? (Path.normalize path)).2 ⟨path, listed, rfl⟩
  obtain ⟨id, known⟩ := Option.isSome_iff_exists.1 held
  obtain ⟨module, found, same⟩ := (history.built.indexed.withResource?_iff _ id).1 known
  exact ⟨id, module, found, by rw [same, Path.normalize_normalize]⟩

/-- Every module is that of a path that was looked for. -/
theorem exists_path (history : History root operations graph) {id : Nat} {module : Module}
    (found : graph.module? id = some module) :
    ∃ path ∈ operations.filterMap Operation.pathOf?,
      Path.normalize module.resource = Path.normalize path := by
  have indexed := history.built.indexed
  have known := (indexed.withResource?_iff module.resource id).2 ⟨module, found, rfl⟩
  have held : (graph.withResource? module.resource).isSome := by
    rw [known]
    rfl
  obtain ⟨path, listed, same⟩ := (history.isSome_withResource? module.resource).1 held
  exact ⟨path, listed, (indexed.canonical id module found).trans same⟩

/-- The names are unique exactly if no path that was looked for shadows another one. -/
theorem uniqueNames_iff (history : History root operations graph) :
    graph.UniqueNames ↔ ∀ path ∈ operations.filterMap Operation.pathOf?,
      ∀ other ∈ operations.filterMap Operation.pathOf?, ¬Path.Shadows root path other := by
  constructor
  · intro unique path listed other listed' shadows
    obtain ⟨id, module, found, same⟩ := history.exists_module listed
    obtain ⟨id', module', found', same'⟩ := history.exists_module listed'
    have shadows := (Path.shadows_congr same same').1 shadows
    have ne : id ≠ id' := by
      rintro rfl
      obtain rfl := Option.some.inj (found.symm.trans found')
      exact Path.not_shadows_self root _ shadows
    exact ne (unique id id' module module' found found'
      ((history.name_eq_iff found found' ne).2 (.inl shadows)))
  · intro apart id other module module' found found' sameName
    by_contra ne
    obtain ⟨path, listed, same⟩ := history.exists_path found
    obtain ⟨path', listed', same'⟩ := history.exists_path found'
    rcases (history.name_eq_iff found found' ne).1 sameName with shadows | shadows
    · exact apart path listed path' listed' ((Path.shadows_congr same same').1 shadows)
    · exact apart path' listed' path listed ((Path.shadows_congr same' same).1 shadows)

end History

/-- Which modules have the same name, and when a name tells its module. -/
structure NamesTell (root : String) (operations : List Operation) (graph : ModuleGraph) :
    Prop where
  eq_iff (id other : Nat) (module module' : Module) (found : graph.module? id = some module)
    (found' : graph.module? other = some module') (ne : id ≠ other) :
    module.name = module'.name ↔ Path.Shadows root module.resource module'.resource ∨
      Path.Shadows root module'.resource module.resource
  unique_iff : graph.UniqueNames ↔ ∀ path ∈ operations.filterMap Operation.pathOf?,
    ∀ other ∈ operations.filterMap Operation.pathOf?, ¬Path.Shadows root path other
  finds_iff : (∀ id module, graph.module? id = some module →
    graph.findByName? module.name = some id) ↔ graph.UniqueNames
  unique_of_absolute (absolute : ∀ path ∈ operations.filterMap Operation.pathOf?,
    Path.isAbsolute (Path.normalize path) = true) : graph.UniqueNames

/-- The names of modules tell them apart unless one of two paths is called behind the root what the
other, which lies outside, is called altogether. Absolute paths never are. -/
theorem namesTell_of_history (history : History root operations graph) :
    NamesTell root operations graph where
  eq_iff _ _ _ _ found found' ne := history.name_eq_iff found found' ne
  unique_iff := history.uniqueNames_iff
  finds_iff := history.built.findByName?_iff
  unique_of_absolute absolute := by
    refine history.uniqueNames_iff.2 fun path _ other listed shadows => shadows.relative ?_
    exact of_decide_eq_true (absolute other listed)

/-- Paths in the root, beside it and behind a name that only begins like it. -/
def mixedOperations : List Operation :=
  [.intern "/app/src/a.js", .addModule "/app/../lib/a.js" .empty, .intern "/application/a.js",
    .addModule "\\app\\lib\\a.js" .empty]

def mixedGraph : ModuleGraph :=
  mixedOperations.foldl (fun graph operation => operation.apply graph) (.empty "/app")

theorem namesTell_mixedGraph :
    History "/app" mixedOperations mixedGraph ∧ mixedGraph.UniqueNames ∧
      mixedGraph.modules.toList.map (·.name) =
        ["src/a.js", "/lib/a.js", "/application/a.js", "lib/a.js"] := by
  have initial : History "/app" [] (.empty "/app") := .start
  have first := initial.next (.intern "/app/src/a.js") trivial
  have second := first.next (.addModule "/app/../lib/a.js" .empty) trivial
  have third := second.next (.intern "/application/a.js") trivial
  have history : History "/app" mixedOperations mixedGraph :=
    third.next (.addModule "\\app\\lib\\a.js" .empty) trivial
  refine ⟨history, (namesTell_of_history history).unique_of_absolute ?_, by decide +kernel⟩
  decide +kernel

/-- The graph that knows some paths. -/
def knowing (root : String) (paths : List String) : ModuleGraph :=
  paths.foldl (fun graph path => (graph.intern path).2) (.empty root)

/-- With a relative root a module in it is called like one outside. -/
theorem not_uniqueNames_knowing : ¬∀ root paths, (knowing root paths).UniqueNames := by
  intro unique
  let graph := knowing "app" ["app/lib/a.js", "lib/a.js"]
  have inside : graph.module? 0 = some ⟨0, "app/lib/a.js", "lib/a.js", .empty, [], []⟩ := by
    with_unfolding_all rfl
  have outside : graph.module? 1 = some ⟨1, "lib/a.js", "lib/a.js", .empty, [], []⟩ := by
    with_unfolding_all rfl
  cases unique "app" _ 0 1 _ _ inside outside rfl

end ModuleGraph

end WebBundle
