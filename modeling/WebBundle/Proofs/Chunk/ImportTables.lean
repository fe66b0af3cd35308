import WebBundle.Proofs.Chunk.Rendering
import WebBundle.Proofs.Chunk.Splitting
import WebBundle.Proofs.Json.Reading
import WebBundle.Proofs.Module.Discovered
import WebBundle.Proofs.Sorting

/-!
# Tables of imports

A module may import one specifier at the start and on demand, any number of times. Import by import,
one on demand takes the place of what stands in the table so far, and one at the start does so
unless an import on demand stands there. So a specifier ends up with an import on demand if it has
one, and where all imports of a specifier have one target, neither their order nor their number
tells in the table.
-/

namespace WebBundle

namespace Chunk

section

/-! ## The imports of a specifier in turn -/

variable {dependencies others : List Dependency} {dependency : Dependency} {specifier : String}

/-- What a specifier stands for after one more of its imports. -/
def standing (before : Option Dependency) (dependency : Dependency) : Dependency :=
  match before with
  | some kept => if kept.timing = .async ∧ dependency.timing = .sync then kept else dependency
  | none => dependency

theorem importFor?_concat :
    importFor? (dependencies ++ [dependency]) specifier =
      if dependency.specifier = specifier then
        some (standing (importFor? dependencies specifier) dependency)
      else importFor? dependencies specifier := by
  simp only [importFor?_eq, List.filter_append]
  generalize known : dependencies.filter (·.specifier = specifier) = imports
  by_cases named : dependency.specifier = specifier
  case neg => simp [named]
  case pos =>
    rw [if_pos named, List.filter_singleton, decide_eq_true named, cond_true,
      List.filter_singleton]
    cases timing : dependency.timing with
    | async =>
        have replaces (before : Option Dependency) : standing before dependency = dependency := by
          cases before with
          | none => rfl
          | some kept => simp [standing, timing]
        simp [replaces]
    | sync =>
        simp only [decide_false, reduceCtorEq, cond_false, List.append_nil]
        cases onDemand : (imports.filter (·.timing = .async)).getLast? with
        | some kept =>
            have isAsync := (List.mem_filter.1 (List.mem_of_getLast? onDemand)).2
            simp [standing, of_decide_eq_true isAsync, timing]
        | none =>
            rw [List.getLast?_eq_none_iff, List.filter_eq_nil_iff] at onDemand
            cases last : imports.getLast? with
            | none => simp [standing]
            | some kept =>
                have notAsync := onDemand kept (List.mem_of_getLast? last)
                rw [decide_eq_true_eq] at notAsync
                simp [standing, notAsync]

/-- The import stands for the specifier: it is one of its imports, and one on demand if there is
such an import. -/
structure Stands (dependencies : List Dependency) (specifier : String) (dependency : Dependency) :
    Prop where
  listed : dependency ∈ dependencies
  named : dependency.specifier = specifier
  timing : dependency.timing = .async ↔
    ∃ other ∈ dependencies, other.specifier = specifier ∧ other.timing = .async

namespace Stands

theorem first (absent : ∀ other ∈ dependencies, other.specifier ≠ specifier)
    (named : dependency.specifier = specifier) :
    Stands (dependencies ++ [dependency]) specifier dependency := by
  refine ⟨List.mem_concat_self, named, fun isAsync => ?_, ?_⟩
  · exact ⟨dependency, List.mem_concat_self, named, isAsync⟩
  · rintro ⟨other, listed, same, isAsync⟩
    rcases List.mem_append.1 listed with earlier | last
    · exact absurd same (absent other earlier)
    · rwa [← List.mem_singleton.1 last]

variable {kept : Dependency} (stands : Stands dependencies specifier kept)

include stands

theorem concat_of_ne (different : dependency.specifier ≠ specifier) :
    Stands (dependencies ++ [dependency]) specifier kept := by
  refine ⟨List.mem_append_left _ stands.listed, stands.named, fun isAsync => ?_, ?_⟩
  · obtain ⟨other, listed, same, isAsync⟩ := stands.timing.1 isAsync
    exact ⟨other, List.mem_append_left _ listed, same, isAsync⟩
  · rintro ⟨other, listed, same, isAsync⟩
    rcases List.mem_append.1 listed with earlier | last
    · exact stands.timing.2 ⟨other, earlier, same, isAsync⟩
    · rw [List.mem_singleton.1 last] at same
      exact absurd same different

theorem concat (named : dependency.specifier = specifier) :
    Stands (dependencies ++ [dependency]) specifier (standing (some kept) dependency) := by
  simp only [standing]
  split_ifs with keeps
  case pos =>
    refine ⟨List.mem_append_left _ stands.listed, stands.named, fun isAsync => ?_, fun _ => keeps.1⟩
    exact ⟨kept, List.mem_append_left _ stands.listed, stands.named, isAsync⟩
  case neg =>
    refine ⟨List.mem_concat_self, named, fun isAsync => ?_, ?_⟩
    · exact ⟨dependency, List.mem_concat_self, named, isAsync⟩
    · rintro ⟨other, listed, same, isAsync⟩
      rcases List.mem_append.1 listed with earlier | last
      · have keptAsync := stands.timing.2 ⟨other, earlier, same, isAsync⟩
        cases timing : dependency.timing with
        | async => rfl
        | sync => exact absurd ⟨keptAsync, timing⟩ keeps
      · rwa [← List.mem_singleton.1 last]

end Stands

/-- A specifier that no import has stands for nothing; any other one for an import of it. -/
theorem importFor?_cases (dependencies : List Dependency) (specifier : String) :
    (importFor? dependencies specifier = none ∧
        ∀ other ∈ dependencies, other.specifier ≠ specifier) ∨
      ∃ dependency, importFor? dependencies specifier = some dependency ∧
        Stands dependencies specifier dependency := by
  induction dependencies using List.reverseRecOn with
  | nil => exact .inl ⟨rfl, fun other listed => by cases listed⟩
  | append_singleton dependencies dependency ih =>
      rw [importFor?_concat]
      by_cases named : dependency.specifier = specifier
      · rw [if_pos named]
        rcases ih with ⟨none, absent⟩ | ⟨kept, found, stands⟩
        · rw [none]
          exact .inr ⟨_, rfl, .first absent named⟩
        · rw [found]
          exact .inr ⟨_, rfl, stands.concat named⟩
      · rw [if_neg named]
        rcases ih with ⟨none, absent⟩ | ⟨kept, found, stands⟩
        · refine .inl ⟨none, fun other listed => ?_⟩
          rcases List.mem_append.1 listed with earlier | last
          · exact absent other earlier
          · rwa [List.mem_singleton.1 last]
        · exact .inr ⟨kept, found, stands.concat_of_ne named⟩

theorem stands_of_importFor? (found : importFor? dependencies specifier = some dependency) :
    Stands dependencies specifier dependency := by
  rcases importFor?_cases dependencies specifier with ⟨none, _⟩ | ⟨other, found', stands⟩
  · cases none.symm.trans found
  · rwa [← Option.some.inj (found'.symm.trans found)]

theorem exists_importFor? (listed : dependency ∈ dependencies) :
    ∃ kept, importFor? dependencies dependency.specifier = some kept := by
  rcases importFor?_cases dependencies dependency.specifier with ⟨_, absent⟩ | ⟨kept, found, _⟩
  · exact absurd rfl (absent dependency listed)
  · exact ⟨kept, found⟩

/-- The imports of one specifier have one target. -/
def Agrees (dependencies : List Dependency) : Prop :=
  ∀ first ∈ dependencies, ∀ second ∈ dependencies,
    first.specifier = second.specifier → first.target = second.target

instance : Decidable (Agrees dependencies) :=
  inferInstanceAs (Decidable (∀ first ∈ dependencies, ∀ second ∈ dependencies,
    first.specifier = second.specifier → first.target = second.target))

theorem Stands.eq (agrees : Agrees dependencies) {first second : Dependency}
    (stands : Stands dependencies specifier first)
    (stands' : Stands dependencies specifier second) : first = second := by
  have target : first.target = second.target :=
    agrees first stands.listed second stands'.listed (stands.named.trans stands'.named.symm)
  have both : first.timing = .async ↔ second.timing = .async :=
    stands.timing.trans stands'.timing.symm
  have timing : first.timing = second.timing := by
    cases known : first.timing with
    | async => exact (both.1 known).symm
    | sync =>
        cases known' : second.timing with
        | async => exact absurd (known.symm.trans (both.2 known')) (by decide)
        | sync => rfl
  obtain ⟨_, _, _⟩ := first
  obtain ⟨_, _, _⟩ := second
  simp only [Dependency.mk.injEq]
  exact ⟨target, timing, stands.named.trans stands'.named.symm⟩

theorem importFor?_eq_some_iff (agrees : Agrees dependencies) :
    importFor? dependencies specifier = some dependency ↔
      Stands dependencies specifier dependency := by
  refine ⟨stands_of_importFor?, fun stands => ?_⟩
  rw [← stands.named]
  obtain ⟨kept, found⟩ := exists_importFor? stands.listed
  rw [found, Stands.eq agrees stands (stands.named ▸ stands_of_importFor? found)]

/-- Neither the order of the imports nor their number tells. -/
theorem importFor?_congr (agrees : Agrees dependencies)
    (same : ∀ dependency, dependency ∈ others ↔ dependency ∈ dependencies) (specifier : String) :
    importFor? others specifier = importFor? dependencies specifier := by
  have agrees' : Agrees others := fun first listed second listed' =>
    agrees first ((same first).1 listed) second ((same second).1 listed')
  refine Option.ext fun dependency => ?_
  rw [importFor?_eq_some_iff agrees', importFor?_eq_some_iff agrees]
  constructor
  · rintro ⟨listed, named, timing⟩
    simp only [same] at listed timing
    exact ⟨listed, named, timing⟩
  · rintro ⟨listed, named, timing⟩
    simp only [← same] at listed timing
    exact ⟨listed, named, timing⟩

/-! ## Tables -/

theorem nodup_specifiers (dependencies : List Dependency) : (specifiers dependencies).Nodup :=
  (List.mergeSort_perm _ _).nodup_iff.2 (nodup_eraseDups _)

theorem mem_specifiers :
    specifier ∈ specifiers dependencies ↔
      ∃ dependency ∈ dependencies, dependency.specifier = specifier := by
  rw [specifiers, List.mem_mergeSort, List.mem_eraseDups, List.mem_map]

theorem pairwise_specifiers (dependencies : List Dependency) :
    (specifiers dependencies).Pairwise (· < ·) := by
  refine pairwise_lt_of_sorted (fun specifier => specifier) ?_
  rw [List.map_id']
  exact nodup_eraseDups _

theorem specifiers_congr (same : ∀ dependency, dependency ∈ others ↔ dependency ∈ dependencies) :
    specifiers others = specifiers dependencies := by
  have perm : (specifiers others).Perm (specifiers dependencies) := by
    rw [List.perm_ext_iff_of_nodup (nodup_specifiers others) (nodup_specifiers dependencies)]
    intro specifier
    simp only [mem_specifiers, same]
  exact perm.eq_of_pairwise (fun _ _ _ _ less more => absurd more (String.lt_asymm less))
    (pairwise_specifiers others) (pairwise_specifiers dependencies)

variable (graph : ModuleGraph) (chunks : ChunkGraph)

/-- The fields of the table. -/
def importFields (dependencies : List Dependency) : List (String × Json) :=
  (specifiers dependencies).filterMap fun specifier =>
    (importFor? dependencies specifier).map fun dependency =>
      (specifier, targetJson graph chunks dependency)

theorem map_fst_importFields (dependencies : List Dependency) :
    (importFields graph chunks dependencies).map Prod.fst = specifiers dependencies := by
  rw [importFields, List.map_filterMap]
  refine (List.filterMap_congr fun specifier listed => ?_).trans List.filterMap_some
  obtain ⟨dependency, member, rfl⟩ := mem_specifiers.1 listed
  obtain ⟨kept, found⟩ := exists_importFor? member
  rw [found]
  rfl

theorem mem_importFields (agrees : Agrees dependencies)
    (stands : Stands dependencies specifier dependency) :
    (specifier, targetJson graph chunks dependency) ∈ importFields graph chunks dependencies := by
  refine List.mem_filterMap.2 ⟨specifier, ?_, ?_⟩
  · exact mem_specifiers.2 ⟨dependency, stands.listed, stands.named⟩
  · rw [(importFor?_eq_some_iff agrees).2 stands]
    rfl

theorem isTextual_dependencyTable (dependencies : List Dependency) :
    (dependencyTable graph chunks dependencies).IsTextual := by
  refine .object fun field listed => ?_
  obtain ⟨specifier, _, made⟩ := List.mem_filterMap.1 listed
  obtain ⟨dependency, _, rfl⟩ := Option.map_eq_some_iff.1 made
  change (targetJson graph chunks dependency).IsTextual
  unfold targetJson
  cases dependency.timing with
  | sync => exact .string _
  | async =>
      refine .array fun item member => ?_
      rcases List.mem_append.1 member with name | key
      · obtain ⟨chunk, _, rfl⟩ := List.mem_map.1 name
        exact .string chunk.name
      · rw [List.mem_singleton.1 key]
        exact .string _

/-- The table has one field for every specifier. An import on demand lists the chunks to fetch and
then the key of the target; a specifier that is imported at the start only has the key. -/
structure IsImportTable (dependencies : List Dependency) (fields : List (String × Json)) :
    Prop where
  distinct : (fields.map Prod.fst).Nodup
  keys (specifier : String) : specifier ∈ fields.map Prod.fst ↔
    ∃ dependency ∈ dependencies, dependency.specifier = specifier
  onDemand : ∀ dependency ∈ dependencies, dependency.timing = .async →
    (dependency.specifier, Json.array (((chunks.loadSet dependency.target).map (·.name) ++
      [graph.keyOf dependency.target]).map Json.string)) ∈ fields
  atStart : ∀ dependency ∈ dependencies,
    (∀ other ∈ dependencies, other.specifier = dependency.specifier → other.timing = .sync) →
      (dependency.specifier, Json.string (graph.keyOf dependency.target)) ∈ fields

/-- The text is read as the table of the imports, and the same imports in another order or number
have the same text. -/
structure Tabulates (dependencies : List Dependency) (text : String) : Prop where
  table : ∃ fields, Json.parse? text = some (.object fields) ∧
    IsImportTable graph chunks dependencies fields
  orderFree : ∀ others : List Dependency,
    (∀ dependency, dependency ∈ others ↔ dependency ∈ dependencies) →
      (dependencyTable graph chunks others).render = text

variable {graph chunks}

theorem isImportTable_importFields (agrees : Agrees dependencies) :
    IsImportTable graph chunks dependencies (importFields graph chunks dependencies) := by
  have names := map_fst_importFields graph chunks dependencies
  constructor
  case distinct =>
    rw [names]
    exact nodup_specifiers dependencies
  case keys =>
    intro specifier
    rw [names, mem_specifiers]
  case onDemand =>
    intro dependency listed isAsync
    have field := mem_importFields graph chunks agrees
      ⟨listed, rfl, fun _ => ⟨dependency, listed, rfl, isAsync⟩, fun _ => isAsync⟩
    rw [targetJson, isAsync] at field
    rwa [List.map_append, List.map_map]
  case atStart =>
    intro dependency listed onlySync
    have isSync := onlySync dependency listed rfl
    have field := mem_importFields graph chunks agrees ⟨listed, rfl, fun isAsync => ?_, ?_⟩
    · rwa [targetJson, isSync] at field
    · exact ⟨dependency, listed, rfl, isAsync⟩
    · rintro ⟨other, listed', same, isAsync⟩
      exact absurd ((onlySync other listed' same).symm.trans isAsync) (by decide)

theorem tabulates_of_agrees (agrees : Agrees dependencies) :
    Tabulates graph chunks dependencies (dependencyTable graph chunks dependencies).render := by
  constructor
  case table =>
    exact ⟨importFields graph chunks dependencies,
      Json.parse?_render (isTextual_dependencyTable graph chunks dependencies),
      isImportTable_importFields agrees⟩
  case orderFree =>
    intro others same
    rw [dependencyTable, specifiers_congr same, dependencyTable]
    simp only [importFor?_congr agrees same]

end

end Chunk

namespace Discovery

open Chunk

variable {project : Project} {graph : ModuleGraph}

/-- A specifier of a module stands for one file, so its imports have one target. -/
theorem agrees_of_explains {module : Module} (explains : Explains project graph module) :
    Agrees module.dependencies := by
  cases isScript : module.isScript with
  | false =>
      rw [explains.other isScript]
      intro first listed
      cases listed
  | true =>
      obtain ⟨found, follows, same⟩ := explains.script isScript
      have finds : ∀ dependency ∈ module.dependencies,
          Finds project graph (directoryOf module) dependency.specifier dependency.target := by
        intro dependency listed
        rw [same, List.mem_eraseDups] at listed
        obtain ⟨statement, _, follows⟩ := exists_of_forall₂ follows.flip listed
        rw [follows.specifier]
        exact follows.target
      intro first listed second listed' named
      obtain ⟨path, leads, target⟩ := finds first listed
      obtain ⟨path', leads', target'⟩ := finds second listed'
      rw [named, leads', Option.some_inj] at leads
      rw [leads, target, Option.some_inj] at target'
      exact target'

theorem agrees_of_moduleGraph {storage : Storage} {options : Options} {transform : Transform}
    (found : moduleGraph storage options transform = .ok graph) {id : Nat} {module : Module}
    (stands : graph.module? id = some module) : Agrees module.dependencies := by
  obtain ⟨search, resolved, ended⟩ := exists_rounds_of_moduleGraph found
  exact agrees_of_explains ((isClosure_of_rounds resolved ended).modules id module stands)

end Discovery

namespace Chunk

/-- Where the imports of one specifier have one target, they are tabulated without loss, and in the
graph that a search finds this is so for every module. -/
theorem tabulates_imports (graph : ModuleGraph) (chunks : ChunkGraph) :
    (∀ dependencies, Agrees dependencies →
      Tabulates graph chunks dependencies (dependencyTable graph chunks dependencies).render) ∧
    ∀ storage options transform, Discovery.moduleGraph storage options transform = .ok graph →
      ∀ id module, graph.module? id = some module → Agrees module.dependencies :=
  ⟨fun _ => tabulates_of_agrees, fun _ _ _ found _ _ => Discovery.agrees_of_moduleGraph found⟩

/-- One specifier that is imported both ways, and one that has to be escaped. -/
def mixedImports : List Dependency :=
  [⟨1, .async, "./page"⟩, ⟨3, .sync, "./\"tool\""⟩, ⟨1, .sync, "./page"⟩]

/-- The chunks of the two pages, with one for the tool. -/
def toolChunks : ChunkGraph := numbered (finalDrafts (spreadDrafts twoPages toolRules {}))

theorem tabulates_mixedImports :
    Agrees mixedImports ∧
      Tabulates twoPages toolChunks mixedImports
        (dependencyTable twoPages toolChunks mixedImports).render ∧
      ∀ id module, Discovery.pagesGraph.module? id = some module → Agrees module.dependencies :=
  have agrees : Agrees mixedImports := by decide
  ⟨agrees, (tabulates_imports twoPages toolChunks).1 mixedImports agrees,
    (tabulates_imports Discovery.pagesGraph toolChunks).2 _ _ _ Discovery.moduleGraph_pages⟩

end Chunk

end WebBundle
