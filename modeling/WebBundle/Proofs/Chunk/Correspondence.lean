import WebBundle.Proofs.Chunk.Rendering

/-!
# The order of discovery

Which number a module has depends on the order in which the modules were found. Two graphs
correspond if what their entries reach is the same but for these numbers. They split into the same
chunks and write the same files, and what no entry reaches only shows in the reports on it.
-/

namespace WebBundle

namespace ModuleGraph

variable {number extended : Nat → Nat} {graph other : ModuleGraph}

/-- One graph is the other on all that the entries reach, content included, under numbers that tell
the modules apart. -/
structure Corresponds (number : Nat → Nat) (graph other : ModuleGraph) : Prop
    extends Mirrors number graph other where
  injective : Set.InjOn number {id | graph.Reachable id}
  content : ∀ id, graph.Reachable id →
    (other.module? (number id)).map (·.content) = (graph.module? id).map (·.content)

/-- The other graph reaches nothing else. -/
theorem Mirrors.reachable_iff (mirrors : Mirrors number graph other) {id : Nat} :
    other.Reachable id ↔ ∃ source, graph.Reachable source ∧ number source = id := by
  constructor
  · rintro ⟨entry, listed, root, isRoot, leads⟩
    rw [mirrors.entries] at listed
    obtain ⟨origin, known, rfl⟩ := List.mem_map.1 listed
    obtain ⟨first, within, rfl⟩ := List.mem_map.1 isRoot
    induction leads with
    | refl => exact ⟨first, reachable_of_mem_entry known within, rfl⟩
    | tail _ imports ih =>
        obtain ⟨source, reachable, rfl⟩ := ih
        obtain ⟨mirrored, member, rfl⟩ := imports
        rw [mirrors.dependencies reachable] at member
        obtain ⟨dependency, there, rfl⟩ := List.mem_map.1 member
        exact ⟨dependency.target, reachable.imports ⟨dependency, there, rfl⟩, rfl⟩
  · rintro ⟨source, ⟨entry, listed, root, isRoot, leads⟩, rfl⟩
    induction leads with
    | refl =>
        have mirrored : entry.relabel number ∈ other.entries := by
          rw [mirrors.entries]
          exact List.mem_map_of_mem listed
        exact reachable_of_mem_entry mirrored (List.mem_map_of_mem isRoot)
    | @tail source target leads imports ih =>
        obtain ⟨dependency, member, rfl⟩ := imports
        refine ih.imports ⟨dependency.relabel number, ?_, rfl⟩
        rw [mirrors.dependencies ⟨entry, listed, root, isRoot, leads⟩]
        exact List.mem_map_of_mem member

theorem Corresponds.bijOn (corresponds : Corresponds number graph other) :
    Set.BijOn number {id | graph.Reachable id} {id | other.Reachable id} := by
  refine ⟨fun id reachable => ?_, corresponds.injective, fun id reachable => ?_⟩
  · exact corresponds.reachable_iff.2 ⟨id, reachable, rfl⟩
  · exact corresponds.reachable_iff.1 reachable

/-! ## Numbers of what is not reachable -/

/-- Only the numbers of what is reachable matter. -/
theorem Mirrors.congr (agree : ∀ id, graph.Reachable id → extended id = number id)
    (mirrors : Mirrors number graph other) : Mirrors extended graph other := by
  constructor
  case entries =>
    rw [mirrors.entries]
    refine List.map_congr_left fun entry listed => ?_
    have roots : entry.modules.map number = entry.modules.map extended :=
      List.map_congr_left fun root isRoot =>
        (agree root (reachable_of_mem_entry listed isRoot)).symm
    rw [Entry.relabel, roots, Entry.relabel]
  case modules =>
    intro id reachable
    rw [agree id reachable]
    rcases mirrors.module?_cases reachable with
      ⟨none, none'⟩ | ⟨module, mirrored, found, found', same⟩
    · rw [none, none']
      exact .none
    · rw [found, found']
      refine .some { same with dependencies := same.dependencies.trans ?_ }
      refine List.map_congr_left fun dependency listed => ?_
      have isTarget : graph.Imports id dependency.target :=
        ⟨dependency, by simpa [ModuleGraph.dependencies, found], rfl⟩
      rw [Dependency.relabel, Dependency.relabel, agree _ (reachable.imports isTarget)]

theorem Corresponds.congr (agree : ∀ id, graph.Reachable id → extended id = number id)
    (corresponds : Corresponds number graph other) : Corresponds extended graph other where
  toMirrors := corresponds.toMirrors.congr agree
  injective := corresponds.injective.congr fun id reachable => (agree id reachable).symm
  content id reachable := by
    rw [agree id reachable]
    exact corresponds.content id reachable

/-- Numbers that tell what is reachable apart can be taken to tell everything apart. -/
theorem Corresponds.exists_injective (corresponds : Corresponds number graph other) :
    ∃ extended, Function.Injective extended ∧
      (∀ id, graph.Reachable id → extended id = number id) ∧
        Corresponds extended graph other := by
  have injOn : Set.InjOn number {id | id ∈ graph.reachable} := by
    simpa only [mem_reachable] using corresponds.injective
  obtain ⟨extended, injective, agree⟩ := exists_injective_of_injOn injOn
  have agree : ∀ id, graph.Reachable id → extended id = number id :=
    fun id reachable => agree id (mem_reachable.2 reachable)
  exact ⟨extended, injective, agree, corresponds.congr agree⟩

theorem Corresponds.sizeOf (corresponds : Corresponds number graph other) {id : Nat}
    (reachable : graph.Reachable id) :
    Chunk.sizeOf other (number id) = Chunk.sizeOf graph id := by
  have content := corresponds.content id reachable
  unfold Chunk.sizeOf
  rcases corresponds.module?_cases reachable with
    ⟨none, none'⟩ | ⟨module, mirrored, found, found', _⟩
  · simp [none, none']
  · have same : mirrored.content = module.content := by simpa [found, found'] using content
    simp [found, found', Module.size, same]

theorem Corresponds.sameBody (corresponds : Corresponds number graph other) {id : Nat}
    (reachable : graph.Reachable id) : Chunk.SameBody number graph other id := by
  have content := corresponds.content id reachable
  unfold Chunk.SameBody
  rcases corresponds.module?_cases reachable with
    ⟨none, none'⟩ | ⟨module, mirrored, found, found', same⟩
  · simp [none, none']
  · have sameContent : mirrored.content = module.content := by
      simpa [found, found'] using content
    rw [found, found', Option.map_some, Option.map_some, Chunk.moduleBody, Module.isScript,
      sameContent, same.resource, Chunk.moduleBody, Module.isScript]

end ModuleGraph

theorem ChunkGraph.Within.relabel_congr {chunks : ChunkGraph} {graph : ModuleGraph}
    (within : chunks.Within graph) {number extended : Nat → Nat}
    (agree : ∀ id, graph.Reachable id → extended id = number id) :
    chunks.relabel extended = chunks.relabel number := by
  rw [ChunkGraph.relabel, ChunkGraph.relabel]
  congr 1
  refine List.map_congr_left fun chunk listed => ?_
  have modules : chunk.modules.map extended = chunk.modules.map number :=
    List.map_congr_left fun id held => agree id (within.modules chunk listed id held)
  have roots : chunk.roots.map extended = chunk.roots.map number :=
    List.map_congr_left fun id isRoot => agree id (within.roots chunk listed id isRoot)
  rw [Chunk.relabel, modules, roots, Chunk.relabel]

namespace Chunk

open CacheGroup ModuleGraph

variable {number : Nat → Nat} {graph other : ModuleGraph}

/-- Splitting and writing tell two graphs apart by nothing but the numbers of modules, and the
reports on modules that no entry reaches. -/
structure SplitsAlike (number : Nat → Nat) (graph other : ModuleGraph) (rules : List Rule)
    (limits : Limits) : Prop where
  chunks : (split other rules limits).2 = (split graph rules limits).2.map (·.relabel number)
  reports : (split other rules limits).1.filter (·.code ≠ .dangling) =
    (split graph rules limits).1.filter (·.code ≠ .dangling)
  written : ∀ (emission : Emission) (chunks : ChunkGraph),
    (split graph rules limits).2 = .ok chunks →
      EmittedChunk.emit emission other (chunks.relabel number) =
        (EmittedChunk.emit emission graph chunks).mapError (·.relabel number)

/-- An import without a module is one of a reachable module. -/
theorem reachable_of_missingTarget? {chunks : ChunkGraph} (within : chunks.Within graph)
    {missing : Unallocated} (found : missingTarget? graph chunks = some missing) :
    graph.Reachable missing.id := by
  obtain ⟨target, first, rfl⟩ := Option.map_eq_some_iff.1 found
  obtain ⟨dependency, listed, rfl⟩ := List.mem_map.1 (List.mem_of_find?_eq_some first)
  obtain ⟨chunk, inside, listed⟩ := List.mem_flatMap.1 listed
  obtain ⟨source, held, listed⟩ := List.mem_flatMap.1 listed
  exact (within.modules chunk inside source held).imports ⟨dependency, listed, rfl⟩

/-- The order in which modules are found does not show in the chunks. -/
theorem splitsAlike_of_corresponds (corresponds : Corresponds number graph other)
    (rules : List Rule) (limits : Limits) : SplitsAlike number graph other rules limits := by
  obtain ⟨extended, injective, agree, renumbered⟩ := corresponds.exists_injective
  have sizes : SizesAgree limits extended graph other :=
    Or.inr fun id reachable => renumbered.sizeOf reachable
  obtain ⟨chunks, reports⟩ := split_mirrored injective renumbered.toMirrors sizes rules
  have within : ∀ chunks, (split graph rules limits).2 = .ok chunks → chunks.Within graph :=
    fun chunks made => within_of_split (Prod.ext rfl made)
  constructor
  case chunks =>
    rw [chunks]
    cases made : (split graph rules limits).2 with
    | error error => rfl
    | ok chunks => exact congrArg Except.ok ((within chunks made).relabel_congr agree)
  case reports => exact reports
  case written =>
    intro emission chunks made
    have inside := within chunks made
    have written := EmittedChunk.emit_mirrored emission injective renumbered.toMirrors inside
      fun id reachable => renumbered.sameBody reachable
    rw [← inside.relabel_congr agree, written, EmittedChunk.emit]
    cases found : missingTarget? graph chunks with
    | none => rfl
    | some missing =>
        have same := agree missing.id (reachable_of_missingTarget? inside found)
        change Except.error (Unallocated.relabel extended missing) = Except.error _
        rw [Unallocated.relabel, same]
        rfl

/-- The two pages, found in another order, with another file that no entry reaches. -/
def shuffledPages : ModuleGraph where
  root := "/app"
  modules := ⟨#[
    moduleAt 0 "tool.js" [],
    moduleAt 1 "panel.js" [⟨0, .sync, "./tool"⟩],
    moduleAt 2 "old.js" [⟨3, .sync, "./main"⟩],
    moduleAt 3 "main.js" [⟨4, .async, "./page"⟩, ⟨1, .async, "./panel"⟩],
    moduleAt 4 "page.js" [⟨0, .sync, "./tool"⟩]]⟩
  entries := [⟨"main", [3]⟩]

/-- Where the modules of the two pages are among the shuffled ones. -/
def shuffle (id : Nat) : Nat := [3, 4, 1, 0].getD id id

theorem corresponds_shuffledPages : Corresponds shuffle twoPages shuffledPages := by
  have known : ∀ id, twoPages.Reachable id → id = 0 ∨ id = 1 ∨ id = 2 ∨ id = 3 := by
    have reached : twoPages.reachable = [0, 1, 3, 2] := by cbv
    intro id reachable
    have member := mem_reachable.2 reachable
    rw [reached] at member
    simp at member
    omega
  constructor
  case toMirrors =>
    refine ⟨rfl, fun id reachable => ?_⟩
    rcases known id reachable with rfl | rfl | rfl | rfl <;> exact .some ⟨rfl, rfl, rfl⟩
  case injective =>
    intro first reachable second reachable' same
    rcases known first reachable with rfl | rfl | rfl | rfl <;>
      rcases known second reachable' with rfl | rfl | rfl | rfl <;> simp [shuffle] at same ⊢
  case content =>
    intro id reachable
    rcases known id reachable with rfl | rfl | rfl | rfl <;> rfl

theorem splitsAlike_shuffledPages :
    Corresponds shuffle twoPages shuffledPages ∧
      SplitsAlike shuffle twoPages shuffledPages toolRules {} ∧
        (split shuffledPages toolRules {}).2.map (fun chunks => chunks.chunks.map (·.modules)) =
          .ok [[3], [4], [1], [0], []] := by
  have alike := splitsAlike_of_corresponds corresponds_shuffledPages toolRules {}
  refine ⟨corresponds_shuffledPages, alike, ?_⟩
  rw [alike.chunks]
  cbv

end Chunk

end WebBundle
