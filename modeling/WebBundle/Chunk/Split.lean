import WebBundle.Chunk.Claims
import WebBundle.Chunk.Dedup
import WebBundle.Chunk.Dissolve

/-!
# Splitting a module graph into chunks

Cache groups take their modules out of the load groups first, modules that are still held more than
once are shared next, and drafts without modules are dealt with last. Every module that an entry
reaches ends in one chunk; the others are reported.
-/

namespace WebBundle.Chunk

open CacheGroup

/-- The runtime belongs to all entries. -/
def runtimeDraft (drafts : List Draft) : Draft where
  name := runtimeName
  kind := .runtime
  initial := true
  modules := []
  parents := drafts.zipIdx.filterMap fun (draft, place) =>
    if draft.kind = .entry then some place else none

def danglingDiagnostic (module : Module) : Diagnostic where
  severity := .warning
  code := .dangling
  message := "module is unreachable from every entry and was dropped"
  location := some module.name

/-- A report on every module that no draft holds. -/
def danglingModules (graph : ModuleGraph) (drafts : List Draft) : List Diagnostic :=
  let placed := drafts.flatMap (·.modules)
  (graph.modules.toList.filter fun module => module.id ∉ placed).map danglingDiagnostic

/-- The places of the drafts that become chunks. -/
def livePlaces (drafts : List Draft) : List Nat :=
  drafts.zipIdx.filterMap fun (draft, place) => if isDissolved draft then none else some place

/-- The new number of every parent that lives, in rising order. -/
def renumbered (live parents : List Nat) : List Nat :=
  ((parents.filter (· ∈ live)).map fun parent => live.idxOf parent).mergeSort

/-- The drafts that live, with their parents by number. -/
def liveDrafts (drafts : List Draft) : List Draft :=
  let live := livePlaces drafts
  (live.filterMap fun place => drafts[place]?).map fun draft =>
    { draft with parents := renumbered live draft.parents }

def childrenOf (drafts : List Draft) (id : Nat) : List Nat :=
  drafts.zipIdx.filterMap fun (draft, child) => if id ∈ draft.parents then some child else none

def ofDraft (drafts : List Draft) (draft : Draft) (id : Nat) : Chunk where
  id
  name := draft.name
  kind := draft.kind
  initial := draft.initial
  modules := draft.modules
  roots := draft.roots
  parents := draft.parents
  children := childrenOf drafts id
  group := draft.group

/-- The chunks of the drafts that live. -/
def numbered (drafts : List Draft) : ChunkGraph :=
  let live := liveDrafts drafts
  ⟨live.mapIdx fun id draft => ofDraft live draft id⟩

/-- The drafts once modules have moved: the load groups, the chunks of cache groups, and the chunks
of shared modules. -/
def movedDrafts (groups accepted : List Draft) : List Draft :=
  let taken := accepted.flatMap (·.modules)
  let deduped := dedupDrafts groups taken
  withoutMoved groups (taken ++ deduped.flatMap (·.modules)) ++ accepted ++ deduped

/-- All drafts, once those emptied by sharing are dissolved, with the runtime at the end. -/
def finalDrafts (drafts : List Draft) : List Draft :=
  let drafts := dissolveAll drafts (dissolvedPlaces drafts)
  drafts ++ [runtimeDraft drafts]

/-- Splits a module graph, and reports what is left out. The report on cache groups stands even if
splitting fails. -/
def split (graph : ModuleGraph) (rules : List Rule) (limits : Limits) :
    List Diagnostic × Except EmptyChunk ChunkGraph :=
  let groups := graph.placedGroups.map Draft.ofGroup
  let (accepted, unused) := cacheGroupDrafts graph rules limits groups
  let drafts := movedDrafts groups accepted
  match emptyChunk? accepted (drafts.take groups.length) with
  | some error => (unused, .error error)
  | none =>
      let final := finalDrafts drafts
      (unused ++ danglingModules graph final, .ok (numbered final))

end WebBundle.Chunk
