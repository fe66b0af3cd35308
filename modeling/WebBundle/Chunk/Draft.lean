import WebBundle.Chunk.Basic
import WebBundle.LoadGroup.Folding

/-!
# Drafts of chunks

While modules are distributed, a chunk is a draft whose parents are places in the list of drafts.
The drafts of the load groups come first. A module may be held by several of them; how the holders
of a module are listed decides which modules are shared together.
-/

namespace WebBundle.Chunk

structure Draft where
  name : String
  kind : ChunkKind
  initial : Bool
  modules : List Nat
  roots : List Nat := []
  group : Option String := none
  parents : List Nat
  deriving DecidableEq, Repr

namespace Draft

def kindOf : LoadGroup.Start → ChunkKind
  | .entry => .entry
  | .onDemand => .onDemand

def ofGroup (placed : LoadGroup.Placed) : Draft where
  name := placed.group.name
  kind := kindOf placed.group.start
  initial := placed.group.start = .entry
  modules := placed.group.modules
  roots := placed.group.roots
  parents := placed.parents

/-- A draft for modules that leave the drafts `parents`. -/
def shared (name : String) (group : Option String) (drafts : List Draft) (modules parents : List Nat) :
    Draft where
  name
  kind := .shared
  initial := parents.any fun parent => (drafts[parent]?.map (·.initial)).getD false
  modules
  group
  parents

end Draft

/-- The places of the drafts that hold a module, in rising order. -/
def holders (drafts : List Draft) (module : Nat) : List Nat :=
  drafts.zipIdx.filterMap fun (draft, place) => if module ∈ draft.modules then some place else none

/-- All modules that drafts hold, in the order in which they are first seen. -/
def seen (drafts : List Draft) : List Nat := (drafts.flatMap (·.modules)).eraseDups

/-- All places that hold one of some modules, in rising order. -/
def holdersOfAny (drafts : List Draft) (modules : List Nat) : List Nat :=
  (modules.flatMap (holders drafts)).mergeSort.eraseDups

end WebBundle.Chunk
