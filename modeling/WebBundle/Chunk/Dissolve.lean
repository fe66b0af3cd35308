import WebBundle.Chunk.Draft

/-!
# Drafts that lost all modules

An entry or a group started on demand from which cache groups took modules must keep one. Where
only sharing emptied it, an entry stays and still starts its roots, and a group started on demand
is dissolved: its parents take its place as parents of other drafts.
-/

namespace WebBundle.Chunk

/-- A chunk that cache groups emptied. -/
structure EmptyChunk where
  chunk : String
  groups : List String
  deriving DecidableEq, Repr

def EmptyChunk.message (error : EmptyChunk) : String :=
  "chunk '" ++ error.chunk ++ "' has no modules left after cache groups " ++
    ", ".intercalate (error.groups.map fun group => "'" ++ group ++ "'")

/-- The names of the accepted cache groups that took a module from the draft at a place. -/
def drainedBy (accepted : List Draft) (place : Nat) : List String :=
  ((accepted.filter fun draft => place ∈ draft.parents).map (·.name)).eraseDups

/-- The first draft that cache groups emptied. -/
def emptyChunk? (accepted drafts : List Draft) : Option EmptyChunk :=
  drafts.zipIdx.findSome? fun (draft, place) =>
    let groups := drainedBy accepted place
    if draft.modules.isEmpty && !groups.isEmpty then some ⟨draft.name, groups⟩ else none

/-- A draft started on demand that holds nothing. -/
def isDissolved (draft : Draft) : Bool := draft.kind = .onDemand && draft.modules.isEmpty

/-- The places of the drafts that are dissolved. -/
def dissolvedPlaces (drafts : List Draft) : List Nat :=
  drafts.zipIdx.filterMap fun (draft, place) => if isDissolved draft then some place else none

/-- Puts the parents `inherited` in the place of a parent. -/
def replaceParent (place : Nat) (inherited parents : List Nat) : List Nat :=
  if place ∈ parents then
    let others := parents.erase place
    (others ++ inherited.filter (· ∉ others)).mergeSort
  else parents

/-- Hands the parents of the draft at a place to the drafts that it is a parent of. -/
def dissolve (drafts : List Draft) (place : Nat) : List Draft :=
  match drafts[place]? with
  | none => drafts
  | some gone =>
      drafts.map fun draft =>
        { draft with parents := replaceParent place gone.parents draft.parents }

/-- Dissolves the drafts at some places, one after the other. -/
def dissolveAll (drafts : List Draft) (places : List Nat) : List Draft :=
  places.foldl dissolve drafts

end WebBundle.Chunk
