import WebBundle.Chunk.Draft
import WebBundle.Diagnostic.Order

/-!
# Modules held more than once

A module that no cache group took and that several drafts hold moves into a chunk shared by exactly
its holders. Modules with the same holders move into one chunk, which is named for them.
-/

namespace WebBundle.Chunk

/-- The modules that move: those not yet moved that have several holders. -/
def repeated (drafts : List Draft) (moved : List Nat) : List Nat :=
  (seen drafts).filter fun module => module ∉ moved && 2 ≤ (holders drafts module).length

/-- The lists of holders, in the order in which they are first met. -/
def holderLists (drafts : List Draft) (modules : List Nat) : List (List Nat) :=
  (modules.map (holders drafts)).eraseDups

def sharedName (drafts : List Draft) (parents : List Nat) : String :=
  let names := (parents.filterMap fun parent => drafts[parent]?).map (·.name)
  "default~" ++ "~".intercalate (names.mergeSort fun a b => textLe a.toList b.toList)

/-- One draft for every list of holders. -/
def dedupDrafts (drafts : List Draft) (moved : List Nat) : List Draft :=
  let modules := repeated drafts moved
  (holderLists drafts modules).map fun parents =>
    .shared (sharedName drafts parents) none drafts
      (modules.filter fun module => holders drafts module = parents) parents

/-- The drafts without the modules that moved. -/
def withoutMoved (drafts : List Draft) (moved : List Nat) : List Draft :=
  drafts.map fun draft => { draft with modules := draft.modules.filter (· ∉ moved) }

end WebBundle.Chunk
