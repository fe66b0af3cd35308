import WebBundle.Storage.Basic

/-!
# Changes between storages

What leads from one storage to another: places whose item is gone or of another kind are removed,
from the deepest up, and then the items that are new or different are put, from the root down.
-/

namespace WebBundle.Storage

inductive Change where
  | remove (place : Place) (item : Item)
  | put (place : Place) (item : Item)

/-- Whether two items are of one kind. A link is a kind of its own with every target. -/
def Item.sameKind : Item → Item → Bool
  | .file _, .file _ => true
  | .directory, .directory => true
  | .link a, .link b => a = b
  | _, _ => false

def Item.same : Item → Item → Bool
  | .file a, .file b => a.toList = b.toList
  | a, b => a.sameKind b

/-- The items of one storage to which another has none that is equal under a relation. -/
def itemsWithout (storage other : Storage) (equal : Item → Item → Bool) : List (Place × Item) :=
  storage.items.filter fun (place, item) =>
    match other.itemAt? place with
    | some found => !equal item found
    | none => true

/-- What has to be done to one storage to reach another. -/
def changes (before after : Storage) : List Change :=
  let gone := (before.itemsWithout after Item.sameKind).mergeSort fun a b =>
    b.1.length ≤ a.1.length
  let new := (after.itemsWithout before Item.same).mergeSort fun a b => a.1.length ≤ b.1.length
  gone.map (fun (place, item) => .remove place item) ++
    new.map fun (place, item) => .put place item

/-- Adds a file with the missing directories above it. A path at which there can be no file adds
none. -/
def withFile (storage : Storage) (path : String) (bytes : ByteArray) : Storage :=
  let made := (storage.makeDirectories ((Path.parent? path).getD "")).1
  match made.write path bytes with
  | .ok written => written
  | .error _ => made

end WebBundle.Storage
