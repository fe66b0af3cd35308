import Mathlib.Data.List.Basic
import Mathlib.Data.List.Induction
import WebBundle.Proofs.Storage.Items

/-!
# Trees of items

In a tree every item lies in a directory. So nothing lies below a free place, and every place above
an item is a directory. Changes at one place keep what lies elsewhere, in the order in which it is
kept.
-/

namespace WebBundle.Storage

variable {storage : Storage} {place other : Place} {item : Item}

theorem isPrefixOf_eq_false : place.isPrefixOf other = false ↔ ¬place <+: other := by
  rw [← List.isPrefixOf_iff_prefix, Bool.not_eq_true]

theorem dropLast_ne (below : place ≠ []) : place.dropLast ≠ place := by
  intro same
  have length := congrArg List.length same
  rw [List.length_dropLast] at length
  have positive := List.length_pos_iff.2 below
  omega

/-- Every item lies in a directory. -/
def IsTree (storage : Storage) : Prop :=
  ∀ entry ∈ storage.items, storage.itemAt? entry.1.dropLast = some .directory

theorem exists_mem_of_itemAt? (held : storage.itemAt? place = some item) (below : place ≠ []) :
    (place, item) ∈ storage.items := by
  rw [itemAt?_of_ne_nil below, List.lookup_eq_some_iff] at held
  obtain ⟨before, after, same, _⟩ := held
  rw [same]
  exact List.mem_append_right _ List.mem_cons_self

theorem exists_itemAt?_of_mem {entry : Place × Item} (listed : entry ∈ storage.items) :
    ∃ item, storage.itemAt? entry.1 = some item := by
  by_cases root : entry.1 = []
  · rw [root]
    exact ⟨.directory, rfl⟩
  · rw [itemAt?_of_ne_nil root]
    refine Option.ne_none_iff_exists'.1 fun free => ?_
    have absent := List.lookup_eq_none_iff.1 free entry listed
    simp at absent

namespace IsTree

theorem directory_above (tree : storage.IsTree) (held : storage.itemAt? place = some item)
    (above : other <+: place) (ne : other ≠ place) : storage.itemAt? other = some .directory := by
  induction place using List.reverseRecOn generalizing item with
  | nil => exact absurd (List.prefix_nil.1 above) ne
  | append_singleton place name ih =>
      have listed := exists_mem_of_itemAt? held (by simp)
      have inside : storage.itemAt? place = some .directory := by
        have inside := tree _ listed
        rwa [List.dropLast_concat] at inside
      have above : other <+: place := (List.prefix_concat_iff.1 above).resolve_left ne
      by_cases same : other = place
      · rw [same, inside]
      · exact ih inside above same

theorem free_below (tree : storage.IsTree) (free : storage.itemAt? place = none)
    (below : place <+: other) : storage.itemAt? other = none := by
  cases held : storage.itemAt? other with
  | none => rfl
  | some item =>
      by_cases same : place = other
      · rw [← same, free] at held
        cases held
      · rw [tree.directory_above held below same] at free
        cases free

/-- A free place is not removed. -/
theorem removeAt_of_free (tree : storage.IsTree) (free : storage.itemAt? place = none) :
    storage.removeAt place = storage := by
  have stays : storage.items.filter (fun entry => !place.isPrefixOf entry.1) =
      storage.items := by
    refine List.filter_eq_self.2 fun entry listed => ?_
    obtain ⟨item, held⟩ := exists_itemAt?_of_mem listed
    have outside : ¬place <+: entry.1 := by
      intro below
      rw [tree.free_below free below] at held
      cases held
    exact congrArg Bool.not (isPrefixOf_eq_false.2 outside)
  change { storage with items := storage.items.filter fun entry => !place.isPrefixOf entry.1 } =
    storage
  rw [stays]

theorem removeAt (tree : storage.IsTree) (place : Place) : (storage.removeAt place).IsTree := by
  intro entry listed
  obtain ⟨listed, outside⟩ := List.mem_filter.1 listed
  have outside : (!place.isPrefixOf entry.1) = true := outside
  have outside : ¬place <+: entry.1 := isPrefixOf_eq_false.1 (Bool.not_eq_true' _ ▸ outside)
  rw [itemAt?_removeAt_of_not fun above => outside (above.trans (List.dropLast_prefix _))]
  exact tree entry listed

/-- An item may be put into a directory, unless a directory is in its place. -/
theorem put (tree : storage.IsTree) (below : place ≠ [])
    (inside : storage.itemAt? place.dropLast = some .directory)
    (change : storage.itemAt? place = some .directory → item = .directory) :
    (storage.put place item).IsTree := by
  intro entry listed
  rw [itemAt?_put below]
  cases List.mem_cons.1 listed with
  | inl same =>
      rw [same]
      rw [if_neg (dropLast_ne below)]
      exact inside
  | inr other =>
      have above := tree entry ((List.mem_filter.1 other).1)
      split
      next same =>
        rw [same] at above
        rw [change above]
      next => exact above

end IsTree

/-! ## Changes near a place -/

theorem removeAt_put (above : place <+: other) (item : Item) :
    (storage.put other item).removeAt place = storage.removeAt place := by
  have inside : (!place.isPrefixOf other) = false := by simpa using above
  have others : (storage.items.filter fun kept => kept.1 ≠ other).filter
      (fun kept => !place.isPrefixOf kept.1) =
        storage.items.filter fun kept => !place.isPrefixOf kept.1 := by
    rw [List.filter_filter]
    refine List.filter_congr fun entry _ => ?_
    by_cases same : entry.1 = other
    · simp [same, above]
    · simp [same]
  rw [removeAt, put]
  dsimp only
  rw [List.filter_cons_of_neg (by simp [inside]), others, removeAt]

theorem removeAt_clearAt (storage : Storage) (place : Place) :
    (storage.clearAt place).removeAt place = storage.removeAt place := by
  have twice : (storage.items.filter fun entry =>
      entry.1 = place || !place.isPrefixOf entry.1).filter
        (fun entry => !place.isPrefixOf entry.1) =
          storage.items.filter fun entry => !place.isPrefixOf entry.1 := by
    rw [List.filter_filter]
    refine List.filter_congr fun entry _ => ?_
    cases place.isPrefixOf entry.1 <;> simp
  rw [removeAt, clearAt]
  dsimp only
  rw [twice, removeAt]

/-- One place lies above the other, or they are the same. -/
def Near (place other : Place) : Prop := place <+: other ∨ other <+: place

/-- What lies in a place was changed, and directories were made above it. -/
inductive Alters (place : Place) (storage : Storage) : Storage → Prop where
  | refl : Alters place storage storage
  | remove {later : Storage} (alters : Alters place storage later) :
      Alters place storage (later.removeAt place)
  | put {later : Storage} {other : Place} {item : Item} (alters : Alters place storage later)
      (inside : place <+: other) (below : other ≠ []) : Alters place storage (later.put other item)
  | make {later : Storage} {other : Place} (alters : Alters place storage later)
      (above : other <+: place) (free : later.itemAt? other = none) :
      Alters place storage (later.put other .directory)

/-- A file that does not lie in the place. -/
def isFileOutside (place : Place) : Place × Item → Bool
  | (other, .file _) => !place.isPrefixOf other
  | _ => false

theorem isFileOutside_eq_false {entry : Place × Item} (inside : place <+: entry.1) :
    isFileOutside place entry = false := by
  obtain ⟨other, item⟩ := entry
  have within : place.isPrefixOf other = true := List.isPrefixOf_iff_prefix.2 inside
  cases item with
  | file bytes => rw [isFileOutside, within, Bool.not_true]
  | directory => rfl
  | link target => rfl

/-- Files that are not replaced stay when an item is put. -/
theorem filter_put (notFile : isFileOutside place (other, item) = false)
    (replaced : ∀ entry ∈ storage.items, entry.1 = other → isFileOutside place entry = false) :
    (storage.put other item).items.filter (isFileOutside place) =
      storage.items.filter (isFileOutside place) := by
  rw [put, List.filter_cons_of_neg (by simp [notFile]), List.filter_filter]
  refine List.filter_congr fun entry listed => ?_
  by_cases same : entry.1 = other
  · simp [replaced entry listed same]
  · simp [same]

namespace Alters

variable {later : Storage} (alters : Alters place storage later)

include alters

theorem workingDirectory : later.workingDirectory = storage.workingDirectory := by
  induction alters with
  | refl => rfl
  | remove _ ih => exact ih
  | put _ _ _ ih => exact ih
  | make _ _ _ ih => exact ih

/-- What is elsewhere stays. -/
theorem itemAt?_eq (apart : ¬Near place other) : later.itemAt? other = storage.itemAt? other := by
  induction alters with
  | refl => rfl
  | remove _ ih => rw [itemAt?_removeAt_of_not fun inside => apart (.inl inside), ih]
  | put _ inside below ih =>
      rw [itemAt?_put below, if_neg, ih]
      rintro rfl
      exact apart (.inl inside)
  | make _ above free ih =>
      rw [itemAt?_put (ne_nil_of_itemAt?_eq_none free), if_neg, ih]
      rintro rfl
      exact apart (.inr above)

/-- Files that do not lie in the place stay, in their order. -/
theorem filter_outside_eq :
    later.items.filter (isFileOutside place) = storage.items.filter (isFileOutside place) := by
  induction alters with
  | refl => rfl
  | remove _ ih =>
      rw [← ih, Storage.removeAt, List.filter_filter]
      refine List.filter_congr fun entry _ => ?_
      by_cases inside : place <+: entry.1
      · rw [isFileOutside_eq_false inside, Bool.false_and]
      · simp [isPrefixOf_eq_false.2 inside]
  | put _ inside _ ih =>
      rw [filter_put (isFileOutside_eq_false inside) fun entry _ same =>
        isFileOutside_eq_false (same ▸ inside), ih]
  | make _ above free ih =>
      rw [filter_put rfl, ih]
      intro entry listed same
      obtain ⟨item, held⟩ := exists_itemAt?_of_mem listed
      rw [same, free] at held
      cases held

end Alters

/-! ## Changes inside a place -/

/-- Items are put at places inside another one. -/
inductive PutsIn (base : Place) (storage : Storage) : Storage → Prop where
  | refl : PutsIn base storage storage
  | put {later : Storage} {place : Place} {item : Item} (puts : PutsIn base storage later)
      (inside : base <+: place) (below : place ≠ []) : PutsIn base storage (later.put place item)

namespace PutsIn

variable {base : Place} {later latest : Storage}

theorem trans (before : PutsIn base storage later) (after : PutsIn base later latest) :
    PutsIn base storage latest := by
  induction after with
  | refl => exact before
  | put _ inside below ih => exact .put ih inside below

/-- What is put inside a place is removed with it. -/
theorem removeAt_eq (puts : PutsIn base storage later) :
    later.removeAt base = storage.removeAt base := by
  induction puts with
  | refl => rfl
  | put _ inside _ ih => rw [removeAt_put inside, ih]

theorem alters {origin : Storage} (puts : PutsIn base storage later)
    (alters : Alters place origin storage) (inside : place <+: base) :
    Alters place origin later := by
  induction puts with
  | refl => exact alters
  | put _ within below ih => exact .put ih (inside.trans within) below

end PutsIn

end WebBundle.Storage
