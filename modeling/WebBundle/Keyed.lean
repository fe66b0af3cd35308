/-!
# Items with keys

In a list of items with keys, an item replaces the earlier ones of its key: the last item of every
key stays, in its place, and every replacement can be listed.
-/

namespace WebBundle.Keyed

variable {α : Type} (key : α → String)

/-- The items whose key does not come again. -/
def lasts : List α → List α
  | [] => []
  | item :: items =>
      if items.any (fun other => key other = key item) then lasts items else item :: lasts items

/-- The pairs of an item and the nearest earlier one of its key, in the order of the items.
`earlier` holds the items before the list, last first. -/
def replacements (earlier : List α) : List α → List (α × α)
  | [] => []
  | item :: items =>
      let later := replacements (item :: earlier) items
      match earlier.find? fun other => key other = key item with
      | some old => (old, item) :: later
      | none => later

theorem mem_of_mem_lasts {items : List α} {item : α} (h : item ∈ lasts key items) :
    item ∈ items := by
  induction items with
  | nil => simp [lasts] at h
  | cons first items ih =>
      unfold lasts at h
      split at h
      · exact List.mem_cons_of_mem _ (ih h)
      · rcases List.mem_cons.1 h with rfl | later
        · exact List.mem_cons_self
        · exact List.mem_cons_of_mem _ (ih later)

theorem mem_lasts_append_singleton (items : List α) (last : α) :
    last ∈ lasts key (items ++ [last]) := by
  induction items with
  | nil => simp [lasts]
  | cons first items ih =>
      rw [List.cons_append, lasts]
      split
      next => exact ih
      next => exact List.mem_cons_of_mem first ih

end WebBundle.Keyed
